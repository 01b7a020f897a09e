import FormulaMachine.Proofs.Compiler.Compile

namespace FormulaMachine

def Error.fitCodes : List String :=
  ["bad_type", "untyped_variable", "duplicate_type_binding", "unsupported_cast",
    "incompatible_write", "unsupported_operation", "mismatched_dimensions", "stack_too_deep",
    "allocation_failed"]

theorem Error.code_ne_of_unfit {e : Error} {code : String} (h : e.code ∈ fitCodes)
    (hcode : code ∉ fitCodes) : e.code ≠ code :=
  fun heq => hcode (heq ▸ h)

theorem Postfix.code_of_refused {text : String} {e : Error}
    {l : Nat × Except Error Postfix.Instruction} (hl : l ∈ Postfix.instructions text)
    (h : l.2 = .error e) : e.code = "missing_name" ∨ e.code = "bad_instruction" := by
  obtain ⟨m, -, rfl⟩ := List.mem_map.mp hl
  replace h : Postfix.Instruction.ofLine m.1 m.2 = .error e := h
  unfold Postfix.Instruction.ofLine at h
  split at h
  case h_3 | h_4 =>
    obtain rfl := Except.error.inj h
    exact .inl rfl
  case h_8 =>
    split at h
    · obtain rfl := Except.error.inj h
      exact .inr rfl
    · cases h
  case h_9 =>
    obtain rfl := Except.error.inj h
    exact .inr rfl
  all_goals cases h

namespace Draft

inductive Refusal (o : CompileOptions) (line : Nat) (d : Draft) :
    Postfix.Instruction → Error → Prop
  | unknownRead {name : String} (h : d.vars.get? name = none) :
      Refusal o line d (.read name) (.unknownVariable name)
  | unknownWrite {name : String} (h : d.vars.get? name = none) :
      Refusal o line d (.write name) (.unknownVariable name)
  | badLiteral {typeName : Option String} {literal : String} {k : Kind}
      (hk : literalKind o line typeName = .ok k) (h : Scalar.read? k literal.toList = none) :
      Refusal o line d (.const typeName literal) (.badLiteral line literal k)
  | nothingToWrite {name : String} (h : d.stack.slots = []) :
      Refusal o line d (.write name) (.nothingToWrite line name)
  | nothingToCast {typeName : String} (h : d.stack.slots = []) :
      Refusal o line d (.cast typeName) (.nothingToCast line typeName)
  | unknownOperator {name : String} (h : Kernel.ofName? name = none) :
      Refusal o line d (.operator name) (.unknownOpcode line name)
  | operandsMissing {name : String} {kernel : Kernel} (hname : Kernel.ofName? name = some kernel)
      (h : d.stack.depth < kernel.arity) :
      Refusal o line d (.operator name) (.operandsMissing line name kernel.arity d.stack.depth)
  | unfit {i : Postfix.Instruction} {e : Error} (h : e.code ∈ Error.fitCodes) : Refusal o line d i e

section Stages

variable {o : CompileOptions} {line : Nat} {d : Draft} {e : Error}

theorem addMatrix_error {t : DataType} {external : Option External}
    (h : d.addMatrix t external = .error e) : e.code = "allocation_failed" := by
  unfold addMatrix at h
  split at h
  · cases h
  · obtain rfl := Except.error.inj h
    rfl

theorem allocate_error {v : Variable} (h : d.allocate v = .error e) :
    e.code = "allocation_failed" := by
  unfold allocate at h
  split at h
  · cases h
  split at h
  · split at h
    · rename_i hadd
      obtain rfl := Except.error.inj h
      exact addMatrix_error hadd
    · cases h
  split at h
  · split at h
    · cases h
    · obtain rfl := Except.error.inj h
      rfl
  · split at h
    · cases h
    · obtain rfl := Except.error.inj h
      rfl

theorem push_error {limit : Option Nat} {s : Slot} (h : d.push limit line s = .error e) :
    e.code = "stack_too_deep" := by
  unfold push at h
  dsimp only at h
  split at h
  · cases h
  · split at h
    · obtain rfl := Except.error.inj h
      rfl
    · cases h

theorem inferType_error {v : Variable} {t : DataType} (h : inferType v t = .error e) :
    e.code ∈ Error.fitCodes := by
  unfold inferType Variable.bind at h
  split at h
  · split at h
    · obtain rfl := Except.error.inj h
      simp [Error.code, Error.fitCodes]
    split at h
    · obtain rfl := Except.error.inj h
      simp [Error.code, Error.fitCodes]
    · cases h
  · cases h

theorem convertForWrite_error {name : String} {s t : DataType}
    (h : convertForWrite line name s t d = .error e) : e.code = "incompatible_write" := by
  unfold convertForWrite at h
  split at h
  · cases h
  split at h
  · cases h
  · obtain rfl := Except.error.inj h
    rfl

theorem detachSlot_error {depth : Nat} {s : Slot} (h : detachSlot line depth s d = .error e) :
    e.code ∈ Error.fitCodes := by
  unfold detachSlot at h
  split at h
  · obtain rfl := Except.error.inj h
    simp [Error.code, Error.fitCodes]
  split at h
  · rename_i hadd
    obtain rfl := Except.error.inj h
    rw [addMatrix_error hadd]
    decide
  · cases h

theorem detachSlots_error {number depth : Nat} {slots : List Slot}
    (h : detachSlots line number depth slots d = .error e) : e.code ∈ Error.fitCodes := by
  induction slots generalizing depth with
  | nil => cases h
  | cons s slots ih =>
      unfold detachSlots at h
      rcases bind_eq_error h with h | ⟨⟨slots₁, d₁⟩, -, h⟩
      · exact ih h
      dsimp only at h
      split at h
      · rcases bind_eq_error h with h | ⟨r, -, h⟩
        · exact detachSlot_error h
        · cases h
      · cases h

theorem detachTarget_error {l : Location} (h : detachTarget line d l = .error e) :
    e.code ∈ Error.fitCodes := by
  unfold detachTarget at h
  split at h
  · rcases bind_eq_error h with h | ⟨r, -, h⟩
    · exact detachSlots_error h
    · cases h
  · cases h

theorem resolve_error {name : String} {operands : List DataType} {α : Type}
    {x : Except ResolveError α} (h : x.mapError (ofResolveError line name operands) = .error e) :
    e.code ∈ Error.fitCodes := by
  cases x with
  | ok a => cases h
  | error refusal =>
      obtain rfl := Except.error.inj h
      cases refusal <;> simp [ofResolveError, Error.code, Error.fitCodes]

theorem operationOpcode_error {r : Resolution} (h : d.operationOpcode r = .error e) :
    e.code = "allocation_failed" := by
  unfold operationOpcode at h
  split at h
  · cases h
  · split at h
    · rename_i hadd
      obtain rfl := Except.error.inj h
      exact addMatrix_error hadd
    · cases h

theorem unfit_allocate {i : Postfix.Instruction} (h : e.code = "allocation_failed") :
    Refusal o line d i e :=
  .unfit (by rw [h]; decide)

theorem unfit_push {i : Postfix.Instruction} (h : e.code = "stack_too_deep") :
    Refusal o line d i e :=
  .unfit (by rw [h]; decide)

theorem read_refusal {name : String} (h : read o line d name = .error e) :
    Refusal o line d (.read name) e := by
  unfold read at h
  split at h
  · rename_i hnone
    obtain rfl := Except.error.inj h
    exact .unknownRead hnone
  split at h
  · obtain rfl := Except.error.inj h
    exact .unfit (by simp [Error.code, Error.fitCodes])
  split at h
  · rename_i halloc
    obtain rfl := Except.error.inj h
    exact unfit_allocate (allocate_error halloc)
  · exact unfit_push (push_error h)

theorem const_refusal {typeName : Option String} {literal : String}
    (h : const o line d typeName literal = .error e) :
    Refusal o line d (.const typeName literal) e := by
  unfold const at h
  split at h
  · rename_i hk
    obtain rfl := Except.error.inj h
    unfold literalKind at hk
    split at hk
    · cases hk
    · split at hk
      · cases hk
      · obtain rfl := Except.error.inj hk
        exact .unfit (by simp [Error.code, Error.fitCodes])
  · rename_i hk
    split at h
    · rename_i hx
      obtain rfl := Except.error.inj h
      exact .badLiteral hk hx
    · exact unfit_push (push_error h)

theorem write_refusal {name : String} (h : write line d name = .error e) :
    Refusal o line d (.write name) e := by
  unfold write at h
  split at h
  · rename_i hslots
    obtain rfl := Except.error.inj h
    exact .nothingToWrite hslots
  dsimp only at h
  split at h
  · rename_i hnone
    obtain rfl := Except.error.inj h
    exact .unknownWrite hnone
  rcases bind_eq_error h with h | ⟨w, -, h⟩
  · exact .unfit (inferType_error h)
  rcases bind_eq_error h with h | ⟨⟨l, d₁⟩, -, h⟩
  · exact unfit_allocate (allocate_error h)
  rcases bind_eq_error h with h | ⟨d₂, -, h⟩
  · exact .unfit (by rw [convertForWrite_error h]; decide)
  rcases bind_eq_error h with h | ⟨d₃, -, h⟩
  · exact .unfit (detachTarget_error h)
  · cases h

theorem cast_refusal {typeName : String} (h : cast o line d typeName = .error e) :
    Refusal o line d (.cast typeName) e := by
  unfold cast at h
  split at h
  · obtain rfl := Except.error.inj h
    exact .unfit (by simp [Error.code, Error.fitCodes])
  split at h
  · rename_i hslots
    obtain rfl := Except.error.inj h
    exact .nothingToCast hslots
  split at h
  · exact unfit_push (push_error h)
  · obtain rfl := Except.error.inj h
    exact .unfit (by simp [Error.code, Error.fitCodes])

theorem operator_refusal {name : String} (h : operator o line d name = .error e) :
    Refusal o line d (.operator name) e := by
  unfold operator at h
  split at h
  · rename_i hname
    obtain rfl := Except.error.inj h
    exact .unknownOperator hname
  rename_i kernel hname
  split at h
  · rename_i hshort
    obtain rfl := Except.error.inj h
    exact .operandsMissing hname hshort
  rcases bind_eq_error h with h | ⟨r, -, h⟩
  · exact .unfit (resolve_error h)
  rcases bind_eq_error h with h | ⟨⟨opcode, d₁⟩, -, h⟩
  · exact unfit_allocate (operationOpcode_error h)
  · exact unfit_push (push_error h)

theorem instruction_refusal {i : Postfix.Instruction} (h : instruction o line d i = .error e) :
    Refusal o line d i e := by
  cases i with
  | read name => exact read_refusal h
  | write name => exact write_refusal h
  | const typeName literal => exact const_refusal h
  | cast typeName => exact cast_refusal h
  | operator name => exact operator_refusal h

theorem finish_error (h : d.finish = .error e) :
    e = .emptyProgram ∨ (d.stack.slots ≠ [] ∧ e.code = "incomplete_sequence") ∨
      e.code ∈ Error.fitCodes := by
  have hunused (xs : List String) (d : Draft) (h : xs.foldlM allocateUnused d = .error e) :
      e.code ∈ Error.fitCodes := by
    induction xs generalizing d with
    | nil => cases h
    | cons x xs ih =>
        rw [List.foldlM_cons] at h
        rcases bind_eq_error h with h | ⟨d₁, -, h⟩
        · unfold allocateUnused at h
          split at h
          · cases h
          split at h
          · obtain rfl := Except.error.inj h
            simp [Error.code, Error.fitCodes]
          · rw [allocate_error (map_eq_error h)]
            decide
        · exact ih d₁ h
  unfold finish at h
  split at h
  · exact .inl (Except.error.inj h).symm
  split at h
  · rename_i hslots
    obtain rfl := Except.error.inj h
    exact .inr (.inl ⟨hslots, rfl⟩)
  · exact .inr (.inr (hunused _ d (map_eq_error h)))

end Stages

section Lines

variable {o : CompileOptions} {d : Draft} {e : Error}

theorem lines_refusal {lines : List (Nat × Except Error Postfix.Instruction)}
    (h : lines.foldlM (Draft.line o) d = .error e) :
    ∃ before l after d₁, lines = before ++ l :: after ∧
      before.foldlM (Draft.line o) d = .ok d₁ ∧
      (l.2 = .error e ∨ ∃ i, l.2 = .ok i ∧ Refusal o (l.1 % lineLimit) d₁ i e) := by
  induction lines generalizing d with
  | nil => cases h
  | cons l lines ih =>
      rw [List.foldlM_cons] at h
      rcases bind_eq_error h with h | ⟨d₁, hl, h⟩
      · refine ⟨[], l, lines, d, rfl, rfl, ?_⟩
        unfold Draft.line at h
        split at h
        · rename_i hl
          rw [hl, Except.error.inj h]
          exact .inl rfl
        · rename_i i hi
          exact .inr ⟨i, hi, instruction_refusal h⟩
      · obtain ⟨before, m, after, d₂, rfl, hd₂, hm⟩ := ih h
        refine ⟨l :: before, m, after, d₂, rfl, ?_, hm⟩
        rw [List.foldlM_cons, bind_of_ok hl, hd₂]

end Lines

end Draft

theorem compile_error {text : String} {vs : Variables} {o : CompileOptions} {e : Error}
    (h : compile text vs o = .error e) :
    (∃ before l after d, Postfix.instructions text = before ++ l :: after ∧
      before.foldlM (Draft.line o) (Draft.start vs) = .ok d ∧
      (l.2 = .error e ∨ ∃ i, l.2 = .ok i ∧ Draft.Refusal o (l.1 % Draft.lineLimit) d i e)) ∨
      ∃ d, (Postfix.instructions text).foldlM (Draft.line o) (Draft.start vs) = .ok d ∧
        d.finish = .error e := by
  rcases bind_eq_error h with h | ⟨d, hd, h⟩
  · exact .inl (Draft.lines_refusal h)
  · exact .inr ⟨d, hd, h⟩

end FormulaMachine
