import FormulaMachine.Proofs.Compiler.Discovery

namespace FormulaMachine

namespace Program

inductive Accesses (p : Program) : List Entry → List Postfix.Instruction → Prop
  | nil : Accesses p [] []
  | load {name : String} {w : Variable} {l : Location} {e : Entry} {es : List Entry}
      {code : List Postfix.Instruction} (hw : p.vars.get? name = some w)
      (hl : w.location = some l)
      (hop : e.opcode = Draft.loadOpcode (Draft.elementKind w.type) l) (hes : Accesses p es code) :
      Accesses p (e :: es) (.read name :: code)
  | store {name : String} {w : Variable} {l : Location} {e : Entry} {es : List Entry}
      {code : List Postfix.Instruction} (hw : p.vars.get? name = some w)
      (hl : w.location = some l)
      (hop : e.opcode = Draft.storeOpcode (Draft.elementKind w.type) l) (hes : Accesses p es code) :
      Accesses p (e :: es) (.write name :: code)
  | neither {e : Entry} {es : List Entry} {code : List Postfix.Instruction}
      (hop : e.opcode.location? = none) (hes : Accesses p es code) : Accesses p (e :: es) code

namespace Accesses

variable {p : Program} {es es' : List Entry} {code code' : List Postfix.Instruction}

theorem append (h : p.Accesses es code) (h' : p.Accesses es' code') :
    p.Accesses (es ++ es') (code ++ code') := by
  induction h with
  | nil => exact h'
  | load hw hl hop _ ih => exact .load hw hl hop ih
  | store hw hl hop _ ih => exact .store hw hl hop ih
  | neither hop _ ih => exact .neither hop ih

theorem after_neither (h' : p.Accesses es' code) (h : ∀ e ∈ es, e.opcode.location? = none) :
    p.Accesses (es ++ es') code := by
  induction es with
  | nil => exact h'
  | cons e es ih =>
      obtain ⟨he, hes⟩ := List.forall_mem_cons.mp h
      exact .neither he (ih hes)

theorem exists_store {name : String} {v : Variable} (h : p.Accesses es code)
    (hname : .write name ∈ code) (hv : p.vars.get? name = some v) :
    ∃ e ∈ es, ∃ l, v.location = some l ∧
      e.opcode = Draft.storeOpcode (Draft.elementKind v.type) l := by
  induction h with
  | nil => cases hname
  | load _ _ _ _ ih =>
      obtain ⟨e, he, h⟩ := ih ((List.mem_cons.mp hname).resolve_left nofun)
      exact ⟨e, List.mem_cons_of_mem _ he, h⟩
  | store hw hl hop _ ih =>
      rcases List.mem_cons.mp hname with heq | hname
      · obtain rfl := Postfix.Instruction.write.inj heq
        obtain rfl := Option.some.inj (hv.symm.trans hw)
        exact ⟨_, List.mem_cons_self, _, hl, hop⟩
      · obtain ⟨e, he, h⟩ := ih hname
        exact ⟨e, List.mem_cons_of_mem _ he, h⟩
  | neither _ _ ih =>
      obtain ⟨e, he, h⟩ := ih hname
      exact ⟨e, List.mem_cons_of_mem _ he, h⟩

theorem exists_read {e : Entry} {number : Nat} (h : p.Accesses es code) (he : e ∈ es)
    (hop : e.opcode = .loadMatrix number) :
    ∃ name w, .read name ∈ code ∧ p.vars.get? name = some w ∧
      w.location = some (.matrix number) := by
  induction h with
  | nil => cases he
  | @load name w l e' es code hw hl hop' _ ih =>
      rcases List.mem_cons.mp he with rfl | he
      · have hlocation : some (.matrix number) = some l := by
          have heq := congrArg Opcode.location? (hop.symm.trans hop')
          rcases l with offset | n | n <;> exact heq
        exact ⟨name, w, List.mem_cons_self, hw, hl.trans hlocation.symm⟩
      · obtain ⟨name, w, hname, h⟩ := ih he
        exact ⟨name, w, List.mem_cons_of_mem _ hname, h⟩
  | @store name w l e' es code _ _ hop' _ ih =>
      rcases List.mem_cons.mp he with rfl | he
      · rw [hop] at hop'
        rcases l with offset | n | n <;> cases hop'
      · obtain ⟨name, w, hname, h⟩ := ih he
        exact ⟨name, w, List.mem_cons_of_mem _ hname, h⟩
  | neither hop' _ ih =>
      rcases List.mem_cons.mp he with rfl | he
      · rw [hop] at hop'
        cases hop'
      · exact ih he

end Accesses

end Program

namespace Draft

variable {p : Program} {o : CompileOptions} {line : Nat} {d d' : Draft} {hs : List Held}
  {es : List Entry}

theorem Copies.location? (h : Copies es) : ∀ e ∈ es, e.opcode.location? = none := by
  intro e he
  obtain ⟨depth, target, hop⟩ := h e he
  rw [hop]
  rfl

theorem ConvertEntries.location? {x x' : Held} {t : DataType}
    (h : ConvertEntries p line x x' t es) : ∀ e ∈ es, e.opcode.location? = none := by
  rcases h with ⟨-, -, rfl⟩ | ⟨j, k, -, -, -, rfl⟩
  · exact fun e he => absurd he List.not_mem_nil
  · exact List.forall_mem_singleton.mpr rfl

theorem widenEntry_location? (line : Nat) (ws : List Widening) :
    ∀ e ∈ ws.map (widenEntry line), e.opcode.location? = none := by
  intro e he
  obtain ⟨w, -, rfl⟩ := List.mem_map.mp he
  rfl

theorem Applies.location? {kernel : Kernel} {r : Resolution} {rest xs ys : List Held} {x : Held}
    {opcode : Opcode} (h : Applies p kernel r rest xs ys x opcode) : opcode.location? = none := by
  cases h <;> rfl

theorem instruction_accesses {i : Postfix.Instruction} (hd : d.layout.Sound)
    (hslots : SlotsHold p d.layout d.stack.slots hs) (hdepth : hs.length ≤ d.maxDepth)
    (h : instruction o line d i = .ok d') (hlead : d'.Leads p) :
    ∃ es hs', d.Emits p d' hs es hs' ∧ p.Accesses es (if i.isAccess then [i] else []) := by
  cases i with
  | read name =>
      obtain ⟨w, l, hw, hl, hemits⟩ := read_emits hd hslots hdepth h hlead
      exact ⟨_, _, hemits, .load hw hl rfl .nil⟩
  | write name =>
      obtain ⟨w, l, x, x', rest, rest', casts, copies, -, hw, hl, hcasts, hcopies, -, -, hemits⟩ :=
        write_emits hd hslots hdepth h hlead
      refine ⟨_, _, hemits, ?_⟩
      rw [List.append_assoc]
      refine .after_neither (.after_neither ?_ hcopies.location?) hcasts.location?
      exact .store hw hl rfl .nil
  | const typeName literal =>
      obtain ⟨k, x, -, -, -, hemits⟩ := const_emits_at hslots hdepth h hlead
      exact ⟨_, _, hemits, .neither rfl .nil⟩
  | cast typeName =>
      obtain ⟨t, x, x', rest, j, k, -, -, hemits, -⟩ := cast_emits hslots hdepth h
      exact ⟨_, _, hemits, .neither rfl .nil⟩
  | operator name =>
      obtain ⟨kernel, r, xs, ys, x, rest, opcode, spelling, -, -, -, happlies, hemits⟩ :=
        operator_emits hd hslots hdepth h hlead
      refine ⟨_, _, hemits, .after_neither ?_ (widenEntry_location? line _)⟩
      exact .neither happlies.location? .nil

theorem lines_access {lines : List (Nat × Except Error Postfix.Instruction)}
    (hd : Written p d hs) (h : lines.foldlM (Draft.line o) d = .ok d') (hlead : d'.Leads p) :
    ∃ es, d'.code.toList = d.code.toList ++ es ∧ p.Accesses es (Postfix.accesses lines) := by
  induction lines generalizing d hs with
  | nil =>
      obtain rfl : d = d' := Except.ok.inj h
      exact ⟨[], (List.append_nil _).symm, .nil⟩
  | cons l lines ih =>
      rw [List.foldlM_cons] at h
      obtain ⟨d₁, hl, h⟩ := bind_eq_ok h
      obtain ⟨i, hi, hinstr⟩ := line_eq_ok hl
      obtain ⟨es₁, hs₁, hemits, haccesses⟩ := instruction_accesses hd.sound hd.slots
        hd.admits.length_end_le hinstr ((lines_extend h).leads hlead)
      obtain ⟨es, hcode, hrest⟩ := ih (hd.emits (instruction_extends hinstr) hemits) h
      refine ⟨es₁ ++ es, by rw [hcode, hemits.code, List.append_assoc], ?_⟩
      have hlines : Postfix.accesses (l :: lines) =
          (if i.isAccess then [i] else []) ++ Postfix.accesses lines := by
        rw [Postfix.accesses_cons hi]
        split <;> rfl
      rw [hlines]
      exact haccesses.append hrest

end Draft

theorem accesses_of_compile {text : String} {vs : Variables} {o : CompileOptions} {p : Program}
    (hvs : vs.Fresh) (h : compile text vs o = .ok p) :
    p.Accesses p.code.toList (Postfix.accesses (Postfix.instructions text)) := by
  obtain ⟨d, hd, -, hlead, hcode, -, -⟩ := compile_eq_ok h
  obtain ⟨es, hes, haccesses⟩ := Draft.lines_access (Draft.written_start hvs) hd hlead
  obtain rfl : es = p.code.toList := by
    rw [← hcode, hes]
    rfl
  exact haccesses

end FormulaMachine
