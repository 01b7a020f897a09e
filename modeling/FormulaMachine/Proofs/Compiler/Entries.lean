import FormulaMachine.Program.Listing
import FormulaMachine.Proofs.Compiler.Emission

namespace FormulaMachine

namespace Draft

variable {o : CompileOptions} {line : Nat} {d d' : Draft}

inductive Inserts (line : Nat) : Postfix.Instruction → Entry → Prop
  | conversion (name : String) (j k : Kind) : Inserts line (.write name)
      ⟨.cast j k 0 true, line, [.scalar j], some (.scalar k), none⟩
  | copy (name : String) (depth target : Nat) (t : DataType) : Inserts line (.write name)
      ⟨.copyMatrix depth target, line, [t], some t, none⟩
  | widening (name : String) (w : Widening) : Inserts line (.operator name) (widenEntry line w)

inductive Makes (line : Nat) : Postfix.Instruction → Entry → Prop
  | load (name : String) (k : Kind) (l : Location) (t : DataType) : Makes line (.read name)
      ⟨loadOpcode k l, line, [], some t, none⟩
  | store (name : String) (k : Kind) (l : Location) (t : DataType) : Makes line (.write name)
      ⟨storeOpcode k l, line, [t], none, none⟩
  | constant (typeName : Option String) (literal : String) (offset : Nat) (k : Kind) :
      Makes line (.const typeName literal)
        ⟨.loadConstant offset k, line, [], some (.scalar k), none⟩
  | cast (typeName : String) (j k : Kind) (s t : DataType) : Makes line (.cast typeName)
      ⟨.cast j k 0 false, line, [s], some t, some typeName⟩
  | scalar (name : String) (kernel : Kernel) (k : Kind) (inputs : List DataType)
      (output : DataType) (spelling : Option String) : Makes line (.operator name)
        ⟨.scalar kernel k, line, inputs, some output, spelling⟩
  | matrix (name : String) (op : MatrixOp) (target : Nat) (inputs : List DataType)
      (output : DataType) (spelling : Option String) : Makes line (.operator name)
        ⟨.matrix op target, line, inputs, some output, spelling⟩

section Facts

variable {i : Postfix.Instruction} {e : Entry}

theorem Inserts.line_eq (h : Inserts line i e) : e.line = line := by
  cases h <;> rfl

theorem Inserts.spelling_eq (h : Inserts line i e) : e.spelling = none := by
  cases h <;> rfl

theorem Makes.line_eq (h : Makes line i e) : e.line = line := by
  cases h <;> rfl

theorem Makes.not_isInserted (h : Makes line i e) : Program.isInserted e = false := by
  cases h with
  | load name k l | store name k l => cases l <;> rfl
  | _ => rfl

end Facts

theorem toList_emit (d : Draft) (line : Nat) (opcode : Opcode) (inputs : List DataType)
    (output : Option DataType) (spelling : Option String) :
    (d.emit line opcode inputs output spelling).code.toList =
      d.code.toList ++ [⟨opcode, line, inputs, output, spelling⟩] :=
  Array.toList_push

theorem detachSlots_adds {number depth : Nat} {slots slots' : List Slot} (name : String)
    (h : detachSlots line number depth slots d = .ok (slots', d')) :
    ∃ copies, d'.code.toList = d.code.toList ++ copies ∧
      ∀ e ∈ copies, Inserts line (.write name) e := by
  induction slots generalizing depth slots' d' with
  | nil =>
      obtain ⟨-, rfl⟩ := Prod.mk.inj (Except.ok.inj h)
      exact ⟨[], (List.append_nil _).symm, fun e he => absurd he List.not_mem_nil⟩
  | cons s slots ih =>
      obtain ⟨slots₁, d₁, hrest, ⟨-, -, rfl⟩ | ⟨s', -, hs, -⟩⟩ := detachSlots_cons_eq_ok h
      · exact ih hrest
      · obtain ⟨copies, hcode, hcopies⟩ := ih hrest
        obtain ⟨-, -, -, rfl⟩ := detachSlot_eq_ok hs
        refine ⟨copies ++ [_], ?_, List.forall_mem_append.mpr
          ⟨hcopies, List.forall_mem_singleton.mpr (.copy name depth d₁.matrices.size s.type)⟩⟩
        rw [toList_emit, ← List.append_assoc, ← hcode]

theorem write_adds {name : String} (h : write line d name = .ok d') :
    ∃ inserted own, d'.code.toList = d.code.toList ++ (inserted ++ [own]) ∧
      (∀ e ∈ inserted, Inserts line (.write name) e) ∧ Makes line (.write name) own := by
  obtain ⟨s, rest, v, w, l, y, d₁, d₂, -, -, -, -, -, -, hconvert, hdetach, rfl⟩ := write_eq_ok h
  have hconverted : ∃ casts, d₁.code.toList = d.code.toList ++ casts ∧
      ∀ e ∈ casts, Inserts line (.write name) e := by
    rcases hconvert with ⟨-, rfl⟩ | ⟨j, k, -, -, rfl⟩
    · exact ⟨[], (List.append_nil _).symm, fun e he => absurd he List.not_mem_nil⟩
    · exact ⟨_, toList_emit .., List.forall_mem_singleton.mpr (.conversion name j k)⟩
  have hdetached : ∃ copies, d₂.code.toList = d₁.code.toList ++ copies ∧
      ∀ e ∈ copies, Inserts line (.write name) e := by
    rcases detachTarget_eq_ok hdetach with ⟨-, rfl⟩ | ⟨number, slots, d₃, -, hslots, rfl⟩
    · exact ⟨[], (List.append_nil _).symm, fun e he => absurd he List.not_mem_nil⟩
    · obtain ⟨copies, hcode, hcopies⟩ := detachSlots_adds name hslots
      exact ⟨copies, hcode, hcopies⟩
  obtain ⟨casts, hcasts, hcast⟩ := hconverted
  obtain ⟨copies, hcopies, hcopy⟩ := hdetached
  refine ⟨casts ++ copies, _, ?_, List.forall_mem_append.mpr ⟨hcast, hcopy⟩,
    .store name (elementKind w.type) l w.type⟩
  rw [toList_emit, hcopies, hcasts, List.append_assoc, List.append_assoc, List.append_assoc]

theorem operator_adds {name : String} (h : operator o line d name = .ok d') :
    ∃ kernel r own, Kernel.ofName? name = some kernel ∧
      kernel.resolve o.implicitCasts ((d.stack.slots.take kernel.arity).map Slot.type).reverse =
        .ok r ∧
      d'.code.toList = d.code.toList ++ (r.widenings.map (widenEntry line) ++ [own]) ∧
      Makes line (.operator name) own := by
  obtain ⟨kernel, r, opcode, d₁, spelling, hname, -, hr, hop, rfl⟩ := operator_eq_ok h
  refine ⟨kernel, r, ⟨opcode, line, r.inputs, some r.output, spelling⟩, hname, hr, ?_, ?_⟩
  · have hcode : d₁.code.toList = d.code.toList ++ r.widenings.map (widenEntry line) := by
      rw [← (foldl_widen line r.widenings d).1]
      rcases operationOpcode_eq_ok hop with ⟨_, _, -, -, rfl⟩ | ⟨_, -, -, -, rfl⟩ <;> rfl
    rw [← List.append_assoc, ← hcode]
    exact toList_emit ..
  · rcases operationOpcode_eq_ok hop with ⟨kernel', k, -, rfl, -⟩ | ⟨op, -, rfl, -, -⟩
    · exact .scalar name kernel' k r.inputs r.output spelling
    · exact .matrix name op _ r.inputs r.output spelling

theorem instruction_adds {i : Postfix.Instruction} (h : instruction o line d i = .ok d') :
    ∃ inserted own, d'.code.toList = d.code.toList ++ (inserted ++ [own]) ∧
      (∀ e ∈ inserted, Inserts line i e) ∧ Makes line i own := by
  cases i with
  | read name =>
      obtain ⟨v, l, y, -, -, -, -, rfl⟩ := read_eq_ok h
      exact ⟨[], _, toList_emit .., fun e he => absurd he List.not_mem_nil,
        .load name (elementKind v.type) l v.type⟩
  | write name => exact write_adds h
  | const typeName literal =>
      obtain ⟨k, x, -, -, rfl⟩ := const_eq_ok h
      exact ⟨[], _, toList_emit .., fun e he => absurd he List.not_mem_nil,
        .constant typeName literal _ k⟩
  | cast typeName =>
      obtain ⟨t, s, rest, -, -, -, rfl⟩ := cast_eq_ok h
      exact ⟨[], _, toList_emit .., fun e he => absurd he List.not_mem_nil,
        .cast typeName (elementKind s.type) (elementKind t) s.type t⟩
  | operator name =>
      obtain ⟨kernel, r, own, -, -, hcode, hown⟩ := operator_adds h
      refine ⟨_, own, hcode, fun e he => ?_, hown⟩
      obtain ⟨w, -, rfl⟩ := List.mem_map.mp he
      exact .widening name w

end Draft

end FormulaMachine
