import FormulaMachine.Proofs.Compiler.Refusal

namespace FormulaMachine

namespace Postfix.Instruction

def depthAfter? (n : Nat) : Instruction → Option Nat
  | .read _ | .const .. => some (n + 1)
  | .write _ => if 0 < n then some (n - 1) else none
  | .cast _ => if 0 < n then some n else none
  | .operator name => match Kernel.ofName? name with
    | some kernel => if kernel.arity ≤ n then some (n - kernel.arity + 1) else none
    | none => none

end Postfix.Instruction

namespace Error

def IsUnbalanced (e : Error) : Prop :=
  e.code = "stack_underflow" ∨ e.code = "incomplete_sequence"

structure Spares {α : Type} (x : Except Error α) : Prop where
  balanced : ∀ e, x = .error e → ¬ e.IsUnbalanced

section Spares

variable {α β : Type}

theorem spares_ok (a : α) : Spares (.ok a) :=
  ⟨fun _ h => by cases h⟩

theorem Spares.bind {x : Except Error α} {f : α → Except Error β} (hx : Spares x)
    (hf : ∀ a, x = .ok a → Spares (f a)) : Spares (x >>= f) := by
  refine ⟨fun e h => ?_⟩
  rcases bind_eq_error h with h | ⟨a, ha, h⟩
  · exact hx.balanced e h
  · exact (hf a ha).balanced e h

end Spares

end Error

namespace Draft

open Error

variable {o : CompileOptions} {line : Nat} {d d' : Draft}

section Spares

theorem not_isUnbalanced_of_unfit {e : Error} (h : e.code ∈ fitCodes) : ¬ e.IsUnbalanced :=
  not_or.mpr ⟨code_ne_of_unfit h (by decide), code_ne_of_unfit h (by decide)⟩

theorem instruction_spares (o : CompileOptions) (line : Nat) {d : Draft}
    {i : Postfix.Instruction} {n : Nat} (h : i.depthAfter? d.stack.depth = some n) :
    Spares (instruction o line d i) := by
  have hempty (hpos : 0 < d.stack.depth) : d.stack.slots ≠ [] := by
    rw [d.stack.depth_eq] at hpos
    exact List.length_pos_iff.mp hpos
  refine ⟨fun e he => ?_⟩
  cases instruction_refusal he with
  | unknownRead | unknownWrite | badLiteral | unknownOperator => simp [IsUnbalanced, Error.code]
  | nothingToWrite hslots =>
      simp only [Postfix.Instruction.depthAfter?, Option.ite_none_right_eq_some] at h
      exact absurd hslots (hempty h.1)
  | nothingToCast hslots =>
      simp only [Postfix.Instruction.depthAfter?, Option.ite_none_right_eq_some] at h
      exact absurd hslots (hempty h.1)
  | operandsMissing hname hshort =>
      simp only [Postfix.Instruction.depthAfter?, hname, Option.ite_none_right_eq_some] at h
      exact absurd h.1 (Nat.not_le.mpr hshort)
  | unfit hcode => exact not_isUnbalanced_of_unfit hcode

theorem finish_spares {d : Draft} (h : d.stack.depth = 0) : Spares d.finish := by
  have hslots : d.stack.slots = [] := List.length_eq_zero_iff.mp (d.stack.depth_eq ▸ h)
  refine ⟨fun e he => ?_⟩
  rcases finish_error he with rfl | ⟨hleft, -⟩ | hcode
  · simp [IsUnbalanced, Error.code]
  · exact absurd hslots hleft
  · exact not_isUnbalanced_of_unfit hcode

end Spares

theorem depth_foldl_widen (line : Nat) (ws : List Widening) (d : Draft) :
    (ws.foldl (widen line) d).stack.depth = d.stack.depth := by
  induction ws generalizing d with
  | nil => rfl
  | cons w ws ih => exact ih (widen line d w)

theorem length_detachSlots {number depth : Nat} {slots slots' : List Slot}
    (h : detachSlots line number depth slots d = .ok (slots', d')) :
    slots'.length = slots.length := by
  induction slots generalizing depth slots' d' with
  | nil =>
      obtain ⟨rfl, -⟩ := Prod.mk.inj (Except.ok.inj h)
      rfl
  | cons s slots ih =>
      obtain ⟨slots₁, d₁, hrest, ⟨-, rfl, -⟩ | ⟨s', -, -, rfl⟩⟩ := detachSlots_cons_eq_ok h <;>
        rw [List.length_cons, List.length_cons, ih hrest]

theorem depth_detachTarget {l : Location} (h : detachTarget line d l = .ok d') :
    d'.stack.depth = d.stack.depth := by
  rcases detachTarget_eq_ok h with ⟨-, rfl⟩ | ⟨number, slots, d₁, -, hslots, rfl⟩
  · rfl
  · rw [d.stack.depth_eq]
    exact length_detachSlots hslots

theorem Converts.depth_eq {s t : DataType} (h : Converts line s t d d') :
    d'.stack.depth = d.stack.depth := by
  rcases h with ⟨-, rfl⟩ | ⟨j, k, -, -, rfl⟩ <;> rfl

theorem depth_of_slots {s : Slot} {rest : List Slot} (h : d.stack.slots = s :: rest) :
    0 < d.stack.depth := by
  rw [d.stack.depth_eq, h]
  exact Nat.succ_pos _

theorem instruction_depth {i : Postfix.Instruction} (h : instruction o line d i = .ok d') :
    i.depthAfter? d.stack.depth = some d'.stack.depth := by
  cases i with
  | read name =>
      obtain ⟨v, l, y, -, -, -, -, rfl⟩ := read_eq_ok h
      rfl
  | const typeName literal =>
      obtain ⟨k, x, -, -, rfl⟩ := const_eq_ok h
      rfl
  | write name =>
      obtain ⟨s, rest, v, w, l, y, d₁, d₂, hslots, -, -, -, -, -, hconvert, hdetach, rfl⟩ :=
        write_eq_ok h
      have hdepth : d₂.stack.depth = d.stack.depth - 1 :=
        (depth_detachTarget hdetach).trans hconvert.depth_eq
      rw [Postfix.Instruction.depthAfter?, if_pos (depth_of_slots hslots), ← hdepth]
      rfl
  | cast typeName =>
      obtain ⟨t, s, rest, -, hslots, -, rfl⟩ := cast_eq_ok h
      have hpos := depth_of_slots hslots
      rw [Postfix.Instruction.depthAfter?, if_pos hpos]
      exact congrArg some (Nat.sub_add_cancel hpos).symm
  | operator name =>
      obtain ⟨kernel, r, opcode, d₁, spelling, hname, harity, -, hop, rfl⟩ := operator_eq_ok h
      have hdepth : d₁.stack.depth = d.stack.depth := by
        rw [← depth_foldl_widen line r.widenings d]
        rcases operationOpcode_eq_ok hop with ⟨_, _, -, -, rfl⟩ | ⟨_, -, -, -, rfl⟩ <;> rfl
      rw [← d.stack.depth_eq, ← hdepth] at harity
      simp only [Postfix.Instruction.depthAfter?, hname, ← hdepth, if_pos harity]
      rfl

end Draft

namespace Postfix

def depthAfter? (n : Nat) (code : List Instruction) : Option Nat :=
  code.foldlM (fun m i => i.depthAfter? m) n

theorem depthAfter?_append (n : Nat) (code rest : List Instruction) :
    depthAfter? n (code ++ rest) = (depthAfter? n code).bind fun m => depthAfter? m rest :=
  List.foldlM_append

theorem depthAfter?_singleton (n : Nat) (i : Instruction) :
    depthAfter? n [i] = i.depthAfter? n := by
  simp [depthAfter?]

end Postfix

namespace Draft

variable {o : CompileOptions} {d d' : Draft}

theorem lines_depth {lines : List (Nat × Except Error Postfix.Instruction)}
    {code : List Postfix.Instruction} (hlines : lines.map Prod.snd = code.map .ok)
    (h : lines.foldlM (Draft.line o) d = .ok d') :
    Postfix.depthAfter? d.stack.depth code = some d'.stack.depth := by
  induction lines generalizing code d with
  | nil =>
      obtain rfl := List.map_eq_nil_iff.mp hlines.symm
      obtain rfl := Except.ok.inj h
      rfl
  | cons l lines ih =>
      obtain ⟨i, code, rfl, hi, hrest⟩ := List.map_eq_cons_iff.mp hlines.symm
      rw [List.foldlM_cons] at h
      obtain ⟨d₁, hl, h⟩ := bind_eq_ok h
      obtain ⟨i', hi', hline⟩ := line_eq_ok hl
      obtain rfl : i = i' := Except.ok.inj (hi.trans hi')
      rw [Postfix.depthAfter?, List.foldlM_cons, instruction_depth hline]
      exact ih hrest.symm h

theorem lines_spare {lines : List (Nat × Except Error Postfix.Instruction)}
    {code : List Postfix.Instruction} {n : Nat} (hlines : lines.map Prod.snd = code.map .ok)
    (h : Postfix.depthAfter? d.stack.depth code = some n) :
    Error.Spares (lines.foldlM (Draft.line o) d) := by
  induction lines generalizing code d with
  | nil => exact Error.spares_ok d
  | cons l lines ih =>
      obtain ⟨i, code, rfl, hi, hrest⟩ := List.map_eq_cons_iff.mp hlines.symm
      rw [Postfix.depthAfter?, List.foldlM_cons] at h
      obtain ⟨m, hm, h⟩ := Option.bind_eq_some_iff.mp h
      obtain ⟨number, x⟩ := l
      obtain rfl : .ok i = x := hi
      rw [List.foldlM_cons]
      refine (instruction_spares o (number % lineLimit) hm).bind fun d₁ hd₁ => ih hrest.symm ?_
      rw [← Option.some.inj (hm.symm.trans (instruction_depth hd₁))]
      exact h

end Draft

section Compile

variable {text : String} {vs : Variables} {o : CompileOptions} {p : Program}
  {code : List Postfix.Instruction}
  (hcode : (Postfix.instructions text).map Prod.snd = code.map .ok)

include hcode

theorem depthAfter?_of_compile (h : compile text vs o = .ok p) :
    Postfix.depthAfter? 0 code = some 0 := by
  obtain ⟨d, hd, hslots, -⟩ := compile_eq_ok h
  have hdepth : d.stack.depth = 0 := by rw [d.stack.depth_eq, hslots]; rfl
  have hlines := Draft.lines_depth (d := Draft.start vs) hcode hd
  rwa [hdepth] at hlines

theorem compile_spares (h : Postfix.depthAfter? 0 code = some 0) :
    Error.Spares (compile text vs o) := by
  refine (Draft.lines_spare (d := Draft.start vs) hcode h).bind fun d hd => ?_
  have hdepth := Draft.lines_depth (d := Draft.start vs) hcode hd
  exact Draft.finish_spares (Option.some.inj (hdepth.symm.trans h))

end Compile

end FormulaMachine
