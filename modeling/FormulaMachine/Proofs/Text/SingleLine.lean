import FormulaMachine.DataType
import FormulaMachine.Proofs.Postfix.Reading
import FormulaMachine.Proofs.Scalar.Printed

namespace FormulaMachine

namespace Text

def SingleLine (s : String) : Prop :=
  '\n' ∉ s.toList

instance (s : String) : Decidable (SingleLine s) :=
  inferInstanceAs (Decidable ('\n' ∉ s.toList))

theorem SingleLine.append {s t : String} (hs : SingleLine s) (ht : SingleLine t) :
    SingleLine (s ++ t) := by
  rw [SingleLine, String.toList_append, List.mem_append]
  exact not_or.mpr ⟨hs, ht⟩

theorem SingleLine.intercalate {sep : String} (hsep : SingleLine sep) {ss : List String}
    (h : ∀ s ∈ ss, SingleLine s) : SingleLine (sep.intercalate ss) := by
  rw [SingleLine, String.toList_intercalate]
  intro hmem
  rcases mem_intercalate hmem with hmem | ⟨w, hw, hmem⟩
  · exact hsep hmem
  · obtain ⟨s, hs, rfl⟩ := List.mem_map.mp hw
    exact h s hs hmem

theorem IsWord.singleLine {s : String} (h : IsWord s.toList) : SingleLine s := by
  intro hmem
  have hblank := h.not_blank '\n' hmem
  revert hblank
  decide

theorem singleLine_nat (n : Nat) : SingleLine (toString n) := by
  obtain ⟨d, -, htext, -⟩ := Numeral.exists_plain n
  exact IsWord.singleLine (s := toString n) (htext ▸ d.isWord_text)

end Text

open Text

theorem Scalar.singleLine_text {k : Kind} (x : Scalar k) : SingleLine x.text :=
  x.isWord_text.singleLine

theorem Kind.singleLine_name (k : Kind) : SingleLine k.name := by
  cases k with
  | uint w => cases w <;> decide
  | int w => cases w <;> decide
  | _ => decide

theorem DataType.singleLine_text (t : DataType) : SingleLine t.text := by
  cases t with
  | void => decide
  | scalar k => exact k.singleLine_name
  | matrix k rows cols =>
      refine ((((k.singleLine_name.append ?_).append (singleLine_nat rows)).append ?_).append
        (singleLine_nat cols)).append ?_
      all_goals decide

theorem Postfix.singleLine_of_mem {text : String} {l : Nat × Except Error Instruction}
    {i : Instruction} (h : l ∈ instructions text) (hi : l.2 = .ok i) : SingleLine i.text := by
  obtain ⟨numbered, -, rfl⟩ := List.mem_map.mp h
  exact (Instruction.plain_of_ofLine hi).words.isLine_text.no_feed

end FormulaMachine
