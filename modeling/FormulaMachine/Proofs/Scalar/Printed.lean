import FormulaMachine.Proofs.Number.Printing
import FormulaMachine.Proofs.Scalar.Decimals

namespace FormulaMachine

open Text (IsWord)

namespace Numeral

theorem Decimal.isWord_text (d : Decimal) : IsWord d.text := by
  have hne : d.body ≠ [] := by
    intro hnil
    obtain ⟨hwhole, hrest⟩ := List.append_eq_nil_iff.mp hnil
    have hfraction := d.digits_ne_nil
    cases hf : d.fraction with
    | none => exact hfraction (by rw [hf, hwhole]; rfl)
    | some fraction => simp [hf] at hrest
  refine ⟨fun hnil => hne (List.append_eq_nil_iff.mp hnil).2, List.forall_mem_append.mpr ⟨?_, ?_⟩⟩
  · have hsign : d.sign.text.all (!Text.isBlank ·) := by cases d.sign <;> rfl
    simpa using hsign
  · intro c hc
    rcases d.mem_body c hc with hdigit | hmark
    · exact Text.not_isBlank_of_isDigit hdigit
    · have hmarks : ['.', 'e', 'E', '+', '-'].all (!Text.isBlank ·) := rfl
      simpa using List.all_eq_true.mp hmarks c hmark

theorem exists_plain (n : Int) : ∃ d : Decimal, d.IsPlain ∧ d.text = (toString n).toList ∧
    factor d.sign.isMinus * (d.coefficient : Int) = n := by
  have hdecimal (m : Nat) (s : Sign) : ∃ d : Decimal, d.IsPlain ∧
      d.text = s.text ++ (toString m).toList ∧ d.coefficient = m ∧ d.sign = s := by
    have hdigits : ∀ c ∈ Nat.toDigits 10 m ++ Option.getD none [], c.isDigit := by
      rw [Option.getD_none, List.append_nil]
      exact fun c hc => Nat.isDigit_of_mem_toDigits (by decide) (by decide) hc
    have hne : Nat.toDigits 10 m ++ Option.getD none [] ≠ [] := by simp [Nat.toDigits_ne_nil]
    obtain ⟨d, hsign, hfraction, hpower, htext, hread⟩ := Decimal.exists_of_digits hdigits hne s
    refine ⟨d, ⟨hfraction, hpower⟩, ?_, ?_, hsign⟩
    · rw [htext, Nat.toString_eq_ofList_toDigits, String.toList_ofList]
      exact congrArg (s.text ++ ·) (List.append_nil _)
    · rw [hread, Option.getD_none, List.append_nil, Nat.ofDigitChars_ten_toDigits]
  cases n with
  | ofNat m =>
      obtain ⟨d, hplain, htext, hread, hsign⟩ := hdecimal m .missing
      exact ⟨d, hplain, htext, by rw [hsign, hread]; exact one_mul _⟩
  | negSucc m =>
      obtain ⟨d, hplain, htext, hread, hsign⟩ := hdecimal (m + 1) .minus
      refine ⟨d, hplain, ?_, by rw [hsign, hread]; exact neg_one_mul _⟩
      rw [htext]
      exact (String.toList_append (s := "-")).symm

end Numeral

theorem Format.isWord_text (f : Format) (pattern : Nat) : IsWord (f.text pattern).toList := by
  rcases Nat.lt_trichotomy (f.magnitude pattern) f.infinity with hfinite | hinfinite | hnan
  · obtain ⟨n, -, -, htext, -⟩ := (f.printed pattern).exists_numeral (f.printedSign pattern)
    rw [text_of_isFinite (decide_eq_true hfinite), ← htext]
    exact n.isWord_text
  · rw [text_of_infinite hinfinite]
    split <;> decide
  · rw [text]
    dsimp only
    rw [if_pos hnan]
    decide

namespace Scalar

variable {k : Kind} (x : Scalar k)

theorem isWord_text : IsWord x.text.toList := by
  have hint (n : Int) : IsWord (toString n).toList := by
    obtain ⟨d, -, htext, -⟩ := Numeral.exists_plain n
    exact htext ▸ d.isWord_text
  cases k with
  | bool => exact hint x.bits.toNat
  | uint w => exact hint x.bits.toNat
  | int w => exact hint x.bits.toInt
  | float32 => exact Format.isWord_text _ _
  | float64 => exact Format.isWord_text _ _

def Spells (text : String) : Prop :=
  if x.isNaN then text = "NaN" else read? k text.toList = some x

theorem read?_toString (hk : k.isInteger) {n : Int} (hn : x.toInt? = some n) :
    read? k (toString n).toList = some x := by
  obtain ⟨d, hd, htext, hvalue⟩ := Numeral.exists_plain n
  have htrim : Text.trim (toString n).toList = d.text := by
    rw [← htext, Text.trim_eq_self d.isWord_text.not_blank]
  rw [read?_eq_readInteger? hk htrim, readInteger?, Numeral.Decimal.integer?_text hd, hvalue]
  exact (ofInt?_eq_some_iff hk).mpr hn

theorem spells_text : x.Spells x.text := by
  have htrim : Text.trim x.text.toList = x.text.toList :=
    Text.trim_eq_self x.isWord_text.not_blank
  unfold Spells
  split
  · rename_i hnan
    cases k with
    | float32 => exact Format.text_of_isNaN hnan
    | float64 => exact Format.text_of_isNaN hnan
    | _ => cases hnan
  · rename_i hnan
    rw [Bool.not_eq_true] at hnan
    cases k with
    | bool =>
        have hall : ∀ b : BitVec 1, read? .bool (toString b.toNat).toList = some ⟨b⟩ := by
          decide +kernel
        exact hall x.bits
    | uint w => exact x.read?_toString (n := x.bits.toNat) rfl rfl
    | int w => exact x.read?_toString (n := x.bits.toInt) rfl rfl
    | float32 =>
        have hread := Format.read?_text Format.standard_single x.bits.isLt hnan
        rw [read?, htrim, text, hread, Option.map_some, BitVec.ofNat_toNat, BitVec.setWidth_eq]
    | float64 =>
        have hread := Format.read?_text Format.standard_double x.bits.isLt hnan
        rw [read?, htrim, text, hread, Option.map_some, BitVec.ofNat_toNat, BitVec.setWidth_eq]

end Scalar

end FormulaMachine
