import FormulaMachine.Proofs.Number.Decimal
import FormulaMachine.Proofs.Scalar.Finite

namespace FormulaMachine

open Numeral (Decimal)

variable {k : Kind} {f : Format}

theorem Kind.proper_of_format? (hf : k.format? = some f) :
    f.Proper ∧ f.scale ≤ Format.double.scale ∧ f.exponent ≤ Format.double.exponent := by
  cases k with
  | float32 =>
      obtain rfl := Option.some.inj hf
      exact ⟨Format.proper_single, by decide, by decide⟩
  | float64 =>
      obtain rfl := Option.some.inj hf
      exact ⟨Format.proper_double, Nat.le_refl _, Nat.le_refl _⟩
  | _ => cases hf

namespace Scalar

theorem exists_read?_of_format? {text : List Char} {pattern : Nat} (hf : k.format? = some f)
    (h : f.read? (Text.trim text) = some pattern) :
    ∃ x : Scalar k, read? k text = some x ∧ x.isFinite = f.isFinite pattern := by
  cases k with
  | float32 =>
      obtain rfl := Option.some.inj hf
      refine ⟨⟨BitVec.ofNat _ pattern⟩, ?_, isFinite_mod .single pattern⟩
      rw [read?, h]
      rfl
  | float64 =>
      obtain rfl := Option.some.inj hf
      refine ⟨⟨BitVec.ofNat _ pattern⟩, ?_, isFinite_mod .double pattern⟩
      rw [read?, h]
      rfl
  | _ => cases hf

theorem exists_read?_decimal {d : Decimal} {text : List Char} (hf : k.format? = some f)
    (htext : Text.trim text = d.text) :
    ∃ x : Scalar k, read? k text = some x ∧
      (x.isFinite ↔ d.coefficient * 10 ^ d.seenExponent < f.overflow) ∧
      (d.IsModerate → (x.isFinite ↔ |d.value| < f.overflow)) := by
  obtain ⟨hproper, hscale, htop⟩ := Kind.proper_of_format? hf
  have hread := d.formatRead?_text f
  rw [← htext] at hread
  obtain ⟨x, hx, hfinite⟩ := exists_read?_of_format? hf hread
  have hseen := Decimal.rounds_of_alike (d := d) (f := f) (.inl rfl)
  rw [Bool.eq_iff_iff, Format.isFinite_signed hseen.le_infinity] at hfinite
  refine ⟨x, hx, hfinite.trans (hseen.lt_infinity_iff hproper), fun hd => hfinite.trans ?_⟩
  rw [d.abs_value]
  exact (hd.rounds hscale htop).lt_infinity_iff hproper

end Scalar

end FormulaMachine
