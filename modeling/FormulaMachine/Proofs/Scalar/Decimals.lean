import FormulaMachine.Proofs.Number.Decimal
import FormulaMachine.Proofs.Scalar.Exact
import FormulaMachine.Proofs.Scalar.Finite

namespace FormulaMachine

open Numeral (Decimal factor abs_factor)

def Format.Holds (f : Format) (q : ℚ) : Prop :=
  ∃ m < f.infinity, |q| * 2 ^ f.scale = f.quanta m

namespace Scalar

variable {k : Kind} {x : Scalar k} {n : Int} {q : ℚ}

def Denotes (x : Scalar k) (q : ℚ) : Prop :=
  ∃ n : Int, x.toInt? = some n ∧ (n : ℚ) = q

theorem denotes_intCast : x.Denotes (n : ℚ) ↔ x.toInt? = some n := by
  constructor
  · rintro ⟨m, hm, heq⟩
    rwa [Int.cast_injective heq] at hm
  · exact fun h => ⟨n, h, rfl⟩

theorem ofInt?_eq_some_iff (hk : k.isInteger) : ofInt? k n = some x ↔ x.toInt? = some n := by
  constructor
  · intro h
    obtain ⟨hn, rfl⟩ := ofInt?_eq_some hk h
    exact toInt?_wrap hk hn
  · intro h
    obtain ⟨hn, rfl⟩ := inRange_of_toInt? hk h
    cases k with
    | uint w => exact if_pos hn
    | int w => exact if_pos hn
    | _ => cases hk

theorem truncate?_finite (negative : Bool) (units : Nat) :
    (FloatValue.finite negative units).truncate? =
      some (factor negative * ((units >>> Format.double.scale : Nat) : Int)) := by
  cases negative <;> simp [FloatValue.truncate?, factor]

theorem ofWhole?_finite (hk : k.isInteger) (negative : Bool) (units : Nat) :
    ofWhole? k (.finite negative units) = some x ↔
      x.Denotes (factor negative * ((units : ℚ) / 2 ^ Format.double.scale)) := by
  have hscale : (2 : ℚ) ^ Format.double.scale = ((2 ^ Format.double.scale : Nat) : ℚ) := by
    rw [Nat.cast_pow, Nat.cast_ofNat]
  have hpos : 0 < 2 ^ Format.double.scale := Nat.two_pow_pos _
  rw [ofWhole?, FloatValue.isWhole, truncate?_finite, Nat.shiftRight_eq_div_pow, Nat.one_shiftLeft,
    hscale, Option.bind_some]
  clear hscale
  generalize 2 ^ Format.double.scale = unit at hpos
  have hunit : (unit : ℚ) ≠ 0 := by exact_mod_cast hpos.ne'
  by_cases hwhole : unit ∣ units
  · obtain ⟨z, rfl⟩ := hwhole
    have hvalue : (factor negative : ℚ) * (((unit * z : Nat) : ℚ) / unit) =
        ((factor negative * (z : Int) : Int) : ℚ) := by
      rw [Nat.cast_mul, mul_div_cancel_left₀ _ hunit, Int.cast_mul, Int.cast_natCast]
    rw [hvalue, denotes_intCast, Nat.mul_mod_right, if_pos (beq_self_eq_true 0),
      Nat.mul_div_cancel_left _ hpos, ofInt?_eq_some_iff hk]
  · rw [if_neg (by rwa [beq_iff_eq, ← Nat.dvd_iff_mod_eq_zero])]
    constructor
    · intro h
      cases h
    rintro ⟨n, -, hn⟩
    refine absurd (Dvd.intro_left n.natAbs ?_) hwhole
    have habs : (n.natAbs : ℚ) = units / unit := by
      rw [Nat.cast_natAbs, Int.cast_abs, hn, abs_mul, abs_factor, one_mul, abs_of_nonneg]
      positivity
    rw [eq_div_iff hunit] at habs
    exact_mod_cast habs

section Read

variable {d : Decimal} {text : List Char}

structure ReadsNearest (d : Decimal) (read : Option (Scalar k)) : Prop where
  exact : d.IsPlain ∨ Format.double.Holds d.value → ∀ x, read = some x ↔ x.Denotes d.value
  whole : ∀ n : Int, d.value = n →
    ∃ z : Int, |z - n| * 2 ^ 53 ≤ |n| ∧ ∀ x, read = some x ↔ x.Denotes z
  near : ∀ x, read = some x → ∃ q, x.Denotes q ∧
    |q - d.value| ≤ max (|d.value| / 2 ^ 53) (1 / 2 ^ (Format.double.scale + 1))

theorem read?_eq_readInteger? (hk : k.isInteger) (htext : Text.trim text = d.text) :
    read? k text = readInteger? k d.text := by
  cases k with
  | uint w => exact congrArg (readInteger? (.uint w)) htext
  | int w => exact congrArg (readInteger? (.int w)) htext
  | _ => cases hk

theorem ReadsNearest.of_exact {read : Option (Scalar k)}
    (h : ∀ x, read = some x ↔ x.Denotes d.value) : ReadsNearest d read where
  exact _ := h
  whole n hn := ⟨n, by simp, fun x => by rw [h, hn]⟩
  near x hx := ⟨d.value, (h x).mp hx, by rw [sub_self, abs_zero]; positivity⟩

theorem readInteger?_plain (hk : k.isInteger) (hd : d.IsPlain) (x : Scalar k) :
    readInteger? k d.text = some x ↔ x.Denotes d.value := by
  rw [readInteger?, Decimal.integer?_text hd, Decimal.value_of_isPlain hd, denotes_intCast]
  exact ofInt?_eq_some_iff hk

theorem readInteger?_rounded (hk : k.isInteger) (hplain : ¬ d.IsPlain) (hd : d.IsModerate) :
    ∃ r, Format.double.Rounds d.magnitude r ∧ ∀ x : Scalar k, readInteger? k d.text = some x ↔
      r < Format.double.infinity ∧ x.Denotes (factor d.sign.isMinus *
        (Format.double.quanta r / 2 ^ Format.double.scale)) := by
  have hrounds : Format.double.Rounds d.magnitude _ := hd.rounds (Nat.le_refl _) (Nat.le_refl _)
  refine ⟨_, hrounds, fun x => ?_⟩
  have hunits : Format.double.unitsPerQuantum = 1 := rfl
  rw [readInteger?, Decimal.integer?_text_eq_none hplain]
  dsimp only
  rw [d.formatRead?_text, Option.bind_some, Format.decode_signed hrounds.le_infinity, hunits,
    Nat.mul_one]
  split
  · rename_i hr
    rw [ofWhole?_finite hk]
    exact (and_iff_right hr).symm
  · rename_i hr
    exact iff_of_false (Option.some_ne_none x).symm fun h => hr h.1

theorem not_denotes_of_huge
    (h : (Format.double.quanta (Format.double.infinity - 1) : ℚ) < |q| * 2 ^ Format.double.scale) :
    ¬ x.Denotes q := by
  rintro ⟨n, hn, rfl⟩
  have hle := (integer_le_largest (natAbs_le_of_toInt? hn)).trans single_largest_le
  have hunits : Format.double.unitsPerQuantum = 1 := rfl
  rw [Nat.shiftLeft_eq, Format.largest, hunits, Nat.mul_one] at hle
  have hcast : |(n : ℚ)| * 2 ^ Format.double.scale =
      ((n.natAbs * 2 ^ Format.double.scale : Nat) : ℚ) := by
    rw [Nat.cast_mul, Nat.cast_natAbs, Int.cast_abs, Nat.cast_pow, Nat.cast_ofNat]
  rw [hcast, Nat.cast_lt] at h
  exact absurd h (Nat.not_lt.mpr hle)

theorem ReadsNearest.of_rounds {read : Option (Scalar k)} {r : Nat}
    (hplain : ¬ d.IsPlain) (hr : Format.double.Rounds d.magnitude r)
    (hread : ∀ x, read = some x ↔ r < Format.double.infinity ∧
      x.Denotes (factor d.sign.isMinus * (Format.double.quanta r / 2 ^ Format.double.scale))) :
    ReadsNearest d read := by
  have hvalue : d.value = factor d.sign.isMinus * d.magnitude := rfl
  have hscale : (2 : ℚ) ^ Format.double.scale ≠ 0 := pow_ne_zero _ two_ne_zero
  refine ⟨fun hheld => ?_, fun n hn => ?_, fun x hx => ?_⟩
  · obtain ⟨m, hm, hq⟩ := hheld.resolve_left hplain
    rw [d.abs_value] at hq
    obtain rfl := hr.eq_of_held Format.proper_double hm hq
    intro x
    rw [hread, ← hq, mul_div_cancel_right₀ _ hscale, and_iff_right hm, hvalue]
  · have hmagnitude : d.magnitude = (n.natAbs : ℚ) := by
      rw [← d.abs_value, hn, Nat.cast_natAbs, Int.cast_abs]
    by_cases hfinite : r < Format.double.infinity
    · obtain ⟨z, hz, hnear⟩ := hr.whole hfinite hmagnitude
      refine ⟨factor d.sign.isMinus * (z : Int), ?_, fun x => ?_⟩
      · have hdistance : |((factor d.sign.isMinus * (z : Int) : Int) : ℚ) - n| =
            |(z : ℚ) - n.natAbs| := by
          rw [← hn, hvalue, hmagnitude, Int.cast_mul, Int.cast_natCast, ← mul_sub, abs_mul,
            abs_factor, one_mul]
        rw [← hdistance, Nat.cast_natAbs] at hnear
        exact_mod_cast hnear
      · rw [hread, hz, Nat.cast_mul, Nat.cast_pow, Nat.cast_ofNat, mul_div_cancel_right₀ _ hscale,
          and_iff_right hfinite, Int.cast_mul, Int.cast_natCast]
    · -- no integer kind has a number that is rounded to infinity
      refine ⟨n, by simp, fun x => iff_of_false (fun hx => hfinite ((hread x).mp hx).1) ?_⟩
      refine not_denotes_of_huge ?_
      rw [← hn, d.abs_value]
      exact hr.largest_lt Format.proper_double hfinite
  · obtain ⟨hfinite, hx⟩ := (hread x).mp hx
    refine ⟨_, hx, ?_⟩
    rw [d.abs_value, hvalue, ← mul_sub, abs_mul, abs_factor, one_mul]
    exact hr.near hfinite

theorem readsNearest (hk : k.isInteger) (hd : d.IsPlain ∨ d.IsModerate)
    (htext : Text.trim text = d.text) : ReadsNearest d (read? k text) := by
  rw [read?_eq_readInteger? hk htext]
  by_cases hplain : d.IsPlain
  · exact .of_exact fun x => readInteger?_plain hk hplain x
  · obtain ⟨r, hr, hread⟩ := readInteger?_rounded (k := k) hk hplain (hd.resolve_left hplain)
    exact .of_rounds hplain hr hread

theorem readsNearest_beyond_float64 :
    let d : Decimal := ⟨.missing, "9007199254740993".toList, some ['0'], none, rfl, rfl,
      by decide⟩
    let text := " 9007199254740993.0".toList
    (Kind.int .w64).isInteger ∧ d.IsModerate ∧ Text.trim text = d.text ∧
      ReadsNearest d (read? (.int .w64) text) := by
  intro d text
  have hd : d.IsModerate := .inr (by decide)
  have htext : Text.trim text = d.text := by decide +kernel
  exact ⟨rfl, hd, htext, readsNearest rfl (.inr hd) htext⟩

theorem replaced_or_refused_beyond_float64 :
    let d : Decimal := ⟨.missing, "9007199254740993".toList, some ['0'], none, rfl, rfl,
      by decide⟩
    let e : Decimal := ⟨.missing, "18446744073709551615".toList, some ['0'], none, rfl, rfl,
      by decide⟩
    (∃ x : Scalar (.int .w64), read? (.int .w64) d.text = some x ∧ ¬ x.Denotes d.value) ∧
      read? (.uint .w64) e.text = none ∧ ∃ x : Scalar (.uint .w64), x.Denotes e.value := by
  intro d e
  have hd : d.value = ((9007199254740993 : Int) : ℚ) := by
    have hcoefficient : d.coefficient = 90071992547409930 := by decide +kernel
    have hexponent : d.exponent = -1 := by decide
    rw [Decimal.value, Decimal.magnitude, hcoefficient, hexponent]
    norm_num [d, Numeral.Sign.isMinus, factor]
  have he : e.value = ((18446744073709551615 : Int) : ℚ) := by
    have hcoefficient : e.coefficient = 184467440737095516150 := by decide +kernel
    have hexponent : e.exponent = -1 := by decide
    rw [Decimal.value, Decimal.magnitude, hcoefficient, hexponent]
    norm_num [e, Numeral.Sign.isMinus, factor]
  refine ⟨⟨wrap _ 9007199254740992, by decide +kernel, ?_⟩, by decide +kernel,
    wrap _ 18446744073709551615, ?_⟩
  · rw [hd, denotes_intCast]
    decide
  · rw [he, denotes_intCast]
    decide

end Read

end Scalar

end FormulaMachine
