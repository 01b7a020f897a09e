import FormulaMachine.Number.Numeral
import FormulaMachine.Proofs.Number.Rounding
import Mathlib.Algebra.Order.Field.Power
import Mathlib.Tactic.FieldSimp
import Mathlib.Tactic.Positivity

namespace FormulaMachine

namespace Format

inductive Rounds (f : Format) (q : ℚ) : Nat → Prop
  | tiny (hq : 0 ≤ q) (h : q * 2 ^ (f.scale + 1) ≤ 1) : Rounds f q 0
  | huge (h : 2 ^ 2 ^ (f.exponent - 1) ≤ q) : Rounds f q f.infinity
  | quotient (n d : Nat) (hd : 0 < d) (hq : q * d = n) : Rounds f q (f.round n d)

variable {f : Format} {q : ℚ} {r : Nat}

theorem infinity_pos (hf : f.Proper) : 0 < f.infinity := by
  rw [infinity_eq hf]
  exact Nat.mul_pos (Nat.succ_pos _) (Nat.two_pow_pos _)

theorem quanta_zero (f : Format) : f.quanta 0 = 0 := by
  simp [quanta]

theorem topExponent_add (hf : f.Proper) :
    f.fraction + 1 + f.topExponent = 2 ^ (f.exponent - 1) + f.scale := by
  have hexponent : 2 ^ f.exponent = 2 ^ (f.exponent - 1) * 2 := by
    rw [← Nat.pow_succ, Nat.succ_eq_add_one, Nat.sub_add_cancel (Nat.le_of_succ_le hf)]
  have hpow : 2 ≤ 2 ^ (f.exponent - 1) := by
    have h : 1 ≤ f.exponent - 1 := Nat.le_sub_of_add_le hf
    exact Nat.pow_le_pow_right Nat.two_pos h
  rw [topExponent, scale, Nat.one_shiftLeft]
  omega

def overflow (f : Format) : ℚ :=
  (2 ^ (f.fraction + 1) - 1 / 2) * 2 ^ f.topExponent / 2 ^ f.scale

theorem overflow_mul_scale (f : Format) :
    f.overflow * 2 ^ f.scale = (2 ^ (f.fraction + 1) - 1 / 2) * 2 ^ f.topExponent :=
  div_mul_cancel₀ _ (by positivity)

theorem largest_lt_overflow (hf : f.Proper) :
    (f.quanta (f.infinity - 1) : ℚ) < f.overflow * 2 ^ f.scale := by
  have hone : 1 ≤ 2 ^ (f.fraction + 1) := Nat.one_le_two_pow
  rw [overflow_mul_scale, quanta_largest hf, Nat.cast_mul, Nat.cast_sub hone, Nat.cast_pow,
    Nat.cast_pow, Nat.cast_ofNat, Nat.cast_one]
  gcongr
  norm_num

theorem overflow_le (hf : f.Proper) : f.overflow ≤ 2 ^ 2 ^ (f.exponent - 1) := by
  rw [overflow, div_le_iff₀ (by positivity), ← pow_add, ← topExponent_add hf, pow_add _ (_ + 1)]
  gcongr
  linarith

theorem one_lt_overflow (f : Format) : 1 < f.overflow * 2 ^ (f.scale + 1) := by
  have hplaces : (2 : ℚ) ≤ 2 ^ (f.fraction + 1) := le_self_pow₀ (by norm_num) (by omega)
  have htop : (1 : ℚ) ≤ 2 ^ f.topExponent := one_le_pow₀ (by norm_num)
  rw [pow_succ, ← mul_assoc, overflow_mul_scale]
  nlinarith

theorem place_error {n d : Nat} (hd : 0 < d) (hq : q * d = n) (hr : f.round n d < f.infinity) :
    ∃ e, f.quanta (f.round n d) = nearest (n * 2 ^ f.scale) (d * 2 ^ e) * 2 ^ e ∧
      |(f.quanta (f.round n d) : ℚ) - q * 2 ^ f.scale| ≤ 2 ^ e / 2 ∧
      (e = 0 ∨ (2 ^ f.fraction * 2 ^ e : ℚ) ≤ q * 2 ^ f.scale) := by
  obtain ⟨e, hquanta, hplace⟩ := round_finite hd hr
  obtain ⟨hhigh, hlow⟩ := nearest_error (Nat.mul_pos hd (Nat.two_pow_pos e)) (n * 2 ^ f.scale)
  have hd' : (0 : ℚ) < d := by exact_mod_cast hd
  refine ⟨e, hquanta, ?_, hplace.imp_right fun hle => ?_⟩
  · rw [hquanta]
    generalize nearest (n * 2 ^ f.scale) (d * 2 ^ e) = c at hhigh hlow
    have hhigh' : (2 * (c * (d * 2 ^ e)) : ℚ) ≤ 2 * (q * d * 2 ^ f.scale) + d * 2 ^ e := by
      rw [hq]
      exact_mod_cast hhigh
    have hlow' : (2 * (q * d * 2 ^ f.scale) : ℚ) ≤ 2 * (c * (d * 2 ^ e)) + d * 2 ^ e := by
      rw [hq]
      exact_mod_cast hlow
    have habove : (2 * (c * 2 ^ e) : ℚ) ≤ 2 * (q * 2 ^ f.scale) + 2 ^ e :=
      le_of_mul_le_mul_right (by linarith) hd'
    have hbelow : (2 * (q * 2 ^ f.scale) : ℚ) ≤ 2 * (c * 2 ^ e) + 2 ^ e :=
      le_of_mul_le_mul_right (by linarith) hd'
    rw [Nat.cast_mul, Nat.cast_pow, Nat.cast_ofNat, abs_le]
    exact ⟨by linarith, by linarith⟩
  · have hle' : (2 ^ f.fraction * (d * 2 ^ e) : ℚ) ≤ q * d * 2 ^ f.scale := by
      rw [hq]
      exact_mod_cast hle
    exact le_of_mul_le_mul_right (by linarith) hd'

namespace Rounds

theorem le_infinity (h : f.Rounds q r) : r ≤ f.infinity := by
  cases h with
  | tiny => exact Nat.zero_le _
  | huge => exact Nat.le_refl _
  | quotient n d => exact Nat.min_le_left _ _

theorem lt_infinity_iff (hf : f.Proper) (h : f.Rounds q r) : r < f.infinity ↔ q < f.overflow := by
  cases h with
  | tiny _ h =>
      refine iff_of_true (infinity_pos hf) ?_
      exact lt_of_mul_lt_mul_right (h.trans_lt f.one_lt_overflow) (by positivity)
  | huge h => exact iff_of_false (Nat.lt_irrefl _) (not_lt.mpr ((overflow_le hf).trans h))
  | quotient n d hd hq =>
      have hd' : (0 : ℚ) < d := by exact_mod_cast hd
      have hscale : (0 : ℚ) < 2 ^ f.scale := by positivity
      have hcast : 2 * (n * 2 ^ f.scale) + d * 2 ^ f.topExponent <
          2 * (2 ^ (f.fraction + 1) * (d * 2 ^ f.topExponent)) ↔
          (2 * (n * 2 ^ f.scale) + d * 2 ^ f.topExponent : ℚ) <
            2 * (2 ^ (f.fraction + 1) * (d * 2 ^ f.topExponent)) := by
        norm_cast
      have hoverflow : q < f.overflow ↔
          q * 2 ^ f.scale * d < (2 ^ (f.fraction + 1) - 1 / 2) * 2 ^ f.topExponent * d := by
        rw [← overflow_mul_scale, mul_lt_mul_iff_left₀ hd', mul_lt_mul_iff_left₀ hscale]
      rw [round_lt_infinity_iff hf hd, hcast, ← hq, hoverflow]
      constructor <;>
        · intro h
          linarith

theorem eq_of_held (hf : f.Proper) (h : f.Rounds q r) {m : Nat} (hm : m < f.infinity)
    (hq : q * 2 ^ f.scale = f.quanta m) : r = m := by
  cases h with
  | tiny _ h =>
      have hsmall : (2 * f.quanta m : ℚ) ≤ 1 := by
        rw [← hq]
        calc 2 * (q * 2 ^ f.scale) = q * 2 ^ (f.scale + 1) := by ring
          _ ≤ 1 := h
      have hsmall' : 2 * f.quanta m ≤ 1 := by exact_mod_cast hsmall
      have hid : m ≤ f.quanta m := f.quanta_strictMono.id_le m
      omega
  | huge h =>
      have hle : (f.quanta m : ℚ) ≤ f.quanta (f.infinity - 1) := by
        exact_mod_cast f.quanta_strictMono.monotone (Nat.le_sub_one_of_lt hm)
      have hlt := hle.trans_lt (largest_lt_overflow hf)
      rw [← hq] at hlt
      have hsmall := lt_of_mul_lt_mul_right hlt (by positivity)
      exact absurd ((overflow_le hf).trans h) (not_le.mpr hsmall)
  | quotient n d hd hqd =>
      refine round_exact hd hm ?_
      have hcast : (n * 2 ^ f.scale : ℚ) = f.quanta m * d := by rw [← hqd, ← hq]; ring
      exact_mod_cast hcast

theorem largest_lt (hf : f.Proper) (h : f.Rounds q r) (hr : ¬ r < f.infinity) :
    (f.quanta (f.infinity - 1) : ℚ) < q * 2 ^ f.scale := by
  rw [h.lt_infinity_iff hf, not_lt] at hr
  exact (largest_lt_overflow hf).trans_le (mul_le_mul_of_nonneg_right hr (by positivity))

theorem near (h : f.Rounds q r) (hr : r < f.infinity) :
    |(f.quanta r : ℚ) / 2 ^ f.scale - q| ≤
      max (q / 2 ^ (f.fraction + 1)) (1 / 2 ^ (f.scale + 1)) := by
  cases h with
  | tiny hq h =>
      rw [quanta_zero, Nat.cast_zero, zero_div, zero_sub, abs_neg, abs_of_nonneg hq]
      exact le_max_of_le_right ((le_div_iff₀ (by positivity)).mpr h)
  | huge => exact absurd hr (Nat.lt_irrefl _)
  | quotient n d hd hq =>
      obtain ⟨e, -, herror, hplace⟩ := place_error hd hq hr
      have hscale : (0 : ℚ) < 2 ^ f.scale := by positivity
      have hhalf : |(f.quanta (f.round n d) : ℚ) / 2 ^ f.scale - q| ≤
          2 ^ e / 2 ^ (f.scale + 1) := by
        rw [div_sub' hscale.ne', mul_comm (2 ^ f.scale) q, abs_div, abs_of_pos hscale, pow_succ',
          ← div_div]
        exact div_le_div_of_nonneg_right herror hscale.le
      refine hhalf.trans ?_
      rcases hplace with rfl | hplace
      · rw [pow_zero]
        exact le_max_right _ _
      · refine le_max_of_le_left ?_
        rw [div_le_div_iff₀ (by positivity) (by positivity), pow_succ, pow_succ]
        linarith

theorem whole (h : f.Rounds q r) (hr : r < f.infinity) {n : Nat} (hq : q = n) :
    ∃ z : Nat, f.quanta r = z * 2 ^ f.scale ∧ |(z : ℚ) - n| * 2 ^ (f.fraction + 1) ≤ n := by
  subst hq
  cases h with
  | tiny hq h =>
      have hsmall : n * 2 ^ (f.scale + 1) ≤ 1 := by exact_mod_cast h
      have hpow : 2 ≤ 2 ^ (f.scale + 1) := Nat.pow_le_pow_right Nat.two_pos (Nat.succ_pos _)
      obtain rfl : n = 0 := by
        by_contra hn
        have := Nat.mul_le_mul (Nat.one_le_iff_ne_zero.mpr hn) hpow
        omega
      exact ⟨0, by rw [quanta_zero, Nat.zero_mul], by simp⟩
  | huge => exact absurd hr (Nat.lt_irrefl _)
  | quotient m d hd hqd =>
      obtain ⟨e, hquanta, herror, hplace⟩ := place_error hd hqd hr
      have hm : m = n * d := by exact_mod_cast hqd.symm
      by_cases he : e ≤ f.scale
      · have hexact : m * 2 ^ f.scale = n * 2 ^ (f.scale - e) * (d * 2 ^ e) := by
          rw [hm, ← Nat.sub_add_cancel he, Nat.pow_add, Nat.add_sub_cancel]
          ring
        refine ⟨n, ?_, by simp⟩
        rw [hquanta, hexact, nearest_mul (Nat.mul_pos hd (Nat.two_pow_pos e)), Nat.mul_assoc,
          ← Nat.pow_add, Nat.sub_add_cancel he]
      · obtain ⟨i, rfl⟩ := Nat.exists_eq_add_of_lt (Nat.lt_of_not_le he)
        have hplace := hplace.resolve_left (by omega)
        have hscale : (0 : ℚ) < 2 ^ f.scale := by positivity
        generalize nearest (m * 2 ^ f.scale) (d * 2 ^ (f.scale + i + 1)) = c
          at hquanta
        have hz : f.quanta (f.round m d) = c * 2 ^ (i + 1) * 2 ^ f.scale := by rw [hquanta]; ring
        refine ⟨c * 2 ^ (i + 1), hz, ?_⟩
        rw [hz, Nat.cast_mul (_ * _), Nat.cast_pow, Nat.cast_ofNat, ← sub_mul, abs_mul,
          abs_of_pos hscale, Nat.cast_mul, Nat.cast_pow, Nat.cast_ofNat] at herror
        have hplaces : (2 ^ (f.scale + i + 1) : ℚ) = 2 ^ (i + 1) * 2 ^ f.scale := by ring
        rw [hplaces] at herror hplace
        have herror : |(c * 2 ^ (i + 1) : ℚ) - n| ≤ 2 ^ (i + 1) / 2 :=
          le_of_mul_le_mul_right (by linarith) hscale
        have hplace : (2 ^ f.fraction * 2 ^ (i + 1) : ℚ) ≤ n :=
          le_of_mul_le_mul_right (by linarith) hscale
        push_cast
        calc |(c * 2 ^ (i + 1) : ℚ) - n| * 2 ^ (f.fraction + 1)
            ≤ 2 ^ (i + 1) / 2 * 2 ^ (f.fraction + 1) :=
              mul_le_mul_of_nonneg_right herror (by positivity)
          _ = 2 ^ f.fraction * 2 ^ (i + 1) := by ring
          _ ≤ n := hplace

end Rounds

theorem decode_signed (hr : r ≤ f.infinity) (negative : Bool) :
    f.decode (f.signed negative r) =
      if r < f.infinity then .finite negative (f.quanta r * f.unitsPerQuantum)
      else .infinite negative := by
  have hlt : r < 2 ^ f.signPlace := hr.trans_lt f.infinity_lt
  rw [decode, magnitude_signed hlt, negative_signed hlt, if_neg (Nat.not_lt.mpr hr)]
  split
  · rename_i heq
    rw [heq, if_neg (Nat.lt_irrefl _)]
  · rename_i hne
    rw [if_pos (Nat.lt_of_le_of_ne hr hne)]

theorem isFinite_signed (hr : r ≤ f.infinity) (negative : Bool) :
    f.isFinite (f.signed negative r) ↔ r < f.infinity := by
  rw [isFinite, magnitude_signed (hr.trans_lt f.infinity_lt), decide_eq_true_eq]

section Decimal

variable {c places : Nat} {e e' : Int} (hc : c < 10 ^ places)
  (hplaces : c ≠ 0 → 10 ^ places ≤ 10 * c)

def Alike (f : Format) (places : Nat) (e e' : Int) : Prop :=
  e = e' ∨ (e + places < -(f.scale + 1 : Int) ∧ e' + places < -(f.scale + 1 : Int)) ∨
    (((2 ^ (f.exponent - 1) : Nat) : Int) < e + places ∧
      ((2 ^ (f.exponent - 1) : Nat) : Int) < e' + places)

include hc in
theorem rounds_zero (h : c = 0 ∨ e + places < -(f.scale + 1 : Int)) :
    f.Rounds (c * 10 ^ e) 0 := by
  refine .tiny (by positivity) ?_
  rcases h with rfl | h
  · simp
  have hc' : (c : ℚ) ≤ 10 ^ (places : Int) := by exact_mod_cast hc.le
  have hten : (10 : ℚ) ^ (e + places) ≤ 10 ^ (-(f.scale + 1 : Int)) :=
    zpow_le_zpow_right₀ (by norm_num) h.le
  calc (c : ℚ) * 10 ^ e * 2 ^ (f.scale + 1)
      ≤ 10 ^ (places : Int) * 10 ^ e * 2 ^ (f.scale + 1) := by gcongr
    _ = 10 ^ (e + places) * 2 ^ (f.scale + 1) := by rw [← zpow_add₀ (by norm_num), add_comm]
    _ ≤ 10 ^ (-(f.scale + 1 : Int)) * 10 ^ (f.scale + 1) := by gcongr; norm_num
    _ = 1 := by
        rw [zpow_neg]
        exact inv_mul_cancel₀ (by positivity)

include hplaces in
theorem rounds_infinity (hzero : c ≠ 0) (h : ((2 ^ (f.exponent - 1) : Nat) : Int) < e + places) :
    f.Rounds (c * 10 ^ e) f.infinity := by
  refine .huge ?_
  have hc' : (10 : ℚ) ^ (places : Int) ≤ 10 * c := by exact_mod_cast hplaces hzero
  have hten : (10 : ℚ) ^ (((2 ^ (f.exponent - 1) : Nat) : Int)) ≤ 10 ^ (e + places - 1) :=
    zpow_le_zpow_right₀ (by norm_num) (by omega)
  calc (2 : ℚ) ^ 2 ^ (f.exponent - 1) ≤ 10 ^ 2 ^ (f.exponent - 1) := by gcongr; norm_num
    _ ≤ 10 ^ (e + places - 1) := by exact_mod_cast hten
    _ = 10 ^ (places : Int) * 10 ^ e / 10 := by
        rw [zpow_sub_one₀ (by norm_num), zpow_add₀ (by norm_num), div_eq_mul_inv, mul_comm (10 ^ e)]
    _ ≤ 10 * c * 10 ^ e / 10 := by gcongr
    _ = c * 10 ^ e := by ring

include hc hplaces

theorem roundDecimal_rounds (h : f.Alike places e e') :
    f.Rounds (c * 10 ^ e) (f.roundDecimal c places e') := by
  have hpow : (10 : ℚ) ^ e.natAbs = 10 ^ (e.natAbs : Int) := (zpow_natCast 10 e.natAbs).symm
  unfold roundDecimal
  dsimp only
  rw [Nat.one_shiftLeft]
  split
  · rename_i htiny
    refine rounds_zero hc ?_
    rcases h with rfl | ⟨hlow, -⟩ | ⟨-, hhigh⟩
    · exact htiny
    · exact .inr hlow
    · have hpos : (0 : Int) ≤ ((2 ^ (f.exponent - 1) : Nat) : Int) := Int.natCast_nonneg _
      generalize ((2 ^ (f.exponent - 1) : Nat) : Int) = top at hhigh hpos
      exact .inl (htiny.resolve_right (by omega))
  rename_i htiny
  rw [not_or] at htiny
  split
  · refine rounds_infinity hplaces htiny.1 ?_
    rcases h with rfl | ⟨-, hlow⟩ | ⟨hhigh, -⟩
    · assumption
    · exact absurd hlow htiny.2
    · exact hhigh
  obtain rfl : e = e' := by
    rcases h with rfl | ⟨-, hlow⟩ | ⟨-, hhigh⟩
    · rfl
    · exact absurd hlow htiny.2
    · contradiction
  split
  · refine .quotient _ _ (Nat.pow_pos (by decide)) ?_
    rw [Nat.pow_eq, Nat.cast_pow, Nat.cast_ofNat, hpow, mul_assoc, ← zpow_add₀ (by norm_num),
      show e + e.natAbs = 0 by omega, zpow_zero, mul_one]
  · refine .quotient _ _ Nat.one_pos ?_
    rw [Nat.cast_one, mul_one, Nat.pow_eq, Nat.cast_mul, Nat.cast_pow, Nat.cast_ofNat, hpow,
      show (e.natAbs : Int) = e by omega]

end Decimal

end Format

end FormulaMachine
