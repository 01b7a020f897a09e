import FormulaMachine.Number.Binary
import Mathlib.Algebra.Order.Ring.Nat
import Mathlib.Tactic.Ring
import Mathlib.Tactic.Linarith

namespace FormulaMachine

namespace Format

variable (f : Format)

def Proper : Prop :=
  2 ≤ f.exponent

theorem proper_single : single.Proper :=
  Nat.le_of_ble_eq_true rfl

theorem proper_double : double.Proper :=
  Nat.le_of_ble_eq_true rfl

def topExponent : Nat :=
  2 ^ f.exponent - 3

variable {f}

theorem infinity_eq (hf : f.Proper) : f.infinity = (f.topExponent + 2) * 2 ^ f.fraction := by
  have hpow : 4 ≤ 2 ^ f.exponent := Nat.pow_le_pow_right Nat.two_pos hf
  rw [infinity, topExponent, Nat.shiftLeft_eq, Nat.one_shiftLeft]
  congr 1
  omega

theorem infinity_lt (f : Format) : f.infinity < 2 ^ f.signPlace := by
  rw [infinity, signPlace, Nat.shiftLeft_eq, Nat.one_shiftLeft, Nat.pow_add]
  exact Nat.mul_lt_mul_of_pos_right (Nat.sub_lt (Nat.two_pow_pos _) Nat.one_pos)
    (Nat.two_pow_pos _)

section Signs

variable {m : Nat} (h : m < 2 ^ f.signPlace) (negative : Bool)

include h

theorem magnitude_signed : f.magnitude (f.signed negative m) = m := by
  rw [magnitude, signed, Nat.one_shiftLeft]
  cases negative with
  | true => rw [if_pos rfl, Nat.add_mod_left, Nat.mod_eq_of_lt h]
  | false => exact Nat.mod_eq_of_lt h

theorem negative_signed : f.negative (f.signed negative m) = negative := by
  rw [Format.negative, signed, Nat.one_shiftLeft]
  cases negative with
  | true =>
      rw [if_pos rfl, Nat.testBit_two_pow_add_eq, Nat.testBit_lt_two_pow h]
      rfl
  | false => exact Nat.testBit_lt_two_pow h

end Signs

theorem quanta_add {e c : Nat} (hlow : e = 0 ∨ 2 ^ f.fraction ≤ c)
    (hhigh : c ≤ 2 ^ (f.fraction + 1)) :
    f.quanta (e * 2 ^ f.fraction + c) = c * 2 ^ e := by
  have hpos : 0 < 2 ^ f.fraction := Nat.two_pow_pos _
  rw [Nat.pow_succ] at hhigh
  simp only [quanta, Nat.shiftRight_eq_div_pow, Nat.shiftLeft_eq, Nat.one_mul]
  by_cases hsmall : c < 2 ^ f.fraction
  · obtain rfl := hlow.resolve_right (Nat.not_le.mpr hsmall)
    rw [Nat.zero_mul, Nat.zero_add, Nat.div_eq_of_lt hsmall, if_pos rfl, Nat.pow_zero, Nat.mul_one]
  have hsmall := Nat.le_of_not_lt hsmall
  by_cases hlarge : c = 2 ^ f.fraction * 2
  · have hsum : e * 2 ^ f.fraction + c = (e + 2) * 2 ^ f.fraction := by rw [hlarge]; ring
    rw [hsum, Nat.mul_div_cancel _ hpos, if_neg (by omega), Nat.mul_mod_left, Nat.zero_add, hlarge,
      show e + 2 - 1 = e + 1 from rfl]
    ring
  · obtain ⟨r, rfl⟩ := Nat.exists_eq_add_of_le hsmall
    have hr : r < 2 ^ f.fraction := by omega
    have hsum : e * 2 ^ f.fraction + (2 ^ f.fraction + r) = r + (e + 1) * 2 ^ f.fraction := by ring
    rw [hsum, Nat.add_mul_div_right _ _ hpos, Nat.div_eq_of_lt hr, Nat.zero_add,
      if_neg (Nat.succ_ne_zero e), Nat.add_mul_mod_self_right, Nat.mod_eq_of_lt hr,
      Nat.add_sub_cancel, Nat.add_comm r]

theorem exists_parts (f : Format) (m : Nat) : ∃ e c, m = e * 2 ^ f.fraction + c ∧
    c < 2 ^ (f.fraction + 1) ∧ (e = 0 ∨ 2 ^ f.fraction ≤ c) := by
  have hpos : 0 < 2 ^ f.fraction := Nat.two_pow_pos _
  have hdiv := Nat.div_add_mod m (2 ^ f.fraction)
  have hmod := Nat.mod_lt m hpos
  rw [Nat.mul_comm] at hdiv
  rw [Nat.pow_succ]
  cases he : m / 2 ^ f.fraction with
  | zero =>
      rw [he] at hdiv
      exact ⟨0, m % 2 ^ f.fraction, hdiv.symm, by omega, .inl rfl⟩
  | succ e =>
      rw [he, Nat.succ_mul] at hdiv
      exact ⟨e, 2 ^ f.fraction + m % 2 ^ f.fraction, by omega, by omega, .inr (by omega)⟩

theorem quanta_lt_succ (f : Format) (m : Nat) : f.quanta m < f.quanta (m + 1) := by
  obtain ⟨e, c, rfl, hhigh, hlow⟩ := f.exists_parts m
  have hlow' : e = 0 ∨ 2 ^ f.fraction ≤ c + 1 := hlow.imp_right Nat.le_succ_of_le
  rw [Nat.add_assoc, quanta_add hlow hhigh.le, quanta_add hlow' hhigh]
  exact Nat.mul_lt_mul_of_pos_right (Nat.lt_succ_self c) (Nat.two_pow_pos e)

theorem quanta_strictMono (f : Format) : StrictMono f.quanta :=
  strictMono_nat_of_lt_succ f.quanta_lt_succ

theorem quanta_largest (hf : f.Proper) :
    f.quanta (f.infinity - 1) = (2 ^ (f.fraction + 1) - 1) * 2 ^ f.topExponent := by
  have hpos : 0 < 2 ^ f.fraction := Nat.two_pow_pos _
  have hparts : f.infinity - 1 =
      f.topExponent * 2 ^ f.fraction + (2 ^ (f.fraction + 1) - 1) := by
    rw [infinity_eq hf, Nat.pow_succ, Nat.add_mul]
    omega
  rw [hparts, quanta_add (.inr ?_) (Nat.sub_le _ _)]
  rw [Nat.pow_succ]
  omega

section Nearest

variable {a d m : Nat}

theorem nearest_cases (a d : Nat) :
    nearest a d = a / d ∧ (2 * (a % d) < d ∨ 2 * (a % d) = d ∧ a / d % 2 = 0) ∨
      nearest a d = a / d + 1 ∧ (d < 2 * (a % d) ∨ 2 * (a % d) = d ∧ a / d % 2 = 1) := by
  unfold nearest
  dsimp only
  split
  · exact .inl ⟨rfl, by omega⟩
  · split
    · exact .inr ⟨rfl, by omega⟩
    · rcases Nat.mod_two_eq_zero_or_one (a / d) with heven | hodd
      · exact .inl ⟨by omega, by omega⟩
      · exact .inr ⟨by omega, by omega⟩

theorem nearest_le (hd : 0 < d) (h : a ≤ m * d) : nearest a d ≤ m := by
  have hdiv : a / d ≤ m := Nat.div_le_of_le_mul (by rwa [Nat.mul_comm])
  have hmod := Nat.div_add_mod a d
  rcases nearest_cases a d with ⟨hdown, -⟩ | ⟨hup, hr⟩
  · rw [hdown]
    exact hdiv
  · rcases Nat.lt_or_eq_of_le hdiv with hlt | heq
    · rw [hup]
      exact hlt
    · rw [heq, Nat.mul_comm] at hmod
      omega

theorem le_nearest (hd : 0 < d) (h : m * d ≤ a) : m ≤ nearest a d := by
  have hdiv : m ≤ a / d := (Nat.le_div_iff_mul_le hd).mpr h
  rcases nearest_cases a d with ⟨hdown, -⟩ | ⟨hup, -⟩ <;> omega

theorem nearest_mul (hd : 0 < d) (m : Nat) : nearest (m * d) d = m :=
  Nat.le_antisymm (nearest_le hd (Nat.le_refl _)) (le_nearest hd (Nat.le_refl _))

theorem nearest_lt_iff (hd : 0 < d) (hm : 0 < m) (heven : m % 2 = 0) :
    nearest a d < m ↔ 2 * a + d < 2 * (m * d) := by
  have hmod := Nat.div_add_mod a d
  have hlt := Nat.mod_lt a hd
  rw [Nat.mul_comm] at hmod
  rcases Nat.lt_trichotomy (a / d + 1) m with hbelow | rfl | habove
  · have hmul := Nat.mul_le_mul_right d (Nat.succ_le_of_lt hbelow)
    rw [Nat.succ_mul, Nat.succ_mul] at hmul
    rcases nearest_cases a d with ⟨hdown, hr⟩ | ⟨hup, hr⟩ <;> omega
  · have hmul : (a / d + 1) * d = a / d * d + d := Nat.succ_mul _ _
    rcases nearest_cases a d with ⟨hdown, hr⟩ | ⟨hup, hr⟩ <;> omega
  · have hle : m * d ≤ a := (Nat.le_div_iff_mul_le hd).mp (Nat.le_of_lt_succ habove)
    have hnear := le_nearest hd hle
    omega

theorem nearest_error (hd : 0 < d) (a : Nat) :
    2 * (nearest a d * d) ≤ 2 * a + d ∧ 2 * a ≤ 2 * (nearest a d * d) + d := by
  have hmod := Nat.div_add_mod a d
  have hlt := Nat.mod_lt a hd
  rw [Nat.mul_comm] at hmod
  rcases nearest_cases a d with ⟨hdown, hr⟩ | ⟨hup, hr⟩
  · rw [hdown]
    omega
  · rw [hup, Nat.add_mul, Nat.one_mul]
    omega

end Nearest

theorem log2_place (fraction q : Nat) :
    q < 2 ^ (fraction + 1) * 2 ^ (Nat.log2 q - fraction) ∧
      (Nat.log2 q - fraction = 0 ∨ 2 ^ fraction * 2 ^ (Nat.log2 q - fraction) ≤ q) := by
  rw [← Nat.pow_add, ← Nat.pow_add]
  constructor
  · refine Nat.lt_of_lt_of_le Nat.lt_log2_self (Nat.pow_le_pow_right Nat.two_pos ?_)
    omega
  · by_cases hle : Nat.log2 q ≤ fraction
    · exact .inl (Nat.sub_eq_zero_of_le hle)
    · have hq : q ≠ 0 := by
        rintro rfl
        exact hle (Nat.zero_le fraction)
      refine .inr ?_
      rw [Nat.add_sub_cancel' (by omega)]
      exact Nat.log2_self_le hq

section Round

variable {n d : Nat}

theorem round_parts (f : Format) (n : Nat) (hd : 0 < d) :
    ∃ e, f.round n d = min f.infinity (e * 2 ^ f.fraction + nearest (n * 2 ^ f.scale) (d * 2 ^ e)) ∧
      n * 2 ^ f.scale < 2 ^ (f.fraction + 1) * (d * 2 ^ e) ∧
      (e = 0 ∨ 2 ^ f.fraction * (d * 2 ^ e) ≤ n * 2 ^ f.scale) := by
  obtain ⟨hhigh, hlow⟩ := log2_place f.fraction (n * 2 ^ f.scale / d)
  refine ⟨Nat.log2 (n * 2 ^ f.scale / d) - f.fraction, ?_, ?_, hlow.imp_right fun hle => ?_⟩
  · simp only [round, Nat.shiftLeft_eq]
  · have hlt := (Nat.div_lt_iff_lt_mul hd).mp hhigh
    calc n * 2 ^ f.scale < _ := hlt
      _ = _ := by ring
  · have hmul := (Nat.le_div_iff_mul_le hd).mp hle
    calc _ = _ := by ring
      _ ≤ n * 2 ^ f.scale := hmul

theorem round_exact (hd : 0 < d) {m : Nat} (hm : m < f.infinity)
    (h : n * 2 ^ f.scale = f.quanta m * d) : f.round n d = m := by
  obtain ⟨e, hround, hlt, hle⟩ := f.round_parts n hd
  obtain ⟨e', c, rfl, hc, hlow⟩ := f.exists_parts m
  rw [quanta_add hlow hc.le] at h
  have hreal : n * 2 ^ f.scale = c * (d * 2 ^ e') := by rw [h]; ring
  have hplace : e = e' := by
    rw [hreal] at hlt hle
    have hle' : e = 0 ∨ 2 ^ f.fraction * 2 ^ e ≤ c * 2 ^ e' := hle.imp_right fun hle =>
      Nat.le_of_mul_le_mul_left (by calc
        d * (2 ^ f.fraction * 2 ^ e) = 2 ^ f.fraction * (d * 2 ^ e) := by ring
        _ ≤ c * (d * 2 ^ e') := hle
        _ = d * (c * 2 ^ e') := by ring) hd
    have hlt' : c * 2 ^ e' < 2 ^ (f.fraction + 1) * 2 ^ e :=
      Nat.lt_of_mul_lt_mul_left (by calc
        d * (c * 2 ^ e') = c * (d * 2 ^ e') := by ring
        _ < 2 ^ (f.fraction + 1) * (d * 2 ^ e) := hlt
        _ = d * (2 ^ (f.fraction + 1) * 2 ^ e) := by ring)
    rcases Nat.lt_trichotomy e e' with hlt | heq | hgt
    · have hc := hlow.resolve_left (by omega)
      have hpow : 2 ^ (f.fraction + e') < 2 ^ (f.fraction + 1 + e) := by
        rw [Nat.pow_add, Nat.pow_add]
        exact Nat.lt_of_le_of_lt (Nat.mul_le_mul_right _ hc) hlt'
      have := (Nat.pow_lt_pow_iff_right Nat.one_lt_two).mp hpow
      omega
    · exact heq
    · have hle := hle'.resolve_left (by omega)
      have hpow : 2 ^ (f.fraction + e) < 2 ^ (f.fraction + 1 + e') := by
        rw [Nat.pow_add, Nat.pow_add]
        exact Nat.lt_of_le_of_lt hle (Nat.mul_lt_mul_of_pos_right hc (Nat.two_pow_pos _))
      have := (Nat.pow_lt_pow_iff_right Nat.one_lt_two).mp hpow
      omega
  subst hplace
  rw [hround, hreal, nearest_mul (Nat.mul_pos hd (Nat.two_pow_pos e)), Nat.min_eq_right hm.le]

theorem round_lt_infinity_iff (hf : f.Proper) (hd : 0 < d) :
    f.round n d < f.infinity ↔ 2 * (n * 2 ^ f.scale) + d * 2 ^ f.topExponent <
      2 * (2 ^ (f.fraction + 1) * (d * 2 ^ f.topExponent)) := by
  obtain ⟨e, hround, hlt, hle⟩ := f.round_parts n hd
  have hD : 0 < d * 2 ^ e := Nat.mul_pos hd (Nat.two_pow_pos e)
  have hc : nearest (n * 2 ^ f.scale) (d * 2 ^ e) ≤ 2 ^ (f.fraction + 1) := nearest_le hD hlt.le
  have hpos : 0 < 2 ^ f.fraction := Nat.two_pow_pos _
  have hplaces {e e' : Nat} (h : e < e') : 2 ^ f.fraction * 2 * (d * 2 ^ e) ≤
      2 ^ f.fraction * (d * 2 ^ e') := by
    rw [Nat.mul_assoc, Nat.mul_left_comm 2, ← Nat.pow_succ']
    exact Nat.mul_le_mul_left _ (Nat.mul_le_mul_left _ (Nat.pow_le_pow_right Nat.two_pos h))
  rw [hround, min_lt_iff, or_iff_right (Nat.lt_irrefl _), infinity_eq hf, Nat.add_mul]
  rcases Nat.lt_trichotomy e f.topExponent with hbelow | rfl | habove
  · have hmul := Nat.mul_le_mul_right (2 ^ f.fraction) (Nat.succ_le_of_lt hbelow)
    have hplace := hplaces hbelow
    have hone : d * 2 ^ f.topExponent ≤ 2 ^ f.fraction * (d * 2 ^ f.topExponent) :=
      Nat.le_mul_of_pos_left _ (Nat.two_pow_pos _)
    rw [Nat.succ_mul] at hmul
    rw [Nat.pow_succ] at hc hlt ⊢
    rw [Nat.mul_right_comm _ 2]
    exact iff_of_true (by omega) (by omega)
  · rw [← nearest_lt_iff hD (Nat.two_pow_pos _) (by rw [Nat.pow_succ, Nat.mul_mod_left]),
      Nat.pow_succ]
    omega
  · have hle := hle.resolve_left (by omega)
    have hmul := Nat.mul_le_mul_right (2 ^ f.fraction) (Nat.succ_le_of_lt habove)
    have hplace := hplaces habove
    have hnear := le_nearest hD hle
    rw [Nat.succ_mul] at hmul
    rw [Nat.pow_succ]
    exact iff_of_false (by omega) (by omega)

theorem round_lt_infinity (hf : f.Proper) (hd : 0 < d)
    (h : n * 2 ^ f.scale ≤ f.quanta (f.infinity - 1) * d) : f.round n d < f.infinity := by
  rw [quanta_largest hf, Nat.mul_assoc, Nat.mul_comm _ d, Nat.sub_mul, Nat.one_mul] at h
  have hplace : 0 < d * 2 ^ f.topExponent := Nat.mul_pos hd (Nat.two_pow_pos _)
  have hone : d * 2 ^ f.topExponent ≤ 2 ^ (f.fraction + 1) * (d * 2 ^ f.topExponent) :=
    Nat.le_mul_of_pos_left _ (Nat.two_pow_pos _)
  rw [round_lt_infinity_iff hf hd]
  omega

theorem round_finite (hd : 0 < d) (h : f.round n d < f.infinity) :
    ∃ e, f.quanta (f.round n d) = nearest (n * 2 ^ f.scale) (d * 2 ^ e) * 2 ^ e ∧
      (e = 0 ∨ 2 ^ f.fraction * (d * 2 ^ e) ≤ n * 2 ^ f.scale) := by
  obtain ⟨e, hround, hlt, hle⟩ := f.round_parts n hd
  have hD : 0 < d * 2 ^ e := Nat.mul_pos hd (Nat.two_pow_pos e)
  rw [Nat.min_eq_right (by omega)] at hround
  refine ⟨e, ?_, hle⟩
  rw [hround, quanta_add (hle.imp_right (le_nearest hD)) (nearest_le hD hlt.le)]

end Round

section Finite

theorem isFinite_encode (hf : f.Proper) (hscale : f.scale ≤ double.scale) {units : Nat}
    (h : units ≤ f.largest) (negative : Bool) :
    f.isFinite (f.encode (.finite negative units)) := by
  have hround : f.round units (1 <<< double.scale) < f.infinity := by
    rw [Nat.one_shiftLeft]
    refine round_lt_infinity hf (Nat.two_pow_pos _) ?_
    rw [largest, unitsPerQuantum, Nat.one_shiftLeft] at h
    calc units * 2 ^ f.scale
        ≤ f.quanta (f.infinity - 1) * 2 ^ (double.scale - f.scale) * 2 ^ f.scale :=
          Nat.mul_le_mul_right _ h
      _ = f.quanta (f.infinity - 1) * 2 ^ double.scale := by
          rw [Nat.mul_assoc, ← Nat.pow_add, Nat.sub_add_cancel hscale]
  rw [encode, isFinite, magnitude_signed (hround.trans f.infinity_lt)]
  exact decide_eq_true hround

theorem decode_of_lt {pattern : Nat} (h : f.magnitude pattern < f.infinity) :
    f.decode pattern =
      .finite (f.negative pattern) (f.quanta (f.magnitude pattern) * f.unitsPerQuantum) := by
  simp only [decode]
  rw [if_neg (Nat.lt_asymm h), if_neg (Nat.ne_of_lt h)]

theorem decode_of_isFinite {pattern : Nat} (h : f.isFinite pattern) :
    ∃ units, f.decode pattern = .finite (f.negative pattern) units ∧ units ≤ f.largest := by
  have hlt : f.magnitude pattern < f.infinity := of_decide_eq_true h
  exact ⟨_, decode_of_lt hlt, Nat.mul_le_mul_right f.unitsPerQuantum
    (f.quanta_strictMono.monotone (Nat.le_sub_one_of_lt hlt))⟩

end Finite

end Format

end FormulaMachine
