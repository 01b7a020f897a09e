import FormulaMachine.Proofs.Scalar.Exact
import Mathlib.Data.Int.ModEq
import Mathlib.Tactic.Positivity

namespace FormulaMachine

theorem Kind.isFloat_of_isInteger {k : Kind} (hk : k.isInteger) : k.isFloat = false := by
  cases k with
  | uint w => rfl
  | int w => rfl
  | _ => cases hk

namespace Scalar

variable {j k : Kind} {a b n : Int} {fault : Fault}

structure Computes (fault : Fault) (n : Int) (op : Bool → Except Fault (Scalar k)) : Prop where
  exact : inRange k n → ∃ x, op true = .ok x ∧ x.toInt? = some n
  overflow : ¬ inRange k n → op true = .error fault
  wraps : ∃ x m, op false = .ok x ∧ x.toInt? = some m ∧ inRange k m ∧ m ≡ n [ZMOD 2 ^ k.width]

theorem toInt?_wrap_modEq (hk : k.isInteger) (n : Int) :
    ∃ m, (wrap k n).toInt? = some m ∧ m ≡ n [ZMOD 2 ^ k.width] := by
  cases k with
  | uint w =>
      refine ⟨_, rfl, ?_⟩
      have hpos : (0 : Int) < 2 ^ (Kind.uint w).width := by positivity
      rw [wrap, BitVec.toNat_ofInt, Nat.cast_pow, Nat.cast_ofNat,
        Int.toNat_of_nonneg (Int.emod_nonneg _ hpos.ne')]
      exact Int.mod_modEq n _
  | int w =>
      refine ⟨_, rfl, ?_⟩
      have hpow : (2 ^ (Kind.int w).width : Int) = (2 ^ (Kind.int w).width : Nat) := by
        rw [Nat.cast_pow, Nat.cast_ofNat]
      rw [wrap, BitVec.toInt_ofInt, hpow]
      exact Int.bmod_emod
  | _ => cases hk

theorem wraps_wrap (hk : k.isInteger) (n : Int) :
    ∃ x m, Except.ok (ε := Fault) (wrap k n) = .ok x ∧ x.toInt? = some m ∧ inRange k m ∧
      m ≡ n [ZMOD 2 ^ k.width] := by
  obtain ⟨m, hm, hmod⟩ := toInt?_wrap_modEq hk n
  exact ⟨_, m, rfl, hm, (inRange_of_toInt? hk hm).1, hmod⟩

theorem fit_computes (hk : k.isInteger) (n : Int) :
    Computes .integerOverflow n fun checked => fit k checked n where
  exact hn := ⟨wrap k n, by rw [fit, if_pos hn], toInt?_wrap hk hn⟩
  overflow hn := by rw [fit, if_neg hn, if_pos rfl]
  wraps := by
    have hfit : fit k false n = .ok (wrap k n) := by
      rw [fit, if_neg Bool.false_ne_true, ite_self]
    rw [hfit]
    exact wraps_wrap hk n

theorem integerArithmetic_computes (hk : k.isInteger) {op : Arithmetic}
    (h : op.onInts? a b = some n) :
    Computes .integerOverflow n fun checked => integerArithmetic k checked op a b := by
  cases op with
  | sum =>
      obtain rfl := Option.some.inj h
      exact fit_computes hk _
  | sub =>
      obtain rfl := Option.some.inj h
      exact fit_computes hk _
  | mul =>
      obtain rfl := Option.some.inj h
      exact fit_computes hk _
  | div =>
      rw [Arithmetic.onInts?] at h
      split at h
      · cases h
      · rename_i hb
        obtain rfl := Option.some.inj h
        simp only [integerArithmetic, if_neg hb]
        exact fit_computes hk _
  | pow =>
      rw [Arithmetic.onInts?] at h
      split at h
      · rename_i hb
        obtain rfl := Option.some.inj h
        have hexponent : 0 ≤ b ∧ b < 1 <<< 32 := hb
        simp only [integerArithmetic, if_pos hexponent]
        exact fit_computes hk _
      · cases h
  | min =>
      obtain rfl := Option.some.inj h
      have hmin : (if b < a then b else a) = Min.min a b := by omega
      simp only [integerArithmetic, hmin]
      exact fit_computes hk _
  | max =>
      obtain rfl := Option.some.inj h
      have hmax : (if a < b then b else a) = Max.max a b := by omega
      simp only [integerArithmetic, hmax]
      exact fit_computes hk _

theorem arithmetic_eq {l r : Scalar k} (hl : l.toInt? = some a) (hr : r.toInt? = some b)
    (hk : k.isInteger) (checked : Bool) (op : Arithmetic) :
    arithmetic checked op l r = integerArithmetic k checked op a b := by
  cases k with
  | uint w =>
      obtain rfl := Option.some.inj hl
      obtain rfl := Option.some.inj hr
      rfl
  | int w =>
      obtain rfl := Option.some.inj hl
      obtain rfl := Option.some.inj hr
      rfl
  | _ => cases hk

theorem toInt?_zero (hk : k.isInteger) : (zero k).toInt? = some 0 := by
  cases k with
  | uint w => cases w <;> rfl
  | int w => cases w <;> rfl
  | _ => cases hk

theorem wrap_zero (k : Kind) : wrap k 0 = zero k := by
  cases k with
  | uint w => cases w <;> rfl
  | int w => cases w <;> rfl
  | _ => rfl

theorem integerArithmetic_div_zero (k : Kind) (a : Int) :
    integerArithmetic k true .div a 0 = .error .divideByZero ∧
      integerArithmetic k false .div a 0 = .ok (zero k) := by
  rw [← wrap_zero]
  exact ⟨rfl, rfl⟩

theorem signs_compute {x : Scalar k} (hx : x.toInt? = some n) (hk : k.isInteger)
    (hsigned : k.isSigned) :
    (Computes .integerOverflow (-n) fun checked => negate checked x) ∧
      Computes .integerOverflow |n| fun checked => absolute checked x := by
  cases k with
  | int w =>
      obtain rfl := Option.some.inj hx
      refine ⟨fit_computes hk _, ?_⟩
      rw [Int.abs_eq_natAbs]
      exact fit_computes hk _
  | uint w => cases hsigned
  | _ => cases hk

theorem signs_refused (hk : k.isInteger) (hsigned : ¬ k.isSigned) (x : Scalar k)
    (checked : Bool) :
    negate checked x = .error .badOperand ∧ absolute checked x = .error .badOperand := by
  cases k with
  | uint w => exact ⟨rfl, rfl⟩
  | int w => exact absurd rfl hsigned
  | _ => cases hk

theorem cast_computes (hk : k.isInteger) {x : Scalar j} (hx : x.toInt? = some n) :
    Computes .outOfRange n fun checked => cast checked k x := by
  by_cases hjk : j = k
  · subst hjk
    have hsame (checked : Bool) : cast checked j x = .ok x := by rw [cast, dif_pos rfl]
    obtain ⟨hrange, -⟩ := inRange_of_toInt? hk hx
    exact {
      exact := fun _ => ⟨x, hsame true, hx⟩
      overflow := fun hn => absurd hrange hn
      wraps := ⟨x, n, hsame false, hx, hrange, Int.ModEq.refl n⟩ }
  have hof : ofInt? k n = if inRange k n then some (wrap k n) else none := by
    cases k with
    | uint w => rfl
    | int w => rfl
    | _ => cases hk
  by_cases hn : inRange k n
  · have hcast (checked : Bool) : cast checked k x = .ok (wrap k n) := by
      simp only [cast, dif_neg hjk, hx, hof, if_pos hn]
    simp only [hcast]
    exact {
      exact := fun _ => ⟨wrap k n, rfl, toInt?_wrap hk hn⟩
      overflow := absurd hn
      wraps := wraps_wrap hk n }
  · have hcast (checked : Bool) : cast checked k x =
        if checked then .error .outOfRange else .ok (wrap k n) := by
      simp only [cast, dif_neg hjk, hx, hof, if_neg hn]
    simp only [hcast]
    exact {
      exact := fun h => absurd h hn
      overflow := fun _ => rfl
      wraps := wraps_wrap hk n }

theorem integer_operations_compute (hk : k.isInteger) (l r : Scalar k) (hj : j.isFloat = false)
    (x : Scalar j) :
    ∃ a b n, l.toInt? = some a ∧ r.toInt? = some b ∧ x.toInt? = some n ∧
      (∀ op m, op.onInts? a b = some m →
        Computes .integerOverflow m fun checked => arithmetic checked op l r) ∧
      (b = 0 → arithmetic true .div l r = .error .divideByZero ∧
        ∃ z, arithmetic false .div l r = .ok z ∧ z.toInt? = some 0) ∧
      (k.isSigned →
        (Computes (k := k) .integerOverflow (-a) fun checked => unary checked .neg l) ∧
          Computes (k := k) .integerOverflow |a| fun checked => unary checked .abs l) ∧
      (¬ k.isSigned → ∀ checked, unary checked .neg l = .error .badOperand ∧
        unary checked .abs l = .error .badOperand) ∧
      Computes .outOfRange n fun checked => cast checked k x := by
  have hfloat := Kind.isFloat_of_isInteger hk
  obtain ⟨a, ha⟩ := exists_toInt? hfloat l
  obtain ⟨b, hb⟩ := exists_toInt? hfloat r
  obtain ⟨n, hn⟩ := exists_toInt? hj x
  refine ⟨a, b, n, ha, hb, hn, fun op m hm => ?_, fun hzero => ?_,
    fun hsigned => signs_compute ha hk hsigned, fun hsigned => signs_refused hk hsigned l,
    cast_computes hk hn⟩
  · simp only [arithmetic_eq ha hb hk]
    exact integerArithmetic_computes hk hm
  · subst hzero
    obtain ⟨hchecked, hunchecked⟩ := integerArithmetic_div_zero k a
    exact ⟨(arithmetic_eq ha hb hk _ _).trans hchecked, zero k,
      (arithmetic_eq ha hb hk _ _).trans hunchecked, toInt?_zero hk⟩

theorem integer_operations_compute_lowest :
    (Kind.int .w64).isInteger ∧ (Kind.uint .w64).isFloat = false ∧
      arithmetic true .div (wrap (.int .w64) (-2 ^ 63)) (wrap _ (-1)) = .error .integerOverflow ∧
      cast true (.int .w64) (wrap (.uint .w64) (2 ^ 64 - 1)) = .error .outOfRange := by
  obtain ⟨a, b, n, ha, hb, hn, harithmetic, -, -, -, hcast⟩ :=
    integer_operations_compute (k := .int .w64) rfl (wrap _ (-2 ^ 63)) (wrap _ (-1))
      (j := .uint .w64) rfl (wrap _ (2 ^ 64 - 1))
  obtain rfl : -2 ^ 63 = a := Option.some.inj ((toInt?_wrap rfl (by decide)).symm.trans ha)
  obtain rfl : -1 = b := Option.some.inj ((toInt?_wrap rfl (by decide)).symm.trans hb)
  obtain rfl : 2 ^ 64 - 1 = n := Option.some.inj ((toInt?_wrap rfl (by decide)).symm.trans hn)
  exact ⟨rfl, rfl, (harithmetic .div (2 ^ 63) rfl).overflow (by decide),
    hcast.overflow (by decide)⟩

theorem no_signs_of_uint8 :
    (wrap (.uint .w8) 5).toInt? = some 5 ∧
      (¬ Computes (k := .uint .w8) .integerOverflow (-5)
        fun checked => unary checked .neg (wrap (.uint .w8) 5)) ∧
      ¬ Computes (k := .uint .w8) .integerOverflow |5|
        fun checked => unary checked .abs (wrap (.uint .w8) 5) := by
  refine ⟨rfl, fun h => ?_, fun h => ?_⟩
  · have hoverflow := h.overflow (by decide)
    cases hoverflow
  · obtain ⟨x, hx, -⟩ := h.exact (by decide)
    cases hx

theorem two_pow_dvd_factorial : 2 ^ 64 ∣ Nat.factorial 66 := by
  decide

theorem factorial_min_modEq (k : Kind) (n : Nat) :
    ((Nat.min n 66).factorial : Int) ≡ n.factorial [ZMOD 2 ^ k.width] := by
  rcases Nat.le_total n 66 with hle | hle
  · have hmin : Nat.min n 66 = n := Nat.min_eq_left hle
    rw [hmin]
  have hmin : Nat.min n 66 = 66 := Nat.min_eq_right hle
  have hword : 2 ^ k.width ∣ Nat.factorial 66 :=
    (Nat.pow_dvd_pow 2 k.width_le_word).trans two_pow_dvd_factorial
  have hlarge : 2 ^ k.width ∣ n.factorial := hword.trans (Nat.factorial_dvd_factorial hle)
  have hmod : Nat.factorial 66 ≡ n.factorial [MOD 2 ^ k.width] :=
    ((Nat.modEq_zero_iff_dvd).mpr hword).trans ((Nat.modEq_zero_iff_dvd).mpr hlarge).symm
  rw [hmin]
  exact_mod_cast (Int.natCast_modEq_iff).mpr hmod

theorem highest_lt (k : Kind) : highest k < (1 <<< 127 : Nat) := by
  cases k with
  | uint w => cases w <;> decide
  | int w => cases w <;> decide
  | _ => decide

theorem integerFactorial_computes (hk : k.isInteger) (hn : ¬ n < 0) :
    Computes .integerOverflow (n.toNat.factorial : Int)
      fun checked => integerFactorial k checked n where
  exact hrange := by
    have hle : (n.toNat.factorial : Int) ≤ highest k := by
      simp only [inRange, Bool.and_eq_true, decide_eq_true_eq] at hrange
      exact hrange.2
    have hsmall : n.toNat.factorial < 1 <<< 127 := by
      exact_mod_cast hle.trans_lt (highest_lt k)
    rw [integerFactorial_checked k hn, if_pos hsmall]
    exact (fit_computes hk _).exact hrange
  overflow hrange := by
    rw [integerFactorial_checked k hn]
    split
    · exact (fit_computes hk _).overflow hrange
    · rfl
  wraps := by
    obtain ⟨x, m, hx, hm, hrange, hmod⟩ := wraps_wrap hk (Nat.min n.toNat 66).factorial
    rw [integerFactorial_unchecked hk hn]
    exact ⟨x, m, hx, hm, hrange, hmod.trans (factorial_min_modEq k n.toNat)⟩

theorem integerFactorial_negative (k : Kind) (hn : n < 0) :
    integerFactorial k true n = .error .outOfRange ∧
      integerFactorial k false n = .ok (zero k) := by
  constructor
  · rw [integerFactorial, if_pos hn, if_pos rfl]
  · rw [integerFactorial, if_pos hn, if_neg Bool.false_ne_true]

theorem fact_eq {x : Scalar k} (hx : x.toInt? = some n) (hk : k.isInteger) (checked : Bool) :
    fact checked x = integerFactorial k checked n := by
  cases k with
  | uint w =>
      obtain rfl := Option.some.inj hx
      rfl
  | int w =>
      obtain rfl := Option.some.inj hx
      rfl
  | _ => cases hk

theorem factorial_computes (hk : k.isInteger) (x : Scalar k) :
    ∃ n, x.toInt? = some n ∧
      (n < 0 → unary true .fact x = .error .outOfRange ∧
        ∃ z, unary false .fact x = .ok z ∧ toInt? (k := k) z = some 0) ∧
      (0 ≤ n → Computes (k := k) .integerOverflow (n.toNat.factorial : Int)
        fun checked => unary checked .fact x) := by
  obtain ⟨n, hn⟩ := exists_toInt? (Kind.isFloat_of_isInteger hk) x
  refine ⟨n, hn, fun hneg => ?_, fun hnonneg => ?_⟩
  · obtain ⟨hchecked, hunchecked⟩ := integerFactorial_negative k hneg
    exact ⟨(fact_eq hn hk true).trans hchecked, zero k, (fact_eq hn hk false).trans hunchecked,
      toInt?_zero hk⟩
  · have hfact : (fun checked => fact checked x) = fun checked => integerFactorial k checked n :=
      funext (fact_eq hn hk)
    change Computes .integerOverflow _ fun checked => fact checked x
    rw [hfact]
    exact integerFactorial_computes hk (not_lt.mpr hnonneg)

theorem factorial_computes_hundred :
    (Kind.uint .w64).isInteger ∧
      unary true .fact (wrap (.uint .w64) 100) = .error .integerOverflow ∧
      ∃ z, unary false .fact (wrap (.uint .w64) 100) = .ok z ∧
        toInt? (k := .uint .w64) z = some 0 := by
  obtain ⟨n, hn, -, hfactorial⟩ := factorial_computes (k := .uint .w64) rfl (wrap _ 100)
  obtain rfl : 100 = n := Option.some.inj ((toInt?_wrap rfl (by decide)).symm.trans hn)
  have hcomputes := hfactorial (by decide)
  obtain ⟨z, m, hz, hm, hrange, hmod⟩ := hcomputes.wraps
  have hzero : (Nat.factorial 100 : Int) ≡ 0 [ZMOD 2 ^ 64] :=
    (Int.modEq_zero_iff_dvd).mpr (by decide)
  have hword : m % 2 ^ 64 = 0 := hmod.trans hzero
  rw [inRange, Bool.and_eq_true, decide_eq_true_eq, decide_eq_true_eq] at hrange
  have hbounds : 0 ≤ m ∧ m ≤ 2 ^ 64 - 1 := hrange
  obtain rfl : m = 0 := by omega
  exact ⟨rfl, hcomputes.overflow (by decide), z, hz, hm⟩

end Scalar

end FormulaMachine
