import FormulaMachine.Operator
import FormulaMachine.Proofs.Scalar.Words
import FormulaMachine.Scalar.Cast
import Mathlib.Data.Nat.Factorial.Basic

namespace FormulaMachine

def Agrees {α : Type} (checked unchecked : Except Fault α) : Prop :=
  ∀ x, checked = .ok x → unchecked = .ok x

namespace Agrees

variable {α β : Type} {a b : Except Fault α}

theorem refl (a : Except Fault α) : Agrees a a := fun _ hx => hx

theorem of_error (e : Fault) (b : Except Fault α) : Agrees (.error e) b := by
  intro x hx
  cases hx

theorem map (f : α → β) (h : Agrees a b) : Agrees (a.map f) (b.map f) := by
  intro y hy
  cases a with
  | error e => cases hy
  | ok x =>
      rw [h x rfl]
      exact hy

theorem bind {f g : α → Except Fault β} (h : Agrees a b) (hf : ∀ x, Agrees (f x) (g x)) :
    Agrees (a >>= f) (b >>= g) := by
  intro y hy
  cases a with
  | error e => cases hy
  | ok x =>
      rw [h x rfl]
      exact hf x y hy

theorem mapM {f g : α → Except Fault β} (h : ∀ x, Agrees (f x) (g x)) (xs : List α) :
    Agrees (xs.mapM f) (xs.mapM g) := by
  induction xs with
  | nil => exact refl _
  | cons x xs ih =>
      simp only [List.mapM_cons]
      exact (h x).bind fun y => ih.bind fun ys => refl _

theorem foldlM {f g : β → α → Except Fault β} (h : ∀ y x, Agrees (f y x) (g y x)) (y : β)
    (xs : List α) : Agrees (xs.foldlM f y) (xs.foldlM g y) := by
  induction xs generalizing y with
  | nil => exact refl _
  | cons x xs ih =>
      simp only [List.foldlM_cons]
      exact (h y x).bind ih

theorem of_checks {c : Bool} (e : Fault) (h : c = false → Agrees a b) :
    Agrees (if c then .error e else a) b := by
  cases c with
  | true => exact of_error e b
  | false => exact h rfl

end Agrees

namespace Scalar

variable {k : Kind}

theorem fit_agrees (k : Kind) (n : Int) : Agrees (fit k true n) (fit k false n) := by
  intro x hx
  by_cases hn : inRange k n
  · simpa only [fit, hn, if_true] using hx
  · simp [fit, hn] at hx

theorem integerArithmetic_agrees (k : Kind) (op : Arithmetic) (a b : Int) :
    Agrees (integerArithmetic k true op a b) (integerArithmetic k false op a b) := by
  cases op with
  | sum => exact fit_agrees k _
  | sub => exact fit_agrees k _
  | mul => exact fit_agrees k _
  | div =>
      by_cases hb : b = 0
      · simp only [integerArithmetic, hb, if_true]
        exact Agrees.of_error _ _
      · simp only [integerArithmetic, hb, if_false]
        exact fit_agrees k _
  | pow =>
      by_cases hb : 0 ≤ b ∧ b < 1 <<< 32
      · simp only [integerArithmetic, hb, and_self, if_true]
        exact fit_agrees k _
      · simp only [integerArithmetic, hb, if_false, if_true]
        exact Agrees.of_error _ _
  | min => exact fit_agrees k _
  | max => exact fit_agrees k _

theorem checkFinite_agrees (x : Scalar k) :
    Agrees (checkFinite true x) (checkFinite false x) := by
  simp only [checkFinite, Bool.true_and, Bool.false_and]
  exact Agrees.of_checks _ fun _ => Agrees.refl _

theorem arithmetic_agrees (op : Arithmetic) (l r : Scalar k) :
    Agrees (arithmetic true op l r) (arithmetic false op l r) := by
  cases k with
  | bool => exact Agrees.refl _
  | uint w => exact integerArithmetic_agrees _ op _ _
  | int w => exact integerArithmetic_agrees _ op _ _
  | float32 =>
      simp only [arithmetic, Bool.true_and, Bool.false_and]
      exact Agrees.of_checks _ fun _ => checkFinite_agrees _
  | float64 =>
      simp only [arithmetic, Bool.true_and, Bool.false_and]
      exact Agrees.of_checks _ fun _ => checkFinite_agrees _

theorem productFrom?_factorial {i : Nat} (hi : i.factorial < 1 <<< 127) (count : Nat) :
    productFrom? i.factorial (i + 1) count =
      if (i + count).factorial < 1 <<< 127 then some (i + count).factorial else none := by
  induction count generalizing i with
  | zero => rw [productFrom?, Nat.add_zero, if_pos hi]
  | succ count ih =>
      have hproduct : i.factorial * (i + 1) = (i + 1).factorial := by
        rw [Nat.factorial_succ, Nat.mul_comm]
      rw [productFrom?, hproduct]
      by_cases hnext : (i + 1).factorial < 1 <<< 127
      · rw [if_pos hnext, ih hnext, Nat.add_right_comm, Nat.add_assoc]
      · have hle : (i + 1).factorial ≤ (i + (count + 1)).factorial :=
          Nat.factorial_le (by omega)
        rw [if_neg hnext, if_neg fun hlast => hnext (Nat.lt_of_le_of_lt hle hlast)]

theorem factorial_add_pred (n : Nat) : (1 + (n - 1)).factorial = n.factorial := by
  rcases Nat.eq_zero_or_pos n with rfl | hpos
  · rfl
  · rw [Nat.add_sub_cancel' hpos]

theorem integerFactorial_checked (k : Kind) {n : Int} (hn : ¬ n < 0) :
    integerFactorial k true n =
      if n.toNat.factorial < 1 <<< 127 then fit k true n.toNat.factorial
      else .error .integerOverflow := by
  have hproduct : productFrom? 1 2 (n.toNat - 1) =
      if (1 + (n.toNat - 1)).factorial < 1 <<< 127 then some (1 + (n.toNat - 1)).factorial
      else none := productFrom?_factorial (i := 1) (by decide) _
  rw [integerFactorial, if_neg hn, if_pos rfl, hproduct, factorial_add_pred]
  by_cases hsmall : n.toNat.factorial < 1 <<< 127
  · rw [if_pos hsmall, if_pos hsmall]
  · rw [if_neg hsmall, if_neg hsmall]

theorem wrappedProduct_factorial (i count : Nat) :
    wrappedProduct (BitVec.ofNat 64 i.factorial) (i + 1) count =
      BitVec.ofNat 64 (i + count).factorial := by
  induction count generalizing i with
  | zero => rfl
  | succ count ih =>
      have hproduct : BitVec.ofNat 64 i.factorial * BitVec.ofNat 64 (i + 1) =
          BitVec.ofNat 64 (i + 1).factorial := by
        rw [← BitVec.ofNat_mul, Nat.factorial_succ, Nat.mul_comm]
      rw [wrappedProduct, hproduct, ih, Nat.add_right_comm, Nat.add_assoc]

theorem integerFactorial_unchecked (hk : k.isInteger) {n : Int} (hn : ¬ n < 0) :
    integerFactorial k false n = .ok (wrap k (Nat.min n.toNat 66).factorial) := by
  have hproduct : wrappedProduct 1 2 (Nat.min n.toNat 66 - 1) =
      BitVec.ofNat 64 (1 + (Nat.min n.toNat 66 - 1)).factorial := wrappedProduct_factorial 1 _
  rw [integerFactorial, if_neg hn, if_neg Bool.false_ne_true, hproduct, factorial_add_pred,
    ofWord_ofNat hk]

theorem lt_of_factorial_lt {n : Nat} (h : n.factorial < 1 <<< 127) : n < 34 := by
  by_contra hle
  have hcap : 1 <<< 127 ≤ Nat.factorial 34 := by decide
  have hlarge := Nat.le_trans hcap (Nat.factorial_le (Nat.le_of_not_lt hle))
  exact absurd h (Nat.not_lt.mpr hlarge)

theorem integerFactorial_agrees (hk : k.isInteger) (n : Int) :
    Agrees (integerFactorial k true n) (integerFactorial k false n) := by
  by_cases hneg : n < 0
  · simp only [integerFactorial, hneg, if_true]
    exact Agrees.of_error _ _
  · rw [integerFactorial_checked k hneg, integerFactorial_unchecked hk hneg]
    split
    · rename_i hsmall
      have hcap : Nat.min n.toNat 66 = n.toNat :=
        Nat.min_eq_left (Nat.le_of_lt (Nat.lt_trans (lt_of_factorial_lt hsmall) (by decide)))
      intro x hx
      have hfit := fit_agrees k n.toNat.factorial x hx
      rw [hcap]
      simpa only [fit, ite_self, Bool.false_eq_true, if_false] using hfit
    · exact Agrees.of_error _ _

theorem negate_agrees (x : Scalar k) : Agrees (negate true x) (negate false x) := by
  cases k with
  | bool => exact Agrees.refl _
  | uint w => exact Agrees.refl _
  | int w => exact fit_agrees _ _
  | float32 => exact checkFinite_agrees _
  | float64 => exact checkFinite_agrees _

theorem absolute_agrees (x : Scalar k) : Agrees (absolute true x) (absolute false x) := by
  cases k with
  | bool => exact Agrees.refl _
  | uint w => exact Agrees.refl _
  | int w => exact fit_agrees _ _
  | float32 => exact checkFinite_agrees _
  | float64 => exact checkFinite_agrees _

theorem realFunction_agrees (f : RealFunction) (x : Scalar k) :
    Agrees (realFunction true f x) (realFunction false f x) := by
  cases k with
  | bool => exact Agrees.refl _
  | uint w => exact Agrees.refl _
  | int w => exact Agrees.refl _
  | float32 => exact checkFinite_agrees _
  | float64 => exact checkFinite_agrees _

theorem fact_agrees (x : Scalar k) : Agrees (fact true x) (fact false x) := by
  cases k with
  | bool => exact Agrees.refl _
  | uint w => exact integerFactorial_agrees rfl _
  | int w => exact integerFactorial_agrees rfl _
  | float32 => exact Agrees.refl _
  | float64 => exact Agrees.refl _

theorem unary_agrees (op : UnaryOp) (x : Scalar k) :
    Agrees (unary true op x) (unary false op x) := by
  cases op with
  | neg => exact negate_agrees x
  | not => exact Agrees.refl _
  | abs => exact absolute_agrees x
  | fact => exact fact_agrees x
  | real f => exact realFunction_agrees f x

theorem ofInt?_eq_some {k : Kind} {n : Int} {y : Scalar k} (hk : k.isInteger)
    (h : ofInt? k n = some y) : inRange k n ∧ y = wrap k n := by
  cases k with
  | bool => cases hk
  | uint w =>
      rw [ofInt?] at h
      split at h
      · rename_i hn
        exact ⟨hn, (Option.some.inj h).symm⟩
      · cases h
  | int w =>
      rw [ofInt?] at h
      split at h
      · rename_i hn
        exact ⟨hn, (Option.some.inj h).symm⟩
      · cases h
  | float32 => cases hk
  | float64 => cases hk

theorem clamp_of_inRange {k : Kind} {n : Int} (h : inRange k n) : clamp k n = wrap k n := by
  simp only [inRange, Bool.and_eq_true, decide_eq_true_eq] at h
  have hn : max (lowest k) (min (highest k) n) = n := by omega
  rw [clamp, hn]

theorem saturate_agrees {k : Kind} (hk : k.isInteger) (negative : Bool) (units : Nat) :
    Agrees (ofTruncated? k (.finite negative units))
      (.ok (saturate k (.finite negative units))) := by
  intro y hy
  obtain ⟨n, hn⟩ : ∃ n, (FloatValue.finite negative units).truncate? = some n := by
    cases negative <;> exact ⟨_, rfl⟩
  rw [ofTruncated?, hn, Option.bind_some] at hy
  cases hof : ofInt? k n with
  | none => simp [hof] at hy
  | some z =>
      obtain ⟨hrange, rfl⟩ := ofInt?_eq_some hk hof
      simp only [hof] at hy
      rw [saturate, hn, Option.getD_some, clamp_of_inRange hrange]
      exact hy

theorem ofFloat_agrees (v : FloatValue) (k : Kind) :
    Agrees (ofFloatChecked v k) (.ok (ofFloatUnchecked v k)) := by
  cases v with
  | nan => exact Agrees.of_error _ _
  | infinite negative => exact Agrees.of_error _ _
  | finite negative units =>
      cases k with
      | bool => exact Agrees.refl _
      | uint w => exact saturate_agrees rfl negative units
      | int w => exact saturate_agrees rfl negative units
      | float32 =>
          intro y hy
          simp only [ofFloatChecked, ofFinite] at hy
          split at hy
          · cases hy
          · exact hy
      | float64 => exact Agrees.refl _

theorem cast_agrees {j : Kind} (k : Kind) (x : Scalar j) :
    Agrees (cast true k x) (cast false k x) := by
  by_cases hjk : j = k
  · simp only [cast, hjk, dif_pos]
    exact Agrees.refl _
  · cases hx : x.toInt? with
    | none =>
        simp only [cast, hjk, dif_neg, not_false_eq_true, hx, if_true, Bool.false_eq_true, if_false]
        exact ofFloat_agrees _ _
    | some n =>
        cases hy : ofInt? k n with
        | none =>
            simp only [cast, hjk, dif_neg, not_false_eq_true, hx, hy, if_true]
            exact Agrees.of_error _ _
        | some y =>
            simp only [cast, hjk, dif_neg, not_false_eq_true, hx, hy]
            exact Agrees.refl _

end Scalar

end FormulaMachine
