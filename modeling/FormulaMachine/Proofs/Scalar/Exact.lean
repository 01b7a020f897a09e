import FormulaMachine.Proofs.Scalar.Agreement
import FormulaMachine.Proofs.Scalar.Progress
import Mathlib.Algebra.Group.Int.Defs

namespace FormulaMachine

def Kind.convert (k : Kind) (n : Int) : Int :=
  if k = .bool then (n != 0).toInt else n

def Arithmetic.onInts? (op : Arithmetic) (a b : Int) : Option Int :=
  match op with
  | .sum => some (a + b)
  | .sub => some (a - b)
  | .mul => some (a * b)
  | .div => if b = 0 then none else some (a.tdiv b)
  | .pow => if 0 ≤ b ∧ b < 2 ^ 32 then some (a ^ b.toNat) else none
  | .min => some (Min.min a b)
  | .max => some (Max.max a b)

def Comparison.onInts (op : Comparison) (a b : Int) : Int :=
  (op.holds (some (compare a b))).toInt

def Connective.onInts (op : Connective) (a b : Int) : Int :=
  (op.apply (a != 0) (b != 0)).toInt

def UnaryOp.onInt? (op : UnaryOp) (a : Int) : Option Int :=
  match op with
  | .neg => some (-a)
  | .not => some (a == 0).toInt
  | .abs => some a.natAbs
  | .fact => if a < 0 then none else some a.toNat.factorial
  | .real _ => none

def Kernel.onInts? : Kernel → List Int → Option Int
  | .arithmetic op, [a, b] => op.onInts? a b
  | .comparison op, [a, b] => some (op.onInts a b)
  | .connective op, [a, b] => some (op.onInts a b)
  | .unary op, [a] => op.onInt? a
  | _, _ => none

namespace Scalar

variable {k : Kind} {a b n : Int}

theorem exists_toInt? (hk : k.isFloat = false) (x : Scalar k) : ∃ n, x.toInt? = some n := by
  cases k with
  | bool => exact ⟨_, rfl⟩
  | uint w => exact ⟨_, rfl⟩
  | int w => exact ⟨_, rfl⟩
  | float32 => cases hk
  | float64 => cases hk

theorem toInt?_ofBool (b : Bool) : (ofBool b).toInt? = some b.toInt := by
  cases b <;> rfl

theorem toInt?_wrap (hk : k.isInteger) (h : inRange k n) : (wrap k n).toInt? = some n := by
  simp only [inRange, Bool.and_eq_true, decide_eq_true_eq] at h
  cases k with
  | uint w =>
      cases w <;>
        simp only [lowest, highest, Kind.isSigned, Kind.width, Width.bits,
          Nat.shiftLeft_eq] at h <;>
        simp only [wrap, toInt?, BitVec.toNat_ofInt, Kind.width, Width.bits] <;> grind
  | int w =>
      cases w <;>
        simp only [lowest, highest, Kind.isSigned, Kind.width, Width.bits,
          Nat.shiftLeft_eq] at h <;>
        simp only [wrap, toInt?, BitVec.toInt_ofInt, Kind.width, Width.bits] <;> grind
  | _ => cases hk

theorem inRange_of_toInt? {x : Scalar k} (hk : k.isInteger) (h : x.toInt? = some n) :
    inRange k n ∧ x = wrap k n := by
  cases k with
  | uint w =>
      obtain rfl := Option.some.inj h
      have hlt := x.bits.isLt
      constructor
      · simp only [inRange, lowest, highest, Kind.isSigned, Nat.one_shiftLeft, Bool.and_eq_true,
          decide_eq_true_eq, Bool.false_eq_true, if_false]
        omega
      · rw [wrap, BitVec.ofInt_natCast, BitVec.ofNat_toNat, BitVec.setWidth_eq]
  | int w =>
      obtain rfl := Option.some.inj h
      constructor
      · have hlow := BitVec.le_toInt x.bits
        have hhigh := BitVec.toInt_lt (x := x.bits)
        simp only [inRange, lowest, highest, Kind.isSigned, Nat.one_shiftLeft, Bool.and_eq_true,
          decide_eq_true_eq, if_true, Int.natCast_pow, Int.cast_ofNat_Int]
        exact ⟨hlow, Int.le_sub_one_of_lt hhigh⟩
      · rw [wrap, BitVec.ofInt_toInt]
  | _ => cases hk

theorem fit_exact {x : Scalar k} (hk : k.isInteger) (h : fit k true n = .ok x) :
    x.toInt? = some n := by
  rw [fit] at h
  split at h
  · rename_i hn
    obtain rfl := Except.ok.inj h
    exact toInt?_wrap hk hn
  · cases h

theorem integerArithmetic_exact {x : Scalar k} (hk : k.isInteger) {op : Arithmetic}
    (h : integerArithmetic k true op a b = .ok x) :
    ∃ n, op.onInts? a b = some n ∧ x.toInt? = some n := by
  cases op with
  | sum => exact ⟨_, rfl, fit_exact hk h⟩
  | sub => exact ⟨_, rfl, fit_exact hk h⟩
  | mul => exact ⟨_, rfl, fit_exact hk h⟩
  | div =>
      rw [integerArithmetic] at h
      split at h
      · cases h
      · rename_i hb
        exact ⟨_, if_neg hb, fit_exact hk h⟩
  | pow =>
      rw [integerArithmetic] at h
      split at h
      · rename_i hb
        exact ⟨_, if_pos hb, fit_exact hk h⟩
      · cases h
  | min =>
      refine ⟨_, rfl, (fit_exact hk h).trans (congrArg some ?_)⟩
      omega
  | max =>
      refine ⟨_, rfl, (fit_exact hk h).trans (congrArg some ?_)⟩
      omega

theorem arithmetic_exact {op : Arithmetic} {l r x : Scalar k} (hl : l.toInt? = some a)
    (hr : r.toInt? = some b) (h : arithmetic true op l r = .ok x) :
    ∃ n, op.onInts? a b = some n ∧ x.toInt? = some n := by
  cases k with
  | bool => cases h
  | uint w =>
      obtain rfl := Option.some.inj hl
      obtain rfl := Option.some.inj hr
      exact integerArithmetic_exact rfl h
  | int w =>
      obtain rfl := Option.some.inj hl
      obtain rfl := Option.some.inj hr
      exact integerArithmetic_exact rfl h
  | float32 => cases hl
  | float64 => cases hl

theorem compare_natCast (m n : Nat) : compare (m : Int) (n : Int) = compare m n := by
  simp only [compare, compareOfLessAndEq, Int.ofNat_lt, Int.ofNat_inj]

theorem compare?_exact {l r : Scalar k} (hl : l.toInt? = some a) (hr : r.toInt? = some b) :
    compare? l r = some (compare a b) := by
  cases k with
  | bool =>
      obtain rfl := Option.some.inj hl
      obtain rfl := Option.some.inj hr
      rw [compare_natCast]
      rfl
  | uint w =>
      obtain rfl := Option.some.inj hl
      obtain rfl := Option.some.inj hr
      rw [compare_natCast]
      rfl
  | int w =>
      obtain rfl := Option.some.inj hl
      obtain rfl := Option.some.inj hr
      rfl
  | float32 => cases hl
  | float64 => cases hl

theorem comparison_exact (op : Comparison) {l r : Scalar k} (hl : l.toInt? = some a)
    (hr : r.toInt? = some b) : (comparison op l r).toInt? = some (op.onInts a b) := by
  rw [comparison, compare?_exact hl hr, toInt?_ofBool, Comparison.onInts]

theorem isTrue_exact {x : Scalar k} (hx : x.toInt? = some a) : x.isTrue = (a != 0) := by
  have hnat {w : Nat} (bits : BitVec w) : (bits != 0) = ((bits.toNat : Int) != 0) := by
    rw [Bool.eq_iff_iff]
    simp [← BitVec.toNat_inj]
  have hint {w : Nat} (bits : BitVec w) : (bits != 0) = (bits.toInt != 0) := by
    rw [Bool.eq_iff_iff]
    simp [← BitVec.toInt_inj]
  cases k with
  | bool =>
      obtain rfl := Option.some.inj hx
      exact hnat x.bits
  | uint w =>
      obtain rfl := Option.some.inj hx
      exact hnat x.bits
  | int w =>
      obtain rfl := Option.some.inj hx
      exact hint x.bits
  | float32 => cases hx
  | float64 => cases hx

theorem connective_exact (op : Connective) {l r : Scalar k} (hl : l.toInt? = some a)
    (hr : r.toInt? = some b) : (connective op l r).toInt? = some (op.onInts a b) := by
  rw [connective, isTrue_exact hl, isTrue_exact hr, toInt?_ofBool, Connective.onInts]

theorem integerFactorial_exact {x : Scalar k} (hk : k.isInteger)
    (h : integerFactorial k true a = .ok x) :
    ∃ n, UnaryOp.fact.onInt? a = some n ∧ x.toInt? = some n := by
  by_cases hneg : a < 0
  · simp only [integerFactorial, hneg, if_true] at h
    cases h
  · rw [integerFactorial_checked k hneg] at h
    split at h
    · exact ⟨_, if_neg hneg, fit_exact hk h⟩
    · cases h

theorem unary_exact {op : UnaryOp} {x : Scalar k} {y : Scalar (op.resultKind k)}
    (hx : x.toInt? = some a) (h : unary true op x = .ok y) :
    ∃ n, op.onInt? a = some n ∧ y.toInt? = some n := by
  cases op with
  | not =>
      obtain rfl := Except.ok.inj h
      refine ⟨_, rfl, (toInt?_ofBool _).trans ?_⟩
      rw [isTrue_exact hx, bne, Bool.not_not]
  | neg =>
      cases k with
      | int w =>
          obtain rfl := Option.some.inj hx
          exact ⟨_, rfl, fit_exact rfl h⟩
      | bool => cases h
      | uint w => cases h
      | float32 => cases hx
      | float64 => cases hx
  | abs =>
      cases k with
      | int w =>
          obtain rfl := Option.some.inj hx
          exact ⟨_, rfl, fit_exact rfl h⟩
      | bool => cases h
      | uint w => cases h
      | float32 => cases hx
      | float64 => cases hx
  | fact =>
      cases k with
      | int w =>
          obtain rfl := Option.some.inj hx
          exact integerFactorial_exact rfl h
      | uint w =>
          obtain rfl := Option.some.inj hx
          exact integerFactorial_exact rfl h
      | bool => cases h
      | float32 => cases hx
      | float64 => cases hx
  | real f =>
      cases k with
      | bool => cases h
      | uint w => cases h
      | int w => cases h
      | float32 => cases hx
      | float64 => cases hx

theorem convert_of_bool {x : Scalar .bool} (hx : x.toInt? = some n) :
    Kind.bool.convert n = n := by
  have hlt : x.bits.toNat < 2 := x.bits.isLt
  obtain rfl := Option.some.inj hx
  rcases Nat.lt_succ_iff_lt_or_eq.mp hlt with hzero | hone
  · rw [Nat.lt_one_iff.mp hzero]
    rfl
  · rw [hone]
    rfl

theorem ofInt?_exact {x : Scalar k} (hk : k.isFloat = false) (h : ofInt? k n = some x) :
    x.toInt? = some (k.convert n) := by
  cases k with
  | bool =>
      obtain rfl := Option.some.inj h
      exact toInt?_ofBool _
  | uint w =>
      obtain ⟨hn, rfl⟩ := ofInt?_eq_some rfl h
      exact toInt?_wrap rfl hn
  | int w =>
      obtain ⟨hn, rfl⟩ := ofInt?_eq_some rfl h
      exact toInt?_wrap rfl hn
  | float32 => cases hk
  | float64 => cases hk

theorem cast_exact {j : Kind} {x : Scalar j} {y : Scalar k} (hk : k.isFloat = false)
    (hx : x.toInt? = some n) (h : cast true k x = .ok y) : y.toInt? = some (k.convert n) := by
  by_cases hjk : j = k
  · subst hjk
    rw [cast, dif_pos rfl] at h
    obtain rfl := Except.ok.inj h
    by_cases hbool : j = .bool
    · subst hbool
      rw [convert_of_bool hx]
      exact hx
    · rw [Kind.convert, if_neg hbool]
      exact hx
  · rw [cast, dif_neg hjk, hx] at h
    dsimp only at h
    cases hz : ofInt? k n with
    | none =>
        rw [hz] at h
        cases h
    | some z =>
        rw [hz] at h
        obtain rfl := Except.ok.inj h
        exact ofInt?_exact hk hz

end Scalar

theorem Kernel.onScalars_exact {kernel : Kernel} {k : Kind} {xs : List (Scalar k)} {ns : List Int}
    {y : Scalar (kernel.resultKind k)}
    (hxs : List.Forall₂ (fun x n => Scalar.toInt? x = some n) xs ns)
    (h : kernel.onScalars true xs = .ok y) :
    ∃ n, kernel.onInts? ns = some n ∧ y.toInt? = some n := by
  cases hxs with
  | nil => cases kernel <;> cases h
  | @cons x n xs ns hx hxs =>
    cases hxs with
    | nil =>
        cases kernel with
        | unary op => exact Scalar.unary_exact hx h
        | _ => cases h
    | @cons x' n' xs ns hx' hxs =>
      cases hxs with
      | nil =>
          cases kernel with
          | arithmetic op => exact Scalar.arithmetic_exact hx hx' h
          | comparison op =>
              obtain rfl := Except.ok.inj h
              exact ⟨_, rfl, Scalar.comparison_exact op hx hx'⟩
          | connective op =>
              obtain rfl := Except.ok.inj h
              exact ⟨_, rfl, Scalar.connective_exact op hx hx'⟩
          | unary op => cases h
      | cons => cases kernel <;> cases h

end FormulaMachine
