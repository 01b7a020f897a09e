import FormulaMachine.Operator
import FormulaMachine.Scalar.Cast
import Mathlib.Data.List.Basic

namespace FormulaMachine

def Fault.isNumeric : Fault → Bool
  | .integerOverflow | .divideByZero | .notFinite | .outOfRange => true
  | .stackOverflow | .stackUnderflow | .badOperand => false

inductive Progresses {α : Type} (checked : Bool) : Except Fault α → Prop
  | ok (x : α) : Progresses checked (.ok x)
  | fault {f : Fault} (hchecked : checked = true) (hf : f.isNumeric = true) :
      Progresses checked (.error f)

namespace Progresses

variable {α β : Type} {checked : Bool} {a : Except Fault α}

theorem map (f : α → β) (h : Progresses checked a) : Progresses checked (a.map f) := by
  cases h with
  | ok x => exact ok _
  | fault hchecked hf => exact fault hchecked hf

theorem bind {f : α → Except Fault β} (h : Progresses checked a)
    (hf : ∀ x, Progresses checked (f x)) : Progresses checked (a >>= f) := by
  cases h with
  | ok x => exact hf x
  | fault hchecked hf => exact fault hchecked hf

theorem mapM {f : α → Except Fault β} (h : ∀ x, Progresses checked (f x)) (xs : List α) :
    Progresses checked (xs.mapM f) := by
  induction xs with
  | nil => exact ok _
  | cons x xs ih =>
      rw [List.mapM_cons]
      exact (h x).bind fun _ => ih.bind fun _ => ok _

theorem foldlM {f : β → α → Except Fault β} (h : ∀ y x, Progresses checked (f y x)) (y : β)
    (xs : List α) : Progresses checked (xs.foldlM f y) := by
  induction xs generalizing y with
  | nil => exact ok _
  | cons x xs ih =>
      rw [List.foldlM_cons]
      exact (h y x).bind ih

theorem of_check {f : Fault} {b : Bool} (hf : f.isNumeric = true) (h : Progresses checked a) :
    Progresses checked (if checked && b then .error f else a) := by
  cases hc : checked && b with
  | true => exact fault (Bool.and_eq_true_iff.mp hc).1 hf
  | false => exact h

end Progresses

namespace Scalar

variable {k : Kind} (checked : Bool)

theorem fit_progresses (k : Kind) (n : Int) : Progresses checked (fit k checked n) := by
  unfold fit
  split
  · exact .ok _
  · split
    · exact .fault ‹_› rfl
    · exact .ok _

theorem integerArithmetic_progresses (k : Kind) (op : Arithmetic) (a b : Int) :
    Progresses checked (integerArithmetic k checked op a b) := by
  cases op with
  | pow =>
      rw [integerArithmetic]
      split
      · exact fit_progresses checked k _
      · split
        · exact .fault ‹_› rfl
        · exact .ok _
  | div =>
      rw [integerArithmetic]
      split
      · split
        · exact .fault ‹_› rfl
        · exact .ok _
      · exact fit_progresses checked k _
  | _ => exact fit_progresses checked k _

theorem checkFinite_progresses (x : Scalar k) : Progresses checked (checkFinite checked x) :=
  Progresses.of_check rfl (.ok x)

theorem arithmetic_progresses {op : Arithmetic} (hk : k ∈ (Kernel.arithmetic op).kinds)
    (l r : Scalar k) : Progresses checked (arithmetic checked op l r) := by
  cases k with
  | bool => cases op <;> simp [Kernel.kinds, Kind.isNumeric] at hk
  | uint w => exact integerArithmetic_progresses checked _ op _ _
  | int w => exact integerArithmetic_progresses checked _ op _ _
  | float32 =>
      rw [arithmetic, Bool.and_assoc]
      exact .of_check rfl (checkFinite_progresses checked _)
  | float64 =>
      rw [arithmetic, Bool.and_assoc]
      exact .of_check rfl (checkFinite_progresses checked _)

theorem integerFactorial_progresses (k : Kind) (n : Int) :
    Progresses checked (integerFactorial k checked n) := by
  unfold integerFactorial
  split
  · split
    · exact .fault ‹_› rfl
    · exact .ok _
  · split
    · rename_i hchecked
      split
      · exact .fault hchecked rfl
      · exact hchecked ▸ fit_progresses true k _
    · exact .ok _

theorem negate_progresses (hk : k.isSigned) (x : Scalar k) :
    Progresses checked (negate checked x) := by
  cases k with
  | bool => cases hk
  | uint w => cases hk
  | int w => exact fit_progresses checked _ _
  | float32 => exact checkFinite_progresses checked _
  | float64 => exact checkFinite_progresses checked _

theorem absolute_progresses (hk : k.isSigned) (x : Scalar k) :
    Progresses checked (absolute checked x) := by
  cases k with
  | bool => cases hk
  | uint w => cases hk
  | int w => exact fit_progresses checked _ _
  | float32 => exact checkFinite_progresses checked _
  | float64 => exact checkFinite_progresses checked _

theorem realFunction_progresses (f : RealFunction) (hk : k.isFloat) (x : Scalar k) :
    Progresses checked (realFunction checked f x) := by
  cases k with
  | bool => cases hk
  | uint w => cases hk
  | int w => cases hk
  | float32 => exact checkFinite_progresses checked _
  | float64 => exact checkFinite_progresses checked _

theorem fact_progresses (hk : k.isInteger) (x : Scalar k) :
    Progresses checked (fact checked x) := by
  cases k with
  | bool => cases hk
  | uint w => exact integerFactorial_progresses checked _ _
  | int w => exact integerFactorial_progresses checked _ _
  | float32 => cases hk
  | float64 => cases hk

theorem unary_progresses {op : UnaryOp} (hk : k ∈ (Kernel.unary op).kinds) (x : Scalar k) :
    Progresses checked (unary checked op x) := by
  cases op with
  | neg => exact negate_progresses checked (List.mem_filter.mp hk).2 x
  | not => exact .ok _
  | abs => exact absolute_progresses checked (List.mem_filter.mp hk).2 x
  | fact => exact fact_progresses checked (List.mem_filter.mp hk).2 x
  | real f =>
      have hfloat : k.isFloat := by
        simp only [Kernel.kinds, List.mem_cons, List.not_mem_nil, or_false] at hk
        rcases hk with rfl | rfl <;> rfl
      exact realFunction_progresses checked f hfloat x

theorem ofTruncated?_progresses (k : Kind) (v : FloatValue) :
    Progresses true (ofTruncated? k v) := by
  unfold ofTruncated?
  split
  · exact .ok _
  · exact .fault rfl rfl

theorem ofFloatChecked_progresses (v : FloatValue) (k : Kind) :
    Progresses true (ofFloatChecked v k) := by
  cases v with
  | nan => exact .fault rfl rfl
  | infinite negative => exact .fault rfl rfl
  | finite negative units =>
      cases k with
      | bool => exact .ok _
      | uint w => exact ofTruncated?_progresses _ _
      | int w => exact ofTruncated?_progresses _ _
      | float32 =>
          simp only [ofFloatChecked, ofFinite]
          split
          · exact .fault rfl rfl
          · exact .ok _
      | float64 => exact .ok _

theorem cast_progresses {j : Kind} (k : Kind) (x : Scalar j) :
    Progresses checked (cast checked k x) := by
  unfold cast
  split
  · exact .ok _
  · split
    · split
      · exact .ok _
      · split
        · exact .fault ‹_› rfl
        · exact .ok _
    · split
      · rename_i hchecked
        exact hchecked ▸ ofFloatChecked_progresses _ _
      · exact .ok _

end Scalar

namespace Kernel

def onScalars (checked : Bool) : (kernel : Kernel) → {k : Kind} → List (Scalar k) →
    Except Fault (Scalar (kernel.resultKind k))
  | .arithmetic op, _, [l, r] => Scalar.arithmetic checked op l r
  | .comparison op, _, [l, r] => .ok (Scalar.comparison op l r)
  | .connective op, _, [l, r] => .ok (Scalar.connective op l r)
  | .unary op, _, [x] => Scalar.unary checked op x
  | _, _, _ => .error .stackUnderflow

theorem onScalars_progresses (checked : Bool) {kernel : Kernel} {k : Kind}
    (hk : k ∈ kernel.kinds) {xs : List (Scalar k)} (hxs : xs.length = kernel.arity) :
    Progresses checked (kernel.onScalars checked xs) := by
  cases kernel with
  | unary op =>
      obtain ⟨x, rfl⟩ := List.length_eq_one_iff.mp hxs
      exact Scalar.unary_progresses checked hk x
  | arithmetic op =>
      obtain ⟨l, r, rfl⟩ := List.length_eq_two.mp hxs
      exact Scalar.arithmetic_progresses checked hk l r
  | comparison op =>
      obtain ⟨l, r, rfl⟩ := List.length_eq_two.mp hxs
      exact .ok _
  | connective op =>
      obtain ⟨l, r, rfl⟩ := List.length_eq_two.mp hxs
      exact .ok _

end Kernel

end FormulaMachine
