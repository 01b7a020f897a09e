import FormulaMachine.Proofs.Number.Rounding
import FormulaMachine.Proofs.Results
import FormulaMachine.Proofs.Scalar.Progress

namespace FormulaMachine

namespace Scalar

variable {j k : Kind}

theorem isFinite_of_not_isFloat (hk : k.isFloat = false) (x : Scalar k) : x.isFinite := by
  cases k with
  | float32 => cases hk
  | float64 => cases hk
  | _ => rfl

theorem isFinite_mod (f : Format) (pattern : Nat) :
    f.isFinite (pattern % 2 ^ (f.signPlace + 1)) = f.isFinite pattern := by
  have hdvd : 2 ^ f.signPlace ∣ 2 ^ (f.signPlace + 1) := Nat.pow_dvd_pow 2 (Nat.le_succ _)
  simp only [Format.isFinite, Format.magnitude, Nat.one_shiftLeft, Nat.mod_mod_of_dvd _ hdvd]

section Rounded

variable {units : Nat} (negative : Bool)

theorem isFinite_ofFloatValue32 (h : units ≤ Format.single.largest) :
    (ofFloatValue32 (.finite negative units)).isFinite := by
  have hfinite := Format.isFinite_encode Format.proper_single (by decide) h negative
  rwa [← isFinite_mod] at hfinite

theorem isFinite_ofFloatValue64 (h : units ≤ Format.double.largest) :
    (ofFloatValue64 (.finite negative units)).isFinite := by
  have hfinite := Format.isFinite_encode Format.proper_double (Nat.le_refl _) h negative
  rwa [← isFinite_mod] at hfinite

end Rounded

theorem single_largest_le : Format.single.largest ≤ Format.double.largest := by
  decide +kernel

theorem integer_le_largest {n : Int} (h : n.natAbs ≤ 2 ^ 64) :
    n.natAbs <<< Format.double.scale ≤ Format.single.largest := by
  have hrange : (2 ^ 64) <<< Format.double.scale ≤ Format.single.largest := by decide +kernel
  rw [Nat.shiftLeft_eq] at hrange ⊢
  exact (Nat.mul_le_mul_right _ h).trans hrange

theorem natAbs_le_of_toInt? {x : Scalar j} {n : Int} (h : x.toInt? = some n) :
    n.natAbs ≤ 2 ^ 64 := by
  have hwidth : 2 ^ j.width ≤ 2 ^ 64 := Nat.pow_le_pow_right Nat.two_pos (by
    have := j.width_le
    have := j.size_le
    omega)
  cases j with
  | bool | uint w =>
      obtain rfl := Option.some.inj h
      exact x.bits.isLt.le.trans hwidth
  | int w =>
      obtain rfl := Option.some.inj h
      have hlow := BitVec.le_two_mul_toInt (x := x.bits)
      have hhigh := BitVec.two_mul_toInt_lt (x := x.bits)
      have hcast : ((2 ^ (Kind.int w).width : Nat) : Int) = 2 ^ (Kind.int w).width := by simp
      omega
  | float32 => cases h
  | float64 => cases h

theorem isFinite_ofInt? {n : Int} (hn : n.natAbs ≤ 2 ^ 64) {y : Scalar k}
    (h : ofInt? k n = some y) : y.isFinite := by
  have hrange := integer_le_largest hn
  cases k with
  | float32 =>
      obtain rfl := Option.some.inj h
      exact isFinite_ofFloatValue32 _ hrange
  | float64 =>
      obtain rfl := Option.some.inj h
      exact isFinite_ofFloatValue64 _ (hrange.trans single_largest_le)
  | _ => rfl

theorem value_of_isFinite {x : Scalar j} (hx : x.isFinite) :
    ∃ negative units, x.value = .finite negative units ∧ units ≤ Format.double.largest := by
  cases hn : x.toInt? with
  | some n =>
      have hrange := (integer_le_largest (natAbs_le_of_toInt? hn)).trans single_largest_le
      cases j with
      | float32 => cases hn
      | float64 => cases hn
      | _ =>
          obtain rfl := Option.some.inj hn
          exact ⟨_, _, rfl, hrange⟩
  | none =>
      cases j with
      | float32 =>
          obtain ⟨units, hvalue, hunits⟩ := Format.decode_of_isFinite hx
          exact ⟨_, units, hvalue, hunits.trans single_largest_le⟩
      | float64 =>
          obtain ⟨units, hvalue, hunits⟩ := Format.decode_of_isFinite hx
          exact ⟨_, units, hvalue, hunits⟩
      | _ => cases hn

theorem ofFloatChecked_finite {v : FloatValue} {y : Scalar k}
    (hv : ∀ negative units, v = .finite negative units → units ≤ Format.double.largest)
    (h : ofFloatChecked v k = .ok y) : y.isFinite := by
  cases v with
  | nan => cases h
  | infinite negative => cases h
  | finite negative units =>
      cases k with
      | float32 =>
          simp only [ofFloatChecked, ofFinite] at h
          split at h
          · cases h
          · rename_i hle
            obtain rfl := Except.ok.inj h
            exact isFinite_ofFloatValue32 negative (Nat.le_of_not_lt hle)
      | float64 =>
          obtain rfl := Except.ok.inj h
          exact isFinite_ofFloatValue64 negative (hv negative units rfl)
      | _ => rfl

theorem cast_finite {x : Scalar j} {y : Scalar k} (hx : x.isFinite)
    (h : cast true k x = .ok y) : y.isFinite := by
  unfold cast at h
  split at h
  · rename_i hjk
    subst hjk
    obtain rfl := Except.ok.inj h
    exact hx
  · cases hn : x.toInt? with
    | some n =>
        simp only [hn] at h
        cases hy : ofInt? k n with
        | none => simp [hy] at h
        | some z =>
            simp only [hy] at h
            obtain rfl := Except.ok.inj h
            exact isFinite_ofInt? (natAbs_le_of_toInt? hn) hy
    | none =>
        simp only [hn, if_true] at h
        obtain ⟨negative, units, hvalue, hunits⟩ := value_of_isFinite hx
        refine ofFloatChecked_finite (fun negative' units' heq => ?_) h
        rw [hvalue] at heq
        obtain ⟨-, rfl⟩ := FloatValue.finite.inj heq
        exact hunits

theorem checkFinite_finite {x y : Scalar k} (h : checkFinite true x = .ok y) : y.isFinite := by
  unfold checkFinite at h
  split at h
  · cases h
  · rename_i hfinite
    obtain rfl := Except.ok.inj h
    simpa using hfinite

theorem arithmetic_finite {op : Arithmetic} {l r x : Scalar k}
    (h : arithmetic true op l r = .ok x) : x.isFinite := by
  cases k with
  | float32 | float64 =>
      rw [arithmetic] at h
      split at h
      · cases h
      · exact checkFinite_finite h
  | _ => rfl

theorem unary_finite {op : UnaryOp} {x : Scalar k} {y : Scalar (op.resultKind k)}
    (h : unary true op x = .ok y) : y.isFinite := by
  cases op with
  | not => exact isFinite_of_not_isFloat rfl y
  | fact =>
      cases k with
      | float32 | float64 => cases h
      | _ => exact isFinite_of_not_isFloat rfl y
  | neg | abs | real f =>
      cases k with
      | float32 | float64 => exact checkFinite_finite h
      | _ => exact isFinite_of_not_isFloat rfl y

end Scalar

theorem Kernel.onScalars_finite {kernel : Kernel} {k : Kind} {xs : List (Scalar k)}
    {y : Scalar (kernel.resultKind k)} (h : kernel.onScalars true xs = .ok y) : y.isFinite := by
  cases kernel with
  | comparison op => exact Scalar.isFinite_of_not_isFloat rfl y
  | connective op => exact Scalar.isFinite_of_not_isFloat rfl y
  | arithmetic op =>
      rcases xs with _ | ⟨l, _ | ⟨r, _ | ⟨z, xs⟩⟩⟩
      · cases h
      · cases h
      · exact Scalar.arithmetic_finite h
      · cases h
  | unary op =>
      rcases xs with _ | ⟨x, _ | ⟨z, xs⟩⟩
      · cases h
      · exact Scalar.unary_finite h
      · cases h

end FormulaMachine
