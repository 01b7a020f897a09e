import FormulaMachine.Scalar.Basic
import Mathlib.Algebra.Group.Nat.Defs

namespace FormulaMachine

theorem bytesValue_lowBytes (n count : Nat) : bytesValue (lowBytes n count) = n % 256 ^ count := by
  induction count generalizing n with
  | zero => simp [lowBytes, bytesValue, Nat.mod_one]
  | succ count ih =>
      simp only [lowBytes, bytesValue, BitVec.toNat_ofNatLT, ih]
      rw [Nat.pow_succ', Nat.mod_mul]

theorem Kind.width_le_word (k : Kind) : k.width ≤ 64 := by
  have hwidth := k.width_le
  have hsize := k.size_le
  omega

namespace Scalar

variable {k : Kind}

theorem ofWord_eq_setWidth (hk : k ≠ .bool) (w : Word) : ofWord k w = ⟨w.setWidth k.width⟩ := by
  cases k with
  | bool => exact absurd rfl hk
  | _ => rfl

theorem ofWord_ofNat (hk : k.isInteger) (n : Nat) : ofWord k (BitVec.ofNat 64 n) = wrap k n := by
  have hbool : k ≠ .bool := by
    rintro rfl
    cases hk
  rw [ofWord_eq_setWidth hbool, BitVec.setWidth_ofNat_of_le k.width_le_word, wrap,
    BitVec.ofInt_natCast]

theorem setWidth_toWord (x : Scalar k) : x.toWord.setWidth k.width = x.bits := by
  have hk := k.width_le_word
  have hbits : (x.bits.setWidth 64).setWidth k.width = x.bits := by
    rw [BitVec.setWidth_setWidth_of_le _ hk, BitVec.setWidth_eq]
  cases k with
  | int w =>
      apply BitVec.eq_of_getLsbD_eq
      intro i hi
      have hword : i < 64 := by omega
      rw [BitVec.getLsbD_setWidth, toWord, BitVec.getLsbD_signExtend]
      simp [hi, hword]
  | _ => exact hbits

theorem toNat_toWord_bool (x : Scalar .bool) : x.toWord.toNat = x.bits.toNat := by
  have hx : x.bits.toNat < 2 := x.bits.isLt
  simp only [toWord, BitVec.toNat_setWidth]
  omega

theorem ofWord_bool (w : Word) : ofWord .bool w = ofBool (decide (w.toNat ≠ 0)) := by
  have hw : (w != 0) = decide (w.toNat ≠ 0) := by
    rw [Bool.eq_iff_iff]
    simp [← BitVec.toNat_inj]
  rw [ofWord, hw, ofBool]

theorem ofBool_bits (x : Scalar .bool) : ofBool (decide (x.bits.toNat ≠ 0)) = x := by
  obtain ⟨bits⟩ := x
  have hx : bits.toNat < 2 := bits.isLt
  rcases Nat.lt_or_ge bits.toNat 1 with hzero | hone
  · obtain rfl : bits = (0 : BitVec 1) := BitVec.eq_of_toNat_eq (Nat.lt_one_iff.mp hzero)
    rfl
  · obtain rfl : bits = (1 : BitVec 1) := BitVec.eq_of_toNat_eq (by
      change bits.toNat = 1
      omega)
    rfl

@[simp] theorem ofWord_toWord (x : Scalar k) : ofWord k x.toWord = x := by
  by_cases hk : k = .bool
  · subst hk
    rw [ofWord_bool, toNat_toWord_bool, ofBool_bits]
  · rw [ofWord_eq_setWidth hk, setWidth_toWord]

theorem ofWord_mod_bytes (x : Scalar k) :
    ofWord k (BitVec.ofNat 64 (x.toWord.toNat % 256 ^ k.size)) = x := by
  by_cases hk : k = .bool
  · subst hk
    have hx : x.bits.toNat < 2 := x.bits.isLt
    have hmod : x.bits.toNat % 256 ^ Kind.bool.size % 2 ^ 64 = x.bits.toNat := by
      simp only [Kind.size]
      omega
    rw [ofWord_bool, toNat_toWord_bool, BitVec.toNat_ofNat, hmod, ofBool_bits]
  · rw [ofWord_eq_setWidth hk]
    have hsize : 2 ^ k.width ∣ 256 ^ k.size := by
      rw [show (256 : Nat) = 2 ^ 8 from rfl, ← Nat.pow_mul]
      exact Nat.pow_dvd_pow 2 k.width_le
    have hword : 2 ^ k.width ∣ 2 ^ 64 := Nat.pow_dvd_pow 2 k.width_le_word
    have hbits : (BitVec.ofNat 64 (x.toWord.toNat % 256 ^ k.size)).setWidth k.width =
        x.toWord.setWidth k.width := by
      apply BitVec.eq_of_toNat_eq
      rw [BitVec.toNat_setWidth, BitVec.toNat_setWidth, BitVec.toNat_ofNat,
        Nat.mod_mod_of_dvd _ hword, Nat.mod_mod_of_dvd _ hsize]
    rw [hbits, setWidth_toWord]

@[simp] theorem ofBytes_bytes (x : Scalar k) : ofBytes k x.bytes = x := by
  rw [ofBytes, Word.ofBytes, bytes, bytesValue_lowBytes, ofWord_mod_bytes]

end Scalar

end FormulaMachine
