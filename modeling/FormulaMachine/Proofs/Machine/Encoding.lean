import FormulaMachine.Proofs.Machine.Memory

namespace FormulaMachine

theorem bytesValue_div_mod (bs : List Byte) (i : Nat) :
    bytesValue bs / 256 ^ i % 256 = (bs.getD i 0).toNat := by
  induction bs generalizing i with
  | nil => simp [bytesValue]
  | cons b bs ih =>
      have hb : b.toNat < 256 := b.isLt
      cases i with
      | zero =>
          rw [bytesValue, List.getD_cons_zero]
          omega
      | succ i =>
          rw [bytesValue, List.getD_cons_succ, Nat.pow_succ', ← Nat.div_div_eq_div_mul,
            show (b.toNat + 256 * bytesValue bs) / 256 = bytesValue bs by omega, ih]

theorem toNat_getD_lowBytes {n count i : Nat} (hi : i < count) :
    ((lowBytes n count).getD i 0).toNat = n / 256 ^ i % 256 := by
  induction count generalizing n i with
  | zero => omega
  | succ count ih =>
      cases i with
      | zero => simp [lowBytes]
      | succ i =>
          rw [lowBytes, List.getD_cons_succ, ih (by omega), Nat.pow_succ', Nat.div_div_eq_div_mul]

theorem getD_readBytes (area : Array Byte) (offset count i : Nat) :
    (readBytes area offset count).getD i 0 =
      if i < count then area.getD (offset + i) 0 else 0 := by
  induction count generalizing offset i with
  | zero => simp [readBytes]
  | succ count ih =>
      cases i with
      | zero => simp [readBytes]
      | succ i =>
          rw [readBytes, List.getD_cons_succ, ih, show offset + 1 + i = offset + (i + 1) by omega]
          simp

theorem Kind.width_of_ne_bool {k : Kind} (hk : k ≠ .bool) : k.width = 8 * k.size := by
  cases k with
  | bool => exact absurd rfl hk
  | uint w => cases w <;> rfl
  | int w => cases w <;> rfl
  | _ => rfl

def Kind.Alike : Kind → Word → Word → Prop
  | .bool, w, w' => w = 0 ↔ w' = 0
  | k, w, w' => ∀ i < k.width, w.getLsbD i = w'.getLsbD i

namespace Word

def byte (w : Word) (i : Nat) : Byte :=
  w.extractLsb' (8 * i) 8

theorem toNat_byte (w : Word) (i : Nat) : (w.byte i).toNat = w.toNat / 256 ^ i % 256 := by
  rw [byte, BitVec.extractLsb'_toNat, Nat.shiftRight_eq_div_pow, Nat.pow_mul]

def LittleEndian (w : Word) (area : Array Byte) (offset count : Nat) : Prop :=
  ∀ i < 8, w.byte i = if i < count then area.getD (offset + i) 0 else 0

theorem byte_ofBytes (bs : List Byte) {i : Nat} (hi : i < 8) :
    (ofBytes bs).byte i = bs.getD i 0 := by
  have hword : 2 ^ 64 = 256 ^ i * (256 * 256 ^ (7 - i)) := by
    rw [← Nat.pow_succ', ← Nat.pow_add, show i + (7 - i).succ = 8 by omega]
    rfl
  apply BitVec.eq_of_toNat_eq
  rw [toNat_byte, ← bytesValue_div_mod, ofBytes, BitVec.toNat_ofNat, hword,
    Nat.mod_mul_right_div_self, Nat.mod_mod_of_dvd _ ⟨_, rfl⟩]

theorem littleEndian_readBytes (area : Array Byte) (offset count : Nat) :
    (ofBytes (readBytes area offset count)).LittleEndian area offset count := by
  intro i hi
  rw [byte_ofBytes _ hi, getD_readBytes]

end Word

namespace Scalar

variable {k : Kind}

theorem getLsbD_toWord (x : Scalar k) {i : Nat} (hi : i < k.width) :
    x.toWord.getLsbD i = x.bits.getLsbD i := by
  rw [← setWidth_toWord x, BitVec.getLsbD_setWidth]
  simp [hi]

theorem byte_toWord (x : Scalar k) {i : Nat} (hi : i < k.size) :
    x.toWord.byte i = x.bits.extractLsb' (8 * i) 8 := by
  apply BitVec.eq_of_getLsbD_eq
  intro j hj
  rw [Word.byte, BitVec.getLsbD_extractLsb', BitVec.getLsbD_extractLsb']
  by_cases hk : k = .bool
  · subst hk
    have hword : 8 * i + j < 64 := by
      have hsize := Kind.size_le .bool
      omega
    simp [toWord, hword]
  · have hwidth := Kind.width_of_ne_bool hk
    rw [getLsbD_toWord x (by omega)]

theorem getD_bytes (x : Scalar k) {i : Nat} (hi : i < k.size) :
    x.bytes.getD i 0 = x.bits.extractLsb' (8 * i) 8 := by
  rw [← byte_toWord x hi]
  apply BitVec.eq_of_toNat_eq
  rw [bytes, toNat_getD_lowBytes hi, Word.toNat_byte]

theorem ofWord_bool_eq_iff (w w' : Word) :
    ofWord .bool w = ofWord .bool w' ↔ (w = 0 ↔ w' = 0) := by
  have hbool : ∀ a b : Bool, ofBool a = ofBool b ↔ a = b := by decide
  rw [ofWord_bool, ofWord_bool, hbool, decide_eq_decide, not_iff_not, ← BitVec.toNat_inj,
    ← BitVec.toNat_inj]
  rfl

theorem ofWord_eq_iff (hk : k ≠ .bool) (w w' : Word) :
    ofWord k w = ofWord k w' ↔ ∀ i < k.width, w.getLsbD i = w'.getLsbD i := by
  rw [ofWord_eq_setWidth hk, ofWord_eq_setWidth hk, Scalar.mk.injEq]
  constructor
  · intro h i hi
    have hbit := congrArg (BitVec.getLsbD · i) h
    simpa [BitVec.getLsbD_setWidth, hi] using hbit
  · intro h
    apply BitVec.eq_of_getLsbD_eq
    intro i hi
    simp [BitVec.getLsbD_setWidth, h i hi]

theorem ofWord_eq_iff_alike (k : Kind) (w w' : Word) :
    ofWord k w = ofWord k w' ↔ k.Alike w w' := by
  cases k with
  | bool => exact ofWord_bool_eq_iff w w'
  | _ => exact ofWord_eq_iff (by simp) w w'

end Scalar

namespace Store

structure Takes {k : Kind} (s : Store) (offset : Nat) (x : Scalar k) (t : Store) : Prop where
  rest : t.shared = s.shared ∧ t.owned.matrices = s.owned.matrices
  size : t.owned.scalars.size = s.owned.scalars.size
  outside : ∀ o, o < offset ∨ offset + k.size ≤ o →
    t.owned.scalars.getD o 0 = s.owned.scalars.getD o 0
  inside : ∀ i < k.size, t.owned.scalars.getD (offset + i) 0 = x.bits.extractLsb' (8 * i) 8

theorem takes_writeScalar {k : Kind} {s : Store} {offset : Nat}
    (h : offset + k.size ≤ s.owned.scalars.size) (x : Scalar k) :
    s.Takes offset x (s.writeScalar offset x) where
  rest := ⟨rfl, rfl⟩
  size := size_writeBytes _ _ _
  outside := fun o ho => getD_writeBytes_of_outside _ _ _ (by rwa [x.length_bytes])
  inside := fun i hi => by
    rw [writeScalar, getD_writeBytes_of_inside (Nat.le_add_right _ _)
      (by rw [x.length_bytes]; omega) (by omega), Nat.add_sub_cancel_left, x.getD_bytes hi]

end Store

theorem Scalar.encodings_faithful :
    (∀ (k : Kind) (x : Scalar k), ofWord k x.toWord = x) ∧
    (∀ (k : Kind) (s : Store) (offset : Nat) (x : Scalar k),
      offset + k.size ≤ s.owned.scalars.size →
        s.Takes offset x (s.writeScalar offset x) ∧
        (s.writeScalar offset x).readScalar offset k = x) ∧
    (∀ (k : Kind) (s : Store) (offset : Nat), ∃ w : Word,
      w.LittleEndian s.owned.scalars offset k.size ∧ s.readScalar offset k = ofWord k w) ∧
    (∀ (k : Kind) (w : Word), (ofWord k (ofWord k w).toWord).toWord = (ofWord k w).toWord) ∧
    ∀ (k : Kind) (w w' : Word), ofWord k w = ofWord k w' ↔ k.Alike w w' := by
  refine ⟨fun k x => x.ofWord_toWord, ?_, ?_, fun k w => by rw [ofWord_toWord],
    ofWord_eq_iff_alike⟩
  · intro k s offset x h
    exact ⟨Store.takes_writeScalar h x, Store.readScalar_writeScalar_self h x⟩
  · intro k s offset
    exact ⟨_, Word.littleEndian_readBytes _ _ _, rfl⟩

theorem Scalar.stored_amid_others :
    let s : Store := ⟨⟨#[9, 9, 9, 9], #[]⟩, #[]⟩
    let x : Scalar (.int .w16) := ⟨BitVec.ofInt 16 (-2)⟩
    (s.Takes 1 x (s.writeScalar 1 x) ∧ (s.writeScalar 1 x).readScalar 1 (.int .w16) = x) ∧
      (s.writeScalar 1 x).owned.scalars = #[9, 0xfe, 0xff, 9] ∧
      x.toWord = 0xfffffffffffffffe :=
  ⟨encodings_faithful.2.1 _ _ _ _ (by decide), by decide, by decide⟩

end FormulaMachine
