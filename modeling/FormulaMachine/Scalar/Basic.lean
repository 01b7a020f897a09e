import FormulaMachine.Kind

namespace FormulaMachine

abbrev Word := BitVec 64

abbrev Byte := BitVec 8

structure Scalar (k : Kind) where
  bits : BitVec k.width
  deriving DecidableEq, Repr

def bytesValue : List Byte → Nat
  | [] => 0
  | b :: bs => b.toNat + 256 * bytesValue bs

def Word.ofBytes (bs : List Byte) : Word :=
  BitVec.ofNat 64 (bytesValue bs)

def lowBytes (n : Nat) : (count : Nat) → List Byte
  | 0 => []
  | count + 1 => BitVec.ofNatLT (n % 256) (Nat.mod_lt n (by decide)) :: lowBytes (n / 256) count

theorem length_lowBytes (n count : Nat) : (lowBytes n count).length = count := by
  induction count generalizing n with
  | zero => rfl
  | succ count ih => simp [lowBytes, ih]

namespace Scalar

variable {k : Kind}

def toWord : {k : Kind} → Scalar k → Word
  | .int _, x => x.bits.signExtend 64
  | .bool, x | .uint _, x | .float32, x | .float64, x => x.bits.setWidth 64

def ofWord : (k : Kind) → Word → Scalar k
  | .bool, w => ⟨BitVec.ofBool (w != 0)⟩
  | .uint _, w | .int _, w | .float32, w | .float64, w => ⟨w.setWidth _⟩

def zero (k : Kind) : Scalar k := ofWord k 0

def bytes (x : Scalar k) : List Byte :=
  lowBytes x.toWord.toNat k.size

theorem length_bytes (x : Scalar k) : x.bytes.length = k.size :=
  length_lowBytes _ _

def ofBytes (k : Kind) (bs : List Byte) : Scalar k :=
  ofWord k (Word.ofBytes bs)

def toInt? : {k : Kind} → Scalar k → Option Int
  | .bool, x | .uint _, x => some x.bits.toNat
  | .int _, x => some x.bits.toInt
  | .float32, _ | .float64, _ => none

def value : {k : Kind} → Scalar k → FloatValue
  | .bool, x | .uint _, x => .ofInt x.bits.toNat
  | .int _, x => .ofInt x.bits.toInt
  | .float32, x => Format.single.decode x.bits.toNat
  | .float64, x => Format.double.decode x.bits.toNat

def ofFloatValue32 (v : FloatValue) : Scalar .float32 :=
  ⟨BitVec.ofNat _ (Format.single.encode v)⟩

def ofFloatValue64 (v : FloatValue) : Scalar .float64 :=
  ⟨BitVec.ofNat _ (Format.double.encode v)⟩

def toFloat64 : {k : Kind} → Scalar k → Scalar .float64
  | .float64, x => x
  | .bool, x | .uint _, x | .int _, x | .float32, x => ofFloatValue64 x.value

def isNaN : {k : Kind} → Scalar k → Bool
  | .float32, x => Format.single.isNaN x.bits.toNat
  | .float64, x => Format.double.isNaN x.bits.toNat
  | .bool, _ | .uint _, _ | .int _, _ => false

def isFinite : {k : Kind} → Scalar k → Bool
  | .float32, x => Format.single.isFinite x.bits.toNat
  | .float64, x => Format.double.isFinite x.bits.toNat
  | .bool, _ | .uint _, _ | .int _, _ => true

def isTrue : {k : Kind} → Scalar k → Bool
  | .float32, x => Format.single.magnitude x.bits.toNat != 0
  | .float64, x => Format.double.magnitude x.bits.toNat != 0
  | .bool, x | .uint _, x | .int _, x => x.bits != 0

def ofBool (b : Bool) : Scalar .bool := ⟨BitVec.ofBool b⟩

def lowest (k : Kind) : Int :=
  if k.isSigned then -((1 <<< (k.width - 1) : Nat) : Int) else 0

def highest (k : Kind) : Int :=
  if k.isSigned then ((1 <<< (k.width - 1) : Nat) : Int) - 1 else ((1 <<< k.width : Nat) : Int) - 1

def inRange (k : Kind) (n : Int) : Bool :=
  lowest k ≤ n && n ≤ highest k

def wrap (k : Kind) (n : Int) : Scalar k := ⟨BitVec.ofInt k.width n⟩

def ofInt? : (k : Kind) → Int → Option (Scalar k)
  | .bool, n => some (ofBool (n != 0))
  | .uint w, n => if inRange (.uint w) n then some (wrap _ n) else none
  | .int w, n => if inRange (.int w) n then some (wrap _ n) else none
  | .float32, n => some (ofFloatValue32 (.ofInt n))
  | .float64, n => some (ofFloatValue64 (.ofInt n))

end Scalar

end FormulaMachine
