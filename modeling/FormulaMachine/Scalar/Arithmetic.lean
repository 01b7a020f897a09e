import FormulaMachine.Scalar.Basic

namespace FormulaMachine

inductive Fault where
  | stackOverflow
  | stackUnderflow
  | integerOverflow
  | divideByZero
  | notFinite
  | outOfRange
  | badOperand
  deriving DecidableEq, Repr

inductive Arithmetic where
  | sum
  | sub
  | mul
  | div
  | pow
  | min
  | max
  deriving DecidableEq, Repr

inductive Comparison where
  | eq
  | neq
  | gt
  | lt
  | gte
  | lte
  deriving DecidableEq, Repr

inductive Connective where
  | and
  | or
  | xor
  deriving DecidableEq, Repr

inductive RealFunction where
  | sin
  | cos
  | tan
  | asin
  | acos
  | atan
  | exp
  | log
  | log10
  | sqrt
  deriving DecidableEq, Repr

inductive UnaryOp where
  | neg
  | not
  | abs
  | fact
  | real (f : RealFunction)
  deriving DecidableEq, Repr

def Comparison.holds : Comparison → Option Ordering → Bool
  | .eq, o => o == some .eq
  | .neq, o => o != some .eq
  | .gt, o => o == some .gt
  | .lt, o => o == some .lt
  | .gte, o => o == some .gt || o == some .eq
  | .lte, o => o == some .lt || o == some .eq

def Connective.apply : Connective → Bool → Bool → Bool
  | .and, a, b => a && b
  | .or, a, b => a || b
  | .xor, a, b => a ^^ b

def RealFunction.apply : RealFunction → Float → Float
  | .sin => Float.sin
  | .cos => Float.cos
  | .tan => Float.tan
  | .asin => Float.asin
  | .acos => Float.acos
  | .atan => Float.atan
  | .exp => Float.exp
  | .log => Float.log
  | .log10 => Float.log10
  | .sqrt => Float.sqrt

namespace Scalar

variable {k : Kind}

def toFloat (x : Scalar .float64) : Float := Float.ofBits (.ofBitVec x.bits)

def ofFloat (x : Float) : Scalar .float64 := ⟨x.toBits.toBitVec⟩

def toSingle (x : Scalar .float32) : Float32 := Float32.ofBits (.ofBitVec x.bits)

def ofSingle (x : Float32) : Scalar .float32 := ⟨x.toBits.toBitVec⟩

def fit (k : Kind) (checked : Bool) (n : Int) : Except Fault (Scalar k) :=
  if inRange k n then .ok (wrap k n)
  else if checked then .error .integerOverflow
  else .ok (wrap k n)

-- A quotient is truncated toward zero; an exponent has thirty-two bits and no sign.
def integerArithmetic (k : Kind) (checked : Bool) (op : Arithmetic) (a b : Int) :
    Except Fault (Scalar k) :=
  match op with
  | .sum => fit k checked (a + b)
  | .sub => fit k checked (a - b)
  | .mul => fit k checked (a * b)
  | .div =>
      if b = 0 then if checked then .error .divideByZero else .ok (wrap k 0)
      else fit k checked (a.tdiv b)
  | .pow =>
      if 0 ≤ b ∧ b < 1 <<< 32 then fit k checked (Int.pow a b.toNat)
      else if checked then .error .outOfRange else .ok (wrap k 0)
  | .min => fit k checked (if b < a then b else a)
  | .max => fit k checked (if a < b then b else a)

def floatMin (a b : Float) : Float :=
  if a.isNaN then b else if b < a then b else a

def floatMax (a b : Float) : Float :=
  if a.isNaN then b else if a < b then b else a

def floatArithmetic : Arithmetic → Float → Float → Float
  | .sum, a, b => a + b
  | .sub, a, b => a - b
  | .mul, a, b => a * b
  | .div, a, b => a / b
  | .pow, a, b => a.pow b
  | .min, a, b => floatMin a b
  | .max, a, b => floatMax a b

def singleMin (a b : Float32) : Float32 :=
  if a.isNaN then b else if b < a then b else a

def singleMax (a b : Float32) : Float32 :=
  if a.isNaN then b else if a < b then b else a

def singleArithmetic : Arithmetic → Float32 → Float32 → Float32
  | .sum, a, b => a + b
  | .sub, a, b => a - b
  | .mul, a, b => a * b
  | .div, a, b => a / b
  | .pow, a, b => a.pow b
  | .min, a, b => singleMin a b
  | .max, a, b => singleMax a b

def checkFinite (checked : Bool) (x : Scalar k) : Except Fault (Scalar k) :=
  if checked && !x.isFinite then .error .notFinite else .ok x

def arithmetic (checked : Bool) (op : Arithmetic) :
    {k : Kind} → Scalar k → Scalar k → Except Fault (Scalar k)
  | .bool, _, _ => .error .badOperand
  | .uint w, l, r => integerArithmetic (.uint w) checked op l.bits.toNat r.bits.toNat
  | .int w, l, r => integerArithmetic (.int w) checked op l.bits.toInt r.bits.toInt
  | .float32, l, r =>
      if checked && op == .div && !r.isTrue then .error .divideByZero
      else checkFinite checked (ofSingle (singleArithmetic op l.toSingle r.toSingle))
  | .float64, l, r =>
      if checked && op == .div && !r.isTrue then .error .divideByZero
      else checkFinite checked (ofFloat (floatArithmetic op l.toFloat r.toFloat))

def compare? : {k : Kind} → Scalar k → Scalar k → Option Ordering
  | .bool, l, r | .uint _, l, r => some (compare l.bits.toNat r.bits.toNat)
  | .int _, l, r => some (compare l.bits.toInt r.bits.toInt)
  | .float32, l, r => Format.single.compare? l.bits.toNat r.bits.toNat
  | .float64, l, r => Format.double.compare? l.bits.toNat r.bits.toNat

def comparison (op : Comparison) (l r : Scalar k) : Scalar .bool :=
  ofBool (op.holds (compare? l r))

def connective (op : Connective) (l r : Scalar k) : Scalar .bool :=
  ofBool (op.apply l.isTrue r.isTrue)

def productFrom? (p i : Nat) : (count : Nat) → Option Nat
  | 0 => some p
  | count + 1 => if p * i < 1 <<< 127 then productFrom? (p * i) (i + 1) count else none

def wrappedProduct (p : Word) (i : Nat) : (count : Nat) → Word
  | 0 => p
  | count + 1 => wrappedProduct (p * BitVec.ofNat 64 i) (i + 1) count

-- The checked way multiplies the numbers up to `n` until a product is too large, so that it comes
-- to an end soon. The unchecked way multiplies no more than sixty-six of them: from there on a
-- factorial has 64 factors of two and wraps to zero.
def integerFactorial (k : Kind) (checked : Bool) (n : Int) : Except Fault (Scalar k) :=
  if n < 0 then if checked then .error .outOfRange else .ok (zero k)
  else if checked then
    match productFrom? 1 2 (n.toNat - 1) with
    | none => .error .integerOverflow
    | some product => fit k true product
  else .ok (ofWord k (wrappedProduct 1 2 (Nat.min n.toNat 66 - 1)))

def floatNegate (f : Format) (pattern : Nat) : Nat :=
  f.signed (!f.negative pattern) (f.magnitude pattern)

def negate (checked : Bool) : {k : Kind} → Scalar k → Except Fault (Scalar k)
  | .bool, _ | .uint _, _ => .error .badOperand
  | .int w, x => fit (.int w) checked (-x.bits.toInt)
  | .float32, x =>
      checkFinite checked (k := .float32)
        ⟨BitVec.ofNat _ (floatNegate .single x.bits.toNat)⟩
  | .float64, x =>
      checkFinite checked (k := .float64)
        ⟨BitVec.ofNat _ (floatNegate .double x.bits.toNat)⟩

def absolute (checked : Bool) : {k : Kind} → Scalar k → Except Fault (Scalar k)
  | .bool, _ | .uint _, _ => .error .badOperand
  | .int w, x => fit (.int w) checked x.bits.toInt.natAbs
  | .float32, x =>
      checkFinite checked (k := .float32)
        ⟨BitVec.ofNat _ (Format.single.magnitude x.bits.toNat)⟩
  | .float64, x =>
      checkFinite checked (k := .float64)
        ⟨BitVec.ofNat _ (Format.double.magnitude x.bits.toNat)⟩

def realFunction (checked : Bool) (f : RealFunction) :
    {k : Kind} → Scalar k → Except Fault (Scalar k)
  | .bool, _ | .uint _, _ | .int _, _ => .error .badOperand
  | .float32, x =>
      checkFinite checked (ofFloatValue32 (ofFloat (f.apply x.toFloat64.toFloat)).value)
  | .float64, x => checkFinite checked (ofFloat (f.apply x.toFloat))

def fact (checked : Bool) : {k : Kind} → Scalar k → Except Fault (Scalar k)
  | .uint w, x => integerFactorial (.uint w) checked x.bits.toNat
  | .int w, x => integerFactorial (.int w) checked x.bits.toInt
  | .bool, _ | .float32, _ | .float64, _ => .error .badOperand

end Scalar

def UnaryOp.resultKind : UnaryOp → Kind → Kind
  | .not, _ => .bool
  | .neg, k | .abs, k | .fact, k | .real _, k => k

def Scalar.unary (checked : Bool) :
    (op : UnaryOp) → {k : Kind} → Scalar k → Except Fault (Scalar (op.resultKind k))
  | .not, _, x => .ok (ofBool (!x.isTrue))
  | .neg, _, x => negate checked x
  | .abs, _, x => absolute checked x
  | .fact, _, x => fact checked x
  | .real f, _, x => realFunction checked f x

end FormulaMachine
