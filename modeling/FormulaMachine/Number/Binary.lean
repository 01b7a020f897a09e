namespace FormulaMachine

structure Format where
  fraction : Nat
  exponent : Nat
  deriving DecidableEq, Repr

inductive FloatValue where
  | nan
  | infinite (negative : Bool)
  | finite (negative : Bool) (units : Nat)
  deriving DecidableEq, Repr

namespace Format

def single : Format := ⟨23, 8⟩

def double : Format := ⟨52, 11⟩

def signPlace (f : Format) : Nat :=
  f.exponent + f.fraction

def infinity (f : Format) : Nat :=
  ((1 <<< f.exponent) - 1) <<< f.fraction

def quietNaN (f : Format) : Nat :=
  f.infinity + (1 <<< (f.fraction - 1))

-- The smallest positive number of the format is two to the power of minus this
def scale (f : Format) : Nat :=
  (1 <<< (f.exponent - 1)) + f.fraction - 2

def negative (f : Format) (pattern : Nat) : Bool :=
  pattern.testBit f.signPlace

def magnitude (f : Format) (pattern : Nat) : Nat :=
  pattern % (1 <<< f.signPlace)

def signed (f : Format) (negative : Bool) (magnitude : Nat) : Nat :=
  if negative then (1 <<< f.signPlace) + magnitude else magnitude

def isNaN (f : Format) (pattern : Nat) : Bool :=
  f.infinity < f.magnitude pattern

def isFinite (f : Format) (pattern : Nat) : Bool :=
  f.magnitude pattern < f.infinity

def quanta (f : Format) (magnitude : Nat) : Nat :=
  let exponent := magnitude >>> f.fraction
  if exponent = 0 then magnitude
  else (magnitude % (1 <<< f.fraction) + (1 <<< f.fraction)) <<< (exponent - 1)

def nearest (n d : Nat) : Nat :=
  let q := n / d
  let r := 2 * (n % d)
  if r < d then q else if d < r then q + 1 else q + q % 2

-- The magnitude nearest to `n / d`. Adding a whole significand to the shifted exponent carries into
-- the next exponent where it has to, and a number beyond the largest finite one is infinite.
def round (f : Format) (n d : Nat) : Nat :=
  let a := n <<< f.scale
  let e := Nat.log2 (a / d) - f.fraction
  min f.infinity ((e <<< f.fraction) + nearest a (d <<< e))

def unitsPerQuantum (f : Format) : Nat :=
  1 <<< (double.scale - f.scale)

def decode (f : Format) (pattern : Nat) : FloatValue :=
  let m := f.magnitude pattern
  if f.infinity < m then .nan
  else if m = f.infinity then .infinite (f.negative pattern)
  else .finite (f.negative pattern) (f.quanta m * f.unitsPerQuantum)

def encode (f : Format) : FloatValue → Nat
  | .nan => f.quietNaN
  | .infinite s => f.signed s f.infinity
  | .finite s units => f.signed s (f.round units (1 <<< double.scale))

def rank (f : Format) (pattern : Nat) : Int :=
  if f.negative pattern then -(f.magnitude pattern : Int) else f.magnitude pattern

def compare? (f : Format) (p q : Nat) : Option Ordering :=
  if f.isNaN p || f.isNaN q then none else some (compare (f.rank p) (f.rank q))

def largest (f : Format) : Nat :=
  f.quanta (f.infinity - 1) * f.unitsPerQuantum

end Format

namespace FloatValue

def truncate? : FloatValue → Option Int
  | .finite true units => some (-((units >>> Format.double.scale : Nat) : Int))
  | .finite false units => some ((units >>> Format.double.scale : Nat) : Int)
  | _ => none

def isWhole : FloatValue → Bool
  | .finite _ units => units % (1 <<< Format.double.scale) == 0
  | _ => false

def isZero : FloatValue → Bool
  | .finite _ units => units == 0
  | _ => false

def ofInt (n : Int) : FloatValue :=
  .finite (n < 0) (n.natAbs <<< Format.double.scale)

end FloatValue

end FormulaMachine
