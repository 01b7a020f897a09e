import FormulaMachine.Number.Binary

namespace FormulaMachine

namespace Shortest

-- The reals that round to a number, in halves of the quantum of its format
structure Interval where
  lower : Nat
  value : Nat
  upper : Nat
  closed : Bool
  deriving DecidableEq, Repr

def Interval.ofMagnitude (f : Format) (m : Nat) : Interval :=
  let here := f.quanta m
  ⟨f.quanta (m - 1) + here, 2 * here, here + f.quanta (m + 1), m % 2 == 0⟩

def Interval.holds (i : Interval) (n d : Nat) : Bool :=
  if i.closed then i.lower * d ≤ n && n ≤ i.upper * d else i.lower * d < n && n < i.upper * d

-- The point of the grid with step `step / d` half quanta that is to stand for the value, if a
-- neighbour of the value on the grid lies in the interval
def Interval.onGrid? (i : Interval) (step d : Nat) : Option Nat :=
  let below := i.value * d / step
  let above := below + 1
  let near := if 2 * (i.value * d % step) < step then below else above
  let far := if near = below then above else below
  if i.holds (near * step) d then some near
  else if i.holds (far * step) d then some far
  else none

structure Decimal where
  digits : Nat
  exponent : Int
  deriving DecidableEq, Repr

def search (f : Format) (i : Interval) : Nat → Int → Decimal
  | 0, exponent => ⟨0, exponent⟩
  | fuel + 1, exponent =>
      let point :=
        if exponent < 0 then i.onGrid? (1 <<< (f.scale + 1)) (Nat.pow 10 exponent.natAbs)
        else i.onGrid? (Nat.pow 10 exponent.natAbs <<< (f.scale + 1)) 1
      match point with
      | some digits => ⟨digits, exponent⟩
      | none => search f i fuel (exponent - 1)

-- A power of ten that `quanta` quanta do not reach, and at most two too high. A binary place is
-- about 0.30103 decimal places, and the error of that stays under one place in either format.
def topExponent (f : Format) (quanta : Nat) : Int :=
  ((Nat.log2 quanta : Int) + 1 - f.scale) * 30103 / 100000 + 2

-- Seventeen digits tell any two numbers of either format apart. One grid more is coarser than the
-- number itself, for a number just under a power of ten, and the first two may be in vain.
def ofMagnitude (f : Format) (m : Nat) : Decimal :=
  search f (.ofMagnitude f m) 20 (topExponent f (f.quanta m))

end Shortest

namespace Shortest.Decimal

def positional (d : Decimal) : List Char :=
  let digits := Nat.toDigits 10 d.digits
  if 0 ≤ d.exponent then digits ++ List.replicate d.exponent.natAbs '0'
  else
    let places := d.exponent.natAbs
    if digits.length ≤ places then
      '0' :: '.' :: (List.replicate (places - digits.length) '0' ++ digits)
    else digits.take (digits.length - places) ++ '.' :: digits.drop (digits.length - places)

end Shortest.Decimal

namespace Format

def text (f : Format) (pattern : Nat) : String :=
  let m := f.magnitude pattern
  if f.infinity < m then "NaN"
  else
    let body :=
      if m = f.infinity then "inf"
      else if m = 0 then "0"
      else String.ofList (Shortest.ofMagnitude f m).positional
    if f.negative pattern then "-" ++ body else body

end Format

end FormulaMachine
