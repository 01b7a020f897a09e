import FormulaMachine.Number.Binary
import FormulaMachine.Text.Decimal

namespace FormulaMachine

inductive Numeral where
  | nan
  | infinite (negative : Bool)
  -- `coefficient * 10 ^ exponent`, the coefficient written with `places` digits after its leading
  -- zeros
  | decimal (negative : Bool) (coefficient places : Nat) (exponent : Int)
  deriving DecidableEq, Repr

namespace Numeral

def exponentBound : Nat := 65536

-- One more digit of an exponent, which does not count once the exponent has reached its bound
def addExponentDigit (e : Nat) (c : Char) : Nat :=
  if e < exponentBound then 10 * e + (c.toNat - '0'.toNat) else e

def exponentSize? (cs : List Char) : Option Nat :=
  if cs ≠ [] ∧ cs.all Char.isDigit then some (cs.foldl addExponentDigit 0) else none

def signedExponent? : List Char → Option Int
  | '-' :: cs => (exponentSize? cs).map fun n => -(n : Int)
  | '+' :: cs => (exponentSize? cs).map fun n => (n : Int)
  | cs => (exponentSize? cs).map fun n => (n : Int)

def exponent? : List Char → Option Int
  | [] => some 0
  | c :: cs => if c = 'e' ∨ c = 'E' then signedExponent? cs else none

def decimal? (negative : Bool) (cs : List Char) : Option Numeral :=
  let whole := cs.takeWhile Char.isDigit
  let rest := cs.dropWhile Char.isDigit
  let (fraction, rest) := match rest with
    | '.' :: r => (r.takeWhile Char.isDigit, r.dropWhile Char.isDigit)
    | _ => ([], rest)
  let digits := whole ++ fraction
  if digits = [] then none
  else (exponent? rest).map fun e =>
    .decimal negative (Text.digitsValue digits) (digits.dropWhile (· == '0')).length
      (e - fraction.length)

def unsigned? (negative : Bool) (cs : List Char) : Option Numeral :=
  let lower := cs.map Char.toLower
  if lower = "inf".toList ∨ lower = "infinity".toList then some (.infinite negative)
  else if lower = "nan".toList then some .nan
  else decimal? negative cs

def read? : List Char → Option Numeral
  | '-' :: cs => unsigned? true cs
  | '+' :: cs => unsigned? false cs
  | cs => unsigned? false cs

end Numeral

namespace Format

-- The magnitude nearest to `coefficient * 10 ^ exponent`. A number with more places before its
-- point than any finite number has is infinite, and one with its first digit too far behind the
-- point is zero, so no power of ten is larger than the format needs.
def roundDecimal (f : Format) (coefficient places : Nat) (exponent : Int) : Nat :=
  let top := exponent + places
  if coefficient = 0 ∨ top < -(f.scale + 1 : Int) then 0
  else if ((1 <<< (f.exponent - 1) : Nat) : Int) < top then f.infinity
  else if exponent < 0 then f.round coefficient (Nat.pow 10 exponent.natAbs)
  else f.round (coefficient * Nat.pow 10 exponent.natAbs) 1

def ofNumeral (f : Format) : Numeral → Nat
  | .nan => f.quietNaN
  | .infinite s => f.signed s f.infinity
  | .decimal s coefficient places exponent =>
      f.signed s (f.roundDecimal coefficient places exponent)

def read? (f : Format) (cs : List Char) : Option Nat :=
  (Numeral.read? cs).map f.ofNumeral

end Format

end FormulaMachine
