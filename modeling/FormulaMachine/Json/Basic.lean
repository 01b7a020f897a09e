import FormulaMachine.Text.Decimal

namespace FormulaMachine

inductive Json where
  | null
  | bool (b : Bool)
  | natural (n : Nat)
  | number
  | string (s : String)
  | brokenString
  | array (items : List Json)
  | object (fields : List (Json × Json))
  deriving Repr

namespace Json

def isSpace (c : Char) : Bool :=
  c == ' ' || c == '\t' || c == '\n' || c == '\r'

def skipSpace (cs : List Char) : List Char :=
  cs.dropWhile isSpace

def hexValue? (c : Char) : Option Nat :=
  if c.isDigit then some (c.toNat - '0'.toNat)
  else if 'a' ≤ c ∧ c ≤ 'f' then some (c.toNat - 'a'.toNat + 10)
  else if 'A' ≤ c ∧ c ≤ 'F' then some (c.toNat - 'A'.toNat + 10)
  else none

def hex4? (a b c d : Char) : Option Nat := do
  let a ← hexValue? a
  let b ← hexValue? b
  let c ← hexValue? c
  let d ← hexValue? d
  return ((a * 16 + b) * 16 + c) * 16 + d

inductive Unit16 where
  | char (c : Char)
  | code (n : Nat)

def escape? (c : Char) : Option Char :=
  match c with
  | '"' => some '"'
  | '\\' => some '\\'
  | '/' => some '/'
  | 'b' => some '\x08'
  | 'f' => some '\x0c'
  | 'n' => some '\n'
  | 'r' => some '\r'
  | 't' => some '\t'
  | _ => none

def stringUnits? (seen : List Unit16) : List Char → Option (List Unit16 × List Char)
  | [] => none
  | '"' :: cs => some (seen.reverse, cs)
  | '\\' :: 'u' :: a :: b :: c :: d :: cs =>
      match hex4? a b c d with
      | some n => stringUnits? (.code n :: seen) cs
      | none => none
  | '\\' :: e :: cs =>
      match escape? e with
      | some c => stringUnits? (.char c :: seen) cs
      | none => none
  | c :: cs => if c.toNat < 0x20 then none else stringUnits? (.char c :: seen) cs

def unitsText? : List Unit16 → Option (List Char)
  | [] => some []
  | .char c :: us => (unitsText? us).map (c :: ·)
  | .code n :: .code m :: us =>
      if 0xd800 ≤ n ∧ n < 0xdc00 then
        if 0xdc00 ≤ m ∧ m < 0xe000 then
          (unitsText? us).map (Char.ofNat (0x10000 + (n - 0xd800) * 0x400 + (m - 0xdc00)) :: ·)
        else none
      else if 0xdc00 ≤ n ∧ n < 0xe000 then none
      else (unitsText? (.code m :: us)).map (Char.ofNat n :: ·)
  | .code n :: us =>
      if 0xd800 ≤ n ∧ n < 0xe000 then none else (unitsText? us).map (Char.ofNat n :: ·)

def string? (cs : List Char) : Option (Json × List Char) :=
  match stringUnits? [] cs with
  | none => none
  | some (us, rest) =>
      match unitsText? us with
      | some text => some (.string (String.ofList text), rest)
      | none => some (.brokenString, rest)

def digits? (cs : List Char) : Option (List Char × List Char) :=
  match cs.takeWhile Char.isDigit with
  | [] => none
  | ds => some (ds, cs.dropWhile Char.isDigit)

def whole? : List Char → Option (List Char × List Char)
  | '0' :: cs => if (cs.takeWhile Char.isDigit).isEmpty then some (['0'], cs) else none
  | cs => digits? cs

def fraction? : List Char → Option (Bool × List Char)
  | '.' :: cs => (digits? cs).map fun r => (true, r.2)
  | cs => some (false, cs)

def exponent? : List Char → Option (Bool × List Char)
  | c :: cs =>
      if c = 'e' ∨ c = 'E' then
        match cs with
        | '+' :: cs => (digits? cs).map fun r => (true, r.2)
        | '-' :: cs => (digits? cs).map fun r => (true, r.2)
        | cs => (digits? cs).map fun r => (true, r.2)
      else some (false, c :: cs)
  | [] => some (false, [])

def unsigned? (cs : List Char) : Option (Json × List Char) := do
  let (ds, cs) ← whole? cs
  let (fraction, cs) ← fraction? cs
  let (exponent, cs) ← exponent? cs
  return (if fraction || exponent then .number else .natural (Text.digitsValue ds), cs)

def number? : List Char → Option (Json × List Char)
  | '-' :: cs => (unsigned? cs).map fun r => (.number, r.2)
  | cs => unsigned? cs

def literal? (word : String) (j : Json) (cs : List Char) : Option (Json × List Char) :=
  if word.toList.isPrefixOf cs then some (j, cs.drop word.length) else none

mutual

-- The document that a text begins with, and what follows it. Each step takes a character, so as
-- much fuel as there are characters is enough.
def value? (fuel : Nat) (cs : List Char) : Option (Json × List Char) :=
  match fuel with
  | 0 => none
  | fuel + 1 =>
      match skipSpace cs with
      | '"' :: cs => string? cs
      | '[' :: cs =>
          match skipSpace cs with
          | ']' :: cs => some (.array [], cs)
          | cs => (items? fuel [] cs).map fun r => (.array r.1, r.2)
      | '{' :: cs =>
          match skipSpace cs with
          | '}' :: cs => some (.object [], cs)
          | cs => (fields? fuel [] cs).map fun r => (.object r.1, r.2)
      | 'n' :: cs => literal? "ull" .null cs
      | 't' :: cs => literal? "rue" (.bool true) cs
      | 'f' :: cs => literal? "alse" (.bool false) cs
      | cs => number? cs

def items? (fuel : Nat) (seen : List Json) (cs : List Char) : Option (List Json × List Char) :=
  match fuel with
  | 0 => none
  | fuel + 1 =>
      match value? fuel cs with
      | none => none
      | some (j, cs) =>
          match skipSpace cs with
          | ',' :: cs => items? fuel (j :: seen) cs
          | ']' :: cs => some ((j :: seen).reverse, cs)
          | _ => none

def fields? (fuel : Nat) (seen : List (Json × Json)) (cs : List Char) :
    Option (List (Json × Json) × List Char) :=
  match fuel with
  | 0 => none
  | fuel + 1 =>
      match skipSpace cs with
      | '"' :: cs =>
          match string? cs with
          | none => none
          | some (key, cs) =>
              match skipSpace cs with
              | ':' :: cs =>
                  match value? fuel cs with
                  | none => none
                  | some (j, cs) =>
                      match skipSpace cs with
                      | ',' :: cs => fields? fuel ((key, j) :: seen) cs
                      | '}' :: cs => some (((key, j) :: seen).reverse, cs)
                      | _ => none
              | _ => none
      | _ => none

end

def read? (text : String) : Option Json :=
  let cs := text.toList
  match value? (2 * cs.length + 2) cs with
  | some (j, rest) => if (skipSpace rest).isEmpty then some j else none
  | none => none

class Reader where
  document? : String → Option Json

instance reader : Reader where
  document? := read?

end Json

end FormulaMachine
