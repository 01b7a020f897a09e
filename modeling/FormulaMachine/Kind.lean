import FormulaMachine.Number.Binary

namespace FormulaMachine

inductive Width where
  | w8
  | w16
  | w32
  | w64
  deriving DecidableEq, Repr

def Width.bits : Width → Nat
  | .w8 => 8
  | .w16 => 16
  | .w32 => 32
  | .w64 => 64

inductive Kind where
  | bool
  | uint (w : Width)
  | int (w : Width)
  | float32
  | float64
  deriving DecidableEq, Repr

namespace Kind

def all : List Kind :=
  [.bool, .uint .w8, .int .w8, .uint .w16, .int .w16, .uint .w32, .int .w32, .uint .w64,
    .int .w64, .float32, .float64]

theorem mem_all (k : Kind) : k ∈ all := by
  cases k with
  | uint w => cases w <;> decide
  | int w => cases w <;> decide
  | _ => decide

def width : Kind → Nat
  | .bool => 1
  | .uint w => w.bits
  | .int w => w.bits
  | .float32 => 32
  | .float64 => 64

def size : Kind → Nat
  | .bool => 1
  | .uint w => w.bits / 8
  | .int w => w.bits / 8
  | .float32 => 4
  | .float64 => 8

theorem size_pos (k : Kind) : 0 < k.size := by
  cases k with
  | uint w => cases w <;> decide
  | int w => cases w <;> decide
  | _ => decide

theorem size_le (k : Kind) : k.size ≤ 8 := by
  cases k with
  | uint w => cases w <;> decide
  | int w => cases w <;> decide
  | _ => decide

theorem width_le (k : Kind) : k.width ≤ 8 * k.size := by
  cases k with
  | uint w => cases w <;> decide
  | int w => cases w <;> decide
  | _ => decide

def isFloat : Kind → Bool
  | .float32 | .float64 => true
  | _ => false

def isInteger : Kind → Bool
  | .uint _ | .int _ => true
  | _ => false

def isNumeric (k : Kind) : Bool :=
  k != .bool

def isSigned : Kind → Bool
  | .int _ | .float32 | .float64 => true
  | _ => false

def format? : Kind → Option Format
  | .float32 => some .single
  | .float64 => some .double
  | _ => none

def name : Kind → String
  | .bool => "bool"
  | .uint .w8 => "uint8"
  | .int .w8 => "int8"
  | .uint .w16 => "uint16"
  | .int .w16 => "int16"
  | .uint .w32 => "uint32"
  | .int .w32 => "int32"
  | .uint .w64 => "uint64"
  | .int .w64 => "int64"
  | .float32 => "float32"
  | .float64 => "float64"

def aliases : List (String × Kind) :=
  [("boolean", .bool), ("char", .uint .w8), ("float", .float32), ("double", .float64)]

def ofName? (s : String) : Option Kind :=
  match all.find? (·.name == s) with
  | some k => some k
  | none => aliases.lookup s

theorem ofName?_name (k : Kind) : ofName? k.name = some k := by
  cases k with
  | uint w => cases w <;> decide
  | int w => cases w <;> decide
  | _ => decide

def precision : Kind → Nat
  | .bool => 1
  | .uint w => w.bits
  | .int w => w.bits - 1
  | .float32 => 24
  | .float64 => 53

def widensTo (k j : Kind) : Bool :=
  if k = j then true
  else match k, j with
    | .bool, _ => true
    | _, .bool => false
    | .float32, .float64 => true
    | .float32, _ | .float64, _ => false
    | k, .float32 | k, .float64 => k.precision ≤ j.precision
    | k, j => (j.isSigned || !k.isSigned) && k.precision ≤ j.precision

-- What a conversion costs that can lose digits, more than any that cannot
def lossyPenalty : Nat := 100

def wideningCost? (k j : Kind) : Option Nat :=
  let cost := 2 * j.size + (if j.isFloat then 1 else 0)
  if k = j then some 0
  else if k.widensTo j then some cost
  else if (k = .uint .w64 ∨ k = .int .w64) ∧ j = .float64 then some (cost + lossyPenalty)
  else none

instance : ToString Kind := ⟨name⟩

end Kind

end FormulaMachine
