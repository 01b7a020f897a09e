import FormulaMachine.Kind
import FormulaMachine.Text.Blank
import FormulaMachine.Text.Decimal

namespace FormulaMachine

inductive DataType where
  | void
  | scalar (k : Kind)
  | matrix (k : Kind) (rows cols : Nat)
  deriving DecidableEq, Repr

inductive TypeError where
  | unknownName (name : String)
  | malformed (text : String)
  deriving DecidableEq, Repr

namespace DataType

def isVoid : DataType → Bool
  | .void => true
  | _ => false

theorem isVoid_iff {t : DataType} : t.isVoid ↔ t = .void := by
  cases t <;> simp [isVoid]

def isMatrix : DataType → Bool
  | .matrix .. => true
  | _ => false

def kind? : DataType → Option Kind
  | .void => none
  | .scalar k => some k
  | .matrix k _ _ => some k

def dims : DataType → Nat × Nat
  | .matrix _ rows cols => (rows, cols)
  | _ => (1, 1)

def length : DataType → Nat
  | .void => 0
  | .scalar _ => 1
  | .matrix _ rows cols => rows * cols

def size : DataType → Nat
  | .void => 0
  | .scalar k => k.size
  | .matrix k rows cols => k.size * (rows * cols)

def isValid : DataType → Bool
  | .void => false
  | .scalar _ => true
  | .matrix _ rows cols => 0 < rows && 0 < cols

def convertsTo : DataType → DataType → Bool
  | .scalar _, .scalar _ => true
  | .matrix k r c, t => t == .matrix k r c
  | _, _ => false

def text : DataType → String
  | .void => "void"
  | .scalar k => k.name
  | .matrix k rows cols => k.name ++ "[" ++ toString rows ++ "][" ++ toString cols ++ "]"

instance : ToString DataType := ⟨text⟩

def dimension? : List Char → Option Nat
  | '[' :: cs =>
      (Text.unsigned? (Text.trim cs)).bind fun n => if n < 1 <<< 32 then some n else none
  | _ => none

def dimensions? (cs : List Char) : Option (List Nat) :=
  if cs.getLast? = some ']' then (Text.pieces ']' cs).mapM fun p => dimension? p.1 else none

def matrix? (k : Kind) : List Nat → Option DataType
  | [cols] => if 0 < cols then some (.matrix k 1 cols) else none
  | [rows, cols] => if 0 < rows ∧ 0 < cols then some (.matrix k rows cols) else none
  | _ => none

def kindNamed (cs : List Char) : Except TypeError Kind :=
  match Kind.ofName? (String.ofList cs) with
  | some k => .ok k
  | none => .error (.unknownName (String.ofList cs))

def read (text : String) : Except TypeError DataType :=
  let cs := Text.trim text.toList
  if cs = "void".toList then .ok .void
  else if cs.contains '[' then
    match kindNamed (cs.takeWhile (· != '[')) with
    | .error e => .error e
    | .ok k => match (dimensions? (cs.dropWhile (· != '['))).bind (matrix? k) with
      | some t => .ok t
      | none => .error (.malformed text)
  else (kindNamed cs).map .scalar

end DataType

end FormulaMachine
