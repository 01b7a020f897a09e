import FormulaMachine.Machine.Step
import FormulaMachine.Scalar.Text

namespace FormulaMachine

structure Value where
  kind : Kind
  scalar : Scalar kind
  deriving DecidableEq, Repr

namespace Program

def find (p : Program) (name : String) : Except Error (DataType × Location) :=
  match p.vars.get? name with
  | none => .error (.unknownVariable name)
  | some v =>
      match v.location with
      | some l => .ok (v.type, l)
      | none => .error (.unknownVariable s!"{name} has no storage")

def fitting {j : Kind} (name : String) (k : Kind) (x : Scalar j) : Except Error (Scalar k) :=
  (Scalar.cast true k x).mapError fun f => .doesNotFit f x.text name k

def putScalar {k : Kind} (p : Program) (s : Store) (x : Scalar k) : Location → Store
  | .variable offset => s.writeScalar offset x
  | .external number => p.setBindingCell s number x.toWord
  | .matrix _ => s

def getScalar (p : Program) (s : Store) (k : Kind) : Location → Scalar k
  | .variable offset => s.readScalar offset k
  | .external number => .ofWord k (p.bindingCell s number)
  | .matrix _ => .zero k

def setValue (p : Program) (s : Store) (name : String) (x : Value) : Except Error Store :=
  match p.find name with
  | .error e => .error e
  | .ok (.scalar k, l) => (fitting name k x.scalar).map fun y => p.putScalar s y l
  | .ok (t, _) => .error (.notScalar name t)

def value (p : Program) (s : Store) (name : String) : Except Error Value :=
  match p.find name with
  | .error e => .error e
  | .ok (.scalar k, l) => .ok ⟨k, p.getScalar s k l⟩
  | .ok (t, _) => .error (.notScalar name t)

def setElements (p : Program) (name : String) (k : Kind) (number : Nat) (s : Store) (i : Nat) :
    List (Scalar .float64) → Store × Option Error
  | [] => (s, none)
  | x :: xs =>
      match fitting name k x with
      | .error e => (s, some e)
      | .ok y => p.setElements name k number (p.setMatrixCell s number i y.toWord) (i + 1) xs

def setMatrix (p : Program) (s : Store) (name : String) (xs : List (Scalar .float64)) :
    Store × Option Error :=
  match p.find name with
  | .error e => (s, some e)
  | .ok (.matrix k rows cols, .matrix number) =>
      if xs.length = rows * cols then p.setElements name k number s 0 xs
      else (s, some (.elementCount name (.matrix k rows cols) xs.length))
  | .ok (t, _) => (s, some (.notMatrix name t))

def matrix (p : Program) (s : Store) (name : String) : Except Error (List (Scalar .float64)) :=
  match p.find name with
  | .error e => .error e
  | .ok (.matrix k rows cols, .matrix number) =>
      .ok ((List.range (rows * cols)).map fun i => (p.element s k number i).toFloat64)
  | .ok (t, _) => .error (.notMatrix name t)

end Program

end FormulaMachine
