import FormulaMachine.Compiler.Options
import FormulaMachine.Postfix.Reader
import FormulaMachine.Proofs.Scalar.Progress
import FormulaMachine.Scalar.Text

namespace FormulaMachine

inductive Datum where
  | scalar {k : Kind} (x : Scalar k)
  | matrix {k : Kind} (rows cols : Nat) (elements : List (Scalar k))
  deriving DecidableEq, Repr

namespace Datum

def type : Datum → DataType
  | .scalar (k := k) _ => .scalar k
  | .matrix (k := k) rows cols _ => .matrix k rows cols

def castTo (checked : Bool) : Datum → DataType → Except Fault Datum
  | .scalar x, .scalar k => (Scalar.cast checked k x).map .scalar
  | x, t => if x.type = t then .ok x else .error .badOperand

def castAll (checked : Bool) : List Datum → List DataType → Except Fault (List Datum)
  | [], [] => .ok []
  | x :: xs, t :: ts => do
      let y ← x.castTo checked t
      let ys ← castAll checked xs ts
      .ok (y :: ys)
  | _, _ => .error .badOperand

def scalarOf (k : Kind) : Datum → Except Fault (Scalar k)
  | .scalar (k := j) x => if h : j = k then .ok (h ▸ x) else .error .badOperand
  | .matrix .. => .error .badOperand

def elements (k : Kind) : Datum → Except Fault (List (Scalar k))
  | .scalar _ => .error .badOperand
  | .matrix (k := j) _ _ xs => if h : j = k then .ok (h ▸ xs) else .error .badOperand

section Matrices

variable {k : Kind} (checked : Bool)

def elementwise (op : Arithmetic) (xs ys : List (Scalar k)) : Except Fault (List (Scalar k)) :=
  (xs.zip ys).mapM fun e => Scalar.arithmetic checked op e.1 e.2

def scaled (c : Scalar k) (xs : List (Scalar k)) : Except Fault (List (Scalar k)) :=
  xs.mapM fun x => Scalar.arithmetic checked .mul x c

def rowTimesColumn (inner cols : Nat) (xs ys : List (Scalar k)) (i j : Nat) :
    Except Fault (Scalar k) :=
  (List.range inner).foldlM (fun sum t => do
    let x ← Scalar.arithmetic checked .mul (xs.getD (i * inner + t) (.zero k))
      (ys.getD (t * cols + j) (.zero k))
    Scalar.arithmetic checked .sum sum x) (.zero k)

def product (rows inner cols : Nat) (xs ys : List (Scalar k)) :
    Except Fault (List (Scalar k)) :=
  (List.range (rows * cols)).mapM fun n =>
    rowTimesColumn checked inner cols xs ys (n / cols) (n % cols)

def combine (k : Kind) (op : MatrixOp) (rows cols : Nat) (a b : Datum) :
    Except Fault (List (Scalar k)) :=
  match op with
  | .sum => do
      let xs ← a.elements k
      let ys ← b.elements k
      elementwise checked .sum xs ys
  | .sub => do
      let xs ← a.elements k
      let ys ← b.elements k
      elementwise checked .sub xs ys
  | .product => do
      let xs ← a.elements k
      let ys ← b.elements k
      product checked rows a.type.dims.2 cols xs ys
  | .scaleLeft => do
      let c ← a.scalarOf k
      let ys ← b.elements k
      scaled checked c ys
  | .scaleRight => do
      let xs ← a.elements k
      let c ← b.scalarOf k
      scaled checked c xs

end Matrices

def apply (checked : Bool) (operation : Operation) (output : DataType) (xs : List Datum) :
    Except Fault Datum :=
  match operation with
  | .scalar kernel k => do
      let xs ← xs.mapM (scalarOf k)
      (kernel.onScalars checked xs).map .scalar
  | .matrix op =>
      match output, xs with
      | .matrix k rows cols, [a, b] => (combine checked k op rows cols a b).map (.matrix rows cols)
      | _, _ => .error .badOperand

end Datum

namespace Reference

structure State where
  vars : String → Option Datum
  stack : List Datum

def State.push (ρ : State) (x : Datum) : State :=
  { ρ with stack := x :: ρ.stack }

def literalKind? (o : CompileOptions) : Option String → Option Kind
  | none => some o.defaultLiteralKind
  | some typeName => Kind.ofName? typeName

def step (o : CompileOptions) (checked : Bool) (ρ : State) :
    Postfix.Instruction → Except Fault State
  | .read name =>
      match ρ.vars name with
      | some x => .ok (ρ.push x)
      | none => .error .badOperand
  | .const typeName literal =>
      match (literalKind? o typeName).bind fun k =>
          (Scalar.read? k literal.toList).map Datum.scalar with
      | some x => .ok (ρ.push x)
      | none => .error .badOperand
  | .cast typeName =>
      match DataType.read typeName, ρ.stack with
      | .ok t, x :: stack => (x.castTo checked t).map fun y => { ρ with stack := y :: stack }
      | .error _, _ => .error .badOperand
      | _, [] => .error .stackUnderflow
  | .write name =>
      match ρ.vars name, ρ.stack with
      | some v, x :: stack => (x.castTo checked v.type).map fun y =>
          ⟨Function.update ρ.vars name (some y), stack⟩
      | none, _ => .error .badOperand
      | _, [] => .error .stackUnderflow
  | .operator name =>
      match Kernel.ofName? name with
      | none => .error .badOperand
      | some kernel =>
          let operands := (ρ.stack.take kernel.arity).reverse
          match kernel.resolve o.implicitCasts (operands.map Datum.type) with
          | .error _ => .error .badOperand
          | .ok r => do
              let operands ← Datum.castAll checked operands r.inputs
              let y ← Datum.apply checked r.operation r.output operands
              .ok { ρ with stack := y :: ρ.stack.drop kernel.arity }

def line (o : CompileOptions) (checked : Bool) (ρ : State)
    (l : Nat × Except Error Postfix.Instruction) : Except Fault State :=
  match l.2 with
  | .ok i => step o checked ρ i
  | .error _ => .error .badOperand

def run (text : String) (o : CompileOptions) (checked : Bool) (vars : String → Option Datum) :
    Except Fault State :=
  (Postfix.instructions text).foldlM (line o checked) ⟨vars, []⟩

end Reference

end FormulaMachine
