import FormulaMachine.Infix.Operators
import FormulaMachine.Text.Uppercase

namespace FormulaMachine.Infix

inductive PendingOp where
  | binary (opcode : String)
  | sign (s : Sign)
  | function (name : String)
  deriving DecidableEq, Repr

inductive Action where
  | storeAssignment (target : String)
  | popAssignment
  | pushOperator (op : PendingOp)
  | popOperator
  | popOperatorAlternate
  | pushTypecast (typeName : String)
  | popTypecast
  | addOperand (t : Token)
  | addOperandTypecast (literal : String)
  deriving DecidableEq, Repr

structure Emitter where
  output : String
  operators : List PendingOp
  typecasts : List String
  target : Option String
  deriving DecidableEq, Repr

namespace Emitter

def new : Emitter := ⟨"", [], [], none⟩

def line (e : Emitter) (parts : List String) : Emitter :=
  { e with output := e.output ++ (" ".intercalate parts ++ "\n") }

def execute (e : Emitter) : Action → Emitter
  | .storeAssignment target => { e with target := some target }
  | .popAssignment =>
      match e.target with
      | some target => { e with target := none }.line ["WRITE", target]
      | none => e
  | .pushOperator op => { e with operators := op :: e.operators }
  | .popOperator =>
      match e.operators with
      | .binary opcode :: operators => { e with operators }.line [opcode]
      | .function name :: operators => { e with operators }.line [Text.uppercase name]
      | .sign _ :: operators => { e with operators }
      | [] => e
  | .popOperatorAlternate =>
      match e.operators with
      | .sign .minus :: operators => { e with operators }.line ["NEG"]
      | .sign .not :: operators => { e with operators }.line ["NOT"]
      -- A plus sign does nothing.
      | _ :: operators => { e with operators }
      | [] => e
  | .pushTypecast typeName => { e with typecasts := typeName :: e.typecasts }
  | .popTypecast =>
      match e.typecasts with
      | typeName :: typecasts => { e with typecasts }.line ["CAST", typeName]
      | [] => e
  | .addOperand (.ident name) => e.line ["READ", name]
  | .addOperand (.number literal) => e.line ["CONST", literal]
  | .addOperand _ => e
  | .addOperandTypecast literal =>
      match e.typecasts with
      | typeName :: typecasts => { e with typecasts }.line ["CONST", typeName, literal]
      | [] => e

end Emitter

end FormulaMachine.Infix
