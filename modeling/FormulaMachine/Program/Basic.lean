import FormulaMachine.Operator
import FormulaMachine.Variables

namespace FormulaMachine

inductive Opcode where
  | loadConstant (offset : Nat) (k : Kind)
  | loadVariable (offset : Nat) (k : Kind)
  | loadExternal (number : Nat) (k : Kind)
  | loadMatrix (number : Nat)
  | storeVariable (offset : Nat) (k : Kind)
  | storeExternal (number : Nat) (k : Kind)
  | storeMatrix (number : Nat)
  | cast (source target : Kind) (depth : Nat) (implicit : Bool)
  | scalar (kernel : Kernel) (k : Kind)
  | matrix (op : MatrixOp) (target : Nat)
  -- Copies the matrix that the word `depth` places below the top stands for, and lets the word
  -- stand for the copy
  | copyMatrix (depth target : Nat)
  deriving DecidableEq, Repr

def Opcode.name : Opcode → String
  | .loadConstant .. => "CONST"
  | .loadVariable .. | .loadExternal .. | .loadMatrix _ => "READ"
  | .storeVariable .. | .storeExternal .. | .storeMatrix _ => "WRITE"
  | .cast .. => "CAST"
  | .scalar kernel _ => kernel.name
  | .matrix op _ => op.name
  | .copyMatrix .. => "COPY"

def Opcode.location? : Opcode → Option Location
  | .loadVariable offset _ | .storeVariable offset _ => some (.variable offset)
  | .loadExternal number _ | .storeExternal number _ => some (.external number)
  | .loadMatrix number | .storeMatrix number => some (.matrix number)
  | .loadConstant .. | .cast .. | .scalar .. | .matrix .. | .copyMatrix .. => none

structure Entry where
  opcode : Opcode
  line : Nat
  inputs : List DataType
  output : Option DataType
  spelling : Option String
  deriving DecidableEq, Repr

structure Literal where
  text : String
  typeName : Option String
  deriving DecidableEq, Repr

structure MatrixSlot where
  type : DataType
  external : Option External
  deriving DecidableEq, Repr

structure Sizes where
  constantBytes : Nat
  variableBytes : Nat
  instructions : Nat
  maxStackDepth : Nat
  deriving DecidableEq, Repr

def Sizes.text (s : Sizes) : String :=
  s!"constants: {s.constantBytes} bytes, variables: {s.variableBytes} bytes, " ++
    s!"code: {s.instructions} instructions, max stack depth: {s.maxStackDepth}"

structure Program where
  vars : Variables
  constants : Array Byte
  -- The constants as written, by their offsets, the last one first
  literals : List (Nat × Literal)
  code : Array Entry
  matrices : Array MatrixSlot
  bindings : Array External
  sizes : Sizes
  deriving DecidableEq, Repr

end FormulaMachine
