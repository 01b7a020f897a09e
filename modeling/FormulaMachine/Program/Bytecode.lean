import FormulaMachine.Program.Listing

namespace FormulaMachine

structure Signature where
  line : Nat
  inputs : List DataType
  output : Option DataType
  deriving DecidableEq, Repr

structure Bytecode where
  code : Array Opcode
  signatures : Array Signature
  -- by the number of the instruction, the last one first
  spellings : List (Nat × String)
  deriving DecidableEq, Repr

namespace Bytecode

def empty : Bytecode :=
  ⟨#[], #[], []⟩

def push (b : Bytecode) (opcode : Opcode) (signature : Signature) : Bytecode :=
  { b with code := b.code.push opcode, signatures := b.signatures.push signature }

def pushSpelled (b : Bytecode) (opcode : Opcode) (signature : Signature) (spelling : String) :
    Bytecode :=
  { b with spellings := (b.code.size, spelling) :: b.spellings }.push opcode signature

variable (p : Program) (b : Bytecode)

def describe (pc : Nat) (opcode : Opcode) : String :=
  let name := (b.spellings.lookup pc).getD opcode.name
  match opcode with
  | .loadConstant offset k => Program.describeConstant name k (p.literals.lookup offset)
  | .cast _ target _ _ => s!"CAST {(b.spellings.lookup pc).getD target.name}"
  | opcode =>
      match opcode.location?.bind p.variableAt? with
      | some v => s!"{name} {v.name}"
      | none => name

def isInserted : Opcode → Bool
  | .cast _ _ _ implicit => implicit
  | .copyMatrix .. => true
  | _ => false

def listTypes (pc : Nat) : String :=
  match b.signatures[pc]? with
  | some s => s!" {Program.typeTuple s.inputs} => {Program.typeTuple s.output.toList}"
  | none => ""

def list (showTypes : Bool) (opcode : Opcode) (pc : Nat) : String :=
  if isInserted opcode && !showTypes then ""
  else b.describe p pc opcode ++ (if showTypes then b.listTypes pc else "") ++ "\n"

def decompile (showTypes : Bool) : String :=
  String.join (b.code.toList.zipIdx.map fun (opcode, pc) => b.list p showTypes opcode pc)

end Bytecode

end FormulaMachine
