import FormulaMachine.Program.Basic

namespace FormulaMachine.Program

def variableAt? (p : Program) (l : Location) : Option Variable :=
  (p.vars.outputs ++ p.vars.inputs).find? (·.location == some l)

def describeConstant (name : String) (k : Kind) : Option Literal → String
  | some ⟨text, some typeName⟩ => s!"{name} {typeName} {text}"
  | some ⟨text, none⟩ => s!"{name} {text}"
  | none => s!"{name} {k} ?"

def describe (p : Program) (e : Entry) : String :=
  let name := e.spelling.getD e.opcode.name
  match e.opcode with
  | .loadConstant offset k => describeConstant name k (p.literals.lookup offset)
  | .cast _ target _ _ => s!"CAST {e.spelling.getD target.name}"
  | opcode =>
      match opcode.location?.bind p.variableAt? with
      | some v => s!"{name} {v.name}"
      | none => name

def isInserted (e : Entry) : Bool :=
  match e.opcode with
  | .cast _ _ _ implicit => implicit
  | .copyMatrix .. => true
  | _ => false

def typeTuple (ts : List DataType) : String :=
  "(" ++ ",".intercalate (ts.map DataType.text) ++ ")"

def listEntry (p : Program) (showTypes : Bool) (e : Entry) : String :=
  if showTypes then
    s!"{p.describe e} {typeTuple e.inputs} => {typeTuple e.output.toList}\n"
  else if isInserted e then ""
  else s!"{p.describe e}\n"

def decompile (p : Program) (showTypes : Bool) : String :=
  String.join (p.code.toList.map (p.listEntry showTypes))

end FormulaMachine.Program
