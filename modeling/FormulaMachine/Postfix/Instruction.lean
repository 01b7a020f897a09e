namespace FormulaMachine.Postfix

inductive Instruction where
  | read (name : String)
  | write (name : String)
  | const (typeName : Option String) (literal : String)
  | cast (typeName : String)
  | operator (name : String)
  deriving DecidableEq, Repr

namespace Instruction

def words : Instruction → List String
  | .read name => ["READ", name]
  | .write name => ["WRITE", name]
  | .const none literal => ["CONST", literal]
  | .const (some typeName) literal => ["CONST", typeName, literal]
  | .cast typeName => ["CAST", typeName]
  | .operator name => [name]

def text (i : Instruction) : String :=
  " ".intercalate i.words

end Instruction

def text (code : List Instruction) : String :=
  String.join (code.map fun i => i.text ++ "\n")

end FormulaMachine.Postfix
