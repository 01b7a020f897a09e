import FormulaMachine.Error
import FormulaMachine.Postfix.Instruction

namespace FormulaMachine.Postfix

def keywords : List String :=
  ["READ", "WRITE", "CONST", "CAST"]

def numberedLines (text : String) : List (Nat × List Char) :=
  (Text.lines text.toList).mapIdx fun i l => (i + 1, l)

def isBlankLine (l : List Char) : Bool :=
  l.all Text.isBlank

def lineWords (l : List Char) : List String :=
  (Text.words l).map String.ofList

def Instruction.ofLine (number : Nat) (l : List Char) : Except Error Instruction :=
  match lineWords l with
  | ["READ", name] => .ok (.read name)
  | ["WRITE", name] => .ok (.write name)
  | ["READ"] | ["WRITE"] => .error (.missingName number (String.ofList l))
  | ["CONST", literal] => .ok (.const none literal)
  | ["CONST", typeName, literal] => .ok (.const (some typeName) literal)
  | ["CAST", typeName] => .ok (.cast typeName)
  | [name] =>
      if keywords.contains name then .error (.badInstruction number (String.ofList l))
      else .ok (.operator name)
  | _ => .error (.badInstruction number (String.ofList l))

def instructions (text : String) : List (Nat × Except Error Instruction) :=
  ((numberedLines text).filter fun l => !isBlankLine l.2).map fun l =>
    (l.1, Instruction.ofLine l.1 l.2)

end FormulaMachine.Postfix
