import FormulaMachine.Error
import FormulaMachine.Machine.Access

namespace FormulaMachine.CommandLine

inductive Initial where
  | scalar (v : Value)
  | matrix (elements : List (Scalar .float64))
  deriving DecidableEq, Repr

structure Binding where
  name : String
  type : DataType
  initial : Option Initial
  deriving DecidableEq, Repr

def splitOnce (sep : Char) (cs : List Char) : Option (List Char × List Char) :=
  match cs.dropWhile (· != sep) with
  | [] => none
  | _ :: rest => some (cs.takeWhile (· != sep), rest)

def splitCommasFrom (seen : List Char) : List Char → List (List Char)
  | [] => [seen.reverse]
  | c :: cs =>
      if c = ',' then seen.reverse :: splitCommasFrom [] cs else splitCommasFrom (c :: seen) cs

def readElement (cs : List Char) : Except String (Scalar .float64) :=
  match Scalar.read? .float64 cs with
  | some x => .ok x
  | none =>
      if Text.trim cs = [] then .error "cannot parse float from empty string"
      else .error "invalid float literal"

def readInitial (t : DataType) (typeText : String) (cs : List Char) : Except String Initial :=
  let text := String.ofList cs
  match t with
  | .void => .error s!"'{typeText}' cannot hold a value"
  | .scalar k =>
      match Scalar.read? k cs with
      | some x => .ok (.scalar ⟨k, x⟩)
      | none => .error s!"'{text}' is not a valid {k}"
  | .matrix .. =>
      match (splitCommasFrom [] cs).mapM readElement with
      | .ok xs => .ok (.matrix xs)
      | .error e => .error s!"bad matrix value in '{text}': {e}"

def readTyped (name : String) (typeText : String) (value : Option (List Char)) :
    Except String Binding :=
  match DataType.read typeText, value with
  | .error _, _ => .error s!"unknown type '{typeText}'"
  | .ok t, none => .ok ⟨name, t, none⟩
  | .ok t, some cs => (readInitial t typeText cs).map fun i => ⟨name, t, some i⟩

def Binding.read (text : String) : Except String Binding :=
  match splitOnce '=' text.toList with
  | none => .error s!"expected name=type[:value], got '{text}'"
  | some (name, rest) =>
      match Text.trim name with
      | [] => .error s!"missing variable name in '{text}'"
      | name =>
          let name := String.ofList name
          match splitOnce ':' rest with
          | none => readTyped name (String.ofList (Text.trim rest)) none
          | some (t, value) =>
              readTyped name (String.ofList (Text.trim t)) (some (Text.trim value))

end FormulaMachine.CommandLine
