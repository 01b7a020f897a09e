import FormulaMachine.Machine.Step
import FormulaMachine.Program.Listing
import FormulaMachine.Scalar.Text

namespace FormulaMachine

structure Sink where
  room : Option Nat
  received : String
  deriving DecidableEq, Repr

namespace Sink

def unlimited : Sink := ⟨none, ""⟩

def ofSize (bytes : Nat) : Sink := ⟨some bytes, ""⟩

def fitting (room : Nat) : List Char → List Char
  | [] => []
  | c :: cs => if c.utf8Size ≤ room then c :: fitting (room - c.utf8Size) cs else []

-- The sink after a text was written to it, and whether it took the whole text. A sink that has
-- refused a character takes no other.
def write (s : Sink) (text : String) : Sink × Bool :=
  match s.room with
  | none => (⟨none, s.received ++ text⟩, true)
  | some room =>
      if text.utf8ByteSize ≤ room then
        (⟨some (room - text.utf8ByteSize), s.received ++ text⟩, true)
      else (⟨some 0, s.received ++ String.ofList (fitting room text.toList)⟩, false)

end Sink

namespace Program

def traceHeader : String :=
  "[line]-[stackPtr]-[codePtr]::[CODE] stack-in => stack-out\n"

def traceEnd (p : Program) (st : State) : String :=
  s!"{st.stack.depth} - {p.code.size} :: END\n"

def elementText (p : Program) (s : Store) (k : Kind) (number i : Nat) : String :=
  (p.element s k number i).text

def wordText (p : Program) (s : Store) (t : DataType) (w : Word) : String :=
  match t with
  | .void => ""
  | .scalar k => s!"({k})" ++ (Scalar.ofWord k w).text
  | .matrix k rows cols =>
      let cells :=
        if w.toNat < p.matrices.size then
          (List.range (rows * cols)).map (p.elementText s k w.toNat)
        else []
      s!"({t})[" ++ " ".intercalate cells ++ "]"

def inPlace? : Opcode → Option Nat
  | .cast _ _ depth _ | .copyMatrix depth _ => some depth
  | _ => none

def takenWords (e : Entry) (stack : List Word) : List Word :=
  match inPlace? e.opcode with
  | some depth => stack[depth]?.toList
  | none => if e.inputs.length ≤ stack.length then (stack.take e.inputs.length).reverse else []

def leftWord? (e : Entry) (stack : List Word) : Option Word :=
  match inPlace? e.opcode with
  | some depth => stack[depth]?.or stack.head?
  | none => stack.head?

def traceBefore (p : Program) (position : Nat) (e : Entry) (st : State) : String :=
  let operands := List.zipWith (p.wordText st.store) e.inputs (takenWords e st.stack.slots)
  s!"{e.line} - {st.stack.depth} - {position} :: {p.describe e} (" ++
    ",".intercalate operands ++ ")"

def traceAfter (p : Program) (e : Entry) (st : State) : String :=
  let result := match e.output, leftWord? e st.stack.slots with
    | some t, some w => p.wordText st.store t w
    | _, _ => ""
  " => (" ++ result ++ ")\n"

def traceFault : String :=
  " => () <ERROR>\n"

end Program

end FormulaMachine
