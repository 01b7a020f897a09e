import FormulaMachine.Postfix.Reader

namespace FormulaMachine

structure SharedMemory where
  number : Nat
  cells : Nat
  deriving DecidableEq, Repr

structure External where
  memory : SharedMemory
  offset : Nat
  deriving DecidableEq, Repr

inductive Location where
  | variable (offset : Nat)
  | external (number : Nat)
  | matrix (number : Nat)
  deriving DecidableEq, Repr

structure Variable where
  name : String
  type : DataType
  location : Option Location
  external : Option External
  deriving DecidableEq, Repr

namespace Variable

def named (name : String) : Variable :=
  ⟨name, .void, none, none⟩

-- Offsets are numbers of 64 bits, and the end of a range that lies beyond them is shown as the
-- greatest of them
def checkRange (name : String) (count : Nat) (x : External) : Except Error Unit :=
  if x.offset + count ≤ x.memory.cells then .ok ()
  else
    let stop := min (x.offset + count) ((1 <<< 64) - 1)
    .error (.memoryTooSmall name x.offset stop x.memory.cells)

def bind (v : Variable) (t : DataType) (external : Option External) : Except Error Variable :=
  if v.type ≠ .void then .error (.duplicateType v.name v.type)
  else if !t.isValid then .error (.invalidType v.name t)
  else match external with
    | none => .ok ⟨v.name, t, v.location, none⟩
    | some x =>
        match checkRange v.name t.length x with
        | .error e => .error e
        | .ok () => .ok ⟨v.name, t, v.location, some x⟩

end Variable

structure Variables where
  inputs : List Variable
  outputs : List Variable
  deriving DecidableEq, Repr

namespace Variables

def empty : Variables := ⟨[], []⟩

def get? (vs : Variables) (name : String) : Option Variable :=
  (vs.outputs ++ vs.inputs).find? (·.name == name)

def replace (v : Variable) : List Variable → List Variable
  | [] => []
  | w :: ws => if w.name = v.name then v :: ws else w :: replace v ws

def set (vs : Variables) (v : Variable) : Variables :=
  if vs.outputs.any (·.name == v.name) then { vs with outputs := replace v vs.outputs }
  else { vs with inputs := replace v vs.inputs }

def bind (vs : Variables) (name : String) (t : DataType) (external : Option External) :
    Except Error Variables :=
  match vs.get? name with
  | none => .error (.unknownVariable name)
  | some v => (v.bind t external).map vs.set

def noteRead (vs : Variables) (name : String) : Variables :=
  match vs.get? name with
  | some _ => vs
  | none => { vs with inputs := vs.inputs ++ [.named name] }

-- A first write makes a variable an output, and keeps it if it was an input
def noteWrite (vs : Variables) (name : String) : Variables :=
  if vs.outputs.any (·.name == name) then vs
  else match vs.inputs.find? (·.name == name) with
    | some v => ⟨vs.inputs.eraseP (·.name == name), vs.outputs ++ [v]⟩
    | none => { vs with outputs := vs.outputs ++ [.named name] }

def noteLine (vs : Variables) (number : Nat) (words : List String) : Except Error Variables :=
  match words with
  | "READ" :: name :: _ => .ok (vs.noteRead name)
  | "WRITE" :: name :: _ => .ok (vs.noteWrite name)
  | ["WRITE"] => .error (.missingName number "WRITE")
  | _ => .ok vs

def discover (text : String) : Except Error Variables :=
  (Postfix.numberedLines text).foldlM (fun vs l => vs.noteLine l.1 (Postfix.lineWords l.2)) empty

end Variables

end FormulaMachine
