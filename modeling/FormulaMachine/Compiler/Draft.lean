import FormulaMachine.Compiler.Options
import FormulaMachine.Program.Basic
import FormulaMachine.Scalar.Text
import FormulaMachine.Stack

namespace FormulaMachine

-- A stack slot by its type, and the matrix variable that it stands for, if any
structure Slot where
  type : DataType
  source : Option Nat
  deriving DecidableEq, Repr

structure Draft where
  vars : Variables
  variablesSize : Nat
  constants : Array Byte
  literals : List (Nat × Literal)
  code : Array Entry
  matrices : Array MatrixSlot
  bindings : Array External
  stack : Stack Slot
  maxDepth : Nat
  deriving DecidableEq, Repr

namespace Draft

def start (vs : Variables) : Draft :=
  ⟨vs, 0, #[], [], #[], #[], #[], .empty, 0⟩

def numberLimit : Nat := 1 <<< 16

def offsetLimit : Nat := 1 <<< 32

def lineLimit : Nat := 1 <<< 32

def emit (d : Draft) (line : Nat) (opcode : Opcode) (inputs : List DataType)
    (output : Option DataType) (spelling : Option String) : Draft :=
  { d with code := d.code.push ⟨opcode, line, inputs, output, spelling⟩ }

def push (d : Draft) (limit : Option Nat) (line : Nat) (s : Slot) : Except Error Draft :=
  let stack := d.stack.push s
  let d := { d with stack := stack, maxDepth := max d.maxDepth stack.depth }
  match limit with
  | none => .ok d
  | some l => if l < stack.depth then .error (.depthExceeded line stack.depth l) else .ok d

def addMatrix (d : Draft) (t : DataType) (external : Option External) :
    Except Error (Nat × Draft) :=
  if d.matrices.size < numberLimit then
    .ok (d.matrices.size, { d with matrices := d.matrices.push ⟨t, external⟩ })
  else .error .tooManyMatrices

def place (d : Draft) (v : Variable) (l : Location) : Location × Draft :=
  (l, { d with vars := d.vars.set { v with location := some l } })

def allocate (d : Draft) (v : Variable) : Except Error (Location × Draft) :=
  match v.location with
  | some l => .ok (l, d)
  | none =>
      if v.type.isMatrix then
        match d.addMatrix v.type v.external with
        | .error e => .error e
        | .ok (number, d) => .ok (d.place v (.matrix number))
      else match v.external with
        | some x =>
            if d.bindings.size < numberLimit then
              .ok ({ d with bindings := d.bindings.push x }.place v (.external d.bindings.size))
            else .error .tooManyBindings
        | none =>
            if d.variablesSize + v.type.size < offsetLimit then
              .ok ({ d with variablesSize := d.variablesSize + v.type.size }.place v
                (.variable d.variablesSize))
            else .error (.variableAreaFull v.name)

def loadOpcode (k : Kind) : Location → Opcode
  | .variable offset => .loadVariable offset k
  | .external number => .loadExternal number k
  | .matrix number => .loadMatrix number

def storeOpcode (k : Kind) : Location → Opcode
  | .variable offset => .storeVariable offset k
  | .external number => .storeExternal number k
  | .matrix number => .storeMatrix number

def matrixNumber? : Location → Option Nat
  | .matrix number => some number
  | _ => none

def elementKind (t : DataType) : Kind :=
  t.kind?.getD .bool

def read (o : CompileOptions) (line : Nat) (d : Draft) (name : String) : Except Error Draft :=
  match d.vars.get? name with
  | none => .error (.unknownVariable name)
  | some v =>
      if v.type = .void then .error (.untypedRead line name)
      else match d.allocate v with
        | .error e => .error e
        | .ok (l, d) =>
            (d.emit line (loadOpcode (elementKind v.type) l) [] (some v.type) none).push
              o.maxStackDepth line ⟨v.type, matrixNumber? l⟩

def literalKind (o : CompileOptions) (line : Nat) : Option String → Except Error Kind
  | none => .ok o.defaultLiteralKind
  | some typeName =>
      match Kind.ofName? typeName with
      | some k => .ok k
      | none => .error (.unknownTypeAt line typeName)

def const (o : CompileOptions) (line : Nat) (d : Draft) (typeName : Option String)
    (literal : String) : Except Error Draft :=
  match literalKind o line typeName with
  | .error e => .error e
  | .ok k =>
      match Scalar.read? k literal.toList with
      | none => .error (.badLiteral line literal k)
      | some x =>
          let offset := d.constants.size % offsetLimit
          let d := { d with
            constants := d.constants ++ x.bytes.toArray
            literals := (offset, ⟨literal, typeName⟩) :: d.literals }
          (d.emit line (.loadConstant offset k) [] (some (.scalar k)) none).push
            o.maxStackDepth line ⟨.scalar k, none⟩

-- A copy of the matrix that a slot stands for, the slot being `depth` places below the value that
-- is written. That value still lies on the stack when the copy is made.
def detachSlot (line depth : Nat) (s : Slot) (d : Draft) : Except Error (Slot × Draft) :=
  if numberLimit ≤ depth then .error (.copyOutOfReach line)
  else match d.addMatrix s.type none with
    | .error e => .error e
    | .ok (target, d) =>
        .ok (⟨s.type, none⟩, d.emit line (.copyMatrix depth target) [s.type] (some s.type) none)

-- Gives a copy to each slot that stands for matrix `number`, the deepest first. The first of the
-- slots is `depth` places below the value that is written.
def detachSlots (line number depth : Nat) : List Slot → Draft → Except Error (List Slot × Draft)
  | [], d => .ok ([], d)
  | s :: slots, d => do
      let (slots, d) ← detachSlots line number (depth + 1) slots d
      if s.source = some number then
        let (s, d) ← detachSlot line depth s d
        .ok (s :: slots, d)
      else .ok (s :: slots, d)

def detach (line : Nat) (d : Draft) (number : Nat) : Except Error Draft := do
  let (slots, d) ← detachSlots line number 1 d.stack.slots d
  .ok { d with stack := .ofList slots }

def inferType (v : Variable) (t : DataType) : Except Error Variable :=
  if v.type = .void then v.bind t none else .ok v

def convertForWrite (line : Nat) (name : String) (source target : DataType) (d : Draft) :
    Except Error Draft :=
  if source = target then .ok d
  else match source, target with
    | .scalar j, .scalar k => .ok (d.emit line (.cast j k 0 true) [source] (some target) none)
    | _, _ => .error (.incompatibleWrite line source name target)

def detachTarget (line : Nat) (d : Draft) : Location → Except Error Draft
  | .matrix number => d.detach line number
  | _ => .ok d

def write (line : Nat) (d : Draft) (name : String) : Except Error Draft :=
  match d.stack.slots with
  | [] => .error (.nothingToWrite line name)
  | s :: _ =>
      let d := { d with stack := d.stack.drop 1 }
      match d.vars.get? name with
      | none => .error (.unknownVariable name)
      | some v => do
          let v ← inferType v s.type
          let d := { d with vars := d.vars.set v }
          let (l, d) ← d.allocate v
          let d ← convertForWrite line name s.type v.type d
          let d ← detachTarget line d l
          .ok (d.emit line (storeOpcode (elementKind v.type) l) [v.type] none none)

def cast (o : CompileOptions) (line : Nat) (d : Draft) (typeName : String) :
    Except Error Draft :=
  match DataType.read typeName with
  | .error _ => .error (.unknownTypeAt line typeName)
  | .ok t =>
      match d.stack.slots with
      | [] => .error (.nothingToCast line typeName)
      | s :: _ =>
          if s.type.convertsTo t then
            let opcode := .cast (elementKind s.type) (elementKind t) 0 false
            ({ d with stack := d.stack.drop 1 }.emit line opcode [s.type] (some t)
              (some typeName)).push
              o.maxStackDepth line ⟨t, s.source⟩
          else .error (.unsupportedCast line s.type t)

def widen (line : Nat) (d : Draft) (w : Widening) : Draft :=
  let d := d.emit line (.cast w.source w.target w.depth true) [.scalar w.source]
    (some (.scalar w.target)) none
  { d with stack := d.stack.modify w.depth fun s => { s with type := .scalar w.target } }

def operationOpcode (d : Draft) (r : Resolution) : Except Error (Opcode × Draft) :=
  match r.operation with
  | .scalar kernel k => .ok (.scalar kernel k, d)
  | .matrix op =>
      match d.addMatrix r.output none with
      | .error e => .error e
      | .ok (target, d) => .ok (.matrix op target, d)

def ofResolveError (line : Nat) (name : String) (operands : List DataType) :
    ResolveError → Error
  | .unsupported => .unsupportedOperation line name operands
  | .mismatchedDimensions => .mismatchedDimensions line name operands

def operator (o : CompileOptions) (line : Nat) (d : Draft) (name : String) :
    Except Error Draft :=
  match Kernel.ofName? name with
  | none => .error (.unknownOpcode line name)
  | some kernel =>
      if d.stack.depth < kernel.arity then
        .error (.operandsMissing line name kernel.arity d.stack.depth)
      else do
        let operands := ((d.stack.slots.take kernel.arity).map Slot.type).reverse
        let r ← (kernel.resolve o.implicitCasts operands).mapError
          (ofResolveError line name operands)
        let d := r.widenings.foldl (widen line) d
        let (opcode, d) ← d.operationOpcode r
        let spelling := if name = opcode.name then none else some name
        let d := d.emit line opcode r.inputs (some r.output) spelling
        { d with stack := d.stack.drop kernel.arity }.push o.maxStackDepth line ⟨r.output, none⟩

def instruction (o : CompileOptions) (line : Nat) (d : Draft) :
    Postfix.Instruction → Except Error Draft
  | .read name => read o line d name
  | .write name => write line d name
  | .const typeName literal => const o line d typeName literal
  | .cast typeName => cast o line d typeName
  | .operator name => operator o line d name

def allocateUnused (d : Draft) (name : String) : Except Error Draft :=
  match d.vars.get? name with
  | none => .ok d
  | some v =>
      if v.type = .void then .error (.untyped name)
      else (d.allocate v).map Prod.snd

def names (vs : Variables) : List String :=
  (vs.inputs ++ vs.outputs).map Variable.name

def sizes (d : Draft) : Sizes :=
  ⟨d.constants.size, d.variablesSize, d.code.size, d.maxDepth⟩

def finish (d : Draft) : Except Error Program :=
  if d.code.size = 0 then .error .emptyProgram
  else if d.stack.slots ≠ [] then
    .error (.valuesLeft (d.stack.slots.map Slot.type).reverse)
  else ((names d.vars).foldlM allocateUnused d).map fun d =>
    ⟨d.vars, d.constants, d.literals, d.code, d.matrices, d.bindings, d.sizes⟩

def line (o : CompileOptions) (d : Draft) (l : Nat × Except Error Postfix.Instruction) :
    Except Error Draft :=
  match l.2 with
  | .error e => .error e
  | .ok i => instruction o (l.1 % lineLimit) d i

end Draft

def compile (text : String) (vs : Variables) (o : CompileOptions) : Except Error Program :=
  ((Postfix.instructions text).foldlM (Draft.line o) (Draft.start vs)).bind Draft.finish

end FormulaMachine
