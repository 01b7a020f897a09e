import FormulaMachine.Compiler.Draft
import FormulaMachine.Program.Bytecode

namespace FormulaMachine

-- a draft whose stack and code stand apart from the rest of it, in a list for each field; the
-- deepest slot and the first instruction come first
structure SplitDraft where
  rest : Draft
  types : List DataType
  sources : List (Option Nat)
  bytecode : Bytecode
  deriving DecidableEq, Repr

namespace SplitDraft

open Draft (numberLimit offsetLimit lineLimit)

def start (vs : Variables) : SplitDraft :=
  ⟨.start vs, [], [], .empty⟩

def emit (d : SplitDraft) (line : Nat) (opcode : Opcode) (inputs : List DataType)
    (output : Option DataType) : SplitDraft :=
  { d with bytecode := d.bytecode.push opcode ⟨line, inputs, output⟩ }

def emitSpelled (d : SplitDraft) (line : Nat) (opcode : Opcode) (inputs : List DataType)
    (output : Option DataType) (spelling : String) : SplitDraft :=
  { d with bytecode := d.bytecode.pushSpelled opcode ⟨line, inputs, output⟩ spelling }

def push (d : SplitDraft) (limit : Option Nat) (line : Nat) (t : DataType)
    (source : Option Nat) : Except Error SplitDraft :=
  let d := { d with types := d.types ++ [t], sources := d.sources ++ [source] }
  let depth := d.types.length
  let d := { d with rest := { d.rest with maxDepth := max d.rest.maxDepth depth } }
  match limit with
  | none => .ok d
  | some l => if l < depth then .error (.depthExceeded line depth l) else .ok d

def pop? (d : SplitDraft) : Option (DataType × Option Nat × SplitDraft) :=
  match d.types.getLast?, d.sources.getLast? with
  | some t, some source =>
      some (t, source, { d with types := d.types.dropLast, sources := d.sources.dropLast })
  | _, _ => none

def truncate (d : SplitDraft) (length : Nat) : SplitDraft :=
  { d with types := d.types.take length, sources := d.sources.take length }

def addMatrix (d : SplitDraft) (t : DataType) : Except Error (Nat × SplitDraft) :=
  (d.rest.addMatrix t none).map fun (number, rest) => (number, { d with rest := rest })

def allocate (d : SplitDraft) (v : Variable) : Except Error (Location × SplitDraft) :=
  (d.rest.allocate v).map fun (l, rest) => (l, { d with rest := rest })

def detachPlace (line number : Nat) (d : SplitDraft) (i : Nat) : Except Error SplitDraft :=
  if d.sources[i]? ≠ some (some number) then .ok d
  else
    let depth := d.types.length - i
    let t := d.types.getD i .void
    if numberLimit ≤ depth then .error (.copyOutOfReach line)
    else do
      let (target, d) ← d.addMatrix t
      let d := d.emit line (.copyMatrix depth target) [t] (some t)
      .ok { d with sources := d.sources.set i none }

def detach (line : Nat) (d : SplitDraft) (number : Nat) : Except Error SplitDraft :=
  (List.range d.sources.length).foldlM (detachPlace line number) d

def read (o : CompileOptions) (line : Nat) (d : SplitDraft) (name : String) :
    Except Error SplitDraft :=
  match d.rest.vars.get? name with
  | none => .error (.unknownVariable name)
  | some v =>
      if v.type.isVoid then .error (.untypedRead line name)
      else do
        let (l, d) ← d.allocate v
        (d.emit line (Draft.loadOpcode (Draft.elementKind v.type) l) [] (some v.type)).push
          o.maxStackDepth line v.type (Draft.matrixNumber? l)

def const (o : CompileOptions) (line : Nat) (d : SplitDraft) (typeName : Option String)
    (literal : String) : Except Error SplitDraft := do
  let k ← Draft.literalKind o line typeName
  match Scalar.read? k literal.toList with
  | none => .error (.badLiteral line literal k)
  | some x =>
      let offset := d.rest.constants.size % offsetLimit
      let d := { d with
        rest := { d.rest with
          constants := d.rest.constants ++ x.bytes.toArray
          literals := (offset, ⟨literal, typeName⟩) :: d.rest.literals } }
      (d.emit line (.loadConstant offset k) [] (some (.scalar k))).push
        o.maxStackDepth line (.scalar k) none

def convertForWrite (line : Nat) (name : String) (source target : DataType) (d : SplitDraft) :
    Except Error SplitDraft :=
  if source = target then .ok d
  else match source, target with
    | .scalar j, .scalar k => .ok (d.emit line (.cast j k 0 true) [source] (some target))
    | _, _ => .error (.incompatibleWrite line source name target)

def detachTarget (line : Nat) (d : SplitDraft) : Location → Except Error SplitDraft
  | .matrix number => d.detach line number
  | _ => .ok d

def write (line : Nat) (d : SplitDraft) (name : String) : Except Error SplitDraft :=
  match d.pop? with
  | none => .error (.nothingToWrite line name)
  | some (t, _, d) =>
      match d.rest.vars.get? name with
      | none => .error (.unknownVariable name)
      | some v => do
          let v ← Draft.inferType v t
          let d := { d with rest := { d.rest with vars := d.rest.vars.set v } }
          let (l, d) ← d.allocate v
          let d ← convertForWrite line name t v.type d
          let d ← detachTarget line d l
          .ok (d.emit line (Draft.storeOpcode (Draft.elementKind v.type) l) [v.type] none)

def cast (o : CompileOptions) (line : Nat) (d : SplitDraft) (typeName : String) :
    Except Error SplitDraft :=
  match DataType.read typeName with
  | .error _ => .error (.unknownTypeAt line typeName)
  | .ok t =>
      match d.pop? with
      | none => .error (.nothingToCast line typeName)
      | some (s, source, d) =>
          if s.convertsTo t then
            let opcode := .cast (Draft.elementKind s) (Draft.elementKind t) 0 false
            (d.emitSpelled line opcode [s] (some t) typeName).push o.maxStackDepth line t source
          else .error (.unsupportedCast line s t)

def widen (line : Nat) (d : SplitDraft) (w : Widening) : SplitDraft :=
  let d := d.emit line (.cast w.source w.target w.depth true) [.scalar w.source]
    (some (.scalar w.target))
  { d with types := d.types.set (d.types.length - 1 - w.depth) (.scalar w.target) }

def operationOpcode (d : SplitDraft) (r : Resolution) : Except Error (Opcode × SplitDraft) :=
  match r.operation with
  | .scalar kernel k => .ok (.scalar kernel k, d)
  | .matrix op => (d.addMatrix r.output).map fun (target, d) => (.matrix op target, d)

def operator (o : CompileOptions) (line : Nat) (d : SplitDraft) (name : String) :
    Except Error SplitDraft :=
  match Kernel.ofName? name with
  | none => .error (.unknownOpcode line name)
  | some kernel =>
      if d.types.length < kernel.arity then
        .error (.operandsMissing line name kernel.arity d.types.length)
      else do
        let base := d.types.length - kernel.arity
        let operands := d.types.drop base
        let r ← (kernel.resolve o.implicitCasts operands).mapError
          (Draft.ofResolveError line name operands)
        let d := r.widenings.foldl (widen line) d
        let (opcode, d) ← d.operationOpcode r
        let d := if name = opcode.name then d.emit line opcode r.inputs (some r.output)
          else d.emitSpelled line opcode r.inputs (some r.output) name
        (d.truncate base).push o.maxStackDepth line r.output none

def instruction (o : CompileOptions) (line : Nat) (d : SplitDraft) :
    Postfix.Instruction → Except Error SplitDraft
  | .read name => read o line d name
  | .write name => write line d name
  | .const typeName literal => const o line d typeName literal
  | .cast typeName => cast o line d typeName
  | .operator name => operator o line d name

def line (o : CompileOptions) (d : SplitDraft) (l : Nat × Except Error Postfix.Instruction) :
    Except Error SplitDraft := do
  let i ← l.2
  instruction o (l.1 % lineLimit) d i

def allocateUnused (d : SplitDraft) (name : String) : Except Error SplitDraft :=
  match d.rest.vars.get? name with
  | none => .ok d
  | some v =>
      if v.type.isVoid then .error (.untyped name)
      else (d.allocate v).map Prod.snd

def sizes (d : SplitDraft) : Sizes :=
  ⟨d.rest.constants.size, d.rest.variablesSize, d.bytecode.code.size, d.rest.maxDepth⟩

def finish (d : SplitDraft) : Except Error (Program × Bytecode) :=
  if d.bytecode.code.size = 0 then .error .emptyProgram
  else if d.types ≠ [] then .error (.valuesLeft d.types)
  else ((Draft.names d.rest.vars).foldlM allocateUnused d).map fun d =>
    (⟨d.rest.vars, d.rest.constants, d.rest.literals, #[], d.rest.matrices, d.rest.bindings,
      d.sizes⟩, d.bytecode)

end SplitDraft

def compileSplit (text : String) (vs : Variables) (o : CompileOptions) :
    Except Error (Program × Bytecode) :=
  ((Postfix.instructions text).foldlM (SplitDraft.line o) (.start vs)).bind SplitDraft.finish

end FormulaMachine
