import FormulaMachine.CommandLine.Arguments
import FormulaMachine.CommandLine.FileTree
import FormulaMachine.Compiler.Draft
import FormulaMachine.Infix.Code

namespace FormulaMachine.CommandLine

structure Surroundings where
  file : String → Except FileError String
  standardInput : String

structure Output where
  text : String
  error : Option String
  deriving DecidableEq, Repr

def readFile (s : Surroundings) (path : String) : Except String String :=
  (s.file path).mapError fun e => s!"{path}: " ++ e.message

def readSource (s : Surroundings) : Source → Except String String
  | .text t => .ok t
  | .file path => readFile s path
  | .standardInput => .ok s.standardInput

def markError (text : String) (e : Infix.SyntaxError) : String :=
  let start := e.start.toNat
  let marks := max e.stop.toNat (start + 1) - start
  let shown := String.ofList (Text.trimEnd text.toList)
  let blanks := String.ofList (List.replicate start ' ')
  let carets := String.ofList (List.replicate marks '^')
  s!"syntax error ({e.cause.code}):\n    {shown}\n    {blanks}{carets}"

def formulasToPostfix [Infix.Lexicon] (text : String) : Except String String :=
  (Infix.toPostfix text).mapError (markError text)

def readOptions [Json.Reader] (s : Surroundings) : Option String → Except String CompileOptions
  | none => .ok .default
  | some path => do
      let text ← readFile s path
      (CompileOptions.read text).mapError Error.message

def bindAll (vs : Variables) (bindings : List Binding) : Except Error Variables :=
  bindings.foldlM (fun vs b => vs.bind b.name b.type none) vs

def buildProgram [Infix.Lexicon] [Json.Reader] (s : Surroundings) (b : Build) :
    Except String Program := do
  let text ← readSource s b.source
  let code ← if b.postfixSource then .ok text else formulasToPostfix text
  let vs ← (Variables.discover code).mapError Error.message
  let vs ← (bindAll vs b.bindings).mapError Error.message
  let o ← readOptions s b.config
  (compile code vs o).mapError Error.message

def setInitial (p : Program) (s : Store) (b : Binding) : Except Error Store :=
  match b.initial with
  | none => .ok s
  | some (.scalar v) => p.setValue s b.name v
  | some (.matrix xs) =>
      match p.setMatrix s b.name xs with
      | (s, none) => .ok s
      | (_, some e) => .error e

def iterate (p : Program) (mode : Mode) (written : String) : Nat → Store → String × Outcome
  | 0, s => (written, ⟨s, none⟩)
  | times + 1, s =>
      match p.execute mode s (some .unlimited) with
      | (⟨s, none⟩, sink) =>
          iterate p mode (written ++ (sink.map Sink.received).getD "") times s
      | (⟨s, some e⟩, _) => (written, ⟨s, some e⟩)

def outputLine (p : Program) (s : Store) (v : Variable) : Except Error String :=
  if v.type.isMatrix then
    (p.matrix s v.name).map fun xs =>
      s!"{v.name} = [" ++ ", ".intercalate (xs.map Scalar.text) ++ "]\n"
  else (p.value s v.name).map fun x => s!"{v.name} = " ++ x.scalar.text ++ "\n"

def listProgram (p : Program) (types : Bool) : String :=
  p.decompile types ++ s!"\nconstants:       {p.sizes.constantBytes} bytes\n" ++
    s!"variables:       {p.sizes.variableBytes} bytes\n" ++
    s!"code:            {p.sizes.instructions} instructions\n" ++
    s!"max stack depth: {p.sizes.maxStackDepth}\n"

def failed (written : String) (e : String) : Output := ⟨written, some e⟩

def writeLines (written : String) : List (Except Error String) → Output
  | [] => ⟨written, none⟩
  | .ok l :: ls => writeLines (written ++ l) ls
  | .error e :: _ => failed written e.message

def runProgram (p : Program) (bindings : List Binding) (mode : Mode) (iterations : Nat) :
    Output :=
  match bindings.foldlM (setInitial p) ⟨p.newOwned, #[]⟩ with
  | .error e => failed "" e.message
  | .ok s =>
      match iterate p mode "" iterations s with
      | (written, ⟨_, some e⟩) => failed written e.message
      | (written, ⟨s, none⟩) => writeLines written (p.vars.outputs.map (outputLine p s))

def Command.execute [Infix.Lexicon] [Json.Reader] (s : Surroundings) : Command → Output
  | .translate source =>
      match (readSource s source).bind formulasToPostfix with
      | .error e => failed "" e
      | .ok text => ⟨text, none⟩
  | .inspect build types =>
      match buildProgram s build with
      | .error e => failed "" e
      | .ok p => ⟨listProgram p types, none⟩
  | .run build mode iterations =>
      match buildProgram s build with
      | .error e => failed "" e
      | .ok p => runProgram p build.bindings mode iterations

def Command.source : Command → Source
  | .translate source => source
  | .inspect build _ | .run build _ _ => build.source

def Command.readsInput (c : Command) : Bool :=
  c.source == .standardInput

def Source.files : Source → List String
  | .file path => [path]
  | .text _ | .standardInput => []

def Command.files : Command → List String
  | .translate source => source.files
  | .inspect build _ | .run build _ _ => build.source.files ++ build.config.toList

end FormulaMachine.CommandLine
