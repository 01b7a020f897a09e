import FormulaMachine.CommandLine.Binding
import FormulaMachine.Machine.Run

namespace FormulaMachine.CommandLine

inductive Refusal where
  | usage
  | badValue (message : String)
  deriving DecidableEq, Repr

inductive CommandName where
  | translate
  | inspect
  | run
  deriving DecidableEq, Repr

def CommandName.ofString? : String → Option CommandName
  | "translate" => some .translate
  | "inspect" => some .inspect
  | "run" => some .run
  | _ => none

inductive ValueOption where
  | file
  | var
  | config
  | mode
  | iterations
  deriving DecidableEq, Repr

inductive Flag where
  | verbose
  | postfixSource
  | types
  deriving DecidableEq, Repr

inductive OptionName where
  | value (o : ValueOption)
  | flag (f : Flag)
  deriving DecidableEq, Repr

def longOption? (c : CommandName) (name : String) : Option OptionName :=
  match name, c with
  | "verbose", _ => some (.flag .verbose)
  | "file", _ => some (.value .file)
  | "postfix", .inspect | "postfix", .run => some (.flag .postfixSource)
  | "var", .inspect | "var", .run => some (.value .var)
  | "config", .inspect | "config", .run => some (.value .config)
  | "types", .inspect => some (.flag .types)
  | "mode", .run => some (.value .mode)
  | "iterations", .run => some (.value .iterations)
  | _, _ => none

def shortOption? : Char → Option OptionName
  | 'v' => some (.flag .verbose)
  | 'f' => some (.value .file)
  | _ => none

structure Given where
  expr : Option String
  flags : List Flag
  file : Option String
  vars : List Binding
  config : Option String
  mode : Option Mode
  iterations : Option Nat
  pending : Option (ValueOption × Option String)
  deriving DecidableEq, Repr

namespace Given

def nothing : Given := ⟨none, [], none, [], none, none, none, none⟩

def once {α : Type} (present : Option α) (value : Except Refusal α) : Except Refusal (Option α) :=
  match present with
  | some _ => .error .usage
  | none => value.map some

def path (text : String) : Except Refusal String :=
  if text = "" then .error .usage else .ok text

def dropPlus : List Char → List Char
  | '+' :: cs => cs
  | cs => cs

def count (text : String) : Except Refusal Nat :=
  let cs := dropPlus text.toList
  let digits := cs.takeWhile Char.isDigit
  let n := Text.digitsValue digits
  if text = "" then .error (.badValue "cannot parse integer from empty string")
  else if 1 <<< 64 ≤ n then .error (.badValue "number too large to fit in target type")
  else if digits = [] ∨ digits.length < cs.length then
    .error (.badValue "invalid digit found in string")
  else .ok n

def setValue (g : Given) (o : ValueOption) (text : String) : Except Refusal Given :=
  match o with
  | .file => (once g.file (path text)).map fun x => { g with file := x }
  | .config => (once g.config (path text)).map fun x => { g with config := x }
  | .mode =>
      (once g.mode ((Mode.parse text).mapError fun e => .badValue e.message)).map fun x =>
        { g with mode := x }
  | .iterations => (once g.iterations (count text)).map fun x => { g with iterations := x }
  | .var =>
      ((Binding.read text).mapError .badValue).map fun b => { g with vars := g.vars ++ [b] }

def resolve (g : Given) : Except Refusal Given :=
  match g.pending with
  | none => .ok g
  | some (_, none) => .error .usage
  | some (o, some text) => { g with pending := none }.setValue o text

def setFlag (g : Given) (f : Flag) : Except Refusal Given := do
  let g ← g.resolve
  if g.flags.contains f then .error .usage else .ok { g with flags := f :: g.flags }

def startOption (g : Given) (o : ValueOption) (attached : Option String) :
    Except Refusal Given := do
  let g ← g.resolve
  match attached with
  | some text => g.setValue o text
  | none => .ok { g with pending := some (o, none) }

def setExpr (g : Given) (text : String) : Except Refusal Given :=
  match g.expr with
  | some _ => .error .usage
  | none => g.resolve.map fun g => { g with expr := some text }

def plain (g : Given) (text : String) : Except Refusal Given :=
  match g.pending with
  | some (o, none) => .ok { g with pending := some (o, some text) }
  | _ => g.setExpr text

def long (c : CommandName) (g : Given) (cs : List Char) : Except Refusal Given :=
  let (name, attached) := match splitOnce '=' cs with
    | some (name, value) => (name, some (String.ofList value))
    | none => (cs, none)
  match longOption? c (String.ofList name), attached with
  | some (.value o), attached => g.startOption o attached
  | some (.flag f), none => g.setFlag f
  | some (.flag _), some _ => .error .usage
  | none, none =>
      if name = "help".toList then g.resolve.bind fun _ => .error .usage else .error .usage
  | none, some _ => .error .usage

def attachedValue? : List Char → Option String
  | [] => none
  | '=' :: cs => some (String.ofList cs)
  | cs => some (String.ofList cs)

def short (g : Given) : List Char → Except Refusal Given
  | [] => .ok g
  | c :: cs =>
      match shortOption? c with
      | some (.flag f) => do (← g.setFlag f).short cs
      | some (.value o) => g.startOption o (attachedValue? cs)
      | none => if c = 'h' then g.resolve.bind fun _ => .error .usage else .error .usage

def readAll (c : CommandName) (g : Given) : List String → Except Refusal Given
  | [] => g.resolve
  | "--" :: args => args.foldlM setExpr g >>= resolve
  | arg :: args =>
      (match arg.toList with
        | '-' :: '-' :: cs => g.long c cs
        | '-' :: d :: cs => g.short (d :: cs)
        | _ => g.plain arg) >>= fun g => g.readAll c args

end Given

inductive Source where
  | text (s : String)
  | file (name : String)
  | standardInput
  deriving DecidableEq, Repr

structure Build where
  source : Source
  postfixSource : Bool
  bindings : List Binding
  config : Option String
  deriving DecidableEq, Repr

inductive Command where
  | translate (source : Source)
  | inspect (build : Build) (types : Bool)
  | run (build : Build) (mode : Mode) (iterations : Nat)
  deriving DecidableEq, Repr

namespace Given

def source (g : Given) : Source :=
  match g.expr, g.file with
  | some s, _ => .text s
  | none, some name => .file name
  | none, none => .standardInput

def build (g : Given) : Build :=
  ⟨g.source, g.flags.contains .postfixSource, g.vars, g.config⟩

def command (g : Given) : CommandName → Command
  | .translate => .translate g.source
  | .inspect => .inspect g.build (g.flags.contains .types)
  | .run => .run g.build (g.mode.getD .fast) (g.iterations.getD 1)

end Given

def readCommand (verbose : Bool) : List String → Except Refusal Command
  | [] => .error .usage
  | arg :: args =>
      if arg = "-v" ∨ arg = "--verbose" then
        if verbose then .error .usage else readCommand true args
      else match CommandName.ofString? arg with
        | some c => (Given.nothing.readAll c args).map fun g => g.command c
        | none => .error .usage

class ArgumentReader where
  command : Bool → List String → Except Refusal Command

instance argumentReader : ArgumentReader where
  command := readCommand

def Command.read [ArgumentReader] (verbose : Bool) (args : List String) :
    Except Refusal Command :=
  ArgumentReader.command verbose args

end FormulaMachine.CommandLine
