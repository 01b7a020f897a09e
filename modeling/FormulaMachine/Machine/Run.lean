import FormulaMachine.Machine.Trace

namespace FormulaMachine

inductive Mode where
  | fast
  | safe
  | debug
  deriving DecidableEq, Repr

namespace Mode

def name : Mode → String
  | .fast => "fast"
  | .safe => "safe"
  | .debug => "debug"

def all : List Mode := [.fast, .safe, .debug]

def parse (name : String) : Except Error Mode :=
  match all.find? (·.name == name) with
  | some m => .ok m
  | none => .error (.unknownMode name)

end Mode

structure Outcome where
  store : Store
  stopped : Option Error
  deriving DecidableEq, Repr

structure TracedOutcome where
  outcome : Outcome
  sink : Sink
  deriving DecidableEq, Repr

namespace Program

def faultAt (position : Nat) (e : Entry) (f : Fault) : Error :=
  .instructionFault position e.opcode.name f

def runFrom (p : Program) (checked : Bool) (position : Nat) (st : State) :
    List Entry → Outcome
  | [] => ⟨st.store, none⟩
  | e :: entries =>
      match p.step checked e.opcode st with
      | .error f => ⟨st.store, some (faultAt position e f)⟩
      | .ok st => p.runFrom checked (position + 1) st entries

def refused (s : Store) (sink : Sink) : TracedOutcome :=
  ⟨⟨s, some .traceRefused⟩, sink⟩

-- Runs entries and writes a trace. The operands of an instruction are written before it is done,
-- and what it leaves after, so a sink that refuses the operands keeps it from being done.
def traceFrom (p : Program) (position : Nat) (st : State) (sink : Sink) :
    List Entry → TracedOutcome
  | [] =>
      match sink.write (p.traceEnd st) with
      | (sink, false) => refused st.store sink
      | (sink, true) => ⟨⟨st.store, none⟩, sink⟩
  | e :: entries =>
      match sink.write (p.traceBefore position e st) with
      | (sink, false) => refused st.store sink
      | (sink, true) =>
          match p.step true e.opcode st with
          | .error f =>
              match sink.write traceFault with
              | (sink, false) => refused st.store sink
              | (sink, true) => ⟨⟨st.store, some (faultAt position e f)⟩, sink⟩
          | .ok st =>
              match sink.write (p.traceAfter e st) with
              | (sink, false) => refused st.store sink
              | (sink, true) => p.traceFrom (position + 1) st sink entries

def run (p : Program) (checked : Bool) (s : Store) : Outcome :=
  p.runFrom checked 0 ⟨s, .empty⟩ p.code.toList

def trace (p : Program) (s : Store) (sink : Sink) : TracedOutcome :=
  match sink.write traceHeader with
  | (sink, false) => refused s sink
  | (sink, true) => p.traceFrom 0 ⟨s, .empty⟩ sink p.code.toList

def execute (p : Program) (mode : Mode) (s : Store) (sink : Option Sink) :
    Outcome × Option Sink :=
  match mode with
  | .fast => (p.run false s, sink)
  | .safe => (p.run true s, sink)
  | .debug =>
      match sink with
      | none => (⟨s, some .missingSink⟩, none)
      | some sink =>
          let t := p.trace s sink
          (t.outcome, some t.sink)

def executeTimes (p : Program) (mode : Mode) (done : Nat) :
    Nat → Store → Option Sink → Nat × Outcome × Option Sink
  | 0, s, sink => (done, ⟨s, none⟩, sink)
  | times + 1, s, sink =>
      match p.execute mode s sink with
      | (⟨s, none⟩, sink) => p.executeTimes mode (done + 1) times s sink
      | (⟨s, some e⟩, sink) => (done, ⟨s, some e⟩, sink)

end Program

end FormulaMachine
