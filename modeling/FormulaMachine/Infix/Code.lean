import FormulaMachine.Infix.Lexer
import FormulaMachine.Infix.Translator

namespace FormulaMachine.Infix

def endOfTokens (ts : List Located) : Nat :=
  (ts.getLast?.map Located.stop).getD 0

def Failure.error (ts : List Located) : Failure → SyntaxError
  | .unexpected (t :: _) => .between t.start t.stop .unrecognizedToken
  | .extra (t :: _) => .between t.start t.stop .extraToken
  | .unexpected [] | .extra [] =>
      .between (endOfTokens ts) (endOfTokens ts + 1) .unrecognizedEnd

def emit (ts : List Located) : Except SyntaxError Emitter :=
  if ts = [] then .error (.between 0 0 .emptyEquation)
  else (emitProgram .new ts).mapError (Failure.error ts)

variable [Lexicon]

def emitText (text : String) : Except SyntaxError Emitter :=
  match lex text with
  | .error e => .error e
  | .ok ts => emit ts

def toPostfix (text : String) : Except SyntaxError String :=
  (emitText text).map Emitter.output

end FormulaMachine.Infix
