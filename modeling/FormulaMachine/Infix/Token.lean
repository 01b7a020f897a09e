namespace FormulaMachine.Infix

inductive Token where
  | assign
  | eq
  | neq
  | not
  | lt
  | lte
  | gt
  | gte
  | and
  | or
  | xor
  | plus
  | minus
  | times
  | divide
  | openParen
  | closeParen
  | comma
  | semicolon
  | ident (name : String)
  | number (text : String)
  deriving DecidableEq, Repr

structure Located where
  token : Token
  start : Nat
  stop : Nat
  deriving DecidableEq, Repr

inductive SyntaxCause where
  | invalidToken
  | unrecognizedEnd
  | unrecognizedToken
  | extraToken
  | unclosedComment
  | unclosedQuote
  | emptyEquation
  deriving DecidableEq, Repr

structure SyntaxError where
  start : BitVec 16
  stop : BitVec 16
  cause : SyntaxCause
  deriving DecidableEq, Repr

def SyntaxError.between (start stop : Nat) (cause : SyntaxCause) : SyntaxError :=
  ⟨.ofNat 16 start, .ofNat 16 stop, cause⟩

end FormulaMachine.Infix
