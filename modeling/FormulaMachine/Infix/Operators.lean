import FormulaMachine.Infix.Token

namespace FormulaMachine.Infix

inductive Level where
  | logical
  | comparison
  | additive
  | multiplicative
  deriving DecidableEq, Repr

def Level.all : List Level :=
  [.logical, .comparison, .additive, .multiplicative]

inductive BinaryOp where
  | and
  | or
  | xor
  | gt
  | lt
  | gte
  | lte
  | eq
  | neq
  | plus
  | minus
  | times
  | divide
  deriving DecidableEq, Repr

namespace BinaryOp

def level : BinaryOp → Level
  | .and | .or | .xor => .logical
  | .gt | .lt | .gte | .lte | .eq | .neq => .comparison
  | .plus | .minus => .additive
  | .times | .divide => .multiplicative

def ofToken? : Token → Option BinaryOp
  | .and => some .and
  | .or => some .or
  | .xor => some .xor
  | .gt => some .gt
  | .lt => some .lt
  | .gte => some .gte
  | .lte => some .lte
  | .eq => some .eq
  | .neq => some .neq
  | .plus => some .plus
  | .minus => some .minus
  | .times => some .times
  | .divide => some .divide
  | _ => none

def token : BinaryOp → Token
  | .and => .and
  | .or => .or
  | .xor => .xor
  | .gt => .gt
  | .lt => .lt
  | .gte => .gte
  | .lte => .lte
  | .eq => .eq
  | .neq => .neq
  | .plus => .plus
  | .minus => .minus
  | .times => .times
  | .divide => .divide

theorem ofToken?_token (op : BinaryOp) : ofToken? op.token = some op := by
  cases op <;> rfl

def opcode : BinaryOp → String
  | .and => "AND"
  | .or => "OR"
  | .xor => "XOR"
  | .gt => "GT"
  | .lt => "LT"
  | .gte => "GTE"
  | .lte => "LTE"
  | .eq => "EQ"
  | .neq => "NEQ"
  | .plus => "SUM"
  | .minus => "SUB"
  | .times => "MUL"
  | .divide => "DIV"

end BinaryOp

inductive Sign where
  | plus
  | minus
  | not
  deriving DecidableEq, Repr

namespace Sign

def ofToken? : Token → Option Sign
  | .plus => some .plus
  | .minus => some .minus
  | .not => some .not
  | _ => none

def token : Sign → Token
  | .plus => .plus
  | .minus => .minus
  | .not => .not

end Sign

end FormulaMachine.Infix
