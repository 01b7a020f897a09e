import FormulaMachine.Infix.Operators
import FormulaMachine.Postfix.Instruction
import FormulaMachine.Text.Uppercase

namespace FormulaMachine.Infix

namespace Sign

-- A plus sign does nothing.
def code : Sign → List Postfix.Instruction
  | .plus => []
  | .minus => [.operator "NEG"]
  | .not => [.operator "NOT"]

end Sign

mutual

inductive Expr where
  | name (x : String)
  | number (literal : String)
  | castNumber (typeName literal : String)
  | cast (typeName : String) (e : Expr)
  | signed (s : Sign) (e : Expr)
  | binary (op : BinaryOp) (l r : Expr)
  | group (e : Expr)
  | call (f : String) (args : Args)
  deriving DecidableEq

inductive Args where
  | last (e : Expr)
  | more (e : Expr) (rest : Args)
  deriving DecidableEq

end

mutual

def Expr.code : Expr → List Postfix.Instruction
  | .name x => [.read x]
  | .number literal => [.const none literal]
  | .castNumber typeName literal => [.const (some typeName) literal]
  | .cast typeName e => e.code ++ [.cast typeName]
  | .signed s e => e.code ++ s.code
  | .binary op l r => l.code ++ r.code ++ [.operator op.opcode]
  | .group e => e.code
  | .call f args => args.code ++ [.operator (Text.uppercase f)]

def Args.code : Args → List Postfix.Instruction
  | .last e => e.code
  | .more e rest => e.code ++ rest.code

end

def Args.length : Args → Nat
  | .last _ => 1
  | .more _ rest => rest.length + 1

inductive Closer where
  | semicolon
  | comma
  deriving DecidableEq, Repr

structure Assignment where
  target : String
  value : Expr
  closer : Closer
  deriving DecidableEq

def Assignment.code (a : Assignment) : List Postfix.Instruction :=
  a.value.code ++ [.write a.target]

def programCode (as : List Assignment) : List Postfix.Instruction :=
  as.flatMap Assignment.code

end FormulaMachine.Infix
