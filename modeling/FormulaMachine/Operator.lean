import FormulaMachine.DataType
import FormulaMachine.Scalar.Arithmetic

namespace FormulaMachine

inductive Kernel where
  | arithmetic (op : Arithmetic)
  | comparison (op : Comparison)
  | connective (op : Connective)
  | unary (op : UnaryOp)
  deriving DecidableEq, Repr

inductive MatrixOp where
  | sum
  | sub
  | product
  | scaleLeft
  | scaleRight
  deriving DecidableEq, Repr

def Arithmetic.name : Arithmetic → String
  | .sum => "SUM"
  | .sub => "SUB"
  | .mul => "MUL"
  | .div => "DIV"
  | .pow => "POW"
  | .min => "MIN"
  | .max => "MAX"

def Comparison.name : Comparison → String
  | .eq => "EQ"
  | .neq => "NEQ"
  | .gt => "GT"
  | .lt => "LT"
  | .gte => "GTE"
  | .lte => "LTE"

def Connective.name : Connective → String
  | .and => "AND"
  | .or => "OR"
  | .xor => "XOR"

def RealFunction.name : RealFunction → String
  | .sin => "SIN"
  | .cos => "COS"
  | .tan => "TAN"
  | .asin => "ASIN"
  | .acos => "ACOS"
  | .atan => "ATAN"
  | .exp => "EXP"
  | .log => "LOG"
  | .log10 => "LOG10"
  | .sqrt => "SQRT"

def UnaryOp.name : UnaryOp → String
  | .neg => "NEG"
  | .not => "NOT"
  | .abs => "ABS"
  | .fact => "FACT"
  | .real f => f.name

def MatrixOp.name : MatrixOp → String
  | .sum => "SUM"
  | .sub => "SUB"
  | .product | .scaleLeft | .scaleRight => "MUL"

namespace Kernel

def name : Kernel → String
  | .arithmetic op => op.name
  | .comparison op => op.name
  | .connective op => op.name
  | .unary op => op.name

def arity : Kernel → Nat
  | .unary _ => 1
  | _ => 2

def all : List Kernel :=
  [.arithmetic .sum, .arithmetic .sub, .arithmetic .mul, .arithmetic .div, .arithmetic .pow,
    .arithmetic .min, .arithmetic .max,
    .comparison .eq, .comparison .neq, .comparison .gt, .comparison .lt, .comparison .gte,
    .comparison .lte,
    .connective .and, .connective .or, .connective .xor,
    .unary .neg, .unary .not, .unary .abs, .unary .fact,
    .unary (.real .sin), .unary (.real .cos), .unary (.real .tan), .unary (.real .asin),
    .unary (.real .acos), .unary (.real .atan), .unary (.real .exp), .unary (.real .log),
    .unary (.real .log10), .unary (.real .sqrt)]

def ofName? (name : String) : Option Kernel :=
  if name = "ADD" then some (.arithmetic .sum) else all.find? (·.name == name)

def kinds : Kernel → List Kind
  | .arithmetic .pow => [.float32, .float64]
  | .arithmetic _ => Kind.all.filter Kind.isNumeric
  | .comparison _ | .connective _ | .unary .not => Kind.all
  | .unary .neg | .unary .abs => Kind.all.filter Kind.isSigned
  | .unary .fact => Kind.all.filter Kind.isInteger
  | .unary (.real _) => [.float32, .float64]

def resultKind : Kernel → Kind → Kind
  | .arithmetic _, k => k
  | .comparison _, _ | .connective _, _ => .bool
  | .unary op, k => op.resultKind k

end Kernel

structure Widening where
  depth : Nat
  source : Kind
  target : Kind
  deriving DecidableEq, Repr

inductive Operation where
  | scalar (kernel : Kernel) (k : Kind)
  | matrix (op : MatrixOp)
  deriving DecidableEq, Repr

structure Resolution where
  operation : Operation
  widenings : List Widening
  inputs : List DataType
  output : DataType
  deriving DecidableEq, Repr

inductive ResolveError where
  | unsupported
  | mismatchedDimensions
  deriving DecidableEq, Repr

namespace Resolution

structure Score where
  casts : Nat
  cost : Nat
  deriving DecidableEq, Repr

def Score.less (a b : Score) : Bool :=
  a.casts < b.casts || (a.casts == b.casts && a.cost < b.cost)

def score? (implicitCasts : Bool) (target : Kind) : List Kind → Option Score
  | [] => some ⟨0, 0⟩
  | k :: ks =>
      match score? implicitCasts target ks with
      | none => none
      | some s =>
          if k = target then some s
          else if implicitCasts then
            (k.wideningCost? target).map fun c => ⟨s.casts + 1, s.cost + c⟩
          else none

def better (best : Option (Score × Kind)) (candidate : Score × Kind) : Option (Score × Kind) :=
  match best with
  | none => some candidate
  | some b => if candidate.1.less b.1 then some candidate else some b

def chooseKind? (implicitCasts : Bool) (targets operands : List Kind) : Option Kind :=
  let candidates := targets.filterMap fun k =>
    (score? implicitCasts k operands).map fun s => (s, k)
  (candidates.foldl better none).map Prod.snd

def wideningsTo (target : Kind) : List Kind → List Widening
  | [] => []
  | k :: ks =>
      if k = target then wideningsTo target ks
      else ⟨ks.length, k, target⟩ :: wideningsTo target ks

def ofScalars (kernel : Kernel) (implicitCasts : Bool) (operands : List Kind) :
    Except ResolveError Resolution :=
  match chooseKind? implicitCasts kernel.kinds operands with
  | none => .error .unsupported
  | some k => .ok {
      operation := .scalar kernel k
      widenings := wideningsTo k operands
      inputs := operands.map fun _ => .scalar k
      output := .scalar (kernel.resultKind k) }

def ofSameShape (op : MatrixOp) (a b : DataType) (k j : Kind) : Except ResolveError Resolution :=
  if !k.isFloat || k != j then .error .unsupported
  else if a.dims ≠ b.dims then .error .mismatchedDimensions
  else .ok ⟨.matrix op, [], [a, b], a⟩

def ofProduct (a b : DataType) (k j : Kind) : Except ResolveError Resolution :=
  if !k.isFloat || k != j then .error .unsupported
  else if a.dims.2 ≠ b.dims.1 then .error .mismatchedDimensions
  else .ok ⟨.matrix .product, [], [a, b], .matrix k a.dims.1 b.dims.2⟩

def scaleWidening? (implicitCasts : Bool) (depth : Nat) (s k : Kind) : Option (List Widening) :=
  if !k.isFloat then none
  else if s = k then some []
  else if implicitCasts then (s.wideningCost? k).map fun _ => [⟨depth, s, k⟩]
  else none

def ofScale (op : MatrixOp) (m : DataType) (inputs : List DataType) :
    Option (List Widening) → Except ResolveError Resolution
  | none => .error .unsupported
  | some ws => .ok ⟨.matrix op, ws, inputs, m⟩

def ofMatrices (kernel : Kernel) (implicitCasts : Bool) (operands : List DataType) :
    Except ResolveError Resolution :=
  match kernel, operands with
  | .arithmetic .sum, [.matrix k r c, .matrix j r' c'] =>
      ofSameShape .sum (.matrix k r c) (.matrix j r' c') k j
  | .arithmetic .sub, [.matrix k r c, .matrix j r' c'] =>
      ofSameShape .sub (.matrix k r c) (.matrix j r' c') k j
  | .arithmetic .mul, [.matrix k r c, .matrix j r' c'] =>
      ofProduct (.matrix k r c) (.matrix j r' c') k j
  | .arithmetic .mul, [.scalar s, .matrix k r c] =>
      ofScale .scaleLeft (.matrix k r c) [.scalar k, .matrix k r c]
        (scaleWidening? implicitCasts 1 s k)
  | .arithmetic .mul, [.matrix k r c, .scalar s] =>
      ofScale .scaleRight (.matrix k r c) [.matrix k r c, .scalar k]
        (scaleWidening? implicitCasts 0 s k)
  | _, _ => .error .unsupported

end Resolution

def Kernel.resolve (kernel : Kernel) (implicitCasts : Bool) (operands : List DataType) :
    Except ResolveError Resolution :=
  if operands.any DataType.isMatrix then Resolution.ofMatrices kernel implicitCasts operands
  else match operands.mapM DataType.kind? with
    | some kinds => Resolution.ofScalars kernel implicitCasts kinds
    | none => .error .unsupported

end FormulaMachine
