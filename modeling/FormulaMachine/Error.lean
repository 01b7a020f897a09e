import FormulaMachine.DataType
import FormulaMachine.Infix.Token
import FormulaMachine.Scalar.Arithmetic

namespace FormulaMachine

inductive Error where
  | formula (e : Infix.SyntaxError)
  | missingName (line : Nat) (text : String)
  | unknownVariable (name : String)
  | duplicateType (name : String) (present : DataType)
  | invalidType (name : String) (t : DataType)
  | unknownTypeName (name : String)
  | malformedType (text : String)
  | notScalar (name : String) (t : DataType)
  | notMatrix (name : String) (t : DataType)
  | elementCount (name : String) (t : DataType) (count : Nat)
  | memoryTooSmall (name : String) (start stop cells : Nat)
  | doesNotFit (f : Fault) (value name : String) (k : Kind)
  | badInstruction (line : Nat) (text : String)
  | unknownTypeAt (line : Nat) (name : String)
  | badLiteral (line : Nat) (literal : String) (k : Kind)
  | unknownOpcode (line : Nat) (name : String)
  | unsupportedOperation (line : Nat) (name : String) (operands : List DataType)
  | mismatchedDimensions (line : Nat) (name : String) (operands : List DataType)
  | operandsMissing (line : Nat) (name : String) (arity depth : Nat)
  | nothingToWrite (line : Nat) (name : String)
  | nothingToCast (line : Nat) (typeName : String)
  | unsupportedCast (line : Nat) (source target : DataType)
  | incompatibleWrite (line : Nat) (source : DataType) (name : String) (target : DataType)
  | untypedRead (line : Nat) (name : String)
  | untyped (name : String)
  | valuesLeft (types : List DataType)
  | depthExceeded (line depth limit : Nat)
  | copyOutOfReach (line : Nat)
  | emptyProgram
  | tooManyMatrices
  | tooManyBindings
  | variableAreaFull (name : String)
  | badOptions
  | instructionFault (position : Nat) (opcode : String) (f : Fault)
  | missingSink
  | traceRefused
  | unknownMode (name : String)
  deriving DecidableEq, Repr

def Fault.code : Fault → String
  | .stackOverflow => "stack_overflow"
  | .stackUnderflow => "stack_underflow"
  | .integerOverflow => "integer_overflow"
  | .divideByZero => "divide_by_zero"
  | .notFinite => "not_finite"
  | .outOfRange => "out_of_range"
  | .badOperand => "unsupported_operation"

namespace Infix

def SyntaxCause.code : SyntaxCause → String
  | .invalidToken => "invalid_token"
  | .unrecognizedEnd => "unrecognized_eof"
  | .unrecognizedToken => "unrecognized_token"
  | .extraToken => "extra_token"
  | .unclosedComment => "unclosed_comment"
  | .unclosedQuote => "unclosed_quoted_ident"
  | .emptyEquation => "empty_equation"

def SyntaxError.text (e : SyntaxError) : String :=
  s!"{e.start.toNat}:{e.stop.toNat}:{e.cause.code}"

end Infix

namespace Error

def category : Error → String
  | .formula _ => "SyntaxError"
  | .missingName .. | .unknownVariable _ | .duplicateType .. | .invalidType .. |
    .unknownTypeName _ | .malformedType _ | .notScalar .. | .notMatrix .. | .elementCount .. |
    .memoryTooSmall .. | .doesNotFit .. => "VariableError"
  | .badInstruction .. | .unknownTypeAt .. | .badLiteral .. | .unknownOpcode .. |
    .unsupportedOperation .. | .mismatchedDimensions .. | .operandsMissing .. |
    .nothingToWrite .. | .nothingToCast .. | .unsupportedCast .. | .incompatibleWrite .. |
    .untypedRead .. | .untyped _ | .valuesLeft _ | .depthExceeded .. | .copyOutOfReach _ |
    .emptyProgram | .tooManyMatrices | .tooManyBindings | .variableAreaFull _ |
    .badOptions => "CompileError"
  | .instructionFault .. | .missingSink | .traceRefused | .unknownMode _ => "RuntimeError"

def code : Error → String
  | .formula e => e.cause.code
  | .missingName .. => "missing_name"
  | .unknownVariable _ => "unknown_variable"
  | .duplicateType .. => "duplicate_type_binding"
  | .invalidType .. | .unknownTypeName _ | .malformedType _ | .notScalar .. | .notMatrix .. |
    .unknownTypeAt .. => "bad_type"
  | .elementCount .. | .mismatchedDimensions .. => "mismatched_dimensions"
  | .memoryTooSmall .. => "external_memory_too_small"
  | .doesNotFit f .. | .instructionFault _ _ f => f.code
  | .badInstruction .. => "bad_instruction"
  | .badLiteral .. => "bad_literal"
  | .unknownOpcode .. => "unknown_opcode"
  | .unsupportedOperation .. => "unsupported_operation"
  | .operandsMissing .. | .nothingToWrite .. | .nothingToCast .. => "stack_underflow"
  | .unsupportedCast .. => "unsupported_cast"
  | .incompatibleWrite .. => "incompatible_write"
  | .untypedRead .. | .untyped _ => "untyped_variable"
  | .valuesLeft _ => "incomplete_sequence"
  | .depthExceeded .. | .copyOutOfReach _ => "stack_too_deep"
  | .emptyProgram => "empty_program"
  | .tooManyMatrices | .tooManyBindings | .variableAreaFull _ => "allocation_failed"
  | .badOptions => "bad_config"
  | .missingSink => "missing_debug_sink"
  | .traceRefused => "trace_write"
  | .unknownMode _ => "generic"

def typeList (types : List DataType) : String :=
  ", ".intercalate (types.map DataType.text)

def details? : Error → Option String
  | .formula e => some s!"at {e.start.toNat}..{e.stop.toNat}"
  | .missingName line text | .badInstruction line text => some s!"line {line}: {text}"
  | .unknownVariable name | .untyped name => some name
  | .duplicateType name present => some s!"{name} is already {present}"
  | .invalidType name t => some s!"{name} cannot be {t}"
  | .unknownTypeName name => some s!"unknown type name '{name}'"
  | .malformedType text => some s!"unknown type '{text}'"
  | .notScalar name t => some s!"{name} is {t}, not a scalar"
  | .notMatrix name t => some s!"{name} is {t}, not a matrix"
  | .elementCount name t count => some s!"{name} is {t}, got {count} values"
  | .memoryTooSmall name start stop cells =>
      some s!"{name} needs cells {start}..{stop} but the memory has {cells}"
  | .doesNotFit _ value name k => some s!"{value} does not fit {name}: {k}"
  | .unknownTypeAt line name => some s!"line {line}: unknown type '{name}'"
  | .badLiteral line literal k => some s!"line {line}: {literal} as {k}"
  | .unknownOpcode line name | .untypedRead line name => some s!"line {line}: {name}"
  | .unsupportedOperation line name operands | .mismatchedDimensions line name operands =>
      some s!"line {line}: {name}({typeList operands})"
  | .operandsMissing line name arity depth =>
      some s!"line {line}: {name} takes {arity} operands, {depth} on the stack"
  | .nothingToWrite line name => some s!"line {line}: WRITE {name}"
  | .nothingToCast line typeName => some s!"line {line}: CAST {typeName}"
  | .unsupportedCast line source target => some s!"line {line}: {source} to {target}"
  | .incompatibleWrite line source name target =>
      some s!"line {line}: {source} into {name}: {target}"
  | .valuesLeft types =>
      some s!"{types.length} values left on the stack: {typeList types}"
  | .depthExceeded line depth limit => some s!"line {line}: stack depth {depth} exceeds {limit}"
  | .copyOutOfReach line => some s!"line {line}: matrix copy out of reach"
  | .tooManyMatrices => some "too many matrices"
  | .tooManyBindings => some "too many external bindings"
  | .variableAreaFull name => some s!"variable area full at {name}"
  | .instructionFault position opcode f =>
      some s!"instruction {position} ({opcode}): {f.code}"
  | .unknownMode name => some s!"unknown execution mode '{name}'"
  | .emptyProgram | .badOptions | .missingSink | .traceRefused => none

def message (e : Error) : String :=
  match e.details? with
  | some details => s!"{e.category}\x7b{e.code}: {details}\x7d"
  | none => s!"{e.category}\x7b{e.code}\x7d"

def ofTypeError : TypeError → Error
  | .unknownName name => .unknownTypeName name
  | .malformed text => .malformedType text

end Error

def DataType.parse (text : String) : Except Error DataType :=
  (DataType.read text).mapError Error.ofTypeError

def Kind.parse (name : String) : Except Error Kind :=
  match Kind.ofName? name with
  | some k => .ok k
  | none => .error (.unknownTypeName name)

end FormulaMachine
