import FormulaMachine.Main
import FormulaMachine.Proofs.CommandLine.Iterations
import FormulaMachine.Proofs.Compiler.Allocation
import FormulaMachine.Proofs.Compiler.Columns
import FormulaMachine.Proofs.Compiler.Constants
import FormulaMachine.Proofs.Compiler.Declared
import FormulaMachine.Proofs.Compiler.ImplicitCasts
import FormulaMachine.Proofs.Compiler.Offsets
import FormulaMachine.Proofs.Infix.Arity
import FormulaMachine.Proofs.Infix.Concatenation
import FormulaMachine.Proofs.Infix.Lexemes
import FormulaMachine.Proofs.Infix.Literals
import FormulaMachine.Proofs.Infix.Spans
import FormulaMachine.Proofs.Infix.Swap
import FormulaMachine.Proofs.Infix.Translation
import FormulaMachine.Proofs.Machine.Agreement
import FormulaMachine.Proofs.Machine.Assignment
import FormulaMachine.Proofs.Machine.Canonical
import FormulaMachine.Proofs.Machine.Conversions
import FormulaMachine.Proofs.Machine.Dependence
import FormulaMachine.Proofs.Machine.Encoding
import FormulaMachine.Proofs.Machine.Exactness
import FormulaMachine.Proofs.Machine.Liveness
import FormulaMachine.Proofs.Machine.RowMajor
import FormulaMachine.Proofs.Machine.Sinks
import FormulaMachine.Proofs.Postfix.Interpretation
import FormulaMachine.Proofs.Postfix.Partition
import FormulaMachine.Proofs.Scalar.Decimals
import FormulaMachine.Proofs.Scalar.Integers
import FormulaMachine.Proofs.Text.TypeNames
