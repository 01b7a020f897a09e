import FormulaMachine.Scalar.Basic
import FormulaMachine.Number.Numeral
import FormulaMachine.Number.Shortest
import FormulaMachine.Text.Blank

namespace FormulaMachine.Scalar

def ofWhole? (k : Kind) (v : FloatValue) : Option (Scalar k) :=
  if v.isWhole then v.truncate?.bind (ofInt? k) else none

def readInteger? (k : Kind) (cs : List Char) : Option (Scalar k) :=
  match Text.integer? cs with
  | some n => ofInt? k n
  | none => (Format.double.read? cs).bind fun p => ofWhole? k (Format.double.decode p)

def readBool? (cs : List Char) : Option (Scalar .bool) :=
  if cs = "true".toList then some (ofBool true)
  else if cs = "false".toList then some (ofBool false)
  else (Format.double.read? cs).map fun p => ofBool (Format.double.magnitude p != 0)

def read? (k : Kind) (text : List Char) : Option (Scalar k) :=
  let cs := Text.trim text
  match k with
  | .bool => readBool? cs
  | .uint w => readInteger? (.uint w) cs
  | .int w => readInteger? (.int w) cs
  | .float32 => (Format.single.read? cs).map fun p => ⟨BitVec.ofNat _ p⟩
  | .float64 => (Format.double.read? cs).map fun p => ⟨BitVec.ofNat _ p⟩

def text : {k : Kind} → Scalar k → String
  | .bool, x | .uint _, x => toString x.bits.toNat
  | .int _, x => toString x.bits.toInt
  | .float32, x => Format.single.text x.bits.toNat
  | .float64, x => Format.double.text x.bits.toNat

end FormulaMachine.Scalar
