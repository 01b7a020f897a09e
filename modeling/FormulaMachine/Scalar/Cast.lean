import FormulaMachine.Scalar.Arithmetic

namespace FormulaMachine.Scalar

def clamp (k : Kind) (n : Int) : Scalar k :=
  wrap k (max (lowest k) (min (highest k) n))

def saturate (k : Kind) : FloatValue → Scalar k
  | .nan => wrap k 0
  | .infinite true => wrap k (lowest k)
  | .infinite false => wrap k (highest k)
  | .finite s units => clamp k (((FloatValue.finite s units).truncate?).getD 0)

def ofFloatUnchecked (v : FloatValue) : (k : Kind) → Scalar k
  | .bool => ofBool (!v.isZero)
  | .uint w => saturate (.uint w) v
  | .int w => saturate (.int w) v
  | .float32 => ofFloatValue32 v
  | .float64 => ofFloatValue64 v

def ofTruncated? (k : Kind) (v : FloatValue) : Except Fault (Scalar k) :=
  match v.truncate?.bind (ofInt? k) with
  | some y => .ok y
  | none => .error .outOfRange

def ofFinite (v : FloatValue) (units : Nat) : (k : Kind) → Except Fault (Scalar k)
  | .bool => .ok (ofBool (units != 0))
  | .uint w => ofTruncated? (.uint w) v
  | .int w => ofTruncated? (.int w) v
  | .float32 =>
      if Format.single.largest < units then .error .outOfRange else .ok (ofFloatValue32 v)
  | .float64 => .ok (ofFloatValue64 v)

def ofFloatChecked (v : FloatValue) (k : Kind) : Except Fault (Scalar k) :=
  match v with
  | .nan | .infinite _ => .error .notFinite
  | .finite _ units => ofFinite v units k

def cast {j : Kind} (checked : Bool) (k : Kind) (x : Scalar j) : Except Fault (Scalar k) :=
  if h : j = k then .ok (h ▸ x)
  else match x.toInt? with
    | some n => match ofInt? k n with
      | some y => .ok y
      | none => if checked then .error .outOfRange else .ok (wrap k n)
    | none => if checked then ofFloatChecked x.value k else .ok (ofFloatUnchecked x.value k)

end FormulaMachine.Scalar
