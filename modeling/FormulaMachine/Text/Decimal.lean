namespace FormulaMachine.Text

def joinPairs (b : Nat) : List Nat → List Nat
  | low :: high :: ds => (low + b * high) :: joinPairs b ds
  | ds => ds

-- The number with the given digits of base `b`, the lowest first. Digits are joined for some rounds
-- before they are added up, which is quicker for long numerals.
def joinDigits (b : Nat) (ds : List Nat) : (rounds : Nat) → Nat
  | 0 => ds.foldr (fun d n => d + b * n) 0
  | rounds + 1 => joinDigits (b * b) (joinPairs b ds) rounds

theorem foldr_joinPairs (b : Nat) (ds : List Nat) :
    (joinPairs b ds).foldr (fun d n => d + b * b * n) 0 = ds.foldr (fun d n => d + b * n) 0 := by
  fun_induction joinPairs b ds with
  | case1 low high ds ih =>
      rw [List.foldr_cons, ih]
      simp only [List.foldr_cons, Nat.mul_add, Nat.mul_assoc, Nat.add_assoc]
  | case2 ds h =>
      match ds, h with
      | [], _ => rfl
      | [d], _ => simp
      | low :: high :: ds, h => exact absurd rfl (h low high ds)

theorem joinDigits_eq (b : Nat) (ds : List Nat) (rounds : Nat) :
    joinDigits b ds rounds = ds.foldr (fun d n => d + b * n) 0 := by
  induction rounds generalizing b ds with
  | zero => rfl
  | succ rounds ih => rw [joinDigits, ih, foldr_joinPairs]

def digitsValue (cs : List Char) : Nat :=
  joinDigits 10 (cs.map fun c => c.toNat - '0'.toNat).reverse (Nat.log2 cs.length)

theorem digitsValue_eq (cs : List Char) : digitsValue cs = Nat.ofDigitChars 10 cs 0 := by
  simp [digitsValue, joinDigits_eq, Nat.ofDigitChars, List.foldl_map, Nat.add_comm]

def natural? (cs : List Char) : Option Nat :=
  if cs ≠ [] ∧ cs.all Char.isDigit then some (digitsValue cs) else none

def unsigned? : List Char → Option Nat
  | '+' :: cs => natural? cs
  | cs => natural? cs

def integer? : List Char → Option Int
  | '-' :: cs => (natural? cs).map fun n => -(n : Int)
  | cs => (unsigned? cs).map fun n => (n : Int)

theorem natural?_toDigits (n : Nat) : natural? (Nat.toDigits 10 n) = some n := by
  have h : (Nat.toDigits 10 n).all Char.isDigit = true :=
    List.all_eq_true.2 fun c hc => Nat.isDigit_of_mem_toDigits (by decide) (by decide) hc
  simp [natural?, h, digitsValue_eq, Nat.toDigits_ne_nil, Nat.ofDigitChars_ten_toDigits]

end FormulaMachine.Text
