import FormulaMachine.Proofs.Number.Nearest
import FormulaMachine.Proofs.Scalar.Numerals

namespace FormulaMachine

namespace Numeral

inductive Sign where
  | missing
  | plus
  | minus
  deriving DecidableEq, Repr

def Sign.text : Sign → List Char
  | .missing => []
  | .plus => ['+']
  | .minus => ['-']

def Sign.isMinus : Sign → Bool
  | .minus => true
  | .missing | .plus => false

def factor (negative : Bool) : Int :=
  if negative then -1 else 1

theorem abs_factor (negative : Bool) : |(factor negative : ℚ)| = 1 := by
  cases negative <;> simp [factor]

structure Power where
  mark : Char
  sign : Sign
  digits : List Char
  isMark_mark : isMark mark
  all_digits : digits.all Char.isDigit
  digits_ne_nil : digits ≠ []

structure Decimal where
  sign : Sign
  whole : List Char
  fraction : Option (List Char)
  power : Option Power
  all_whole : whole.all Char.isDigit
  all_fraction : (fraction.getD []).all Char.isDigit
  digits_ne_nil : whole ++ fraction.getD [] ≠ []

namespace Power

def text (p : Power) : List Char :=
  p.mark :: (p.sign.text ++ p.digits)

def value (p : Power) : Int :=
  factor p.sign.isMinus * (Nat.ofDigitChars 10 p.digits 0 : Int)

def seen (p : Power) : Int :=
  factor p.sign.isMinus * ((p.digits.foldl addExponentDigit 0 : Nat) : Int)

end Power

namespace Decimal

def digits (d : Decimal) : List Char :=
  d.whole ++ d.fraction.getD []

def body (d : Decimal) : List Char :=
  d.whole ++ (d.fraction.elim [] ('.' :: ·) ++ d.power.elim [] Power.text)

def text (d : Decimal) : List Char :=
  d.sign.text ++ d.body

def coefficient (d : Decimal) : Nat :=
  Nat.ofDigitChars 10 d.digits 0

def places (d : Decimal) : Nat :=
  (d.digits.dropWhile (· == '0')).length

def exponent (d : Decimal) : Int :=
  d.power.elim 0 Power.value - (d.fraction.getD []).length

def magnitude (d : Decimal) : ℚ :=
  d.coefficient * 10 ^ d.exponent

def value (d : Decimal) : ℚ :=
  factor d.sign.isMinus * d.magnitude

def seenExponent (d : Decimal) : Int :=
  d.power.elim 0 Power.seen - (d.fraction.getD []).length

def IsPlain (d : Decimal) : Prop :=
  d.fraction = none ∧ d.power = none

def IsModerate (d : Decimal) : Prop :=
  (∀ p ∈ d.power, Nat.ofDigitChars 10 p.digits 0 < 10 * exponentBound) ∨ d.digits.length ≤ 64000

end Decimal

section Characters

variable {c : Char} {cs : List Char} {n : Nat}

theorem ne_sign_of_isDigit (h : c.isDigit) : c ≠ '-' ∧ c ≠ '+' := by
  constructor <;>
    · rintro rfl
      revert h
      decide

theorem toLower_ne_of_isDigit (h : c.isDigit) : c.toLower ≠ 'n' := by
  have hle : c.toNat ≤ '9'.toNat := by
    simp only [Char.isDigit, Bool.and_eq_true, decide_eq_true_eq] at h
    exact UInt32.le_iff_toNat_le.mp h.2
  have hlower : c.toLower = c := by
    unfold Char.toLower
    split
    · rename_i hc
      have hA : 'A'.toNat ≤ c.toNat := UInt32.le_iff_toNat_le.mp hc.1
      exact absurd (hA.trans hle) (by decide)
    · rfl
  rw [hlower]
  rintro rfl
  revert h
  decide

theorem digit_lt (h : c.isDigit) : c.toNat - '0'.toNat < 10 := by
  simp only [Char.isDigit, Bool.and_eq_true, decide_eq_true_eq] at h
  have hle : c.toNat ≤ '9'.toNat := UInt32.le_iff_toNat_le.mp h.2
  have hnine : '9'.toNat = 57 := rfl
  have hzero : '0'.toNat = 48 := rfl
  omega

theorem digit_pos (h : c.isDigit) (hc : c ≠ '0') : 0 < c.toNat - '0'.toNat := by
  simp only [Char.isDigit, Bool.and_eq_true, decide_eq_true_eq] at h
  have hle : '0'.toNat ≤ c.toNat := UInt32.le_iff_toNat_le.mp h.1
  have hne : c.toNat ≠ '0'.toNat := fun heq => hc (Char.toNat_inj.mp heq)
  omega

theorem ofDigitChars_lt (h : ∀ c ∈ cs, c.isDigit) :
    Nat.ofDigitChars 10 cs n < (n + 1) * 10 ^ cs.length := by
  induction cs generalizing n with
  | nil => simp
  | cons c cs ih =>
      have hc := digit_lt (h c List.mem_cons_self)
      rw [Nat.ofDigitChars_cons, List.length_cons, Nat.pow_succ', ← Nat.mul_assoc]
      refine (ih fun d hd => h d (List.mem_cons_of_mem c hd)).trans_le ?_
      exact Nat.mul_le_mul_right _ (by omega)

theorem le_ofDigitChars : n * 10 ^ cs.length ≤ Nat.ofDigitChars 10 cs n := by
  rw [Nat.ofDigitChars_eq_ofDigitChars_zero, Nat.mul_comm]
  exact Nat.le_add_right _ _

theorem ofDigitChars_dropWhile (cs : List Char) :
    Nat.ofDigitChars 10 (cs.dropWhile (· == '0')) 0 = Nat.ofDigitChars 10 cs 0 := by
  induction cs with
  | nil => rfl
  | cons c cs ih =>
      by_cases hc : c = '0'
      · subst hc
        rw [List.dropWhile_cons_of_pos rfl, ih]
        rfl
      · rw [List.dropWhile_cons_of_neg (by simpa using hc)]

theorem le_ofDigitChars_dropWhile (h : ∀ c ∈ cs, c.isDigit) (hne : Nat.ofDigitChars 10 cs 0 ≠ 0) :
    10 ^ (cs.dropWhile (· == '0')).length ≤ 10 * Nat.ofDigitChars 10 cs 0 := by
  rw [← ofDigitChars_dropWhile] at hne ⊢
  cases hcs : cs.dropWhile (· == '0') with
  | nil => simp [hcs] at hne
  | cons c ds =>
      have hmem : c ∈ cs :=
        (List.dropWhile_sublist _).subset (by rw [hcs]; exact List.mem_cons_self)
      have hzero : c ≠ '0' := by
        have hhead := List.head?_dropWhile_not (· == '0') cs
        rw [hcs] at hhead
        simpa using hhead
      have hpos : 1 ≤ 10 * 0 + (c.toNat - '0'.toNat) := by
        have := digit_pos (h c hmem) hzero
        omega
      rw [Nat.ofDigitChars_cons, List.length_cons, Nat.pow_succ',
        Nat.mul_le_mul_left_iff (by decide)]
      calc 10 ^ ds.length = 1 * 10 ^ ds.length := (Nat.one_mul _).symm
        _ ≤ (10 * 0 + (c.toNat - '0'.toNat)) * 10 ^ ds.length := Nat.mul_le_mul_right _ hpos
        _ ≤ _ := le_ofDigitChars

theorem foldl_addExponentDigit (h : Nat.ofDigitChars 10 cs n < 10 * exponentBound) :
    cs.foldl addExponentDigit n = Nat.ofDigitChars 10 cs n := by
  induction cs generalizing n with
  | nil => rfl
  | cons c cs ih =>
      rw [Nat.ofDigitChars_cons] at h ⊢
      have hle : 10 * n + (c.toNat - '0'.toNat) ≤
          Nat.ofDigitChars 10 cs (10 * n + (c.toNat - '0'.toNat)) :=
        (Nat.le_mul_of_pos_right _ (Nat.pow_pos (by decide))).trans le_ofDigitChars
      have hn : n < exponentBound := by omega
      rw [List.foldl_cons, addExponentDigit, if_pos hn]
      exact ih h

theorem foldl_addExponentDigit_of_le (hn : exponentBound ≤ n) :
    cs.foldl addExponentDigit n = n := by
  induction cs with
  | nil => rfl
  | cons c cs ih => rw [List.foldl_cons, addExponentDigit, if_neg (Nat.not_lt.mpr hn), ih]

theorem le_foldl_addExponentDigit (h : 10 * exponentBound ≤ Nat.ofDigitChars 10 cs n) :
    exponentBound ≤ cs.foldl addExponentDigit n := by
  induction cs generalizing n with
  | nil => exact (Nat.le_mul_of_pos_left _ (by decide)).trans h
  | cons c cs ih =>
      rw [List.foldl_cons, addExponentDigit]
      split
      · exact ih h
      · rename_i hn
        rw [foldl_addExponentDigit_of_le (Nat.le_of_not_lt hn)]
        exact Nat.le_of_not_lt hn

end Characters

namespace Sign

variable {s : Sign} {cs : List Char}

theorem read?_text (h : ∀ c ∈ cs.head?, c ≠ '-' ∧ c ≠ '+') :
    read? (s.text ++ cs) = unsigned? s.isMinus cs := by
  cases s with
  | plus | minus => rfl
  | missing =>
      rw [text, List.nil_append, read?.eq_3 _ (by rintro ds rfl; exact (h '-' rfl).1 rfl)
        (by rintro ds rfl; exact (h '+' rfl).2 rfl)]
      rfl

theorem signedExponent?_text (h : ∀ c ∈ cs.head?, c ≠ '-' ∧ c ≠ '+') :
    signedExponent? (s.text ++ cs) =
      (exponentSize? cs).map fun n => factor s.isMinus * (n : Int) := by
  cases s with
  | plus => simp [text, signedExponent?, isMinus, factor]
  | minus => simp [text, signedExponent?, isMinus, factor]
  | missing =>
      rw [text, List.nil_append, signedExponent?.eq_3 _ (by rintro ds rfl; exact (h '-' rfl).1 rfl)
        (by rintro ds rfl; exact (h '+' rfl).2 rfl)]
      simp [isMinus, factor]

theorem integer?_text (h : ∀ c ∈ cs.head?, c ≠ '-' ∧ c ≠ '+') :
    Text.integer? (s.text ++ cs) =
      (Text.natural? cs).map fun n => factor s.isMinus * (n : Int) := by
  cases s with
  | plus => simp [text, Text.integer?, Text.unsigned?, isMinus, factor]
  | minus => simp [text, Text.integer?, isMinus, factor]
  | missing =>
      rw [text, List.nil_append, Text.integer?.eq_2 _ (by rintro ds rfl; exact (h '-' rfl).1 rfl),
        Text.unsigned?.eq_2 _ (by rintro ds rfl; exact (h '+' rfl).2 rfl)]
      simp [isMinus, factor]

end Sign

namespace Power

variable (p : Power)

theorem isDigit_digits : ∀ c ∈ p.digits, c.isDigit :=
  List.all_eq_true.mp p.all_digits

theorem mark_eq : p.mark = 'e' ∨ p.mark = 'E' :=
  (Bool.or_eq_true_iff.mp p.isMark_mark).imp beq_iff_eq.mp beq_iff_eq.mp

theorem exponent?_text : exponent? p.text = some p.seen := by
  have hsize : exponentSize? p.digits = some (p.digits.foldl addExponentDigit 0) :=
    if_pos ⟨p.digits_ne_nil, p.all_digits⟩
  rw [text, exponent?, if_pos p.mark_eq, Sign.signedExponent?_text fun c hc =>
    ne_sign_of_isDigit (p.isDigit_digits c (List.mem_of_head? hc)), hsize]
  rfl

theorem seen_eq_value (h : Nat.ofDigitChars 10 p.digits 0 < 10 * exponentBound) :
    p.seen = p.value := by
  rw [seen, foldl_addExponentDigit h, value]

theorem seen_eq_or : p.seen = p.value ∨
    ∃ m n : Nat, exponentBound ≤ m ∧ exponentBound ≤ n ∧
      p.seen = factor p.sign.isMinus * m ∧ p.value = factor p.sign.isMinus * n := by
  by_cases h : Nat.ofDigitChars 10 p.digits 0 < 10 * exponentBound
  · exact .inl (p.seen_eq_value h)
  · have h := Nat.le_of_not_lt h
    exact .inr ⟨_, _, le_foldl_addExponentDigit h, (Nat.le_mul_of_pos_left _ (by decide)).trans h,
      rfl, rfl⟩

end Power

namespace Decimal

variable (d : Decimal) {negative : Bool}

theorem isDigit_whole : ∀ c ∈ d.whole, c.isDigit :=
  List.all_eq_true.mp d.all_whole

theorem isDigit_fraction : ∀ c ∈ d.fraction.getD [], c.isDigit :=
  List.all_eq_true.mp d.all_fraction

theorem isDigit_digits : ∀ c ∈ d.digits, c.isDigit :=
  List.forall_mem_append.mpr ⟨d.isDigit_whole, d.isDigit_fraction⟩

theorem mem_body : ∀ c ∈ d.body, c.isDigit ∨ c ∈ ['.', 'e', 'E', '+', '-'] := by
  refine List.forall_mem_append.mpr ⟨fun c hc => .inl (d.isDigit_whole c hc),
    List.forall_mem_append.mpr ⟨?_, ?_⟩⟩
  · have hfraction := d.isDigit_fraction
    cases hf : d.fraction with
    | none => simp
    | some fraction =>
        rw [hf] at hfraction
        exact List.forall_mem_cons.mpr ⟨.inr (by decide), fun c hc => .inl (hfraction c hc)⟩
  · cases d.power with
    | none => simp
    | some p =>
        refine List.forall_mem_cons.mpr ⟨.inr ?_, List.forall_mem_append.mpr ⟨?_, fun c hc =>
          .inl (p.isDigit_digits c hc)⟩⟩
        · rcases p.mark_eq with h | h <;> simp [h]
        · cases p.sign <;> simp [Sign.text]

theorem head_power : ∀ c ∈ (d.power.elim [] Power.text).head?, c = 'e' ∨ c = 'E' := by
  cases d.power with
  | none => simp
  | some p =>
      intro c hc
      obtain rfl : p.mark = c := by simpa [Power.text] using hc
      exact p.mark_eq

theorem head_body_ne_sign : ∀ c ∈ d.body.head?, c ≠ '-' ∧ c ≠ '+' := by
  intro c hc
  rw [body, List.head?_append, List.head?_append, Option.mem_def, Option.or_eq_some_iff,
    Option.or_eq_some_iff] at hc
  rcases hc with hc | ⟨-, hc | ⟨-, hc⟩⟩
  · exact ne_sign_of_isDigit (d.isDigit_whole c (List.mem_of_head? hc))
  · cases hf : d.fraction with
    | none => simp [hf] at hc
    | some fraction =>
        obtain rfl : '.' = c := by simpa [hf] using hc
        decide
  · rcases d.head_power c hc with rfl | rfl <;> decide

theorem not_hasWordLetter_body : ¬ HasWordLetter d.body := by
  intro h
  obtain ⟨c, hc, hlower⟩ := List.mem_map.mp h
  rcases d.mem_body c hc with hdigit | hmem
  · exact toLower_ne_of_isDigit hdigit hlower
  · have hall : ['.', 'e', 'E', '+', '-'].all (·.toLower != 'n') := by decide
    exact bne_iff_ne.mp (List.all_eq_true.mp hall c hmem) hlower

theorem exponent?_power :
    exponent? (d.power.elim [] Power.text) = some (d.power.elim 0 Power.seen) := by
  cases d.power with
  | none => rfl
  | some p => exact p.exponent?_text

theorem decimal?_body : decimal? negative d.body =
    some (.decimal negative d.coefficient d.places d.seenExponent) := by
  have hpower : ∀ c ∈ (d.power.elim [] Power.text).head?, c.isDigit = false := by
    intro c hc
    rcases d.head_power c hc with rfl | rfl <;> rfl
  have hne := d.digits_ne_nil
  have hfraction := d.isDigit_fraction
  rw [coefficient, places, seenExponent, digits, body]
  cases hf : d.fraction with
  | none =>
      rw [hf, Option.getD_none] at hne
      obtain ⟨htake, hdrop⟩ := span_digits d.isDigit_whole hpower
      simp only [Option.elim_none, Option.getD_none, List.nil_append, decimal?, htake, hdrop]
      split
      · rename_i r hr
        exact absurd (d.head_power '.' (by rw [hr]; rfl)) (by decide)
      · rw [if_neg hne, exponent?_power, Text.digitsValue_eq]
        rfl
  | some fraction =>
      rw [hf, Option.getD_some] at hne hfraction
      obtain ⟨htake, hdrop⟩ := span_digits hfraction hpower
      have hpoint : ∀ c ∈ ('.' :: (fraction ++ d.power.elim [] Power.text)).head?,
          c.isDigit = false := by simp
      obtain ⟨htake', hdrop'⟩ := span_digits d.isDigit_whole hpoint
      simp only [Option.elim_some, Option.getD_some, List.cons_append, decimal?, htake', hdrop']
      rw [htake, hdrop, if_neg hne, exponent?_power, Text.digitsValue_eq]
      rfl

theorem read?_text : read? d.text =
    some (.decimal d.sign.isMinus d.coefficient d.places d.seenExponent) := by
  rw [text, Sign.read?_text d.head_body_ne_sign, unsigned?_eq_decimal? d.not_hasWordLetter_body,
    decimal?_body]

theorem formatRead?_text (f : Format) : f.read? d.text =
    some (f.signed d.sign.isMinus (f.roundDecimal d.coefficient d.places d.seenExponent)) := by
  rw [Format.read?, read?_text]
  rfl

section Plain

variable {d}

theorem integer?_text (h : d.IsPlain) :
    Text.integer? d.text = some (factor d.sign.isMinus * (d.coefficient : Int)) := by
  have hbody : d.body = d.digits := by simp [body, digits, h.1, h.2]
  have hnatural : Text.natural? d.body = some d.coefficient := by
    rw [hbody, coefficient, ← Text.digitsValue_eq]
    exact if_pos ⟨d.digits_ne_nil, List.all_eq_true.mpr d.isDigit_digits⟩
  rw [text, Sign.integer?_text d.head_body_ne_sign, hnatural]
  rfl

theorem value_of_isPlain (h : d.IsPlain) :
    d.value = ((factor d.sign.isMinus * (d.coefficient : Int) : Int) : ℚ) := by
  simp [value, magnitude, exponent, h.1, h.2]

theorem integer?_text_eq_none (h : ¬ d.IsPlain) : Text.integer? d.text = none := by
  have hnatural : Text.natural? d.body = none := by
    refine if_neg fun ⟨_, hall⟩ => h ?_
    obtain ⟨-, hall⟩ := List.forall_mem_append.mp (List.all_eq_true.mp hall)
    obtain ⟨hfraction, hpower⟩ := List.forall_mem_append.mp hall
    constructor
    · cases hf : d.fraction with
      | none => rfl
      | some fraction =>
          rw [hf] at hfraction
          exact absurd (hfraction '.' List.mem_cons_self) (by decide)
    · cases hp : d.power with
      | none => rfl
      | some p =>
          rw [hp] at hpower
          have hmark := isMark_of_isDigit (hpower p.mark List.mem_cons_self)
          rw [p.isMark_mark] at hmark
          cases hmark
  rw [text, Sign.integer?_text d.head_body_ne_sign, hnatural]
  rfl

end Plain

theorem abs_value : |d.value| = d.magnitude := by
  have hnonneg : 0 ≤ d.magnitude := by
    unfold magnitude
    positivity
  rw [value, abs_mul, abs_factor, one_mul, abs_of_nonneg hnonneg]

variable {d} {f : Format}

theorem IsModerate.alike (h : d.IsModerate) (hscale : f.scale ≤ Format.double.scale)
    (htop : f.exponent ≤ Format.double.exponent) :
    f.Alike d.places d.exponent d.seenExponent := by
  rw [exponent, seenExponent]
  cases hp : d.power with
  | none => exact .inl rfl
  | some p =>
      rw [Option.elim_some, Option.elim_some]
      rcases h with hread | hlength
      · exact .inl (by rw [p.seen_eq_value (hread p hp)])
      rcases p.seen_eq_or with heq | ⟨m, n, hm, hn, hseen, hvalue⟩
      · exact .inl (by rw [heq])
      -- Both exponents are so large that no point and no zeros before it matter.
      have hplaces : d.places ≤ d.digits.length := (List.dropWhile_sublist _).length_le
      have hfraction : (d.fraction.getD []).length ≤ d.digits.length :=
        (List.sublist_append_right _ _).length_le
      have hbound : exponentBound = 65536 := rfl
      have hdouble : Format.double.scale = 1074 := rfl
      have hpow : 2 ^ (f.exponent - 1) ≤ 1024 :=
        Nat.pow_le_pow_right Nat.two_pos (Nat.sub_le_sub_right htop 1)
      rw [hseen, hvalue, Format.Alike]
      generalize 2 ^ (f.exponent - 1) = top at hpow
      cases p.sign.isMinus with
      | true =>
          simp only [factor, if_true]
          omega
      | false =>
          simp only [factor, Bool.false_eq_true, if_false]
          omega

theorem rounds_of_alike {e : Int} (h : f.Alike d.places e d.seenExponent) :
    f.Rounds (d.coefficient * 10 ^ e) (f.roundDecimal d.coefficient d.places d.seenExponent) := by
  refine Format.roundDecimal_rounds ?_ (le_ofDigitChars_dropWhile d.isDigit_digits) h
  rw [coefficient, ← ofDigitChars_dropWhile]
  have hlt : Nat.ofDigitChars 10 (d.digits.dropWhile (· == '0')) 0 < (0 + 1) * 10 ^ d.places :=
    ofDigitChars_lt fun c hc => d.isDigit_digits c ((List.dropWhile_sublist _).subset hc)
  rwa [Nat.zero_add, Nat.one_mul] at hlt

theorem IsModerate.rounds (h : d.IsModerate) (hscale : f.scale ≤ Format.double.scale)
    (htop : f.exponent ≤ Format.double.exponent) :
    f.Rounds d.magnitude (f.roundDecimal d.coefficient d.places d.seenExponent) :=
  rounds_of_alike (h.alike hscale htop)

end Decimal

end Numeral

end FormulaMachine
