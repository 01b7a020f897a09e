import FormulaMachine.Proofs.Number.Decimal
import FormulaMachine.Proofs.Number.Shortest

namespace FormulaMachine

namespace Numeral.Decimal

theorem exists_of_digits {whole : List Char} {fraction : Option (List Char)}
    (hdigits : ∀ c ∈ whole ++ fraction.getD [], c.isDigit) (hne : whole ++ fraction.getD [] ≠ [])
    (s : Sign) : ∃ d : Decimal, d.sign = s ∧ d.fraction = fraction ∧ d.power = none ∧
      d.text = s.text ++ (whole ++ fraction.elim [] ('.' :: ·)) ∧
      d.coefficient = Nat.ofDigitChars 10 (whole ++ fraction.getD []) 0 := by
  obtain ⟨hwhole, hfraction⟩ := List.forall_mem_append.mp hdigits
  refine ⟨⟨s, whole, fraction, none, List.all_eq_true.mpr hwhole, List.all_eq_true.mpr hfraction,
    hne⟩, rfl, rfl, rfl, ?_, rfl⟩
  simp [text, body]

end Numeral.Decimal

namespace Shortest.Decimal

variable (d : Decimal) (s : Numeral.Sign)

def value : ℚ :=
  d.digits * 10 ^ d.exponent

theorem positional_eq : ∃ whole fraction leading trailing,
    d.positional = whole ++ Option.elim fraction [] ('.' :: ·) ∧
    whole ++ Option.getD fraction [] =
      List.replicate leading '0' ++ (Nat.toDigits 10 d.digits ++ List.replicate trailing '0') ∧
    d.exponent = trailing - (Option.getD fraction []).length := by
  unfold positional
  dsimp only
  split
  · rename_i hexponent
    refine ⟨_, none, 0, d.exponent.natAbs, (List.append_nil _).symm, List.append_nil _, ?_⟩
    simp only [Option.getD_none, List.length_nil]
    omega
  split
  · rename_i hlength
    refine ⟨['0'], some _, d.exponent.natAbs - (Nat.toDigits 10 d.digits).length + 1, 0, rfl, ?_,
      ?_⟩
    · simp [List.replicate_succ]
    · simp only [Option.getD_some, List.length_append, List.length_replicate]
      omega
  · rename_i hlength
    refine ⟨_, some _, 0, 0, rfl, ?_, ?_⟩
    · simp
    · simp only [Option.getD_some, List.length_drop]
      omega

theorem exists_numeral : ∃ n : Numeral.Decimal, n.sign = s ∧ n.power = none ∧
    n.text = s.text ++ d.positional ∧ n.magnitude = d.value := by
  obtain ⟨whole, fraction, leading, trailing, htext, hdigits, hexponent⟩ := d.positional_eq
  have hzeros (k : Nat) : ∀ c ∈ List.replicate k '0', c.isDigit := by
    intro c hc
    rw [List.eq_of_mem_replicate hc]
    rfl
  have hall : ∀ c ∈ whole ++ fraction.getD [], c.isDigit := by
    rw [hdigits]
    exact List.forall_mem_append.mpr ⟨hzeros leading, List.forall_mem_append.mpr
      ⟨fun c hc => Nat.isDigit_of_mem_toDigits (by decide) (by decide) hc, hzeros trailing⟩⟩
  have hne : whole ++ fraction.getD [] ≠ [] := by
    simp [hdigits, Nat.toDigits_ne_nil]
  obtain ⟨n, hsign, hfraction, hpower, hn, hread⟩ := Numeral.Decimal.exists_of_digits hall hne s
  refine ⟨n, hsign, hpower, by rw [hn, htext], ?_⟩
  have hcoefficient : Nat.ofDigitChars 10 (whole ++ fraction.getD []) 0 =
      10 ^ trailing * d.digits := by
    rw [hdigits, Nat.ofDigitChars_append, Nat.ofDigitChars_append,
      Nat.ofDigitChars_replicate_zero, Nat.ofDigitChars_replicate_zero, Nat.mul_zero,
      Nat.ofDigitChars_ten_toDigits]
  rw [Numeral.Decimal.magnitude, Numeral.Decimal.exponent, hread, hcoefficient, hfraction, hpower,
    value, hexponent, Option.elim_none, zero_sub, sub_eq_add_neg, zpow_add₀ (by norm_num),
    zpow_natCast]
  push_cast
  ring

end Shortest.Decimal

namespace Format

variable {f : Format} {pattern : Nat}

theorem signed_negative (h : pattern < 2 ^ (f.signPlace + 1)) :
    f.signed (f.negative pattern) (f.magnitude pattern) = pattern := by
  have hparts := Nat.div_add_mod pattern (2 ^ f.signPlace)
  have hsign : pattern / 2 ^ f.signPlace < 2 :=
    Nat.div_lt_of_lt_mul (by rwa [Nat.pow_succ] at h)
  rw [signed, negative, magnitude, Nat.one_shiftLeft, Nat.testBit_eq_decide_div_mod_eq,
    Nat.mod_eq_of_lt hsign]
  rcases Nat.lt_or_eq_of_le (Nat.le_of_lt_succ hsign) with hzero | hone
  · rw [Nat.lt_one_iff] at hzero
    rw [hzero, Nat.mul_zero, Nat.zero_add] at hparts
    rwa [if_neg (by simp [hzero])]
  · rw [hone, Nat.mul_one] at hparts
    rwa [if_pos (decide_eq_true hone)]

def printedSign (f : Format) (pattern : Nat) : Numeral.Sign :=
  if f.negative pattern then .minus else .missing

theorem isMinus_printedSign : (f.printedSign pattern).isMinus = f.negative pattern := by
  unfold printedSign
  cases f.negative pattern <;> rfl

def printed (f : Format) (pattern : Nat) : Shortest.Decimal :=
  if f.magnitude pattern = 0 then ⟨0, 0⟩ else Shortest.ofMagnitude f (f.magnitude pattern)

theorem text_of_isFinite (h : f.isFinite pattern) :
    (f.text pattern).toList = (f.printedSign pattern).text ++ (f.printed pattern).positional := by
  have hlt : f.magnitude pattern < f.infinity := of_decide_eq_true h
  have hbody : (if f.magnitude pattern = 0 then "0"
      else String.ofList (Shortest.ofMagnitude f (f.magnitude pattern)).positional).toList =
      (f.printed pattern).positional := by
    unfold printed
    split
    · rfl
    · rw [String.toList_ofList]
  rw [text]
  dsimp only
  rw [if_neg hlt.not_gt, if_neg hlt.ne, printedSign]
  split
  · rw [String.toList_append, hbody]
    rfl
  · rw [hbody]
    rfl

theorem text_of_isNaN (h : f.isNaN pattern) : f.text pattern = "NaN" := by
  rw [text]
  dsimp only
  rw [if_pos (of_decide_eq_true h)]

theorem read?_infinite (f : Format) (negative : Bool) :
    f.read? (if negative then "-inf".toList else "inf".toList) =
      some (f.signed negative f.infinity) := by
  cases negative <;> rfl

theorem text_of_infinite (h : f.magnitude pattern = f.infinity) :
    (f.text pattern).toList = if f.negative pattern then "-inf".toList else "inf".toList := by
  rw [text]
  dsimp only
  rw [if_neg (by omega), if_pos h]
  split <;> rfl

variable (hf : f.Standard)

include hf

theorem printed_held (h : f.isFinite pattern) {r : Nat}
    (hr : f.Rounds (f.printed pattern).value r) : r = f.magnitude pattern := by
  have hlt : f.magnitude pattern < f.infinity := of_decide_eq_true h
  unfold printed at hr
  split at hr
  · rename_i hzero
    refine hr.eq_of_held hf.proper hlt ?_
    rw [hzero, quanta_zero]
    simp [Shortest.Decimal.value]
  · rename_i hzero
    obtain ⟨hnearby, -⟩ := Shortest.ofMagnitude_shortest hf (Nat.pos_of_ne_zero hzero) hlt rfl
    exact (hr.nearby hf.proper hf.fraction_ne_zero).unique hnearby hr.le_infinity hlt.le

theorem read?_text (hpattern : pattern < 2 ^ (f.signPlace + 1)) (h : f.isNaN pattern = false) :
    f.read? (f.text pattern).toList = some pattern := by
  have hle : f.magnitude pattern ≤ f.infinity := Nat.le_of_not_lt (of_decide_eq_false h)
  rcases Nat.lt_or_eq_of_le hle with hlt | hinfinite
  · have hfinite : f.isFinite pattern := decide_eq_true hlt
    obtain ⟨n, hsign, hpower, htext, hvalue⟩ :=
      (f.printed pattern).exists_numeral (f.printedSign pattern)
    have hmoderate : n.IsModerate := .inl fun p hp => by
      rw [hpower] at hp
      cases hp
    have hrounds := hmoderate.rounds hf.scale_le hf.exponent_le
    rw [hvalue] at hrounds
    rw [text_of_isFinite hfinite, ← htext, n.formatRead?_text, hsign, isMinus_printedSign,
      printed_held hf hfinite hrounds, signed_negative hpattern]
  · rw [text_of_infinite hinfinite, read?_infinite, ← hinfinite, signed_negative hpattern]

theorem text_shortest (h : f.isFinite pattern) (hne : f.magnitude pattern ≠ 0)
    {d : Numeral.Decimal} (hd : d.IsModerate) (hread : f.read? d.text = some pattern) :
    d.exponent ≤ (f.printed pattern).exponent ∧ (d.exponent = (f.printed pattern).exponent →
      |(f.printed pattern).value - f.quanta (f.magnitude pattern) / 2 ^ f.scale| ≤
        |d.magnitude - f.quanta (f.magnitude pattern) / 2 ^ f.scale|) := by
  have hlt : f.magnitude pattern < f.infinity := of_decide_eq_true h
  have hrounds := hd.rounds hf.scale_le hf.exponent_le
  rw [d.formatRead?_text, Option.some.injEq] at hread
  have hmagnitude := magnitude_signed (hrounds.le_infinity.trans_lt f.infinity_lt) d.sign.isMinus
  rw [hread] at hmagnitude
  rw [← hmagnitude] at hrounds
  have hnearby := hrounds.nearby hf.proper hf.fraction_ne_zero
  unfold printed
  rw [if_neg hne]
  obtain ⟨-, hshort⟩ := Shortest.ofMagnitude_shortest hf (Nat.pos_of_ne_zero hne) hlt rfl
  obtain ⟨hplaces, hcloser⟩ := hshort d.coefficient d.exponent hnearby
  refine ⟨hplaces, fun he => ?_⟩
  have hpos : (0 : ℚ) < 2 ^ (f.scale + 1) := by positivity
  have hscaled (x : ℚ) : |x * 2 ^ (f.scale + 1) - (2 * f.quanta (f.magnitude pattern) : Nat)| =
      |x - f.quanta (f.magnitude pattern) / 2 ^ f.scale| * 2 ^ (f.scale + 1) := by
    rw [← abs_of_pos hpos, ← abs_mul, abs_of_pos hpos, sub_mul, pow_succ]
    congr 2
    push_cast
    field_simp
  have hle := hcloser he
  rw [Shortest.halves, Shortest.halves, hscaled, hscaled] at hle
  exact le_of_mul_le_mul_right hle hpos

end Format

end FormulaMachine
