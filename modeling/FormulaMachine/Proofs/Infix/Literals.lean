import FormulaMachine.Proofs.Compiler.Refusal
import FormulaMachine.Proofs.Infix.Keywords
import FormulaMachine.Proofs.Scalar.Numerals

namespace FormulaMachine.Infix

open Numeral (IsDecimal InAscii isMark HasWordLetter span_digits)

namespace Scan

theorem toLower_eq_self {c : Char} (h : ¬ c.toNat < 0x80) : c.toLower = c := by
  unfold Char.toLower
  split
  · rename_i hc
    have hle : c.toNat ≤ 'Z'.toNat := UInt32.le_iff_toNat_le.mp hc.2
    exact absurd (Nat.lt_of_le_of_lt hle (by decide)) h
  · rfl

section Form

variable [Text.Characters] {c : Char} {cs ds rest : List Char} {negative : Bool}

theorem OfNumber.toLower_ne (h : OfNumber c) : c.toLower ≠ 'n' := by
  cases h with
  | digit h =>
      intro hn
      by_cases hascii : c.toNat < 0x80
      · have hall : ∀ n < 0x80, (Char.ofNat n).isDigit → (Char.ofNat n).toLower ≠ 'n' := by decide
        rw [Text.isDecimalDigit_of_ascii hascii] at h
        exact Text.forall_ascii (P := fun c => c.isDigit → c.toLower ≠ 'n') hall hascii h hn
      · rw [toLower_eq_self hascii] at hn
        exact hascii (by rw [hn]; decide)
  | exponent h => rcases h with rfl | rfl <;> decide
  | point | plus | minus => decide

theorem IsNumber.not_hasWordLetter (h : IsNumber cs) : ¬ HasWordLetter cs := by
  intro hn
  obtain ⟨c, hc, hlower⟩ := List.mem_map.mp hn
  exact (h.ofNumber c hc).toLower_ne hlower

theorem ne_sign_of_isDecimalDigit (h : Text.isDecimalDigit c) : c ≠ '-' ∧ c ≠ '+' := by
  constructor <;>
    · rintro rfl
      simp [Text.isDecimalDigit_of_ascii] at h

theorem IsFraction.head_ne_sign (h : IsFraction cs) : ∀ c ∈ cs.head?, c ≠ '-' ∧ c ≠ '+' := by
  cases h with
  | missing => simp
  | point => simp

theorem IsExponent.head_ne_sign (h : IsExponent cs) : ∀ c ∈ cs.head?, c ≠ '-' ∧ c ≠ '+' := by
  cases h with
  | missing => simp
  | power hletter => rcases hletter with rfl | rfl <;> simp

theorem IsNumber.head_ne_sign (h : IsNumber cs) : ∀ c ∈ cs.head?, c ≠ '-' ∧ c ≠ '+' := by
  cases h with
  | @parts whole fraction exponent hwhole hfraction hexponent =>
      intro c hc
      rw [List.head?_append, List.head?_append, Option.mem_def, Option.or_eq_some_iff,
        Option.or_eq_some_iff] at hc
      rcases hc with (hc | ⟨-, hc⟩) | ⟨-, hc⟩
      · exact ne_sign_of_isDecimalDigit (hwhole c (List.mem_of_head? hc))
      · exact hfraction.head_ne_sign c hc
      · exact hexponent.head_ne_sign c hc

theorem IsExponent.head_not_digit (h : IsExponent cs) : ∀ c ∈ cs.head?, c.isDigit = false := by
  cases h with
  | missing => simp
  | power hletter => rcases hletter with rfl | rfl <;> simp

theorem IsExponent.takeWhile_not_mark (h : IsExponent cs) :
    cs.takeWhile (fun c => !isMark c) = [] := by
  cases h with
  | missing => rfl
  | power hletter => rcases hletter with rfl | rfl <;> rfl

theorem IsExponent.exponent?_eq_some (h : IsExponent cs) (hascii : InAscii cs) :
    ∃ e, Numeral.exponent? cs = some e := by
  cases h with
  | missing => exact ⟨0, rfl⟩
  | @power letter sign digits hletter hsign hdigits hne =>
      have hdigit (c : Char) (hc : c ∈ digits) : c.isDigit :=
        hascii c (List.mem_cons_of_mem _ (List.mem_append_right _ hc)) (hdigits c hc)
      have hsize : Numeral.exponentSize? digits = some _ :=
        if_pos ⟨hne, List.all_eq_true.mpr hdigit⟩
      rw [Numeral.exponent?, if_pos hletter]
      rcases hsign with rfl | rfl | rfl
      · -- Without a sign the digits are read as they stand.
        obtain ⟨d, digits, rfl⟩ := List.exists_cons_of_ne_nil hne
        obtain ⟨hminus, hplus⟩ := ne_sign_of_isDecimalDigit (hdigits d List.mem_cons_self)
        simp [Numeral.signedExponent?, hminus, hplus, hsize]
      · simp [Numeral.signedExponent?, hsize]
      · simp [Numeral.signedExponent?, hsize]

theorem exists_digit_of_isDecimal {before exponent : List Char} (hexponent : IsExponent exponent)
    (hmark : ∀ c ∈ before, isMark c = false) (h : IsDecimal (before ++ exponent)) :
    ∃ c ∈ before, c.isDigit := by
  obtain ⟨-, c, hc, hdigit⟩ := h
  rw [List.takeWhile_append_of_pos fun d hd => by simp [hmark d hd],
    hexponent.takeWhile_not_mark, List.append_nil] at hc
  exact ⟨c, hc, hdigit⟩

theorem IsExponent.head_ne_point (h : IsExponent cs) : cs.head? ≠ some '.' := by
  cases h with
  | missing => simp
  | power hletter => rcases hletter with rfl | rfl <;> simp

theorem decimal?_whole (hdigits : ∀ c ∈ ds, c.isDigit) (hne : ds ≠ []) (hrest : IsExponent rest)
    (hascii : InAscii rest) : ∃ n, Numeral.decimal? negative (ds ++ rest) = some n := by
  obtain ⟨e, he⟩ := hrest.exponent?_eq_some hascii
  obtain ⟨htake, hdrop⟩ := span_digits hdigits hrest.head_not_digit
  simp only [Numeral.decimal?, htake, hdrop]
  split
  · exact absurd rfl hrest.head_ne_point
  · simp [hne, he]

theorem decimal?_point {behind : List Char} (hdigits : ∀ c ∈ ds, c.isDigit)
    (hbehind : ∀ c ∈ behind, c.isDigit) (hne : ds ++ behind ≠ []) (hrest : IsExponent rest)
    (hascii : InAscii rest) :
    ∃ n, Numeral.decimal? negative (ds ++ '.' :: (behind ++ rest)) = some n := by
  obtain ⟨e, he⟩ := hrest.exponent?_eq_some hascii
  obtain ⟨htake, hdrop⟩ := span_digits hbehind hrest.head_not_digit
  have hpoint : ∀ c ∈ ('.' :: (behind ++ rest)).head?, c.isDigit = false := by simp
  obtain ⟨htake', hdrop'⟩ := span_digits hdigits hpoint
  simp only [Numeral.decimal?, htake', hdrop', htake, hdrop, if_neg hne, he]
  exact ⟨_, rfl⟩

theorem IsNumber.decimal?_eq_some (h : IsNumber cs) (hdecimal : IsDecimal cs) :
    ∃ n, Numeral.decimal? negative cs = some n := by
  cases h with
  | @parts whole fraction exponent hwhole hfraction hexponent =>
  obtain ⟨hbefore, hascii⟩ := List.forall_mem_append.mp hdecimal.1
  obtain ⟨hwholeAscii, hfractionAscii⟩ := List.forall_mem_append.mp hbefore
  have hdigits (c : Char) (hc : c ∈ whole) : c.isDigit := hwholeAscii c hc (hwhole c hc)
  have hmark (c : Char) (hc : c ∈ whole) := Numeral.isMark_of_isDigit (hdigits c hc)
  cases hfraction with
  | missing =>
      rw [List.append_nil] at hdecimal ⊢
      obtain ⟨c, hc, -⟩ := exists_digit_of_isDecimal hexponent hmark hdecimal
      exact decimal?_whole hdigits (List.ne_nil_of_mem hc) hexponent hascii
  | @point behind hpoint =>
      have hbehind (c : Char) (hc : c ∈ behind) : c.isDigit :=
        hfractionAscii c (List.mem_cons_of_mem _ hc) (hpoint c hc)
      have hmarks : ∀ c ∈ whole ++ '.' :: behind, isMark c = false :=
        List.forall_mem_append.mpr ⟨hmark, List.forall_mem_cons.mpr
          ⟨by decide, fun c hc => Numeral.isMark_of_isDigit (hbehind c hc)⟩⟩
      obtain ⟨c, hc, hdigit⟩ := exists_digit_of_isDecimal hexponent hmarks hdecimal
      have hmem : c ∈ whole ++ behind := by
        have hne : c ≠ '.' := by
          rintro rfl
          revert hdigit
          decide
        simpa [hne] using hc
      rw [List.append_assoc, List.cons_append]
      exact decimal?_point hdigits hbehind (List.ne_nil_of_mem hmem) hexponent hascii

theorem IsNumber.read?_eq_some (h : IsNumber cs) (hdecimal : IsDecimal cs) :
    ∃ n, Numeral.read? cs = some n := by
  have hhead := h.head_ne_sign
  unfold Numeral.read?
  split
  · exact absurd rfl (hhead _ rfl).1
  · exact absurd rfl (hhead _ rfl).2
  · rw [Numeral.unsigned?_eq_decimal? h.not_hasWordLetter]
    exact h.decimal?_eq_some hdecimal

theorem IsNumber.not_isBlank (h : IsNumber cs) : ∀ c ∈ cs, Text.isBlank c = false :=
  fun c hc => (h.ofNumber c hc).not_isBlank

theorem IsNumber.isDecimal_of_read? {k : Kind} {x : Scalar k} (h : IsNumber cs)
    (hx : Scalar.read? k cs = some x) : IsDecimal cs := by
  refine Scalar.isDecimal_of_read? h.not_isBlank h.not_hasWordLetter ?_ ?_ hx
  · rintro rfl
    exact not_ofNumber (Text.isDecimalDigit_eq_false (by decide) (by decide)) (by decide)
      (h.ofNumber 't' (by decide))
  · rintro rfl
    exact not_ofNumber (Text.isDecimalDigit_eq_false (by decide) (by decide)) (by decide)
      (h.ofNumber 'f' (by decide))

theorem IsNumber.read?_float_iff {k : Kind} (hk : k.isFloat) (h : IsNumber cs) :
    (∃ x, Scalar.read? k cs = some x) ↔ IsDecimal cs := by
  refine ⟨fun ⟨x, hx⟩ => h.isDecimal_of_read? hx, fun hdecimal => ?_⟩
  obtain ⟨n, hn⟩ := h.read?_eq_some hdecimal
  unfold Scalar.read?
  rw [Text.trim_eq_self h.not_isBlank]
  cases k with
  | float32 | float64 => simp [Format.read?, hn]
  | _ => cases hk

end Form

end Scan

section Code

variable {formula code : String}

theorem isNumber_of_literal [Lexicon] (hcode : toPostfix formula = .ok code)
    {l : Nat × Except Error Postfix.Instruction} (hl : l ∈ Postfix.instructions code)
    {t : Option String} {literal : String} (hconst : l.2 = .ok (.const t literal)) :
    Scan.IsNumber literal.toList := by
  obtain ⟨ts, as, hlex, -, rfl, hmade⟩ := toPostfix_madeOf hcode
  have hscanned := isScanned_of_lex hlex
  have hwords (i : Postfix.Instruction) (hi : i ∈ programCode as) : i.HasWords :=
    (hmade i hi).hasWords fun t ht => (hscanned t ht).isPlain
  rw [Postfix.instructions_text_eq_readBack hwords, List.mem_mapIdx] at hl
  obtain ⟨n, hn, rfl⟩ := hl
  have hi := hmade _ (List.getElem_mem hn)
  have hread := Postfix.Instruction.eq_of_readBack hconst
  rw [hread] at hi
  cases hi with
  | const h => exact (hscanned _ h).1
  | typedConst _ h => exact (hscanned _ h).1
  | @sign s _ h => rcases s with _ | _ | _ <;> simp [Sign.code] at h

theorem badLiteral_of_compile {text : String} {vs : Variables} {o : CompileOptions} {line : Nat}
    {literal : String} {k : Kind} (h : compile text vs o = .error (.badLiteral line literal k)) :
    ∃ n t, (n, .ok (.const t literal)) ∈ Postfix.instructions text ∧ n % Draft.lineLimit = line ∧
      Draft.literalKind o line t = .ok k ∧ Scalar.read? k literal.toList = none := by
  rcases compile_error h with ⟨before, l, after, d, hlines, -, hrefused⟩ | ⟨d, -, hfinish⟩
  · have hl : l ∈ Postfix.instructions text := by simp [hlines]
    rcases hrefused with hline | ⟨i, hi, hrefusal⟩
    · rcases Postfix.code_of_refused hl hline with hcode | hcode <;> simp [Error.code] at hcode
    · cases hrefusal with
      | @badLiteral t _ _ hk hread =>
          exact ⟨l.1, t, hi ▸ hl, rfl, hk, hread⟩
      | unfit h => simp [Error.code, Error.fitCodes] at h
  · rcases Draft.finish_error hfinish with hempty | ⟨-, hcode⟩ | hcode
    · cases hempty
    · simp [Error.code] at hcode
    · simp [Error.code, Error.fitCodes] at hcode

theorem read?_of_compile {text : String} {vs : Variables} {o : CompileOptions} {p : Program}
    (h : compile text vs o = .ok p) {l : Nat × Except Error Postfix.Instruction}
    (hl : l ∈ Postfix.instructions text) {t : Option String} {literal : String}
    (hconst : l.2 = .ok (.const t literal)) :
    ∃ k x, Draft.literalKind o (l.1 % Draft.lineLimit) t = .ok k ∧
      Scalar.read? k literal.toList = some x := by
  obtain ⟨d, hd, -⟩ := compile_eq_ok h
  obtain ⟨d₁, d₂, hline⟩ := foldlM_mem_ok hl hd
  rw [Draft.line, hconst] at hline
  obtain ⟨k, x, hk, hx, -⟩ := Draft.const_eq_ok hline
  exact ⟨k, x, hk, hx⟩

theorem literals_in_digits [Lexicon] (hcode : toPostfix formula = .ok code) :
    (∀ l ∈ Postfix.instructions code, ∀ t literal, l.2 = .ok (.const t literal) →
      ((∃ x, Scalar.read? .float64 literal.toList = some x) ↔ IsDecimal literal.toList)) ∧
    (∀ vs o line literal k, o.defaultLiteralKind = .float64 →
      compile code vs o = .error (.badLiteral line literal k) →
        ∃ n t, (n, .ok (.const t literal)) ∈ Postfix.instructions code ∧
          n % Draft.lineLimit = line ∧ (t = none → ¬ IsDecimal literal.toList)) ∧
    (∀ vs o p, compile code vs o = .ok p → ∀ l ∈ Postfix.instructions code, ∀ t literal,
      l.2 = .ok (.const t literal) → IsDecimal literal.toList) := by
  refine ⟨fun l hl t literal hconst => ?_, fun vs o line literal k ho herror => ?_,
    fun vs o p hp l hl t literal hconst => ?_⟩
  · exact (isNumber_of_literal hcode hl hconst).read?_float_iff (k := .float64) rfl
  · obtain ⟨n, t, hl, hline, hk, hread⟩ := badLiteral_of_compile herror
    refine ⟨n, t, hl, hline, ?_⟩
    rintro rfl hdecimal
    obtain rfl : Kind.float64 = k := ho ▸ Except.ok.inj hk
    obtain ⟨x, hx⟩ :=
      ((isNumber_of_literal hcode hl rfl).read?_float_iff (k := .float64) rfl).mpr hdecimal
    exact absurd (hread.symm.trans hx) (by simp)
  · obtain ⟨k, x, -, hx⟩ := read?_of_compile hp hl hconst
    exact (isNumber_of_literal hcode hl hconst).isDecimal_of_read? hx

theorem literals_in_digits_mixed :
    toPostfix "y = 12.5e-1 + .e5;" = .ok "CONST 12.5e-1
CONST .e5
SUM
WRITE y
" ∧
      (∃ x, Scalar.read? .float64 "12.5e-1".toList = some x) ∧
      (¬ ∃ x, Scalar.read? .float64 ".e5".toList = some x) ∧
      ∀ vs o p, compile "CONST 12.5e-1
CONST .e5
SUM
WRITE y
" vs o ≠ .ok p := by
  have hcode : toPostfix "y = 12.5e-1 + .e5;" =
      .ok "CONST 12.5e-1
CONST .e5
SUM
WRITE y
" := by decide +kernel
  have hlines : Postfix.instructions "CONST 12.5e-1
CONST .e5
SUM
WRITE y
" =
      [(1, .ok (.const none "12.5e-1")), (2, .ok (.const none ".e5")),
        (3, .ok (.operator "SUM")), (4, .ok (.write "y"))] := by decide +kernel
  obtain ⟨hread, -, hcompile⟩ := literals_in_digits hcode
  rw [hlines] at hread hcompile
  have hproper : IsDecimal "12.5e-1".toList := by decide
  have himproper : ¬ IsDecimal ".e5".toList := by decide
  refine ⟨hcode, (hread _ List.mem_cons_self none _ rfl).mpr hproper,
    fun h => himproper ((hread _ (List.mem_cons_of_mem _ List.mem_cons_self) none _ rfl).mp h),
    fun vs o p hp => himproper ?_⟩
  exact hcompile vs o p hp _ (List.mem_cons_of_mem _ List.mem_cons_self) none _ rfl

theorem compile_number_without_digits :
    toPostfix "y = .e5;" = .ok "CONST .e5
WRITE y
" ∧
      Scalar.read? .float64 ".e5".toList = none ∧
      ∃ vs, Variables.discover "CONST .e5
WRITE y
" = .ok vs ∧
        compile "CONST .e5
WRITE y
" vs .default = .error (.badLiteral 1 ".e5" .float64) := by
  have hlines : Postfix.instructions "CONST .e5\nWRITE y\n" =
      [(1, .ok (.const none ".e5")), (2, .ok (.write "y"))] := by decide +kernel
  refine ⟨by decide +kernel, by decide, ⟨[], [⟨"y", .void, none, none⟩]⟩, by decide +kernel, ?_⟩
  rw [compile, hlines]
  rfl

end Code

end FormulaMachine.Infix
