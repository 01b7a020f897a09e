import FormulaMachine.Proofs.Infix.Translation
import FormulaMachine.Proofs.Postfix.Reading
import FormulaMachine.Proofs.Results
import Mathlib.Data.List.TakeWhile

namespace FormulaMachine.Infix

namespace Scan

theorem take_countWhile (p : Char → Bool) (cs : List Char) :
    cs.take (countWhile p cs) = cs.takeWhile p :=
  (List.prefix_iff_eq_take.mp (List.takeWhile_prefix p)).symm

section Numbers

variable [Text.Characters]

inductive OfNumber : Char → Prop
  | digit {c : Char} (h : Text.isDecimalDigit c) : OfNumber c
  | point : OfNumber '.'
  | exponent {c : Char} (h : c = 'e' ∨ c = 'E') : OfNumber c
  | plus : OfNumber '+'
  | minus : OfNumber '-'

theorem OfNumber.not_isBlank {c : Char} (h : OfNumber c) : Text.isBlank c = false := by
  cases h with
  | digit h => exact Text.not_isBlank_of_isDecimalDigit h
  | exponent h => rcases h with rfl | rfl <;> decide
  | point | plus | minus => decide

theorem not_ofNumber {c : Char} (hdigit : Text.isDecimalDigit c = false)
    (hc : c ∉ ['.', 'e', 'E', '+', '-']) : ¬ OfNumber c := by
  intro h
  cases h with
  | digit h => simp [hdigit] at h
  | exponent h => rcases h with rfl | rfl <;> simp at hc
  | point | plus | minus => simp at hc

inductive IsFraction : List Char → Prop
  | missing : IsFraction []
  | point {digits : List Char} (h : ∀ c ∈ digits, Text.isDecimalDigit c) :
      IsFraction ('.' :: digits)

inductive IsExponent : List Char → Prop
  | missing : IsExponent []
  | power {letter : Char} {sign digits : List Char} (hletter : letter = 'e' ∨ letter = 'E')
      (hsign : sign = [] ∨ sign = ['+'] ∨ sign = ['-'])
      (hdigits : ∀ c ∈ digits, Text.isDecimalDigit c) (hne : digits ≠ []) :
      IsExponent (letter :: (sign ++ digits))

inductive IsNumber : List Char → Prop
  | parts {whole fraction exponent : List Char} (hwhole : ∀ c ∈ whole, Text.isDecimalDigit c)
      (hfraction : IsFraction fraction) (hexponent : IsExponent exponent) :
      IsNumber (whole ++ fraction ++ exponent)

theorem isFraction_take (cs : List Char) : IsFraction (cs.take (fractionLength cs)) := by
  unfold fractionLength
  split
  · rw [Nat.add_comm, List.take_succ_cons, take_countWhile]
    exact .point fun c hc => List.mem_takeWhile_imp hc
  · exact .missing

theorem isExponent_take_exponentDigits {letter : Char} (sign cs : List Char)
    (hletter : letter = 'e' ∨ letter = 'E')
    (hsign : sign = [] ∨ sign = ['+'] ∨ sign = ['-']) :
    IsExponent ((letter :: (sign ++ cs)).take (exponentDigits (sign.length + 1) cs)) := by
  unfold exponentDigits
  split
  · exact .missing
  · rename_i hne
    rw [Nat.add_right_comm, List.take_succ_cons, List.take_append,
      List.take_of_length_le (Nat.le_add_right _ _), Nat.add_sub_cancel_left, take_countWhile]
    refine .power hletter hsign (fun c hc => List.mem_takeWhile_imp hc) fun hnil => hne ?_
    rw [countWhile, hnil, List.length_nil]

theorem isExponent_take (cs : List Char) : IsExponent (cs.take (exponentLength cs)) := by
  unfold exponentLength
  split
  · rename_i c cs
    split
    · rename_i hc
      exact isExponent_take_exponentDigits ['+'] cs hc (by simp)
    · exact .missing
  · rename_i c cs
    split
    · rename_i hc
      exact isExponent_take_exponentDigits ['-'] cs hc (by simp)
    · exact .missing
  · rename_i c cs _ _
    split
    · rename_i hc
      exact isExponent_take_exponentDigits [] cs hc (by simp)
    · exact .missing
  · exact .missing

theorem isNumber_take (cs : List Char) : IsNumber (cs.take (numberLength cs)) := by
  unfold numberLength
  dsimp only
  rw [List.take_add, List.take_add, take_countWhile]
  exact .parts (fun c hc => List.mem_takeWhile_imp hc) (isFraction_take _) (isExponent_take _)

theorem IsFraction.ofNumber {cs : List Char} (h : IsFraction cs) : ∀ c ∈ cs, OfNumber c := by
  cases h with
  | missing => simp
  | point h => exact List.forall_mem_cons.mpr ⟨.point, fun c hc => .digit (h c hc)⟩

theorem IsExponent.ofNumber {cs : List Char} (h : IsExponent cs) : ∀ c ∈ cs, OfNumber c := by
  cases h with
  | missing => simp
  | power hletter hsign hdigits _ =>
      refine List.forall_mem_cons.mpr ⟨.exponent hletter, List.forall_mem_append.mpr ⟨?_, ?_⟩⟩
      · rcases hsign with rfl | rfl | rfl <;> simp [OfNumber.plus, OfNumber.minus]
      · exact fun c hc => .digit (hdigits c hc)

theorem IsNumber.ofNumber {cs : List Char} (h : IsNumber cs) : ∀ c ∈ cs, OfNumber c := by
  cases h with
  | parts hwhole hfraction hexponent =>
      exact List.forall_mem_append.mpr ⟨List.forall_mem_append.mpr
        ⟨fun c hc => .digit (hwhole c hc), hfraction.ofNumber⟩, hexponent.ofNumber⟩

end Numbers

theorem eq_of_oneOrTwo {second : Char} {two one t : Token} {cs : List Char} {n : Nat}
    (h : oneOrTwo second two one cs = .token t n) : t = two ∨ t = one := by
  unfold oneOrTwo at h
  split at h
  · split at h
    · exact .inl (Scan.token.inj h).1.symm
    · exact .inr (Scan.token.inj h).1.symm
  · exact .inr (Scan.token.inj h).1.symm

end Scan

def Token.IsPlain : Token → Prop
  | .ident name => Text.IsWord name.toList
  | .number text => Text.IsWord text.toList
  | _ => True

def Token.IsScanned [Text.Characters] : Token → Prop
  | .ident name => Text.IsWord name.toList
  | .number text => Scan.IsNumber text.toList ∧ ∃ c ∈ text.toList, c.isDigit
  | _ => True

theorem Token.IsScanned.isPlain [Text.Characters] {t : Token} (h : t.IsScanned) : t.IsPlain := by
  cases t with
  | ident name => exact h
  | number text =>
      obtain ⟨hnumber, c, hc, -⟩ := h
      exact ⟨List.ne_nil_of_mem hc, fun d hd => (hnumber.ofNumber d hd).not_isBlank⟩
  | _ => trivial

section Scanned

variable [Lexicon]

namespace Scan

theorem not_isBlank_of_startsIdentifier {c : Char} (h : startsIdentifier c) :
    Text.isBlank c = false := by
  rcases Bool.or_eq_true_iff.mp h with h | h
  · exact Text.not_isBlank_of_isXidContinue (Text.isXidContinue_of_isXidStart h)
  · rw [beq_iff_eq.mp h]
    decide

theorem not_isBlank_of_continuesIdentifier {c : Char} (h : continuesIdentifier c) :
    Text.isBlank c = false := by
  rcases Bool.or_eq_true_iff.mp h with h | h
  · exact Text.not_isBlank_of_isXidContinue h
  · rw [beq_iff_eq.mp h]
    decide

theorem isScanned_identifier {c : Char} {cs : List Char} {t : Token} {n : Nat}
    (hc : startsIdentifier c) (h : identifier c cs = .token t n) : t.IsScanned := by
  obtain ⟨rfl, -⟩ := Scan.token.inj h
  rw [Token.IsScanned, String.toList_ofList]
  refine ⟨List.cons_ne_nil _ _, List.forall_mem_cons.mpr
    ⟨not_isBlank_of_startsIdentifier hc, fun d hd => ?_⟩⟩
  exact not_isBlank_of_continuesIdentifier (List.mem_takeWhile_imp hd)

theorem isScanned_quoted {cs : List Char} {t : Token} {n : Nat} (h : quoted cs = .token t n) :
    t.IsScanned := by
  unfold quoted at h
  dsimp only at h
  split at h
  · cases h
  split at h
  · cases h
  rename_i hne
  split at h
  · rename_i hblank
    obtain ⟨rfl, -⟩ := Scan.token.inj h
    rw [Token.IsScanned, String.toList_ofList]
    refine ⟨hne, fun d hd => ?_⟩
    simpa using List.dropWhile_eq_nil_iff.mp hblank d hd
  · cases h

theorem isScanned_number {cs : List Char} {t : Token} {n : Nat} (h : number cs = .token t n) :
    t.IsScanned := by
  unfold number at h
  dsimp only at h
  split at h
  · rename_i hdigit
    obtain ⟨rfl, -⟩ := Scan.token.inj h
    rw [Token.IsScanned, String.toList_ofList]
    refine ⟨?_, List.any_eq_true.mp hdigit⟩
    rw [Lexicon.matchLength_eq]
    exact isNumber_take cs
  · cases h

theorem isScanned_oneOrTwo {second : Char} {two one t : Token} {cs : List Char} {n : Nat}
    (htwo : two.IsScanned) (hone : one.IsScanned) (h : oneOrTwo second two one cs = .token t n) :
    t.IsScanned := by
  rcases eq_of_oneOrTwo h with rfl | rfl
  · exact htwo
  · exact hone

theorem isScanned_slash {t : Token} {cs : List Char} {n : Nat} (h : slash cs = .token t n) :
    t.IsScanned := by
  unfold slash at h
  split at h
  · cases h
  · split at h <;> cases h
  · obtain ⟨rfl, -⟩ := Scan.token.inj h
    trivial

theorem isScanned_ofChars {c : Char} {cs : List Char} {t : Token} {n : Nat}
    (h : ofChars c cs = .token t n) : t.IsScanned := by
  unfold ofChars at h
  split at h
  case h_1 => exact isScanned_slash h
  case h_2 | h_3 | h_4 | h_5 | h_6 | h_7 =>
    exact isScanned_oneOrTwo (by trivial) (by trivial) h
  case h_16 => exact isScanned_quoted h
  case h_17 =>
    split at h
    · rename_i hc
      exact isScanned_identifier hc h
    split at h
    · exact isScanned_number h
    split at h <;> cases h
  all_goals
    obtain ⟨rfl, -⟩ := Scan.token.inj h
    trivial

end Scan

theorem forall_of_lexFrom {P : Token → Prop}
    (hscan : ∀ c cs t n, Scan.ofChars c cs = .token t n → P t) {seen ts : List Located} {pos : Nat}
    {cs : List Char} (hseen : ∀ t ∈ seen, P t.token) (h : lexFrom seen pos cs = .ok ts) :
    ∀ t ∈ ts, P t.token := by
  fun_induction lexFrom seen pos cs with
  | case1 seen pos =>
      obtain rfl := Except.ok.inj h
      simpa using hseen
  | case2 seen pos c cs n _ ih => exact ih hseen h
  | case3 seen pos c cs t n ht stop ih =>
      exact ih (List.forall_mem_cons.mpr ⟨hscan c cs t n ht, hseen⟩) h
  | case4 => cases h

theorem forall_tokensOf_of_lex {P : Token → Prop}
    (hscan : ∀ c cs t n, Scan.ofChars c cs = .token t n → P t) {text : String} {ts : List Located}
    (h : lex text = .ok ts) : ∀ t ∈ tokensOf ts, P t := by
  intro t ht
  obtain ⟨l, hl, rfl⟩ := List.mem_map.mp ht
  exact forall_of_lexFrom hscan (fun t ht => by cases ht) h l hl

theorem isScanned_of_lex {text : String} {ts : List Located} (h : lex text = .ok ts) :
    ∀ t ∈ tokensOf ts, t.IsScanned :=
  forall_tokensOf_of_lex (fun _ _ _ _ ht => Scan.isScanned_ofChars ht) h

end Scanned

section Code

open Postfix (Instruction)

inductive MadeOf (ts : List Token) : Instruction → Prop
  | read {x : String} (h : .ident x ∈ ts) : MadeOf ts (.read x)
  | write {x : String} (h : .ident x ∈ ts) : MadeOf ts (.write x)
  | const {literal : String} (h : .number literal ∈ ts) : MadeOf ts (.const none literal)
  | typedConst {typeName literal : String} (ht : .ident typeName ∈ ts)
      (h : .number literal ∈ ts) : MadeOf ts (.const (some typeName) literal)
  | cast {typeName : String} (h : .ident typeName ∈ ts) : MadeOf ts (.cast typeName)
  | sign {s : Sign} {i : Instruction} (h : i ∈ s.code) : MadeOf ts i
  | operation (op : BinaryOp) : MadeOf ts (.operator op.opcode)
  | call {f : String} (h : .ident f ∈ ts) : MadeOf ts (.operator (Text.uppercase f))

section MadeOf

variable {ts us : List Token} {i : Instruction} {code rest : List Instruction}

theorem MadeOf.mono (h : MadeOf ts i) (hts : ts ⊆ us) : MadeOf us i := by
  cases h with
  | read h => exact .read (hts h)
  | write h => exact .write (hts h)
  | const h => exact .const (hts h)
  | typedConst ht h => exact .typedConst (hts ht) (hts h)
  | cast h => exact .cast (hts h)
  | sign h => exact .sign h
  | operation op => exact .operation op
  | call h => exact .call (hts h)

def AllMadeOf (ts : List Token) (code : List Instruction) : Prop :=
  ∀ i ∈ code, MadeOf ts i

theorem AllMadeOf.mono (h : AllMadeOf ts code) (hts : ts ⊆ us) : AllMadeOf us code :=
  fun i hi => (h i hi).mono hts

theorem AllMadeOf.append (h : AllMadeOf ts code) (h' : AllMadeOf ts rest) :
    AllMadeOf ts (code ++ rest) :=
  List.forall_mem_append.mpr ⟨h, h'⟩

theorem allMadeOf_singleton (h : MadeOf ts i) : AllMadeOf ts [i] :=
  List.forall_mem_singleton.mpr h

theorem AllMadeOf.concat (h : AllMadeOf ts code) (h' : MadeOf ts i) : AllMadeOf ts (code ++ [i]) :=
  h.append (allMadeOf_singleton h')

end MadeOf

mutual

theorem JoinedTree.madeOf {ls : List Level} (e : JoinedTree ls) :
    AllMadeOf e.tokens e.postorder := by
  cases e with
  | unary u => exact u.madeOf
  | tighter e => exact e.madeOf
  | join left op level right =>
      have hleft := left.madeOf.mono (List.subset_append_left _ (op.token :: right.tokens))
      have hright := right.madeOf.mono
        (List.subset_append_of_subset_right left.tokens (List.subset_cons_self op.token _))
      exact (hleft.append hright).concat (.operation op)

theorem UnaryTree.madeOf (e : UnaryTree) : AllMadeOf e.tokens e.postorder := by
  cases e with
  | signed s e =>
      have he := e.madeOf.mono (List.subset_cons_self s.token _)
      cases s with
      | plus => exact he
      | minus => exact he.concat (.sign (s := .minus) List.mem_cons_self)
      | not => exact he.concat (.sign (s := .not) List.mem_cons_self)
  | plain e => exact e.madeOf

theorem CastTree.madeOf (e : CastTree) : AllMadeOf e.tokens e.postorder := by
  cases e with
  | castNumber typeName literal =>
      exact allMadeOf_singleton
        (.typedConst (by simp [CastTree.tokens]) (by simp [CastTree.tokens]))
  | cast typeName e =>
      have he : AllMadeOf (CastTree.cast typeName e).tokens e.postorder :=
        e.madeOf.mono fun t ht => by simp [CastTree.tokens, ht]
      exact he.concat (.cast (by simp [CastTree.tokens]))
  | number literal => exact allMadeOf_singleton (.const List.mem_cons_self)
  | plain e => exact e.madeOf

theorem CallTree.madeOf (e : CallTree) : AllMadeOf e.tokens e.postorder := by
  cases e with
  | call f args =>
      have hargs : AllMadeOf (CallTree.call f args).tokens args.postorder :=
        args.madeOf.mono fun t ht => by simp [CallTree.tokens, ht]
      exact hargs.concat (.call List.mem_cons_self)
  | group e => exact e.madeOf.mono fun t ht => by simp [CallTree.tokens, ht]
  | name x => exact allMadeOf_singleton (.read List.mem_cons_self)

theorem ArgsTree.madeOf (args : ArgsTree) : AllMadeOf args.tokens args.postorder := by
  cases args with
  | last e => exact e.madeOf.mono fun t ht => by simp [ArgsTree.tokens, ht]
  | more e rest =>
      have he := e.madeOf.mono (List.subset_append_left e.tokens (.comma :: rest.tokens))
      have hrest := rest.madeOf.mono
        (List.subset_append_of_subset_right e.tokens (List.subset_cons_self .comma _))
      exact he.append hrest

end

theorem AssignTree.madeOf (a : AssignTree) : AllMadeOf a.tokens a.postorder := by
  have hvalue : AllMadeOf a.tokens a.value.postorder :=
    a.value.madeOf.mono fun t ht => by simp [AssignTree.tokens, ht]
  exact hvalue.concat (.write List.mem_cons_self)

theorem ProgramTree.madeOf (t : ProgramTree) : AllMadeOf t.tokens t.postorder := by
  induction t with
  | last a => exact a.madeOf
  | more a rest ih =>
      exact (a.madeOf.mono (List.subset_append_left _ _)).append
        (ih.mono (List.subset_append_right _ _))

theorem MadeOf.hasWords {ts : List Token} {i : Instruction} (h : MadeOf ts i)
    (hts : ∀ t ∈ ts, t.IsPlain) : i.HasWords := by
  cases h with
  | read h | write h | cast h =>
      exact List.forall_mem_cons.mpr ⟨by decide, List.forall_mem_singleton.mpr (hts _ h)⟩
  | const h => exact List.forall_mem_cons.mpr ⟨by decide, List.forall_mem_singleton.mpr (hts _ h)⟩
  | typedConst ht h =>
      exact List.forall_mem_cons.mpr ⟨by decide, List.forall_mem_cons.mpr
        ⟨hts _ ht, List.forall_mem_singleton.mpr (hts _ h)⟩⟩
  | @sign s _ h =>
      cases s with
      | plus => cases h
      | minus | not =>
          obtain rfl := List.mem_singleton.mp h
          exact List.forall_mem_singleton.mpr (by decide)
  | operation op => cases op <;> exact List.forall_mem_singleton.mpr (by decide)
  | call h => exact List.forall_mem_singleton.mpr (Text.isWord_uppercase (hts _ h))

variable [Lexicon]

def statements (text : String) : Except SyntaxError (List Assignment) :=
  lex text >>= parse

theorem toPostfix_madeOf {text code : String} (h : toPostfix text = .ok code) :
    ∃ ts as, lex text = .ok ts ∧ statements text = .ok as ∧ code = Postfix.text (programCode as) ∧
      AllMadeOf (tokensOf ts) (programCode as) := by
  obtain ⟨e, hemit, -⟩ := map_eq_ok h
  obtain ⟨ts, hlex⟩ := lex_of_emitText hemit
  rw [toPostfix_of_lex hlex] at h
  obtain ⟨as, hparse, rfl⟩ := map_eq_ok h
  obtain ⟨t, ht, rfl⟩ := parse_sound hparse
  refine ⟨ts, t.assignments, hlex, ?_, rfl, ?_⟩
  · rw [statements, hlex]
    exact hparse
  · rw [t.programCode_assignments, ← ht]
    exact t.madeOf

theorem toPostfix_eq_ok {text code : String} (h : toPostfix text = .ok code) :
    ∃ as, statements text = .ok as ∧ code = Postfix.text (programCode as) ∧
      ∀ i ∈ programCode as, i.HasWords := by
  obtain ⟨ts, as, hlex, hstatements, hcode, hmade⟩ := toPostfix_madeOf h
  exact ⟨as, hstatements, hcode, fun i hi =>
    (hmade i hi).hasWords fun t ht => (isScanned_of_lex hlex t ht).isPlain⟩

theorem toPostfix_of_statements {formula : String} {as : List Assignment}
    (h : statements formula = .ok as) :
    toPostfix formula = .ok (Postfix.text (programCode as)) := by
  obtain ⟨ts, hlex, hparse⟩ := bind_eq_ok h
  rw [toPostfix_of_lex hlex, hparse]
  rfl

theorem emitText_of_statements {formula : String} {as : List Assignment}
    (h : statements formula = .ok as) :
    emitText formula = .ok ⟨Postfix.text (programCode as), [], [], none⟩ := by
  obtain ⟨ts, hlex, hparse⟩ := bind_eq_ok h
  rw [emitText_of_lex hlex, hparse]
  rfl

end Code

end FormulaMachine.Infix
