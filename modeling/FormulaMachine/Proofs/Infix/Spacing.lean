import FormulaMachine.Proofs.Infix.Pieces

namespace FormulaMachine.Infix

namespace Scan

variable {p : Char → Bool} {b c : Char} {cs ds rest : List Char} {t : Token} {n : Nat}

theorem takeWhile_append_of_head (h : ∀ c ∈ cs, p c) (hrest : ∀ c ∈ rest.head?, p c = false) :
    (cs ++ rest).takeWhile p = cs := by
  rw [List.takeWhile_append_of_pos h]
  cases rest with
  | nil => exact List.append_nil cs
  | cons c rest =>
      have hc := hrest c rfl
      rw [List.takeWhile_cons_of_neg (by simp [hc]), List.append_nil]

theorem countWhile_append_of_head (h : ∀ c ∈ cs, p c) (hrest : ∀ c ∈ rest.head?, p c = false) :
    countWhile p (cs ++ rest) = cs.length := by
  rw [countWhile, takeWhile_append_of_head h hrest]

theorem exists_takeWhile_append (h : (cs.takeWhile p).length ≠ cs.length) :
    ∃ d rest, cs = cs.takeWhile p ++ d :: rest ∧ p d = false := by
  have happ := List.takeWhile_append_dropWhile (p := p) (l := cs)
  cases hrest : cs.dropWhile p with
  | nil =>
      rw [hrest, List.append_nil] at happ
      exact absurd (congrArg List.length happ) h
  | cons d rest =>
      have hd := List.head?_dropWhile_not p cs
      rw [hrest] at happ hd
      exact ⟨d, rest, happ.symm, by simpa using hd⟩

section Number

variable [Text.Characters] {whole fraction exponent : List Char}

theorem IsExponent.head (h : IsExponent exponent) :
    ∀ c ∈ exponent.head?, c = 'e' ∨ c = 'E' := by
  cases h with
  | missing => simp
  | power hletter => simpa using hletter

theorem IsExponent.head_not_decimal (h : IsExponent exponent) :
    ∀ c ∈ exponent.head?, Text.isDecimalDigit c = false := by
  intro c hc
  rcases h.head c hc with rfl | rfl <;> exact Text.isDecimalDigit_eq_false (by decide) (by decide)

theorem IsExponent.exponentLength_eq (h : IsExponent exponent) :
    exponentLength exponent = exponent.length := by
  cases h with
  | missing => rfl
  | @power letter sign digits hletter hsign hdigits hne =>
      have hcount : countWhile Text.isDecimalDigit digits = digits.length := by
        rw [countWhile, List.takeWhile_eq_self_iff.mpr hdigits]
      have hlength (m : Nat) : exponentDigits m digits = m + digits.length := by
        unfold exponentDigits
        rw [hcount]
        split
        · rename_i hzero
          exact absurd (List.length_eq_zero_iff.mp hzero) hne
        · rfl
      rcases hsign with rfl | rfl | rfl
      · obtain ⟨d, digits, rfl⟩ := List.exists_cons_of_ne_nil hne
        have hd := hdigits d List.mem_cons_self
        have hplus : d ≠ '+' := by
          rintro rfl
          simp [Text.isDecimalDigit_eq_false] at hd
        have hminus : d ≠ '-' := by
          rintro rfl
          simp [Text.isDecimalDigit_eq_false] at hd
        simp [exponentLength, hletter, hplus, hminus, hlength, Nat.add_comm]
      · simp only [exponentLength, if_pos hletter, hlength, List.singleton_append,
          List.length_cons]
        omega
      · simp only [exponentLength, if_pos hletter, hlength, List.singleton_append,
          List.length_cons]
        omega

theorem IsFraction.fractionLength_eq (h : IsFraction fraction) (hexponent : IsExponent exponent) :
    fractionLength (fraction ++ exponent) = fraction.length := by
  cases h with
  | missing =>
      unfold fractionLength
      split
      · rename_i heq
        rw [List.nil_append] at heq
        have hhead := hexponent.head '.' (by rw [heq]; rfl)
        simp at hhead
      · rfl
  | point hdigits =>
      rw [List.cons_append, fractionLength,
        countWhile_append_of_head hdigits hexponent.head_not_decimal, List.length_cons,
        Nat.add_comm]

theorem IsNumber.numberLength_eq (h : IsNumber cs) : numberLength cs = cs.length := by
  cases h with
  | @parts whole fraction exponent hwhole hfraction hexponent =>
      have hhead : ∀ c ∈ (fraction ++ exponent).head?, Text.isDecimalDigit c = false := by
        cases hfraction with
        | missing => exact hexponent.head_not_decimal
        | point =>
            intro c hc
            obtain rfl : '.' = c := by simpa using hc
            exact Text.isDecimalDigit_eq_false (by decide) (by decide)
      unfold numberLength
      dsimp only
      rw [List.append_assoc, countWhile_append_of_head hwhole hhead, List.drop_left,
        hfraction.fractionLength_eq hexponent, ← List.append_assoc, ← List.length_append,
        List.drop_left, hexponent.exponentLength_eq, ← List.length_append]

end Number

theorem quoted_append (h : quoted cs = .token t n) (ds : List Char) :
    n ≤ cs.length ∧ quoted (cs.take n ++ ds) = .token t n := by
  unfold quoted at h
  dsimp only at h
  split at h
  · cases h
  rename_i hclosed
  split at h
  · cases h
  rename_i hne
  split at h
  · rename_i hblank
    obtain ⟨rfl, rfl⟩ := Scan.token.inj h
    obtain ⟨d, rest, hcs, hd⟩ := exists_takeWhile_append hclosed
    obtain rfl : d = '"' := by simpa using hd
    obtain ⟨name, hname⟩ : ∃ name, cs.takeWhile (· != '"') = name := ⟨_, rfl⟩
    have hall : ∀ c ∈ name, (c != '"') = true := by
      rw [← hname]
      intro c hc
      exact List.mem_takeWhile_imp (p := (· != '"')) hc
    rw [hname] at hcs
    rw [hname] at hne hblank ⊢
    have htake : cs.take (name.length + 1) = name ++ ['"'] := by
      rw [hcs, List.take_append, List.take_of_length_le (Nat.le_succ _), Nat.add_sub_cancel_left]
      rfl
    have hwhile : (name ++ '"' :: ds).takeWhile (· != '"') = name :=
      takeWhile_append_of_head hall (by simp)
    refine ⟨by rw [hcs, List.length_append, List.length_cons]; omega, ?_⟩
    rw [htake, List.append_assoc, List.singleton_append, quoted, hwhile]
    rw [if_neg (by rw [List.length_append, List.length_cons]; omega), if_neg hne, hblank]
  · cases h

theorem oneOrTwo_apart {second : Char} {two one : Token}
    (h : oneOrTwo second two one cs = .token t n) (hrest : ∀ b ∈ rest.head?, b ≠ second) :
    n ≤ cs.length ∧ oneOrTwo second two one (cs.take n ++ rest) = .token t n := by
  have hone : oneOrTwo second two one rest = .token one 0 := by
    cases rest with
    | nil => rfl
    | cons b rest => exact if_neg (hrest b rfl)
  unfold oneOrTwo at h
  split at h
  · split at h
    · rename_i hsecond
      obtain ⟨rfl, rfl⟩ := Scan.token.inj h
      exact ⟨Nat.succ_le_succ (Nat.zero_le _), if_pos hsecond⟩
    · obtain ⟨rfl, rfl⟩ := Scan.token.inj h
      exact ⟨Nat.zero_le _, hone⟩
  · obtain ⟨rfl, rfl⟩ := Scan.token.inj h
    exact ⟨Nat.zero_le _, hone⟩

theorem slash_apart (h : slash cs = .token t n) (hrest : ∀ b ∈ rest.head?, Text.isBlank b) :
    n ≤ cs.length ∧ slash (cs.take n ++ rest) = .token t n := by
  unfold slash at h
  split at h
  · cases h
  · split at h <;> cases h
  · obtain ⟨rfl, rfl⟩ := Scan.token.inj h
    refine ⟨Nat.zero_le _, ?_⟩
    rw [List.take_zero, List.nil_append, slash]
    · rintro ds' rfl
      exact absurd (hrest '/' rfl) (by decide)
    · rintro ds' rfl
      exact absurd (hrest '*' rfl) (by decide)

theorem not_ofNumber_of_isBlank [Text.Characters] (hb : Text.isBlank b) : ¬ OfNumber b := by
  intro h
  rw [h.not_isBlank] at hb
  cases hb

variable [Lexicon]

theorem number_apart (h : number cs = .token t n) (hrest : ∀ b ∈ rest.head?, Text.isBlank b) :
    n + 1 ≤ cs.length ∧ number (cs.take (n + 1) ++ rest) = .token t n := by
  have hle := numberLength_le cs
  have hlength : (cs.take (numberLength cs)).length = numberLength cs := List.length_take_of_le hle
  have hagain := (isNumber_take cs).numberLength_eq
  have h' := h
  unfold number at h'
  rw [Lexicon.matchLength_eq] at h'
  dsimp only at h'
  split at h'
  · rename_i hdigit
    obtain ⟨-, rfl⟩ := Scan.token.inj h'
    have hpos : 0 < numberLength cs := by
      obtain ⟨d, hd, -⟩ := List.any_eq_true.mp hdigit
      rw [← hlength]
      exact List.length_pos_of_mem hd
    have hn : (cs.take (numberLength cs)).length - 1 + 1 = numberLength cs := by
      rw [hlength]
      omega
    rw [hn]
    refine ⟨hle, ?_⟩
    -- the blank is no part of a number, and the lexeme by itself is scanned to its end
    have hcut : number (cs.take (numberLength cs) ++ rest) =
        number (cs.take (numberLength cs)) := by
      cases rest with
      | nil => rw [List.append_nil]
      | cons b rest => exact number_append (not_ofNumber_of_isBlank (hrest b rfl)) _ rest
    rw [hcut, ← h]
    unfold number
    rw [Lexicon.matchLength_eq, Lexicon.matchLength_eq, hagain, List.take_length]
  · cases h'

theorem identifier_apart (h : identifier c cs = .token t n)
    (hrest : ∀ b ∈ rest.head?, Text.isBlank b) :
    n ≤ cs.length ∧ identifier c (cs.take n ++ rest) = .token t n := by
  obtain ⟨rfl, rfl⟩ := Scan.token.inj h
  have htake : cs.take (cs.takeWhile continuesIdentifier).length =
      cs.takeWhile continuesIdentifier := take_countWhile continuesIdentifier cs
  have hstop : ∀ b ∈ rest.head?, continuesIdentifier b = false := by
    intro b hb
    have hblank := hrest b hb
    cases hcontinues : continuesIdentifier b with
    | false => rfl
    | true =>
        rw [not_isBlank_of_continuesIdentifier hcontinues] at hblank
        cases hblank
  refine ⟨countWhile_le continuesIdentifier cs, ?_⟩
  have hwhile : (cs.takeWhile continuesIdentifier ++ rest).takeWhile continuesIdentifier =
      cs.takeWhile continuesIdentifier :=
    takeWhile_append_of_head (fun c hc => List.mem_takeWhile_imp hc) hstop
  rw [htake, identifier, hwhile]

theorem ofChars_of_isBlank (hb : Text.isBlank b) (cs : List Char) : ofChars b cs = .skip 0 := by
  have hidentifier : startsIdentifier b = false := by
    cases hstarts : startsIdentifier b with
    | false => rfl
    | true =>
        rw [not_isBlank_of_startsIdentifier hstarts] at hb
        cases hb
  have hnumber : startsNumber b = false := by
    cases hstarts : startsNumber b with
    | false => rfl
    | true =>
        rcases Bool.or_eq_true_iff.mp hstarts with hdigit | hpoint
        · exact absurd (.digit (Text.isDecimalDigit_of_isDigit hdigit)) (not_ofNumber_of_isBlank hb)
        · exact absurd hb (by rw [beq_iff_eq.mp hpoint]; decide)
  unfold ofChars
  split
  case h_17 => simp [hidentifier, hnumber, hb]
  all_goals exact absurd hb (by decide)

theorem ofChars_apart (h : ofChars c cs = .token t n) (hrest : ∀ b ∈ rest.head?, Text.isBlank b) :
    n ≤ cs.length ∧ ofChars c (cs.take n ++ rest) = .token t n := by
  have hne {d : Char} (hd : Text.isBlank d = false) : ∀ b ∈ rest.head?, b ≠ d := by
    rintro b hb rfl
    have hblank := hrest b hb
    rw [hd] at hblank
    cases hblank
  unfold ofChars at h ⊢
  split at h
  case h_1 => exact slash_apart h hrest
  case h_2 | h_3 | h_4 | h_5 | h_6 | h_7 => exact oneOrTwo_apart h (hne (by decide))
  case h_16 => exact quoted_append h rest
  case h_17 =>
    split
    · rename_i hc
      rw [if_pos hc] at h
      exact identifier_apart h hrest
    · rename_i hc
      rw [if_neg hc] at h
      split
      · rename_i hc
        rw [if_pos hc] at h
        obtain ⟨hle, hnumber⟩ := number_apart h hrest
        exact ⟨Nat.le_of_succ_le_succ hle, hnumber⟩
      · rename_i hc
        rw [if_neg hc] at h
        split at h <;> cases h
  all_goals
    obtain ⟨rfl, rfl⟩ := Scan.token.inj h
    exact ⟨Nat.zero_le _, rfl⟩

end Scan

theorem byteLength_ofList (cs : List Char) : byteLength cs = (String.ofList cs).utf8ByteSize := by
  induction cs with
  | nil => rfl
  | cons c cs ih =>
      rw [byteLength, ih, String.ofList_cons, String.utf8ByteSize_append,
        String.utf8ByteSize_singleton]

theorem byteLength_take_add (c : Char) (cs : List Char) (n : Nat) :
    byteLength (c :: cs.take n) + byteLength (cs.drop n) = byteLength (c :: cs) := by
  rw [← byteLength_append, List.cons_append, List.take_append_drop]

variable [Lexicon]

section Whole

variable {b c : Char} {cs : List Char} {t : Token} {n : Nat}

theorem whole_of_ofChars (h : Scan.ofChars c cs = .token t n) (hb : Text.isBlank b) :
    Whole (c :: cs.take n ++ [b]) [t] := by
  intro ds us hds
  have hrest : ∀ x ∈ (b :: ds).head?, Text.isBlank x := by simpa using hb
  obtain ⟨hle, hscan⟩ := Scan.ofChars_apart h hrest
  rw [List.append_assoc, List.cons_append, List.singleton_append, List.singleton_append]
  refine .token hscan ?_
  rw [List.drop_left' (List.length_take_of_le hle)]
  exact .skip (Scan.ofChars_of_isBlank hb ds) hds

end Whole

def Token.Spelled (t : Token) : Prop := ∃ cs, Whole cs [t]

theorem spelled_of_lex {text : String} {ts : List Located} (h : lex text = .ok ts) :
    ∀ t ∈ tokensOf ts, t.Spelled :=
  forall_tokensOf_of_lex (fun _ _ _ _ ht => ⟨_, whole_of_ofChars (b := ' ') ht (by decide)⟩) h

theorem exists_whole {us : List Token} (h : ∀ t ∈ us, t.Spelled) : ∃ cs, Whole cs us := by
  induction us with
  | nil => exact ⟨[], whole_nil⟩
  | cons t us ih =>
      obtain ⟨ht, hus⟩ := List.forall_mem_cons.mp h
      obtain ⟨cs, hcs⟩ := ht
      obtain ⟨ds, hds⟩ := ih hus
      exact ⟨cs ++ ds, hcs.append hds⟩

theorem exists_lex_of_spelled {us : List Token} (h : ∀ t ∈ us, t.Spelled) :
    ∃ text ts, lex text = .ok ts ∧ tokensOf ts = us := by
  obtain ⟨cs, hcs⟩ := exists_whole h
  have hreads : Reads (String.ofList cs).toList us := by
    rw [String.toList_ofList]
    exact hcs.reads
  exact ⟨String.ofList cs, exists_lex_iff_reads.mpr hreads⟩

section Spans

theorem spans_of_lexFrom {seen ts : List Located} {pos : Nat} {cs : List Char}
    (hseen : ∀ t ∈ seen, t.start ≤ t.stop ∧ t.stop ≤ pos) (h : lexFrom seen pos cs = .ok ts) :
    ∀ t ∈ ts, t.start ≤ t.stop ∧ t.stop ≤ pos + byteLength cs := by
  fun_induction lexFrom seen pos cs with
  | case1 seen pos =>
      obtain rfl := Except.ok.inj h
      simpa [byteLength] using hseen
  | case2 seen pos c cs n _ ih =>
      rw [← byteLength_take_add c cs n, ← Nat.add_assoc]
      refine ih (fun t ht => ?_) h
      obtain ⟨hspan, hstop⟩ := hseen t ht
      exact ⟨hspan, hstop.trans (Nat.le_add_right _ _)⟩
  | case3 seen pos c cs t n _ stop ih =>
      rw [← byteLength_take_add c cs n, ← Nat.add_assoc]
      refine ih (List.forall_mem_cons.mpr ⟨⟨Nat.le_add_right _ _, le_rfl⟩, fun u hu => ?_⟩) h
      obtain ⟨hspan, hstop⟩ := hseen u hu
      exact ⟨hspan, hstop.trans (Nat.le_add_right _ _)⟩
  | case4 => cases h

theorem spans_of_lex {text : String} {ts : List Located} (h : lex text = .ok ts) :
    ∀ t ∈ ts, t.start ≤ t.stop ∧ t.stop ≤ text.utf8ByteSize := by
  have hspans := spans_of_lexFrom (by simp) h
  rwa [Nat.zero_add, byteLength_ofList, String.ofList_toList] at hspans

end Spans

end FormulaMachine.Infix
