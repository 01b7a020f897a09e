import FormulaMachine.Proofs.Infix.Words

namespace FormulaMachine.Infix

def Closer.char : Closer → Char
  | .semicolon => ';'
  | .comma => ','

namespace Scan

def Within (n : Nat) : Scan → Prop
  | .skip more | .token _ more => more ≤ n
  | .fault .. => False

section Locality

variable {p : Char → Bool} {c x : Char} {cs ds ds' : List Char} {k : Closer} {s : Scan}

theorem takeWhile_congr (h : ((cs ++ x :: ds).takeWhile p).length ≤ cs.length) :
    (cs ++ x :: ds').takeWhile p = (cs ++ x :: ds).takeWhile p := by
  induction cs with
  | nil =>
      have hx : ¬ p x := by
        intro hx
        rw [List.nil_append, List.takeWhile_cons_of_pos hx] at h
        exact absurd h (Nat.not_succ_le_zero _)
      rw [List.nil_append, List.nil_append, List.takeWhile_cons_of_neg hx,
        List.takeWhile_cons_of_neg hx]
  | cons c cs ih =>
      rw [List.cons_append, List.cons_append]
      rw [List.cons_append] at h
      by_cases hc : p c
      · rw [List.takeWhile_cons_of_pos hc] at h ⊢
        rw [List.takeWhile_cons_of_pos hc, ih (Nat.le_of_succ_le_succ h)]
      · rw [List.takeWhile_cons_of_neg hc, List.takeWhile_cons_of_neg hc]

theorem countWhile_append_cons (hx : p x = false) (cs ds : List Char) :
    countWhile p (cs ++ x :: ds) = countWhile p cs := by
  unfold countWhile
  rw [List.takeWhile_append, List.takeWhile_cons_of_neg (Bool.not_eq_true _ ▸ hx), List.append_nil]
  split
  · rename_i hall
    exact hall.symm
  · rfl

theorem le_of_commentLengthFrom? {n m : Nat} (h : commentLengthFrom? n cs = some m) :
    n + 2 ≤ m := by
  fun_induction commentLengthFrom? n cs with
  | case1 n cs => exact (Option.some.inj h).le
  | case2 n c cs _ ih => exact (Nat.le_succ _).trans (ih h)
  | case3 => cases h

theorem commentLengthFrom?_congr {n m : Nat}
    (h : commentLengthFrom? n (cs ++ k.char :: ds) = some m) (hm : m ≤ n + cs.length) :
    commentLengthFrom? n (cs ++ k.char :: ds') = some m := by
  induction cs generalizing n with
  | nil =>
      have hle : n + 1 + 2 ≤ m := by
        cases k <;> exact le_of_commentLengthFrom? h
      rw [List.length_nil] at hm
      omega
  | cons c cs ih =>
      by_cases hend : c = '*' ∧ ∃ es, cs = '/' :: es
      · obtain ⟨rfl, es, rfl⟩ := hend
        exact h
      have hnext (ds : List Char) : commentLengthFrom? n (c :: cs ++ k.char :: ds) =
          commentLengthFrom? (n + 1) (cs ++ k.char :: ds) := by
        refine commentLengthFrom?.eq_2 n c _ fun es hc hes => hend ⟨hc, ?_⟩
        cases cs with
        | nil => cases k <;> cases hes
        | cons d cs => exact ⟨cs, congrArg (· :: cs) (List.cons.inj hes).1⟩
      rw [hnext] at h ⊢
      rw [List.length_cons] at hm
      exact ih h (by omega)

theorem slash_congr (h : (slash (cs ++ k.char :: ds)).Within cs.length) :
    slash (cs ++ k.char :: ds') = slash (cs ++ k.char :: ds) := by
  cases cs with
  | nil => cases k <;> rfl
  | cons c cs =>
      by_cases hline : c = '/'
      · subst hline
        change 1 + countWhile (· != '\n') (cs ++ k.char :: ds) ≤ cs.length + 1 at h
        have hle : countWhile (· != '\n') (cs ++ k.char :: ds) ≤ cs.length := by omega
        exact congrArg (fun line => Scan.skip (1 + line.length)) (takeWhile_congr hle)
      by_cases hblock : c = '*'
      · subst hblock
        rw [List.cons_append, slash] at h
        rw [List.cons_append, List.cons_append, slash, slash]
        cases hlength : commentLengthFrom? 1 (cs ++ k.char :: ds) with
        | none =>
            rw [hlength] at h
            exact h.elim
        | some n =>
            rw [hlength] at h
            rw [commentLengthFrom?_congr hlength (by rw [Nat.add_comm]; exact h)]
      · rw [List.cons_append, List.cons_append, slash, slash] <;> simp [hline, hblock]

theorem oneOrTwo_congr (second : Char) (two one : Token) :
    oneOrTwo second two one (cs ++ x :: ds') = oneOrTwo second two one (cs ++ x :: ds) := by
  cases cs <;> rfl

theorem quoted_congr (h : (quoted (cs ++ x :: ds)).Within cs.length) :
    quoted (cs ++ x :: ds') = quoted (cs ++ x :: ds) := by
  have hlt : ((cs ++ x :: ds).takeWhile (· != '"')).length < cs.length := by
    unfold quoted at h
    dsimp only at h
    split at h
    · exact h.elim
    split at h
    · exact h.elim
    split at h
    · exact h
    · exact h.elim
  have hne (es : List Char) :
      ((cs ++ x :: ds).takeWhile (· != '"')).length ≠ (cs ++ x :: es).length := by
    rw [List.length_append]
    omega
  unfold quoted
  dsimp only
  rw [takeWhile_congr hlt.le, if_neg (hne ds'), if_neg (hne ds)]

theorem countWhile_le (p : Char → Bool) (cs : List Char) : countWhile p cs ≤ cs.length :=
  (List.takeWhile_prefix p).length_le

theorem Within.mono {n m : Nat} (h : s.Within n) (hm : n ≤ m) : s.Within m := by
  cases s with
  | skip | token => exact h.trans hm
  | fault => exact h

variable [Lexicon]

theorem identifier_congr (h : (identifier c (cs ++ x :: ds)).Within cs.length) :
    identifier c (cs ++ x :: ds') = identifier c (cs ++ x :: ds) := by
  unfold identifier
  rw [takeWhile_congr h]

theorem not_ofNumber_char (k : Closer) : ¬ OfNumber k.char := by
  cases k <;> exact not_ofNumber (Text.isDecimalDigit_eq_false (by decide) (by decide)) (by decide)

theorem countDigits_append (hx : ¬ OfNumber x) (cs ds : List Char) :
    countWhile Text.isDecimalDigit (cs ++ x :: ds) = countWhile Text.isDecimalDigit cs :=
  countWhile_append_cons (Bool.eq_false_iff.mpr fun h => hx (.digit h)) cs ds

theorem fractionLength_le (cs : List Char) : fractionLength cs ≤ cs.length := by
  unfold fractionLength
  split
  · rw [List.length_cons, Nat.add_comm]
    exact Nat.succ_le_succ (countWhile_le _ _)
  · exact Nat.zero_le _

theorem exponentDigits_le (n : Nat) (cs : List Char) : exponentDigits n cs ≤ n + cs.length := by
  have hle := countWhile_le Text.isDecimalDigit cs
  unfold exponentDigits
  split <;> omega

theorem exponentLength_le (cs : List Char) : exponentLength cs ≤ cs.length := by
  unfold exponentLength
  split
  case h_1 cs | h_2 cs =>
    have hle := exponentDigits_le 2 cs
    simp only [List.length_cons]
    split <;> omega
  case h_3 cs _ _ =>
    have hle := exponentDigits_le 1 cs
    simp only [List.length_cons]
    split <;> omega
  case h_4 => exact Nat.zero_le _

theorem fractionLength_append (hx : ¬ OfNumber x) (cs ds : List Char) :
    fractionLength (cs ++ x :: ds) = fractionLength cs := by
  cases cs with
  | nil =>
      have hpoint : x ≠ '.' := fun h => hx (h ▸ .point)
      simp [fractionLength, hpoint]
  | cons c cs =>
      by_cases hpoint : c = '.'
      · subst hpoint
        exact congrArg (1 + ·) (countDigits_append hx cs ds)
      · simp [fractionLength, hpoint]

theorem exponentLength_of_not_mark (hc : ¬ (c = 'e' ∨ c = 'E')) : exponentLength (c :: cs) = 0 := by
  unfold exponentLength
  split
  case h_1 heq | h_2 heq | h_3 heq =>
    obtain ⟨rfl, -⟩ := List.cons.inj heq
    exact if_neg hc
  case h_4 heq => cases heq

theorem exponentLength_append (hx : ¬ OfNumber x) (cs ds : List Char) :
    exponentLength (cs ++ x :: ds) = exponentLength cs := by
  have hdigits (n : Nat) (cs : List Char) :
      exponentDigits n (cs ++ x :: ds) = exponentDigits n cs := by
    rw [exponentDigits, countDigits_append hx, exponentDigits]
  match cs with
  | [] => exact exponentLength_of_not_mark fun hmark => hx (.exponent hmark)
  | [c] =>
      have hplus : x ≠ '+' := fun h => hx (h ▸ .plus)
      have hminus : x ≠ '-' := fun h => hx (h ▸ .minus)
      have hnext := hdigits 1 []
      rw [List.nil_append] at hnext
      simp [exponentLength, hplus, hminus, hnext]
  | c :: d :: cs =>
      have hnext := hdigits 1 (d :: cs)
      rw [List.cons_append] at hnext
      by_cases hplus : d = '+'
      · simp [hplus, exponentLength, hdigits]
      by_cases hminus : d = '-'
      · simp [hminus, exponentLength, hdigits]
      · simp [hplus, hminus, exponentLength, hnext]

theorem numberLength_append (hx : ¬ OfNumber x) (cs ds : List Char) :
    numberLength (cs ++ x :: ds) = numberLength cs := by
  have hwhole := countWhile_le Text.isDecimalDigit cs
  have hfraction := fractionLength_le (cs.drop (countWhile Text.isDecimalDigit cs))
  rw [List.length_drop] at hfraction
  unfold numberLength
  dsimp only
  rw [countDigits_append hx, List.drop_append_of_le_length hwhole,
    fractionLength_append hx, List.drop_append_of_le_length (by omega),
    exponentLength_append hx]

theorem numberLength_le (cs : List Char) : numberLength cs ≤ cs.length := by
  have hwhole := countWhile_le Text.isDecimalDigit cs
  have hfraction := fractionLength_le (cs.drop (countWhile Text.isDecimalDigit cs))
  have hexponent := exponentLength_le (cs.drop (countWhile Text.isDecimalDigit cs +
    fractionLength (cs.drop (countWhile Text.isDecimalDigit cs))))
  rw [List.length_drop] at hfraction hexponent
  unfold numberLength
  dsimp only
  omega

theorem number_append (hx : ¬ OfNumber x) (cs ds : List Char) :
    number (cs ++ x :: ds) = number cs := by
  unfold number
  rw [Lexicon.matchLength_eq, Lexicon.matchLength_eq, numberLength_append hx,
    List.take_append_of_le_length (numberLength_le cs)]

theorem ofChars_congr (h : (ofChars c (cs ++ k.char :: ds)).Within cs.length) :
    ofChars c (cs ++ k.char :: ds') = ofChars c (cs ++ k.char :: ds) := by
  unfold ofChars at h ⊢
  split at h
  case h_1 => exact slash_congr h
  case h_2 | h_3 | h_4 | h_5 | h_6 | h_7 => exact oneOrTwo_congr _ _ _
  case h_16 => exact quoted_congr h
  case h_17 =>
    split
    · rename_i hc
      rw [if_pos hc] at h
      exact identifier_congr h
    split
    · have hk := not_ofNumber_char k
      exact (number_append hk (c :: cs) ds').trans (number_append hk (c :: cs) ds).symm
    · rfl
  all_goals rfl

theorem ofChars_cut {front back : List Char} {n : Nat} (hdrop : cs.drop n = front ++ k.char :: back)
    (h : ofChars c cs = s) (hs : s.Within n) :
    ∃ before, cs = before ++ (front ++ k.char :: back) ∧ ∀ ds,
      ofChars c (before ++ (front ++ k.char :: ds)) = s ∧
        (before ++ (front ++ k.char :: ds)).drop n = front ++ k.char :: ds := by
  have hlength : (cs.take n).length = n := by
    have hrest := congrArg List.length hdrop
    rw [List.length_drop, List.length_append, List.length_cons] at hrest
    rw [List.length_take]
    omega
  have hcs : cs = cs.take n ++ (front ++ k.char :: back) := by
    rw [← hdrop, List.take_append_drop]
  refine ⟨cs.take n, hcs, fun ds => ⟨?_, List.drop_left' hlength⟩⟩
  have hwithin : s.Within (cs.take n ++ front).length := by
    refine hs.mono ?_
    rw [List.length_append, hlength]
    exact Nat.le_add_right _ _
  rw [hcs, ← List.append_assoc] at h
  rw [← List.append_assoc]
  exact (ofChars_congr (h ▸ hwithin)).trans h

end Locality

theorem exists_ident_of_quoted {cs : List Char} {t : Token} {n : Nat}
    (h : quoted cs = .token t n) : ∃ name, t = .ident name := by
  unfold quoted at h
  dsimp only at h
  split at h
  · cases h
  split at h
  · cases h
  split at h
  · exact ⟨_, (Scan.token.inj h).1.symm⟩
  · cases h

section Closers

variable [Lexicon]

theorem ofChars_char (k : Closer) (cs : List Char) : ofChars k.char cs = .token k.token 0 := by
  cases k <;> rfl

theorem eq_char_of_ofChars {c : Char} {cs : List Char} {k : Closer} {n : Nat}
    (h : ofChars c cs = .token k.token n) : c = k.char ∧ n = 0 := by
  unfold ofChars at h
  split at h
  case h_1 =>
    unfold slash at h
    split at h
    · cases h
    · split at h <;> cases h
    · cases k <;> cases h
  case h_2 | h_3 | h_4 | h_5 | h_6 | h_7 =>
    rcases eq_of_oneOrTwo h with ht | ht <;> cases k <;> cases ht
  case h_16 =>
    obtain ⟨name, ht⟩ := exists_ident_of_quoted h
    cases k <;> cases ht
  case h_17 =>
    split at h
    · cases k <;> cases h
    split at h
    · unfold number at h
      dsimp only at h
      split at h
      · cases k <;> cases h
      · cases h
    split at h <;> cases h
  case h_14 | h_15 =>
    cases k <;> cases h
    exact ⟨rfl, rfl⟩
  all_goals cases k <;> cases h

end Closers

end Scan

theorem ProgramTree.exists_list (t : ProgramTree) :
    ∃ xs : List AssignTree, xs ≠ [] ∧ t.assignments = xs.map AssignTree.assignment ∧
      t.tokens = xs.flatMap AssignTree.tokens := by
  induction t with
  | last a => exact ⟨[a], by simp, rfl, by simp [tokens]⟩
  | more a t ih =>
      obtain ⟨xs, -, has, hts⟩ := ih
      exact ⟨a :: xs, by simp, by rw [assignments, has, List.map_cons], by
        rw [tokens, hts, List.flatMap_cons]⟩

theorem ProgramTree.exists_of_list {xs : List AssignTree} (h : xs ≠ []) :
    ∃ t : ProgramTree, t.assignments = xs.map AssignTree.assignment ∧
      t.tokens = xs.flatMap AssignTree.tokens := by
  induction xs with
  | nil => exact absurd rfl h
  | cons a xs ih =>
      cases xs with
      | nil => exact ⟨.last a, rfl, by simp [tokens]⟩
      | cons b xs =>
          obtain ⟨t, has, hts⟩ := ih (List.cons_ne_nil _ _)
          exact ⟨.more a t, by rw [assignments, has]; rfl, by rw [tokens, hts]; rfl⟩

variable [Lexicon]

inductive Reads : List Char → List Token → Prop
  | nil : Reads [] []
  | skip {c : Char} {cs : List Char} {n : Nat} {ts : List Token} :
      Scan.ofChars c cs = .skip n → Reads (cs.drop n) ts → Reads (c :: cs) ts
  | token {c : Char} {cs : List Char} {t : Token} {n : Nat} {ts : List Token} :
      Scan.ofChars c cs = .token t n → Reads (cs.drop n) ts → Reads (c :: cs) (t :: ts)

theorem reads_of_lexFrom {seen ts : List Located} {pos : Nat} {cs : List Char}
    (h : lexFrom seen pos cs = .ok ts) :
    ∃ us, ts = seen.reverse ++ us ∧ Reads cs (tokensOf us) := by
  fun_induction lexFrom seen pos cs with
  | case1 seen pos =>
      obtain rfl := Except.ok.inj h
      exact ⟨[], (List.append_nil _).symm, .nil⟩
  | case2 seen pos c cs n hscan ih =>
      obtain ⟨us, rfl, hus⟩ := ih h
      exact ⟨us, rfl, .skip hscan hus⟩
  | case3 seen pos c cs t n hscan stop ih =>
      obtain ⟨us, rfl, hus⟩ := ih h
      exact ⟨⟨t, pos, stop⟩ :: us, by rw [List.reverse_cons, List.append_assoc]; rfl,
        .token hscan hus⟩
  | case4 => cases h

theorem Reads.lexFrom_eq_ok {cs : List Char} {us : List Token} (h : Reads cs us)
    (seen : List Located) (pos : Nat) :
    ∃ ts, lexFrom seen pos cs = .ok (seen.reverse ++ ts) ∧ tokensOf ts = us := by
  induction h generalizing seen pos with
  | nil => exact ⟨[], by rw [lexFrom, List.append_nil], rfl⟩
  | skip hscan _ ih =>
      obtain ⟨ts, hts, rfl⟩ := ih seen _
      exact ⟨ts, by simp only [lexFrom, hscan]; exact hts, rfl⟩
  | @token c cs t n us hscan _ ih =>
      let stop := pos + byteLength (c :: cs.take n)
      obtain ⟨ts, hts, rfl⟩ := ih (⟨t, pos, stop⟩ :: seen) stop
      refine ⟨⟨t, pos, stop⟩ :: ts, ?_, rfl⟩
      rw [List.reverse_cons, List.append_assoc] at hts
      simp only [lexFrom, hscan]
      exact hts

theorem exists_lex_iff_reads {text : String} {us : List Token} :
    (∃ ts, lex text = .ok ts ∧ tokensOf ts = us) ↔ Reads text.toList us := by
  constructor
  · rintro ⟨ts, hlex, rfl⟩
    obtain ⟨_, rfl, hreads⟩ := reads_of_lexFrom hlex
    exact hreads
  · intro h
    obtain ⟨ts, hlex, hts⟩ := h.lexFrom_eq_ok [] 0
    exact ⟨ts, hlex, hts⟩

def Whole (cs : List Char) (ts : List Token) : Prop :=
  ∀ ds us, Reads ds us → Reads (cs ++ ds) (ts ++ us)

section Whole

variable {cs ds : List Char} {ts us : List Token}

theorem whole_nil : Whole [] [] :=
  fun _ _ h => h

theorem Whole.reads (h : Whole cs ts) : Reads cs ts := by
  have hreads := h [] [] .nil
  rwa [List.append_nil, List.append_nil] at hreads

theorem Whole.append (h : Whole cs ts) (h' : Whole ds us) : Whole (cs ++ ds) (ts ++ us) := by
  intro es vs hes
  rw [List.append_assoc, List.append_assoc]
  exact h _ _ (h' _ _ hes)

theorem Reads.cut {k : Closer} (h : Reads cs (ts ++ k.token :: us)) :
    ∃ front back, cs = front ++ k.char :: back ∧ Reads back us ∧
      ∀ ds vs, Reads ds vs → Reads (front ++ k.char :: ds) (ts ++ k.token :: vs) := by
  generalize hall : ts ++ k.token :: us = all at h
  induction h generalizing ts with
  | nil => simp at hall
  | @skip c cs n all hscan _ ih =>
      obtain ⟨front, back, hdrop, hback, hwhole⟩ := ih hall
      obtain ⟨before, rfl, hbefore⟩ := Scan.ofChars_cut hdrop hscan (Nat.le_refl n)
      refine ⟨c :: (before ++ front), back, by simp, hback, fun ds vs hds => ?_⟩
      obtain ⟨hscan', hdrop'⟩ := hbefore ds
      rw [List.cons_append, List.append_assoc]
      refine .skip hscan' ?_
      rw [hdrop']
      exact hwhole ds vs hds
  | @token c cs t n all hscan hreads ih =>
      cases ts with
      | nil =>
          obtain ⟨rfl, rfl⟩ := List.cons.inj hall
          obtain ⟨rfl, rfl⟩ := Scan.eq_char_of_ofChars hscan
          exact ⟨[], cs, rfl, hreads, fun ds vs hds => .token (Scan.ofChars_char k ds) hds⟩
      | cons t' ts =>
          obtain ⟨rfl, hrest⟩ := List.cons.inj hall
          obtain ⟨front, back, hdrop, hback, hwhole⟩ := ih hrest
          obtain ⟨before, rfl, hbefore⟩ := Scan.ofChars_cut hdrop hscan (Nat.le_refl n)
          refine ⟨c :: (before ++ front), back, by simp, hback, fun ds vs hds => ?_⟩
          obtain ⟨hscan', hdrop'⟩ := hbefore ds
          rw [List.cons_append, List.append_assoc]
          refine .token hscan' ?_
          rw [hdrop']
          exact hwhole ds vs hds

end Whole

section Statements

variable {text : String} {as bs : List Assignment} {a b : Assignment}

theorem statements_eq_ok_iff : statements text = .ok as ↔
    ∃ xs : List AssignTree, xs ≠ [] ∧ xs.map AssignTree.assignment = as ∧
      Reads text.toList (xs.flatMap AssignTree.tokens) := by
  constructor
  · intro h
    obtain ⟨ts, hlex, hparse⟩ := bind_eq_ok h
    obtain ⟨t, ht, rfl⟩ := parse_sound hparse
    obtain ⟨xs, hne, has, hts⟩ := t.exists_list
    exact ⟨xs, hne, has.symm, exists_lex_iff_reads.mp ⟨ts, hlex, ht.symm.trans hts⟩⟩
  · rintro ⟨xs, hne, rfl, hreads⟩
    obtain ⟨ts, hlex, hts⟩ := exists_lex_iff_reads.mpr hreads
    obtain ⟨t, has, ht⟩ := ProgramTree.exists_of_list hne
    rw [statements, hlex, ← has]
    exact t.parse_tokens (hts.trans ht.symm)

theorem Reads.cut_statements {cs : List Char} {us : List Token} {xs : List AssignTree}
    (h : Reads cs (xs.flatMap AssignTree.tokens ++ us)) :
    ∃ front back, cs = front ++ back ∧ Whole front (xs.flatMap AssignTree.tokens) ∧
      Reads back us := by
  rcases List.eq_nil_or_concat' xs with rfl | ⟨xs, x, rfl⟩
  · exact ⟨[], cs, rfl, whole_nil, h⟩
  · have hlast (vs : List Token) : (xs ++ [x]).flatMap AssignTree.tokens ++ vs =
        (xs.flatMap AssignTree.tokens ++ .ident x.target :: .assign :: x.value.tokens) ++
          x.closer.token :: vs := by
      simp [AssignTree.tokens]
    rw [hlast] at h
    obtain ⟨front, back, rfl, hback, hwhole⟩ := h.cut
    refine ⟨front ++ [x.closer.char], back, by simp, fun ds vs hds => ?_, hback⟩
    rw [hlast, List.append_assoc]
    exact hwhole ds vs hds

theorem exists_texts (h : statements text = .ok (as ++ a :: b :: bs)) :
    ∃ before front back after : String, text = before ++ front ++ back ++ after ∧
      statements front = .ok [a] ∧ statements back = .ok [b] ∧
      statements (before ++ back ++ front ++ after) = .ok (as ++ b :: a :: bs) := by
  obtain ⟨all, -, hall, hreads⟩ := statements_eq_ok_iff.mp h
  obtain ⟨xs, ys, rfl, rfl, hys⟩ := List.map_eq_append_iff.mp hall
  obtain ⟨x, ys, rfl, rfl, hrest⟩ := List.map_eq_cons_iff.mp hys
  obtain ⟨y, zs, rfl, rfl, rfl⟩ := List.map_eq_cons_iff.mp hrest
  rw [List.flatMap_append] at hreads
  obtain ⟨before, rest, htext, hbefore, hrest⟩ := hreads.cut_statements
  have hx : Reads rest ([x].flatMap AssignTree.tokens ++ (y :: zs).flatMap AssignTree.tokens) := by
    rwa [← List.flatMap_append]
  obtain ⟨front, rest, rfl, hfront, hrest⟩ := hx.cut_statements
  have hy : Reads rest ([y].flatMap AssignTree.tokens ++ zs.flatMap AssignTree.tokens) := by
    rwa [← List.flatMap_append]
  obtain ⟨back, after, rfl, hback, hafter⟩ := hy.cut_statements
  refine ⟨.ofList before, .ofList front, .ofList back, .ofList after, ?_, ?_, ?_, ?_⟩
  · apply String.toList_injective
    simpa using htext
  · exact statements_eq_ok_iff.mpr ⟨[x], by simp, rfl, by simpa using hfront.reads⟩
  · exact statements_eq_ok_iff.mpr ⟨[y], by simp, rfl, by simpa using hback.reads⟩
  · refine statements_eq_ok_iff.mpr ⟨xs ++ y :: x :: zs, by simp, by simp, ?_⟩
    have hswapped := ((hbefore.append hback).append hfront) _ _ hafter
    simpa using hswapped

end Statements

end FormulaMachine.Infix
