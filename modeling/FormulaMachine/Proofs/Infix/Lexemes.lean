import FormulaMachine.Proofs.Infix.Viability
import Mathlib.Data.String.Basic

namespace FormulaMachine.Infix

def Located.lexeme (text : String) (t : Located) : String :=
  String.Pos.Raw.extract text ⟨t.start⟩ ⟨t.stop⟩

def lexemes (text : String) (ts : List Located) : List String :=
  ts.map (Located.lexeme text)

def readings (text : String) (ts : List Located) : List (Token × String) :=
  ts.map fun t => (t.token, t.lexeme text)

theorem map_fst_readings (text : String) (ts : List Located) :
    (readings text ts).map Prod.fst = tokensOf ts :=
  List.map_map

theorem map_snd_readings (text : String) (ts : List Located) :
    (readings text ts).map Prod.snd = lexemes text ts :=
  List.map_map

inductive Spaced : List String → List Char → Prop
  | nil : Spaced [] []
  | blank {b : Char} {ls : List String} {cs : List Char} (hb : Text.isBlank b)
      (h : Spaced ls cs) : Spaced ls (b :: cs)
  | piece {l : String} {ls : List String} {cs : List Char} (h : Spaced ls cs)
      (hcs : ∀ b ∈ cs.head?, Text.isBlank b) : Spaced (l :: ls) (l.toList ++ cs)

theorem byteLength_eq_utf8Len (cs : List Char) : byteLength cs = String.utf8Len cs := by
  induction cs with
  | nil => rfl
  | cons c cs ih => rw [byteLength, ih, String.utf8Len_cons, Nat.add_comm]

theorem extract_eq {text : String} {front piece back : List Char} {start stop : Nat}
    (htext : text.toList = front ++ piece ++ back) (hstart : start = byteLength front)
    (hstop : stop = byteLength front + byteLength piece) :
    String.Pos.Raw.extract text ⟨start⟩ ⟨stop⟩ = String.ofList piece := by
  obtain rfl : text = String.ofList (front ++ piece ++ back) := by
    rw [← htext, String.ofList_toList]
  rw [hstart, hstop, byteLength_eq_utf8Len, byteLength_eq_utf8Len]
  exact String.extract_of_valid front piece back

theorem lexeme_eq {text : String} {front lexeme back : List Char} {t : Located}
    (htext : text.toList = front ++ lexeme ++ back) (hstart : t.start = byteLength front)
    (hstop : t.stop = byteLength front + byteLength lexeme) :
    t.lexeme text = String.ofList lexeme :=
  extract_eq htext hstart hstop

def errorAt (ts : List Located) (n : Nat) (cause : SyntaxCause) : SyntaxError :=
  match ts[n]? with
  | some t => .between t.start t.stop cause
  | none =>
      if ts = [] then .between 0 0 cause
      else .between (endOfTokens ts) (endOfTokens ts + 1) cause

namespace Reader

def blameFrom (s : Reader) (n : Nat) : List Token → Option (Nat × SyntaxCause)
  | [] => if s = start then none else some (n, .unrecognizedEnd)
  | t :: ts =>
      match s.step t with
      | some s' => blameFrom s' (n + 1) ts
      | none =>
          some (n, if s.step .semicolon = some start then .extraToken else .unrecognizedToken)

def blame (ts : List Token) : Option (Nat × SyntaxCause) :=
  if ts = [] then some (0, .emptyEquation) else blameFrom start 0 ts

theorem blameFrom_append {s s' : Reader} {front : List Token} (h : s.run front = some s')
    (n : Nat) (ts : List Token) :
    s.blameFrom n (front ++ ts) = s'.blameFrom (n + front.length) ts := by
  induction front generalizing s n with
  | nil =>
      obtain rfl := Option.some.inj h
      rfl
  | cons t front ih =>
      rw [run_cons] at h
      obtain ⟨s₁, hstep, hrest⟩ := Option.bind_eq_some_iff.mp h
      rw [List.cons_append, blameFrom, hstep, List.length_cons, Nat.add_comm front.length,
        ← Nat.add_assoc]
      exact ih hrest (n + 1)

end Reader

open Reader

theorem errorAt_token (front rest : List Located) (t : Located) (cause : SyntaxCause) :
    errorAt (front ++ t :: rest) front.length cause = .between t.start t.stop cause := by
  rw [errorAt, List.getElem?_append_right (Nat.le_refl _), Nat.sub_self]
  rfl

theorem errorAt_end {ts : List Located} (hne : ts ≠ []) (cause : SyntaxCause) :
    errorAt ts ts.length cause = .between (endOfTokens ts) (endOfTokens ts + 1) cause := by
  rw [errorAt, List.getElem?_eq_none (Nat.le_refl _)]
  exact if_neg hne

theorem blame_of_stuck {ts : List Located} {f : Failure} (h : Stuck start ts f) (hne : ts ≠ []) :
    ∃ n cause, blame (tokensOf ts) = some (n, cause) ∧ f.error ts = errorAt ts n cause := by
  have hblame : blame (tokensOf ts) = start.blameFrom 0 (tokensOf ts) :=
    if_neg fun h => hne (tokensOf_eq_nil h)
  rw [hblame]
  cases h with
  | @unexpected s' rest takes head last =>
      obtain ⟨front, rfl, hrun⟩ := takes.exists_run
      rw [tokensOf_append, blameFrom_append hrun, Nat.zero_add, tokensOf, List.length_map]
      cases rest with
      | nil =>
          rw [List.append_nil] at hne ⊢
          exact ⟨front.length, .unrecognizedEnd, if_neg (last rfl), (errorAt_end hne _).symm⟩
      | cons t rest =>
          obtain ⟨hstep, hsemicolon⟩ := head t rfl
          refine ⟨front.length, .unrecognizedToken, ?_, (errorAt_token front rest t _).symm⟩
          rw [tokensOf_cons, blameFrom, hstep, hsemicolon]
          rfl
  | @extra s' t rest takes semicolon head =>
      obtain ⟨front, rfl, hrun⟩ := takes.exists_run
      rw [tokensOf_append, blameFrom_append hrun, Nat.zero_add, tokensOf, List.length_map]
      refine ⟨front.length, .extraToken, ?_, (errorAt_token front rest t _).symm⟩
      rw [tokensOf_cons, blameFrom, head, semicolon]
      rfl

section Scanned

variable [Lexicon]

def Token.IsLexeme (t : Token) (cs : List Char) : Prop :=
  ∃ c ds, cs = c :: ds ∧ Scan.ofChars c ds = .token t ds.length

section IsLexeme

variable {c : Char} {cs : List Char} {t u : Token} {n : Nat}

theorem isLexeme_of_ofChars (h : Scan.ofChars c cs = .token t n) :
    t.IsLexeme (c :: cs.take n) := by
  have hend : ∀ b ∈ ([] : List Char).head?, Text.isBlank b := by simp
  obtain ⟨hle, hscan⟩ := Scan.ofChars_apart h hend
  refine ⟨c, cs.take n, rfl, ?_⟩
  rw [List.append_nil] at hscan
  rw [hscan, List.length_take_of_le hle]

theorem Token.IsLexeme.unique (h : t.IsLexeme cs) (h' : u.IsLexeme cs) : t = u := by
  obtain ⟨c, ds, rfl, hscan⟩ := h
  obtain ⟨c', ds', heq, hscan'⟩ := h'
  obtain ⟨rfl, rfl⟩ := List.cons.inj heq
  exact (Scan.token.inj (hscan.symm.trans hscan')).1

end IsLexeme

inductive Scans : List Char → List (Token × String) → Prop
  | nil : Scans [] []
  | skip {c : Char} {cs : List Char} {n : Nat} {ls : List (Token × String)}
      (hscan : Scan.ofChars c cs = .skip n) (h : Scans (cs.drop n) ls) : Scans (c :: cs) ls
  | token {c : Char} {cs : List Char} {t : Token} {n : Nat} {ls : List (Token × String)}
      (hscan : Scan.ofChars c cs = .token t n) (h : Scans (cs.drop n) ls) :
      Scans (c :: cs) ((t, String.ofList (c :: cs.take n)) :: ls)

section Scans

variable {cs : List Char} {ls ls' : List (Token × String)}

theorem Scans.reads (h : Scans cs ls) : Reads cs (ls.map Prod.fst) := by
  induction h with
  | nil => exact .nil
  | skip hscan _ ih => exact .skip hscan ih
  | token hscan _ ih => exact .token hscan ih

theorem Scans.isLexeme (h : Scans cs ls) : ∀ l ∈ ls, l.1.IsLexeme l.2.toList := by
  induction h with
  | nil => exact fun _ hl => absurd hl List.not_mem_nil
  | skip _ _ ih => exact ih
  | token hscan _ ih =>
      refine List.forall_mem_cons.mpr ⟨?_, ih⟩
      rw [String.toList_ofList]
      exact isLexeme_of_ofChars hscan

theorem Scans.unique (h : Scans cs ls) (h' : Scans cs ls') : ls = ls' := by
  induction h generalizing ls' with
  | nil =>
      cases h'
      rfl
  | skip hscan _ ih =>
      cases h' with
      | skip hscan' h' =>
          obtain rfl := Scan.skip.inj (hscan.symm.trans hscan')
          exact ih h'
      | token hscan' h' => cases hscan.symm.trans hscan'
  | token hscan _ ih =>
      cases h' with
      | skip hscan' h' => cases hscan.symm.trans hscan'
      | token hscan' h' =>
          obtain ⟨rfl, rfl⟩ := Scan.token.inj (hscan.symm.trans hscan')
          rw [ih h']

theorem scans_of_spaced (hls : ∀ l ∈ ls, l.1.IsLexeme l.2.toList)
    (h : Spaced (ls.map Prod.snd) cs) : Scans cs ls := by
  generalize hpieces : ls.map Prod.snd = pieces at h
  induction h generalizing ls with
  | nil =>
      obtain rfl := List.map_eq_nil_iff.mp hpieces
      exact .nil
  | @blank b _ cs hb _ ih => exact .skip (Scan.ofChars_of_isBlank hb cs) (ih hls hpieces)
  | @piece l pieces cs _ hcs ih =>
      obtain ⟨⟨t, l⟩, ls, rfl, rfl, hrest⟩ := List.map_eq_cons_iff.mp hpieces
      obtain ⟨⟨c, ds, hl, hscan⟩, hls⟩ := List.forall_mem_cons.mp hls
      obtain ⟨-, hscan'⟩ := Scan.ofChars_apart hscan hcs
      rw [List.take_length] at hscan'
      have htoken := Scans.token hscan' (by rw [List.drop_left]; exact ih hls hrest)
      rw [List.take_left, ← hl, String.ofList_toList] at htoken
      rw [show (t, l).2.toList = c :: ds from hl]
      exact htoken

end Scans

section Slices

theorem scans_of_lexFrom {text : String} {seen ts : List Located} {pos : Nat}
    {front cs : List Char} (htext : text.toList = front ++ cs) (hpos : pos = byteLength front)
    (h : lexFrom seen pos cs = .ok ts) :
    ∃ us, ts = seen.reverse ++ us ∧ Scans cs (readings text us) := by
  fun_induction lexFrom seen pos cs generalizing front with
  | case1 seen pos =>
      obtain rfl := Except.ok.inj h
      exact ⟨[], (List.append_nil _).symm, .nil⟩
  | case2 seen pos c cs n hscan ih =>
      have htext' : text.toList = (front ++ c :: cs.take n) ++ cs.drop n := by
        rw [htext, List.append_assoc, List.cons_append, List.take_append_drop]
      obtain ⟨us, rfl, hus⟩ := ih htext' (by rw [hpos, byteLength_append]) h
      exact ⟨us, rfl, .skip hscan hus⟩
  | case3 seen pos c cs t n hscan stop =>
      rename_i ih
      have htext' : text.toList = (front ++ c :: cs.take n) ++ cs.drop n := by
        rw [htext, List.append_assoc, List.cons_append, List.take_append_drop]
      have hstop : stop = byteLength front + byteLength (c :: cs.take n) := by rw [← hpos]
      obtain ⟨us, rfl, hus⟩ := ih htext' (by rw [hstop, byteLength_append]) h
      refine ⟨⟨t, pos, stop⟩ :: us, by rw [List.reverse_cons, List.append_assoc]; rfl, ?_⟩
      have hlexeme := lexeme_eq (t := ⟨t, pos, stop⟩) htext' hpos hstop
      rw [readings, List.map_cons, hlexeme]
      exact .token hscan hus
  | case4 => cases h

theorem scans_of_lex {text : String} {ts : List Located} (h : lex text = .ok ts) :
    Scans text.toList (readings text ts) := by
  have htext : text.toList = [] ++ text.toList := rfl
  obtain ⟨us, rfl, hus⟩ := scans_of_lexFrom htext rfl h
  exact hus

end Slices

section Lex

variable {text text' : String} {ts ts' : List Located}

theorem lex_of_spaced (hlex : lex text = .ok ts) (h : Spaced (lexemes text ts) text'.toList) :
    ∃ ts', lex text' = .ok ts' ∧ readings text' ts' = readings text ts := by
  rw [← map_snd_readings] at h
  have hscans := scans_of_spaced (scans_of_lex hlex).isLexeme h
  obtain ⟨ts', hlex', -⟩ := exists_lex_iff_reads.mpr hscans.reads
  exact ⟨ts', hlex', (scans_of_lex hlex').unique hscans⟩

theorem isLexeme_of_lex (hlex : lex text = .ok ts) :
    ∀ t ∈ ts, t.token.IsLexeme (t.lexeme text).toList :=
  fun _ ht => (scans_of_lex hlex).isLexeme _ (List.mem_map_of_mem ht)

theorem tokensOf_congr (hts : ∀ t ∈ ts, t.token.IsLexeme (t.lexeme text).toList)
    (hts' : ∀ t ∈ ts', t.token.IsLexeme (t.lexeme text').toList)
    (h : lexemes text' ts' = lexemes text ts) : tokensOf ts' = tokensOf ts := by
  induction ts generalizing ts' with
  | nil =>
      obtain rfl := List.map_eq_nil_iff.mp h
      rfl
  | cons t ts ih =>
      obtain ⟨t', ts', rfl, ht, hrest⟩ := List.map_eq_cons_iff.mp h
      obtain ⟨htoken, hts⟩ := List.forall_mem_cons.mp hts
      obtain ⟨htoken', hts'⟩ := List.forall_mem_cons.mp hts'
      rw [ht] at htoken'
      rw [tokensOf_cons, tokensOf_cons, htoken'.unique htoken, ih hts hts' hrest]

end Lex

section Translation

variable {text text' : String} {ts ts' : List Located} {e : SyntaxError}

theorem blame_of_toPostfix (hlex : lex text = .ok ts) (he : toPostfix text = .error e) :
    ∃ n cause, blame (tokensOf ts) = some (n, cause) ∧ e = errorAt ts n cause := by
  by_cases hne : ts = []
  · subst hne
    obtain rfl := Except.error.inj ((toPostfix_empty hlex).symm.trans he)
    exact ⟨0, .emptyEquation, rfl, rfl⟩
  · obtain ⟨f, hstuck, rfl⟩ := stuck_of_toPostfix hlex hne he
    exact blame_of_stuck hstuck hne

theorem toPostfix_of_tokens {code : String} (hlex : lex text = .ok ts)
    (hlex' : lex text' = .ok ts') (htokens : tokensOf ts' = tokensOf ts)
    (h : toPostfix text = .ok code) : toPostfix text' = .ok code := by
  rw [toPostfix_of_lex hlex] at h
  obtain ⟨as, has, rfl⟩ := map_eq_ok h
  obtain ⟨t, ht, rfl⟩ := parse_sound has
  rw [toPostfix_of_lex hlex', t.parse_tokens (htokens.trans ht.symm)]
  rfl

theorem error_of_tokens (hlex : lex text = .ok ts) (hlex' : lex text' = .ok ts')
    (htokens : tokensOf ts' = tokensOf ts) (he : toPostfix text = .error e) :
    ∃ n cause, blame (tokensOf ts) = some (n, cause) ∧ e = errorAt ts n cause ∧
      toPostfix text' = .error (errorAt ts' n cause) := by
  obtain ⟨n, cause, hblame, rfl⟩ := blame_of_toPostfix hlex he
  refine ⟨n, cause, hblame, rfl, ?_⟩
  cases hcode : toPostfix text' with
  | ok code =>
      rw [toPostfix_of_tokens hlex' hlex htokens.symm hcode] at he
      cases he
  | error e' =>
      obtain ⟨n', cause', hblame', rfl⟩ := blame_of_toPostfix hlex' hcode
      rw [htokens, hblame] at hblame'
      obtain ⟨rfl, rfl⟩ := Prod.mk.inj (Option.some.inj hblame')
      rfl

theorem toPostfix_ignores_layout (hlex : lex text = .ok ts) :
    (∀ text', Spaced (lexemes text ts) text'.toList →
      ∃ ts', lex text' = .ok ts' ∧ tokensOf ts' = tokensOf ts ∧
        lexemes text' ts' = lexemes text ts) ∧
      ∀ text' ts', lex text' = .ok ts' → lexemes text' ts' = lexemes text ts →
        tokensOf ts' = tokensOf ts ∧
        (∀ code, toPostfix text' = .ok code ↔ toPostfix text = .ok code) ∧
        ∀ e, toPostfix text = .error e → ∃ n cause, blame (tokensOf ts) = some (n, cause) ∧
          e = errorAt ts n cause ∧ toPostfix text' = .error (errorAt ts' n cause) := by
  refine ⟨fun text' h => ?_, fun text' ts' hlex' h => ?_⟩
  · obtain ⟨ts', hlex', hreadings⟩ := lex_of_spaced hlex h
    refine ⟨ts', hlex', ?_, ?_⟩
    · rw [← map_fst_readings text', hreadings, map_fst_readings]
    · rw [← map_snd_readings, hreadings, map_snd_readings]
  · have htokens := tokensOf_congr (isLexeme_of_lex hlex) (isLexeme_of_lex hlex') h
    exact ⟨htokens, fun code => ⟨toPostfix_of_tokens hlex' hlex htokens.symm,
      toPostfix_of_tokens hlex hlex' htokens⟩, fun e => error_of_tokens hlex hlex' htokens⟩

end Translation

end Scanned

theorem toPostfix_ignores_layout_numbers :
    (∃ ts ts', lex "y=-a*.5;//b" = .ok ts ∧ lex "y = -/* twice */a\n* .5 ;" = .ok ts' ∧
      lexemes "y = -/* twice */a\n* .5 ;" ts' = lexemes "y=-a*.5;//b" ts ∧
      toPostfix "y=-a*.5;//b" = .ok "READ a\nNEG\nCONST .5\nMUL\nWRITE y\n" ∧
      toPostfix "y = -/* twice */a\n* .5 ;" = .ok "READ a\nNEG\nCONST .5\nMUL\nWRITE y\n") ∧
    ∃ ts ts', lex "y=1..5/**/\"a+b\"//;" = .ok ts ∧
      Spaced (lexemes "y=1..5/**/\"a+b\"//;" ts) "y = 1. .5 \"a+b\"".toList ∧
      lex "y = 1. .5 \"a+b\"" = .ok ts' ∧ tokensOf ts' = tokensOf ts ∧
      toPostfix "y=1..5/**/\"a+b\"//;" = .error (errorAt ts 3 .extraToken) ∧
      toPostfix "y = 1. .5 \"a+b\"" = .error (errorAt ts' 3 .extraToken) := by
  let ts : List Located := [⟨.ident "y", 0, 1⟩, ⟨.assign, 1, 2⟩, ⟨.number "1.", 2, 4⟩,
    ⟨.number ".5", 4, 6⟩, ⟨.ident "a+b", 10, 15⟩]
  have hlex : lex "y=1..5/**/\"a+b\"//;" = .ok ts := by decide +kernel
  have hlexemes : lexemes "y=1..5/**/\"a+b\"//;" ts = ["y", "=", "1.", ".5", "\"a+b\""] := by
    decide +kernel
  have herror : toPostfix "y=1..5/**/\"a+b\"//;" = .error (.between 4 6 .extraToken) := by
    decide +kernel
  have hblame : blame (tokensOf ts) = some (3, .extraToken) := by decide
  have hpiece (l : String) {ls : List String} {cs : List Char} (h : Spaced ls cs) :
      Spaced (l :: ls) (l.toList ++ ' ' :: cs) :=
    .piece (.blank (by decide) h) (by simpa using by decide)
  have hspaced : Spaced (lexemes "y=1..5/**/\"a+b\"//;" ts) "y = 1. .5 \"a+b\"".toList := by
    rw [hlexemes]
    have hlast : Spaced ["\"a+b\""] ("\"a+b\"".toList ++ []) := .piece .nil (by simp)
    exact hpiece "y" (hpiece "=" (hpiece "1." (hpiece ".5" hlast)))
  obtain ⟨hspacing, hlayout⟩ := toPostfix_ignores_layout hlex
  obtain ⟨ts', hlex', htokens, hlexemes'⟩ := hspacing _ hspaced
  obtain ⟨-, -, hfails⟩ := hlayout _ ts' hlex' hlexemes'
  obtain ⟨n, cause, hn, he, herror'⟩ := hfails _ herror
  obtain ⟨rfl, rfl⟩ := Prod.mk.inj (Option.some.inj (hblame.symm.trans hn))
  refine ⟨?_, ts, ts', hlex, hspaced, hlex', htokens, he ▸ herror, herror'⟩
  let us : List Located := [⟨.ident "y", 0, 1⟩, ⟨.assign, 1, 2⟩, ⟨.minus, 2, 3⟩,
    ⟨.ident "a", 3, 4⟩, ⟨.times, 4, 5⟩, ⟨.number ".5", 5, 7⟩, ⟨.semicolon, 7, 8⟩]
  let us' : List Located := [⟨.ident "y", 0, 1⟩, ⟨.assign, 2, 3⟩, ⟨.minus, 4, 5⟩,
    ⟨.ident "a", 16, 17⟩, ⟨.times, 18, 19⟩, ⟨.number ".5", 20, 22⟩, ⟨.semicolon, 23, 24⟩]
  have hus : lex "y=-a*.5;//b" = .ok us := by decide +kernel
  have hus' : lex "y = -/* twice */a\n* .5 ;" = .ok us' := by decide +kernel
  have hsame : lexemes "y = -/* twice */a\n* .5 ;" us' = lexemes "y=-a*.5;//b" us := by
    decide +kernel
  have hcode : toPostfix "y=-a*.5;//b" = .ok "READ a\nNEG\nCONST .5\nMUL\nWRITE y\n" := by
    decide +kernel
  obtain ⟨-, haccepted, -⟩ := (toPostfix_ignores_layout hus).2 _ us' hus' hsame
  exact ⟨us, us', hus, hus', hsame, hcode, (haccepted _).mpr hcode⟩

end FormulaMachine.Infix
