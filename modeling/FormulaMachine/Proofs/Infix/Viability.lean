import FormulaMachine.Proofs.Infix.Reader
import FormulaMachine.Proofs.Infix.Spacing
import Mathlib.Algebra.Group.Nat.Defs

namespace FormulaMachine.Infix

def SyntaxError.Spans (e : SyntaxError) (start stop : Nat) : Prop :=
  e.start.toNat = start ∧ e.stop.toNat = stop

theorem SyntaxError.spans_between {start stop : Nat} {cause : SyntaxCause} (h : start < 2 ^ 16)
    (h' : stop < 2 ^ 16) : (SyntaxError.between start stop cause).Spans start stop :=
  ⟨Nat.mod_eq_of_lt h, Nat.mod_eq_of_lt h'⟩

namespace Reader

def closing : List Bracket → List Token
  | [] => [.semicolon]
  | _ :: bs => .closeParen :: closing bs

def ending (s : Reader) : List Token :=
  match s.expects with
  | .target => .ident "x" :: .assign :: .ident "x" :: closing s.brackets
  | .assign => .assign :: .ident "x" :: closing s.brackets
  | .operand .. => .ident "x" :: closing s.brackets
  | .behindName _ | .behindOperand _ => closing s.brackets

theorem run_closing {e : Expects} (h : e.Behind) (bs : List Bracket) :
    run ⟨e, bs⟩ (closing bs) = some start := by
  induction bs generalizing e with
  | nil =>
      rw [closing, run_cons, h.step_eq rfl]
      rfl
  | cons b bs ih =>
      rw [closing, run_cons, h.step_eq rfl]
      cases b <;> exact ih trivial

theorem run_ending (s : Reader) : s.run s.ending = some start := by
  obtain ⟨e, bs⟩ := s
  cases e with
  | target | assign | operand => exact run_closing (e := .behindName _) trivial bs
  | behindName => exact run_closing (e := .behindName _) trivial bs
  | behindOperand => exact run_closing (e := .behindOperand _) trivial bs

theorem ending_ne_nil (s : Reader) : s.ending ≠ [] := by
  have hclosing (bs : List Bracket) : closing bs ≠ [] := by cases bs <;> exact List.cons_ne_nil _ _
  unfold ending
  split <;> first | exact List.cons_ne_nil _ _ | exact hclosing _

theorem run_eq_none {s s' : Reader} {front : List Token} {t : Token} (hrun : s.run front = some s')
    (hstep : s'.step t = none) (more : List Token) : s.run (front ++ t :: more) = none := by
  rw [run_append, hrun, Option.bind_some, run_cons, hstep, Option.bind_none]

end Reader

open Reader

theorem takes_of_parse {ts : List Located} {as : List Assignment} (h : parse ts = .ok as) :
    ts ≠ [] ∧ Takes start ts start [] := by
  unfold parse at h
  split at h
  · cases h
  · rename_i hne
    exact ⟨hne, (follows_parseFrom [] ts).1 as (mapError_eq_ok h)⟩

theorem stuck_of_parse {ts : List Located} {e : SyntaxError} (hne : ts ≠ [])
    (h : parse ts = .error e) : ∃ f, Stuck start ts f ∧ e = Failure.error ts f := by
  rw [parse, if_neg hne] at h
  cases hp : parseFrom [] ts with
  | ok as =>
      rw [hp] at h
      cases h
  | error f =>
      rw [hp] at h
      exact ⟨f, (follows_parseFrom [] ts).2 f hp, (Except.error.inj h).symm⟩

theorem Failure.cause_error_ne (f : Failure) (ts : List Located) :
    (f.error ts).cause ≠ .emptyEquation := by
  rcases f with (_ | ⟨t, rest⟩) | (_ | ⟨t, rest⟩) <;> rintro ⟨⟩

theorem parse_of_run {ts : List Located} (hne : ts ≠ [])
    (h : start.run (tokensOf ts) = some start) : ∃ as, parse ts = .ok as := by
  cases hp : parse ts with
  | ok as => exact ⟨as, rfl⟩
  | error e =>
      obtain ⟨f, hstuck, -⟩ := stuck_of_parse hne hp
      cases hstuck with
      | @unexpected s' rest takes head last =>
          obtain ⟨front, rfl, hrun⟩ := takes.exists_run
          cases rest with
          | nil =>
              rw [List.append_nil, hrun] at h
              exact absurd (Option.some.inj h) (last rfl)
          | cons t rest =>
              rw [tokensOf_append, tokensOf_cons, run_eq_none hrun (head t rfl).1] at h
              cases h
      | extra takes _ head =>
          obtain ⟨front, rfl, hrun⟩ := takes.exists_run
          rw [tokensOf_append, tokensOf_cons, run_eq_none hrun head] at h
          cases h

section Tokens

variable [Lexicon]

def Accepted (us : List Token) : Prop :=
  ∃ text ts code, lex text = .ok ts ∧ tokensOf ts = us ∧ toPostfix text = .ok code

def Viable (us : List Token) : Prop :=
  ∃ more, Accepted (us ++ more)

namespace Reader

theorem ofChars_letter : Scan.ofChars 'x' [] = .token (.ident "x") 0 := by
  have hletter : Scan.startsIdentifier 'x' := by
    rw [Scan.startsIdentifier, Text.isXidStart_of_ascii (by decide)]
    decide
  simp [Scan.ofChars, hletter, Scan.identifier]

theorem spelled_of_char {c : Char} {t : Token} (h : Scan.ofChars c [] = .token t 0) : t.Spelled :=
  ⟨_, whole_of_ofChars (b := ' ') h (by decide)⟩

theorem spelled_closing (bs : List Bracket) : ∀ t ∈ closing bs, t.Spelled := by
  induction bs with
  | nil => exact List.forall_mem_singleton.mpr (spelled_of_char (c := ';') rfl)
  | cons b bs ih => exact List.forall_mem_cons.mpr ⟨spelled_of_char (c := ')') rfl, ih⟩

theorem spelled_ending (s : Reader) : ∀ t ∈ s.ending, t.Spelled := by
  have hname : (Token.ident "x").Spelled := spelled_of_char (c := 'x') ofChars_letter
  have hassign : Token.assign.Spelled := spelled_of_char (c := '=') rfl
  have hclosing := spelled_closing s.brackets
  have hoperand := List.forall_mem_cons.mpr ⟨hname, hclosing⟩
  unfold ending
  split
  · exact List.forall_mem_cons.mpr ⟨hname, List.forall_mem_cons.mpr ⟨hassign, hoperand⟩⟩
  · exact List.forall_mem_cons.mpr ⟨hassign, hoperand⟩
  · exact hoperand
  · exact hclosing
  · exact hclosing

end Reader

theorem accepted_iff {us : List Token} :
    Accepted us ↔ us ≠ [] ∧ start.run us = some start ∧ ∀ t ∈ us, t.Spelled := by
  constructor
  · rintro ⟨text, ts, code, hlex, rfl, hcode⟩
    rw [toPostfix_of_lex hlex] at hcode
    obtain ⟨as, has, -⟩ := map_eq_ok hcode
    obtain ⟨hne, htakes⟩ := takes_of_parse has
    obtain ⟨front, rfl, hrun⟩ := htakes.exists_run
    rw [List.append_nil] at hne hlex ⊢
    exact ⟨fun h => hne (tokensOf_eq_nil h), hrun, spelled_of_lex hlex⟩
  · rintro ⟨hne, hrun, hspelled⟩
    obtain ⟨text, ts, hlex, rfl⟩ := exists_lex_of_spelled hspelled
    obtain ⟨as, has⟩ := parse_of_run (by rintro rfl; exact hne rfl) hrun
    refine ⟨text, ts, Postfix.text (programCode as), hlex, rfl, ?_⟩
    rw [toPostfix_of_lex hlex, has]
    rfl

theorem viable_iff {us : List Token} :
    Viable us ↔ (∃ s, start.run us = some s) ∧ ∀ t ∈ us, t.Spelled := by
  constructor
  · rintro ⟨more, hmore⟩
    obtain ⟨-, hrun, hspelled⟩ := accepted_iff.mp hmore
    rw [run_append] at hrun
    obtain ⟨s, hs, -⟩ := Option.bind_eq_some_iff.mp hrun
    exact ⟨⟨s, hs⟩, fun t ht => hspelled t (List.mem_append_left _ ht)⟩
  · rintro ⟨⟨s, hs⟩, hspelled⟩
    refine ⟨s.ending, accepted_iff.mpr ⟨?_, ?_, ?_⟩⟩
    · exact fun h => s.ending_ne_nil (List.append_eq_nil_iff.mp h).2
    · rw [run_append, hs, Option.bind_some, s.run_ending]
    · exact List.forall_mem_append.mpr ⟨hspelled, s.spelled_ending⟩

section Errors

variable {text : String} {ts : List Located} {e : SyntaxError}

theorem toPostfix_empty (hlex : lex text = .ok []) :
    toPostfix text = .error (.between 0 0 .emptyEquation) := by
  rw [toPostfix_of_lex hlex]
  rfl

theorem stuck_of_toPostfix (hlex : lex text = .ok ts) (hne : ts ≠ [])
    (he : toPostfix text = .error e) : ∃ f, Stuck start ts f ∧ e = Failure.error ts f := by
  rw [toPostfix_of_lex hlex] at he
  exact stuck_of_parse hne (map_eq_error he)

theorem lt_of_mem (hlex : lex text = .ok ts) (hsize : text.utf8ByteSize < 65535) {t : Located}
    (ht : t ∈ ts) : t.start < 2 ^ 16 ∧ t.stop + 1 < 2 ^ 16 := by
  obtain ⟨hspan, hstop⟩ := spans_of_lex hlex t ht
  omega

theorem blames_token {before after : List Located} {t : Located} {s : Reader} {cause : SyntaxCause}
    (hlex : lex text = .ok (before ++ t :: after)) (hsize : text.utf8ByteSize < 65535)
    (hrun : start.run (tokensOf before) = some s) (hstep : s.step t.token = none)
    (hcause : cause = .extraToken ↔ s.step .semicolon = some start) :
    (SyntaxError.between t.start t.stop cause).Spans t.start t.stop ∧ Viable (tokensOf before) ∧
      ¬ Viable (tokensOf before ++ [t.token]) ∧
      (cause = .extraToken ↔ Accepted (tokensOf before ++ [.semicolon])) := by
  have hspelled := spelled_of_lex hlex
  rw [tokensOf_append] at hspelled
  have hbefore : ∀ u ∈ tokensOf before, u.Spelled := (List.forall_mem_append.mp hspelled).1
  obtain ⟨hstart, hstop⟩ := lt_of_mem hlex hsize (List.mem_append_right before List.mem_cons_self)
  refine ⟨SyntaxError.spans_between hstart (Nat.lt_of_succ_lt hstop),
    viable_iff.mpr ⟨⟨s, hrun⟩, hbefore⟩, fun h => ?_, hcause.trans ?_⟩
  · obtain ⟨⟨s', hs'⟩, -⟩ := viable_iff.mp h
    rw [run_eq_none hrun hstep] at hs'
    cases hs'
  · have hend : start.run (tokensOf before ++ [.semicolon]) = s.step .semicolon := by
      rw [run_append, hrun, Option.bind_some, run_cons]
      exact Option.bind_fun_some _
    rw [accepted_iff, hend]
    refine ⟨fun h => ⟨by simp, h, ?_⟩, fun h => h.2.1⟩
    exact List.forall_mem_append.mpr ⟨hbefore, spelled_closing []⟩

theorem blames_end {s : Reader} (hlex : lex text = .ok ts) (hsize : text.utf8ByteSize < 65535)
    (hne : ts ≠ []) (hrun : start.run (tokensOf ts) = some s) :
    ∃ t, ts.getLast? = some t ∧
      (Failure.error ts (.unexpected [])).Spans t.stop (t.stop + 1) ∧ Viable (tokensOf ts) := by
  have hlast := List.getLast?_eq_some_getLast hne
  obtain ⟨-, hstop⟩ := lt_of_mem hlex hsize (List.mem_of_getLast? hlast)
  refine ⟨_, hlast, ?_, viable_iff.mpr ⟨⟨s, hrun⟩, spelled_of_lex hlex⟩⟩
  rw [Failure.error, endOfTokens, hlast]
  exact SyntaxError.spans_between (Nat.lt_of_succ_lt hstop) hstop

theorem syntax_errors_at_first_impossible_token (hlex : lex text = .ok ts)
    (hsize : text.utf8ByteSize < 65535) :
    (toPostfix text = .error (.between 0 0 .emptyEquation) ↔ ts = []) ∧
      ∀ e, toPostfix text = .error e →
        (e.cause = .unrecognizedToken ∨ e.cause = .extraToken →
          ∃ before t after, ts = before ++ t :: after ∧ e.Spans t.start t.stop ∧
            Viable (tokensOf before) ∧ ¬ Viable (tokensOf before ++ [t.token]) ∧
            (e.cause = .extraToken ↔ Accepted (tokensOf before ++ [.semicolon]))) ∧
        (e.cause = .unrecognizedEnd →
          ∃ t, ts.getLast? = some t ∧ e.Spans t.stop (t.stop + 1) ∧ Viable (tokensOf ts)) ∧
        (e.cause = .emptyEquation → e = .between 0 0 .emptyEquation) ∧
        e.cause ∈ [.unrecognizedToken, .extraToken, .unrecognizedEnd, .emptyEquation] := by
  refine ⟨⟨fun h => ?_, fun h => toPostfix_empty (h ▸ hlex)⟩, fun e he => ?_⟩
  · by_contra hne
    obtain ⟨f, -, hf⟩ := stuck_of_toPostfix hlex hne h
    exact f.cause_error_ne ts (hf ▸ rfl)
  by_cases hne : ts = []
  · subst hne
    obtain rfl := Except.error.inj ((toPostfix_empty hlex).symm.trans he)
    exact ⟨(by rintro (h | h) <;> cases h), by rintro ⟨⟩, fun _ => rfl, by decide⟩
  obtain ⟨f, hstuck, rfl⟩ := stuck_of_toPostfix hlex hne he
  cases hstuck with
  | @unexpected s' rest takes head last =>
      obtain ⟨before, rfl, hrun⟩ := takes.exists_run
      cases rest with
      | nil =>
          rw [List.append_nil] at *
          exact ⟨(by rintro (h | h) <;> cases h), fun _ => blames_end hlex hsize hne hrun,
            by rintro ⟨⟩, .tail _ (.tail _ (.head _))⟩
      | cons t after =>
          obtain ⟨hstep, hsemicolon⟩ := head t rfl
          exact ⟨fun _ => ⟨before, t, after, rfl,
            blames_token hlex hsize hrun hstep (by simp [hsemicolon])⟩, by rintro ⟨⟩,
            by rintro ⟨⟩, .head _⟩
  | @extra s' t after takes semicolon head =>
      obtain ⟨before, rfl, hrun⟩ := takes.exists_run
      exact ⟨fun _ => ⟨before, t, after, rfl,
        blames_token hlex hsize hrun head (by simp [semicolon])⟩, by rintro ⟨⟩, by rintro ⟨⟩,
        .tail _ (.head _)⟩

end Errors

end Tokens

theorem syntax_errors_at_first_impossible_token_cast :
    lex "y = (int8)a b;" = .ok
        [⟨.ident "y", 0, 1⟩, ⟨.assign, 2, 3⟩, ⟨.openParen, 4, 5⟩, ⟨.ident "int8", 5, 9⟩,
          ⟨.closeParen, 9, 10⟩, ⟨.ident "a", 10, 11⟩, ⟨.ident "b", 12, 13⟩,
          ⟨.semicolon, 13, 14⟩] ∧
      "y = (int8)a b;".utf8ByteSize < 65535 ∧
      toPostfix "y = (int8)a b;" = .error (.between 12 13 .extraToken) ∧
      ∃ before t after,
        [⟨.ident "y", 0, 1⟩, ⟨.assign, 2, 3⟩, ⟨.openParen, 4, 5⟩, ⟨.ident "int8", 5, 9⟩,
          ⟨.closeParen, 9, 10⟩, ⟨.ident "a", 10, 11⟩, ⟨.ident "b", 12, 13⟩,
          ⟨.semicolon, 13, 14⟩] = before ++ t :: after ∧
        (SyntaxError.between 12 13 .extraToken).Spans t.start t.stop ∧
        Viable (tokensOf before) ∧ ¬ Viable (tokensOf before ++ [t.token]) ∧
        Accepted (tokensOf before ++ [.semicolon]) := by
  have hlex : lex "y = (int8)a b;" = .ok
      [⟨.ident "y", 0, 1⟩, ⟨.assign, 2, 3⟩, ⟨.openParen, 4, 5⟩, ⟨.ident "int8", 5, 9⟩,
        ⟨.closeParen, 9, 10⟩, ⟨.ident "a", 10, 11⟩, ⟨.ident "b", 12, 13⟩,
        ⟨.semicolon, 13, 14⟩] := by decide +kernel
  have hsize : "y = (int8)a b;".utf8ByteSize < 65535 := by decide +kernel
  have herror : toPostfix "y = (int8)a b;" = .error (.between 12 13 .extraToken) := by
    decide +kernel
  obtain ⟨htoken, -, -, -⟩ :=
    (syntax_errors_at_first_impossible_token hlex hsize).2 _ herror
  obtain ⟨before, t, after, hts, hspans, hviable, himpossible, hextra⟩ := htoken (.inr rfl)
  exact ⟨hlex, hsize, herror, before, t, after, hts, hspans, hviable, himpossible,
    hextra.mp rfl⟩

end FormulaMachine.Infix
