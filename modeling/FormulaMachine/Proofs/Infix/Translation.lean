import FormulaMachine.Proofs.Infix.Completeness
import FormulaMachine.Proofs.Infix.Emitting
import Mathlib.Data.Nat.Basic

namespace FormulaMachine.Infix

theorem parseAssignment_sound {ts : List Located} {p : Parsed Assignment ts.length}
    (h : parseAssignment ts = .ok p) :
    ∃ a : AssignTree, a.assignment = p.value ∧ tokensOf ts = a.tokens ++ tokensOf p.rest := by
  unfold parseAssignment at h
  split at h
  · rename_i target _ _ _ _ rest
    split at h
    · contradiction
    · rename_i e _ _ rest' shorter hq
      obtain ⟨t, rfl, ht⟩ := parseLevels_sound Level.all rest _ hq
      obtain rfl := Except.ok.inj h
      exact ⟨⟨target, t, .semicolon⟩, rfl, by simp [AssignTree.tokens, ht, Closer.token]⟩
    · rename_i e _ _ rest' shorter hq
      obtain ⟨t, rfl, ht⟩ := parseLevels_sound Level.all rest _ hq
      obtain rfl := Except.ok.inj h
      exact ⟨⟨target, t, .comma⟩, rfl, by simp [AssignTree.tokens, ht, Closer.token]⟩
    · contradiction
    · contradiction
  · contradiction
  · contradiction

theorem parseAssignment_of_closer {ts rest : List Located} {target : String} {e : Expr}
    {i j i' j' k l : Nat} (c : Closer)
    {shorter : (⟨c.token, k, l⟩ :: rest : List Located).length < ts.length}
    (hp : parseLevels Level.all ts = .ok ⟨e, ⟨c.token, k, l⟩ :: rest, shorter⟩) :
    ∃ shorter', parseAssignment (⟨.ident target, i, j⟩ :: ⟨.assign, i', j'⟩ :: ts) =
      .ok ⟨⟨target, e, c⟩, rest, shorter'⟩ := by
  have hlt := Nat.lt_of_succ_lt (Nat.lt_succ_of_lt (Nat.lt_succ_of_lt shorter))
  cases c with
  | semicolon =>
      simp only [Closer.token] at hp
      simp only [parseAssignment, hp]
      exact ⟨hlt, trivial⟩
  | comma =>
      simp only [Closer.token] at hp
      simp only [parseAssignment, hp]
      exact ⟨hlt, trivial⟩

theorem AssignTree.parseAssignment_tokens (a : AssignTree) {pre : List Located}
    (h : tokensOf pre = a.tokens) (rest : List Located) :
    ∃ shorter, parseAssignment (pre ++ rest) = .ok ⟨a.assignment, rest, shorter⟩ := by
  obtain ⟨target, e, closer⟩ := a
  obtain ⟨i₁, j₁, _, rfl, h₁⟩ := tokensOf_eq_cons h
  obtain ⟨i₂, j₂, _, rfl, h₂⟩ := tokensOf_eq_cons h₁
  obtain ⟨pre, last, rfl, hpre, hlast⟩ := tokensOf_eq_append h₂
  obtain ⟨i₃, j₃, _, rfl, h₃⟩ := tokensOf_eq_cons hlast
  obtain rfl := tokensOf_eq_nil h₃
  have hstop : Stops Level.all (⟨closer.token, i₃, j₃⟩ :: rest) :=
    stops_of_closer (by cases closer <;> simp [Closer.token])
  obtain ⟨shorter, hp⟩ := e.parseLevels_tokens (by decide) pre _ hpre hstop
  rw [List.cons_append, List.cons_append, List.append_assoc, List.singleton_append]
  exact parseAssignment_of_closer closer hp

theorem parseFrom_sound (seen : List Assignment) (ts : List Located) (hne : ts ≠ [])
    {as : List Assignment} (h : parseFrom seen ts = .ok as) :
    ∃ t : ProgramTree, t.tokens = tokensOf ts ∧ as = seen.reverse ++ t.assignments := by
  rw [parseFrom, if_neg hne] at h
  split at h
  · contradiction
  · rename_i p hp
    have hs := p.shorter
    obtain ⟨a, ha, ht⟩ := parseAssignment_sound hp
    by_cases hr : p.rest = []
    · rw [hr, parseFrom, if_pos rfl] at h
      obtain rfl := Except.ok.inj h
      refine ⟨.last a, ?_, ?_⟩
      · simpa [ProgramTree.tokens, hr] using ht.symm
      · simp [ProgramTree.assignments, ha]
    · obtain ⟨t, hrest, rfl⟩ := parseFrom_sound (p.value :: seen) p.rest hr h
      refine ⟨.more a t, ?_, ?_⟩
      · rw [ProgramTree.tokens, hrest, ht]
      · simp [ProgramTree.assignments, ha]
termination_by ts.length

theorem ProgramTree.parseFrom_tokens (t : ProgramTree) (seen : List Assignment)
    {ts : List Located} (h : tokensOf ts = t.tokens) :
    parseFrom seen ts = .ok (seen.reverse ++ t.assignments) := by
  have hne : ts ≠ [] := by
    rintro rfl
    cases t <;> simp [tokens, AssignTree.tokens] at h
  induction t generalizing seen ts with
  | last a =>
      have hp := a.parseAssignment_tokens h []
      rw [List.append_nil] at hp
      obtain ⟨shorter, hp⟩ := hp
      rw [parseFrom, if_neg hne]
      simp only [hp]
      rw [parseFrom, if_pos rfl]
      simp [assignments]
  | more a rest ih =>
      obtain ⟨front, back, rfl, hfront, hback⟩ := tokensOf_eq_append h
      obtain ⟨shorter, hp⟩ := a.parseAssignment_tokens hfront back
      rw [parseFrom, if_neg hne]
      simp only [hp]
      rw [ih (a.assignment :: seen) hback]
      · simp [assignments]
      · rintro rfl
        cases rest <;> simp [tokens, AssignTree.tokens] at hback

theorem parse_sound {ts : List Located} {as : List Assignment} (h : parse ts = .ok as) :
    ∃ t : ProgramTree, t.tokens = tokensOf ts ∧ t.assignments = as := by
  unfold parse at h
  split at h
  · contradiction
  · rename_i hne
    cases hp : parseFrom [] ts with
    | error f =>
        rw [hp] at h
        contradiction
    | ok as' =>
        rw [hp] at h
        obtain rfl := Except.ok.inj h
        obtain ⟨t, ht, rfl⟩ := parseFrom_sound [] ts hne hp
        exact ⟨t, ht, rfl⟩

theorem ProgramTree.parse_tokens (t : ProgramTree) {ts : List Located}
    (h : tokensOf ts = t.tokens) : parse ts = .ok t.assignments := by
  have hne : ts ≠ [] := by
    rintro rfl
    cases t <;> simp [tokens, AssignTree.tokens] at h
  rw [parse, if_neg hne, t.parseFrom_tokens [] h]
  rfl

theorem ProgramTree.tokens_injective {s t : ProgramTree} {ts : List Located}
    (hs : tokensOf ts = s.tokens) (ht : tokensOf ts = t.tokens) : s = t := by
  have h := (s.parse_tokens hs).symm.trans (t.parse_tokens ht)
  exact s.assignments_injective t (Except.ok.inj h)

theorem toPostfix_eq_ok_iff_derivation [Lexicon] (text : String) (ts : List Located)
    (h : lex text = .ok ts) :
    ((∃ code, toPostfix text = .ok code) ↔ ∃ t : ProgramTree, t.tokens = tokensOf ts) ∧
      (∀ s t : ProgramTree, s.tokens = tokensOf ts → t.tokens = tokensOf ts → s = t) ∧
      ∀ t : ProgramTree, t.tokens = tokensOf ts →
        emitText text = .ok ⟨Postfix.text t.postorder, [], [], none⟩ ∧
          toPostfix text = .ok (Postfix.text t.postorder) := by
  have hcode (t : ProgramTree) (ht : t.tokens = tokensOf ts) :
      emitText text = .ok ⟨Postfix.text t.postorder, [], [], none⟩ ∧
        toPostfix text = .ok (Postfix.text t.postorder) := by
    rw [emitText_of_lex h, toPostfix_of_lex h, t.parse_tokens ht.symm, ← t.programCode_assignments]
    exact ⟨rfl, rfl⟩
  refine ⟨⟨?_, fun ⟨t, ht⟩ => ⟨_, (hcode t ht).2⟩⟩,
    fun s t hs ht => ProgramTree.tokens_injective hs.symm ht.symm, hcode⟩
  rintro ⟨code, hok⟩
  rw [toPostfix_of_lex h] at hok
  obtain ⟨as, hp, -⟩ := map_eq_ok hok
  obtain ⟨t, ht, -⟩ := parse_sound hp
  exact ⟨t, ht⟩

theorem derivation_int8_times_negated_power :
    ∃ t : ProgramTree,
      (lex "r = (int8)7 * -pow(x,(y));").map tokensOf = .ok t.tokens ∧
        emitText "r = (int8)7 * -pow(x,(y));" = .ok ⟨Postfix.text t.postorder, [], [], none⟩ ∧
        toPostfix "r = (int8)7 * -pow(x,(y));" = .ok (Postfix.text t.postorder) ∧
        Postfix.text t.postorder =
          "CONST int8 7\nREAD x\nREAD y\nPOW\nNEG\nMUL\nWRITE r\n" := by
  have hlex : lex "r = (int8)7 * -pow(x,(y));" = .ok
      [⟨.ident "r", 0, 1⟩, ⟨.assign, 2, 3⟩, ⟨.openParen, 4, 5⟩, ⟨.ident "int8", 5, 9⟩,
        ⟨.closeParen, 9, 10⟩, ⟨.number "7", 10, 11⟩, ⟨.times, 12, 13⟩, ⟨.minus, 14, 15⟩,
        ⟨.ident "pow", 15, 18⟩, ⟨.openParen, 18, 19⟩, ⟨.ident "x", 19, 20⟩, ⟨.comma, 20, 21⟩,
        ⟨.openParen, 21, 22⟩, ⟨.ident "y", 22, 23⟩, ⟨.closeParen, 23, 24⟩,
        ⟨.closeParen, 24, 25⟩, ⟨.semicolon, 25, 26⟩] := by decide +kernel
  have hcode : toPostfix "r = (int8)7 * -pow(x,(y));" =
      .ok "CONST int8 7\nREAD x\nREAD y\nPOW\nNEG\nMUL\nWRITE r\n" := by decide +kernel
  obtain ⟨hiff, -, hpost⟩ := toPostfix_eq_ok_iff_derivation _ _ hlex
  obtain ⟨t, ht⟩ := hiff.mp ⟨_, hcode⟩
  obtain ⟨hemit, htext⟩ := hpost t ht
  refine ⟨t, by simp only [hlex, Except.map, ht], hemit, htext, ?_⟩
  exact Except.ok.inj (htext.symm.trans hcode)

end FormulaMachine.Infix
