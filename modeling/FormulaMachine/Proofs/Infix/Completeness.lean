import FormulaMachine.Proofs.Infix.Soundness

namespace FormulaMachine.Infix

def Stops (ls : List Level) (rest : List Located) : Prop :=
  ∀ t ∈ rest.head?, t.token.startsOperand = false ∧ ∀ l ∈ ls, binaryAt? l t = none

theorem Stops.mono {ls ms : List Level} {rest : List Located} (h : Stops ms rest)
    (hsub : ∀ l ∈ ls, l ∈ ms) : Stops ls rest := by
  intro t ht
  obtain ⟨hop, hb⟩ := h t ht
  exact ⟨hop, fun l hl => hb l (hsub l hl)⟩

theorem stops_cons {ls : List Level} {t : Located} {rest : List Located}
    (hop : t.token.startsOperand = false) (hb : ∀ l ∈ ls, binaryAt? l t = none) :
    Stops ls (t :: rest) := by
  intro u hu
  obtain rfl : t = u := by simpa using hu
  exact ⟨hop, hb⟩

theorem stops_of_closer {ls : List Level} {t : Located} {rest : List Located}
    (h : t.token = .closeParen ∨ t.token = .comma ∨ t.token = .semicolon) :
    Stops ls (t :: rest) := by
  apply stops_cons
  · rcases h with h | h | h <;> simp [h, Token.startsOperand]
  · intro l _
    rcases h with h | h | h <;> simp [binaryAt?, h, BinaryOp.ofToken?]

theorem binaryAt?_of_token {l : Level} {t : Located} {op : BinaryOp} (h : t.token = op.token) :
    binaryAt? l t = if op.level = l then some op else none := by
  simp [binaryAt?, h, BinaryOp.ofToken?_token]

theorem BinaryOp.startsOperand_token (op : BinaryOp) : op.token.startsOperand = false := by
  cases op <;> rfl

theorem Sign.ofToken?_token (s : Sign) : Sign.ofToken? s.token = some s := by
  cases s <;> rfl

def Opens (ts : List Token) : Prop :=
  ∃ t tl, ts = t :: tl ∧ t ≠ .closeParen ∧ tl.head? ≠ some .closeParen

theorem Opens.append {ts us : List Token} (h : Opens ts) (hu : us.head? ≠ some .closeParen) :
    Opens (ts ++ us) := by
  obtain ⟨t, tl, rfl, ht, htl⟩ := h
  refine ⟨t, tl ++ us, rfl, ht, ?_⟩
  cases tl with
  | nil => simpa using hu
  | cons u tl => simpa using htl

theorem Opens.cons {t : Token} {ts : List Token} (h : Opens ts) (ht : t ≠ .closeParen) :
    Opens (t :: ts) := by
  obtain ⟨u, tl, rfl, hu, -⟩ := h
  exact ⟨t, u :: tl, rfl, ht, by simpa using hu⟩

mutual

theorem JoinedTree.opens {ls : List Level} (e : JoinedTree ls) : Opens e.tokens := by
  match e with
  | .unary u => exact UnaryTree.opens u
  | .tighter e => exact JoinedTree.opens e
  | .join left op _ right =>
      exact (JoinedTree.opens left).append (by cases op <;> simp [BinaryOp.token])

theorem UnaryTree.opens (e : UnaryTree) : Opens e.tokens := by
  match e with
  | .signed s e => exact (CastTree.opens e).cons (by cases s <;> simp [Sign.token])
  | .plain e => exact CastTree.opens e

theorem CastTree.opens (e : CastTree) : Opens e.tokens := by
  match e with
  | .castNumber _ _ | .cast _ _ | .number _ => exact ⟨_, _, rfl, by simp, by simp⟩
  | .plain e => exact CallTree.opens e

theorem CallTree.opens (e : CallTree) : Opens e.tokens := by
  match e with
  | .call _ _ | .name _ => exact ⟨_, _, rfl, by simp, by simp⟩
  | .group e =>
      obtain ⟨t, tl, ht, hne, -⟩ := JoinedTree.opens e
      exact ⟨.openParen, tl.cons t ++ [.closeParen], by simp [CallTree.tokens, ht], by simp,
        by simpa using hne⟩

end

theorem CallTree.starts (e : CallTree) :
    ∃ t tl, e.tokens = t :: tl ∧ t.startsOperand = true ∧ ∀ n, t ≠ .number n := by
  cases e <;> exact ⟨_, _, rfl, rfl, by simp⟩

theorem CastTree.starts (e : CastTree) :
    ∃ t tl, e.tokens = t :: tl ∧ t.startsOperand = true := by
  match e with
  | .castNumber _ _ | .cast _ _ | .number _ => exact ⟨_, _, rfl, rfl⟩
  | .plain e =>
      obtain ⟨t, tl, ht, hop, -⟩ := e.starts
      exact ⟨t, tl, ht, hop⟩

theorem Sign.ofToken?_of_startsOperand {t : Token} (h : t.startsOperand = true) :
    Sign.ofToken? t = none := by
  cases t <;> simp_all [Token.startsOperand, Sign.ofToken?]

theorem CallTree.castTarget?_eq_none (e : CallTree) {pre rest : List Located}
    (h : tokensOf pre = e.tokens) (hs : Stops [] rest) : castTarget? (pre ++ rest) = none := by
  cases hc : castTarget? (pre ++ rest) with
  | none => rfl
  -- a cast needs an operand behind its bracket, and nothing like one follows the call
  | some found =>
      obtain ⟨typeName, rest'⟩ := found
      obtain ⟨⟨t, tl, rfl, ht⟩, htok⟩ := castTarget?_eq_some hc
      rw [tokensOf_append, h] at htok
      match e with
      | .call _ _ | .name _ => simp [CallTree.tokens] at htok
      | .group g =>
          obtain ⟨u, ul, hu, -, hul⟩ := g.opens
          simp only [CallTree.tokens, hu, List.cons_append, List.append_assoc,
            List.cons.injEq, true_and] at htok
          obtain ⟨rfl, htok⟩ := htok
          cases ul with
          | nil =>
              cases rest with
              | nil => simp at htok
              | cons r rest =>
                  have hr := (hs r (by simp)).1
                  simp only [List.nil_append, tokensOf_cons, List.cons.injEq,
                    true_and] at htok
                  rw [htok.1] at hr
                  exact absurd ht (by simp [hr])
          | cons v ul =>
              obtain ⟨rfl, -⟩ := List.cons.inj htok
              simp at hul

theorem parseCast_of_cast {ts rest rest' : List Located} {typeName : String} {e : Expr}
    {shorter : rest'.length < rest.length} (hc : castTarget? ts = some (typeName, rest))
    (hn : ∀ n i j tl, rest ≠ ⟨.number n, i, j⟩ :: tl)
    (hp : parsePrimary rest = .ok ⟨e, rest', shorter⟩) :
    ∃ shorter', parseCast ts = .ok ⟨.cast typeName e, rest', shorter'⟩ := by
  have hlen := length_lt_of_castTarget? hc
  rw [parseCast]
  split
  · rename_i found rest₂ h
    obtain ⟨rfl, rfl⟩ : typeName = found ∧ rest = rest₂ := by simpa using hc.symm.trans h
    dsimp only
    split
    · exact absurd rfl (hn _ _ _ _)
    · simp only [hp]
      exact ⟨Nat.lt_trans shorter hlen, rfl⟩
  · rename_i h
    exact absurd (hc.symm.trans h) (by simp)

theorem parsePrimary_name {x : String} {i j : Nat} {ts : List Located} (hs : Stops [] ts) :
    parsePrimary (⟨.ident x, i, j⟩ :: ts) = .ok ⟨.name x, ts, Nat.lt_succ_self _⟩ := by
  rcases ts with _ | ⟨⟨t, k, l⟩, ts⟩
  · rw [parsePrimary.eq_def]
  · have ht := (hs ⟨t, k, l⟩ (by simp)).1
    cases t with
    | openParen => simp [Token.startsOperand] at ht
    | _ => rw [parsePrimary.eq_def]

theorem parsePrimary_group {ts rest : List Located} {e : Expr} {i j k l : Nat}
    {shorter : (⟨.closeParen, k, l⟩ :: rest : List Located).length < ts.length}
    (hp : parseLevels Level.all ts = .ok ⟨e, ⟨.closeParen, k, l⟩ :: rest, shorter⟩) :
    ∃ shorter', parsePrimary (⟨.openParen, i, j⟩ :: ts) = .ok ⟨.group e, rest, shorter'⟩ := by
  rw [parsePrimary.eq_def]
  simp only [hp]
  exact ⟨Nat.lt_of_succ_lt (Nat.lt_succ_of_lt shorter), trivial⟩

mutual

theorem JoinedTree.parseLevels_tokens {ls : List Level} (hn : ls.Nodup) (e : JoinedTree ls)
    (pre rest : List Located) (h : tokensOf pre = e.tokens) (hs : Stops ls rest) :
    ∃ shorter, parseLevels ls (pre ++ rest) = .ok ⟨e.expr, rest, shorter⟩ := by
  match ls, e with
  | [], .unary u =>
      obtain ⟨shorter, hp⟩ := UnaryTree.parseOperand_tokens u pre rest h hs
      exact ⟨shorter, by rw [parseLevels, hp, JoinedTree.expr]⟩
  | l :: ls, e =>
      have hchain : parseChain l ls e.expr rest = .ok ⟨e.expr, rest, Nat.lt_succ_self _⟩ := by
        cases rest with
        | nil => rw [parseChain]
        | cons t rest =>
            have ht := (hs t (by simp)).2 l (by simp)
            rw [parseChain, ht]
      exact JoinedTree.parseLevels_chain hn e pre rest h
        (hs.mono fun m hm => List.mem_cons_of_mem _ hm) _ hchain
termination_by (sizeOf e, 1)

theorem JoinedTree.parseLevels_chain {l : Level} {ls : List Level} (hn : (l :: ls).Nodup)
    (e : JoinedTree (l :: ls)) (pre rest : List Located) (h : tokensOf pre = e.tokens)
    (hs : Stops ls rest) (q : Parsed Expr (rest.length + 1))
    (hq : parseChain l ls e.expr rest = .ok q) :
    ∃ shorter, parseLevels (l :: ls) (pre ++ rest) = .ok ⟨q.value, q.rest, shorter⟩ := by
  obtain ⟨hl, hls⟩ := List.nodup_cons.mp hn
  match e with
  | .tighter e =>
      obtain ⟨shorter, hp⟩ := JoinedTree.parseLevels_tokens hls e pre rest h hs
      rw [JoinedTree.expr] at hq
      rw [parseLevels, hp]
      simp only [hq]
      exact ⟨(q.within shorter).shorter, rfl⟩
  | .join left op hop right =>
      obtain ⟨preL, pre', rfl, hL, hpre'⟩ := tokensOf_eq_append h
      obtain ⟨i, j, preR, rfl, hR⟩ := tokensOf_eq_cons hpre'
      obtain ⟨shorter, hp⟩ := JoinedTree.parseLevels_tokens hls right preR rest hR hs
      have hs' : Stops ls (⟨op.token, i, j⟩ :: (preR ++ rest)) := by
        apply stops_cons op.startsOperand_token
        intro m hm
        have hne : op.level ≠ m := by
          rintro rfl
          exact hl (hop ▸ hm)
        rw [binaryAt?_of_token rfl, if_neg hne]
      -- the chain behind the left tree reads the operator and comes to `q` with the joined tree
      have hstep : ∃ q', parseChain l ls left.expr (⟨op.token, i, j⟩ :: (preR ++ rest)) = .ok q' ∧
          q'.value = q.value ∧ q'.rest = q.rest := by
        rw [JoinedTree.expr] at hq
        rw [parseChain, binaryAt?_of_token rfl, if_pos hop]
        simp only [hp, hq]
        exact ⟨_, rfl, rfl, rfl⟩
      obtain ⟨q', hq', hv, hr⟩ := hstep
      obtain ⟨shorter', hp'⟩ := JoinedTree.parseLevels_chain hn left preL _ hL hs' q' hq'
      rw [List.append_assoc, List.cons_append, hp']
      exact ⟨hr ▸ shorter', by simp only [hv, hr]⟩
termination_by (sizeOf e, 0)

theorem UnaryTree.parseOperand_tokens (e : UnaryTree) (pre rest : List Located)
    (h : tokensOf pre = e.tokens) (hs : Stops [] rest) :
    ∃ shorter, parseOperand (pre ++ rest) = .ok ⟨e.expr, rest, shorter⟩ := by
  match e with
  | .signed s e =>
      obtain ⟨i, j, pre, rfl, hpre⟩ := tokensOf_eq_cons h
      obtain ⟨shorter, hp⟩ := CastTree.parseCast_tokens e pre rest hpre hs
      rw [List.cons_append, parseOperand, s.ofToken?_token]
      simp only [hp, UnaryTree.expr]
      exact ⟨Nat.lt_succ_of_lt shorter, rfl⟩
  | .plain e =>
      obtain ⟨shorter, hp⟩ := CastTree.parseCast_tokens e pre rest h hs
      obtain ⟨t, tl, ht, hop⟩ := e.starts
      obtain ⟨i, j, pre, rfl, -⟩ := tokensOf_eq_cons (h.trans ht)
      rw [List.cons_append, parseOperand, Sign.ofToken?_of_startsOperand hop]
      exact ⟨shorter, hp⟩
termination_by (sizeOf e, 0)

theorem CastTree.parseCast_tokens (e : CastTree) (pre rest : List Located)
    (h : tokensOf pre = e.tokens) (hs : Stops [] rest) :
    ∃ shorter, parseCast (pre ++ rest) = .ok ⟨e.expr, rest, shorter⟩ := by
  match e with
  | .castNumber typeName literal =>
      obtain ⟨i₁, j₁, _, rfl, h₁⟩ := tokensOf_eq_cons h
      obtain ⟨i₂, j₂, _, rfl, h₂⟩ := tokensOf_eq_cons h₁
      obtain ⟨i₃, j₃, _, rfl, h₃⟩ := tokensOf_eq_cons h₂
      obtain ⟨i₄, j₄, _, rfl, h₄⟩ := tokensOf_eq_cons h₃
      obtain rfl := tokensOf_eq_nil h₄
      simp only [List.cons_append, List.nil_append]
      rw [parseCast]
      split
      · rename_i found rest' hc
        obtain ⟨rfl, rfl⟩ : typeName = found ∧ _ = rest' := by
          simpa [castTarget?, Token.startsOperand] using hc
        exact ⟨by simp only [List.length_cons]; omega, rfl⟩
      · rename_i hc
        simp [castTarget?, Token.startsOperand] at hc
  | .cast typeName e =>
      obtain ⟨i₁, j₁, _, rfl, h₁⟩ := tokensOf_eq_cons h
      obtain ⟨i₂, j₂, _, rfl, h₂⟩ := tokensOf_eq_cons h₁
      obtain ⟨i₃, j₃, pre, rfl, h₃⟩ := tokensOf_eq_cons h₂
      obtain ⟨shorter, hp⟩ := CallTree.parsePrimary_tokens e pre rest h₃ hs
      obtain ⟨t, tl, ht, hop, hnum⟩ := e.starts
      obtain ⟨i, j, pre, rfl, -⟩ := tokensOf_eq_cons (h₃.trans ht)
      have hprimary : parsePrimary (⟨t, i, j⟩ :: (pre ++ rest)) = .ok ⟨e.expr, rest, shorter⟩ := hp
      refine parseCast_of_cast ?_ ?_ hprimary
      · simp [castTarget?, hop]
      · rintro n _ _ _ hcons
        exact hnum n (congrArg Located.token (List.cons.inj hcons).1)
  | .number literal =>
      obtain ⟨i, j, _, rfl, h₁⟩ := tokensOf_eq_cons h
      obtain rfl := tokensOf_eq_nil h₁
      simp only [List.cons_append, List.nil_append]
      rw [parseCast]
      split
      · rename_i found rest' hc
        obtain ⟨-, htok⟩ := castTarget?_eq_some hc
        simp at htok
      · exact ⟨by simp, rfl⟩
  | .plain e =>
      obtain ⟨shorter, hp⟩ := CallTree.parsePrimary_tokens e pre rest h hs
      rw [parseCast_eq_parsePrimary (e.castTarget?_eq_none h hs)]
      · exact ⟨shorter, hp⟩
      · obtain ⟨t, tl, ht, hop, hnum⟩ := e.starts
        obtain ⟨i, j, pre, rfl, -⟩ := tokensOf_eq_cons (h.trans ht)
        rintro n _ _ _ hcons
        exact hnum n (congrArg Located.token (List.cons.inj hcons).1)
termination_by (sizeOf e, 0)

theorem CallTree.parsePrimary_tokens (e : CallTree) (pre rest : List Located)
    (h : tokensOf pre = e.tokens) (hs : Stops [] rest) :
    ∃ shorter, parsePrimary (pre ++ rest) = .ok ⟨e.expr, rest, shorter⟩ := by
  match e with
  | .call f args =>
      obtain ⟨i₁, j₁, _, rfl, h₁⟩ := tokensOf_eq_cons h
      obtain ⟨i₂, j₂, pre, rfl, h₂⟩ := tokensOf_eq_cons h₁
      obtain ⟨shorter, hp⟩ := ArgsTree.parseArgs_tokens args pre rest h₂
      simp only [List.cons_append]
      rw [parsePrimary.eq_def]
      simp only [hp, CallTree.expr]
      exact ⟨Nat.lt_succ_of_lt (Nat.lt_succ_of_lt shorter), rfl⟩
  | .group e =>
      obtain ⟨i₁, j₁, pre, rfl, h₁⟩ := tokensOf_eq_cons h
      obtain ⟨pre, last, rfl, hpre, hlast⟩ := tokensOf_eq_append h₁
      obtain ⟨i₂, j₂, _, rfl, h₂⟩ := tokensOf_eq_cons hlast
      obtain rfl := tokensOf_eq_nil h₂
      obtain ⟨shorter, hp⟩ := JoinedTree.parseLevels_tokens (by decide) e pre
        (⟨.closeParen, i₂, j₂⟩ :: rest) hpre (stops_of_closer (.inl rfl))
      rw [List.cons_append, List.append_assoc, List.singleton_append]
      exact parsePrimary_group hp
  | .name x =>
      obtain ⟨i, j, _, rfl, h₁⟩ := tokensOf_eq_cons h
      obtain rfl := tokensOf_eq_nil h₁
      exact ⟨Nat.lt_succ_self _, parsePrimary_name hs⟩
termination_by (sizeOf e, 0)

theorem ArgsTree.parseArgs_tokens (args : ArgsTree) (pre rest : List Located)
    (h : tokensOf pre = args.tokens) :
    ∃ shorter, parseArgs (pre ++ rest) = .ok ⟨args.args, rest, shorter⟩ := by
  match args with
  | .last e =>
      obtain ⟨pre, last, rfl, hpre, hlast⟩ := tokensOf_eq_append h
      obtain ⟨i, j, _, rfl, h₁⟩ := tokensOf_eq_cons hlast
      obtain rfl := tokensOf_eq_nil h₁
      obtain ⟨shorter, hp⟩ := JoinedTree.parseLevels_tokens (by decide) e pre
        (⟨.closeParen, i, j⟩ :: rest) hpre (stops_of_closer (.inl rfl))
      rw [List.append_assoc, List.singleton_append, parseArgs, hp]
      exact ⟨Nat.lt_of_succ_lt shorter, rfl⟩
  | .more e args =>
      obtain ⟨pre, pre', rfl, hpre, hpre'⟩ := tokensOf_eq_append h
      obtain ⟨i, j, preA, rfl, hA⟩ := tokensOf_eq_cons hpre'
      obtain ⟨shorter, hp⟩ := JoinedTree.parseLevels_tokens (by decide) e pre
        (⟨.comma, i, j⟩ :: (preA ++ rest)) hpre (stops_of_closer (.inr (.inl rfl)))
      obtain ⟨shorter', hp'⟩ := ArgsTree.parseArgs_tokens args preA rest hA
      rw [List.append_assoc, List.cons_append, parseArgs, hp]
      simp only [hp', ArgsTree.args]
      exact ⟨Nat.lt_trans shorter' (Nat.lt_of_succ_lt shorter), rfl⟩
termination_by (sizeOf args, 0)

end

end FormulaMachine.Infix
