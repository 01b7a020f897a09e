import FormulaMachine.Proofs.Infix.Derivation

namespace FormulaMachine.Infix

def tokensOf (ts : List Located) : List Token := ts.map Located.token

@[simp] theorem tokensOf_nil : tokensOf [] = [] := rfl

@[simp] theorem tokensOf_cons (t : Located) (ts : List Located) :
    tokensOf (t :: ts) = t.token :: tokensOf ts := rfl

@[simp] theorem tokensOf_append (ts us : List Located) :
    tokensOf (ts ++ us) = tokensOf ts ++ tokensOf us :=
  List.map_append

theorem tokensOf_eq_cons {ts : List Located} {t : Token} {us : List Token}
    (h : tokensOf ts = t :: us) : ∃ i j ts', ts = ⟨t, i, j⟩ :: ts' ∧ tokensOf ts' = us := by
  obtain ⟨⟨t, i, j⟩, ts', rfl, rfl, hts⟩ := List.map_eq_cons_iff.mp h
  exact ⟨i, j, ts', rfl, hts⟩

theorem tokensOf_eq_append {ts : List Located} {us vs : List Token}
    (h : tokensOf ts = us ++ vs) :
    ∃ front back, ts = front ++ back ∧ tokensOf front = us ∧ tokensOf back = vs :=
  List.map_eq_append_iff.mp h

theorem tokensOf_eq_nil {ts : List Located} (h : tokensOf ts = []) : ts = [] :=
  List.map_eq_nil_iff.mp h

theorem exists_of_castTarget? {ts rest : List Located} {typeName : String}
    (h : castTarget? ts = some (typeName, rest)) :
    ∃ a b c d tl, ts = a :: b :: c :: rest ∧ rest = d :: tl ∧ a.token = .openParen ∧
      b.token = .ident typeName ∧ c.token = .closeParen ∧ d.token.startsOperand = true := by
  unfold castTarget? at h
  split at h
  · split at h
    · split at h
      · rename_i ha hb hc hd
        obtain ⟨rfl, rfl⟩ : _ = typeName ∧ _ = rest := by simpa using h
        exact ⟨_, _, _, _, _, rfl, rfl, ha, hb, hc, hd⟩
      · contradiction
    · contradiction
  · contradiction

theorem castTarget?_eq_some {ts rest : List Located} {typeName : String}
    (h : castTarget? ts = some (typeName, rest)) :
    (∃ t rest', rest = t :: rest' ∧ t.token.startsOperand = true) ∧
      tokensOf ts = .openParen :: .ident typeName :: .closeParen :: tokensOf rest := by
  obtain ⟨a, b, c, d, tl, rfl, rfl, ha, hb, hc, hd⟩ := exists_of_castTarget? h
  exact ⟨⟨d, tl, rfl, hd⟩, by simp [ha, hb, hc]⟩

theorem binaryAt?_eq_some {l : Level} {t : Located} {op : BinaryOp}
    (h : binaryAt? l t = some op) : op.level = l ∧ t.token = op.token := by
  unfold binaryAt? at h
  split at h
  · rename_i op' hop
    split at h
    · rename_i hl
      obtain rfl : op' = op := by simpa using h
      refine ⟨hl, ?_⟩
      cases ht : t.token <;> simp [ht, BinaryOp.ofToken?] at hop <;> subst hop <;> rfl
    · contradiction
  · contradiction

theorem Sign.token_of_ofToken? {t : Token} {s : Sign} (h : Sign.ofToken? t = some s) :
    t = s.token := by
  cases t <;> simp [Sign.ofToken?] at h <;> subst h <;> rfl

mutual

theorem parseLevels_sound (ls : List Level) (ts : List Located) (p : Parsed Expr ts.length)
    (h : parseLevels ls ts = .ok p) :
    ∃ e : JoinedTree ls, e.expr = p.value ∧ tokensOf ts = e.tokens ++ tokensOf p.rest := by
  match ls with
  | [] =>
      rw [parseLevels] at h
      obtain ⟨u, hu, ht⟩ := parseOperand_sound ts p h
      exact ⟨.unary u, hu, ht⟩
  | l :: ls =>
      rw [parseLevels] at h
      split at h
      · contradiction
      · rename_i q hq
        split at h
        · contradiction
        · rename_i r hr
          obtain ⟨e, he, ht⟩ := parseLevels_sound ls ts q hq
          have hs := q.shorter
          obtain ⟨f, hf, ht'⟩ := parseChain_sound l ls (.tighter e) q.rest r (he ▸ hr)
          obtain rfl : r.within q.shorter = p := by simpa using h
          exact ⟨f, hf, ht.trans ht'⟩
termination_by (ts.length, ls.length + 3)

theorem parseChain_sound (l : Level) (ls : List Level) (left : JoinedTree (l :: ls))
    (ts : List Located) (p : Parsed Expr (ts.length + 1))
    (h : parseChain l ls left.expr ts = .ok p) :
    ∃ e : JoinedTree (l :: ls), e.expr = p.value ∧
      left.tokens ++ tokensOf ts = e.tokens ++ tokensOf p.rest := by
  match ts with
  | [] =>
      rw [parseChain] at h
      obtain rfl := Except.ok.inj h
      exact ⟨left, rfl, rfl⟩
  | t :: ts =>
      rw [parseChain] at h
      split at h
      · obtain rfl := Except.ok.inj h
        exact ⟨left, rfl, rfl⟩
      · rename_i op hop
        obtain ⟨hl, htok⟩ := binaryAt?_eq_some hop
        split at h
        · contradiction
        · rename_i q hq
          split at h
          · contradiction
          · rename_i r hr
            obtain ⟨e, he, ht⟩ := parseLevels_sound ls ts q hq
            have hs := q.shorter
            obtain ⟨f, hf, ht'⟩ :=
              parseChain_sound l ls (.join left op hl e) q.rest r (by rw [← he] at hr; exact hr)
            obtain rfl := Except.ok.inj h
            refine ⟨f, hf, ?_⟩
            simpa [JoinedTree.tokens, htok, ht] using ht'
termination_by (ts.length, 0)

theorem parseOperand_sound (ts : List Located) (p : Parsed Expr ts.length)
    (h : parseOperand ts = .ok p) :
    ∃ e : UnaryTree, e.expr = p.value ∧ tokensOf ts = e.tokens ++ tokensOf p.rest := by
  match ts with
  | [] => rw [parseOperand] at h; contradiction
  | t :: ts =>
      rw [parseOperand] at h
      split at h
      · obtain ⟨e, he, ht⟩ := parseCast_sound (t :: ts) p h
        exact ⟨.plain e, he, ht⟩
      · rename_i s hs
        split at h
        · contradiction
        · rename_i q hq
          obtain ⟨e, he, ht⟩ := parseCast_sound ts q hq
          obtain rfl := Except.ok.inj h
          refine ⟨.signed s e, congrArg _ he, ?_⟩
          simpa [UnaryTree.tokens, Sign.token_of_ofToken? hs] using ht
termination_by (ts.length, 2)

theorem parseCast_sound (ts : List Located) (p : Parsed Expr ts.length)
    (h : parseCast ts = .ok p) :
    ∃ e : CastTree, e.expr = p.value ∧ tokensOf ts = e.tokens ++ tokensOf p.rest := by
  rw [parseCast] at h
  split at h
  · rename_i typeName rest hc
    obtain ⟨-, htok⟩ := castTarget?_eq_some hc
    have hlen := length_lt_of_castTarget? hc
    dsimp only at h
    split at h
    · rename_i literal _ _ rest' _ _
      obtain rfl := Except.ok.inj h
      exact ⟨.castNumber typeName literal, rfl, by simpa [CastTree.tokens] using htok⟩
    · split at h
      · contradiction
      · rename_i q hq
        obtain ⟨e, he, ht⟩ := parsePrimary_sound rest q hq
        obtain rfl := Except.ok.inj h
        refine ⟨.cast typeName e, congrArg _ he, ?_⟩
        simpa [CastTree.tokens, ht] using htok
  · split at h
    · rename_i literal _ _ rest' _ _
      obtain rfl := Except.ok.inj h
      exact ⟨.number literal, rfl, by simp [CastTree.tokens]⟩
    · obtain ⟨e, he, ht⟩ := parsePrimary_sound ts p h
      exact ⟨.plain e, he, ht⟩
termination_by (ts.length, 1)

theorem parsePrimary_sound (ts : List Located) (p : Parsed Expr ts.length)
    (h : parsePrimary ts = .ok p) :
    ∃ e : CallTree, e.expr = p.value ∧ tokensOf ts = e.tokens ++ tokensOf p.rest := by
  rw [parsePrimary.eq_def] at h
  split at h
  · rename_i f _ _ _ _ rest
    split at h
    · contradiction
    · rename_i q hq
      obtain ⟨args, ha, ht⟩ := parseArgs_sound rest q hq
      obtain rfl := Except.ok.inj h
      refine ⟨.call f args, congrArg _ ha, ?_⟩
      simpa [CallTree.tokens] using ht
  · rename_i x _ _ _ _
    obtain rfl := Except.ok.inj h
    exact ⟨.name x, rfl, by simp [CallTree.tokens]⟩
  · rename_i rest
    split at h
    · contradiction
    · rename_i e _ _ rest' shorter hq
      obtain ⟨t, he, ht⟩ := parseLevels_sound Level.all _ _ hq
      obtain rfl := Except.ok.inj h
      refine ⟨.group t, congrArg _ he, ?_⟩
      simpa [CallTree.tokens] using ht
    · contradiction
  · contradiction
termination_by (ts.length, 0)

theorem parseArgs_sound (ts : List Located) (p : Parsed Args ts.length)
    (h : parseArgs ts = .ok p) :
    ∃ args : ArgsTree, args.args = p.value ∧ tokensOf ts = args.tokens ++ tokensOf p.rest := by
  rw [parseArgs] at h
  split at h
  · contradiction
  · rename_i e _ _ rest shorter hq
    obtain ⟨t, he, ht⟩ := parseLevels_sound Level.all ts _ hq
    obtain rfl := Except.ok.inj h
    exact ⟨.last t, congrArg _ he, by simpa [ArgsTree.tokens] using ht⟩
  · rename_i e _ _ rest shorter hq
    split at h
    · contradiction
    · rename_i q hr
      obtain ⟨t, he, ht⟩ := parseLevels_sound Level.all ts _ hq
      have hs : rest.length < ts.length := Nat.lt_of_succ_lt shorter
      obtain ⟨args, ha, ht'⟩ := parseArgs_sound rest q hr
      obtain rfl := Except.ok.inj h
      refine ⟨.more t args, by simp [ArgsTree.args, he, ha], ?_⟩
      simpa [ArgsTree.tokens, ht'] using ht
  · contradiction
termination_by (ts.length, 8)
decreasing_by
  · exact Prod.Lex.right _ (by decide)
  · exact Prod.Lex.right _ (by decide)
  · exact Prod.Lex.left _ _ (by assumption)

end

end FormulaMachine.Infix
