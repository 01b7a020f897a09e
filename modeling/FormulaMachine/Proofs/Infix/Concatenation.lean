import FormulaMachine.Proofs.Infix.Spacing

namespace FormulaMachine

namespace Infix

namespace Scan

variable {c : Char} {cs : List Char} {n : Nat}

theorem commentLengthFrom?_append {n m : Nat} (h : commentLengthFrom? n cs = some m)
    (ds : List Char) : m ≤ n + cs.length ∧ commentLengthFrom? n (cs ++ ds) = some m := by
  fun_induction commentLengthFrom? n cs with
  | case1 n cs =>
      obtain rfl := Option.some.inj h
      refine ⟨?_, rfl⟩
      rw [List.length_cons, List.length_cons]
      omega
  | case2 n c cs hend ih =>
      obtain ⟨hle, happend⟩ := ih h
      refine ⟨by rw [List.length_cons]; omega, ?_⟩
      rw [List.cons_append, commentLengthFrom?.eq_2 n c (cs ++ ds) ?_]
      · exact happend
      · intro es hc hes
        cases cs with
        | nil => cases h
        | cons d cs => exact hend cs hc (congrArg (· :: cs) (List.cons.inj hes).1)
  | case3 => cases h

theorem slash_skip (h : slash cs = .skip n) (ds : List Char) :
    n ≤ cs.length ∧ slash (cs ++ '\n' :: ds) = .skip n := by
  unfold slash at h
  split at h
  · rename_i cs
    obtain rfl := Scan.skip.inj h
    have hle := countWhile_le (· != '\n') cs
    refine ⟨by rw [List.length_cons]; omega, ?_⟩
    rw [List.cons_append, slash, countWhile_append_cons (by decide)]
  · rename_i cs
    split at h
    · rename_i m hlength
      obtain rfl := Scan.skip.inj h
      obtain ⟨hle, happend⟩ := commentLengthFrom?_append hlength ('\n' :: ds)
      refine ⟨by rw [List.length_cons]; omega, ?_⟩
      rw [List.cons_append, slash, happend]
    · cases h
  · cases h

theorem oneOrTwo_ne_skip (second : Char) (two one : Token) (cs : List Char) (n : Nat) :
    oneOrTwo second two one cs ≠ .skip n := by
  intro h
  unfold oneOrTwo at h
  split at h
  · split at h <;> cases h
  · cases h

theorem quoted_ne_skip (cs : List Char) (n : Nat) : quoted cs ≠ .skip n := by
  intro h
  unfold quoted at h
  dsimp only at h
  split at h
  · cases h
  split at h
  · cases h
  split at h <;> cases h

variable [Lexicon]

theorem number_ne_skip (cs : List Char) (n : Nat) : number cs ≠ .skip n := by
  intro h
  unfold number at h
  dsimp only at h
  split at h <;> cases h

theorem ofChars_eq_skip (h : ofChars c cs = .skip n) :
    (c = '/' ∧ slash cs = .skip n) ∨ (Text.isBlank c ∧ n = 0) := by
  unfold ofChars at h
  split at h
  case h_1 => exact .inl ⟨rfl, h⟩
  case h_2 | h_3 | h_4 | h_5 | h_6 | h_7 => exact absurd h (oneOrTwo_ne_skip _ _ _ _ _)
  case h_16 => exact absurd h (quoted_ne_skip _ _)
  case h_17 =>
    split at h
    · cases h
    split at h
    · exact absurd h (number_ne_skip _ _)
    split at h
    · rename_i hb
      exact .inr ⟨hb, (Scan.skip.inj h).symm⟩
    · cases h
  all_goals cases h

theorem ofChars_skip (h : ofChars c cs = .skip n) (ds : List Char) :
    n ≤ cs.length ∧ ofChars c (cs ++ '\n' :: ds) = .skip n := by
  rcases ofChars_eq_skip h with ⟨rfl, hslash⟩ | ⟨hb, rfl⟩
  · exact slash_skip hslash ds
  · exact ⟨Nat.zero_le _, ofChars_of_isBlank hb _⟩

end Scan

section Texts

variable [Lexicon]

theorem whole_of_reads_nil {cs : List Char} (h : Reads cs []) : Whole (cs ++ ['\n']) [] := by
  intro ds us hds
  generalize hnone : ([] : List Token) = ts at h
  induction h with
  | nil => exact .skip (Scan.ofChars_of_isBlank (by decide) ds) hds
  | @skip c cs n ts hscan _ ih =>
      obtain ⟨hle, hscan'⟩ := Scan.ofChars_skip hscan ds
      rw [List.append_assoc, List.singleton_append] at ih ⊢
      rw [List.cons_append]
      refine .skip hscan' ?_
      rw [List.drop_append_of_le_length hle]
      exact ih hnone
  | token => cases hnone

theorem statements_append {a b : String} {as bs : List Assignment} (ha : statements a = .ok as)
    (hb : statements b = .ok bs) : statements (a ++ "\n" ++ b) = .ok (as ++ bs) := by
  obtain ⟨xs, hne, rfl, hxs⟩ := statements_eq_ok_iff.mp ha
  obtain ⟨ys, -, rfl, hys⟩ := statements_eq_ok_iff.mp hb
  rw [← List.append_nil (xs.flatMap _)] at hxs
  obtain ⟨front, back, hfront, hwhole, hback⟩ := hxs.cut_statements
  refine statements_eq_ok_iff.mpr ⟨xs ++ ys, by simp [hne], List.map_append, ?_⟩
  have htext : (a ++ "\n" ++ b).toList = front ++ (back ++ ['\n'] ++ b.toList) := by
    simp [hfront]
  rw [htext, List.flatMap_append]
  exact hwhole _ _ (whole_of_reads_nil hback _ _ hys)

theorem toPostfix_append {a b code code' : String} (ha : toPostfix a = .ok code)
    (hb : toPostfix b = .ok code') :
    emitText (a ++ "\n" ++ b) = .ok ⟨code ++ code', [], [], none⟩ ∧
      toPostfix (a ++ "\n" ++ b) = .ok (code ++ code') := by
  obtain ⟨as, has, rfl, -⟩ := toPostfix_eq_ok ha
  obtain ⟨bs, hbs, rfl, -⟩ := toPostfix_eq_ok hb
  have hboth := statements_append has hbs
  have hcode : programCode (as ++ bs) = programCode as ++ programCode bs := List.flatMap_append
  rw [← Postfix.text_append, ← hcode]
  exact ⟨emitText_of_statements hboth, toPostfix_of_statements hboth⟩

end Texts

theorem toPostfix_append_comment :
    toPostfix "x = 1; y = -x; // y = 2;" = .ok "CONST 1\nWRITE x\nREAD x\nNEG\nWRITE y\n" ∧
      toPostfix "x = y, /* z = */" = .ok "READ y\nWRITE x\n" ∧
      emitText "x = 1; y = -x; // y = 2;\nx = y, /* z = */" =
        .ok ⟨"CONST 1\nWRITE x\nREAD x\nNEG\nWRITE y\nREAD y\nWRITE x\n", [], [], none⟩ ∧
      toPostfix "x = 1; y = -x; // y = 2;\nx = y, /* z = */" =
        .ok "CONST 1\nWRITE x\nREAD x\nNEG\nWRITE y\nREAD y\nWRITE x\n" := by
  have ha : toPostfix "x = 1; y = -x; // y = 2;" =
      .ok "CONST 1\nWRITE x\nREAD x\nNEG\nWRITE y\n" := by decide +kernel
  have hb : toPostfix "x = y, /* z = */" = .ok "READ y\nWRITE x\n" := by decide +kernel
  have hboth := toPostfix_append ha hb
  exact ⟨ha, hb, hboth⟩

end Infix

end FormulaMachine
