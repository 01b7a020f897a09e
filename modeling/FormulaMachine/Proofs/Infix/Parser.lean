import FormulaMachine.Infix.Code
import FormulaMachine.Proofs.Infix.Expression

namespace FormulaMachine.Infix

mutual

def parseLevels (levels : List Level) (ts : List Located) :
    Except Failure (Parsed Expr ts.length) :=
  match levels with
  | [] => parseOperand ts
  | l :: levels =>
      match parseLevels levels ts with
      | .error f => .error f
      | .ok p =>
          match parseChain l levels p.value p.rest with
          | .error f => .error f
          | .ok q => .ok (q.within p.shorter)
termination_by 8 * ts.length + levels.length + 3
decreasing_by
  · simp
  · simp
  · have := p.shorter
    simp only [List.length_cons]
    omega

def parseChain (l : Level) (levels : List Level) (left : Expr) (ts : List Located) :
    Except Failure (Parsed Expr (ts.length + 1)) :=
  match ts with
  | [] => .ok ⟨left, [], Nat.lt_succ_self _⟩
  | t :: ts =>
      match binaryAt? l t with
      | none => .ok ⟨left, t :: ts, Nat.lt_succ_self _⟩
      | some op =>
          match parseLevels levels ts with
          | .error f => .error f
          | .ok p =>
              match parseChain l levels (.binary op left p.value) p.rest with
              | .error f => .error f
              | .ok q =>
                  .ok (q.within (Nat.le_trans p.shorter (by simp only [List.length_cons]; omega)))
termination_by 8 * ts.length + levels.length
decreasing_by
  · simp only [List.length_cons]
    omega
  · have := p.shorter
    simp only [List.length_cons]
    omega

def parseOperand (ts : List Located) : Except Failure (Parsed Expr ts.length) :=
  match ts with
  | [] => .error (.unexpected [])
  | t :: ts =>
      match Sign.ofToken? t.token with
      | none => parseCast (t :: ts)
      | some s =>
          match parseCast ts with
          | .error f => .error f
          | .ok p => .ok ((p.map (.signed s)).within (by simp))
termination_by 8 * ts.length + 2
decreasing_by
  · exact Nat.lt_succ_self _
  · simp only [List.length_cons]
    omega

def parseCast (ts : List Located) : Except Failure (Parsed Expr ts.length) :=
  match h : castTarget? ts with
  | some (typeName, rest) =>
      have shorter := length_lt_of_castTarget? h
      match rest with
      | ⟨.number literal, _, _⟩ :: rest =>
          .ok ⟨.castNumber typeName literal, rest, Nat.lt_of_succ_lt (by simpa using shorter)⟩
      | rest =>
          match parsePrimary rest with
          | .error f => .error f
          | .ok p => .ok ((p.map (.cast typeName)).within (Nat.le_of_lt shorter))
  | none =>
      match ts with
      | ⟨.number literal, _, _⟩ :: rest => .ok ⟨.number literal, rest, by simp⟩
      | ts => parsePrimary ts
termination_by 8 * ts.length + 1
decreasing_by
  · omega
  · exact Nat.lt_succ_self _

def parsePrimary (ts : List Located) : Except Failure (Parsed Expr ts.length) :=
  match ts with
  | ⟨.ident f, _, _⟩ :: ⟨.openParen, _, _⟩ :: ts =>
      match parseArgs ts with
      | .error f => .error f
      | .ok p => .ok ((p.map (.call f)).within (by simp only [List.length_cons]; omega))
  | ⟨.ident x, _, _⟩ :: ts => .ok ⟨.name x, ts, by simp⟩
  | ⟨.openParen, _, _⟩ :: ts =>
      match parseLevels Level.all ts with
      | .error f => .error f
      | .ok ⟨e, ⟨.closeParen, _, _⟩ :: rest, shorter⟩ =>
          .ok ⟨.group e, rest, by simp only [List.length_cons] at shorter ⊢; omega⟩
      | .ok p => .error (.unexpected p.rest)
  | ts => .error (.unexpected ts)
termination_by 8 * ts.length
decreasing_by
  · simp only [List.length_cons]
    omega
  · simp only [List.length_cons, Level.all, List.length_nil]
    omega

def parseArgs (ts : List Located) : Except Failure (Parsed Args ts.length) :=
  match parseLevels Level.all ts with
  | .error f => .error f
  | .ok ⟨e, ⟨.closeParen, _, _⟩ :: rest, shorter⟩ =>
      .ok ⟨.last e, rest, by simp only [List.length_cons] at shorter; omega⟩
  | .ok ⟨e, ⟨.comma, _, _⟩ :: rest, shorter⟩ =>
      match parseArgs rest with
      | .error f => .error f
      | .ok p => .ok ((p.map (.more e)).within (by simp only [List.length_cons] at shorter; omega))
  | .ok p => .error (.unexpected p.rest)
termination_by 8 * ts.length + 8
decreasing_by
  · simp [Level.all]
  · simp only [List.length_cons] at shorter
    omega

end

theorem parseCast_eq_parsePrimary {ts : List Located} (hc : castTarget? ts = none)
    (hn : ∀ n i j tl, ts ≠ ⟨.number n, i, j⟩ :: tl) : parseCast ts = parsePrimary ts := by
  rw [parseCast]
  split
  · rename_i h
    exact absurd (hc.symm.trans h) (by simp)
  · split
    · exact absurd rfl (hn _ _ _ _)
    · rfl

theorem parseCast_number {literal : String} {i j : Nat} {ts : List Located}
    (hc : castTarget? (⟨.number literal, i, j⟩ :: ts) = none) :
    parseCast (⟨.number literal, i, j⟩ :: ts) =
      .ok ⟨.number literal, ts, Nat.lt_succ_self _⟩ := by
  rw [parseCast]
  split
  · rename_i h
    exact absurd (hc.symm.trans h) (by simp)
  · rfl

def parseAssignment (ts : List Located) : Except Failure (Parsed Assignment ts.length) :=
  match ts with
  | ⟨.ident target, _, _⟩ :: ⟨.assign, _, _⟩ :: ts =>
      match parseLevels Level.all ts with
      | .error f => .error f
      | .ok ⟨e, ⟨.semicolon, _, _⟩ :: rest, shorter⟩ =>
          .ok ⟨⟨target, e, .semicolon⟩, rest, by
            simp only [List.length_cons] at shorter ⊢; omega⟩
      | .ok ⟨e, ⟨.comma, _, _⟩ :: rest, shorter⟩ =>
          .ok ⟨⟨target, e, .comma⟩, rest, by
            simp only [List.length_cons] at shorter ⊢; omega⟩
      | .ok ⟨_, [], _⟩ => .error (.unexpected [])
      | .ok p => .error (.extra p.rest)
  | ⟨.ident _, _, _⟩ :: ts => .error (.unexpected ts)
  | ts => .error (.unexpected ts)

def parseFrom (seen : List Assignment) (ts : List Located) : Except Failure (List Assignment) :=
  if ts = [] then .ok seen.reverse
  else
    match parseAssignment ts with
    | .error f => .error f
    | .ok p => parseFrom (p.value :: seen) p.rest
termination_by ts.length
decreasing_by exact p.shorter

def parse (ts : List Located) : Except SyntaxError (List Assignment) :=
  if ts = [] then .error (.between 0 0 .emptyEquation)
  else (parseFrom [] ts).mapError (Failure.error ts)

end FormulaMachine.Infix
