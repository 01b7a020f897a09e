import FormulaMachine.Infix.Emitter

-- One function for each rule of the grammar:
--
--   program    := assignment+
--   assignment := IDENT '=' expression (';' | ',')
--   expression := operands joined by the binary operators of the four levels, left to right
--   operand    := ('+' | '-' | '!') cast | cast
--   cast       := '(' IDENT ')' NUMBER | '(' IDENT ')' primary | NUMBER | primary
--   primary    := IDENT '(' expression (',' expression)* ')' | '(' expression ')' | IDENT
--
-- A name in brackets is a cast where an operand follows it.
--
-- Between two tokens the calls go down from `args` to `primary`, eight steps with the four levels; so
-- the number of tokens left, times eight, plus the steps left decreases at each call.

namespace FormulaMachine.Infix

structure Parsed (α : Type) (n : Nat) where
  value : α
  rest : List Located
  shorter : rest.length < n

namespace Parsed

variable {α β : Type} {n m : Nat}

def map (f : α → β) (p : Parsed α n) : Parsed β n :=
  ⟨f p.value, p.rest, p.shorter⟩

def within (p : Parsed α n) (h : n ≤ m) : Parsed α m :=
  ⟨p.value, p.rest, Nat.lt_of_lt_of_le p.shorter h⟩

@[simp] theorem value_map (f : α → β) (p : Parsed α n) : (p.map f).value = f p.value := rfl

@[simp] theorem rest_map (f : α → β) (p : Parsed α n) : (p.map f).rest = p.rest := rfl

@[simp] theorem value_within (p : Parsed α n) (h : n ≤ m) : (p.within h).value = p.value := rfl

@[simp] theorem rest_within (p : Parsed α n) (h : n ≤ m) : (p.within h).rest = p.rest := rfl

end Parsed

inductive Failure where
  | unexpected (rest : List Located)
  -- The tokens before these only lack the end of an assignment.
  | extra (rest : List Located)
  deriving DecidableEq, Repr

def Token.startsOperand : Token → Bool
  | .ident _ | .number _ | .openParen => true
  | _ => false

def castTarget? : List Located → Option (String × List Located)
  | a :: b :: c :: d :: rest =>
      match a.token, b.token, c.token with
      | .openParen, .ident typeName, .closeParen =>
          if d.token.startsOperand then some (typeName, d :: rest) else none
      | _, _, _ => none
  | _ => none

theorem length_lt_of_castTarget? {ts rest : List Located} {typeName : String}
    (h : castTarget? ts = some (typeName, rest)) : rest.length < ts.length := by
  unfold castTarget? at h
  split at h
  · split at h
    · split at h
      · simp only [Option.some.injEq, Prod.mk.injEq] at h
        rw [← h.2]
        simp only [List.length_cons]
        omega
      · contradiction
    · contradiction
  · contradiction

def binaryAt? (l : Level) (t : Located) : Option BinaryOp :=
  match BinaryOp.ofToken? t.token with
  | some op => if op.level = l then some op else none
  | none => none

mutual

def emitLevels (levels : List Level) (e : Emitter) (ts : List Located) :
    Except Failure (Parsed Emitter ts.length) :=
  match levels with
  | [] => emitOperand e ts
  | l :: levels =>
      match emitLevels levels e ts with
      | .error f => .error f
      | .ok p =>
          match emitChain l levels p.value p.rest with
          | .error f => .error f
          | .ok q => .ok (q.within p.shorter)
termination_by 8 * ts.length + levels.length + 3
decreasing_by
  · simp
  · simp
  · have := p.shorter
    simp only [List.length_cons]
    omega

def emitChain (l : Level) (levels : List Level) (e : Emitter) (ts : List Located) :
    Except Failure (Parsed Emitter (ts.length + 1)) :=
  match ts with
  | [] => .ok ⟨e, [], Nat.lt_succ_self _⟩
  | t :: ts =>
      match binaryAt? l t with
      | none => .ok ⟨e, t :: ts, Nat.lt_succ_self _⟩
      | some op =>
          match emitLevels levels (e.execute (.pushOperator (.binary op.opcode))) ts with
          | .error f => .error f
          | .ok p =>
              match emitChain l levels (p.value.execute .popOperator) p.rest with
              | .error f => .error f
              | .ok q =>
                  .ok (q.within (Nat.le_trans p.shorter (by simp only [List.length_cons]; omega)))
termination_by 8 * ts.length + levels.length
decreasing_by
  · simp only [List.length_cons]
    omega
  · have := p.shorter
    simp only [List.length_cons]
    omega

def emitOperand (e : Emitter) (ts : List Located) : Except Failure (Parsed Emitter ts.length) :=
  match ts with
  | [] => .error (.unexpected [])
  | t :: ts =>
      match Sign.ofToken? t.token with
      | none => emitCast e (t :: ts)
      | some s =>
          match emitCast (e.execute (.pushOperator (.sign s))) ts with
          | .error f => .error f
          | .ok p => .ok ((p.map (·.execute .popOperatorAlternate)).within (by simp))
termination_by 8 * ts.length + 2
decreasing_by
  · exact Nat.lt_succ_self _
  · simp only [List.length_cons]
    omega

def emitCast (e : Emitter) (ts : List Located) : Except Failure (Parsed Emitter ts.length) :=
  match h : castTarget? ts with
  | some (typeName, rest) =>
      have shorter := length_lt_of_castTarget? h
      match rest with
      | ⟨.number literal, _, _⟩ :: rest =>
          .ok ⟨(e.execute (.pushTypecast typeName)).execute (.addOperandTypecast literal), rest,
            Nat.lt_of_succ_lt (by simpa using shorter)⟩
      | rest =>
          match emitPrimary (e.execute (.pushTypecast typeName)) rest with
          | .error f => .error f
          | .ok p => .ok ((p.map (·.execute .popTypecast)).within (Nat.le_of_lt shorter))
  | none =>
      match ts with
      | ⟨.number literal, _, _⟩ :: rest =>
          .ok ⟨e.execute (.addOperand (.number literal)), rest, by simp⟩
      | ts => emitPrimary e ts
termination_by 8 * ts.length + 1
decreasing_by
  · omega
  · exact Nat.lt_succ_self _

def emitPrimary (e : Emitter) (ts : List Located) : Except Failure (Parsed Emitter ts.length) :=
  match ts with
  | ⟨.ident f, _, _⟩ :: ⟨.openParen, _, _⟩ :: ts =>
      match emitArgs (e.execute (.pushOperator (.function f))) ts with
      | .error f => .error f
      | .ok p =>
          .ok ((p.map (·.execute .popOperator)).within (by simp only [List.length_cons]; omega))
  | ⟨.ident x, _, _⟩ :: ts => .ok ⟨e.execute (.addOperand (.ident x)), ts, by simp⟩
  | ⟨.openParen, _, _⟩ :: ts =>
      match emitLevels Level.all e ts with
      | .error f => .error f
      | .ok ⟨e, ⟨.closeParen, _, _⟩ :: rest, shorter⟩ =>
          .ok ⟨e, rest, by simp only [List.length_cons] at shorter ⊢; omega⟩
      | .ok p => .error (.unexpected p.rest)
  | ts => .error (.unexpected ts)
termination_by 8 * ts.length
decreasing_by
  · simp only [List.length_cons]
    omega
  · simp only [List.length_cons, Level.all, List.length_nil]
    omega

def emitArgs (e : Emitter) (ts : List Located) : Except Failure (Parsed Emitter ts.length) :=
  match emitLevels Level.all e ts with
  | .error f => .error f
  | .ok ⟨e, ⟨.closeParen, _, _⟩ :: rest, shorter⟩ =>
      .ok ⟨e, rest, by simp only [List.length_cons] at shorter; omega⟩
  | .ok ⟨e, ⟨.comma, _, _⟩ :: rest, shorter⟩ =>
      match emitArgs e rest with
      | .error f => .error f
      | .ok p => .ok (p.within (by simp only [List.length_cons] at shorter; omega))
  | .ok p => .error (.unexpected p.rest)
termination_by 8 * ts.length + 8
decreasing_by
  · simp [Level.all]
  · simp only [List.length_cons] at shorter
    omega

end

def emitAssignment (e : Emitter) (ts : List Located) : Except Failure (Parsed Emitter ts.length) :=
  match ts with
  | ⟨.ident target, _, _⟩ :: ⟨.assign, _, _⟩ :: ts =>
      match emitLevels Level.all (e.execute (.storeAssignment target)) ts with
      | .error f => .error f
      | .ok ⟨e, ⟨.semicolon, _, _⟩ :: rest, shorter⟩ =>
          .ok (Parsed.within ⟨e.execute .popAssignment, rest, Nat.lt_of_succ_lt shorter⟩
            (Nat.le_add_right _ 2))
      | .ok ⟨e, ⟨.comma, _, _⟩ :: rest, shorter⟩ =>
          .ok (Parsed.within ⟨e.execute .popAssignment, rest, Nat.lt_of_succ_lt shorter⟩
            (Nat.le_add_right _ 2))
      | .ok ⟨_, [], _⟩ => .error (.unexpected [])
      | .ok p => .error (.extra p.rest)
  | ⟨.ident _, _, _⟩ :: ts => .error (.unexpected ts)
  | ts => .error (.unexpected ts)

def emitProgram (e : Emitter) (ts : List Located) : Except Failure Emitter :=
  if ts = [] then .ok e
  else
    match emitAssignment e ts with
    | .error f => .error f
    | .ok p => emitProgram p.value p.rest
termination_by ts.length
decreasing_by exact p.shorter

end FormulaMachine.Infix
