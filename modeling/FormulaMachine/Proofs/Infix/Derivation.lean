import FormulaMachine.Proofs.Infix.Parser

namespace FormulaMachine.Infix

mutual

inductive JoinedTree : List Level → Type where
  | unary (u : UnaryTree) : JoinedTree []
  | tighter {l : Level} {ls : List Level} (e : JoinedTree ls) : JoinedTree (l :: ls)
  | join {l : Level} {ls : List Level} (left : JoinedTree (l :: ls)) (op : BinaryOp)
      (level : op.level = l) (right : JoinedTree ls) : JoinedTree (l :: ls)

inductive UnaryTree : Type where
  | signed (s : Sign) (e : CastTree)
  | plain (e : CastTree)

inductive CastTree : Type where
  | castNumber (typeName literal : String)
  | cast (typeName : String) (e : CallTree)
  | number (literal : String)
  | plain (e : CallTree)

inductive CallTree : Type where
  | call (f : String) (args : ArgsTree)
  | group (e : JoinedTree Level.all)
  | name (x : String)

inductive ArgsTree : Type where
  | last (e : JoinedTree Level.all)
  | more (e : JoinedTree Level.all) (rest : ArgsTree)

end

structure AssignTree where
  target : String
  value : JoinedTree Level.all
  closer : Closer

inductive ProgramTree where
  | last (a : AssignTree)
  | more (a : AssignTree) (rest : ProgramTree)

def Closer.token : Closer → Token
  | .semicolon => .semicolon
  | .comma => .comma

mutual

def JoinedTree.tokens : {ls : List Level} → JoinedTree ls → List Token
  | _, .unary u => u.tokens
  | _, .tighter e => e.tokens
  | _, .join left op _ right => left.tokens ++ op.token :: right.tokens

def UnaryTree.tokens : UnaryTree → List Token
  | .signed s e => s.token :: e.tokens
  | .plain e => e.tokens

def CastTree.tokens : CastTree → List Token
  | .castNumber typeName literal =>
      [.openParen, .ident typeName, .closeParen, .number literal]
  | .cast typeName e => .openParen :: .ident typeName :: .closeParen :: e.tokens
  | .number literal => [.number literal]
  | .plain e => e.tokens

def CallTree.tokens : CallTree → List Token
  | .call f args => .ident f :: .openParen :: args.tokens
  | .group e => .openParen :: (e.tokens ++ [.closeParen])
  | .name x => [.ident x]

def ArgsTree.tokens : ArgsTree → List Token
  | .last e => e.tokens ++ [.closeParen]
  | .more e rest => e.tokens ++ .comma :: rest.tokens

end

def AssignTree.tokens (a : AssignTree) : List Token :=
  .ident a.target :: .assign :: (a.value.tokens ++ [a.closer.token])

def ProgramTree.tokens : ProgramTree → List Token
  | .last a => a.tokens
  | .more a rest => a.tokens ++ rest.tokens

mutual

def JoinedTree.postorder : {ls : List Level} → JoinedTree ls → List Postfix.Instruction
  | _, .unary u => u.postorder
  | _, .tighter e => e.postorder
  | _, .join left op _ right => left.postorder ++ right.postorder ++ [.operator op.opcode]

def UnaryTree.postorder : UnaryTree → List Postfix.Instruction
  | .signed .plus e => e.postorder
  | .signed .minus e => e.postorder ++ [.operator "NEG"]
  | .signed .not e => e.postorder ++ [.operator "NOT"]
  | .plain e => e.postorder

def CastTree.postorder : CastTree → List Postfix.Instruction
  | .castNumber typeName literal => [.const (some typeName) literal]
  | .cast typeName e => e.postorder ++ [.cast typeName]
  | .number literal => [.const none literal]
  | .plain e => e.postorder

def CallTree.postorder : CallTree → List Postfix.Instruction
  | .call f args => args.postorder ++ [.operator (Text.uppercase f)]
  | .group e => e.postorder
  | .name x => [.read x]

def ArgsTree.postorder : ArgsTree → List Postfix.Instruction
  | .last e => e.postorder
  | .more e rest => e.postorder ++ rest.postorder

end

def AssignTree.postorder (a : AssignTree) : List Postfix.Instruction :=
  a.value.postorder ++ [.write a.target]

def ProgramTree.postorder : ProgramTree → List Postfix.Instruction
  | .last a => a.postorder
  | .more a rest => a.postorder ++ rest.postorder

mutual

def JoinedTree.expr : {ls : List Level} → JoinedTree ls → Expr
  | _, .unary u => u.expr
  | _, .tighter e => e.expr
  | _, .join left op _ right => .binary op left.expr right.expr

def UnaryTree.expr : UnaryTree → Expr
  | .signed s e => .signed s e.expr
  | .plain e => e.expr

def CastTree.expr : CastTree → Expr
  | .castNumber typeName literal => .castNumber typeName literal
  | .cast typeName e => .cast typeName e.expr
  | .number literal => .number literal
  | .plain e => e.expr

def CallTree.expr : CallTree → Expr
  | .call f args => .call f args.args
  | .group e => .group e.expr
  | .name x => .name x

def ArgsTree.args : ArgsTree → Args
  | .last e => .last e.expr
  | .more e rest => .more e.expr rest.args

end

def AssignTree.assignment (a : AssignTree) : Assignment :=
  ⟨a.target, a.value.expr, a.closer⟩

def ProgramTree.assignments : ProgramTree → List Assignment
  | .last a => [a.assignment]
  | .more a rest => a.assignment :: rest.assignments

mutual

theorem JoinedTree.code_expr {ls : List Level} (e : JoinedTree ls) :
    e.expr.code = e.postorder := by
  cases e with
  | unary u => simp [JoinedTree.expr, JoinedTree.postorder, UnaryTree.code_expr u]
  | tighter e => simp [JoinedTree.expr, JoinedTree.postorder, JoinedTree.code_expr e]
  | join left op h right =>
      simp [JoinedTree.expr, JoinedTree.postorder, Expr.code, JoinedTree.code_expr left,
        JoinedTree.code_expr right]

theorem UnaryTree.code_expr (e : UnaryTree) : e.expr.code = e.postorder := by
  cases e with
  | signed s e =>
      cases s <;> simp [UnaryTree.expr, UnaryTree.postorder, Expr.code, Sign.code,
        CastTree.code_expr e]
  | plain e => simp [UnaryTree.expr, UnaryTree.postorder, CastTree.code_expr e]

theorem CastTree.code_expr (e : CastTree) : e.expr.code = e.postorder := by
  cases e with
  | castNumber t n => simp [CastTree.expr, CastTree.postorder, Expr.code]
  | cast t e => simp [CastTree.expr, CastTree.postorder, Expr.code, CallTree.code_expr e]
  | number n => simp [CastTree.expr, CastTree.postorder, Expr.code]
  | plain e => simp [CastTree.expr, CastTree.postorder, CallTree.code_expr e]

theorem CallTree.code_expr (e : CallTree) : e.expr.code = e.postorder := by
  cases e with
  | call f args => simp [CallTree.expr, CallTree.postorder, Expr.code, ArgsTree.code_args args]
  | group e => simp [CallTree.expr, CallTree.postorder, Expr.code, JoinedTree.code_expr e]
  | name x => simp [CallTree.expr, CallTree.postorder, Expr.code]

theorem ArgsTree.code_args (args : ArgsTree) : args.args.code = args.postorder := by
  cases args with
  | last e => simp [ArgsTree.args, ArgsTree.postorder, Args.code, JoinedTree.code_expr e]
  | more e rest =>
      simp [ArgsTree.args, ArgsTree.postorder, Args.code, JoinedTree.code_expr e,
        ArgsTree.code_args rest]

end

theorem AssignTree.code_assignment (a : AssignTree) : a.assignment.code = a.postorder := by
  simp [assignment, Assignment.code, postorder, a.value.code_expr]

theorem ProgramTree.programCode_assignments (t : ProgramTree) :
    programCode t.assignments = t.postorder := by
  rw [programCode]
  induction t with
  | last a => simp [assignments, postorder, a.code_assignment]
  | more a rest ih => simp [assignments, postorder, a.code_assignment, ih]

theorem UnaryTree.expr_ne_binary (e : UnaryTree) (op : BinaryOp) (l r : Expr) :
    e.expr ≠ .binary op l r := by
  rcases e with ⟨s, e⟩ | e
  · simp [expr]
  · rcases e with _ | _ | _ | ⟨_ | _ | _⟩ <;> simp [expr, CastTree.expr, CallTree.expr]

theorem JoinedTree.level_mem {ls : List Level} (e : JoinedTree ls) {op : BinaryOp} {l r : Expr}
    (h : e.expr = .binary op l r) : op.level ∈ ls := by
  match e with
  | .unary u => exact absurd h (u.expr_ne_binary op l r)
  | .tighter e => exact List.mem_cons_of_mem _ (e.level_mem h)
  | .join left op' level right =>
      obtain ⟨rfl, -, -⟩ := Expr.binary.inj h
      exact level ▸ List.mem_cons_self

mutual

theorem JoinedTree.expr_injective {ls : List Level} (hn : ls.Nodup) (a b : JoinedTree ls)
    (h : a.expr = b.expr) : a = b := by
  match a, b with
  | .unary u, .unary v => exact congrArg _ (UnaryTree.expr_injective u v h)
  | .tighter a, .tighter b =>
      exact congrArg _ (JoinedTree.expr_injective (List.nodup_cons.mp hn).2 a b h)
  | .tighter a, .join _ op hl _ =>
      have hm := a.level_mem h
      exact absurd (hl ▸ hm) (List.nodup_cons.mp hn).1
  | .join _ op hl _, .tighter b =>
      have hm := b.level_mem h.symm
      exact absurd (hl ▸ hm) (List.nodup_cons.mp hn).1
  | .join l op hl r, .join l' op' hl' r' =>
      obtain ⟨rfl, hleft, hright⟩ := Expr.binary.inj h
      obtain rfl := JoinedTree.expr_injective hn l l' hleft
      obtain rfl := JoinedTree.expr_injective (List.nodup_cons.mp hn).2 r r' hright
      rfl

theorem UnaryTree.expr_injective (a b : UnaryTree) (h : a.expr = b.expr) : a = b := by
  match a, b with
  | .signed s a, .signed t b =>
      obtain ⟨rfl, he⟩ := Expr.signed.inj h
      exact congrArg _ (CastTree.expr_injective a b he)
  | .plain a, .plain b => exact congrArg _ (CastTree.expr_injective a b h)
  | .signed s a, .plain b =>
      rcases b with _ | _ | _ | ⟨_ | _ | _⟩ <;>
        simp [UnaryTree.expr, CastTree.expr, CallTree.expr] at h
  | .plain a, .signed t b =>
      rcases a with _ | _ | _ | ⟨_ | _ | _⟩ <;>
        simp [UnaryTree.expr, CastTree.expr, CallTree.expr] at h

theorem CastTree.expr_injective (a b : CastTree) (h : a.expr = b.expr) : a = b := by
  match a, b with
  | .castNumber t n, .castNumber t' n' => simpa [CastTree.expr] using h
  | .cast t a, .cast t' b =>
      obtain ⟨rfl, he⟩ := Expr.cast.inj h
      exact congrArg _ (CallTree.expr_injective a b he)
  | .number n, .number n' => simpa [CastTree.expr] using h
  | .plain a, .plain b => exact congrArg _ (CallTree.expr_injective a b h)
  | .castNumber .., .plain b | .cast .., .plain b | .number .., .plain b =>
      rcases b with _ | _ | _ <;> simp [CastTree.expr, CallTree.expr] at h
  | .plain a, .castNumber .. | .plain a, .cast .. | .plain a, .number .. =>
      rcases a with _ | _ | _ <;> simp [CastTree.expr, CallTree.expr] at h

theorem CallTree.expr_injective (a b : CallTree) (h : a.expr = b.expr) : a = b := by
  match a, b with
  | .call f as, .call g bs =>
      obtain ⟨rfl, ha⟩ := Expr.call.inj h
      exact congrArg _ (ArgsTree.args_injective as bs ha)
  | .group a, .group b =>
      exact congrArg _ (JoinedTree.expr_injective (by decide) a b (Expr.group.inj h))
  | .name x, .name y => exact congrArg _ (Expr.name.inj h)

theorem ArgsTree.args_injective (a b : ArgsTree) (h : a.args = b.args) : a = b := by
  match a, b with
  | .last a, .last b =>
      exact congrArg _ (JoinedTree.expr_injective (by decide) a b (Args.last.inj h))
  | .more a as, .more b bs =>
      obtain ⟨he, hr⟩ := Args.more.inj h
      obtain rfl := JoinedTree.expr_injective (by decide) a b he
      exact congrArg _ (ArgsTree.args_injective as bs hr)

end

theorem AssignTree.assignment_injective (a b : AssignTree) (h : a.assignment = b.assignment) :
    a = b := by
  obtain ⟨x, a, c⟩ := a
  obtain ⟨y, b, d⟩ := b
  obtain ⟨rfl, he, rfl⟩ := Assignment.mk.inj h
  obtain rfl := a.expr_injective (by decide) b he
  rfl

theorem ProgramTree.assignments_injective (s t : ProgramTree)
    (h : s.assignments = t.assignments) : s = t := by
  have ne_nil (t : ProgramTree) : t.assignments ≠ [] := by cases t <;> simp [assignments]
  match s, t with
  | .last a, .last b => exact congrArg _ (a.assignment_injective b (List.cons.inj h).1)
  | .more a s, .more b t =>
      obtain ⟨ha, hs⟩ := List.cons.inj h
      obtain rfl := a.assignment_injective b ha
      exact congrArg _ (s.assignments_injective t hs)
  | .last a, .more b t => exact absurd (List.cons.inj h).2.symm (ne_nil t)
  | .more a s, .last b => exact absurd (List.cons.inj h).2 (ne_nil s)

end FormulaMachine.Infix
