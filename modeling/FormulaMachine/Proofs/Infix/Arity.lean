import FormulaMachine.Proofs.Compiler.Depth
import FormulaMachine.Proofs.Infix.Words
import Mathlib.Algebra.GroupWithZero.Nat
import Mathlib.Algebra.Order.BigOperators.Group.List
import Mathlib.Algebra.Order.Group.Nat

namespace FormulaMachine.Infix

structure Call where
  name : String
  arguments : Nat
  deriving DecidableEq, Repr

def Call.arity? (c : Call) : Option Nat :=
  (Kernel.ofName? (Text.uppercase c.name)).map Kernel.arity

mutual

def Expr.calls : Expr → List Call
  | .name _ | .number _ | .castNumber .. => []
  | .cast _ e | .signed _ e | .group e => e.calls
  | .binary _ l r => l.calls ++ r.calls
  | .call f args => args.calls ++ [⟨f, args.length⟩]

def Args.calls : Args → List Call
  | .last e => e.calls
  | .more e rest => e.calls ++ rest.calls

end

def callsOf (as : List Assignment) : List Call :=
  as.flatMap fun a => a.value.calls

open Postfix (depthAfter? depthAfter?_append depthAfter?_singleton)

section Depth

def Call.Fits (c : Call) : Prop :=
  c.arity? = some c.arguments

instance : DecidablePred Call.Fits :=
  fun c => inferInstanceAs (Decidable (c.arity? = some c.arguments))

theorem depthAfter?_operator {name : String} {kernel : Kernel} {n : Nat}
    (hname : Kernel.ofName? name = some kernel) (h : kernel.arity ≤ n) :
    (Postfix.Instruction.operator name).depthAfter? n = some (n - kernel.arity + 1) := by
  simp only [Postfix.Instruction.depthAfter?, hname, if_pos h]

theorem exists_kernel_opcode (op : BinaryOp) :
    ∃ kernel, Kernel.ofName? op.opcode = some kernel ∧ kernel.arity = 2 := by
  cases op <;> exact ⟨_, rfl, rfl⟩

theorem depthAfter?_sign (s : Sign) (n : Nat) : depthAfter? (n + 1) s.code = some (n + 1) := by
  cases s with
  | plus => rfl
  | minus =>
      have hname : Kernel.ofName? "NEG" = some (.unary .neg) := rfl
      rw [Sign.code, depthAfter?_singleton]
      exact depthAfter?_operator hname (Nat.succ_pos n)
  | not =>
      have hname : Kernel.ofName? "NOT" = some (.unary .not) := rfl
      rw [Sign.code, depthAfter?_singleton]
      exact depthAfter?_operator hname (Nat.succ_pos n)

mutual

theorem Expr.depthAfter?_code (e : Expr) (h : ∀ c ∈ e.calls, c.Fits) (n : Nat) :
    depthAfter? n e.code = some (n + 1) := by
  cases e with
  | name | number | castNumber => rfl
  | cast typeName e =>
      rw [Expr.code, depthAfter?_append, e.depthAfter?_code h, Option.bind_some,
        depthAfter?_singleton, Postfix.Instruction.depthAfter?, if_pos (Nat.succ_pos n)]
  | signed s e =>
      rw [Expr.code, depthAfter?_append, e.depthAfter?_code h, Option.bind_some,
        depthAfter?_sign]
  | group e => exact e.depthAfter?_code h n
  | binary op l r =>
      obtain ⟨hl, hr⟩ := List.forall_mem_append.mp h
      obtain ⟨kernel, hname, harity⟩ := exists_kernel_opcode op
      rw [Expr.code, depthAfter?_append, depthAfter?_append, l.depthAfter?_code hl,
        Option.bind_some, r.depthAfter?_code hr, Option.bind_some, depthAfter?_singleton,
        depthAfter?_operator hname (by omega), harity]
      rfl
  | call f args =>
      obtain ⟨hargs, hcall⟩ := List.forall_mem_append.mp h
      have hfits : Call.Fits ⟨f, args.length⟩ := List.forall_mem_singleton.mp hcall
      obtain ⟨kernel, hname, harity⟩ := Option.map_eq_some_iff.mp hfits
      replace harity : kernel.arity = args.length := harity
      rw [Expr.code, depthAfter?_append, args.depthAfter?_code hargs, Option.bind_some,
        depthAfter?_singleton, depthAfter?_operator hname (by rw [harity]; omega), harity]
      exact congrArg some (by omega)

theorem Args.depthAfter?_code (args : Args) (h : ∀ c ∈ args.calls, c.Fits) (n : Nat) :
    depthAfter? n args.code = some (n + args.length) := by
  cases args with
  | last e => exact e.depthAfter?_code h n
  | more e rest =>
      obtain ⟨he, hrest⟩ := List.forall_mem_append.mp h
      rw [Args.code, depthAfter?_append, e.depthAfter?_code he, Option.bind_some,
        rest.depthAfter?_code hrest, Args.length]
      exact congrArg some (by omega)

end

theorem Assignment.depthAfter?_code (a : Assignment) (h : ∀ c ∈ a.value.calls, c.Fits) :
    depthAfter? 0 a.code = some 0 := by
  rw [Assignment.code, depthAfter?_append, a.value.depthAfter?_code h, Option.bind_some]
  rfl

theorem depthAfter?_programCode {as : List Assignment} (h : ∀ c ∈ callsOf as, c.Fits) :
    depthAfter? 0 (programCode as) = some 0 := by
  rw [programCode]
  induction as with
  | nil => rfl
  | cons a as ih =>
      rw [callsOf, List.flatMap_cons, List.forall_mem_append] at h
      rw [List.flatMap_cons, depthAfter?_append, a.depthAfter?_code h.1]
      exact ih h.2

mutual

theorem Expr.write_not_mem_code (e : Expr) (x : String) : .write x ∉ e.code := by
  cases e with
  | name | number | castNumber => simp [Expr.code]
  | cast typeName e => simp [Expr.code, e.write_not_mem_code x]
  | signed s e => cases s <;> simp [Expr.code, Sign.code, e.write_not_mem_code x]
  | group e => exact e.write_not_mem_code x
  | binary op l r => simp [Expr.code, l.write_not_mem_code x, r.write_not_mem_code x]
  | call f args => simp [Expr.code, args.write_not_mem_code x]

theorem Args.write_not_mem_code (args : Args) (x : String) : .write x ∉ args.code := by
  cases args with
  | last e => exact e.write_not_mem_code x
  | more e rest => simp [Args.code, e.write_not_mem_code x, rest.write_not_mem_code x]

end

theorem exists_prefix_of_write {as : List Assignment} {before after : List Postfix.Instruction}
    {x : String} (h : programCode as = before ++ .write x :: after) :
    ∃ done, done <+: as ∧ before ++ [.write x] = programCode done := by
  rw [programCode] at h
  induction as generalizing before with
  | nil => simp at h
  | cons a as ih =>
      rw [List.flatMap_cons, Assignment.code, List.append_assoc, List.singleton_append] at h
      rcases List.append_eq_append_iff.mp h with ⟨mid, hbefore, hmid⟩ | ⟨mid, hvalue, hmid⟩
      · cases mid with
        | nil =>
            obtain ⟨hx, -⟩ := List.cons.inj hmid
            refine ⟨[a], ⟨as, rfl⟩, ?_⟩
            rw [hbefore, List.append_nil, ← hx, programCode]
            simp [Assignment.code]
        | cons i mid =>
            obtain ⟨rfl, hrest⟩ := List.cons.inj hmid
            obtain ⟨done, hdone, hcode⟩ := ih hrest
            refine ⟨a :: done, List.cons_prefix_cons.mpr ⟨rfl, hdone⟩, ?_⟩
            rw [programCode] at hcode ⊢
            rw [List.flatMap_cons, ← hcode, hbefore]
            simp [Assignment.code]
      · cases mid with
        | nil =>
            obtain ⟨hx, -⟩ := List.cons.inj hmid
            refine ⟨[a], ⟨as, rfl⟩, ?_⟩
            rw [List.append_nil] at hvalue
            rw [← hvalue, hx, programCode]
            simp [Assignment.code]
        | cons i mid =>
            obtain ⟨rfl, -⟩ := List.cons.inj hmid
            exact absurd (by rw [hvalue]; simp) (a.value.write_not_mem_code x)

end Depth

section Totals

def totalArguments (cs : List Call) : Nat :=
  (cs.map Call.arguments).sum

def totalArity (cs : List Call) : Nat :=
  (cs.map fun c => c.arity?.getD 0).sum

@[simp] theorem totalArguments_append (cs ds : List Call) :
    totalArguments (cs ++ ds) = totalArguments cs + totalArguments ds := by
  simp [totalArguments]

@[simp] theorem totalArity_append (cs ds : List Call) :
    totalArity (cs ++ ds) = totalArity cs + totalArity ds := by
  simp [totalArity]

structure Accounts (n k m : Nat) (cs : List Call) : Prop where
  registered : ∀ c ∈ cs, c.arity?.isSome
  balance : m + totalArity cs = n + k + totalArguments cs

theorem Accounts.append {n k j m l : Nat} {cs ds : List Call} (h : Accounts n k m cs)
    (h' : Accounts m j l ds) : Accounts n (k + j) l (cs ++ ds) := by
  refine ⟨List.forall_mem_append.mpr ⟨h.registered, h'.registered⟩, ?_⟩
  have hb := h.balance
  have hb' := h'.balance
  rw [totalArity_append, totalArguments_append]
  omega

theorem Accounts.none (n k : Nat) : Accounts n k (n + k) [] :=
  ⟨fun c hc => (by cases hc), rfl⟩

theorem depthAfter?_operator_eq_some {name : String} {n m : Nat}
    (h : (Postfix.Instruction.operator name).depthAfter? n = some m) :
    ∃ kernel, Kernel.ofName? name = some kernel ∧ m + kernel.arity = n + 1 := by
  simp only [Postfix.Instruction.depthAfter?] at h
  split at h
  · rename_i kernel hname
    rw [Option.ite_none_right_eq_some] at h
    obtain ⟨hle, hm⟩ := h
    exact ⟨kernel, hname, by rw [← Option.some.inj hm]; omega⟩
  · cases h

theorem depthAfter?_append_eq_some {n m : Nat} {code rest : List Postfix.Instruction}
    (h : depthAfter? n (code ++ rest) = some m) :
    ∃ l, depthAfter? n code = some l ∧ depthAfter? l rest = some m := by
  rw [depthAfter?_append] at h
  exact Option.bind_eq_some_iff.mp h

theorem depthAfter?_sign_eq_some {s : Sign} {n m : Nat} (h : depthAfter? n s.code = some m) :
    m = n := by
  cases s with
  | plus => exact (Option.some.inj h).symm
  | minus | not =>
      rw [Sign.code, depthAfter?_singleton] at h
      obtain ⟨kernel, hname, hm⟩ := depthAfter?_operator_eq_some h
      obtain rfl := Option.some.inj hname
      exact Nat.succ.inj hm

mutual

theorem Expr.accounts (e : Expr) {n m : Nat} (h : depthAfter? n e.code = some m) :
    Accounts n 1 m e.calls := by
  cases e with
  | name | number | castNumber =>
      obtain rfl := Option.some.inj h
      exact .none n 1
  | cast typeName e =>
      obtain ⟨l, hl, h⟩ := depthAfter?_append_eq_some h
      rw [depthAfter?_singleton, Postfix.Instruction.depthAfter?,
        Option.ite_none_right_eq_some] at h
      obtain rfl := Option.some.inj h.2
      exact e.accounts hl
  | signed s e =>
      obtain ⟨l, hl, h⟩ := depthAfter?_append_eq_some h
      rw [depthAfter?_sign_eq_some h]
      exact e.accounts hl
  | group e => exact e.accounts h
  | binary op l r =>
      obtain ⟨i, h, hop⟩ := depthAfter?_append_eq_some h
      obtain ⟨j, hl, hr⟩ := depthAfter?_append_eq_some h
      rw [depthAfter?_singleton] at hop
      obtain ⟨kernel, hname, harity⟩ := exists_kernel_opcode op
      obtain ⟨kernel', hname', hm⟩ := depthAfter?_operator_eq_some hop
      obtain rfl := Option.some.inj (hname.symm.trans hname')
      have haccounts := (l.accounts hl).append (r.accounts hr)
      have hbalance := haccounts.balance
      exact ⟨haccounts.registered, by rw [Expr.calls]; omega⟩
  | call f args =>
      obtain ⟨l, hargs, hop⟩ := depthAfter?_append_eq_some h
      rw [depthAfter?_singleton] at hop
      obtain ⟨kernel, hname, hm⟩ := depthAfter?_operator_eq_some hop
      have haccounts := args.accounts hargs
      have hbalance := haccounts.balance
      have hcall : Call.arity? ⟨f, args.length⟩ = some kernel.arity := by
        rw [Call.arity?, hname, Option.map_some]
      refine ⟨List.forall_mem_append.mpr ⟨haccounts.registered,
        List.forall_mem_singleton.mpr (by rw [hcall]; rfl)⟩, ?_⟩
      have harity : totalArity [⟨f, args.length⟩] = kernel.arity := by simp [totalArity, hcall]
      have harguments : totalArguments [⟨f, args.length⟩] = args.length := by
        simp [totalArguments]
      rw [Expr.calls, totalArity_append, totalArguments_append, harity, harguments]
      omega

theorem Args.accounts (args : Args) {n m : Nat} (h : depthAfter? n args.code = some m) :
    Accounts n args.length m args.calls := by
  cases args with
  | last e => exact e.accounts h
  | more e rest =>
      obtain ⟨l, he, hrest⟩ := depthAfter?_append_eq_some h
      rw [Args.length, Nat.add_comm]
      exact (e.accounts he).append (rest.accounts hrest)

end

theorem Assignment.accounts (a : Assignment) {n m : Nat} (h : depthAfter? n a.code = some m) :
    Accounts n 0 m a.value.calls := by
  obtain ⟨l, hvalue, hwrite⟩ := depthAfter?_append_eq_some h
  rw [depthAfter?_singleton, Postfix.Instruction.depthAfter?,
    Option.ite_none_right_eq_some] at hwrite
  obtain ⟨hpos, hm⟩ := hwrite
  have haccounts := a.value.accounts hvalue
  have hbalance := haccounts.balance
  exact ⟨haccounts.registered, by rw [← Option.some.inj hm]; omega⟩

theorem accounts_of_depthAfter? {as : List Assignment} {n m : Nat}
    (h : depthAfter? n (programCode as) = some m) : Accounts n 0 m (callsOf as) := by
  rw [programCode] at h
  induction as generalizing n with
  | nil =>
      obtain rfl := Option.some.inj h
      exact .none n 0
  | cons a as ih =>
      rw [List.flatMap_cons] at h
      obtain ⟨l, ha, has⟩ := depthAfter?_append_eq_some h
      exact (a.accounts ha).append (ih has)

theorem eq_of_sum_map_eq {α : Type} {f g : α → Nat} {xs : List α} (hle : ∀ x ∈ xs, f x ≤ g x)
    (h : (xs.map f).sum = (xs.map g).sum) : ∀ x ∈ xs, f x = g x := by
  induction xs with
  | nil => exact fun x hx => by cases hx
  | cons x xs ih =>
      obtain ⟨hx, hxs⟩ := List.forall_mem_cons.mp hle
      have hrest : (xs.map f).sum ≤ (xs.map g).sum := List.sum_le_sum hxs
      simp only [List.map_cons, List.sum_cons] at h
      exact List.forall_mem_cons.mpr ⟨by omega, ih hxs (by omega)⟩

theorem fits_of_totals {cs : List Call} (hregistered : ∀ c ∈ cs, c.arity?.isSome)
    (htotal : totalArity cs = totalArguments cs)
    (h : (∀ c ∈ cs, ∀ n, c.arity? = some n → n ≤ c.arguments) ∨
      ∀ c ∈ cs, ∀ n, c.arity? = some n → c.arguments ≤ n) : ∀ c ∈ cs, c.Fits := by
  have hsome (c : Call) (hc : c ∈ cs) : c.arity? = some (c.arity?.getD 0) := by
    obtain ⟨n, hn⟩ := Option.isSome_iff_exists.mp (hregistered c hc)
    rw [hn, Option.getD_some]
  intro c hc
  rw [Call.Fits, hsome c hc]
  refine congrArg some ?_
  rcases h with hle | hle
  · exact eq_of_sum_map_eq (fun c hc => hle c hc _ (hsome c hc)) htotal c hc
  · exact (eq_of_sum_map_eq (fun c hc => hle c hc _ (hsome c hc)) htotal.symm c hc).symm

end Totals

section Compile

theorem registered_of_depthAfter? {code : List Postfix.Instruction} {n m : Nat}
    (h : depthAfter? n code = some m) {name : String} (hmem : .operator name ∈ code) :
    ∃ kernel, Kernel.ofName? name = some kernel := by
  obtain ⟨before, after, rfl⟩ := List.append_of_mem hmem
  obtain ⟨l, -, h⟩ := depthAfter?_append_eq_some h
  rw [depthAfter?, List.foldlM_cons] at h
  obtain ⟨i, hi, -⟩ := Option.bind_eq_some_iff.mp h
  obtain ⟨kernel, hname, -⟩ := depthAfter?_operator_eq_some hi
  exact ⟨kernel, hname⟩

theorem ofName?_keyword {name : String} (h : name ∈ Postfix.keywords) :
    Kernel.ofName? name = none := by
  revert name
  decide

theorem plain_of_depthAfter? {code : List Postfix.Instruction} {n m : Nat}
    (hwords : ∀ i ∈ code, i.HasWords) (h : depthAfter? n code = some m) :
    ∀ i ∈ code, i.Plain := by
  refine fun i hi => ⟨hwords i hi, fun name hname hkeyword => ?_⟩
  obtain ⟨kernel, hkernel⟩ := registered_of_depthAfter? h (hname ▸ hi)
  rw [ofName?_keyword hkeyword] at hkernel
  cases hkernel

variable {formula code : String} {as : List Assignment} {vs : Variables} {o : CompileOptions}

theorem arguments_of_compile [Lexicon] {p : Program} (hstatements : statements formula = .ok as)
    (hcode : toPostfix formula = .ok code) (h : compile code vs o = .ok p) :
    (∀ c ∈ callsOf as, c.arity?.isSome) ∧
      totalArity (callsOf as) = totalArguments (callsOf as) ∧
      (∀ done, done <+: as → totalArity (callsOf done) ≤ totalArguments (callsOf done)) ∧
      ((∀ c ∈ callsOf as, ∀ n, c.arity? = some n → n ≤ c.arguments) ∨
        (∀ c ∈ callsOf as, ∀ n, c.arity? = some n → c.arguments ≤ n) →
        ∀ c ∈ callsOf as, c.Fits) := by
  obtain ⟨as', has', rfl, hwords⟩ := toPostfix_eq_ok hcode
  obtain rfl : as = as' := Except.ok.inj (hstatements.symm.trans has')
  obtain ⟨d, hd, -⟩ := compile_eq_ok h
  obtain ⟨read, hread⟩ := Draft.lines_read hd
  have hplain := Postfix.plain_of_instructions_text hwords hread
  have hdepth := depthAfter?_of_compile (Postfix.map_snd_instructions_text hplain) h
  have hall := accounts_of_depthAfter? hdepth
  have hbalance := hall.balance
  have htotal : totalArity (callsOf as) = totalArguments (callsOf as) := by omega
  refine ⟨hall.registered, htotal, fun done hdone => ?_, fits_of_totals hall.registered htotal⟩
  obtain ⟨rest, rfl⟩ := hdone
  rw [programCode, List.flatMap_append, ← programCode, ← programCode] at hdepth
  obtain ⟨m, hm, -⟩ := depthAfter?_append_eq_some hdepth
  have hdone := (accounts_of_depthAfter? hm).balance
  omega

theorem fits_of_compile_max_abs :
    ∃ as p, statements "y = max(a, abs(a));" = .ok as ∧
      toPostfix "y = max(a, abs(a));" = .ok "READ a\nREAD a\nABS\nMAX\nWRITE y\n" ∧
      compile "READ a\nREAD a\nABS\nMAX\nWRITE y\n"
        ⟨[⟨"a", .scalar (.int .w8), none, none⟩], [.named "y"]⟩ .default = .ok p ∧
      callsOf as = [⟨"abs", 1⟩, ⟨"max", 2⟩] ∧ ∀ c ∈ callsOf as, c.Fits := by
  let as : List Assignment :=
    [⟨"y", .call "max" (.more (.name "a") (.last (.call "abs" (.last (.name "a"))))), .semicolon⟩]
  have hstatements : statements "y = max(a, abs(a));" = .ok as := by decide +kernel
  have hcode : toPostfix "y = max(a, abs(a));" =
      .ok "READ a\nREAD a\nABS\nMAX\nWRITE y\n" := by decide +kernel
  obtain ⟨p, hp⟩ := exists_ok_of_isOk (x := compile "READ a\nREAD a\nABS\nMAX\nWRITE y\n"
    ⟨[⟨"a", .scalar (.int .w8), none, none⟩], [.named "y"]⟩ .default) (by decide +kernel)
  have hcalls : callsOf as = [⟨"abs", 1⟩, ⟨"max", 2⟩] := rfl
  obtain ⟨-, -, -, hfits⟩ := arguments_of_compile hstatements hcode hp
  refine ⟨as, p, hstatements, hcode, hp, hcalls, hfits (.inl ?_)⟩
  rw [hcalls]
  decide

theorem compile_max_sum :
    ∃ as vs p c, statements "y = max(a, a, a) + sum(a);" = .ok as ∧
      toPostfix "y = max(a, a, a) + sum(a);" =
        .ok "READ a\nREAD a\nREAD a\nMAX\nREAD a\nSUM\nSUM\nWRITE y\n" ∧
      vs.Made ∧
      compile "READ a\nREAD a\nREAD a\nMAX\nREAD a\nSUM\nSUM\nWRITE y\n" vs .default = .ok p ∧
      c ∈ callsOf as ∧ c.arity? ≠ some c.arguments := by
  let as : List Assignment :=
    [⟨"y", .binary .plus
      (.call "max" (.more (.name "a") (.more (.name "a") (.last (.name "a")))))
      (.call "sum" (.last (.name "a"))), .semicolon⟩]
  let vs : Variables := ⟨[⟨"a", .scalar (.int .w8), none, none⟩], [.named "y"]⟩
  have hdiscover : Variables.discover
      "READ a\nREAD a\nREAD a\nMAX\nREAD a\nSUM\nSUM\nWRITE y\n" =
        .ok ⟨[.named "a"], [.named "y"]⟩ := by decide +kernel
  have hbind : Variables.bind ⟨[.named "a"], [.named "y"]⟩ "a" (.scalar (.int .w8)) none =
      .ok vs := by decide +kernel
  obtain ⟨p, hp⟩ := exists_ok_of_isOk (x := compile
    "READ a\nREAD a\nREAD a\nMAX\nREAD a\nSUM\nSUM\nWRITE y\n" vs .default) (by decide +kernel)
  exact ⟨as, vs, p, ⟨"max", 3⟩, by decide +kernel, by decide +kernel,
    ⟨_, _, hdiscover, .bind .refl hbind⟩, hp, List.mem_cons_self, by decide⟩

theorem balanced_of_fits [Lexicon] (hstatements : statements formula = .ok as)
    (hcode : toPostfix formula = .ok code) (hfits : ∀ c ∈ callsOf as, c.Fits) :
    (∀ e, compile code vs o = .error e →
      e.code ≠ "stack_underflow" ∧ e.code ≠ "incomplete_sequence") ∧
      ∀ before number x after d,
        Postfix.instructions code = before ++ (number, .ok (.write x)) :: after →
        (before ++ [(number, .ok (.write x))]).foldlM (Draft.line o) (Draft.start vs) = .ok d →
        d.stack.slots = [] := by
  obtain ⟨as', has', rfl, hwords⟩ := toPostfix_eq_ok hcode
  obtain rfl : as = as' := Except.ok.inj (hstatements.symm.trans has')
  have hdepth := depthAfter?_programCode hfits
  have hlines := Postfix.map_snd_instructions_text (plain_of_depthAfter? hwords hdepth)
  refine ⟨fun e he => not_or.mp ((compile_spares hlines hdepth).balanced e he), ?_⟩
  intro before number x after d hsplit hd
  rw [hsplit, List.map_append, List.map_cons] at hlines
  obtain ⟨before', after', hcode, hbefore, hafter⟩ := List.map_eq_append_iff.mp hlines.symm
  obtain ⟨i, after', rfl, hi, -⟩ := List.map_eq_cons_iff.mp hafter
  obtain rfl : i = .write x := Except.ok.inj hi
  obtain ⟨done, ⟨rest, rfl⟩, hdone⟩ := exists_prefix_of_write hcode
  have hread : (before ++ [(number, Except.ok (Postfix.Instruction.write x))]).map Prod.snd =
      (before' ++ [Postfix.Instruction.write x]).map .ok := by
    rw [List.map_append, List.map_append, hbefore]
    rfl
  have hd' := Draft.lines_depth (d := Draft.start vs) hread hd
  rw [callsOf, List.flatMap_append, List.forall_mem_append] at hfits
  rw [hdone] at hd'
  have hzero := hd'.symm.trans (depthAfter?_programCode hfits.1)
  exact List.length_eq_zero_iff.mp (d.stack.depth_eq ▸ Option.some.inj hzero)

theorem balanced_negated_max :
    ∃ as vs p before after d, statements "y = -max(a, 2); z = (int8) sqrt(y);" = .ok as ∧
      toPostfix "y = -max(a, 2); z = (int8) sqrt(y);" =
        .ok "READ a\nCONST 2\nMAX\nNEG\nWRITE y\nREAD y\nSQRT\nCAST int8\nWRITE z\n" ∧
      (∀ c ∈ callsOf as, c.Fits) ∧
      compile "READ a\nCONST 2\nMAX\nNEG\nWRITE y\nREAD y\nSQRT\nCAST int8\nWRITE z\n" vs
        .default = .ok p ∧
      Postfix.instructions
        "READ a\nCONST 2\nMAX\nNEG\nWRITE y\nREAD y\nSQRT\nCAST int8\nWRITE z\n" =
          before ++ (5, .ok (.write "y")) :: after ∧
      (before ++ [(5, .ok (.write "y"))]).foldlM (Draft.line .default) (Draft.start vs) = .ok d ∧
      d.stack.slots = [] ∧
      ∀ e, compile "READ a\nCONST 2\nMAX\nNEG\nWRITE y\nREAD y\nSQRT\nCAST int8\nWRITE z\n"
        ⟨[.named "a"], [.named "y", .named "z"]⟩ .default = .error e →
        e.code ≠ "stack_underflow" ∧ e.code ≠ "incomplete_sequence" := by
  let as : List Assignment :=
    [⟨"y", .signed .minus (.call "max" (.more (.name "a") (.last (.number "2")))), .semicolon⟩,
      ⟨"z", .cast "int8" (.call "sqrt" (.last (.name "y"))), .semicolon⟩]
  have hstatements : statements "y = -max(a, 2); z = (int8) sqrt(y);" = .ok as := by decide +kernel
  have hcode : toPostfix "y = -max(a, 2); z = (int8) sqrt(y);" =
      .ok "READ a\nCONST 2\nMAX\nNEG\nWRITE y\nREAD y\nSQRT\nCAST int8\nWRITE z\n" := by
    decide +kernel
  have hfits : ∀ c ∈ callsOf as, c.Fits := by
    change ∀ c ∈ ([⟨"max", 2⟩, ⟨"sqrt", 1⟩] : List Call), c.Fits
    decide
  let vs : Variables :=
    ⟨[⟨"a", .scalar .float64, none, none⟩], [.named "y", .named "z"]⟩
  let before : List (Nat × Except Error Postfix.Instruction) :=
    [(1, .ok (.read "a")), (2, .ok (.const none "2")), (3, .ok (.operator "MAX")),
      (4, .ok (.operator "NEG"))]
  have hsplit : Postfix.instructions
      "READ a\nCONST 2\nMAX\nNEG\nWRITE y\nREAD y\nSQRT\nCAST int8\nWRITE z\n" =
        before ++ (5, .ok (.write "y")) :: [(6, .ok (.read "y")), (7, .ok (.operator "SQRT")),
          (8, .ok (.cast "int8")), (9, .ok (.write "z"))] := by decide +kernel
  obtain ⟨p, hp⟩ := exists_ok_of_isOk (x := compile
    "READ a\nCONST 2\nMAX\nNEG\nWRITE y\nREAD y\nSQRT\nCAST int8\nWRITE z\n" vs
    .default) (by rw [compile, hsplit]; decide +kernel)
  obtain ⟨_, hall, -⟩ := compile_eq_ok hp
  rw [hsplit, List.append_cons, List.foldlM_append] at hall
  obtain ⟨d, hd, -⟩ := bind_eq_ok hall
  have hempty := (balanced_of_fits hstatements hcode hfits).2 _ _ _ _ _ hsplit hd
  exact ⟨as, vs, p, before, _, d, hstatements, hcode, hfits, hp, hsplit, hd, hempty,
    (balanced_of_fits hstatements hcode hfits).1⟩

end Compile

end FormulaMachine.Infix
