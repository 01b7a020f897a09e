import FormulaMachine.Proofs.Compiler.Depth
import Mathlib.Algebra.Group.Basic
import Mathlib.Logic.Function.Basic

namespace FormulaMachine.Postfix

namespace Instruction

def names : Instruction → List String
  | .read name | .write name => [name]
  | .const .. | .cast _ | .operator _ => []

def targets : Instruction → List String
  | .write name => [name]
  | .read _ | .const .. | .cast _ | .operator _ => []

end Instruction

def names (code : List Instruction) : List String :=
  code.flatMap Instruction.names

def targets (code : List Instruction) : List String :=
  code.flatMap Instruction.targets

theorem names_cons (i : Instruction) (code : List Instruction) :
    names (i :: code) = i.names ++ names code :=
  List.flatMap_cons

theorem targets_cons (i : Instruction) (code : List Instruction) :
    targets (i :: code) = i.targets ++ targets code :=
  List.flatMap_cons

structure Interpretation (α β M : Type) where
  load : α → List β → Option (List β × M)
  store : α → List β → Option (α × List β × M)
  operate : Instruction → List β → Option (List β × M)
  load_length : ∀ {v stack r}, load v stack = some r → r.1.length = stack.length + 1
  store_length : ∀ {v stack r}, store v stack = some r → stack.length = r.2.1.length + 1
  operate_length : ∀ {i stack r}, operate i stack = some r →
    i.depthAfter? stack.length = some r.1.length

namespace Interpretation

@[ext]
structure State (α β M : Type) where
  vars : String → Option α
  stack : List β
  cost : M

variable {α β M : Type} [AddCommMonoid M]

def State.after (s : State α β M) (r : List β × M) : State α β M :=
  ⟨s.vars, r.1, s.cost + r.2⟩

def State.afterWrite (s : State α β M) (name : String) (r : α × List β × M) : State α β M :=
  ⟨Function.update s.vars name (some r.1), r.2.1, s.cost + r.2.2⟩

variable (I : Interpretation α β M)

def step (s : State α β M) : Instruction → Option (State α β M)
  | .read name => (s.vars name).bind fun v => (I.load v s.stack).map s.after
  | .write name => (s.vars name).bind fun v => (I.store v s.stack).map (s.afterWrite name)
  | .const typeName literal => (I.operate (.const typeName literal) s.stack).map s.after
  | .cast typeName => (I.operate (.cast typeName) s.stack).map s.after
  | .operator name => (I.operate (.operator name) s.stack).map s.after

def run (s : State α β M) (code : List Instruction) : Option (State α β M) :=
  code.foldlM I.step s

variable {I}

theorem run_cons (s : State α β M) (i : Instruction) (code : List Instruction) :
    I.run s (i :: code) = (I.step s i).bind fun s => I.run s code :=
  List.foldlM_cons

theorem run_append (s : State α β M) (code rest : List Instruction) :
    I.run s (code ++ rest) = (I.run s code).bind fun s => I.run s rest :=
  List.foldlM_append

section Step

variable {s s' : State α β M} {i : Instruction}

theorem step_cases (h : I.step s i = some s') :
    (∃ name v r, i = .read name ∧ s.vars name = some v ∧ I.load v s.stack = some r ∧
        s' = s.after r) ∨
      (∃ name v r, i = .write name ∧ s.vars name = some v ∧ I.store v s.stack = some r ∧
        s' = s.afterWrite name r) ∨
      i.names = [] ∧ ∃ r, I.operate i s.stack = some r ∧ s' = s.after r ∧
        ∀ t : State α β M, t.stack = s.stack → I.step t i = some (t.after r) := by
  cases i with
  | read name =>
      obtain ⟨v, hv, h⟩ := Option.bind_eq_some_iff.mp h
      obtain ⟨r, hr, rfl⟩ := Option.map_eq_some_iff.mp h
      exact .inl ⟨name, v, r, rfl, hv, hr, rfl⟩
  | write name =>
      obtain ⟨v, hv, h⟩ := Option.bind_eq_some_iff.mp h
      obtain ⟨r, hr, rfl⟩ := Option.map_eq_some_iff.mp h
      exact .inr (.inl ⟨name, v, r, rfl, hv, hr, rfl⟩)
  | const | cast | operator =>
      obtain ⟨r, hr, rfl⟩ := Option.map_eq_some_iff.mp h
      refine .inr (.inr ⟨rfl, r, hr, rfl, fun t ht => ?_⟩)
      simp only [step, ht, hr, Option.map_some]

theorem step_depth (h : I.step s i = some s') :
    i.depthAfter? s.stack.length = some s'.stack.length := by
  rcases step_cases h with ⟨name, v, r, rfl, -, hr, rfl⟩ | ⟨name, v, r, rfl, -, hr, rfl⟩ |
    ⟨-, r, hr, rfl, -⟩
  · exact congrArg some (I.load_length hr).symm
  · rw [I.store_length hr, Instruction.depthAfter?, if_pos (Nat.succ_pos _)]
    rfl
  · exact I.operate_length hr

theorem step_frame (h : I.step s i = some s') : ∀ x ∉ i.targets, s'.vars x = s.vars x := by
  intro x hx
  rcases step_cases h with ⟨name, v, r, rfl, -, -, rfl⟩ | ⟨name, v, r, rfl, -, -, rfl⟩ |
    ⟨-, r, -, rfl, -⟩
  · rfl
  · exact Function.update_of_ne (List.ne_of_not_mem_cons hx) _ _
  · rfl

def State.takes (t s : State α β M) (names : List String) (m : M) : State α β M :=
  ⟨fun x => if x ∈ names then s.vars x else t.vars x, s.stack, t.cost + m⟩

theorem step_local (h : I.step s i = some s') {t : State α β M} (hstack : t.stack = s.stack)
    (hvars : ∀ x ∈ i.names, t.vars x = s.vars x) :
    ∃ m, s'.cost = s.cost + m ∧ I.step t i = some (t.takes s' i.targets m) := by
  rcases step_cases h with ⟨name, v, r, rfl, hv, hr, rfl⟩ | ⟨name, v, r, rfl, hv, hr, rfl⟩ |
    ⟨hnames, r, -, rfl, hstep⟩
  · refine ⟨r.2, rfl, ?_⟩
    rw [step, hvars name List.mem_cons_self, hv, Option.bind_some, hstack, hr]
    rfl
  · refine ⟨r.2.2, rfl, ?_⟩
    rw [step, hvars name List.mem_cons_self, hv, Option.bind_some, hstack, hr, Option.map_some,
      State.afterWrite, State.takes]
    congr 2
    funext x
    by_cases hx : x = name
    · subst hx
      simp [Instruction.targets, State.afterWrite]
    · simp [Instruction.targets, hx]
  · refine ⟨r.2, rfl, ?_⟩
    have htargets : i.targets = [] := by
      cases i with
      | write => cases hnames
      | _ => rfl
    rw [hstep t hstack, htargets]
    rfl

end Step

section Run

variable {s s' : State α β M} {code : List Instruction}

theorem run_depth (h : I.run s code = some s') :
    depthAfter? s.stack.length code = some s'.stack.length := by
  induction code generalizing s with
  | nil =>
      obtain rfl := Option.some.inj h
      rfl
  | cons i code ih =>
      rw [run_cons] at h
      obtain ⟨s₁, hstep, h⟩ := Option.bind_eq_some_iff.mp h
      rw [depthAfter?, List.foldlM_cons, step_depth hstep]
      exact ih h

theorem run_frame (h : I.run s code = some s') : ∀ x ∉ targets code, s'.vars x = s.vars x := by
  induction code generalizing s with
  | nil =>
      obtain rfl := Option.some.inj h
      exact fun x _ => rfl
  | cons i code ih =>
      rw [run_cons] at h
      obtain ⟨s₁, hstep, h⟩ := Option.bind_eq_some_iff.mp h
      intro x hx
      rw [targets_cons, List.mem_append, not_or] at hx
      rw [ih h x hx.2, step_frame hstep x hx.1]

theorem run_local (h : I.run s code = some s') {t : State α β M} (hstack : t.stack = s.stack)
    (hvars : ∀ x ∈ names code, t.vars x = s.vars x) :
    ∃ m, s'.cost = s.cost + m ∧ I.run t code = some (t.takes s' (targets code) m) := by
  induction code generalizing s t with
  | nil =>
      obtain rfl := Option.some.inj h
      refine ⟨0, (add_zero _).symm, ?_⟩
      rw [State.takes, add_zero, ← hstack]
      rfl
  | cons i code ih =>
      rw [run_cons] at h
      obtain ⟨s₁, hstep, h⟩ := Option.bind_eq_some_iff.mp h
      rw [names_cons, List.forall_mem_append] at hvars
      obtain ⟨m, hm, ht⟩ := step_local hstep hstack hvars.1
      have hvars₁ (x : String) (hx : x ∈ names code) :
          (t.takes s₁ i.targets m).vars x = s₁.vars x := by
        unfold State.takes
        dsimp only
        split
        · rfl
        · rename_i htarget
          rw [hvars.2 x hx, step_frame hstep x htarget]
      obtain ⟨m', hm', ht'⟩ := ih (t := t.takes s₁ i.targets m) h rfl hvars₁
      refine ⟨m + m', by rw [hm', hm, add_assoc], ?_⟩
      rw [run_cons, ht, Option.bind_some, ht', State.takes, State.takes, State.takes, add_assoc]
      congr 2
      -- A name that only the first instruction writes keeps its value to the end.
      funext x
      rw [targets_cons]
      by_cases hx : x ∈ targets code
      · simp [hx]
      · by_cases hxi : x ∈ i.targets
        · simp [hx, hxi, run_frame h x hx]
        · simp [hx, hxi]

end Run

section Commute

variable {front back before after : List Instruction} {s s' : State α β M}

structure Apart (front back : List Instruction) : Prop where
  front_depth : depthAfter? 0 front = some 0
  back_depth : depthAfter? 0 back = some 0
  front_targets : ∀ x ∈ targets front, x ∉ names back
  back_targets : ∀ x ∈ targets back, x ∉ names front

theorem Apart.symm (h : Apart front back) : Apart back front :=
  ⟨h.back_depth, h.front_depth, h.back_targets, h.front_targets⟩

theorem targets_subset_names (code : List Instruction) : targets code ⊆ names code := by
  intro x hx
  obtain ⟨i, hi, hx⟩ := List.mem_flatMap.mp hx
  refine List.mem_flatMap.mpr ⟨i, hi, ?_⟩
  cases i with
  | write name => exact hx
  | _ => cases hx

theorem stack_eq_nil (hs : s.stack = []) (hdepth : depthAfter? 0 front = some 0)
    (h : I.run s front = some s') : s'.stack = [] := by
  have hlength := run_depth h
  rw [hs, List.length_nil, hdepth] at hlength
  exact List.length_eq_zero_iff.mp (Option.some.inj hlength).symm

theorem run_append_comm (h : Apart front back) (hs : s.stack = [])
    (hrun : I.run s (front ++ back) = some s') : I.run s (back ++ front) = some s' := by
  rw [run_append] at hrun
  obtain ⟨s₁, hfront, hback⟩ := Option.bind_eq_some_iff.mp hrun
  have hs₁ := stack_eq_nil hs h.front_depth hfront
  have hs' := stack_eq_nil hs₁ h.back_depth hback
  have hframe := run_frame hfront
  have hframe' := run_frame hback
  obtain ⟨m', hm', hback'⟩ := run_local hback (hs.trans hs₁.symm) fun x hx =>
    (hframe x fun htarget => h.front_targets x htarget hx).symm
  have hkept (x : String) (hx : x ∈ names front) :
      (s.takes s' (targets back) m').vars x = s.vars x :=
    if_neg fun htarget => h.back_targets x htarget hx
  obtain ⟨m, hm, hfront'⟩ :=
    run_local (t := s.takes s' (targets back) m') hfront (hs'.trans hs.symm) hkept
  rw [run_append, hback', Option.bind_some, hfront']
  refine congrArg some (State.ext (funext fun x => ?_) (hs₁.trans hs'.symm) ?_)
  · simp only [State.takes]
    by_cases hx : x ∈ targets front
    · have hback : x ∉ targets back := fun htarget =>
        h.back_targets x htarget (targets_subset_names front hx)
      rw [if_pos hx, hframe' x hback]
    · by_cases hx' : x ∈ targets back
      · rw [if_neg hx, if_pos hx']
      · rw [if_neg hx, if_neg hx', hframe' x hx', hframe x hx]
  · rw [hm', hm]
    exact add_right_comm _ _ _

theorem run_comm (h : Apart front back) (hs : s.stack = []) :
    I.run s (front ++ back) = I.run s (back ++ front) :=
  Option.ext fun _ => ⟨run_append_comm h hs, run_append_comm h.symm hs⟩

theorem run_swap (h : Apart front back) (hbefore : depthAfter? 0 before = some 0)
    (hs : s.stack = []) :
    I.run s (before ++ (front ++ (back ++ after))) =
      I.run s (before ++ (back ++ (front ++ after))) := by
  rw [← List.append_assoc front, ← List.append_assoc back, run_append, run_append s before]
  refine Option.bind_congr fun s₁ hs₁ => ?_
  have hcomm := run_comm (I := I) h (stack_eq_nil hs hbefore hs₁)
  rw [run_append s₁ (front ++ back), hcomm, ← run_append]

end Commute

end Interpretation

end FormulaMachine.Postfix
