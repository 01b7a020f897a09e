import FormulaMachine.Proofs.Compiler.Entries
import FormulaMachine.Proofs.Compiler.Strictness
import Mathlib.Data.List.Chain

namespace FormulaMachine

namespace Resolution

def isExact (candidate : Score × Kind) : Bool :=
  candidate.1 = ⟨0, 0⟩

theorem score?_false (target : Kind) (ks : List Kind) :
    score? false target ks = (score? true target ks).filter fun s => s = ⟨0, 0⟩ := by
  induction ks with
  | nil => rfl
  | cons k ks ih =>
      rw [score?, score?, ih]
      cases score? true target ks with
      | none => rfl
      | some s =>
          by_cases hk : k = target
          · cases hs : decide (s = ⟨0, 0⟩) <;> simp [Option.filter, hs, hk]
          · cases hs : decide (s = ⟨0, 0⟩) <;> cases k.wideningCost? target <;>
              simp [Option.filter, hs, hk]

theorem score?_eq_zero_iff {implicitCasts : Bool} {target : Kind} {ks : List Kind} {s : Score}
    (h : score? implicitCasts target ks = some s) : s = ⟨0, 0⟩ ↔ wideningsTo target ks = [] := by
  induction ks generalizing s with
  | nil =>
      obtain rfl := Option.some.inj h
      exact ⟨fun _ => rfl, fun _ => rfl⟩
  | cons k ks ih =>
      rw [score?] at h
      rw [wideningsTo]
      split at h
      · cases h
      rename_i s' hs'
      split at h
      · rename_i hk
        obtain rfl := Option.some.inj h
        rw [if_pos hk]
        exact ih hs'
      · rename_i hk
        rw [if_neg hk]
        split at h
        · obtain ⟨cost, -, rfl⟩ := Option.map_eq_some_iff.mp h
          simp
        · cases h

theorem less_zero (s : Score) : s.less ⟨0, 0⟩ = false := by
  simp [Score.less]

theorem zero_less {s : Score} (h : s ≠ ⟨0, 0⟩) : Score.less ⟨0, 0⟩ s := by
  obtain ⟨casts, cost⟩ := s
  simp only [ne_eq, Score.mk.injEq, not_and] at h
  simp only [Score.less, Bool.or_eq_true, Bool.and_eq_true, decide_eq_true_eq, beq_iff_eq]
  omega

theorem better_exact (best : Option (Score × Kind)) {candidate : Score × Kind}
    (h : isExact candidate) :
    better (best.filter isExact) candidate = (better best candidate).filter isExact := by
  have hzero : candidate.1 = ⟨0, 0⟩ := by simpa [isExact] using h
  cases best with
  | none => exact (Option.filter_some_pos h).symm
  | some b =>
      by_cases hb : isExact b
      · have hb' : b.1 = ⟨0, 0⟩ := by simpa [isExact] using hb
        have hkeep : better (some b) candidate = some b := by simp [better, hb', less_zero]
        rw [Option.filter_some_pos hb, hkeep, Option.filter_some_pos hb]
      · have hless : candidate.1.less b.1 := by
          rw [hzero]
          exact zero_less (by simpa [isExact] using hb)
        have htake : better (some b) candidate = some candidate := by simp [better, hless]
        rw [Option.filter_some_neg (by simpa using hb), htake, Option.filter_some_pos h]
        rfl

theorem better_inexact (best : Option (Score × Kind)) {candidate : Score × Kind}
    (h : ¬ isExact candidate) :
    best.filter isExact = (better best candidate).filter isExact := by
  have hnone : (some candidate).filter isExact = none := Option.filter_some_neg (by simpa using h)
  cases best with
  | none => exact hnone.symm
  | some b =>
      unfold better
      dsimp only
      split
      · rename_i hless
        have hb : ¬ isExact b := fun hb => by
          have hb' : b.1 = ⟨0, 0⟩ := by simpa [isExact] using hb
          rw [hb', less_zero] at hless
          cases hless
        rw [Option.filter_some_neg (by simpa using hb), hnone]
      · rfl

theorem foldl_better_exact (candidates : List (Score × Kind)) (best : Option (Score × Kind)) :
    (candidates.filter isExact).foldl better (best.filter isExact) =
      (candidates.foldl better best).filter isExact := by
  induction candidates generalizing best with
  | nil => rfl
  | cons candidate candidates ih =>
      by_cases h : isExact candidate
      · rw [List.filter_cons_of_pos h, List.foldl_cons, List.foldl_cons, better_exact best h, ih]
      · rw [List.filter_cons_of_neg h, List.foldl_cons, better_inexact best h, ih]

def candidates (implicitCasts : Bool) (targets operands : List Kind) : List (Score × Kind) :=
  targets.filterMap fun k => (score? implicitCasts k operands).map fun s => (s, k)

theorem candidates_false (targets ks : List Kind) :
    candidates false targets ks = (candidates true targets ks).filter isExact := by
  rw [candidates, candidates, List.filter_filterMap]
  congr 1
  funext k
  rw [score?_false]
  cases score? true k ks with
  | none => rfl
  | some s => cases hs : decide (s = ⟨0, 0⟩) <;> simp [Option.filter, isExact, hs]

theorem chooseKind?_false {targets ks : List Kind} {k : Kind} :
    chooseKind? false targets ks = some k ↔
      chooseKind? true targets ks = some k ∧ wideningsTo k ks = [] := by
  have hfold : (candidates false targets ks).foldl better none =
      ((candidates true targets ks).foldl better none).filter isExact := by
    rw [candidates_false]
    exact foldl_better_exact _ none
  have hchoose (implicitCasts : Bool) : chooseKind? implicitCasts targets ks =
      ((candidates implicitCasts targets ks).foldl better none).map Prod.snd := rfl
  rw [hchoose, hchoose, hfold]
  cases hbest : (candidates true targets ks).foldl better none with
  | none => simp
  | some best =>
      obtain ⟨s, j⟩ := best
      have hscore : score? true j ks = some s := by
        rcases foldl_better_mem hbest with hnone | hmem
        · cases hnone
        · obtain ⟨target, -, hmap⟩ := List.mem_filterMap.mp hmem
          obtain ⟨s', hs', hpair⟩ := Option.map_eq_some_iff.mp hmap
          obtain ⟨rfl, rfl⟩ := Prod.mk.inj hpair
          exact hs'
      have hexact : isExact (s, j) ↔ wideningsTo j ks = [] := by
        rw [← score?_eq_zero_iff hscore]
        simp [isExact]
      rw [Option.filter_some, Option.map_some]
      split
      · rename_i h
        refine ⟨fun hk => ⟨hk, ?_⟩, And.left⟩
        obtain rfl : j = k := Option.some.inj hk
        exact hexact.mp h
      · rename_i h
        refine ⟨fun hk => (by cases hk), fun ⟨hk, hws⟩ => ?_⟩
        obtain rfl : j = k := Option.some.inj hk
        exact absurd (hexact.mpr hws) h

theorem ofScalars_eq_ok_iff {kernel : Kernel} {implicitCasts : Bool} {ks : List Kind}
    {r : Resolution} :
    ofScalars kernel implicitCasts ks = .ok r ↔ ∃ k, chooseKind? implicitCasts kernel.kinds ks =
      some k ∧ r = ⟨.scalar kernel k, wideningsTo k ks, ks.map fun _ => .scalar k,
        .scalar (kernel.resultKind k)⟩ := by
  unfold ofScalars
  cases chooseKind? implicitCasts kernel.kinds ks with
  | none => simp
  | some k => simp [eq_comm]

theorem ofScalars_false {kernel : Kernel} {ks : List Kind} {r : Resolution} :
    ofScalars kernel false ks = .ok r ↔ ofScalars kernel true ks = .ok r ∧ r.widenings = [] := by
  rw [ofScalars_eq_ok_iff, ofScalars_eq_ok_iff]
  constructor
  · rintro ⟨k, hk, rfl⟩
    obtain ⟨hk', hws⟩ := chooseKind?_false.mp hk
    exact ⟨⟨k, hk', rfl⟩, hws⟩
  · rintro ⟨⟨k, hk', rfl⟩, hws⟩
    exact ⟨k, chooseKind?_false.mpr ⟨hk', hws⟩, rfl⟩

theorem scaleWidening?_false {depth : Nat} {s k : Kind} {ws : List Widening} :
    scaleWidening? false depth s k = some ws ↔
      scaleWidening? true depth s k = some ws ∧ ws = [] := by
  unfold scaleWidening?
  split
  · simp
  · split
    · simp [eq_comm]
    · refine ⟨fun h => (by cases h), ?_⟩
      rintro ⟨h, rfl⟩
      obtain ⟨cost, -, hws⟩ := Option.map_eq_some_iff.mp h
      cases hws

theorem ofScale_false {op : MatrixOp} {m : DataType} {inputs : List DataType} {depth : Nat}
    {s k : Kind} {r : Resolution} :
    ofScale op m inputs (scaleWidening? false depth s k) = .ok r ↔
      ofScale op m inputs (scaleWidening? true depth s k) = .ok r ∧ r.widenings = [] := by
  constructor
  · intro h
    obtain ⟨ws, hws, rfl⟩ := ofScale_eq_ok h
    obtain ⟨hws', rfl⟩ := scaleWidening?_false.mp hws
    exact ⟨by rw [hws']; rfl, rfl⟩
  · rintro ⟨h, hnil⟩
    obtain ⟨ws, hws', rfl⟩ := ofScale_eq_ok h
    rw [scaleWidening?_false.mpr ⟨hws', hnil⟩]
    rfl

theorem and_nil_iff {x : Except ResolveError Resolution} {r : Resolution}
    (h : x = .ok r → r.widenings = []) : x = .ok r ↔ x = .ok r ∧ r.widenings = [] :=
  ⟨fun hr => ⟨hr, h hr⟩, And.left⟩

theorem ofMatrices_false {kernel : Kernel} {operands : List DataType} {r : Resolution} :
    ofMatrices kernel false operands = .ok r ↔
      ofMatrices kernel true operands = .ok r ∧ r.widenings = [] := by
  unfold ofMatrices
  split
  · refine and_nil_iff fun h => ?_
    obtain ⟨-, -, -, -, rfl⟩ := ofSameShape_eq_ok h
    rfl
  · refine and_nil_iff fun h => ?_
    obtain ⟨-, -, -, -, rfl⟩ := ofSameShape_eq_ok h
    rfl
  · refine and_nil_iff fun h => ?_
    obtain ⟨-, -, -, rfl⟩ := ofProduct_eq_ok h
    rfl
  · exact ofScale_false
  · exact ofScale_false
  · exact and_nil_iff fun h => (by cases h)

theorem resolve_false {kernel : Kernel} {operands : List DataType} {r : Resolution} :
    kernel.resolve false operands = .ok r ↔
      kernel.resolve true operands = .ok r ∧ r.widenings = [] := by
  unfold Kernel.resolve
  split
  · exact ofMatrices_false
  · split
    · exact ofScalars_false
    · exact and_nil_iff fun h => (by cases h)

end Resolution

def Opcode.isImplicitCast : Opcode → Bool
  | .cast _ _ _ implicit => implicit
  | _ => false

def Opcode.isOperation : Opcode → Bool
  | .scalar .. | .matrix .. => true
  | _ => false

def WidensNothing (es : List Entry) : Prop :=
  es.IsChain fun e e' => e.opcode.isImplicitCast → ¬ e'.opcode.isOperation

def Program.WidensNoOperand (p : Program) : Prop :=
  WidensNothing p.code.toList

namespace WidensNothing

variable {es es' : List Entry} {own : Entry}

theorem append (h : WidensNothing es) (h' : ∀ e ∈ es', ¬ e.opcode.isOperation) :
    WidensNothing (es ++ es') := by
  refine List.IsChain.append h ?_ fun _ _ e he _ => h' e (List.mem_of_mem_head? he)
  refine List.isChain_iff_forall_rel_of_append_cons_cons.mpr fun e e' before after hes _ => ?_
  exact h' e' (by simp [hes])

theorem append_singleton (h : WidensNothing es)
    (hlast : ∀ e ∈ es.getLast?, ¬ e.opcode.isImplicitCast) : WidensNothing (es ++ [own]) :=
  List.IsChain.append h (.singleton own) fun e he _ _ hcast => absurd hcast (hlast e he)

theorem eq_nil_of_operation {line : Nat} {ws : List Widening} (hown : own.opcode.isOperation)
    (h : WidensNothing (es ++ (ws.map (Draft.widenEntry line) ++ [own]))) : ws = [] := by
  cases ws using List.reverseRecOn with
  | nil => rfl
  | append_singleton ws w =>
      rw [List.map_append, List.append_assoc, ← List.append_assoc] at h
      have hrel := List.isChain_iff_forall_rel_of_append_cons_cons.mp h
        (show _ = _ ++ Draft.widenEntry line w :: own :: [] from rfl)
      exact absurd hown (hrel rfl)

end WidensNothing

namespace Draft

variable {o : CompileOptions} {line : Nat} {d d' : Draft}

theorem Makes.not_isImplicitCast {i : Postfix.Instruction} {e : Entry} (h : Makes line i e) :
    ¬ e.opcode.isImplicitCast := by
  cases h with
  | load name k l | store name k l => cases l <;> exact Bool.false_ne_true
  | _ => exact Bool.false_ne_true

theorem Inserts.not_isOperation {i : Postfix.Instruction} {e : Entry} (h : Inserts line i e) :
    ¬ e.opcode.isOperation := by
  cases h <;> exact Bool.false_ne_true

theorem Makes.isOperation_iff {i : Postfix.Instruction} {e : Entry} (h : Makes line i e) :
    e.opcode.isOperation ↔ ∃ name, i = .operator name := by
  cases h with
  | load name k l | store name k l => cases l <;> simp [loadOpcode, storeOpcode, Opcode.isOperation]
  | _ => simp [Opcode.isOperation]

def EndsPlain (d : Draft) : Prop :=
  ∀ e ∈ d.code.toList.getLast?, ¬ e.opcode.isImplicitCast

theorem endsPlain_start (vs : Variables) : (start vs).EndsPlain :=
  fun _ he => by cases he

theorem instruction_endsPlain {i : Postfix.Instruction} (h : instruction o line d i = .ok d') :
    d'.EndsPlain := by
  obtain ⟨inserted, own, hcode, -, hown⟩ := instruction_adds h
  intro e he
  rw [hcode, ← List.append_assoc, List.getLast?_concat] at he
  obtain rfl := Option.some.inj he
  exact hown.not_isImplicitCast

def WidensNoOperand (d : Draft) : Prop :=
  WidensNothing d.code.toList

theorem instruction_widensNoOperand {i : Postfix.Instruction} (hi : ∀ name, i ≠ .operator name)
    (h : instruction o line d i = .ok d') (hd : d.WidensNoOperand) : d'.WidensNoOperand := by
  obtain ⟨inserted, own, hcode, hinserted, hown⟩ := instruction_adds h
  rw [WidensNoOperand, hcode]
  refine WidensNothing.append hd (List.forall_mem_append.mpr
    ⟨fun e he => (hinserted e he).not_isOperation, List.forall_mem_singleton.mpr fun hop => ?_⟩)
  obtain ⟨name, rfl⟩ := hown.isOperation_iff.mp hop
  exact hi name rfl

theorem operator_of_resolve {name : String} {kernel : Kernel} {r : Resolution}
    (hname : Kernel.ofName? name = some kernel)
    (h : kernel.resolve false ((d.stack.slots.take kernel.arity).map Slot.type).reverse = .ok r) :
    operator { o with implicitCasts := false } line d name =
      operator { o with implicitCasts := true } line d name := by
  have h' := (Resolution.resolve_false.mp h).1
  simp only [operator, hname, h, h']

theorem operator_casts_screened (hd : d.EndsPlain) (hpasses : d.WidensNoOperand) (name : String) :
    Screened WidensNoOperand (operator { o with implicitCasts := false } line d name)
      (operator { o with implicitCasts := true } line d name) := by
  intro d'
  constructor
  · intro h
    obtain ⟨kernel, r, own, hname, hr, hcode, -⟩ := operator_adds h
    have hws : r.widenings = [] := (Resolution.resolve_false.mp hr).2
    rw [hws] at hcode
    refine ⟨(operator_of_resolve hname hr).symm.trans h, ?_⟩
    rw [WidensNoOperand, hcode]
    exact WidensNothing.append_singleton hpasses hd
  · rintro ⟨h, hd'⟩
    obtain ⟨kernel, r, own, hname, hr, hcode, hown⟩ := operator_adds h
    rw [WidensNoOperand, hcode] at hd'
    have hws : r.widenings = [] := hd'.eq_nil_of_operation (hown.isOperation_iff.mpr ⟨name, rfl⟩)
    have hr' := Resolution.resolve_false.mpr ⟨hr, hws⟩
    exact (operator_of_resolve hname hr').trans h

theorem implicitCasts_filter (o : CompileOptions) :
    Filters { o with implicitCasts := false } { o with implicitCasts := true } EndsPlain
      WidensNoOperand where
  keeps _ h := instruction_endsPlain h
  screened {line d i} hd hpasses := by
    cases i with
    | operator name => exact operator_casts_screened hd hpasses name
    | _ => exact .refl fun d' h => instruction_widensNoOperand (fun _ hi => by cases hi) h hpasses
  passes_before h hd' := by
    obtain ⟨es, hcode⟩ := h.code
    rw [WidensNoOperand, ← hcode] at hd'
    exact hd'.left_of_append

end Draft

theorem compile_without_casts_iff (text : String) (vs : Variables) (o : CompileOptions)
    (p : Program) :
    compile text vs { o with implicitCasts := false } = .ok p ↔
      compile text vs { o with implicitCasts := true } = .ok p ∧ p.WidensNoOperand := by
  refine (Draft.implicitCasts_filter o).compile_iff (Draft.endsPlain_start vs) .nil
    fun d hfinish => ?_
  obtain ⟨-, y, rfl, -⟩ := Draft.finish_eq_ok hfinish
  exact Iff.rfl

end FormulaMachine
