import FormulaMachine.Proofs.Postfix.Interpretation
import FormulaMachine.Proofs.Reference.Refinement
import Mathlib.Algebra.Order.PUnit

namespace FormulaMachine

theorem Kernel.length_of_onScalars {kernel : Kernel} {k : Kind} {checked : Bool}
    {xs : List (Scalar k)} {y : Scalar (kernel.resultKind k)}
    (h : kernel.onScalars checked xs = .ok y) : xs.length = kernel.arity := by
  rcases xs with _ | ⟨a, _ | ⟨b, _ | ⟨c, xs⟩⟩⟩ <;> cases kernel <;> first | rfl | cases h

namespace Reference

open Postfix (Instruction Interpretation)

variable {o : CompileOptions} {checked : Bool} {ρ ρ' : State}

theorem length_of_apply {kernel : Kernel} {r : Resolution} {operands : List DataType}
    {xs : List Datum} {y : Datum} (hshape : Resolution.Shape kernel operands r)
    (h : Datum.apply checked r.operation r.output xs = .ok y) : xs.length = kernel.arity := by
  unfold Datum.apply at h
  split at h
  · rename_i kernel' k hop
    obtain ⟨ks, -, rfl, -⟩ := Draft.scalars_of_shape hshape hop
    obtain ⟨zs, hzs, h⟩ := bind_eq_ok h
    obtain ⟨z, hz, -⟩ := map_eq_ok h
    rw [← length_of_mapM hzs, Kernel.length_of_onScalars hz]
  · rename_i op hop
    rw [Draft.arity_of_shape hshape hop]
    split at h
    · rfl
    · cases h

theorem step_of_names_eq_nil {i : Instruction} (h : i.names = []) (ρ : State)
    (vars : String → Option Datum) : step o checked ρ i =
      (step o checked ⟨vars, ρ.stack⟩ i).map fun ρ' => ⟨ρ.vars, ρ'.stack⟩ := by
  cases i with
  | read name => cases h
  | write name => cases h
  | const typeName literal =>
      rw [step, step]
      split <;> rfl
  | cast typeName =>
      obtain ⟨names, stack⟩ := ρ
      rw [step, step]
      cases DataType.read typeName with
      | error e => rfl
      | ok t =>
          cases stack with
          | nil => rfl
          | cons x stack =>
              dsimp only
              cases x.castTo checked t <;> rfl
  | operator name =>
      rw [step, step]
      split
      · rfl
      dsimp only
      split
      · rfl
      rename_i r _
      cases Datum.castAll checked (ρ.stack.take _).reverse r.inputs with
      | error f => rfl
      | ok xs =>
          dsimp only [bind, Except.bind]
          cases Datum.apply checked r.operation r.output xs <;> rfl

theorem step_depth {i : Instruction} (h : step o checked ρ i = .ok ρ') :
    i.depthAfter? ρ.stack.length = some ρ'.stack.length := by
  cases i with
  | read name =>
      rw [step] at h
      split at h
      · obtain rfl := Except.ok.inj h
        rfl
      · cases h
  | const typeName literal =>
      rw [step] at h
      split at h
      · obtain rfl := Except.ok.inj h
        rfl
      · cases h
  | write name =>
      rw [step] at h
      split at h
      · rename_i hstack
        obtain ⟨y, -, rfl⟩ := map_eq_ok h
        simp [Instruction.depthAfter?, hstack]
      · cases h
      · cases h
  | cast typeName =>
      rw [step] at h
      split at h
      · rename_i hstack
        obtain ⟨y, -, rfl⟩ := map_eq_ok h
        simp [Instruction.depthAfter?, hstack]
      · cases h
      · cases h
  | operator name =>
      rw [step] at h
      split at h
      · cases h
      rename_i kernel hname
      dsimp only at h
      split at h
      · cases h
      rename_i r hresolve
      obtain ⟨xs, hxs, h⟩ := bind_eq_ok h
      obtain ⟨y, hy, h⟩ := bind_eq_ok h
      obtain rfl := Except.ok.inj h
      have hlength := length_of_apply (Resolution.shape_of_resolve hresolve) hy
      rw [Datum.length_of_castAll hxs, List.length_reverse, List.length_take] at hlength
      have harity : kernel.arity ≤ ρ.stack.length := by omega
      simp [Instruction.depthAfter?, hname, harity]

def values (o : CompileOptions) (checked : Bool) : Interpretation Datum Datum Unit where
  load x stack := some (x :: stack, ())
  store v
    | [] => none
    | x :: stack => (x.castTo checked v.type).toOption.map fun y => (y, stack, ())
  operate i stack := (step o checked ⟨fun _ => none, stack⟩ i).toOption.map fun ρ => (ρ.stack, ())
  load_length h := by
    obtain rfl := Option.some.inj h
    rfl
  store_length {v stack r} h := by
    cases stack with
    | nil => cases h
    | cons x stack =>
        obtain ⟨y, -, rfl⟩ := Option.map_eq_some_iff.mp h
        rfl
  operate_length h := by
    obtain ⟨ρ, hρ, rfl⟩ := Option.map_eq_some_iff.mp h
    exact step_depth (toOption_eq_some hρ)

section Mirrors

structure SameData (ρ : State) (σ : Interpretation.State Datum Datum Unit) : Prop where
  vars : ρ.vars = σ.vars
  stack : ρ.stack = σ.stack

variable {σ : Interpretation.State Datum Datum Unit}

theorem operate_mirrors {i : Instruction} (hi : i.names = []) (h : SameData ρ σ) :
    Mirrors SameData (step o checked ρ i)
      (((values o checked).operate i σ.stack).map σ.after) := by
  rw [step_of_names_eq_nil hi ρ fun _ => none, h.stack]
  dsimp only [values]
  cases step o checked ⟨fun _ => none, σ.stack⟩ i with
  | error f => exact .error f
  | ok ρ' => exact .ok ⟨h.vars, rfl⟩

theorem step_mirrors (h : SameData ρ σ) (i : Instruction) :
    Mirrors SameData (step o checked ρ i) ((values o checked).step σ i) := by
  cases i with
  | read name =>
      rw [step, Interpretation.step, h.vars]
      cases σ.vars name with
      | none => exact .error _
      | some x => exact .ok ⟨h.vars, congrArg (x :: ·) h.stack⟩
  | write name =>
      rw [step, Interpretation.step, h.vars, h.stack]
      cases σ.vars name with
      | none => exact .error _
      | some v =>
          cases hstack : σ.stack with
          | nil => exact .error _
          | cons x stack =>
              dsimp only [Option.bind_some, values]
              cases x.castTo checked v.type with
              | error f => exact .error f
              | ok y => exact .ok ⟨rfl, rfl⟩
  | const | cast | operator => exact operate_mirrors rfl h

theorem lines_mirror {lines : List (Nat × Except Error Instruction)} {code : List Instruction}
    (hlines : lines.map Prod.snd = code.map .ok) (h : SameData ρ σ) :
    Mirrors SameData (lines.foldlM (line o checked) ρ) ((values o checked).run σ code) := by
  induction lines generalizing code ρ σ with
  | nil =>
      obtain rfl := List.map_eq_nil_iff.mp hlines.symm
      exact .ok h
  | cons l lines ih =>
      obtain ⟨i, code, rfl, hi, hrest⟩ := List.map_eq_cons_iff.mp hlines.symm
      have hline : line o checked ρ l = step o checked ρ i := by rw [line, ← hi]
      rw [List.foldlM_cons, hline, Interpretation.run_cons]
      exact (step_mirrors h i).bind fun ρ' σ' _ h' => ih hrest.symm h'

theorem run_mirrors {text : String} {code : List Instruction}
    (hcode : (Postfix.instructions text).map Prod.snd = code.map .ok) (o : CompileOptions)
    (checked : Bool) (vars : String → Option Datum) :
    Mirrors SameData (run text o checked vars) ((values o checked).run ⟨vars, [], ()⟩ code) :=
  lines_mirror hcode ⟨rfl, rfl⟩

end Mirrors

end Reference

theorem Program.execute_fast_means {p : Program} {text : String} {vs : Variables}
    {o : CompileOptions} {m : Machine} {code : List Postfix.Instruction} (hvs : vs.Made)
    (hsep : vs.Separate) (h : compile text vs o = .ok p)
    (hcode : (Postfix.instructions text).map Prod.snd = code.map .ok)
    (hsmall : p.constants.size < 2 ^ 32) (hm : m.Reached p) (sink : Option Sink) :
    ∃ m' σ, m.execute p .fast sink = (m', none, sink) ∧
      (Reference.values o false).run ⟨p.datum m.store, [], ()⟩ code = some σ ∧
      σ.vars = p.datum m'.store := by
  have hp := sound_of_compile hvs.fresh h hsmall
  have hfit := hm.fits hp
  obtain ⟨m', hexecute, hrun⟩ := hfit.exists_execute_fast hp sink
  have hagrees := run_agrees hvs.fresh hsep h hsmall hfit.store false
  have hmirrors := Reference.run_mirrors hcode o false (p.datum m.store)
  rw [hrun] at hagrees
  generalize Reference.run text o false (p.datum m.store) = result at hagrees hmirrors
  cases hagrees with
  | @done _ ρ hvars hstack =>
      obtain ⟨σ, hσ, hsame⟩ := hmirrors.exists_some rfl
      exact ⟨m', σ, hexecute, hσ, hsame.vars.symm.trans (funext hvars)⟩

end FormulaMachine
