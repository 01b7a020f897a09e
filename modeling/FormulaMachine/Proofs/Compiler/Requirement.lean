import FormulaMachine.Proofs.Compiler.Outline

namespace FormulaMachine

namespace Postfix

def WritesAlone (n : Nat) (code : List Instruction) : Prop :=
  ∀ before name after, code = before ++ .write name :: after → depthAfter? n before = some 1

theorem WritesAlone.cons {n m : Nat} {i : Instruction} {code : List Instruction}
    (h : WritesAlone n (i :: code)) (hi : i.depthAfter? n = some m) : WritesAlone m code := by
  intro before name after hcode
  have hbefore := h (i :: before) name after (by rw [hcode, List.cons_append])
  rwa [depthAfter?, List.foldlM_cons, hi] at hbefore

theorem WritesAlone.depth_eq {n : Nat} {name : String} {code : List Instruction}
    (h : WritesAlone n (.write name :: code)) : n = 1 :=
  Option.some.inj (h [] name code rfl)

end Postfix

namespace Unbounded

open Draft Outline

variable {o : CompileOptions} {line : Nat} {xs : List String} {d : Draft} {σ : Outline}

section Lines

variable {code : List Postfix.Instruction}

theorem line_mirrors {i : Postfix.Instruction} (h : d.Outlines xs σ)
    (halone : Postfix.WritesAlone σ.stack.length (i :: code)) :
    Mirrors (Begun xs) (Unbounded.line o d (line, .ok i)) ((outline o).step σ i) := by
  refine instruction_mirrors h fun name hi => ?_
  subst hi
  rw [h.depth_eq, halone.depth_eq]

theorem lines_mirror {lines : List (Nat × Except Error Postfix.Instruction)}
    (hlines : lines.map Prod.snd = code.map .ok) (h : d.Begun xs σ)
    (halone : Postfix.WritesAlone σ.stack.length code) :
    Mirrors (Begun xs) (lines.foldlM (Unbounded.line o) d) ((outline o).run σ code) := by
  induction lines generalizing code d σ with
  | nil =>
      obtain rfl := List.map_eq_nil_iff.mp hlines.symm
      exact .ok h
  | cons l lines ih =>
      obtain ⟨i, code, rfl, hi, hrest⟩ := List.map_eq_cons_iff.mp hlines.symm
      obtain ⟨number, x⟩ := l
      obtain rfl : .ok i = x := hi
      rw [List.foldlM_cons, Postfix.Interpretation.run_cons]
      refine (line_mirrors h.outlines halone).bind fun d₁ σ₁ hσ₁ hd₁ => ?_
      exact ih hrest.symm hd₁ (halone.cons (Postfix.Interpretation.step_depth hσ₁))

theorem all_lines_mirror {lines : List (Nat × Except Error Postfix.Instruction)}
    (hlines : lines.map Prod.snd = code.map .ok) (hne : code ≠ []) (h : d.Outlines xs σ)
    (halone : Postfix.WritesAlone σ.stack.length code) :
    Mirrors (Begun xs) (lines.foldlM (Unbounded.line o) d) ((outline o).run σ code) := by
  cases lines with
  | nil => exact absurd (List.map_eq_nil_iff.mp hlines.symm) hne
  | cons l lines =>
      obtain ⟨i, code, rfl, hi, hrest⟩ := List.map_eq_cons_iff.mp hlines.symm
      obtain ⟨number, x⟩ := l
      obtain rfl : .ok i = x := hi
      rw [List.foldlM_cons, Postfix.Interpretation.run_cons]
      refine (line_mirrors h halone).bind fun d₁ σ₁ hσ₁ hd₁ => ?_
      exact lines_mirror hrest.symm hd₁ (halone.cons (Postfix.Interpretation.step_depth hσ₁))

end Lines

section Finish

def Placed (d : Draft) (x : String) : Prop :=
  ∀ v, d.vars.get? x = some v → v.location ≠ none

def Typed (σ : Outline) (x : String) : Prop :=
  ∀ b ∈ σ.vars x, b.1 ≠ .void

instance (σ : Outline) (x : String) : Decidable (Typed σ x) :=
  inferInstanceAs (Decidable (∀ b ∈ σ.vars x, b.1 ≠ .void))

theorem allocateUnused_cases (h : d.Outlines xs σ) (name : String) :
    (Typed σ name ∧ ∃ d', allocateUnused d name = .ok d' ∧ d'.Outlines xs σ ∧ Placed d' name ∧
      ∀ x, Placed d x → Placed d' x) ∨
      ¬ Typed σ name ∧ ∃ e, allocateUnused d name = .error e := by
  unfold Typed allocateUnused
  rw [h.vars]
  cases hv : d.vars.get? name with
  | none =>
      refine .inl ⟨fun b hb => (by cases hb), d, rfl, h, fun v hv' => ?_, fun x hx => hx⟩
      rw [hv] at hv'
      cases hv'
  | some v =>
      obtain rfl := Variables.name_of_get? hv
      dsimp only
      by_cases ht : v.type = .void
      · rw [if_pos ht]
        exact .inr ⟨fun htyped => htyped v.bound rfl ht, _, rfl⟩
      · obtain ⟨l, y, hallocate, hy, hvars⟩ := allocate_outlines h hv ht
        have hget (x : String) := Variables.get?_set (v := v.housed l) hv x
        rw [if_neg ht, hallocate]
        refine .inl ⟨?_, _, rfl, hy, fun u hu => ?_, fun x hx u hu => ?_⟩
        · rintro b hb
          obtain rfl := Option.some.inj hb
          exact ht
        · change y.vars.get? v.name = some u at hu
          rw [hvars, hget, if_pos (show v.name = (v.housed l).name from rfl)] at hu
          obtain rfl := Option.some.inj hu
          exact Option.some_ne_none l
        · change y.vars.get? x = some u at hu
          rw [hvars, hget] at hu
          split at hu
          · obtain rfl := Option.some.inj hu
            exact Option.some_ne_none l
          · exact hx u hu

theorem allocateAll_cases (h : d.Outlines xs σ) (names : List String) :
    ((∀ x ∈ names, Typed σ x) ∧ ∃ d', names.foldlM allocateUnused d = .ok d' ∧
      d'.Outlines xs σ ∧ (∀ x ∈ names, Placed d' x) ∧ ∀ x, Placed d x → Placed d' x) ∨
      (¬ ∀ x ∈ names, Typed σ x) ∧ ∃ e, names.foldlM allocateUnused d = .error e := by
  induction names generalizing d with
  | nil => exact .inl ⟨by simp, d, rfl, h, by simp, fun x hx => hx⟩
  | cons x names ih =>
      rw [List.foldlM_cons, List.forall_mem_cons]
      rcases allocateUnused_cases h x with ⟨ht, d₁, hd₁, h₁, hx, hkept₁⟩ | ⟨ht, e, he⟩
      · rw [bind_of_ok hd₁]
        rcases ih h₁ with ⟨hall, d', hd', h', hnames, hkept⟩ | ⟨hnot, hfail⟩
        · refine .inl ⟨⟨ht, hall⟩, d', hd', h', ?_, fun y hy => hkept y (hkept₁ y hy)⟩
          exact List.forall_mem_cons.mpr ⟨hkept x hx, hnames⟩
        · exact .inr ⟨fun hall => hnot hall.2, hfail⟩
      · rw [he]
        exact .inr ⟨fun hall => ht hall.1, e, rfl⟩

def total? (xs : List String) (σ : Outline) : Option Room :=
  if ∀ x ∈ xs, Typed σ x then some (Variables.total xs σ.vars + σ.cost.1, σ.cost.2) else none

def Takes (p : Program) (m : Room) : Prop :=
  p.demand = m.1 ∧ p.constants.size = m.2

theorem finish_mirrors (hnodup : xs.Nodup) (h : d.Begun xs σ) (hstack : σ.stack = []) :
    Mirrors Takes (finish d) (total? xs σ) := by
  have hslots : d.stack.slots = [] := by
    have hmap := h.outlines.stack
    rw [hstack] at hmap
    exact List.map_eq_nil_iff.mp hmap.symm
  have hnames (x : String) : x ∈ Draft.names d.vars ↔ x ∈ xs := by
    rw [← h.outlines.names, Draft.names, Variables.names, List.map_append, List.map_append,
      List.mem_append, List.mem_append, or_comm]
  unfold finish total?
  rw [if_neg h.code, if_neg (not_not.mpr hslots)]
  simp only [← hnames]
  rcases allocateAll_cases h.outlines (Draft.names d.vars) with
    ⟨hall, d', hd', h', hplaced, -⟩ | ⟨hnot, e, he⟩
  · rw [if_pos hall, hd']
    have hlocated (x : String) (v : Variable) (hv : d'.vars.get? x = some v) :
        v.location ≠ none := by
      have hmem : x ∈ d'.vars.names :=
        List.mem_map.mpr ⟨v, List.mem_of_find?_eq_some hv, Variables.name_of_get? hv⟩
      exact hplaced x ((hnames x).mpr (h'.names ▸ hmem)) v hv
    have htotal : d'.vars.allotted = Variables.total xs σ.vars := by
      rw [Variables.allotted_eq_total (h'.names ▸ hnodup) hlocated, h'.names]
      exact congrArg (Variables.total xs) (funext fun x => (h'.vars x).symm)
    exact .ok ⟨h'.demand.trans (congrArg (· + σ.cost.1) htotal), h'.constants⟩
  · rw [if_neg hnot, he]
    exact .error e

end Finish

end Unbounded

section Compile

variable {text : String} {vs : Variables} {code : List Postfix.Instruction}

def Outline.start (vs : Variables) : Outline :=
  ⟨fun x => (vs.get? x).map Variable.bound, [], 0⟩

theorem Draft.outlines_start (hfresh : vs.Fresh) (hnodup : vs.names.Nodup) :
    (Draft.start vs).Outlines vs.names (Outline.start vs) where
  names := rfl
  vars _ := rfl
  unplaced x v hv _ := (hfresh x v hv).location
  stack := rfl
  demand := by
    change (0 : Demand) = vs.allotted + 0
    rw [Variables.allotted_eq_zero hnodup fun x v hv => (hfresh x v hv).location, add_zero]
  constants := rfl

def outlined? (o : CompileOptions) (vs : Variables) (code : List Postfix.Instruction) :
    Option Room :=
  ((outline o).run (Outline.start vs) code).bind (Unbounded.total? vs.names)

variable (hcode : (Postfix.instructions text).map Prod.snd = code.map .ok) (hne : code ≠ [])
  (halone : Postfix.WritesAlone 0 code) (hdepth : Postfix.depthAfter? 0 code = some 0)
  (hfresh : vs.Fresh) (hnodup : vs.names.Nodup) (o : CompileOptions)

include hcode hne halone hdepth hfresh hnodup

theorem unbounded_compile_mirrors :
    Mirrors Unbounded.Takes (Unbounded.compile text vs o) (outlined? o vs code) := by
  have hlines := Unbounded.all_lines_mirror (o := o) hcode hne
    (Draft.outlines_start hfresh hnodup) halone
  unfold Unbounded.compile outlined?
  refine hlines.bind fun d σ hσ hd => Unbounded.finish_mirrors hnodup hd ?_
  exact Postfix.Interpretation.stack_eq_nil rfl hdepth hσ

theorem compile_eq_ok_iff_outlined :
    ((∃ p, compile text vs o = .ok p) ↔ ∃ m, outlined? o vs code = some m ∧ m.1.InBounds) ∧
      ∀ p m, compile text vs o = .ok p → outlined? o vs code = some m → Unbounded.Takes p m := by
  have hmirrors := unbounded_compile_mirrors hcode hne halone hdepth hfresh hnodup o
  have hlimits := (compile_limits text vs o).eq_ok_iff (inBounds_start vs)
  refine ⟨⟨?_, ?_⟩, ?_⟩
  · rintro ⟨p, hp⟩
    obtain ⟨hp, hin⟩ := (hlimits p).mp hp
    obtain ⟨m, hm, htakes⟩ := hmirrors.exists_some hp
    exact ⟨m, hm, htakes.1 ▸ hin⟩
  · rintro ⟨m, hm, hin⟩
    obtain ⟨p, hp, htakes⟩ := hmirrors.exists_ok hm
    exact ⟨p, (hlimits p).mpr ⟨hp, htakes.1 ▸ hin⟩⟩
  · intro p m hp hm
    obtain ⟨m', hm', htakes⟩ := hmirrors.exists_some ((hlimits p).mp hp).1
    obtain rfl := Option.some.inj (hm.symm.trans hm')
    exact htakes

end Compile

end FormulaMachine
