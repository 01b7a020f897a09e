import FormulaMachine.Proofs.Results
import FormulaMachine.Variables
import Mathlib.Logic.Relation

namespace FormulaMachine

namespace Variables

theorem find?_replace_of_ne {v : Variable} {name : String} (h : name ≠ v.name)
    (ws : List Variable) :
    (replace v ws).find? (·.name == name) = ws.find? (·.name == name) := by
  induction ws with
  | nil => rfl
  | cons w ws ih =>
      rw [replace]
      split
      · rename_i hw
        have hv : (v.name == name) = false := by simpa using Ne.symm h
        simp [hw, hv]
      · simp [List.find?_cons, ih]

theorem find?_replace_self {v : Variable} {ws : List Variable}
    (h : ws.any (·.name == v.name)) : (replace v ws).find? (·.name == v.name) = some v := by
  induction ws with
  | nil => cases h
  | cons w ws ih =>
      rw [replace]
      split
      · simp
      · rename_i hw
        have hrest : ws.any (·.name == v.name) := by simpa [hw] using h
        simp [hw, ih hrest]

variable {vs : Variables}

theorem name_of_get? {name : String} {v : Variable} (h : vs.get? name = some v) :
    v.name = name := by
  have hname := List.find?_some h
  simpa using hname

theorem get?_set_of_ne {v : Variable} {name : String} (h : name ≠ v.name) :
    (vs.set v).get? name = vs.get? name := by
  unfold set
  split <;> simp only [get?, List.find?_append, find?_replace_of_ne h]

theorem get?_set_self {v w : Variable} (h : vs.get? v.name = some w) :
    (vs.set v).get? v.name = some v := by
  unfold set
  split
  · rename_i hout
    simp only [get?, List.find?_append, find?_replace_self hout, Option.some_or]
  · rename_i hout
    have hnone : vs.outputs.find? (·.name == v.name) = none := by
      simpa [List.find?_eq_none] using hout
    rw [get?, List.find?_append, hnone, Option.none_or] at h
    have hin : vs.inputs.any (·.name == v.name) := by
      rw [List.any_eq_true]
      exact ⟨w, List.mem_of_find?_eq_some h, by simpa using List.find?_some h⟩
    simp only [get?, List.find?_append, hnone, Option.none_or, find?_replace_self hin]

theorem get?_set {v w : Variable} (h : vs.get? v.name = some w) (name : String) :
    (vs.set v).get? name = if name = v.name then some v else vs.get? name := by
  split
  · rename_i hname
    subst hname
    exact get?_set_self h
  · rename_i hname
    exact get?_set_of_ne hname

inductive Bound (vs : Variables) : Variables → Prop
  | refl : Bound vs vs
  | bind {ws ws' name t external} (h : Bound vs ws) (hbind : ws.bind name t external = .ok ws') :
      Bound vs ws'

end Variables

namespace Variable

structure Fresh (v : Variable) : Prop where
  location : v.location = none
  void : v.type = .void → v.external = none
  valid : v.type ≠ .void → v.type.isValid
  range : ∀ x, v.external = some x → x.offset + v.type.length ≤ x.memory.cells

theorem fresh_named (name : String) : (named name).Fresh :=
  ⟨rfl, fun _ => rfl, fun h => absurd rfl h, fun _ hx => by cases hx⟩

theorem bind_eq_ok {v w : Variable} {t : DataType} {external : Option External}
    (h : v.bind t external = .ok w) :
    v.type = .void ∧ t.isValid ∧ w = ⟨v.name, t, v.location, external⟩ ∧
      ∀ x, external = some x → x.offset + t.length ≤ x.memory.cells := by
  unfold bind at h
  split at h
  · cases h
  rename_i hvoid
  split at h
  · cases h
  rename_i hvalid
  have hvoid' : v.type = .void := Decidable.not_not.mp hvoid
  have hvalid' : t.isValid := by simpa using hvalid
  cases external with
  | none => exact ⟨hvoid', hvalid', (Except.ok.inj h).symm, fun _ hx => by cases hx⟩
  | some x =>
      cases hrange : checkRange v.name t.length x with
      | error e => simp [hrange] at h
      | ok u =>
          simp only [hrange] at h
          refine ⟨hvoid', hvalid', (Except.ok.inj h).symm, fun y hy => ?_⟩
          obtain rfl : x = y := Option.some.inj hy
          unfold checkRange at hrange
          split at hrange
          · assumption
          · cases hrange

theorem Fresh.bind {v w : Variable} {t : DataType} {external : Option External} (hv : v.Fresh)
    (h : v.bind t external = .ok w) : w.Fresh := by
  obtain ⟨-, hvalid, rfl, hrange⟩ := bind_eq_ok h
  refine ⟨hv.location, fun hvoid => ?_, fun _ => hvalid, hrange⟩
  rw [show t = .void from hvoid] at hvalid
  cases hvalid

end Variable

namespace Variables

def Fresh (vs : Variables) : Prop :=
  ∀ name v, vs.get? name = some v → v.Fresh

theorem bind_eq_ok {vs ws : Variables} {name : String} {t : DataType}
    {external : Option External} (h : vs.bind name t external = .ok ws) :
    ∃ v w, vs.get? name = some v ∧ v.bind t external = .ok w ∧ ws = vs.set w := by
  unfold bind at h
  split at h
  · cases h
  · rename_i v hv
    cases hw : v.bind t external with
    | error e => simp [hw, Except.map] at h
    | ok w =>
        simp only [hw, Except.map] at h
        exact ⟨v, w, hv, hw, (Except.ok.inj h).symm⟩

theorem Fresh.bind {vs ws : Variables} {name : String} {t : DataType}
    {external : Option External} (hvs : vs.Fresh) (h : vs.bind name t external = .ok ws) :
    ws.Fresh := by
  obtain ⟨v, w, hv, hw, rfl⟩ := bind_eq_ok h
  have hname : vs.get? w.name = some v := by
    obtain ⟨-, -, rfl, -⟩ := Variable.bind_eq_ok hw
    rwa [name_of_get? hv]
  intro other u hu
  rw [get?_set hname] at hu
  split at hu
  · obtain rfl := Option.some.inj hu
    exact (hvs name v hv).bind hw
  · exact hvs other u hu

theorem Fresh.bound {vs ws : Variables} (hvs : vs.Fresh) (h : vs.Bound ws) : ws.Fresh := by
  induction h with
  | refl => exact hvs
  | bind _ hbind ih => exact ih.bind hbind

def Unbound (vs : Variables) : Prop :=
  ∀ v ∈ vs.outputs ++ vs.inputs, v = .named v.name

theorem Unbound.fresh {vs : Variables} (h : vs.Unbound) : vs.Fresh := by
  intro name v hv
  rw [h v (List.mem_of_find?_eq_some hv)]
  exact Variable.fresh_named _

theorem Unbound.noteRead {vs : Variables} (h : vs.Unbound) (name : String) :
    (vs.noteRead name).Unbound := by
  unfold Variables.noteRead
  split
  · exact h
  · intro v hv
    simp only [List.mem_append, List.mem_singleton] at hv
    rcases hv with hv | hv | rfl
    · exact h v (List.mem_append_left _ hv)
    · exact h v (List.mem_append_right _ hv)
    · rfl

theorem Unbound.noteWrite {vs : Variables} (h : vs.Unbound) (name : String) :
    (vs.noteWrite name).Unbound := by
  unfold Variables.noteWrite
  split
  · exact h
  · split
    · rename_i w hw
      intro v hv
      simp only [List.mem_append, List.mem_singleton] at hv
      rcases hv with (hv | rfl) | hv
      · exact h v (List.mem_append_left _ hv)
      · exact h v (List.mem_append_right _ (List.mem_of_find?_eq_some hw))
      · exact h v (List.mem_append_right _ (List.mem_of_mem_eraseP hv))
    · intro v hv
      simp only [List.mem_append, List.mem_singleton] at hv
      rcases hv with (hv | rfl) | hv
      · exact h v (List.mem_append_left _ hv)
      · rfl
      · exact h v (List.mem_append_right _ hv)

theorem Unbound.noteLine {vs ws : Variables} {number : Nat} {words : List String}
    (hvs : vs.Unbound) (h : vs.noteLine number words = .ok ws) : ws.Unbound := by
  unfold Variables.noteLine at h
  split at h
  · obtain rfl := Except.ok.inj h
    exact hvs.noteRead _
  · obtain rfl := Except.ok.inj h
    exact hvs.noteWrite _
  · cases h
  · obtain rfl := Except.ok.inj h
    exact hvs

theorem unbound_discover {text : String} {vs : Variables} (h : discover text = .ok vs) :
    vs.Unbound :=
  foldlM_invariant (fun _ _ _ hvs hline => Unbound.noteLine hvs hline)
    (fun v hv => by cases hv) h

def Made (vs : Variables) : Prop :=
  ∃ text vs₀, discover text = .ok vs₀ ∧ vs₀.Bound vs

theorem Made.fresh {vs : Variables} (h : vs.Made) : vs.Fresh := by
  obtain ⟨text, vs₀, hdiscover, hbound⟩ := h
  exact (unbound_discover hdiscover).fresh.bound hbound

end Variables

end FormulaMachine
