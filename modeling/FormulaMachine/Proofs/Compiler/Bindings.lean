import FormulaMachine.Proofs.Compiler.Discovery
import FormulaMachine.Proofs.Program.Areas

namespace FormulaMachine

structure Declaration where
  name : String
  type : DataType
  external : Option External
  deriving DecidableEq, Repr

namespace Variables

variable {vs ws vs' : Variables}

def declare (vs : Variables) (ds : List Declaration) : Except Error Variables :=
  ds.foldlM (fun vs d => vs.bind d.name d.type d.external) vs

theorem bound_of_declare {ds : List Declaration} (h : vs.declare ds = .ok ws) : vs.Bound ws :=
  foldlM_invariant (P := vs.Bound) (fun _ _ _ hbound hbind => .bind hbound hbind) .refl h

def Alike (vs ws : Variables) : Prop :=
  ∀ x, vs.get? x = ws.get? x

theorem Alike.symm (h : vs.Alike ws) : ws.Alike vs :=
  fun x => (h x).symm

theorem Alike.bind (h : vs.Alike ws) {name : String} {t : DataType} {external : Option External}
    (hbind : vs.bind name t external = .ok vs') :
    ∃ ws', ws.bind name t external = .ok ws' ∧ vs'.Alike ws' := by
  obtain ⟨v, w, hv, hw, rfl⟩ := bind_eq_ok hbind
  have hname : w.name = v.name := by
    obtain ⟨-, -, rfl, -⟩ := Variable.bind_eq_ok hw
    rfl
  obtain rfl : w.name = name := hname.trans (name_of_get? hv)
  have hv' : ws.get? w.name = some v := h w.name ▸ hv
  refine ⟨ws.set w, ?_, fun x => ?_⟩
  · rw [Variables.bind, hv']
    simp only [hw, Except.map]
  · rw [get?_set hv, get?_set hv', h x]

theorem Alike.declare (h : vs.Alike ws) {ds : List Declaration}
    (hdeclare : vs.declare ds = .ok vs') : ∃ ws', ws.declare ds = .ok ws' ∧ vs'.Alike ws' := by
  induction ds generalizing vs ws with
  | nil =>
      obtain rfl := Except.ok.inj hdeclare
      exact ⟨ws, rfl, h⟩
  | cons d ds ih =>
      rw [Variables.declare, List.foldlM_cons] at hdeclare
      obtain ⟨vs₁, hbind, hdeclare⟩ := FormulaMachine.bind_eq_ok hdeclare
      obtain ⟨ws₁, hbind', h₁⟩ := h.bind hbind
      obtain ⟨ws', hws', h'⟩ := ih h₁ hdeclare
      refine ⟨ws', ?_, h'⟩
      rw [Variables.declare, List.foldlM_cons, bind_of_ok hbind']
      exact hws'

theorem Alike.separate (h : vs.Alike ws) (hsep : vs.Separate) : ws.Separate := by
  intro a b v w x y hne hv hw
  exact hsep a b v w x y hne ((h a).trans hv) ((h b).trans hw)

theorem mem_names_iff {x : String} : x ∈ vs.names ↔ vs.get? x ≠ none :=
  ⟨fun hmem hnone => not_mem_names hnone hmem, fun hsome => by
    obtain ⟨v, hv⟩ := Option.ne_none_iff_exists'.mp hsome
    exact mem_names_of_get? hv⟩

theorem Alike.names_perm (h : vs.Alike ws) (hvs : vs.names.Nodup) (hws : ws.names.Nodup) :
    vs.names.Perm ws.names := by
  refine (List.perm_ext_iff_of_nodup hvs hws).mpr fun x => ?_
  rw [mem_names_iff, mem_names_iff, h x]

theorem Unbound.eq_named (h : vs.Unbound) {x : String} {v : Variable} (hv : vs.get? x = some v) :
    v = .named x := by
  rw [h v (List.mem_of_find?_eq_some hv), name_of_get? hv]

theorem Unbound.alike (hvs : vs.Unbound) (hws : ws.Unbound)
    (h : ∀ x, x ∈ vs.names ↔ x ∈ ws.names) : vs.Alike ws := by
  intro x
  have hx := h x
  rw [mem_names_iff, mem_names_iff] at hx
  cases hv : vs.get? x with
  | none =>
      rw [hv] at hx
      exact (not_not.mp fun hne => hx.mpr (Ne.symm hne) rfl)
  | some v =>
      rw [hv] at hx
      obtain ⟨w, hw⟩ := Option.ne_none_iff_exists'.mp (hx.mp (Option.some_ne_none v))
      rw [hw, hvs.eq_named hv, hws.eq_named hw]

theorem alike_of_discover {text text' : String} {code code' : List Postfix.Instruction}
    (hcode : (Postfix.instructions text).map Prod.snd = code.map .ok)
    (hcode' : (Postfix.instructions text').map Prod.snd = code'.map .ok)
    (h : ∀ i, i ∈ code ↔ i ∈ code') :
    ∃ vs ws, discover text = .ok vs ∧ discover text' = .ok ws ∧ vs.Alike ws := by
  have hvs := discover_eq hcode
  have hws := discover_eq hcode'
  refine ⟨_, _, hvs, hws, (unbound_discover hvs).alike (unbound_discover hws) fun x => ?_⟩
  rw [(notes_foldl code).mem_names, (notes_foldl code').mem_names, h, h]

end Variables

end FormulaMachine
