import FormulaMachine.Proofs.Compiler.Compile
import FormulaMachine.Program.Listing
import Mathlib.Data.List.Nodup

namespace FormulaMachine

namespace Variables

variable {vs ws : Variables}

def names (vs : Variables) : List String :=
  (vs.outputs ++ vs.inputs).map Variable.name

theorem names_replace (v : Variable) (ws : List Variable) :
    (replace v ws).map Variable.name = ws.map Variable.name := by
  induction ws with
  | nil => rfl
  | cons w ws ih =>
      rw [replace]
      split
      · rename_i hw
        rw [List.map_cons, List.map_cons, hw]
      · rw [List.map_cons, List.map_cons, ih]

theorem names_set (vs : Variables) (v : Variable) : (vs.set v).names = vs.names := by
  unfold set
  split <;> simp only [names, List.map_append, names_replace]

theorem names_bind {name : String} {t : DataType} {external : Option External}
    (h : vs.bind name t external = .ok ws) : ws.names = vs.names := by
  obtain ⟨v, w, -, -, rfl⟩ := bind_eq_ok h
  exact names_set vs w

theorem Bound.names_eq (h : vs.Bound ws) : ws.names = vs.names := by
  induction h with
  | refl => rfl
  | bind _ hbind ih => exact (names_bind hbind).trans ih

theorem not_mem_names {name : String} (h : vs.get? name = none) : name ∉ vs.names := by
  intro hmem
  obtain ⟨v, hv, rfl⟩ := List.mem_map.mp hmem
  have hne := List.find?_eq_none.mp h v hv
  simp at hne

theorem nodup_insert {before after : List Variable} {name : String}
    (h : ((before ++ after).map Variable.name).Nodup)
    (hnew : name ∉ (before ++ after).map Variable.name) :
    ((before ++ .named name :: after).map Variable.name).Nodup := by
  have hperm : List.Perm (before ++ .named name :: after) (.named name :: (before ++ after)) :=
    List.perm_middle
  exact (hperm.map Variable.name).nodup_iff.mpr (List.nodup_cons.mpr ⟨hnew, h⟩)

theorem nodup_noteRead (h : vs.names.Nodup) (name : String) : (vs.noteRead name).names.Nodup := by
  unfold noteRead
  split
  · exact h
  · rename_i hnone
    have hnew := not_mem_names hnone
    rw [names, ← List.append_nil (vs.outputs ++ vs.inputs)] at h hnew
    have hinsert := nodup_insert h hnew
    rwa [List.append_assoc] at hinsert

theorem nodup_noteWrite (h : vs.names.Nodup) (name : String) :
    (vs.noteWrite name).names.Nodup := by
  unfold noteWrite
  split
  · exact h
  rename_i hout
  have hout' : vs.outputs.find? (·.name == name) = none := by
    simpa [List.find?_eq_none] using hout
  split
  · rename_i v hv
    obtain ⟨hname, front, back, hinputs, hfront⟩ := List.find?_eq_some_iff_append.mp hv
    have herase : vs.inputs.eraseP (·.name == name) = front ++ back := by
      rw [hinputs, List.eraseP_append_right _ (by simpa using hfront),
        List.eraseP_cons_of_pos (p := fun w : Variable => w.name == name) hname]
    have hperm : List.Perm (vs.outputs ++ [v] ++ (front ++ back)) (vs.outputs ++ vs.inputs) := by
      rw [hinputs, List.append_assoc, List.singleton_append]
      exact List.perm_middle.symm.append_left _
    rw [names, herase]
    exact (hperm.map Variable.name).nodup_iff.mpr h
  · rename_i hin
    have hnone : vs.get? name = none := by
      rw [get?, List.find?_append, hout', hin]
      rfl
    have hinsert := nodup_insert h (not_mem_names hnone)
    rw [names, List.append_assoc]
    exact hinsert

theorem nodup_noteLine {number : Nat} {words : List String} (h : vs.names.Nodup)
    (hline : vs.noteLine number words = .ok ws) : ws.names.Nodup := by
  unfold noteLine at hline
  split at hline
  · obtain rfl := Except.ok.inj hline
    exact nodup_noteRead h _
  · obtain rfl := Except.ok.inj hline
    exact nodup_noteWrite h _
  · cases hline
  · obtain rfl := Except.ok.inj hline
    exact h

theorem Made.nodup_names (h : vs.Made) : vs.names.Nodup := by
  obtain ⟨text, vs₀, hdiscover, hbound⟩ := h
  rw [hbound.names_eq]
  exact foldlM_invariant (P := fun ws => ws.names.Nodup)
    (fun _ _ _ hws hline => nodup_noteLine hws hline) List.nodup_nil hdiscover

theorem get?_of_mem (h : vs.names.Nodup) {v : Variable} (hv : v ∈ vs.outputs ++ vs.inputs) :
    vs.get? v.name = some v := by
  obtain ⟨front, back, hsplit⟩ := List.append_of_mem hv
  rw [names, hsplit, List.map_append, List.nodup_append] at h
  rw [get?, hsplit]
  refine List.find?_eq_some_iff_append.mpr ⟨beq_self_eq_true _, front, back, rfl, fun w hw => ?_⟩
  have hne := h.2.2 w.name (List.mem_map_of_mem hw) v.name List.mem_cons_self
  simpa using hne

end Variables

theorem Layout.Grows.names_eq {y y' : Layout} (h : y.Grows y') :
    y'.vars.names = y.vars.names := by
  induction h with
  | refl => rfl
  | tail _ hmove ih =>
      refine Eq.trans ?_ ih
      rcases hmove.vars_cases with hvars | ⟨v, w, -, hvars, -⟩
      · rw [hvars]
      · rw [hvars, Variables.names_set]

theorem nodup_names_of_compile {text : String} {vs : Variables} {o : CompileOptions} {p : Program}
    (hvs : vs.Made) (h : compile text vs o = .ok p) : p.vars.names.Nodup := by
  have hnames : p.vars.names = vs.names := (grows_of_compile h).names_eq
  rw [hnames]
  exact hvs.nodup_names

theorem Layout.Houses.not_apart {y : Layout} {v w : Variable} (hv : y.Houses v)
    (hw : y.Houses w) {l : Location} (hvl : v.location = some l) (hwl : w.location = some l) :
    ¬ l.Apart v.type.size w.type.size l := by
  have hkeeps := hv.keeps l hvl
  have hkeeps' := hw.keeps l hwl
  rcases l with offset | number | number
  · obtain ⟨k, ht, -, -⟩ := hkeeps
    obtain ⟨j, ht', -, -⟩ := hkeeps'
    have hk := k.size_pos
    have hj := j.size_pos
    rw [ht, ht']
    simp only [Location.Apart, DataType.size]
    omega
  · exact fun hne => hne rfl
  · exact fun hne => hne rfl

theorem Program.variableAt?_eq_some {p : Program} (hp : p.layout.Sound)
    (hnames : p.vars.names.Nodup) {name : String} {w : Variable} {l : Location}
    (hw : p.vars.get? name = some w) (hl : w.location = some l) :
    p.variableAt? l = some w := by
  have hmem := List.mem_of_find?_eq_some hw
  have hsome : (p.variableAt? l).isSome := by
    rw [variableAt?, List.find?_isSome]
    exact ⟨w, hmem, by rw [hl]; exact beq_self_eq_true _⟩
  obtain ⟨v, hv⟩ := Option.isSome_iff_exists.mp hsome
  have hvl : v.location = some l := by simpa using List.find?_some hv
  have hget := Variables.get?_of_mem hnames (List.mem_of_find?_eq_some hv)
  by_cases hname : v.name = name
  · rw [hname, hw] at hget
    rw [hv, hget]
  · exact absurd (hp.apart v.name name v w hname hget hw l l hvl hl)
      ((hp.houses _ v hget).not_apart (hp.houses _ w hw) hvl hl)

end FormulaMachine
