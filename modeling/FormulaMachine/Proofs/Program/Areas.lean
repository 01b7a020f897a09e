import FormulaMachine.Proofs.Compiler.Layout
import FormulaMachine.Proofs.Machine.Storage

namespace FormulaMachine

def External.Apart (count count' : Nat) (x y : External) : Prop :=
  x.memory.number ≠ y.memory.number ∨ x.offset + count ≤ y.offset ∨ y.offset + count' ≤ x.offset

instance {x y : External} {count count' : Nat} : Decidable (x.Apart count count' y) :=
  inferInstanceAs (Decidable (_ ∨ _ ∨ _))

theorem External.cellAt_ne {x y : External} {count count' i j : Nat} (h : x.Apart count count' y)
    (hi : i < count) (hj : j < count') : x.cellAt i ≠ y.cellAt j := by
  intro heq
  obtain ⟨hmemory, hindex⟩ := Cell.shared.inj heq
  rcases h with hne | hle | hle
  · exact hne hmemory
  · omega
  · omega

def Variables.Separate (vs : Variables) : Prop :=
  ∀ a b v w x y, a ≠ b → vs.get? a = some v → vs.get? b = some w → v.external = some x →
    w.external = some y → x.Apart v.type.length w.type.length y

theorem Variables.separate_of_forall {vs : Variables}
    (h : ∀ v ∈ vs.outputs ++ vs.inputs, ∀ w ∈ vs.outputs ++ vs.inputs, v.name ≠ w.name →
      ∀ x ∈ v.external, ∀ y ∈ w.external, x.Apart v.type.length w.type.length y) :
    vs.Separate := by
  intro a b v w x y hne hv hw hx hy
  have hnames : v.name ≠ w.name := by rwa [name_of_get? hv, name_of_get? hw]
  exact h v (List.mem_of_find?_eq_some hv) w (List.mem_of_find?_eq_some hw) hnames x hx y hy

theorem Layout.Grows.separate {y y' : Layout} (h : y.Grows y') (hy : y.vars.Separate) :
    y'.vars.Separate := by
  intro a b v w x x' hab hv hw hx hx'
  obtain ⟨v₀, hv₀, hbecomes⟩ := h.becomes_before hv
  obtain ⟨w₀, hw₀, hbecomes'⟩ := h.becomes_before hw
  obtain ⟨hx₀, ht⟩ := hbecomes.bound x hx
  obtain ⟨hx₀', ht'⟩ := hbecomes'.bound x' hx'
  rw [ht, ht']
  exact hy a b v₀ w₀ x x' hab hv₀ hw₀ hx₀ hx₀'

namespace Program

variable {p : Program}

def area (p : Program) (t : DataType) : Location → Set Address
  | .variable offset => {a | ∃ o, offset ≤ o ∧ o < offset + t.size ∧ a = .byte o}
  | .external number => {a | ∃ x, p.bindings[number]? = some x ∧ a = .cell (x.cellAt 0)}
  | .matrix number => p.matrixArea number

section Owners

variable (hp : p.layout.Sound)

include hp

theorem owner_of_matrixExternal? {number : Nat} {x : External}
    (h : p.matrixExternal? number = some x) :
    ∃ name v, p.vars.get? name = some v ∧ v.location = some (.matrix number) ∧
      v.external = some x ∧ p.matrixType number = v.type := by
  obtain ⟨slot, hslot, hx⟩ := Option.bind_eq_some_iff.mp h
  obtain ⟨name, v, hv, hloc⟩ := hp.matrixOwner number slot x hslot hx
  have hkeeps := (hp.houses name v hv).keeps _ hloc
  obtain rfl := Option.some.inj (hkeeps.2.symm.trans hslot)
  refine ⟨name, v, hv, hloc, hx, ?_⟩
  rw [matrixType, hslot, Option.map_some, Option.getD_some]

theorem owner_of_binding {number : Nat} {x : External} (h : p.bindings[number]? = some x) :
    ∃ name v, p.vars.get? name = some v ∧ v.location = some (.external number) ∧
      v.external = some x ∧ v.type.length = 1 := by
  obtain ⟨name, v, hv, hloc⟩ := hp.bindingOwner number x h
  obtain ⟨k, x', ht, hx', hget⟩ := (hp.houses name v hv).keeps _ hloc
  obtain rfl := Option.some.inj (hget.symm.trans h)
  exact ⟨name, v, hv, hloc, hx', by rw [ht]; rfl⟩

variable (hsep : p.vars.Separate)

include hsep

omit hp in
theorem cellAt_ne_of_location {a b : String} {v w : Variable} {l l' : Location} {x y : External}
    {i j : Nat} (hv : p.vars.get? a = some v) (hw : p.vars.get? b = some w)
    (hl : v.location = some l) (hl' : w.location = some l') (hne : l ≠ l')
    (hx : v.external = some x) (hy : w.external = some y) (hi : i < v.type.length)
    (hj : j < w.type.length) : x.cellAt i ≠ y.cellAt j := by
  have hab : a ≠ b := by
    rintro rfl
    obtain rfl := Option.some.inj (hv.symm.trans hw)
    exact hne (Option.some.inj (hl.symm.trans hl'))
  exact External.cellAt_ne (hsep a b v w x y hab hv hw hx hy) hi hj

theorem matrixArea_disjoint {m n : Nat} (hne : m ≠ n) :
    Disjoint (p.matrixArea m) (p.matrixArea n) := by
  refine Set.disjoint_left.mpr fun a ha ha' => ?_
  obtain ⟨i, hi, rfl⟩ := ha
  obtain ⟨j, hj, heq⟩ := ha'
  have hcell : p.matrixAt m i = p.matrixAt n j := Address.cell.inj heq
  unfold matrixAt at hcell
  cases hx : p.matrixExternal? m with
  | none =>
      cases hy : p.matrixExternal? n with
      | none =>
          rw [hx, hy] at hcell
          exact hne (Cell.owned.inj hcell).1
      | some y =>
          rw [hx, hy] at hcell
          cases hcell
  | some x =>
      cases hy : p.matrixExternal? n with
      | none =>
          rw [hx, hy] at hcell
          cases hcell
      | some y =>
          rw [hx, hy] at hcell
          obtain ⟨a, v, hv, hl, hvx, ht⟩ := owner_of_matrixExternal? hp hx
          obtain ⟨b, w, hw, hl', hwy, ht'⟩ := owner_of_matrixExternal? hp hy
          have hlne : Location.matrix m ≠ .matrix n := fun h => hne (Location.matrix.inj h)
          exact cellAt_ne_of_location hsep hv hw hl hl' hlne hvx hwy (ht ▸ hi) (ht' ▸ hj) hcell

theorem matrixArea_disjoint_area {m : Nat} {l : Location} (t : DataType)
    (hne : l ≠ .matrix m) : Disjoint (p.matrixArea m) (p.area t l) := by
  rcases l with offset | number | number
  · refine Set.disjoint_left.mpr fun a ha ha' => ?_
    obtain ⟨i, -, rfl⟩ := ha
    obtain ⟨o, -, -, heq⟩ := ha'
    cases heq
  · refine Set.disjoint_left.mpr fun a ha ha' => ?_
    obtain ⟨i, hi, rfl⟩ := ha
    obtain ⟨y, hy, heq⟩ := ha'
    have hcell : p.matrixAt m i = y.cellAt 0 := Address.cell.inj heq
    unfold matrixAt at hcell
    cases hx : p.matrixExternal? m with
    | none =>
        rw [hx] at hcell
        cases hcell
    | some x =>
        rw [hx] at hcell
        obtain ⟨a, v, hv, hlv, hvx, ht⟩ := owner_of_matrixExternal? hp hx
        obtain ⟨b, u, hu, hlu, huy, hlen⟩ := owner_of_binding hp hy
        have hlne : Location.matrix m ≠ .external number := by simp
        exact cellAt_ne_of_location hsep hv hu hlv hlu hlne hvx huy (ht ▸ hi)
          (by omega) hcell
  · exact matrixArea_disjoint hp hsep fun h => hne (congrArg Location.matrix h.symm)

theorem area_disjoint {a b : String} {v w : Variable} {l l' : Location} (hab : a ≠ b)
    (hv : p.vars.get? a = some v) (hw : p.vars.get? b = some w) (hl : v.location = some l)
    (hl' : w.location = some l') : Disjoint (p.area v.type l) (p.area w.type l') := by
  have hapart := hp.apart a b v w hab hv hw l l' hl hl'
  rcases l with offset | number | number
  · rcases l' with offset' | number' | number'
    · refine Set.disjoint_left.mpr fun c hc hc' => ?_
      obtain ⟨o, hlow, hhigh, rfl⟩ := hc
      obtain ⟨o', hlow', hhigh', heq⟩ := hc'
      obtain rfl := Address.byte.inj heq
      rcases hapart with hle | hle <;> omega
    · refine Set.disjoint_left.mpr fun c hc hc' => ?_
      obtain ⟨o, -, -, rfl⟩ := hc
      obtain ⟨y, -, heq⟩ := hc'
      cases heq
    · exact (matrixArea_disjoint_area hp hsep v.type (by simp)).symm
  · rcases l' with offset' | number' | number'
    · refine Set.disjoint_left.mpr fun c hc hc' => ?_
      obtain ⟨x, -, rfl⟩ := hc
      obtain ⟨o, -, -, heq⟩ := hc'
      cases heq
    · refine Set.disjoint_left.mpr fun c hc hc' => ?_
      obtain ⟨x, hx, rfl⟩ := hc
      obtain ⟨y, hy, heq⟩ := hc'
      obtain ⟨a', v', hv', hlv, hvx, hlen⟩ := owner_of_binding hp hx
      obtain ⟨b', w', hw', hlw, hwy, hlen'⟩ := owner_of_binding hp hy
      have hlne : Location.external number ≠ .external number' :=
        fun h => hapart (Location.external.inj h)
      exact cellAt_ne_of_location hsep hv' hw' hlv hlw hlne hvx hwy (by omega) (by omega)
        (Address.cell.inj heq)
    · exact (matrixArea_disjoint_area hp hsep v.type (by simp)).symm
  · refine matrixArea_disjoint_area hp hsep w.type ?_
    rintro rfl
    exact hapart rfl

end Owners

end Program

end FormulaMachine
