import FormulaMachine.Compiler.Draft
import FormulaMachine.Proofs.Compiler.Variables

namespace FormulaMachine

structure Layout where
  vars : Variables
  variablesSize : Nat
  matrices : Array MatrixSlot
  bindings : Array External
  deriving DecidableEq, Repr

def Draft.layout (d : Draft) : Layout :=
  ⟨d.vars, d.variablesSize, d.matrices, d.bindings⟩

def Program.layout (p : Program) : Layout :=
  ⟨p.vars, p.sizes.variableBytes, p.matrices, p.bindings⟩

def Variable.housed (v : Variable) (l : Location) : Variable :=
  { v with location := some l }

namespace Layout

inductive Move : Layout → Layout → Prop
  | infer {y v t} (hget : y.vars.get? v.name = some v) (hvoid : v.type = .void)
      (hvalid : t.isValid) : Move y { y with vars := y.vars.set ⟨v.name, t, v.location, none⟩ }
  | scalar {y v k} (hget : y.vars.get? v.name = some v) (hloc : v.location = none)
      (ht : v.type = .scalar k) (hx : v.external = none)
      (hroom : y.variablesSize + k.size < Draft.offsetLimit) :
      Move y { y with
        vars := y.vars.set (v.housed (.variable y.variablesSize))
        variablesSize := y.variablesSize + k.size }
  | external {y v k x} (hget : y.vars.get? v.name = some v) (hloc : v.location = none)
      (ht : v.type = .scalar k) (hx : v.external = some x)
      (hroom : y.bindings.size < Draft.numberLimit) :
      Move y { y with
        vars := y.vars.set (v.housed (.external y.bindings.size))
        bindings := y.bindings.push x }
  | matrix {y v} (hget : y.vars.get? v.name = some v) (hloc : v.location = none)
      (ht : v.type.isMatrix) (hroom : y.matrices.size < Draft.numberLimit) :
      Move y { y with
        vars := y.vars.set (v.housed (.matrix y.matrices.size))
        matrices := y.matrices.push ⟨v.type, v.external⟩ }
  | temporary {y t} (hroom : y.matrices.size < Draft.numberLimit) :
      Move y { y with matrices := y.matrices.push ⟨t, none⟩ }

abbrev Grows : Layout → Layout → Prop := Relation.ReflTransGen Move

end Layout

structure Variable.Becomes (v w : Variable) : Prop where
  typed : v.type ≠ .void → w.type = v.type ∧ w.external = v.external
  placed : ∀ l, v.location = some l → w.location = some l
  bound : ∀ x, w.external = some x → v.external = some x ∧ w.type = v.type

namespace Variable.Becomes

theorem refl (v : Variable) : v.Becomes v :=
  ⟨fun _ => ⟨rfl, rfl⟩, fun _ h => h, fun _ h => ⟨h, rfl⟩⟩

theorem trans {u v w : Variable} (huv : u.Becomes v) (hvw : v.Becomes w) : u.Becomes w := by
  refine ⟨fun hu => ?_, fun l hl => hvw.placed l (huv.placed l hl), fun x hx => ?_⟩
  · obtain ⟨ht, hx⟩ := huv.typed hu
    obtain ⟨ht', hx'⟩ := hvw.typed (ht ▸ hu)
    exact ⟨ht'.trans ht, hx'.trans hx⟩
  · obtain ⟨hv, ht⟩ := hvw.bound x hx
    obtain ⟨hu, ht'⟩ := huv.bound x hv
    exact ⟨hu, ht.trans ht'⟩

theorem housed {v : Variable} (hloc : v.location = none) (l : Location) :
    v.Becomes (v.housed l) :=
  ⟨fun _ => ⟨rfl, rfl⟩, fun l' h => (by rw [hloc] at h; cases h), fun _ h => ⟨h, rfl⟩⟩

end Variable.Becomes

namespace Layout

variable {y y' : Layout}

def Vacant (y : Layout) : Location → Prop
  | .variable offset => y.variablesSize ≤ offset
  | .external number => y.bindings.size ≤ number
  | .matrix number => y.matrices.size ≤ number

theorem Move.vars_cases (h : y.Move y') :
    y'.vars = y.vars ∨ ∃ v w, y.vars.get? w.name = some v ∧ y'.vars = y.vars.set w ∧
      v.Becomes w ∧ (w.location = v.location ∨ ∃ l, w.location = some l ∧ y.Vacant l) := by
  cases h with
  | @infer v t hget hvoid _ =>
      refine .inr ⟨v, ⟨v.name, t, v.location, none⟩, hget, rfl, ?_, .inl rfl⟩
      exact ⟨fun ht => absurd hvoid ht, fun _ hl => hl, fun x hx => (by cases hx)⟩
  | @scalar v k hget hloc _ _ _ =>
      exact .inr ⟨v, v.housed (.variable y.variablesSize), hget, rfl, .housed hloc _,
        .inr ⟨_, rfl, Nat.le_refl y.variablesSize⟩⟩
  | @external v k x hget hloc _ _ _ =>
      exact .inr ⟨v, v.housed (.external y.bindings.size), hget, rfl, .housed hloc _,
        .inr ⟨_, rfl, Nat.le_refl y.bindings.size⟩⟩
  | @matrix v hget hloc _ _ =>
      exact .inr ⟨v, v.housed (.matrix y.matrices.size), hget, rfl, .housed hloc _,
        .inr ⟨_, rfl, Nat.le_refl y.matrices.size⟩⟩
  | temporary => exact .inl rfl

theorem Move.get?_before (h : y.Move y') {name : String} {w : Variable}
    (hw : y'.vars.get? name = some w) :
    ∃ v, y.vars.get? name = some v ∧ v.Becomes w ∧
      (w.location = v.location ∨ ∃ l, w.location = some l ∧ y.Vacant l) := by
  rcases h.vars_cases with hvars | ⟨v, w', hget, hvars, hbecomes, hloc⟩
  · rw [hvars] at hw
    exact ⟨w, hw, .refl w, .inl rfl⟩
  · rw [hvars, Variables.get?_set hget] at hw
    split at hw
    · rename_i hname
      obtain rfl := Option.some.inj hw
      exact ⟨v, hname ▸ hget, hbecomes, hloc⟩
    · exact ⟨w, hw, .refl w, .inl rfl⟩

theorem Move.get?_after (h : y.Move y') {name : String} {v : Variable}
    (hv : y.vars.get? name = some v) : ∃ w, y'.vars.get? name = some w ∧ v.Becomes w := by
  rcases h.vars_cases with hvars | ⟨v', w, hget, hvars, hbecomes, -⟩
  · exact ⟨v, by rw [hvars, hv], .refl v⟩
  · rw [hvars, Variables.get?_set hget]
    by_cases hname : name = w.name
    · subst hname
      obtain rfl : v' = v := Option.some.inj (hget.symm.trans hv)
      exact ⟨w, if_pos rfl, hbecomes⟩
    · exact ⟨v, by rw [if_neg hname, hv], .refl v⟩

theorem Move.matrices_prefix (h : y.Move y') : y.matrices.toList <+: y'.matrices.toList := by
  cases h with
  | matrix => simp
  | temporary => simp
  | _ => exact List.prefix_rfl

theorem Move.bindings_prefix (h : y.Move y') : y.bindings.toList <+: y'.bindings.toList := by
  cases h with
  | external => simp
  | _ => exact List.prefix_rfl

theorem Move.variablesSize_le (h : y.Move y') : y.variablesSize ≤ y'.variablesSize := by
  cases h with
  | scalar => exact Nat.le_add_right _ _
  | _ => exact Nat.le_refl _

namespace Grows

theorem get?_after (h : y.Grows y') {name : String} {v : Variable}
    (hv : y.vars.get? name = some v) : ∃ w, y'.vars.get? name = some w ∧ v.Becomes w := by
  induction h with
  | refl => exact ⟨v, hv, .refl v⟩
  | tail _ hmove ih =>
      obtain ⟨w, hw, hvw⟩ := ih
      obtain ⟨u, hu, hwu⟩ := hmove.get?_after hw
      exact ⟨u, hu, hvw.trans hwu⟩

theorem becomes_before (h : y.Grows y') {name : String} {w : Variable}
    (hw : y'.vars.get? name = some w) : ∃ v, y.vars.get? name = some v ∧ v.Becomes w := by
  induction h generalizing w with
  | refl => exact ⟨w, hw, .refl w⟩
  | tail _ hmove ih =>
      obtain ⟨v, hv, hvw, -⟩ := hmove.get?_before hw
      obtain ⟨u, hu, huv⟩ := ih hv
      exact ⟨u, hu, huv.trans hvw⟩

theorem matrices_prefix (h : y.Grows y') : y.matrices.toList <+: y'.matrices.toList := by
  induction h with
  | refl => exact List.prefix_rfl
  | tail _ hmove ih => exact ih.trans hmove.matrices_prefix

theorem bindings_prefix (h : y.Grows y') : y.bindings.toList <+: y'.bindings.toList := by
  induction h with
  | refl => exact List.prefix_rfl
  | tail _ hmove ih => exact ih.trans hmove.bindings_prefix

theorem variablesSize_le (h : y.Grows y') : y.variablesSize ≤ y'.variablesSize := by
  induction h with
  | refl => exact Nat.le_refl _
  | tail _ hmove ih => exact Nat.le_trans ih hmove.variablesSize_le

theorem matrices_getElem? (h : y.Grows y') {number : Nat} {slot : MatrixSlot}
    (hslot : y.matrices[number]? = some slot) : y'.matrices[number]? = some slot := by
  rw [← Array.getElem?_toList] at hslot ⊢
  obtain ⟨rest, hrest⟩ := h.matrices_prefix
  rw [← hrest]
  exact List.getElem?_append_left ((List.getElem?_eq_some_iff.mp hslot).1) ▸ hslot

theorem bindings_getElem? (h : y.Grows y') {number : Nat} {x : External}
    (hx : y.bindings[number]? = some x) : y'.bindings[number]? = some x := by
  rw [← Array.getElem?_toList] at hx ⊢
  obtain ⟨rest, hrest⟩ := h.bindings_prefix
  rw [← hrest]
  exact List.getElem?_append_left ((List.getElem?_eq_some_iff.mp hx).1) ▸ hx

theorem matrices_size_le (h : y.Grows y') : y.matrices.size ≤ y'.matrices.size := by
  simpa using h.matrices_prefix.length_le

theorem get?_before (h : y.Grows y') {name : String} {w : Variable} {number : Nat}
    (hw : y'.vars.get? name = some w) (hloc : w.location = some (.matrix number))
    (hlt : number < y.matrices.size) :
    ∃ v, y.vars.get? name = some v ∧ v.location = some (.matrix number) := by
  induction h generalizing w with
  | refl => exact ⟨w, hw, hloc⟩
  | tail hgrows hmove ih =>
      obtain ⟨v, hv, -, hplace⟩ := hmove.get?_before hw
      rcases hplace with hsame | ⟨l, hl, hvacant⟩
      · exact ih hv (hsame ▸ hloc)
      -- a new home is at the end of the table, and `number` is before it
      · obtain rfl : l = .matrix number := Option.some.inj (hl.symm.trans hloc)
        have hsize := matrices_size_le hgrows
        exact absurd (Nat.lt_of_lt_of_le hlt hsize) (Nat.not_lt.mpr hvacant)

end Grows

def Keeps (y : Layout) (v : Variable) : Location → Prop
  | .variable offset =>
      ∃ k, v.type = .scalar k ∧ v.external = none ∧ offset + k.size ≤ y.variablesSize
  | .external number =>
      ∃ k x, v.type = .scalar k ∧ v.external = some x ∧ y.bindings[number]? = some x
  | .matrix number =>
      v.type.isMatrix ∧ y.matrices[number]? = some ⟨v.type, v.external⟩

structure Houses (y : Layout) (v : Variable) : Prop where
  valid : v.type ≠ .void → v.type.isValid
  void : v.type = .void → v.external = none ∧ v.location = none
  range : ∀ x, v.external = some x → x.offset + v.type.length ≤ x.memory.cells
  keeps : ∀ l, v.location = some l → y.Keeps v l

end Layout

def Location.Apart (size size' : Nat) : Location → Location → Prop
  | .variable offset, .variable offset' => offset + size ≤ offset' ∨ offset' + size' ≤ offset
  | .external number, .external number' => number ≠ number'
  | .matrix number, .matrix number' => number ≠ number'
  | _, _ => True

theorem Location.Apart.symm {size size' : Nat} {l l' : Location} (h : l.Apart size size' l') :
    l'.Apart size' size l := by
  rcases l with o | n | n <;> rcases l' with o' | n' | n' <;>
    first | exact Or.symm h | exact Ne.symm h | trivial

def Variable.Apart (v w : Variable) : Prop :=
  ∀ l l', v.location = some l → w.location = some l' → l.Apart v.type.size w.type.size l'

theorem Variable.Apart.symm {v w : Variable} (h : v.Apart w) : w.Apart v :=
  fun l l' hl hl' => (h l' l hl' hl).symm

theorem Variable.apart_of_location_eq_none {v : Variable} (h : v.location = none)
    (w : Variable) : v.Apart w := by
  intro l l' hl
  rw [h] at hl
  cases hl

namespace Layout

structure Sound (y : Layout) : Prop where
  matricesFew : y.matrices.size ≤ Draft.numberLimit
  bindingsFew : y.bindings.size ≤ Draft.numberLimit
  variablesSmall : y.variablesSize < Draft.offsetLimit
  houses : ∀ name v, y.vars.get? name = some v → y.Houses v
  apart : ∀ a b v w, a ≠ b → y.vars.get? a = some v → y.vars.get? b = some w → v.Apart w
  matrixOwner : ∀ number slot x, y.matrices[number]? = some slot → slot.external = some x →
    ∃ name v, y.vars.get? name = some v ∧ v.location = some (.matrix number)
  bindingOwner : ∀ number x, y.bindings[number]? = some x →
    ∃ name v, y.vars.get? name = some v ∧ v.location = some (.external number)

variable {y y' : Layout}

theorem Grows.houses (h : y.Grows y') {v : Variable} (hv : y.Houses v) : y'.Houses v := by
  refine ⟨hv.valid, hv.void, hv.range, fun l hl => ?_⟩
  have hkeeps := hv.keeps l hl
  rcases l with offset | number | number
  · obtain ⟨k, ht, hx, hsize⟩ := hkeeps
    exact ⟨k, ht, hx, Nat.le_trans hsize h.variablesSize_le⟩
  · obtain ⟨k, x, ht, hx, hbinding⟩ := hkeeps
    exact ⟨k, x, ht, hx, h.bindings_getElem? hbinding⟩
  · exact ⟨hkeeps.1, h.matrices_getElem? hkeeps.2⟩

theorem Houses.apart_vacant {u w : Variable} {l : Location} (hu : y.Houses u)
    (hw : w.location = some l) (hl : y.Vacant l) : u.Apart w := by
  intro a b ha hb
  obtain rfl : l = b := Option.some.inj (hw.symm.trans hb)
  have hkeeps := hu.keeps a ha
  rcases a with offset | number | number <;> rcases l with offset' | number' | number' <;>
    try trivial
  · obtain ⟨k, ht, -, hsize⟩ := hkeeps
    left
    rw [ht]
    exact Nat.le_trans hsize hl
  · obtain ⟨k, x, -, -, hx⟩ := hkeeps
    exact Nat.ne_of_lt (Nat.lt_of_lt_of_le (Array.getElem?_eq_some_iff.mp hx).1 hl)
  · exact Nat.ne_of_lt (Nat.lt_of_lt_of_le (Array.getElem?_eq_some_iff.mp hkeeps.2).1 hl)

theorem Houses.housed {v : Variable} {l : Location} (hv : y.Houses v) (ht : v.type ≠ .void)
    (hl : y'.Keeps v l) : y'.Houses (v.housed l) := by
  refine ⟨hv.valid, fun hvoid => absurd hvoid ht, hv.range, fun l' hl' => ?_⟩
  obtain rfl : l = l' := Option.some.inj hl'
  exact hl

theorem Sound.set (hy : y.Sound) (hmove : y.Move y') {v : Variable} (w : Variable)
    (hget : y.vars.get? w.name = some v) (hvars : y'.vars = y.vars.set w)
    (hhouses : y'.Houses w)
    (hplace : w.location = none ∨ ∃ l, w.location = some l ∧ y.Vacant l) :
    (∀ name u, y'.vars.get? name = some u → y'.Houses u) ∧
      ∀ a b u u', a ≠ b → y'.vars.get? a = some u → y'.vars.get? b = some u' → u.Apart u' := by
  have hapart (name : String) (u : Variable) (hu : y.vars.get? name = some u) : u.Apart w := by
    rcases hplace with hnone | ⟨l, hl, hvacant⟩
    · exact (Variable.apart_of_location_eq_none hnone u).symm
    · exact (hy.houses name u hu).apart_vacant hl hvacant
  simp only [hvars, Variables.get?_set hget]
  constructor
  · intro name u hu
    split at hu
    · obtain rfl := Option.some.inj hu
      exact hhouses
    · exact Grows.houses (.single hmove) (hy.houses name u hu)
  · intro a b u u' hab hu hu'
    split at hu <;> split at hu'
    · rename_i ha hb
      exact absurd (ha.trans hb.symm) hab
    · obtain rfl := Option.some.inj hu
      exact (hapart b u' hu').symm
    · obtain rfl := Option.some.inj hu'
      exact hapart a u hu
    · exact hy.apart a b u u' hab hu hu'

theorem Move.sound (h : y.Move y') (hy : y.Sound) : y'.Sound := by
  have hmove := h
  have howner (l : Location) (h' : ∃ name v, y.vars.get? name = some v ∧ v.location = some l) :
      ∃ name v, y'.vars.get? name = some v ∧ v.location = some l := by
    obtain ⟨name, v, hv, hl⟩ := h'
    obtain ⟨w, hw, hbecomes⟩ := hmove.get?_after hv
    exact ⟨name, w, hw, hbecomes.placed l hl⟩
  cases h with
  | @infer v t hget hvoid hvalid =>
      have hloc : v.location = none := ((hy.houses _ v hget).void hvoid).2
      have hhouses : Houses { y with vars := y.vars.set ⟨v.name, t, v.location, none⟩ }
          ⟨v.name, t, v.location, none⟩ := by
        refine ⟨fun _ => hvalid, fun _ => ⟨rfl, hloc⟩, fun _ hx => (by cases hx), fun l hl => ?_⟩
        rw [show v.location = some l from hl] at hloc
        cases hloc
      obtain ⟨hall, hapart⟩ := hy.set hmove ⟨v.name, t, v.location, none⟩ hget rfl hhouses
        (.inl hloc)
      exact ⟨hy.matricesFew, hy.bindingsFew, hy.variablesSmall, hall, hapart,
        fun n slot x hslot hx => howner _ (hy.matrixOwner n slot x hslot hx),
        fun n x hx => howner _ (hy.bindingOwner n x hx)⟩
  | @scalar v k hget hloc ht hx hroom =>
      have hvoid : v.type ≠ .void := by simp [ht]
      have hkeeps : Keeps { y with
          vars := y.vars.set (v.housed (.variable y.variablesSize))
          variablesSize := y.variablesSize + k.size } v (.variable y.variablesSize) :=
        ⟨k, ht, hx, Nat.le_refl _⟩
      obtain ⟨hall, hapart⟩ := hy.set hmove (v.housed (.variable y.variablesSize)) hget rfl
        ((hy.houses _ v hget).housed hvoid hkeeps) (.inr ⟨_, rfl, Nat.le_refl y.variablesSize⟩)
      exact ⟨hy.matricesFew, hy.bindingsFew, hroom, hall, hapart,
        fun n slot x hslot hx => howner _ (hy.matrixOwner n slot x hslot hx),
        fun n x hx => howner _ (hy.bindingOwner n x hx)⟩
  | @external v k x hget hloc ht hx hroom =>
      have hvoid : v.type ≠ .void := by simp [ht]
      have hkeeps : Keeps { y with
          vars := y.vars.set (v.housed (.external y.bindings.size))
          bindings := y.bindings.push x } v (.external y.bindings.size) :=
        ⟨k, x, ht, hx, Array.getElem?_push_size⟩
      obtain ⟨hall, hapart⟩ := hy.set hmove (v.housed (.external y.bindings.size)) hget rfl
        ((hy.houses _ v hget).housed hvoid hkeeps) (.inr ⟨_, rfl, Nat.le_refl y.bindings.size⟩)
      refine ⟨hy.matricesFew, ?_, hy.variablesSmall, hall, hapart,
        fun n slot x hslot hx => howner _ (hy.matrixOwner n slot x hslot hx), fun n x' hx' => ?_⟩
      · rw [Array.size_push]
        exact hroom
      · rw [Array.getElem?_push] at hx'
        split at hx'
        · rename_i hn
          exact ⟨v.name, v.housed (.external y.bindings.size), Variables.get?_set_self hget,
            by rw [hn]; rfl⟩
        · exact howner _ (hy.bindingOwner n x' hx')
  | @matrix v hget hloc ht hroom =>
      have hvoid : v.type ≠ .void := by
        intro hv
        rw [hv] at ht
        cases ht
      have hkeeps : Keeps { y with
          vars := y.vars.set (v.housed (.matrix y.matrices.size))
          matrices := y.matrices.push ⟨v.type, v.external⟩ } v (.matrix y.matrices.size) :=
        ⟨ht, Array.getElem?_push_size⟩
      obtain ⟨hall, hapart⟩ := hy.set hmove (v.housed (.matrix y.matrices.size)) hget rfl
        ((hy.houses _ v hget).housed hvoid hkeeps) (.inr ⟨_, rfl, Nat.le_refl y.matrices.size⟩)
      refine ⟨?_, hy.bindingsFew, hy.variablesSmall, hall, hapart, fun n slot x hslot hx => ?_,
        fun n x hx => howner _ (hy.bindingOwner n x hx)⟩
      · rw [Array.size_push]
        exact hroom
      · rw [Array.getElem?_push] at hslot
        split at hslot
        · rename_i hn
          exact ⟨v.name, v.housed (.matrix y.matrices.size), Variables.get?_set_self hget,
            by rw [hn]; rfl⟩
        · exact howner _ (hy.matrixOwner n slot x hslot hx)
  | @temporary t hroom =>
      have hhouses {v : Variable} (hv : y.Houses v) := Grows.houses (.single hmove) hv
      refine ⟨?_, hy.bindingsFew, hy.variablesSmall, fun name v hv => hhouses (hy.houses name v hv),
        hy.apart, fun n slot x hslot hx => ?_, hy.bindingOwner⟩
      · rw [Array.size_push]
        exact hroom
      · rw [Array.getElem?_push] at hslot
        split at hslot
        · obtain rfl := Option.some.inj hslot
          cases hx
        · exact hy.matrixOwner n slot x hslot hx

theorem Grows.sound (h : y.Grows y') (hy : y.Sound) : y'.Sound := by
  induction h with
  | refl => exact hy
  | tail _ hmove ih => exact hmove.sound ih

def Names (y : Layout) (number : Nat) : Prop :=
  ∃ name v, y.vars.get? name = some v ∧ v.location = some (.matrix number)

theorem Grows.names_iff (h : y.Grows y') {number : Nat} (hlt : number < y.matrices.size) :
    y'.Names number ↔ y.Names number := by
  constructor
  · rintro ⟨name, w, hw, hloc⟩
    obtain ⟨v, hv, hl⟩ := h.get?_before hw hloc hlt
    exact ⟨name, v, hv, hl⟩
  · rintro ⟨name, v, hv, hloc⟩
    obtain ⟨w, hw, hbecomes⟩ := h.get?_after hv
    exact ⟨name, w, hw, hbecomes.placed _ hloc⟩

theorem Sound.lt_of_names (hy : y.Sound) {number : Nat} (h : y.Names number) :
    number < y.matrices.size := by
  obtain ⟨name, v, hv, hloc⟩ := h
  have hkeeps := (hy.houses name v hv).keeps _ hloc
  exact (Array.getElem?_eq_some_iff.mp hkeeps.2).1

structure Assigns (y y' : Layout) : Prop where
  grows : y.Grows y'
  named : ∀ number, y.matrices.size ≤ number → number < y'.matrices.size → y'.Names number

namespace Assigns

theorem refl (y : Layout) : y.Assigns y :=
  ⟨.refl, fun _ hle hlt => absurd hlt (Nat.not_lt.mpr hle)⟩

theorem of_size_eq (h : y.Grows y') (hsize : y'.matrices.size = y.matrices.size) :
    y.Assigns y' :=
  ⟨h, fun _ hle hlt => absurd (hsize ▸ hlt) (Nat.not_lt.mpr hle)⟩

theorem trans {y'' : Layout} (h : y.Assigns y') (h' : y'.Assigns y'') : y.Assigns y'' := by
  refine ⟨h.grows.trans h'.grows, fun number hle hlt => ?_⟩
  by_cases hold : number < y'.matrices.size
  · exact (h'.grows.names_iff hold).mpr (h.named number hle hold)
  · exact h'.named number (Nat.not_lt.mp hold) hlt

end Assigns

theorem sound_start {vs : Variables} (hvs : vs.Fresh) : (Draft.start vs).layout.Sound where
  matricesFew := Nat.zero_le _
  bindingsFew := Nat.zero_le _
  variablesSmall := show 0 < Draft.offsetLimit by decide
  houses name v hv := by
    have hfresh := hvs name v hv
    refine ⟨hfresh.valid, fun hvoid => ⟨hfresh.void hvoid, hfresh.location⟩, hfresh.range, ?_⟩
    intro l hl
    rw [hfresh.location] at hl
    cases hl
  apart a b v w _ hv _ := Variable.apart_of_location_eq_none (hvs a v hv).location w
  matrixOwner n slot x hslot _ := by cases hslot
  bindingOwner n x hx := by cases hx

end Layout

end FormulaMachine
