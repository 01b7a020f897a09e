import FormulaMachine.Proofs.Compiler.Layout

namespace FormulaMachine

namespace Variables

theorem replace_self {v : Variable} {ws : List Variable}
    (h : ws.find? (·.name == v.name) = some v) : replace v ws = ws := by
  induction ws with
  | nil => rfl
  | cons w ws ih =>
      rw [replace]
      split
      · rename_i hw
        obtain rfl : w = v := by simpa [hw] using h
        rfl
      · rename_i hw
        rw [ih (by simpa [hw] using h)]

theorem set_self {vs : Variables} {v : Variable} (h : vs.get? v.name = some v) :
    vs.set v = vs := by
  rw [get?, List.find?_append] at h
  unfold set
  split
  · rename_i hout
    have hsome : (vs.outputs.find? (·.name == v.name)).isSome := by
      simpa [List.find?_isSome] using hout
    obtain ⟨w, hw⟩ := Option.isSome_iff_exists.mp hsome
    rw [hw, Option.some_or] at h
    rw [replace_self (hw.trans h)]
  · rename_i hout
    have hnone : vs.outputs.find? (·.name == v.name) = none := by
      simpa [List.find?_eq_none] using hout
    rw [hnone, Option.none_or] at h
    rw [replace_self h]

end Variables

namespace Draft

variable {o : CompileOptions} {line : Nat} {d d' : Draft}

def withLayout (d : Draft) (y : Layout) : Draft :=
  { d with
    vars := y.vars
    variablesSize := y.variablesSize
    matrices := y.matrices
    bindings := y.bindings }

def withStack (d : Draft) (stack : Stack Slot) : Draft :=
  { d with stack := stack }

def withConstant {k : Kind} (d : Draft) (x : Scalar k) (literal : Literal) : Draft :=
  { d with
    constants := d.constants ++ x.bytes.toArray
    literals := (d.constants.size % offsetLimit, literal) :: d.literals }

def pushed (d : Draft) (s : Slot) : Draft :=
  { d with stack := d.stack.push s, maxDepth := max d.maxDepth (d.stack.depth + 1) }

theorem push_eq_ok {limit : Option Nat} {s : Slot} (h : d.push limit line s = .ok d') :
    d' = d.pushed s := by
  unfold push at h
  dsimp only at h
  split at h
  · exact (Except.ok.inj h).symm
  · split at h
    · cases h
    · exact (Except.ok.inj h).symm

theorem addMatrix_eq_ok {t : DataType} {external : Option External} {number : Nat}
    (h : d.addMatrix t external = .ok (number, d')) :
    number = d.matrices.size ∧ d.matrices.size < numberLimit ∧
      d' = { d with matrices := d.matrices.push ⟨t, external⟩ } := by
  unfold addMatrix at h
  split at h
  · rename_i hroom
    obtain ⟨hnumber, hd⟩ := Prod.mk.inj (Except.ok.inj h)
    exact ⟨hnumber.symm, hroom, hd.symm⟩
  · cases h

theorem allocate_eq_ok {v : Variable} {l : Location} (hget : d.vars.get? v.name = some v)
    (ht : v.type ≠ .void) (h : d.allocate v = .ok (l, d')) :
    ∃ y, d' = d.withLayout y ∧ d.layout.Assigns y ∧ y.vars.get? v.name = some (v.housed l) := by
  unfold allocate at h
  split at h
  · rename_i l' hloc
    obtain ⟨rfl, rfl⟩ := Prod.mk.inj (Except.ok.inj h)
    refine ⟨d.layout, rfl, .refl _, hget.trans ?_⟩
    rw [Variable.housed, ← hloc]
  rename_i hloc
  split at h
  · rename_i hmatrix
    split at h
    · cases h
    rename_i number d₁ hadd
    obtain ⟨rfl, hroom, rfl⟩ := addMatrix_eq_ok hadd
    obtain ⟨rfl, rfl⟩ := Prod.mk.inj (Except.ok.inj h)
    have hself := Variables.get?_set_self (v := v.housed (.matrix d.matrices.size)) hget
    refine ⟨_, rfl, ⟨.single (.matrix hget hloc hmatrix hroom), fun number hle hlt => ?_⟩, hself⟩
    have hsucc : number < d.matrices.size + 1 :=
      Nat.lt_of_lt_of_eq hlt (Array.size_push _)
    obtain rfl : number = d.matrices.size := Nat.le_antisymm (Nat.le_of_lt_succ hsucc) hle
    exact ⟨v.name, _, hself, rfl⟩
  rename_i hmatrix
  obtain ⟨k, hk⟩ : ∃ k, v.type = .scalar k := by
    cases hv : v.type with
    | void => exact absurd hv ht
    | scalar k => exact ⟨k, rfl⟩
    | matrix k rows cols =>
        rw [hv] at hmatrix
        exact absurd rfl hmatrix
  split at h
  · rename_i x hx
    split at h
    · rename_i hroom
      obtain ⟨rfl, rfl⟩ := Prod.mk.inj (Except.ok.inj h)
      exact ⟨_, rfl, .of_size_eq (.single (.external hget hloc hk hx hroom)) rfl,
        Variables.get?_set_self (v := v.housed (.external d.bindings.size)) hget⟩
    · cases h
  · rename_i hx
    split at h
    · rename_i hroom
      rw [hk] at h hroom
      obtain ⟨rfl, rfl⟩ := Prod.mk.inj (Except.ok.inj h)
      exact ⟨_, rfl, .of_size_eq (.single (.scalar hget hloc hk hx hroom)) rfl,
        Variables.get?_set_self (v := v.housed (.variable d.variablesSize)) hget⟩
    · cases h

theorem read_eq_ok {name : String} (h : read o line d name = .ok d') :
    ∃ (v : Variable) (l : Location) (y : Layout), d.vars.get? name = some v ∧ v.type ≠ .void ∧
      d.layout.Assigns y ∧ y.vars.get? name = some (v.housed l) ∧
      d' = ((d.withLayout y).emit line (loadOpcode (elementKind v.type) l) [] (some v.type)
        none).pushed ⟨v.type, matrixNumber? l⟩ := by
  unfold read at h
  split at h
  · cases h
  rename_i v hv
  obtain rfl := Variables.name_of_get? hv
  split at h
  · cases h
  rename_i ht
  split at h
  · cases h
  rename_i l d₁ halloc
  obtain ⟨y, rfl, hassigns, hy⟩ := allocate_eq_ok hv ht halloc
  exact ⟨v, l, y, hv, ht, hassigns, hy, push_eq_ok h⟩

theorem const_eq_ok {typeName : Option String} {literal : String}
    (h : const o line d typeName literal = .ok d') :
    ∃ k x, literalKind o line typeName = .ok k ∧ Scalar.read? k literal.toList = some x ∧
      d' = ((d.withConstant x ⟨literal, typeName⟩).emit line
        (.loadConstant (d.constants.size % offsetLimit) k) [] (some (.scalar k)) none).pushed
          ⟨.scalar k, none⟩ := by
  unfold const at h
  split at h
  · cases h
  rename_i k hk
  split at h
  · cases h
  rename_i x hx
  exact ⟨k, x, hk, hx, push_eq_ok h⟩

theorem cast_eq_ok {typeName : String} (h : cast o line d typeName = .ok d') :
    ∃ (t : DataType) (s : Slot) (rest : List Slot), DataType.read typeName = .ok t ∧
      d.stack.slots = s :: rest ∧ s.type.convertsTo t ∧
      d' = ((d.withStack (d.stack.drop 1)).emit line
        (.cast (elementKind s.type) (elementKind t) 0 false) [s.type] (some t)
        (some typeName)).pushed ⟨t, s.source⟩ := by
  unfold cast at h
  split at h
  · cases h
  rename_i t ht
  split at h
  · cases h
  rename_i s rest hslots
  split at h
  · rename_i hconverts
    exact ⟨t, s, rest, ht, hslots, hconverts, push_eq_ok h⟩
  · cases h

theorem inferType_eq_ok {v w : Variable} {t : DataType} (hget : d.vars.get? v.name = some v)
    (h : inferType v t = .ok w) :
    w.name = v.name ∧ w.type ≠ .void ∧ (w.type = if v.type = .void then t else v.type) ∧
      d.layout.Assigns { d.layout with vars := d.vars.set w } := by
  unfold inferType at h
  split at h
  · rename_i hvoid
    obtain ⟨-, hvalid, rfl, -⟩ := Variable.bind_eq_ok h
    refine ⟨rfl, fun ht => ?_, (if_pos hvoid).symm,
      .of_size_eq (.single (.infer hget hvoid hvalid)) rfl⟩
    rw [show t = .void from ht] at hvalid
    cases hvalid
  · rename_i hvoid
    obtain rfl := Except.ok.inj h
    refine ⟨rfl, hvoid, (if_neg hvoid).symm, ?_⟩
    rw [Variables.set_self hget]
    exact .refl _

def Converts (line : Nat) (s t : DataType) (d d' : Draft) : Prop :=
  (s = t ∧ d' = d) ∨ ∃ j k, s = .scalar j ∧ t = .scalar k ∧
    d' = d.emit line (.cast j k 0 true) [.scalar j] (some (.scalar k)) none

theorem convertForWrite_eq_ok {name : String} {s t : DataType}
    (h : convertForWrite line name s t d = .ok d') : Converts line s t d d' := by
  unfold convertForWrite at h
  split at h
  · rename_i hst
    exact .inl ⟨hst, (Except.ok.inj h).symm⟩
  · split at h
    · rename_i j k _
      exact .inr ⟨j, k, rfl, rfl, (Except.ok.inj h).symm⟩
    · cases h

theorem write_eq_ok {name : String} (h : write line d name = .ok d') :
    ∃ (s : Slot) (rest : List Slot) (v w : Variable) (l : Location) (y : Layout) (d₁ d₂ : Draft),
      d.stack.slots = s :: rest ∧ d.vars.get? name = some v ∧
      w.type ≠ .void ∧ (w.type = if v.type = .void then s.type else v.type) ∧
      d.layout.Assigns y ∧ y.vars.get? name = some (w.housed l) ∧
      Converts line s.type w.type ((d.withStack (d.stack.drop 1)).withLayout y) d₁ ∧
      detachTarget line d₁ l = .ok d₂ ∧
      d' = d₂.emit line (storeOpcode (elementKind w.type) l) [w.type] none none := by
  unfold write at h
  split at h
  · cases h
  rename_i s rest hslots
  dsimp only at h
  split at h
  · cases h
  rename_i v hv
  obtain rfl := Variables.name_of_get? hv
  obtain ⟨w, hw, h⟩ := bind_eq_ok h
  obtain ⟨⟨l, d₁⟩, halloc, h⟩ := bind_eq_ok h
  obtain ⟨d₂, hconvert, h⟩ := bind_eq_ok h
  obtain ⟨d₃, hdetach, h⟩ := bind_eq_ok h
  obtain ⟨hname, ht, htype, hinfer⟩ := inferType_eq_ok hv hw
  have hget : (d.vars.set w).get? w.name = some w :=
    Variables.get?_set_self (v := w) (hname ▸ hv)
  obtain ⟨y, rfl, hassigns, hy⟩ := allocate_eq_ok hget ht halloc
  exact ⟨s, rest, v, w, l, y, d₂, d₃, hslots, hv, ht, htype, hinfer.trans hassigns, hname ▸ hy,
    convertForWrite_eq_ok hconvert, hdetach, (Except.ok.inj h).symm⟩

theorem operationOpcode_eq_ok {r : Resolution} {opcode : Opcode}
    (h : d.operationOpcode r = .ok (opcode, d')) :
    (∃ kernel k, r.operation = .scalar kernel k ∧ opcode = .scalar kernel k ∧ d' = d) ∨
      ∃ op, r.operation = .matrix op ∧ opcode = .matrix op d.matrices.size ∧
        d.matrices.size < numberLimit ∧
        d' = { d with matrices := d.matrices.push ⟨r.output, none⟩ } := by
  unfold operationOpcode at h
  split at h
  · rename_i kernel k hop
    obtain ⟨rfl, rfl⟩ := Prod.mk.inj (Except.ok.inj h)
    exact .inl ⟨kernel, k, hop, rfl, rfl⟩
  · rename_i op hop
    split at h
    · cases h
    rename_i number d₁ hadd
    obtain ⟨rfl, hroom, rfl⟩ := addMatrix_eq_ok hadd
    obtain ⟨rfl, rfl⟩ := Prod.mk.inj (Except.ok.inj h)
    exact .inr ⟨op, hop, rfl, hroom, rfl⟩

theorem operator_eq_ok {name : String} (h : operator o line d name = .ok d') :
    ∃ (kernel : Kernel) (r : Resolution) (opcode : Opcode) (d₁ : Draft) (spelling : Option String),
      Kernel.ofName? name = some kernel ∧
      kernel.arity ≤ d.stack.slots.length ∧
      kernel.resolve o.implicitCasts ((d.stack.slots.take kernel.arity).map Slot.type).reverse =
        .ok r ∧
      (r.widenings.foldl (widen line) d).operationOpcode r = .ok (opcode, d₁) ∧
      d' = ((d₁.emit line opcode r.inputs (some r.output) spelling).withStack
        (d₁.stack.drop kernel.arity)).pushed ⟨r.output, none⟩ := by
  unfold operator at h
  split at h
  · cases h
  rename_i kernel hkernel
  split at h
  · cases h
  rename_i harity
  obtain ⟨r, hr, h⟩ := bind_eq_ok h
  obtain ⟨⟨opcode, d₁⟩, hop, h⟩ := bind_eq_ok h
  exact ⟨kernel, r, opcode, d₁, _, hkernel, by rw [← d.stack.depth_eq]; omega,
    mapError_eq_ok hr, hop, push_eq_ok h⟩

structure Extends (d d' : Draft) : Prop where
  code : d.code.toList <+: d'.code.toList
  constants : d.constants.toList <+: d'.constants.toList
  layout : d.layout.Grows d'.layout
  maxDepth : d.maxDepth ≤ d'.maxDepth

namespace Extends

theorem refl (d : Draft) : d.Extends d :=
  ⟨List.prefix_rfl, List.prefix_rfl, .refl, Nat.le_refl _⟩

theorem trans {d₁ d₂ d₃ : Draft} (h : d₁.Extends d₂) (h' : d₂.Extends d₃) : d₁.Extends d₃ :=
  ⟨h.code.trans h'.code, h.constants.trans h'.constants, h.layout.trans h'.layout,
    Nat.le_trans h.maxDepth h'.maxDepth⟩

theorem emit (d : Draft) (line : Nat) (opcode : Opcode) (inputs : List DataType)
    (output : Option DataType) (spelling : Option String) :
    d.Extends (d.emit line opcode inputs output spelling) :=
  ⟨by simp [Draft.emit], List.prefix_rfl, .refl, Nat.le_refl _⟩

theorem pushed (d : Draft) (s : Slot) : d.Extends (d.pushed s) :=
  ⟨List.prefix_rfl, List.prefix_rfl, .refl, Nat.le_max_left _ _⟩

theorem withStack (d : Draft) (stack : Stack Slot) : d.Extends (d.withStack stack) :=
  ⟨List.prefix_rfl, List.prefix_rfl, .refl, Nat.le_refl _⟩

theorem withLayout {d : Draft} {y : Layout} (h : d.layout.Grows y) : d.Extends (d.withLayout y) :=
  ⟨List.prefix_rfl, List.prefix_rfl, h, Nat.le_refl _⟩

theorem addMatrix {d : Draft} {t : DataType} (h : d.matrices.size < numberLimit) :
    d.Extends { d with matrices := d.matrices.push ⟨t, none⟩ } :=
  ⟨List.prefix_rfl, List.prefix_rfl, .single (.temporary h), Nat.le_refl _⟩

end Extends

theorem detachSlot_eq_ok {depth : Nat} {s s' : Slot}
    (h : detachSlot line depth s d = .ok (s', d')) :
    depth < numberLimit ∧ d.matrices.size < numberLimit ∧ s' = ⟨s.type, none⟩ ∧
      d' = ({ d with matrices := d.matrices.push ⟨s.type, none⟩ } : Draft).emit line
        (.copyMatrix depth d.matrices.size) [s.type] (some s.type) none := by
  unfold detachSlot at h
  split at h
  · cases h
  rename_i hdepth
  split at h
  · cases h
  rename_i number d₁ hadd
  obtain ⟨rfl, hroom, rfl⟩ := addMatrix_eq_ok hadd
  obtain ⟨rfl, rfl⟩ := Prod.mk.inj (Except.ok.inj h)
  exact ⟨by omega, hroom, rfl, rfl⟩

theorem detachSlots_cons_eq_ok {number depth : Nat} {s : Slot} {slots slots' : List Slot}
    (h : detachSlots line number depth (s :: slots) d = .ok (slots', d')) :
    ∃ slots₁ d₁, detachSlots line number (depth + 1) slots d = .ok (slots₁, d₁) ∧
      ((s.source ≠ some number ∧ slots' = s :: slots₁ ∧ d' = d₁) ∨
        ∃ s', s.source = some number ∧ detachSlot line depth s d₁ = .ok (s', d') ∧
          slots' = s' :: slots₁) := by
  unfold detachSlots at h
  obtain ⟨⟨slots₁, d₁⟩, hrest, h⟩ := bind_eq_ok h
  refine ⟨slots₁, d₁, hrest, ?_⟩
  dsimp only at h
  split at h
  · rename_i hsource
    obtain ⟨⟨s', d₂⟩, hs, h⟩ := bind_eq_ok h
    obtain ⟨rfl, rfl⟩ := Prod.mk.inj (Except.ok.inj h)
    exact .inr ⟨s', hsource, hs, rfl⟩
  · rename_i hsource
    obtain ⟨rfl, rfl⟩ := Prod.mk.inj (Except.ok.inj h)
    exact .inl ⟨hsource, rfl, rfl⟩

theorem detachSlots_extends {number depth : Nat} {slots slots' : List Slot}
    (h : detachSlots line number depth slots d = .ok (slots', d')) : d.Extends d' := by
  induction slots generalizing depth slots' d' with
  | nil =>
      obtain ⟨-, rfl⟩ := Prod.mk.inj (Except.ok.inj h)
      exact .refl _
  | cons s slots ih =>
      obtain ⟨slots₁, d₁, hrest, ⟨-, -, rfl⟩ | ⟨s', -, hs, -⟩⟩ := detachSlots_cons_eq_ok h
      · exact ih hrest
      · obtain ⟨-, hroom, -, rfl⟩ := detachSlot_eq_ok hs
        exact (ih hrest).trans ((Extends.addMatrix hroom).trans (.emit ..))

theorem detachTarget_eq_ok {l : Location} (h : detachTarget line d l = .ok d') :
    ((∀ number, l ≠ .matrix number) ∧ d' = d) ∨ ∃ number slots d₁, l = .matrix number ∧
      detachSlots line number 1 d.stack.slots d = .ok (slots, d₁) ∧
      d' = d₁.withStack (.ofList slots) := by
  unfold detachTarget at h
  split at h
  · rename_i number
    obtain ⟨⟨slots, d₁⟩, hslots, h⟩ := bind_eq_ok h
    exact .inr ⟨number, slots, d₁, rfl, hslots, (Except.ok.inj h).symm⟩
  · rename_i hl
    exact .inl ⟨hl, (Except.ok.inj h).symm⟩

theorem widen_extends (line : Nat) (ws : List Widening) (d : Draft) :
    d.Extends (ws.foldl (widen line) d) := by
  induction ws generalizing d with
  | nil => exact .refl _
  | cons w ws ih => exact ((Extends.emit ..).trans (.withStack _ _)).trans (ih _)

theorem Converts.extends {s t : DataType} (h : Converts line s t d d') : d.Extends d' := by
  rcases h with ⟨-, rfl⟩ | ⟨j, k, -, -, rfl⟩
  · exact .refl _
  · exact .emit ..

theorem instruction_extends {i : Postfix.Instruction} (h : instruction o line d i = .ok d') :
    d.Extends d' := by
  cases i with
  | read name =>
      obtain ⟨v, l, y, -, -, ⟨hgrows, -⟩, -, rfl⟩ := read_eq_ok h
      exact (Extends.withLayout hgrows).trans ((Extends.emit ..).trans (.pushed ..))
  | write name =>
      obtain ⟨s, rest, v, w, l, y, d₁, d₂, -, -, -, -, ⟨hgrows, -⟩, -, hconvert, hdetach, rfl⟩ :=
        write_eq_ok h
      refine .trans ?_ (.emit ..)
      have hstart : d.Extends ((d.withStack (d.stack.drop 1)).withLayout y) :=
        (Extends.withStack d _).trans (.withLayout hgrows)
      refine (hstart.trans hconvert.extends).trans ?_
      rcases detachTarget_eq_ok hdetach with ⟨-, rfl⟩ | ⟨number, slots, d₃, -, hslots, rfl⟩
      · exact .refl _
      · exact (detachSlots_extends hslots).trans (.withStack _ _)
  | const typeName literal =>
      obtain ⟨k, x, -, -, rfl⟩ := const_eq_ok h
      refine .trans ?_ ((Extends.emit ..).trans (.pushed ..))
      exact ⟨List.prefix_rfl, by simp [withConstant], .refl, Nat.le_refl _⟩
  | cast typeName =>
      obtain ⟨t, s, rest, -, -, -, rfl⟩ := cast_eq_ok h
      exact (Extends.withStack d _).trans ((Extends.emit ..).trans (.pushed ..))
  | operator name =>
      obtain ⟨kernel, r, opcode, d₁, spelling, -, -, -, hop, rfl⟩ := operator_eq_ok h
      refine (widen_extends line r.widenings d).trans ?_
      refine .trans ?_ ((Extends.emit ..).trans ((Extends.withStack _ _).trans (.pushed ..)))
      rcases operationOpcode_eq_ok hop with ⟨kernel, k, -, -, rfl⟩ | ⟨op, -, -, hroom, rfl⟩
      · exact .refl _
      · exact .addMatrix hroom

end Draft

end FormulaMachine
