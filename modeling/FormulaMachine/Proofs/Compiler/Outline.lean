import FormulaMachine.Proofs.Compiler.Placement
import FormulaMachine.Proofs.Postfix.Interpretation
import FormulaMachine.Proofs.Reference.Interpreter
import Mathlib.Algebra.GroupWithZero.Nat

namespace FormulaMachine

abbrev Room := Demand × Nat

abbrev Outline := Postfix.Interpretation.State (DataType × Option External) DataType Room

namespace Outline

def pushed? (o : CompileOptions) (t : DataType) (stack : List DataType) (m : Room) :
    Option (List DataType × Room) :=
  if ∀ limit ∈ o.maxStackDepth, stack.length < limit then some (t :: stack, m) else none

def assigned? (s : DataType) : DataType × Option External → Option (DataType × Option External)
  | (.void, _) => if s.isValid then some (s, none) else none
  | (t, x) => if s.convertsTo t then some (t, x) else none

def made : Operation → Demand
  | .scalar .. => 0
  | .matrix _ => ⟨1, 0, 0⟩

def operate (o : CompileOptions) :
    Postfix.Instruction → List DataType → Option (List DataType × Room)
  | .const typeName literal, stack =>
      (Reference.literalKind? o typeName).bind fun k =>
        (Scalar.read? k literal.toList).bind fun _ => pushed? o (.scalar k) stack (0, k.size)
  | .cast typeName, s :: stack =>
      (DataType.read typeName).toOption.bind fun t =>
        if s.convertsTo t then pushed? o t stack 0 else none
  | .operator name, stack =>
      (Kernel.ofName? name).bind fun kernel =>
        if stack.length < kernel.arity then none
        else (kernel.resolve o.implicitCasts (stack.take kernel.arity).reverse).toOption.bind
          fun r => pushed? o r.output (stack.drop kernel.arity) (made r.operation, 0)
  | _, _ => none

theorem length_of_pushed? {o : CompileOptions} {t : DataType} {stack : List DataType} {m : Room}
    {r : List DataType × Room} (h : pushed? o t stack m = some r) :
    r.1.length = stack.length + 1 := by
  obtain ⟨-, h⟩ := Option.ite_none_right_eq_some.mp h
  obtain rfl := Option.some.inj h
  rfl

theorem operate_depth {o : CompileOptions} {i : Postfix.Instruction} {stack : List DataType}
    {r : List DataType × Room} (h : operate o i stack = some r) :
    i.depthAfter? stack.length = some r.1.length := by
  cases i with
  | read name => cases h
  | write name => cases h
  | const typeName literal =>
      obtain ⟨k, -, h⟩ := Option.bind_eq_some_iff.mp h
      obtain ⟨x, -, h⟩ := Option.bind_eq_some_iff.mp h
      exact congrArg some (length_of_pushed? h).symm
  | cast typeName =>
      cases stack with
      | nil => cases h
      | cons s stack =>
          obtain ⟨t, -, h⟩ := Option.bind_eq_some_iff.mp h
          obtain ⟨-, h⟩ := Option.ite_none_right_eq_some.mp h
          rw [length_of_pushed? h]
          rfl
  | operator name =>
      obtain ⟨kernel, hname, h⟩ := Option.bind_eq_some_iff.mp h
      obtain ⟨harity, h⟩ := Option.ite_none_left_eq_some.mp h
      obtain ⟨r', -, h⟩ := Option.bind_eq_some_iff.mp h
      rw [length_of_pushed? h, List.length_drop]
      simp only [Postfix.Instruction.depthAfter?, hname, if_pos (Nat.le_of_not_lt harity)]

end Outline

def outline (o : CompileOptions) :
    Postfix.Interpretation (DataType × Option External) DataType Room where
  load b stack := if b.1 = .void then none else Outline.pushed? o b.1 stack 0
  store b
    | [] => none
    | s :: stack => (Outline.assigned? s b).map fun b' => (b', stack, 0)
  operate := Outline.operate o
  load_length h := Outline.length_of_pushed? (Option.ite_none_left_eq_some.mp h).2
  store_length {b stack r} h := by
    cases stack with
    | nil => cases h
    | cons s stack =>
        obtain ⟨b', -, rfl⟩ := Option.map_eq_some_iff.mp h
        rfl
  operate_length := Outline.operate_depth

namespace Draft

structure Outlines (xs : List String) (d : Draft) (σ : Outline) : Prop where
  names : d.vars.names = xs
  vars : ∀ x, σ.vars x = (d.vars.get? x).map Variable.bound
  unplaced : ∀ x v, d.vars.get? x = some v → v.type = .void → v.location = none
  stack : σ.stack = d.stack.slots.map Slot.type
  demand : d.demand = d.vars.allotted + σ.cost.1
  constants : d.constants.size = σ.cost.2

namespace Outlines

variable {xs : List String} {d : Draft} {σ : Outline}

theorem set {v w : Variable} (h : d.Outlines xs σ) (hv : d.vars.get? w.name = some v)
    (hnone : v.location = none) (hw : w.type = .void → w.location = none) (y : Layout)
    (hy : y.vars = d.vars.set w) (hdemand : (d.withLayout y).demand = d.demand + w.allotted) :
    (d.withLayout y).Outlines xs
      ⟨Function.update σ.vars w.name (some w.bound), σ.stack, σ.cost⟩ where
  names := by
    change y.vars.names = xs
    rw [hy, Variables.names_set, h.names]
  vars x := by
    change Function.update σ.vars w.name (some w.bound) x = (y.vars.get? x).map Variable.bound
    rw [hy, Variables.get?_set hv]
    by_cases hx : x = w.name
    · rw [if_pos hx, hx, Function.update_self]
      rfl
    · rw [if_neg hx, Function.update_of_ne hx, h.vars]
  unplaced x u hu ht := by
    change y.vars.get? x = some u at hu
    rw [hy, Variables.get?_set hv] at hu
    split at hu
    · obtain rfl := Option.some.inj hu
      exact hw ht
    · exact h.unplaced x u hu ht
  stack := h.stack
  demand := by
    change _ = y.vars.allotted + _
    rw [hdemand, h.demand, hy, Variables.allotted_set hv hnone, add_right_comm]
  constants := h.constants

theorem restack (h : d.Outlines xs σ) {d' : Draft} {types : List DataType}
    (hlayout : d'.layout = d.layout) (hconstants : d'.constants = d.constants)
    (hstack : types = d'.stack.slots.map Slot.type) :
    d'.Outlines xs ⟨σ.vars, types, σ.cost⟩ := by
  have hvars : d'.vars = d.vars := congrArg Layout.vars hlayout
  have hdemand : d'.demand = d.demand :=
    congrArg (fun y : Layout => Demand.mk y.matrices.size y.bindings.size y.variablesSize) hlayout
  refine ⟨?_, ?_, ?_, hstack, ?_, ?_⟩
  · rw [hvars, h.names]
  · rw [hvars]
    exact h.vars
  · rw [hvars]
    exact h.unplaced
  · rw [hvars, hdemand, h.demand]
  · rw [hconstants, h.constants]

theorem depth_eq (h : d.Outlines xs σ) : d.stack.depth = σ.stack.length := by
  rw [d.stack.depth_eq, h.stack, List.length_map]

end Outlines

structure Begun (xs : List String) (d : Draft) (σ : Outline) : Prop where
  outlines : d.Outlines xs σ
  code : d.code.size ≠ 0

end Draft

namespace Unbounded

open Draft Outline

section Place

variable (d : Draft) {v : Variable}

theorem allocate_of_unplaced (hnone : v.location = none) :
    ∃ l y, allocate d v = (l, d.withLayout y) ∧ y.vars = d.vars.set (v.housed l) ∧
      (d.withLayout y).demand = d.demand + share v.bound := by
  unfold allocate
  rw [hnone]
  dsimp only
  split
  · rename_i hmatrix
    refine ⟨.matrix d.matrices.size, { d.layout with
        vars := d.vars.set (v.housed (.matrix d.matrices.size))
        matrices := d.matrices.push ⟨v.type, v.external⟩ }, rfl, rfl, ?_⟩
    rw [Variable.share_of_isMatrix hmatrix]
    exact Demand.eq_of_parts (Array.size_push _) rfl rfl
  rename_i hmatrix
  split
  · rename_i x hx
    refine ⟨.external d.bindings.size, { d.layout with
        vars := d.vars.set (v.housed (.external d.bindings.size))
        bindings := d.bindings.push x }, rfl, rfl, ?_⟩
    rw [Variable.share_of_external hmatrix hx]
    exact Demand.eq_of_parts rfl (Array.size_push _) rfl
  · rename_i hx
    refine ⟨.variable d.variablesSize, { d.layout with
        vars := d.vars.set (v.housed (.variable d.variablesSize))
        variablesSize := d.variablesSize + v.type.size }, rfl, rfl, ?_⟩
    rw [Variable.share_of_owned hmatrix hx]
    exact Demand.eq_of_parts rfl rfl rfl

end Place

variable {o : CompileOptions} {line : Nat} {xs : List String} {d : Draft} {σ : Outline}

theorem allocate_outlines {v : Variable} (h : d.Outlines xs σ)
    (hv : d.vars.get? v.name = some v) (ht : v.type ≠ .void) :
    ∃ l y, allocate d v = (l, d.withLayout y) ∧ (d.withLayout y).Outlines xs σ ∧
      y.vars = d.vars.set (v.housed l) := by
  cases hloc : v.location with
  | some l =>
      have hself : v.housed l = v := by rw [Variable.housed, ← hloc]
      refine ⟨l, d.layout, by rw [allocate, hloc]; rfl, h, ?_⟩
      rw [hself, Variables.set_self hv]
      rfl
  | none =>
      obtain ⟨l, y, hallocate, hy, hdemand⟩ := allocate_of_unplaced d hloc
      refine ⟨l, y, hallocate, ?_, hy⟩
      have hset := h.set (w := v.housed l) hv hloc (fun hvoid => absurd hvoid ht) y hy hdemand
      have hsame : Function.update σ.vars v.name (some v.bound) = σ.vars := by
        rw [Function.update_eq_self_iff, h.vars, hv]
        rfl
      change (d.withLayout y).Outlines xs
        ⟨Function.update σ.vars v.name (some v.bound), σ.stack, σ.cost⟩ at hset
      rwa [hsame] at hset

section Instructions

theorem push_mirrors {s : Slot} {stack : List DataType} {m : Room} {opcode : Opcode}
    {inputs : List DataType} {output : Option DataType} {spelling : Option String}
    (h : d.Outlines xs ⟨σ.vars, stack, σ.cost + m⟩) :
    Mirrors (Begun xs)
      ((d.emit line opcode inputs output spelling).push o.maxStackDepth line s)
      ((pushed? o s.type stack m).map σ.after) := by
  have hstack : stack = d.stack.slots.map Slot.type := h.stack
  have hdepth : d.stack.depth = stack.length := h.depth_eq
  have hbegun : Begun xs ((d.emit line opcode inputs output spelling).pushed s)
      (σ.after (s.type :: stack, m)) := by
    refine ⟨h.restack rfl rfl ?_, ?_⟩
    · rw [hstack]
      rfl
    · simp [Draft.pushed, Draft.emit]
  unfold push pushed?
  cases o.maxStackDepth with
  | none =>
      rw [if_pos fun limit hlimit => (by cases hlimit)]
      exact .ok hbegun
  | some limit =>
      have hlimit : (∀ l ∈ some limit, stack.length < l) ↔ stack.length < limit := by simp
      simp only [hlimit]
      change Mirrors _ (if limit < d.stack.depth + 1 then _ else _) _
      rw [hdepth]
      by_cases hroom : stack.length < limit
      · rw [if_neg (by omega), if_pos hroom]
        exact .ok hbegun
      · rw [if_pos (by omega), if_neg hroom]
        exact .error _

theorem read_mirrors (h : d.Outlines xs σ) (name : String) :
    Mirrors (Begun xs) (read o line d name) ((outline o).step σ (.read name)) := by
  rw [Postfix.Interpretation.step, h.vars]
  unfold read
  cases hv : d.vars.get? name with
  | none => exact .error _
  | some v =>
      obtain rfl := Variables.name_of_get? hv
      dsimp only [outline, Option.map_some, Option.bind_some]
      by_cases ht : v.type = .void
      · rw [if_pos ht, if_pos (show v.bound.1 = .void from ht)]
        exact .error _
      · obtain ⟨l, y, hallocate, hy, -⟩ := allocate_outlines h hv ht
        rw [if_neg ht, if_neg (show v.bound.1 ≠ .void from ht), hallocate]
        exact push_mirrors (s := ⟨v.type, matrixNumber? l⟩) (by rwa [add_zero])

theorem literalKind_mirrors (o : CompileOptions) (line : Nat) (typeName : Option String) :
    Mirrors Eq (literalKind o line typeName) (Reference.literalKind? o typeName) := by
  unfold literalKind Reference.literalKind?
  cases typeName with
  | none => exact .ok rfl
  | some typeName =>
      dsimp only
      cases Kind.ofName? typeName with
      | none => exact .error _
      | some k => exact .ok rfl

theorem const_mirrors (h : d.Outlines xs σ) (typeName : Option String) (literal : String) :
    Mirrors (Begun xs) (const o line d typeName literal)
      ((outline o).step σ (.const typeName literal)) := by
  rw [Postfix.Interpretation.step]
  dsimp only [outline, operate]
  unfold const
  have hkind := literalKind_mirrors o line typeName
  generalize literalKind o line typeName = x at hkind ⊢
  generalize Reference.literalKind? o typeName = y at hkind ⊢
  cases hkind with
  | error e => exact .error e
  | @ok k _ heq =>
      obtain rfl := heq
      dsimp only [Option.bind_some]
      cases Scalar.read? k literal.toList with
      | none => exact .error _
      | some x =>
          have hconstant : (d.withConstant x ⟨literal, typeName⟩).Outlines xs
              ⟨σ.vars, σ.stack, σ.cost + (0, k.size)⟩ := by
            refine ⟨h.names, h.vars, h.unplaced, h.stack, ?_, ?_⟩
            · rw [Prod.fst_add, add_zero]
              exact h.demand
            · rw [Prod.snd_add, ← h.constants]
              simp [Draft.withConstant, x.length_bytes]
          exact push_mirrors (s := ⟨.scalar k, none⟩) hconstant

theorem cast_mirrors (h : d.Outlines xs σ) (typeName : String) :
    Mirrors (Begun xs) (Draft.cast o line d typeName) ((outline o).step σ (.cast typeName)) := by
  rw [Postfix.Interpretation.step]
  dsimp only [outline]
  unfold Draft.cast
  rw [h.stack]
  cases hslots : d.stack.slots with
  | nil =>
      cases DataType.read typeName with
      | error e => exact .error _
      | ok t => exact .error _
  | cons s rest =>
      rw [List.map_cons, operate]
      cases DataType.read typeName with
      | error e => exact .error _
      | ok t =>
          dsimp only [Except.toOption, Option.bind_some]
          by_cases hconverts : s.type.convertsTo t
          · have hdropped : Draft.Outlines xs { d with stack := d.stack.drop 1 }
                ⟨σ.vars, rest.map Slot.type, σ.cost + 0⟩ := by
              rw [add_zero]
              refine h.restack rfl rfl ?_
              rw [Stack.slots_drop, hslots]
              rfl
            rw [if_pos hconverts, if_pos hconverts]
            exact push_mirrors (s := ⟨t, s.source⟩) hdropped
          · rw [if_neg hconverts, if_neg hconverts]
            exact .error _

theorem convertsTo_self {t : DataType} (h : t ≠ .void) : t.convertsTo t := by
  cases t with
  | void => exact absurd rfl h
  | scalar k => rfl
  | matrix k rows cols => exact beq_self_eq_true _

theorem convertForWrite_cases (line : Nat) (name : String) {s t : DataType} (ht : t ≠ .void)
    (d : Draft) :
    (s.convertsTo t ∧ ∃ d', convertForWrite line name s t d = .ok d' ∧ Converts line s t d d') ∨
      ¬ s.convertsTo t ∧ ∃ e, convertForWrite line name s t d = .error e := by
  by_cases hst : s = t
  · subst hst
    exact .inl ⟨convertsTo_self ht, d, if_pos rfl, .inl ⟨rfl, rfl⟩⟩
  · cases s with
    | void => exact .inr ⟨by simp [DataType.convertsTo], _, if_neg hst⟩
    | scalar j =>
        cases t with
        | void => exact absurd rfl ht
        | scalar k => exact .inl ⟨rfl, _, if_neg hst, .inr ⟨j, k, rfl, rfl, rfl⟩⟩
        | matrix => exact .inr ⟨by simp [DataType.convertsTo], _, if_neg hst⟩
    | matrix k rows cols =>
        refine .inr ⟨?_, _, if_neg hst⟩
        simpa [DataType.convertsTo] using Ne.symm hst

theorem detachTarget_of_slots_eq_nil (hslots : d.stack.slots = []) (l : Location) :
    detachTarget line d l = .ok d := by
  cases l with
  | matrix number =>
      rw [detachTarget, detach, hslots, detachSlots]
      have hstack : Stack.ofList [] = d.stack := Stack.eq_of_slots_eq hslots.symm
      change Except.ok _ = _
      rw [hstack]
  | _ => rfl

def storeTyped (line : Nat) (name : String) (s : DataType) (d : Draft) (w : Variable) :
    Except Error Draft := do
  let d₁ ← convertForWrite line name s w.type (allocate d w).2
  let d₂ ← detachTarget line d₁ (allocate d w).1
  .ok (d₂.emit line (storeOpcode (elementKind w.type) (allocate d w).1) [w.type] none none)

theorem write_eq {name : String} {v : Variable} {s : Slot} {rest : List Slot}
    (hslots : d.stack.slots = s :: rest) (hv : d.vars.get? name = some v) :
    write line d name = inferType v s.type >>= fun w =>
      storeTyped line name s.type { d with vars := d.vars.set w, stack := d.stack.drop 1 } w := by
  simp only [write, hslots, hv, storeTyped]

theorem store_mirrors (line : Nat) {w : Variable} (h : d.Outlines xs σ)
    (hw : d.vars.get? w.name = some w) (ht : w.type ≠ .void) (hslots : d.stack.slots = [])
    (name : String) (s : DataType) :
    Mirrors (Begun xs) (storeTyped line name s d w)
      (if s.convertsTo w.type then some σ else none) := by
  obtain ⟨l, y, hallocate, hy, -⟩ := allocate_outlines h hw ht
  rw [storeTyped, hallocate]
  rcases convertForWrite_cases line name (s := s) ht (d.withLayout y) with
    ⟨hconverts, d₁, hd₁, hcases⟩ | ⟨hconverts, e, he⟩
  · have hempty : d₁.stack.slots = [] := by
      rcases hcases with ⟨-, rfl⟩ | ⟨j, k, -, -, rfl⟩ <;> exact hslots
    have houtlines : d₁.Outlines xs σ := by
      rcases hcases with ⟨-, rfl⟩ | ⟨j, k, -, -, rfl⟩
      · exact hy
      · exact hy.restack rfl rfl hy.stack
    rw [if_pos hconverts, bind_of_ok hd₁, bind_of_ok (detachTarget_of_slots_eq_nil hempty l)]
    refine .ok ⟨houtlines.restack rfl rfl houtlines.stack, ?_⟩
    simp [Draft.emit]
  · rw [if_neg hconverts, he]
    exact .error e

theorem assigned?_of_ne_void {v : Variable} (ht : v.type ≠ .void) (s : DataType) :
    assigned? s v.bound = if s.convertsTo v.type then some v.bound else none := by
  unfold Variable.bound
  cases hv : v.type with
  | void => exact absurd hv ht
  | _ => rfl

theorem assigned?_of_void {v : Variable} (ht : v.type = .void) (s : DataType) :
    assigned? s v.bound = if s.isValid then some (s, none) else none := by
  rw [Variable.bound, ht]
  rfl

theorem infer_mirrors {v : Variable} (h : d.Outlines xs ⟨σ.vars, [], σ.cost⟩)
    (hv : d.vars.get? v.name = some v) (ht : v.type = .void) (hslots : d.stack.slots = [])
    (s : DataType) :
    Mirrors (Begun xs)
      (inferType v s >>= fun w =>
        storeTyped line v.name s { d with vars := d.vars.set w } w)
      (((assigned? s v.bound).map fun b => (b, [], 0)).map (σ.afterWrite v.name)) := by
  rw [assigned?_of_void ht, inferType, if_pos ht, Variable.bind, if_neg (not_not.mpr ht)]
  by_cases hvalid : s.isValid
  · let w : Variable := ⟨v.name, s, v.location, none⟩
    have hs : s ≠ .void := by
      rintro rfl
      cases hvalid
    have hnone : v.location = none := h.unplaced v.name v hv ht
    have hzero : w.allotted = 0 := if_pos hnone
    have hw : (d.vars.set w).get? w.name = some w := Variables.get?_set_self (v := w) hv
    have hset : Draft.Outlines xs { d with vars := d.vars.set w }
        ⟨Function.update σ.vars v.name (some w.bound), [], σ.cost⟩ :=
      h.set (w := w) hv hnone (fun _ => hnone) { d.layout with vars := d.vars.set w } rfl
        (by rw [hzero, add_zero]; rfl)
    have hstore := store_mirrors line hset hw hs hslots v.name s
    rw [if_pos (convertsTo_self hs)] at hstore
    rw [hvalid, if_pos rfl, Option.map_some, Option.map_some,
      Postfix.Interpretation.State.afterWrite, add_zero]
    exact hstore
  · rw [if_neg hvalid]
    simp only [hvalid]
    exact .error _

theorem keep_mirrors {v : Variable} (h : d.Outlines xs ⟨σ.vars, [], σ.cost⟩)
    (hv : d.vars.get? v.name = some v) (ht : v.type ≠ .void) (hslots : d.stack.slots = [])
    (s : DataType) :
    Mirrors (Begun xs)
      (inferType v s >>= fun w =>
        storeTyped line v.name s { d with vars := d.vars.set w } w)
      (((assigned? s v.bound).map fun b => (b, [], 0)).map (σ.afterWrite v.name)) := by
  have hwritten : (σ.afterWrite v.name (v.bound, [], 0) : Outline) = ⟨σ.vars, [], σ.cost⟩ := by
    have hsame : σ.vars v.name = some v.bound := by rw [h.vars, hv, Option.map_some]
    rw [Postfix.Interpretation.State.afterWrite, add_zero,
      Function.update_eq_self_iff.mpr hsame.symm]
  rw [bind_of_ok (show inferType v s = .ok v from if_neg ht), Variables.set_self hv,
    assigned?_of_ne_void ht]
  have hstore := store_mirrors line h hv ht hslots v.name s
  by_cases hconverts : s.convertsTo v.type
  · rw [if_pos hconverts] at hstore ⊢
    rw [Option.map_some, Option.map_some, hwritten]
    exact hstore
  · rw [if_neg hconverts] at hstore ⊢
    exact hstore

theorem write_mirrors (h : d.Outlines xs σ) (hdepth : d.stack.depth ≤ 1) (name : String) :
    Mirrors (Begun xs) (write line d name) ((outline o).step σ (.write name)) := by
  rw [Postfix.Interpretation.step, h.vars, h.stack]
  dsimp only [outline]
  cases hslots : d.stack.slots with
  | nil =>
      rw [write, hslots]
      cases d.vars.get? name <;> exact .error _
  | cons s rest =>
      obtain rfl : rest = [] := by
        rw [d.stack.depth_eq, hslots, List.length_cons] at hdepth
        exact List.length_eq_zero_iff.mp (by omega)
      cases hv : d.vars.get? name with
      | none =>
          simp only [write, hslots, hv]
          exact .error _
      | some v =>
          obtain rfl := Variables.name_of_get? hv
          rw [write_eq hslots hv]
          change Mirrors _ _ (((assigned? s.type v.bound).map fun b => (b, [], 0)).map
            (σ.afterWrite v.name))
          have hdropped : (d.withStack (d.stack.drop 1)).Outlines xs ⟨σ.vars, [], σ.cost⟩ := by
            refine h.restack rfl rfl ?_
            change [] = (d.stack.slots.drop 1).map Slot.type
            rw [hslots]
            rfl
          have hempty : (d.stack.drop 1).slots = [] := by
            rw [Stack.slots_drop, hslots]
            rfl
          by_cases ht : v.type = .void
          · exact infer_mirrors hdropped hv ht hempty s.type
          · exact keep_mirrors hdropped hv ht hempty s.type

theorem exists_widened (line n : Nat) {ws : List Widening} (hws : ∀ w ∈ ws, w.depth < n)
    (d : Draft) : ∃ d', ws.foldl (widen line) d = d' ∧ d'.layout = d.layout ∧
      d'.constants = d.constants ∧ d'.stack.slots.drop n = d.stack.slots.drop n := by
  induction ws generalizing d with
  | nil => exact ⟨d, rfl, rfl, rfl, rfl⟩
  | cons w ws ih =>
      obtain ⟨hw, hws⟩ := List.forall_mem_cons.mp hws
      obtain ⟨d', hd', hlayout, hconstants, hdrop⟩ := ih hws (widen line d w)
      refine ⟨d', hd', hlayout, hconstants, hdrop.trans ?_⟩
      change (d.stack.slots.modify w.depth _).drop n = _
      rw [List.drop_modify_of_lt _ _ _ _ hw]

theorem operation_outlines (line : Nat) (h : d.Outlines xs σ) {r : Resolution} {n : Nat}
    (hws : ∀ w ∈ r.widenings, w.depth < n) {opcode : Opcode} {d₁ : Draft}
    (hd₁ : operationOpcode (r.widenings.foldl (widen line) d) r = (opcode, d₁)) :
    (d₁.withStack (d₁.stack.drop n)).Outlines xs
      ⟨σ.vars, σ.stack.drop n, σ.cost + (made r.operation, 0)⟩ := by
  obtain ⟨d', hd', hlayout, hconstants, hdrop⟩ := exists_widened line n hws d
  have hstack : σ.stack.drop n = (d'.stack.slots.drop n).map Slot.type := by
    rw [hdrop, h.stack, List.map_drop]
  have hwidened : (d'.withStack (d'.stack.drop n)).Outlines xs ⟨σ.vars, σ.stack.drop n, σ.cost⟩ :=
    h.restack hlayout hconstants hstack
  rw [hd'] at hd₁
  unfold operationOpcode at hd₁
  split at hd₁
  · rename_i kernel k hop
    obtain ⟨-, rfl⟩ := Prod.mk.inj hd₁
    have hzero : σ.cost + (made r.operation, 0) = σ.cost := by
      rw [hop]
      exact add_zero _
    rw [hzero]
    exact hwidened
  · rename_i op hop
    obtain ⟨-, rfl⟩ := Prod.mk.inj hd₁
    refine ⟨hwidened.names, hwidened.vars, hwidened.unplaced, hstack, ?_, hwidened.constants⟩
    rw [hop, Prod.fst_add, ← add_assoc]
    refine Eq.trans ?_ (congrArg (· + _) hwidened.demand)
    exact Demand.eq_of_parts (Array.size_push _) rfl rfl

theorem operator_mirrors (h : d.Outlines xs σ) (name : String) :
    Mirrors (Begun xs) (operator o line d name) ((outline o).step σ (.operator name)) := by
  rw [Postfix.Interpretation.step]
  dsimp only [outline, operate]
  unfold operator
  cases Kernel.ofName? name with
  | none => exact .error _
  | some kernel =>
      dsimp only [Option.bind_some]
      rw [h.depth_eq]
      by_cases harity : σ.stack.length < kernel.arity
      · rw [if_pos harity, if_pos harity]
        exact .error _
      rw [if_neg harity, if_neg harity, List.map_take, ← h.stack]
      cases hresolve : kernel.resolve o.implicitCasts (σ.stack.take kernel.arity).reverse with
      | error e => exact .error _
      | ok r =>
          have hlength : (σ.stack.take kernel.arity).reverse.length = kernel.arity := by
            rw [List.length_reverse, List.length_take]
            omega
          have hshape := Resolution.shape_of_resolve hresolve
          have hwidenings (w : Widening) (hw : w ∈ r.widenings) : w.depth < kernel.arity :=
            hlength ▸ hshape.depth_lt hw
          have houtlines := operation_outlines line h hwidenings rfl
          exact push_mirrors (s := ⟨r.output, none⟩) houtlines

theorem instruction_mirrors (h : d.Outlines xs σ) {i : Postfix.Instruction}
    (hwrite : ∀ name, i = .write name → d.stack.depth ≤ 1) :
    Mirrors (Begun xs) (instruction o line d i) ((outline o).step σ i) := by
  cases i with
  | read name => exact read_mirrors h name
  | write name => exact write_mirrors h (hwrite name rfl) name
  | const typeName literal => exact const_mirrors h typeName literal
  | cast typeName => exact cast_mirrors h typeName
  | operator name => exact operator_mirrors h name

end Instructions

end Unbounded

end FormulaMachine
