import FormulaMachine.Proofs.Machine.Safety

namespace FormulaMachine

inductive Use where
  | slot (depth : Nat)
  | place (index : Nat)
  | constant (offset : Nat)
  | binding (number : Nat)
  | matrix (number : Nat)
  | address (a : Address)
  deriving DecidableEq, Repr

namespace Program

structure Provides (shared : Shared) (p : Program) : Prop where
  bindings : ∀ x ∈ p.bindings, shared[x.memory.number]?.map Array.size = some x.memory.cells
  matrices : ∀ slot ∈ p.matrices, ∀ x, slot.external = some x →
    shared[x.memory.number]?.map Array.size = some x.memory.cells

instance (shared : Shared) (p : Program) : Decidable (Provides shared p) :=
  decidable_of_iff
    ((∀ x ∈ p.bindings, shared[x.memory.number]?.map Array.size = some x.memory.cells) ∧
      ∀ slot ∈ p.matrices, ∀ x ∈ slot.external,
        shared[x.memory.number]?.map Array.size = some x.memory.cells)
    ⟨fun ⟨hbindings, hmatrices⟩ => ⟨hbindings, hmatrices⟩,
      fun h => ⟨h.bindings, h.matrices⟩⟩

structure Fits (p : Program) (s : Store) : Prop where
  bytes : s.owned.scalars.size = p.sizes.variableBytes
  owned : s.owned.matrices.map Array.size = p.matrices.map fun slot => (ownedCells slot).size
  provided : Provides s.shared p

def UseExists (p : Program) (st : State) : Use → Prop
  | .slot depth => depth < st.stack.depth
  | .place index => index < p.sizes.maxStackDepth
  | .constant offset => offset < p.constants.size
  | .binding number => number < p.bindings.size
  | .matrix number => number < p.matrices.size
  | .address a => st.store.shape.Has a

def byteUses (offset : Nat) (k : Kind) : List Use :=
  (List.range k.size).map fun i => .address (.byte (offset + i))

def bindingUses (p : Program) (number : Nat) : List Use :=
  .binding number :: (p.bindings[number]?.toList.map fun x => .address (.cell (x.cellAt 0)))

def cellUses (p : Program) (number : Nat) (indices : List Nat) : List Use :=
  .matrix number :: indices.map fun i => .address (.cell (p.matrixAt number i))

def copyUses (p : Program) (source target : Nat) : List Use :=
  if source = target then [.matrix source]
  else
    let indices := List.range (p.matrixType target).length
    p.cellUses source indices ++ p.cellUses target indices

def rowIndices (rows inner : Nat) : List Nat :=
  (List.range rows).flatMap fun i => (List.range inner).map fun t => i * inner + t

def columnIndices (inner cols : Nat) : List Nat :=
  (List.range cols).flatMap fun j => (List.range inner).map fun t => t * cols + j

def operandUses (p : Program) (op : MatrixOp) (target a b : Nat) : List Use :=
  let t := p.matrixType target
  match op with
  | .sum | .sub => p.cellUses a (List.range t.length) ++ p.cellUses b (List.range t.length)
  | .product =>
      let inner := (p.matrixType a).dims.2
      p.cellUses a (rowIndices t.dims.1 inner) ++ p.cellUses b (columnIndices inner t.dims.2)
  | .scaleLeft => p.cellUses b (List.range t.length)
  | .scaleRight => p.cellUses a (List.range t.length)

def wordAt (st : State) (depth : Nat) : Nat :=
  (st.stack.slots[depth]?.getD 0).toNat

def uses (p : Program) (st : State) : Opcode → List Use
  | .loadConstant offset k =>
      .place st.stack.depth :: (List.range k.size).map fun i => .constant (offset + i)
  | .loadVariable offset k => .place st.stack.depth :: byteUses offset k
  | .loadExternal number _ => .place st.stack.depth :: p.bindingUses number
  | .loadMatrix number => [.place st.stack.depth, .matrix number]
  | .storeVariable offset k => .slot 0 :: byteUses offset k
  | .storeExternal number _ => .slot 0 :: p.bindingUses number
  | .storeMatrix number => .slot 0 :: p.copyUses (wordAt st 0) number
  | .copyMatrix depth target => .slot depth :: p.copyUses (wordAt st depth) target
  | .cast _ _ depth _ => [.slot depth]
  | .scalar kernel _ =>
      .place (st.stack.depth - kernel.arity) :: (List.range kernel.arity).map .slot
  | .matrix op target =>
      .place (st.stack.depth - 2) :: .slot 1 :: .slot 0 ::
        (p.operandUses op target (wordAt st 1) (wordAt st 0) ++
          p.cellUses target (List.range (p.matrixType target).length))

variable {p : Program} {s : Store} {st : State}

theorem has_matrixAt (hp : p.InRange) (hs : p.Fits s) {number i : Nat}
    (hi : i < (p.matrixType number).length) : s.shape.Has (.cell (p.matrixAt number i)) := by
  cases hslot : p.matrices[number]? with
  | none => simp [matrixType, hslot, DataType.length] at hi
  | some slot =>
      have hi' : i < slot.type.length := by simpa [matrixType, hslot] using hi
      have hmem : slot ∈ p.matrices := Array.mem_of_getElem? hslot
      cases hx : slot.external with
      | none =>
          have hat : p.matrixAt number i = .owned number i := by
            simp [matrixAt, matrixExternal?, hslot, hx]
          rw [hat]
          simp only [Shape.Has, Store.shape, hs.owned, Array.getD_eq_getD_getElem?,
            Array.getElem?_map, hslot, Option.map_some, Option.getD_some, ownedCells, hx,
            Array.size_replicate]
          exact hi'
      | some x =>
          have hat : p.matrixAt number i = x.cellAt i := by
            simp [matrixAt, matrixExternal?, hslot, hx]
          rw [hat]
          have hcells := hs.provided.matrices slot hmem x hx
          have hrange := hp.matrices slot hmem x hx
          simp only [External.cellAt, Shape.Has, Store.shape, Array.getD_eq_getD_getElem?,
            Array.getElem?_map, hcells, Option.getD_some]
          omega

theorem has_cellAt (hp : p.InRange) (hs : p.Fits s) {number : Nat} {x : External}
    (hx : p.bindings[number]? = some x) : s.shape.Has (.cell (x.cellAt 0)) := by
  have hmem : x ∈ p.bindings := Array.mem_of_getElem? hx
  have hcells := hs.provided.bindings x hmem
  have hrange := hp.bindings x hmem
  simp only [External.cellAt, Shape.Has, Store.shape, Array.getD_eq_getD_getElem?,
    Array.getElem?_map, hcells, Option.getD_some]
  omega

theorem cellUses_exist (hp : p.InRange) (hs : p.Fits st.store) {number : Nat} {k : Kind}
    {rows cols : Nat} (ht : p.matrixType number = .matrix k rows cols) {indices : List Nat}
    (hi : ∀ i ∈ indices, i < rows * cols) : ∀ u ∈ p.cellUses number indices, p.UseExists st u := by
  intro u hu
  rcases List.mem_cons.mp hu with rfl | hu
  · exact lt_of_matrixType ht
  · obtain ⟨i, hmem, rfl⟩ := List.mem_map.mp hu
    refine has_matrixAt hp hs ?_
    rw [ht]
    exact hi i hmem

theorem copyUses_exist (hp : p.InRange) (hs : p.Fits st.store) {source target : Nat} {k : Kind}
    {rows cols : Nat} (hsource : p.matrixType source = .matrix k rows cols)
    (htarget : p.matrixType target = .matrix k rows cols) :
    ∀ u ∈ p.copyUses source target, p.UseExists st u := by
  intro u hu
  unfold copyUses at hu
  split at hu
  · obtain rfl := List.mem_singleton.mp hu
    exact lt_of_matrixType hsource
  · have hrange : ∀ i ∈ List.range (p.matrixType target).length, i < rows * cols := by
      intro i hi
      rw [htarget] at hi
      exact List.mem_range.mp hi
    rcases List.mem_append.mp hu with hu | hu
    · exact cellUses_exist hp hs hsource hrange u hu
    · exact cellUses_exist hp hs htarget hrange u hu

theorem row_column_lt {n rows cols : Nat} (h : n < rows * cols) :
    n / cols < rows ∧ n % cols < cols := by
  have hcols : 0 < cols := by
    rcases Nat.eq_zero_or_pos cols with rfl | hpos
    · simp at h
    · exact hpos
  exact ⟨Nat.div_lt_of_lt_mul (by rwa [Nat.mul_comm]), Nat.mod_lt n hcols⟩

theorem rowIndices_lt {rows inner : Nat} : ∀ i ∈ rowIndices rows inner, i < rows * inner := by
  intro n hn
  simp only [rowIndices, List.mem_flatMap, List.mem_map, List.mem_range] at hn
  obtain ⟨i, hi, t, ht, rfl⟩ := hn
  calc i * inner + t < i * inner + inner := by omega
    _ = (i + 1) * inner := by rw [Nat.succ_mul]
    _ ≤ rows * inner := Nat.mul_le_mul_right inner hi

theorem columnIndices_lt {inner cols : Nat} :
    ∀ i ∈ columnIndices inner cols, i < inner * cols := by
  intro n hn
  simp only [columnIndices, List.mem_flatMap, List.mem_map, List.mem_range] at hn
  obtain ⟨j, hj, t, ht, rfl⟩ := hn
  calc t * cols + j < t * cols + cols := by omega
    _ = (t + 1) * cols := by rw [Nat.succ_mul]
    _ ≤ inner * cols := Nat.mul_le_mul_right cols ht

theorem byteUses_exist (hs : p.Fits st.store) {offset : Nat} {k : Kind}
    (h : offset + k.size ≤ p.sizes.variableBytes) :
    ∀ u ∈ byteUses offset k, p.UseExists st u := by
  intro u hu
  obtain ⟨i, hi, rfl⟩ := List.mem_map.mp hu
  have hlt := List.mem_range.mp hi
  simp only [UseExists, Shape.Has, Store.shape, hs.bytes]
  omega

theorem bindingUses_exist (hp : p.InRange) (hs : p.Fits st.store) {number : Nat}
    (h : number < p.bindings.size) : ∀ u ∈ p.bindingUses number, p.UseExists st u := by
  intro u hu
  rcases List.mem_cons.mp hu with rfl | hu
  · exact h
  · simp only [Array.getElem?_eq_getElem h, Option.toList_some, List.map_cons, List.map_nil,
      List.mem_singleton] at hu
    subst hu
    exact has_cellAt hp hs (Array.getElem?_eq_getElem h)

theorem wordAt_eq (hp : p.InRange) {depth number : Nat} {k : Kind} {rows cols : Nat}
    (ht : p.matrixType number = .matrix k rows cols)
    (h : st.stack.slots[depth]? = some (matrixWord number)) : wordAt st depth = number := by
  rw [wordAt, h, Option.getD_some, toNat_matrixWord hp.few (lt_of_matrixType ht)]

theorem operandUses_exist (hp : p.InRange) (hs : p.Fits st.store) {op : MatrixOp}
    {target : Nat} {a b : Held} {wa wb : Word} {rest : List Word} (h : p.Combines op target a b)
    (ha : a.Matches wa) (hb : b.Matches wb) (hslots : st.stack.slots = wb :: wa :: rest) :
    ∀ u ∈ p.operandUses op target (wordAt st 1) (wordAt st 0), p.UseExists st u := by
  have hrange (rows cols : Nat) : ∀ i ∈ List.range (rows * cols), i < rows * cols :=
    fun i => List.mem_range.mp
  cases h with
  | sum hk ht hm hn =>
      obtain rfl := ha
      obtain rfl := hb
      rw [wordAt_eq hp hm (by rw [hslots]; rfl), wordAt_eq hp hn (by rw [hslots]; rfl),
        operandUses, ht]
      intro u hu
      rcases List.mem_append.mp hu with hu | hu
      · exact cellUses_exist hp hs hm (hrange _ _) u hu
      · exact cellUses_exist hp hs hn (hrange _ _) u hu
  | sub hk ht hm hn =>
      obtain rfl := ha
      obtain rfl := hb
      rw [wordAt_eq hp hm (by rw [hslots]; rfl), wordAt_eq hp hn (by rw [hslots]; rfl),
        operandUses, ht]
      intro u hu
      rcases List.mem_append.mp hu with hu | hu
      · exact cellUses_exist hp hs hm (hrange _ _) u hu
      · exact cellUses_exist hp hs hn (hrange _ _) u hu
  | product hk ht hm hn =>
      obtain rfl := ha
      obtain rfl := hb
      rw [wordAt_eq hp hm (by rw [hslots]; rfl), wordAt_eq hp hn (by rw [hslots]; rfl),
        operandUses, ht, hm]
      intro u hu
      rcases List.mem_append.mp hu with hu | hu
      · exact cellUses_exist hp hs hm rowIndices_lt u hu
      · exact cellUses_exist hp hs hn columnIndices_lt u hu
  | scaleLeft hk ht hn =>
      obtain rfl := hb
      have hw : wordAt st 0 = _ := wordAt_eq hp hn (by rw [hslots]; rfl)
      rw [hw, operandUses, ht]
      exact cellUses_exist hp hs hn (hrange _ _)
  | scaleRight hk ht hm =>
      obtain rfl := ha
      rw [wordAt_eq hp hm (by rw [hslots]; rfl), operandUses, ht]
      exact cellUses_exist hp hs hm (hrange _ _)

theorem Admits.uses_exist (hp : p.InRange) {hs hs₁ : List Held} {e : Entry}
    (hfit : p.Fits st.store) (h : p.Admits hs e hs₁)
    (hst : List.Forall₂ Held.Matches hs st.stack.slots)
    (hroom : hs₁.length ≤ p.sizes.maxStackDepth) :
    ∀ u ∈ p.uses st e.opcode, p.UseExists st u := by
  have hdepth : st.stack.depth = hs.length := by rw [st.stack.depth_eq, hst.length_eq]
  have hplace {us : List Use} (hlen : hs.length < p.sizes.maxStackDepth)
      (hus : ∀ u ∈ us, p.UseExists st u) : ∀ u ∈ .place st.stack.depth :: us, p.UseExists st u := by
    rw [List.forall_mem_cons]
    exact ⟨hdepth ▸ hlen, hus⟩
  have hslot {depth : Nat} {us : List Use} (hlen : depth < hs.length)
      (hus : ∀ u ∈ us, p.UseExists st u) : ∀ u ∈ .slot depth :: us, p.UseExists st u := by
    rw [List.forall_mem_cons]
    exact ⟨Nat.lt_of_lt_of_eq hlen hdepth.symm, hus⟩
  cases h with
  | loadConstant hsize =>
      refine hplace hroom fun u hu => ?_
      obtain ⟨i, hi, rfl⟩ := List.mem_map.mp hu
      have hlt := List.mem_range.mp hi
      simp only [UseExists]
      omega
  | loadVariable hsize => exact hplace hroom (byteUses_exist hfit hsize)
  | loadExternal hlt => exact hplace hroom (bindingUses_exist hp hfit hlt)
  | loadMatrix ht =>
      refine hplace hroom fun u hu => ?_
      obtain rfl := List.mem_singleton.mp hu
      exact lt_of_matrixType ht
  | storeVariable hsize => exact hslot (Nat.succ_pos _) (byteUses_exist hfit hsize)
  | storeExternal hlt => exact hslot (Nat.succ_pos _) (bindingUses_exist hp hfit hlt)
  | storeMatrix hsource htarget =>
      obtain ⟨w, ws, rfl, -, hslots⟩ := List.forall₂_cons_left_iff.mp hst
      rw [uses, wordAt_eq hp hsource (by rw [hslots]; rfl)]
      exact hslot (Nat.succ_pos _) (copyUses_exist hp hfit hsource htarget)
  | copyMatrix hat hsource htarget =>
      obtain ⟨w, hw, rfl⟩ := forall₂_getElem?_left hst hat
      rw [uses, wordAt_eq hp hsource hw]
      exact hslot (List.getElem?_eq_some_iff.mp hat).1 (copyUses_exist hp hfit hsource htarget)
  | cast hat => exact hslot (List.getElem?_eq_some_iff.mp hat).1 fun u hu => (by cases hu)
  | keep => exact hslot (Nat.succ_pos _) fun u hu => (by cases hu)
  | @scalar hs kernel k line spelling hk =>
      rw [List.length_append, List.length_replicate] at hdepth
      rw [List.length_cons] at hroom
      rw [uses, List.forall_mem_cons]
      refine ⟨by simp only [UseExists]; omega, fun u hu => ?_⟩
      obtain ⟨i, hi, rfl⟩ := List.mem_map.mp hu
      have hlt := List.mem_range.mp hi
      simp only [UseExists]
      omega
  | matrix hc =>
      obtain ⟨wb, ws, hb, hws, hslots⟩ := List.forall₂_cons_left_iff.mp hst
      obtain ⟨wa, rest, ha, -, rfl⟩ := List.forall₂_cons_left_iff.mp hws
      obtain ⟨k, rows, cols, -, ht⟩ := hc.target_type
      rw [List.length_cons, List.length_cons] at hdepth
      rw [List.length_cons] at hroom
      rw [uses, List.forall_mem_cons]
      refine ⟨by simp only [UseExists]; omega, hslot (by simp) (hslot (by simp) fun u hu => ?_)⟩
      rcases List.mem_append.mp hu with hu | hu
      · exact operandUses_exist hp hfit hc ha hb hslots u hu
      · refine cellUses_exist hp hfit ht (fun i hi => ?_) u hu
        rw [ht] at hi
        exact List.mem_range.mp hi

end Program

end FormulaMachine
