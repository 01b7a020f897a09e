import FormulaMachine.Proofs.Machine.Reachability

namespace FormulaMachine

structure Store.SameIn (area : Set Address) (s t : Store) : Prop where
  left : ∀ a ∈ area, s.shape.Has a
  right : ∀ a ∈ area, t.shape.Has a
  content : ∀ a ∈ area, s.content a = t.content a

namespace Store.SameIn

variable {area : Set Address} {s t : Store}

theorem cell {c : Cell} (h : SameIn area s t) (hc : .cell c ∈ area) : s.cell c = t.cell c :=
  h.content _ hc

theorem setCell {c : Cell} (h : SameIn area s t) (hc : .cell c ∈ area) (w : Word) :
    SameIn area (s.setCell c w) (t.setCell c w) := by
  constructor
  · rw [shape_setCell]
    exact h.left
  · rw [shape_setCell]
    exact h.right
  · intro a ha
    by_cases hac : a = .cell c
    · subst hac
      exact (cell_setCell_self (h.left _ hc) w).trans (cell_setCell_self (h.right _ hc) w).symm
    · rw [content_setCell_of_ne s hac, content_setCell_of_ne t hac, h.content a ha]

theorem readScalar {offset : Nat} {k : Kind} (h : SameIn area s t)
    (hbytes : ∀ o, offset ≤ o → o < offset + k.size → .byte o ∈ area) :
    s.readScalar offset k = t.readScalar offset k := by
  apply readScalar_congr
  intro o hlow hhigh
  exact h.content _ (hbytes o hlow hhigh)

theorem writeScalar {offset : Nat} {k : Kind} (h : SameIn area s t)
    (hbytes : ∀ o, offset ≤ o → o < offset + k.size → .byte o ∈ area) (x : Scalar k) :
    SameIn area (s.writeScalar offset x) (t.writeScalar offset x) := by
  constructor
  · rw [shape_writeScalar]
    exact h.left
  · rw [shape_writeScalar]
    exact h.right
  · intro a ha
    by_cases hin : ∃ o, offset ≤ o ∧ o < offset + k.size ∧ a = .byte o
    · obtain ⟨o, hlow, hhigh, rfl⟩ := hin
      have hmem := hbytes o hlow hhigh
      rw [content_writeScalar_of_inside x hlow hhigh (h.left _ hmem),
        content_writeScalar_of_inside x hlow hhigh (h.right _ hmem)]
    · have hout : ∀ o, offset ≤ o → o < offset + k.size → a ≠ .byte o :=
        fun o hlow hhigh heq => hin ⟨o, hlow, hhigh, heq⟩
      rw [content_writeScalar_of_outside s x hout, content_writeScalar_of_outside t x hout,
        h.content a ha]

theorem copyCells {dst src : Nat → Cell} {n : Nat} (h : SameIn area s t)
    (hdst : ∀ i < n, .cell (dst i) ∈ area) (hsrc : ∀ i < n, .cell (src i) ∈ area) :
    SameIn area (copyCells dst src n s) (copyCells dst src n t) := by
  induction n with
  | zero => exact h
  | succ n ih =>
      have hn := ih (fun i hi => hdst i (by omega)) (fun i hi => hsrc i (by omega))
      rw [copyCells_succ, copyCells_succ, hn.cell (hsrc n (by omega))]
      exact hn.setCell (hdst n (by omega)) _

theorem setCells {dst : Nat → Cell} {i : Nat} {ws : List Word} (h : SameIn area s t)
    (hdst : ∀ j < ws.length, .cell (dst (i + j)) ∈ area) :
    SameIn area (setCells dst s i ws) (setCells dst t i ws) := by
  induction ws generalizing s t i with
  | nil => exact h
  | cons w ws ih =>
      refine ih (h.setCell (hdst 0 (by simp)) w) ?_
      intro j hj
      have htail := hdst (j + 1) (by simpa using hj)
      rwa [show i + (j + 1) = i + 1 + j by omega] at htail

end Store.SameIn

namespace Program

def touched (p : Program) (st : State) (opcode : Opcode) : Set Address :=
  {a | .address a ∈ p.uses st opcode}

inductive Alike (area : Set Address) : Except Fault State → Except Fault State → Prop
  | ok {s t : Store} {stack : Stack Word} (h : s.SameIn area t) :
      Alike area (.ok ⟨s, stack⟩) (.ok ⟨t, stack⟩)
  | fault (f : Fault) : Alike area (.error f) (.error f)

variable {p : Program} {area : Set Address} {s t : Store} {stack : Stack Word}

theorem push_alike (w : Word) (h : s.SameIn area t) :
    Alike area (p.push w ⟨s, stack⟩) (p.push w ⟨t, stack⟩) := by
  unfold push
  split
  · exact .ok h
  · exact .fault _

theorem popInto_alike {keep : Word → Store → Store}
    (h : ∀ w, stack.slots[0]? = some w → (keep w s).SameIn area (keep w t)) :
    Alike area (popInto ⟨s, stack⟩ keep) (popInto ⟨t, stack⟩ keep) := by
  unfold popInto
  cases hslots : stack.slots with
  | nil => exact .fault _
  | cons w ws => exact .ok (h w (by rw [hslots]; rfl))

theorem mem_byteUses {offset o : Nat} {k : Kind} (hlow : offset ≤ o)
    (hhigh : o < offset + k.size) : .address (.byte o) ∈ byteUses offset k := by
  refine List.mem_map.mpr ⟨o - offset, List.mem_range.mpr (by omega), ?_⟩
  rw [Nat.add_sub_cancel' hlow]

theorem mem_cellUses {number i : Nat} {indices : List Nat} (hi : i ∈ indices) :
    .address (.cell (p.matrixAt number i)) ∈ p.cellUses number indices :=
  List.mem_cons_of_mem _ (List.mem_map.mpr ⟨i, hi, rfl⟩)

theorem mem_rowIndices {rows inner i t : Nat} (hi : i < rows) (ht : t < inner) :
    i * inner + t ∈ rowIndices rows inner :=
  List.mem_flatMap.mpr ⟨i, List.mem_range.mpr hi,
    List.mem_map.mpr ⟨t, List.mem_range.mpr ht, rfl⟩⟩

theorem mem_columnIndices {inner cols t j : Nat} (ht : t < inner) (hj : j < cols) :
    t * cols + j ∈ columnIndices inner cols :=
  List.mem_flatMap.mpr ⟨j, List.mem_range.mpr hj,
    List.mem_map.mpr ⟨t, List.mem_range.mpr ht, rfl⟩⟩

theorem bindingCell_same {number : Nat} (h : s.SameIn area t)
    (harea : ∀ a, .address a ∈ p.bindingUses number → a ∈ area) :
    p.bindingCell s number = p.bindingCell t number := by
  cases hx : p.bindings[number]? with
  | none => simp only [bindingCell, hx]
  | some x =>
      rw [bindingCell_eq hx, bindingCell_eq hx]
      exact h.cell (harea _ (by simp [bindingUses, hx]))

theorem setBindingCell_same {number : Nat} (h : s.SameIn area t)
    (harea : ∀ a, .address a ∈ p.bindingUses number → a ∈ area) (w : Word) :
    (p.setBindingCell s number w).SameIn area (p.setBindingCell t number w) := by
  cases hx : p.bindings[number]? with
  | none =>
      simp only [setBindingCell, hx]
      exact h
  | some x =>
      rw [setBindingCell_eq hx, setBindingCell_eq hx]
      exact h.setCell (harea _ (by simp [bindingUses, hx])) w

theorem copyMatrix_same {source target : Nat} (h : s.SameIn area t)
    (harea : ∀ a, .address a ∈ p.copyUses source target → a ∈ area) :
    (p.copyMatrix source target s).SameIn area (p.copyMatrix source target t) := by
  by_cases hst : source = target
  · simp only [copyMatrix, if_pos hst]
    exact h
  · rw [copyUses, if_neg hst] at harea
    rw [copyMatrix_eq p hst, copyMatrix_eq p hst]
    apply h.copyCells
    · intro i hi
      exact harea _ (List.mem_append_right _ (mem_cellUses (List.mem_range.mpr hi)))
    · intro i hi
      exact harea _ (List.mem_append_left _ (mem_cellUses (List.mem_range.mpr hi)))

theorem element_same {k : Kind} {number i : Nat} (h : s.SameIn area t)
    (hi : .cell (p.matrixAt number i) ∈ area) :
    p.element s k number i = p.element t k number i := by
  rw [element, element, matrixCell_eq, matrixCell_eq, h.cell hi]

section Operations

variable {checked : Bool} {k : Kind} (h : s.SameIn area t)

include h

theorem elementwise_same {op : Arithmetic} {n a b : Nat}
    (ha : ∀ i < n, .cell (p.matrixAt a i) ∈ area) (hb : ∀ i < n, .cell (p.matrixAt b i) ∈ area) :
    p.elementwise checked op k n s a b = p.elementwise checked op k n t a b := by
  apply mapM_congr
  intro i hi
  have hlt := List.mem_range.mp hi
  rw [element_same h (ha i hlt), element_same h (hb i hlt)]

theorem scaled_same {n a : Nat} (ha : ∀ i < n, .cell (p.matrixAt a i) ∈ area) (c : Scalar k) :
    p.scaled checked k n s a c = p.scaled checked k n t a c := by
  apply mapM_congr
  intro i hi
  rw [element_same h (ha i (List.mem_range.mp hi))]

theorem product_same {rows inner cols a b : Nat}
    (ha : ∀ i ∈ rowIndices rows inner, .cell (p.matrixAt a i) ∈ area)
    (hb : ∀ i ∈ columnIndices inner cols, .cell (p.matrixAt b i) ∈ area) :
    p.product checked k rows inner cols s a b = p.product checked k rows inner cols t a b := by
  apply mapM_congr
  intro n hn
  obtain ⟨hrow, hcol⟩ := row_column_lt (List.mem_range.mp hn)
  rw [rowTimesColumn, rowTimesColumn]
  congr 1
  apply foldlM_congr
  intro sum i hi
  have hlt := List.mem_range.mp hi
  rw [element_same h (ha _ (mem_rowIndices hrow hlt)),
    element_same h (hb _ (mem_columnIndices hlt hcol))]

theorem matrixResult_same {op : MatrixOp} {target : Nat} {a b : Word}
    (harea : ∀ c, .address c ∈ p.operandUses op target a.toNat b.toNat → c ∈ area) :
    p.matrixResult checked op (p.matrixType target) s a b =
      p.matrixResult checked op (p.matrixType target) t a b := by
  unfold matrixResult
  cases (p.matrixType target).kind? with
  | none => rfl
  | some k =>
      cases op with
      | sum =>
          exact elementwise_same h
            (fun i hi => harea _ (List.mem_append_left _ (mem_cellUses (List.mem_range.mpr hi))))
            (fun i hi => harea _ (List.mem_append_right _ (mem_cellUses (List.mem_range.mpr hi))))
      | sub =>
          exact elementwise_same h
            (fun i hi => harea _ (List.mem_append_left _ (mem_cellUses (List.mem_range.mpr hi))))
            (fun i hi => harea _ (List.mem_append_right _ (mem_cellUses (List.mem_range.mpr hi))))
      | product =>
          exact product_same h
            (fun i hi => harea _ (List.mem_append_left _ (mem_cellUses hi)))
            (fun i hi => harea _ (List.mem_append_right _ (mem_cellUses hi)))
      | scaleLeft =>
          exact scaled_same h
            (fun i hi => harea _ (mem_cellUses (List.mem_range.mpr hi))) _
      | scaleRight =>
          exact scaled_same h
            (fun i hi => harea _ (mem_cellUses (List.mem_range.mpr hi))) _

end Operations

theorem wordAt_of_slots {st : State} {depth : Nat} {w : Word}
    (h : st.stack.slots[depth]? = some w) : wordAt st depth = w.toNat := by
  rw [wordAt, h, Option.getD_some]

theorem step_alike (checked : Bool) {st : State} {opcode : Opcode}
    (h : st.store.SameIn (p.touched st opcode) t) :
    Alike (p.touched st opcode) (p.step checked opcode st)
      (p.step checked opcode ⟨t, st.stack⟩) := by
  obtain ⟨s, stack⟩ := st
  cases opcode with
  | loadConstant offset k => exact push_alike _ h
  | loadVariable offset k =>
      have hread : s.readScalar offset k = t.readScalar offset k := h.readScalar
        fun o hlow hhigh => List.mem_cons_of_mem _ (mem_byteUses hlow hhigh)
      rw [step, step, hread]
      exact push_alike _ h
  | loadExternal number k =>
      have hcell : p.bindingCell s number = p.bindingCell t number :=
        bindingCell_same h fun a ha => List.mem_cons_of_mem _ ha
      rw [step, step, hcell]
      exact push_alike _ h
  | loadMatrix number => exact push_alike _ h
  | storeVariable offset k =>
      rw [step, step]
      refine popInto_alike fun w _ => ?_
      exact h.writeScalar
        (fun o hlow hhigh => List.mem_cons_of_mem _ (mem_byteUses hlow hhigh)) _
  | storeExternal number k =>
      rw [step, step]
      refine popInto_alike fun w _ => ?_
      exact setBindingCell_same h (fun a ha => List.mem_cons_of_mem _ ha) w
  | storeMatrix number =>
      refine popInto_alike fun w hw => copyMatrix_same h fun a ha => ?_
      have hword : wordAt ⟨s, stack⟩ 0 = w.toNat := wordAt_of_slots hw
      rw [← hword] at ha
      exact List.mem_cons_of_mem _ ha
  | copyMatrix depth target =>
      simp only [step]
      cases hw : stack.slots[depth]? with
      | none => exact .fault _
      | some w =>
          have hword : wordAt ⟨s, stack⟩ depth = w.toNat := wordAt_of_slots hw
          refine .ok (copyMatrix_same h fun a ha => ?_)
          rw [← hword] at ha
          exact List.mem_cons_of_mem _ ha
  | cast j k depth implicit =>
      simp only [step, castStep]
      split
      · exact .ok h
      · cases stack.slots[depth]? with
        | none => exact .fault _
        | some w =>
            dsimp only
            cases Scalar.cast checked k (Scalar.ofWord j w) with
            | error f => exact .fault f
            | ok x => exact .ok h
  | scalar kernel k =>
      simp only [step]
      cases kernel.onStack checked k stack with
      | error f => exact .fault f
      | ok stack => exact .ok h
  | matrix op target =>
      simp only [step, matrixStep]
      cases hslots : stack.slots with
      | nil => exact .fault _
      | cons b ws =>
      cases ws with
      | nil => exact .fault _
      | cons a rest =>
          have ha : wordAt ⟨s, stack⟩ 1 = a.toNat := wordAt_of_slots (by rw [hslots]; rfl)
          have hb : wordAt ⟨s, stack⟩ 0 = b.toNat := wordAt_of_slots (by rw [hslots]; rfl)
          have hmem {c : Address} (hc : .address c ∈ p.operandUses op target a.toNat b.toNat ++
              p.cellUses target (List.range (p.matrixType target).length)) :
              c ∈ p.touched ⟨s, stack⟩ (.matrix op target) := by
            rw [← ha, ← hb] at hc
            exact List.mem_cons_of_mem _ (List.mem_cons_of_mem _ (List.mem_cons_of_mem _ hc))
          have hresult : p.matrixResult checked op (p.matrixType target) s a b = _ :=
            matrixResult_same h fun c hc => hmem (List.mem_append_left _ hc)
          dsimp only
          rw [hresult]
          cases hcells : p.matrixResult checked op (p.matrixType target) t a b with
          | error f => exact .fault f
          | ok cells =>
              have hlen := length_of_matrixResult hcells
              refine push_alike _ ?_
              rw [setMatrixCells_eq, setMatrixCells_eq]
              refine h.setCells fun j hj => hmem (List.mem_append_right _ (mem_cellUses ?_))
              rw [Nat.zero_add, ← hlen]
              exact List.mem_range.mpr hj

theorem content_copyMatrix_of_not_used {source target : Nat} (s : Store) {a : Address}
    (ha : .address a ∉ p.copyUses source target) :
    (p.copyMatrix source target s).content a = s.content a := by
  by_cases hst : source = target
  · rw [copyMatrix, if_pos hst]
  · rw [copyUses, if_neg hst] at ha
    apply content_copyMatrix_of_not_mem
    rintro ⟨i, hi, rfl⟩
    exact ha (List.mem_append_right _ (mem_cellUses (List.mem_range.mpr hi)))

theorem content_of_step {checked : Bool} {st st' : State} {opcode : Opcode} {a : Address}
    (h : p.step checked opcode st = .ok st') (ha : a ∉ p.touched st opcode) :
    st'.store.content a = st.store.content a := by
  have hrest {u : Use} {us : List Use} (h : .address a ∉ u :: us) : .address a ∉ us :=
    fun hmem => h (List.mem_cons_of_mem _ hmem)
  cases opcode with
  | loadConstant offset k => rw [store_of_push h]
  | loadVariable offset k => rw [store_of_push h]
  | loadExternal number k => rw [store_of_push h]
  | loadMatrix number => rw [store_of_push h]
  | storeVariable offset k =>
      rw [step] at h
      obtain ⟨w, -, hstore⟩ := store_of_popInto h
      rw [hstore]
      apply Store.content_writeScalar_of_outside
      rintro o hlow hhigh rfl
      exact hrest ha (mem_byteUses hlow hhigh)
  | storeExternal number k =>
      rw [step] at h
      obtain ⟨w, -, hstore⟩ := store_of_popInto h
      rw [hstore]
      cases hx : p.bindings[number]? with
      | none => simp only [setBindingCell, hx]
      | some x =>
          rw [setBindingCell_eq hx]
          apply Store.content_setCell_of_ne
          rintro rfl
          exact hrest ha (by simp [bindingUses, hx])
  | storeMatrix number =>
      obtain ⟨w, hw, hstore⟩ := store_of_popInto h
      rw [hstore]
      apply content_copyMatrix_of_not_used
      rw [← wordAt_of_slots hw]
      exact hrest ha
  | copyMatrix depth target =>
      simp only [step] at h
      cases hw : st.stack.slots[depth]? with
      | none =>
          rw [hw] at h
          cases h
      | some w =>
          rw [hw] at h
          obtain rfl := Except.ok.inj h
          apply content_copyMatrix_of_not_used
          rw [← wordAt_of_slots hw]
          exact hrest ha
  | cast j k depth implicit => rw [store_of_castStep h]
  | scalar kernel k =>
      obtain ⟨stack, -, rfl⟩ := map_eq_ok h
      rfl
  | matrix op target =>
      obtain ⟨cells, hlen, hstore⟩ := store_of_matrixStep h
      rw [hstore]
      refine p.content_setMatrixCells_of_not_mem target st.store hlen ?_
      rintro ⟨i, hi, rfl⟩
      exact hrest (hrest (hrest ha))
        (List.mem_append_right _ (mem_cellUses (List.mem_range.mpr hi)))

theorem step_changedIn {checked : Bool} {st st' : State} {opcode : Opcode}
    (h : p.step checked opcode st = .ok st') :
    st.store.ChangedIn (p.touched st opcode) st'.store :=
  ⟨shape_step h, fun _ ha => content_of_step h ha⟩

end Program

end FormulaMachine
