import FormulaMachine.Proofs.Machine.Reachability
import FormulaMachine.Proofs.Program.Areas

namespace FormulaMachine

namespace Entry

def takes (e : Entry) : Nat :=
  match Program.inPlace? e.opcode with
  | some _ => 0
  | none => e.inputs.length

def leaves (e : Entry) : Nat :=
  match Program.inPlace? e.opcode with
  | some _ => 0
  | none => e.output.toList.length

end Entry

theorem cell_copyCells_mod {dst src : Nat → Cell} {d n : Nat} {s : Store}
    (hdst : ∀ i j, dst i = dst j → i = j)
    (hfresh : ∀ i j, j < i → d = 0 ∨ i < d → src i ≠ dst j)
    (hback : ∀ i, d ≠ 0 → d ≤ i → src i = dst (i - d))
    (hhas : ∀ i < n, s.shape.Has (.cell (dst i))) {i : Nat} (hi : i < n) :
    (copyCells dst src n s).cell (dst i) = s.cell (src (i % d)) := by
  induction n generalizing i with
  | zero => omega
  | succ n ih =>
      have hbefore {j : Nat} (hj : j < n) :
          (copyCells dst src n s).cell (dst j) = s.cell (src (j % d)) :=
        ih (fun k hk => hhas k (by omega)) hj
      rw [copyCells_succ]
      by_cases hin : i = n
      · subst hin
        rw [Store.cell_setCell_self (by simpa using hhas i hi)]
        by_cases hnew : d = 0 ∨ i < d
        · have hmod : i % d = i := by
            rcases hnew with rfl | hlt
            · exact Nat.mod_zero i
            · exact Nat.mod_eq_of_lt hlt
          rw [hmod]
          exact content_copyCells_of_outside dst src i s (a := .cell (src i)) fun j hj heq =>
            hfresh i j hj hnew (Address.cell.inj heq)
        · have hd : d ≠ 0 ∧ d ≤ i := by omega
          rw [hback i hd.1 hd.2, hbefore (by omega), Nat.mod_eq_sub_mod hd.2]
      · rw [Store.cell_setCell_of_ne _ fun h => hin (hdst _ _ h).symm]
        exact hbefore (by omega)

namespace Program

variable {p : Program} {source target m n : Nat}

def lag (p : Program) (source target : Nat) : Nat :=
  match p.matrixExternal? source, p.matrixExternal? target with
  | some x, some y => if x.memory.number = y.memory.number then y.offset - x.offset else 0
  | _, _ => 0

theorem lag_self (number : Nat) : p.lag number number = 0 := by
  unfold lag
  cases p.matrixExternal? number with
  | none => rfl
  | some x => simp

theorem lag_of_owned_source (h : p.matrixExternal? source = none) : p.lag source target = 0 := by
  simp only [lag, h]

theorem lag_of_owned_target (h : p.matrixExternal? target = none) : p.lag source target = 0 := by
  unfold lag
  rw [h]
  split
  · rename_i hy
    cases hy
  · rfl

theorem eq_lag_add_of_matrixAt_eq (hne : source ≠ target) {i j : Nat}
    (h : p.matrixAt source i = p.matrixAt target j) :
    i = p.lag source target + j ∨ p.lag source target = 0 ∧ i < j := by
  unfold matrixAt at h
  unfold lag
  cases hx : p.matrixExternal? source with
  | none =>
      cases hy : p.matrixExternal? target with
      | none =>
          rw [hx, hy] at h
          exact absurd (Cell.owned.inj h).1 hne
      | some y =>
          rw [hx, hy] at h
          cases h
  | some x =>
      cases hy : p.matrixExternal? target with
      | none =>
          rw [hx, hy] at h
          cases h
      | some y =>
          rw [hx, hy] at h
          obtain ⟨hmemory, hindex⟩ := Cell.shared.inj h
          simp only [hmemory, if_true]
          omega

theorem matrixAt_of_lag_le (hlag : p.lag source target ≠ 0) {i : Nat}
    (hi : p.lag source target ≤ i) :
    p.matrixAt source i = p.matrixAt target (i - p.lag source target) := by
  unfold lag at hlag hi ⊢
  unfold matrixAt
  cases hx : p.matrixExternal? source with
  | none =>
      rw [hx] at hlag
      exact absurd rfl hlag
  | some x =>
      cases hy : p.matrixExternal? target with
      | none =>
          rw [hx, hy] at hlag
          exact absurd rfl hlag
      | some y =>
          rw [hx, hy] at hlag hi
          dsimp only at hlag hi ⊢
          split at hlag
          · rename_i hmemory
            rw [if_pos hmemory] at hi ⊢
            rw [External.cellAt, External.cellAt, hmemory]
            congr 1
            omega
          · exact absurd rfl hlag

theorem matrixCell_copyMatrix_mod_lag {s : Store}
    (hhas : ∀ i < (p.matrixType target).length, s.shape.Has (.cell (p.matrixAt target i)))
    {i : Nat} (hi : i < (p.matrixType target).length) :
    p.matrixCell (p.copyMatrix source target s) target i =
      p.matrixCell s source (i % p.lag source target) := by
  by_cases h : source = target
  · subst h
    rw [copyMatrix, if_pos rfl, lag_self, Nat.mod_zero]
  · rw [copyMatrix_eq p h, matrixCell_eq, matrixCell_eq]
    refine cell_copyCells_mod (fun _ _ => matrixAt_injective) (fun i j hj hnew heq => ?_)
      (fun _ hlag hle => matrixAt_of_lag_le hlag hle) hhas hi
    rcases eq_lag_add_of_matrixAt_eq h heq with hat | hat <;> omega

theorem matrixAt_of_owned (h : p.matrixExternal? m = none) (i : Nat) :
    p.matrixAt m i = .owned m i := by
  simp only [matrixAt, h]

theorem matrixArea_disjoint_of_owned (h : p.matrixExternal? m = none) (hne : m ≠ n) :
    Disjoint (p.matrixArea m) (p.matrixArea n) := by
  refine Set.disjoint_left.mpr fun a ha ha' => ?_
  obtain ⟨i, -, rfl⟩ := ha
  obtain ⟨j, -, heq⟩ := ha'
  have hcell : .owned m i = p.matrixAt n j := by
    rw [← matrixAt_of_owned h]
    exact Address.cell.inj heq
  unfold matrixAt at hcell
  split at hcell
  · cases hcell
  · exact hne (Cell.owned.inj hcell).1

theorem matrixArea_disjoint_external_of_owned (h : p.matrixExternal? m = none) (t : DataType) :
    Disjoint (p.matrixArea m) (p.area t (.external n)) := by
  refine Set.disjoint_left.mpr fun a ha ha' => ?_
  obtain ⟨i, -, rfl⟩ := ha
  obtain ⟨x, -, heq⟩ := ha'
  rw [matrixAt_of_owned h] at heq
  cases heq

theorem matrixArea_disjoint_variable (number : Nat) (t : DataType) (offset : Nat) :
    Disjoint (p.matrixArea number) (p.area t (.variable offset)) := by
  refine Set.disjoint_left.mpr fun a ha ha' => ?_
  obtain ⟨i, -, rfl⟩ := ha
  obtain ⟨o, -, -, heq⟩ := ha'
  cases heq

def written (p : Program) : Opcode → Set Address
  | .storeVariable offset k => p.area (.scalar k) (.variable offset)
  | .storeExternal number k => p.area (.scalar k) (.external number)
  | .storeMatrix target | .copyMatrix _ target | .matrix _ target => p.matrixArea target
  | _ => ∅

theorem content_of_not_written {checked : Bool} {st st' : State} {opcode : Opcode} {a : Address}
    (h : p.step checked opcode st = .ok st') (ha : a ∉ p.written opcode) :
    st'.store.content a = st.store.content a := by
  cases opcode with
  | loadConstant offset k => rw [store_of_push h]
  | loadVariable offset k => rw [store_of_push h]
  | loadExternal number k => rw [store_of_push h]
  | loadMatrix number => rw [store_of_push h]
  | storeVariable offset k =>
      rw [step] at h
      obtain ⟨w, -, hstore⟩ := store_of_popInto h
      rw [hstore]
      exact Store.content_writeScalar_of_outside _ _ fun o hlow hhigh heq =>
        ha ⟨o, hlow, hhigh, heq⟩
  | storeExternal number k =>
      rw [step] at h
      obtain ⟨w, -, hstore⟩ := store_of_popInto h
      rw [hstore]
      cases hx : p.bindings[number]? with
      | none => simp only [setBindingCell, hx]
      | some x =>
          rw [setBindingCell_eq hx]
          exact Store.content_setCell_of_ne _ (fun heq => ha ⟨x, hx, heq⟩) w
  | storeMatrix target =>
      rw [step] at h
      obtain ⟨w, -, hstore⟩ := store_of_popInto h
      rw [hstore]
      exact p.content_copyMatrix_of_not_mem _ target st.store ha
  | copyMatrix depth target =>
      rw [step] at h
      split at h
      · cases h
      · obtain rfl := Except.ok.inj h
        exact p.content_copyMatrix_of_not_mem _ target st.store ha
  | cast j k depth implicit => rw [store_of_castStep h]
  | scalar kernel k =>
      obtain ⟨stack, -, rfl⟩ := map_eq_ok h
      rfl
  | matrix op target =>
      obtain ⟨cells, hlen, hstore⟩ := store_of_matrixStep h
      rw [hstore]
      exact p.content_setMatrixCells_of_not_mem target st.store hlen ha

theorem matrixCell_of_not_written {checked : Bool} {st st' : State} {opcode : Opcode}
    (h : p.step checked opcode st = .ok st')
    (hdisjoint : Disjoint (p.matrixArea m) (p.written opcode)) {i : Nat}
    (hi : i < (p.matrixType m).length) :
    p.matrixCell st'.store m i = p.matrixCell st.store m i := by
  rw [matrixCell_eq, matrixCell_eq]
  exact content_of_not_written h (Set.disjoint_left.mp hdisjoint (matrixAt_mem_matrixArea hi))

section Admitted

variable {hs hs' : List Held} {e : Entry} {depth held : Nat}

def StoresOver (p : Program) (number : Nat) : Opcode → Prop
  | .storeExternal target k =>
      ∃ a ∈ p.matrixArea number, a ∈ p.area (.scalar k) (.external target)
  | .storeMatrix target =>
      target ≠ number ∧ ∃ a ∈ p.matrixArea number, a ∈ p.matrixArea target
  | _ => False

theorem getElem?_below_top {α : Type} {x y : α} {xs : List α} {depth : Nat}
    (h : (x :: xs)[depth]? = some y) (hle : 1 ≤ depth) : xs[depth - 1]? = some y := by
  rwa [List.getElem?_cons, if_neg (by omega)] at h

theorem Admits.stored_ne (h : p.Admits hs e hs') (hat : hs[depth]? = some (.matrix held))
    (hleft : e.takes ≤ depth) : e.opcode ≠ .storeMatrix held := by
  intro hop
  cases h with
  | storeMatrix hsource htarget hfree =>
      obtain rfl := Opcode.storeMatrix.inj hop
      exact hfree (List.mem_of_getElem? (getElem?_below_top hat hleft))
  | _ => cases hop

theorem Admits.spares (h : p.Admits hs e hs') (hat : hs[depth]? = some (.matrix held))
    (hleft : e.takes ≤ depth)
    (hclear : p.matrixExternal? held = none ∨ ¬ p.StoresOver held e.opcode) :
    Disjoint (p.matrixArea held) (p.written e.opcode) := by
  have hstored := h.stored_ne hat hleft
  have hmem := List.mem_of_getElem? hat
  have htemporary {target : Nat} (htemp : p.Temporary target) (hfree : .matrix target ∉ hs) :
      Disjoint (p.matrixArea held) (p.matrixArea target) := by
    refine (matrixArea_disjoint_of_owned htemp.owned ?_).symm
    rintro rfl
    exact hfree hmem
  cases h with
  | storeVariable => exact matrixArea_disjoint_variable held _ _
  | @storeExternal _ target k =>
      rcases hclear with howned | hclear
      · exact matrixArea_disjoint_external_of_owned howned (.scalar k)
      · exact Set.disjoint_left.mpr fun a ha ha' => hclear ⟨a, ha, ha'⟩
  | storeMatrix =>
      have hne := fun heq => hstored (congrArg Opcode.storeMatrix heq)
      rcases hclear with howned | hclear
      · exact matrixArea_disjoint_of_owned howned fun heq => hne heq.symm
      · exact Set.disjoint_left.mpr fun a ha ha' => hclear ⟨hne, a, ha, ha'⟩
  | copyMatrix _ _ _ htemp hfree => exact htemporary htemp hfree
  | matrix _ htemp hfree => exact htemporary htemp hfree
  | _ => exact Set.disjoint_empty _

end Admitted

end Program

end FormulaMachine
