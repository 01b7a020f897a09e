import FormulaMachine.Proofs.Machine.Memory
import FormulaMachine.Proofs.Results

namespace FormulaMachine

structure Store.ChangedIn (area : Set Address) (s s' : Store) : Prop where
  shape : s'.shape = s.shape
  content : ∀ a ∉ area, s'.content a = s.content a

def External.cellAt (x : External) (i : Nat) : Cell :=
  .shared x.memory.number (x.offset + i)

namespace Program

variable (p : Program)

def matrixAt (number i : Nat) : Cell :=
  match p.matrixExternal? number with
  | some x => x.cellAt i
  | none => .owned number i

def matrixArea (number : Nat) : Set Address :=
  {a | ∃ i < (p.matrixType number).length, a = .cell (p.matrixAt number i)}

theorem matrixCell_eq (s : Store) (number i : Nat) :
    p.matrixCell s number i = s.cell (p.matrixAt number i) := by
  unfold matrixCell matrixAt
  cases p.matrixExternal? number <;> rfl

theorem setMatrixCell_eq (s : Store) (number i : Nat) (w : Word) :
    p.setMatrixCell s number i w = s.setCell (p.matrixAt number i) w := by
  unfold setMatrixCell matrixAt
  cases p.matrixExternal? number <;> rfl

variable {p}

theorem bindingCell_eq {number : Nat} {x : External} (h : p.bindings[number]? = some x)
    (s : Store) : p.bindingCell s number = s.cell (x.cellAt 0) := by
  simp only [bindingCell, h]
  rfl

theorem setBindingCell_eq {number : Nat} {x : External} (h : p.bindings[number]? = some x)
    (s : Store) (w : Word) : p.setBindingCell s number w = s.setCell (x.cellAt 0) w := by
  simp only [setBindingCell, h]
  rfl

theorem matrixAt_injective {number i j : Nat} (h : p.matrixAt number i = p.matrixAt number j) :
    i = j := by
  unfold matrixAt at h
  cases hx : p.matrixExternal? number with
  | none =>
      simp only [hx, Cell.owned.injEq] at h
      exact h.2
  | some x =>
      simp only [hx, External.cellAt, Cell.shared.injEq] at h
      omega

theorem matrixAt_mem_matrixArea {number i : Nat} (h : i < (p.matrixType number).length) :
    .cell (p.matrixAt number i) ∈ p.matrixArea number :=
  ⟨i, h, rfl⟩

theorem matrixCell_of_changedIn {area : Set Address} {s s' : Store} {number i : Nat}
    (h : s.ChangedIn area s')
    (harea : Disjoint (p.matrixArea number) area) (hi : i < (p.matrixType number).length) :
    p.matrixCell s' number i = p.matrixCell s number i := by
  rw [matrixCell_eq, matrixCell_eq]
  exact h.content (.cell _) (Set.disjoint_left.mp harea (matrixAt_mem_matrixArea hi))

end Program

section Fill

variable (dst : Nat → Cell)

def copyCells (src : Nat → Cell) (n : Nat) (s : Store) : Store :=
  (List.range n).foldl (fun s i => s.setCell (dst i) (s.cell (src i))) s

def setCells (s : Store) (i : Nat) : List Word → Store
  | [] => s
  | w :: ws => setCells (s.setCell (dst i) w) (i + 1) ws

theorem copyCells_succ (src : Nat → Cell) (n : Nat) (s : Store) :
    copyCells dst src (n + 1) s =
      (copyCells dst src n s).setCell (dst n) ((copyCells dst src n s).cell (src n)) := by
  simp [copyCells, List.range_succ]

@[simp] theorem shape_copyCells (src : Nat → Cell) (n : Nat) (s : Store) :
    (copyCells dst src n s).shape = s.shape := by
  induction n with
  | zero => rfl
  | succ n ih => rw [copyCells_succ, Store.shape_setCell, ih]

theorem content_copyCells_of_outside (src : Nat → Cell) (n : Nat) (s : Store) {a : Address}
    (h : ∀ i < n, a ≠ .cell (dst i)) : (copyCells dst src n s).content a = s.content a := by
  induction n with
  | zero => rfl
  | succ n ih =>
      rw [copyCells_succ, Store.content_setCell_of_ne _ (h n (by omega)),
        ih fun i hi => h i (by omega)]

@[simp] theorem shape_setCells (s : Store) (i : Nat) (ws : List Word) :
    (setCells dst s i ws).shape = s.shape := by
  induction ws generalizing s i with
  | nil => rfl
  | cons w ws ih => rw [setCells, ih, Store.shape_setCell]

theorem content_setCells_of_outside (s : Store) (i : Nat) (ws : List Word) {a : Address}
    (h : ∀ j < ws.length, a ≠ .cell (dst (i + j))) :
    (setCells dst s i ws).content a = s.content a := by
  induction ws generalizing s i with
  | nil => rfl
  | cons w ws ih =>
      have hhead : a ≠ .cell (dst i) := h 0 (by simp)
      rw [setCells, ih, Store.content_setCell_of_ne _ hhead]
      intro j hj
      have htail := h (j + 1) (by simpa using hj)
      rwa [show i + (j + 1) = i + 1 + j by omega] at htail

variable {dst} (hdst : ∀ i j, dst i = dst j → i = j)

include hdst

theorem cell_copyCells {src : Nat → Cell} {n : Nat} {s : Store}
    (hsep : ∀ i j, i < n → j < n → src i ≠ dst j)
    (hhas : ∀ i < n, s.shape.Has (.cell (dst i))) {i : Nat} (hi : i < n) :
    (copyCells dst src n s).cell (dst i) = s.cell (src i) := by
  induction n with
  | zero => omega
  | succ n ih =>
      rw [copyCells_succ]
      have hsrc : (copyCells dst src n s).cell (src n) = s.cell (src n) :=
        content_copyCells_of_outside dst src n s (a := .cell (src n)) fun j hj heq =>
          hsep n j (by omega) (by omega) (Address.cell.inj heq)
      by_cases hin : i = n
      · subst hin
        rw [Store.cell_setCell_self (by simpa using hhas i hi), hsrc]
      · have hlt : i < n := by omega
        rw [Store.cell_setCell_of_ne _ fun h => hin (hdst _ _ h).symm]
        exact ih (fun a b ha hb => hsep a b (by omega) (by omega))
          (fun j hj => hhas j (by omega)) hlt

theorem cell_setCells {s : Store} {i : Nat} {ws : List Word}
    (hhas : ∀ j < ws.length, s.shape.Has (.cell (dst (i + j)))) {j : Nat}
    (hj : j < ws.length) : (setCells dst s i ws).cell (dst (i + j)) = ws[j] := by
  induction ws generalizing s i j with
  | nil => simp at hj
  | cons w ws ih =>
      rw [setCells]
      cases j with
      | zero =>
          have hout : ∀ t < ws.length, Address.cell (dst i) ≠ .cell (dst (i + 1 + t)) := by
            intro t _ heq
            have := hdst _ _ (Address.cell.inj heq)
            omega
          have hcell := content_setCells_of_outside dst (s.setCell (dst i) w) (i + 1) ws hout
          exact hcell.trans (Store.cell_setCell_self (hhas 0 (by simp)) w)
      | succ j =>
          have hshift : i + (j + 1) = i + 1 + j := by omega
          simp only [hshift, List.getElem_cons_succ]
          refine ih (fun t ht => ?_) (by simpa using hj)
          have htail := hhas (t + 1) (by simpa using ht)
          rw [show i + (t + 1) = i + 1 + t by omega] at htail
          simpa using htail

end Fill

namespace Program

variable (p : Program)

theorem copyMatrix_eq {source target : Nat} (h : source ≠ target) (s : Store) :
    p.copyMatrix source target s =
      copyCells (p.matrixAt target) (p.matrixAt source) (p.matrixType target).length s := by
  simp only [copyMatrix, h, if_false, copyCells, setMatrixCell_eq, matrixCell_eq]

theorem setMatrixCells_eq (target : Nat) (s : Store) (i : Nat) (ws : List Word) :
    p.setMatrixCells target s i ws = setCells (p.matrixAt target) s i ws := by
  induction ws generalizing s i with
  | nil => rfl
  | cons w ws ih => rw [setMatrixCells, setCells, ih, setMatrixCell_eq]

@[simp] theorem shape_copyMatrix (source target : Nat) (s : Store) :
    (p.copyMatrix source target s).shape = s.shape := by
  by_cases h : source = target
  · rw [copyMatrix, if_pos h]
  · rw [copyMatrix_eq p h, shape_copyCells]

@[simp] theorem shape_setMatrixCells (target : Nat) (s : Store) (i : Nat) (ws : List Word) :
    (p.setMatrixCells target s i ws).shape = s.shape := by
  rw [setMatrixCells_eq, shape_setCells]

@[simp] theorem shape_setBindingCell (s : Store) (number : Nat) (w : Word) :
    (p.setBindingCell s number w).shape = s.shape := by
  cases h : p.bindings[number]? with
  | none => simp only [setBindingCell, h]
  | some x => rw [setBindingCell_eq h, Store.shape_setCell]

theorem content_copyMatrix_of_not_mem (source target : Nat) (s : Store) {a : Address}
    (h : a ∉ p.matrixArea target) : (p.copyMatrix source target s).content a = s.content a := by
  by_cases hst : source = target
  · rw [copyMatrix, if_pos hst]
  · rw [copyMatrix_eq p hst]
    exact content_copyCells_of_outside _ _ _ _ fun i hi ha => h ⟨i, hi, ha⟩

theorem content_setMatrixCells_of_not_mem (target : Nat) (s : Store) {ws : List Word}
    (hlen : ws.length = (p.matrixType target).length) {a : Address}
    (h : a ∉ p.matrixArea target) :
    (p.setMatrixCells target s 0 ws).content a = s.content a := by
  rw [setMatrixCells_eq]
  refine content_setCells_of_outside _ _ _ _ fun i hi ha => h ⟨i, hlen ▸ hi, ?_⟩
  rwa [Nat.zero_add] at ha

variable {p}

theorem changedIn_copyMatrix (source target : Nat) (s : Store) :
    s.ChangedIn (p.matrixArea target) (p.copyMatrix source target s) :=
  ⟨p.shape_copyMatrix _ _ _, fun _ ha => p.content_copyMatrix_of_not_mem source target s ha⟩

theorem changedIn_setMatrixCells {target : Nat} {ws : List Word} (s : Store)
    (hlen : ws.length = (p.matrixType target).length) :
    s.ChangedIn (p.matrixArea target) (p.setMatrixCells target s 0 ws) :=
  ⟨p.shape_setMatrixCells _ _ _ _, fun _ ha =>
    p.content_setMatrixCells_of_not_mem target s hlen ha⟩

theorem matrixCell_copyMatrix {source target : Nat} {s : Store}
    (hlen : (p.matrixType source).length = (p.matrixType target).length)
    (hsep : source ≠ target → Disjoint (p.matrixArea source) (p.matrixArea target))
    (hhas : ∀ i < (p.matrixType target).length, s.shape.Has (.cell (p.matrixAt target i)))
    {i : Nat} (hi : i < (p.matrixType target).length) :
    p.matrixCell (p.copyMatrix source target s) target i = p.matrixCell s source i := by
  by_cases h : source = target
  · subst h
    rw [copyMatrix, if_pos rfl]
  · rw [copyMatrix_eq p h, matrixCell_eq, matrixCell_eq]
    refine cell_copyCells (fun _ _ => matrixAt_injective) (fun i j hi hj heq => ?_) hhas hi
    refine Set.disjoint_left.mp (hsep h) (matrixAt_mem_matrixArea (hlen ▸ hi)) ?_
    rw [heq]
    exact matrixAt_mem_matrixArea hj

theorem matrixCell_setMatrixCells {target : Nat} {s : Store} {ws : List Word}
    (hhas : ∀ i < ws.length, s.shape.Has (.cell (p.matrixAt target i))) {i : Nat}
    (hi : i < ws.length) : p.matrixCell (p.setMatrixCells target s 0 ws) target i = ws[i] := by
  rw [setMatrixCells_eq, matrixCell_eq]
  have h : (setCells (p.matrixAt target) s 0 ws).cell (p.matrixAt target (0 + i)) = ws[i] :=
    cell_setCells (fun _ _ => matrixAt_injective) (by simpa using hhas) hi
  rwa [Nat.zero_add] at h

section Steps

variable {checked : Bool} {st st' : State}

theorem length_of_matrixResult {op : MatrixOp} {type : DataType} {s : Store} {a b : Word}
    {cells : List Word} (h : p.matrixResult checked op type s a b = .ok cells) :
    cells.length = type.length := by
  unfold matrixResult at h
  cases type with
  | void => cases h
  | scalar k =>
      cases op with
      | product => exact (length_of_mapM h).trans List.length_range
      | _ => exact (length_of_mapM h).trans List.length_range
  | matrix k rows cols =>
      cases op with
      | product => exact (length_of_mapM h).trans List.length_range
      | _ => exact (length_of_mapM h).trans List.length_range

theorem store_of_push {w : Word} (h : p.push w st = .ok st') :
    st'.store = st.store := by
  unfold push at h
  split at h
  · obtain rfl := Except.ok.inj h
    rfl
  · cases h

theorem store_of_popInto {keep : Word → Store → Store}
    (h : popInto st keep = .ok st') :
    ∃ w, st.stack.slots[0]? = some w ∧ st'.store = keep w st.store := by
  unfold popInto at h
  split at h
  · cases h
  · rename_i w ws hslots
    obtain rfl := Except.ok.inj h
    exact ⟨w, by rw [hslots]; rfl, rfl⟩

theorem slots_of_popInto {keep : Word → Store → Store} (h : popInto st keep = .ok st') :
    st'.stack.slots = st.stack.slots.drop 1 := by
  unfold popInto at h
  split at h
  · cases h
  · rw [← Except.ok.inj h]
    rfl

theorem store_of_castStep {j k : Kind} {depth : Nat}
    (h : castStep checked j k depth st = .ok st') : st'.store = st.store := by
  unfold castStep at h
  split at h
  · obtain rfl := Except.ok.inj h
    rfl
  · split at h
    · cases h
    · obtain ⟨x, -, rfl⟩ := map_eq_ok h
      rfl

theorem matrixResult_of_matrixStep {op : MatrixOp} {target : Nat}
    (h : p.matrixStep checked op target st = .ok st') :
    ∃ a b cells, p.matrixResult checked op (p.matrixType target) st.store a b = .ok cells ∧
      st'.store = p.setMatrixCells target st.store 0 cells := by
  unfold matrixStep at h
  split at h
  · obtain ⟨cells, hcells, h⟩ := bind_eq_ok h
    exact ⟨_, _, cells, hcells, store_of_push h⟩
  · cases h

theorem store_of_matrixStep {op : MatrixOp} {target : Nat}
    (h : p.matrixStep checked op target st = .ok st') :
    ∃ cells : List Word, cells.length = (p.matrixType target).length ∧
      st'.store = p.setMatrixCells target st.store 0 cells := by
  obtain ⟨a, b, cells, hcells, hstore⟩ := matrixResult_of_matrixStep h
  exact ⟨cells, length_of_matrixResult hcells, hstore⟩

end Steps

end Program

end FormulaMachine
