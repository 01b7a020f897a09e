import FormulaMachine.Machine.Access
import FormulaMachine.Machine.Run
import FormulaMachine.Proofs.Machine.Bounds

namespace FormulaMachine

namespace Program

variable {p : Program} {s s' : Store} {st st' : State} {checked : Bool}

theorem shape_step {opcode : Opcode} (h : p.step checked opcode st = .ok st') :
    st'.store.shape = st.store.shape := by
  cases opcode with
  | loadConstant => rw [store_of_push h]
  | loadVariable => rw [store_of_push h]
  | loadExternal => rw [store_of_push h]
  | loadMatrix => rw [store_of_push h]
  | storeVariable offset k =>
      rw [step] at h
      obtain ⟨w, -, hstore⟩ := store_of_popInto h
      rw [hstore, Store.shape_writeScalar]
  | storeExternal number k =>
      rw [step] at h
      obtain ⟨w, -, hstore⟩ := store_of_popInto h
      rw [hstore, shape_setBindingCell]
  | storeMatrix number =>
      rw [step] at h
      obtain ⟨w, -, hstore⟩ := store_of_popInto h
      rw [hstore, shape_copyMatrix]
  | cast => rw [store_of_castStep h]
  | scalar kernel k =>
      obtain ⟨stack, -, rfl⟩ := map_eq_ok h
      rfl
  | matrix =>
      obtain ⟨cells, -, hstore⟩ := store_of_matrixStep h
      rw [hstore, shape_setMatrixCells]
  | copyMatrix depth target =>
      rw [step] at h
      split at h
      · cases h
      · obtain rfl := Except.ok.inj h
        exact p.shape_copyMatrix _ _ _

theorem shape_setMatrixCell (s : Store) (number i : Nat) (w : Word) :
    (p.setMatrixCell s number i w).shape = s.shape := by
  rw [setMatrixCell_eq, Store.shape_setCell]

theorem shape_putScalar {k : Kind} (s : Store) (x : Scalar k) (l : Location) :
    (p.putScalar s x l).shape = s.shape := by
  rcases l with offset | number | number
  · exact s.shape_writeScalar offset x
  · exact p.shape_setBindingCell s number x.toWord
  · rfl

theorem shape_setValue {name : String} {x : Value} (h : p.setValue s name x = .ok s') :
    s'.shape = s.shape := by
  unfold setValue at h
  split at h
  · cases h
  · obtain ⟨y, -, rfl⟩ := map_eq_ok h
    exact shape_putScalar s y _
  · cases h

theorem shape_setElements (name : String) (k : Kind) (number : Nat) (s : Store) (i : Nat)
    (xs : List (Scalar .float64)) : (p.setElements name k number s i xs).1.shape = s.shape := by
  induction xs generalizing s i with
  | nil => rfl
  | cons x xs ih =>
      rw [setElements]
      split
      · rfl
      · rw [ih, shape_setMatrixCell]

theorem shape_setMatrix (s : Store) (name : String) (xs : List (Scalar .float64)) :
    (p.setMatrix s name xs).1.shape = s.shape := by
  unfold setMatrix
  split
  · rfl
  · split
    · exact shape_setElements _ _ _ _ _ _
    · rfl
  · rfl

theorem Fits.of_shape (hs : p.Fits s) (h : s'.shape = s.shape) : p.Fits s' := by
  have hbytes : s'.owned.scalars.size = s.owned.scalars.size := congrArg Shape.bytes h
  have howned : s'.owned.matrices.map Array.size = s.owned.matrices.map Array.size :=
    congrArg Shape.owned h
  have hshared : s'.shared.map Array.size = s.shared.map Array.size := congrArg Shape.shared h
  have hcells (number : Nat) : s'.shared[number]?.map Array.size =
      s.shared[number]?.map Array.size := by
    rw [← Array.getElem?_map, ← Array.getElem?_map, hshared]
  refine ⟨hbytes.trans hs.bytes, howned.trans hs.owned, ⟨fun x hx => ?_, fun slot hslot x hx => ?_⟩⟩
  · rw [hcells, hs.provided.bindings x hx]
  · rw [hcells, hs.provided.matrices slot hslot x hx]

theorem fits_new {shared : Shared} (h : Provides shared p) : p.Fits ⟨p.newOwned, shared⟩ where
  bytes := by simp [newOwned]
  owned := by simp [newOwned]
  provided := h

end Program

end FormulaMachine
