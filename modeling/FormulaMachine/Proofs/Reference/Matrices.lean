import FormulaMachine.Proofs.Reference.Data

namespace FormulaMachine

theorem getD_map_range {α : Type} (f : Nat → α) (d : α) {n i : Nat} (h : i < n) :
    ((List.range n).map f).getD i d = f i := by
  simp [List.getD, h]

namespace Datum

variable {k : Kind}

@[simp] theorem scalarOf_scalar (x : Scalar k) : (Datum.scalar x).scalarOf k = .ok x := by
  simp [scalarOf]

@[simp] theorem elements_matrix (rows cols : Nat) (xs : List (Scalar k)) :
    (Datum.matrix rows cols xs).elements k = .ok xs := by
  simp [elements]

end Datum

namespace Program

variable {p : Program} {s : Store} {checked : Bool} {k : Kind}

theorem elementwise_eq (op : Arithmetic) (n a b : Nat) :
    p.elementwise checked op k n s a b =
      (Datum.elementwise checked op ((List.range n).map (p.element s k a))
        ((List.range n).map (p.element s k b))).map (List.map Scalar.toWord) := by
  rw [elementwise, mapM_map_result, Datum.elementwise, List.zip_map', List.mapM_map]
  rfl

theorem scaled_eq (n a : Nat) (c : Scalar k) :
    p.scaled checked k n s a c =
      (Datum.scaled checked c ((List.range n).map (p.element s k a))).map
        (List.map Scalar.toWord) := by
  rw [scaled, mapM_map_result, Datum.scaled, List.mapM_map]
  rfl

theorem rowTimesColumn_eq {rows inner cols a b i j : Nat} (hi : i < rows) (hj : j < cols) :
    p.rowTimesColumn checked k inner cols s a b i j =
      Datum.rowTimesColumn checked inner cols ((List.range (rows * inner)).map (p.element s k a))
        ((List.range (inner * cols)).map (p.element s k b)) i j := by
  refine foldlM_congr (fun sum t ht => ?_) _
  have hlt := List.mem_range.mp ht
  have hrow : i * inner + t < rows * inner := by
    calc i * inner + t < i * inner + inner := by omega
      _ = (i + 1) * inner := by rw [Nat.succ_mul]
      _ ≤ rows * inner := Nat.mul_le_mul_right inner hi
  have hcol : t * cols + j < inner * cols := by
    calc t * cols + j < t * cols + cols := by omega
      _ = (t + 1) * cols := by rw [Nat.succ_mul]
      _ ≤ inner * cols := Nat.mul_le_mul_right cols hlt
  rw [getD_map_range _ _ hrow, getD_map_range _ _ hcol]

theorem product_eq (rows inner cols a b : Nat) :
    p.product checked k rows inner cols s a b =
      (Datum.product checked rows inner cols ((List.range (rows * inner)).map (p.element s k a))
        ((List.range (inner * cols)).map (p.element s k b))).map (List.map Scalar.toWord) := by
  rw [product, mapM_map_result, Datum.product]
  congr 1
  refine mapM_congr fun n hn => ?_
  obtain ⟨hrow, hcol⟩ := row_column_lt (List.mem_range.mp hn)
  exact rowTimesColumn_eq hrow hcol

theorem matrixResult_eq (checked : Bool) (s : Store) (hfew : p.matrices.size ≤ 1 <<< 16)
    {op : MatrixOp} {target rows cols : Nat} {a b : Held} {wa wb : Word}
    (h : p.Combines op target a b) (ht : p.matrixType target = .matrix k rows cols)
    (ha : a.Matches wa) (hb : b.Matches wb) :
    p.matrixResult checked op (p.matrixType target) s wa wb =
      (Datum.combine checked k op rows cols (p.heldDatum s a wa) (p.heldDatum s b wb)).map
        (List.map Scalar.toWord) := by
  have htype {k' : Kind} {rows' cols' : Nat} (ht' : p.matrixType target = .matrix k' rows' cols') :
      k' = k ∧ rows' = rows ∧ cols' = cols := by
    rw [ht] at ht'
    exact DataType.matrix.inj ht'.symm
  have hword {m : Nat} {k' : Kind} {rows' cols' : Nat}
      (hm : p.matrixType m = .matrix k' rows' cols') : (matrixWord m).toNat = m :=
    toNat_matrixWord hfew (lt_of_matrixType hm)
  cases h with
  | sum _ ht' hm hn =>
      obtain ⟨rfl, rfl, rfl⟩ := htype ht'
      obtain rfl := ha
      obtain rfl := hb
      rw [matrixResult, ht, hword hm, hword hn]
      simp only [heldDatum, matrixDatum_eq hm, matrixDatum_eq hn, Datum.combine,
        Datum.elements_matrix]
      exact elementwise_eq _ _ _ _
  | sub _ ht' hm hn =>
      obtain ⟨rfl, rfl, rfl⟩ := htype ht'
      obtain rfl := ha
      obtain rfl := hb
      rw [matrixResult, ht, hword hm, hword hn]
      simp only [heldDatum, matrixDatum_eq hm, matrixDatum_eq hn, Datum.combine,
        Datum.elements_matrix]
      exact elementwise_eq _ _ _ _
  | product _ ht' hm hn =>
      obtain ⟨rfl, rfl, rfl⟩ := htype ht'
      obtain rfl := ha
      obtain rfl := hb
      rw [matrixResult, ht, hword hm, hword hn]
      simp only [heldDatum, matrixDatum_eq hm, matrixDatum_eq hn, Datum.combine,
        Datum.elements_matrix, hm]
      exact product_eq _ _ _ _ _
  | scaleLeft _ ht' hn =>
      obtain ⟨rfl, rfl, rfl⟩ := htype ht'
      obtain ⟨c, rfl⟩ := ha
      obtain rfl := hb
      rw [matrixResult, ht, hword hn]
      simp only [heldDatum, matrixDatum_eq hn, Datum.combine, Datum.elements_matrix,
        Datum.scalarOf_scalar, DataType.kind?, Scalar.ofWord_toWord]
      exact scaled_eq _ _ _
  | scaleRight _ ht' hm =>
      obtain ⟨rfl, rfl, rfl⟩ := htype ht'
      obtain rfl := ha
      obtain ⟨c, rfl⟩ := hb
      rw [matrixResult, ht, hword hm]
      simp only [heldDatum, matrixDatum_eq hm, Datum.combine, Datum.elements_matrix,
        Datum.scalarOf_scalar, DataType.kind?, Scalar.ofWord_toWord]
      exact scaled_eq _ _ _

theorem length_of_combine (hfew : p.matrices.size ≤ 1 <<< 16) {op : MatrixOp}
    {target rows cols : Nat} {a b : Held} {wa wb : Word} {xs : List (Scalar k)}
    (hc : p.Combines op target a b) (ht : p.matrixType target = .matrix k rows cols)
    (ha : a.Matches wa) (hb : b.Matches wb)
    (h : Datum.combine checked k op rows cols (p.heldDatum s a wa) (p.heldDatum s b wb) = .ok xs) :
    xs.length = rows * cols := by
  have hcells := matrixResult_eq checked s hfew hc ht ha hb
  rw [h] at hcells
  have hlen := length_of_matrixResult hcells
  rwa [List.length_map, ht] at hlen

end Program

end FormulaMachine
