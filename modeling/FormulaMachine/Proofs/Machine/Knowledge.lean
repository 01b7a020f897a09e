import FormulaMachine.Proofs.Compiler.Origins
import FormulaMachine.Proofs.Machine.Faults

namespace FormulaMachine

namespace Store.SameIn

variable {area area' : Set Address} {s t : Store}

theorem mono (h : SameIn area s t) (hsub : area' ⊆ area) : SameIn area' s t :=
  ⟨fun a ha => h.left a (hsub ha), fun a ha => h.right a (hsub ha),
    fun a ha => h.content a (hsub ha)⟩

theorem setCell_grow {c : Cell} (h : SameIn area s t) (hs : s.shape.Has (.cell c))
    (ht : t.shape.Has (.cell c)) (w : Word) :
    SameIn (insert (.cell c) area) (s.setCell c w) (t.setCell c w) := by
  refine ⟨fun a ha => ?_, fun a ha => ?_, fun a ha => ?_⟩
  · rw [shape_setCell]
    rcases Set.mem_insert_iff.mp ha with rfl | ha
    · exact hs
    · exact h.left a ha
  · rw [shape_setCell]
    rcases Set.mem_insert_iff.mp ha with rfl | ha
    · exact ht
    · exact h.right a ha
  · by_cases hac : a = .cell c
    · subst hac
      exact (cell_setCell_self hs w).trans (cell_setCell_self ht w).symm
    · rw [content_setCell_of_ne s hac, content_setCell_of_ne t hac]
      exact h.content a ((Set.mem_insert_iff.mp ha).resolve_left hac)

theorem writeScalar_grow {offset : Nat} {k : Kind} (h : SameIn area s t)
    (hs : ∀ o, offset ≤ o → o < offset + k.size → s.shape.Has (.byte o))
    (ht : ∀ o, offset ≤ o → o < offset + k.size → t.shape.Has (.byte o)) (x : Scalar k) :
    SameIn (area ∪ {a | ∃ o, offset ≤ o ∧ o < offset + k.size ∧ a = .byte o})
      (s.writeScalar offset x) (t.writeScalar offset x) := by
  refine ⟨fun a ha => ?_, fun a ha => ?_, fun a ha => ?_⟩
  · rw [shape_writeScalar]
    rcases ha with ha | ⟨o, hlow, hhigh, rfl⟩
    · exact h.left a ha
    · exact hs o hlow hhigh
  · rw [shape_writeScalar]
    rcases ha with ha | ⟨o, hlow, hhigh, rfl⟩
    · exact h.right a ha
    · exact ht o hlow hhigh
  · by_cases hin : ∃ o, offset ≤ o ∧ o < offset + k.size ∧ a = .byte o
    · obtain ⟨o, hlow, hhigh, rfl⟩ := hin
      rw [content_writeScalar_of_inside x hlow hhigh (hs o hlow hhigh),
        content_writeScalar_of_inside x hlow hhigh (ht o hlow hhigh)]
    · have hout : ∀ o, offset ≤ o → o < offset + k.size → a ≠ .byte o :=
        fun o hlow hhigh heq => hin ⟨o, hlow, hhigh, heq⟩
      rw [content_writeScalar_of_outside s x hout, content_writeScalar_of_outside t x hout]
      exact h.content a (ha.resolve_right hin)

theorem copyCells_grow {dst src : Nat → Cell} {n : Nat} (h : SameIn area s t)
    (hsrc : ∀ i < n, .cell (src i) ∈ area) (hs : ∀ i < n, s.shape.Has (.cell (dst i)))
    (ht : ∀ i < n, t.shape.Has (.cell (dst i))) :
    SameIn (area ∪ {a | ∃ i < n, a = .cell (dst i)}) (FormulaMachine.copyCells dst src n s)
      (FormulaMachine.copyCells dst src n t) := by
  induction n with
  | zero =>
      refine h.mono fun a ha => ?_
      rcases ha with ha | ⟨i, hi, -⟩
      · exact ha
      · exact absurd hi (Nat.not_lt_zero i)
  | succ n ih =>
      have hn := ih (fun i hi => hsrc i (by omega)) (fun i hi => hs i (by omega))
        (fun i hi => ht i (by omega))
      rw [copyCells_succ, copyCells_succ, hn.cell (.inl (hsrc n (by omega)))]
      refine (hn.setCell_grow (c := dst n) ?_ ?_ _).mono ?_
      · rw [shape_copyCells]
        exact hs n (by omega)
      · rw [shape_copyCells]
        exact ht n (by omega)
      · rintro a (ha | ⟨i, hi, rfl⟩)
        · exact .inr (.inl ha)
        · rcases Nat.lt_succ_iff_lt_or_eq.mp hi with hi | rfl
          · exact .inr (.inr ⟨i, hi, rfl⟩)
          · exact .inl rfl

theorem setCells_grow {dst : Nat → Cell} {i : Nat} {ws : List Word} (h : SameIn area s t)
    (hs : ∀ j < ws.length, s.shape.Has (.cell (dst (i + j))))
    (ht : ∀ j < ws.length, t.shape.Has (.cell (dst (i + j)))) :
    SameIn (area ∪ {a | ∃ j < ws.length, a = .cell (dst (i + j))})
      (FormulaMachine.setCells dst s i ws) (FormulaMachine.setCells dst t i ws) := by
  induction ws generalizing area s t i with
  | nil =>
      refine h.mono fun a ha => ?_
      rcases ha with ha | ⟨j, hj, -⟩
      · exact ha
      · exact absurd hj (Nat.not_lt_zero j)
  | cons w ws ih =>
      have hshift (j : Nat) : i + 1 + j = i + (j + 1) := by omega
      have hhead := h.setCell_grow (hs 0 (by simp)) (ht 0 (by simp)) w
      refine (ih hhead ?_ ?_).mono ?_
      · intro j hj
        rw [shape_setCell, hshift]
        exact hs (j + 1) (by simpa using hj)
      · intro j hj
        rw [shape_setCell, hshift]
        exact ht (j + 1) (by simpa using hj)
      · rintro a (ha | ⟨j, hj, rfl⟩)
        · exact .inl (.inr ha)
        · cases j with
          | zero => exact .inl (.inl rfl)
          | succ j => exact .inr ⟨j, by simpa using hj, by rw [hshift]⟩

end Store.SameIn

namespace Program

variable {p : Program} {checked : Bool} {known known' : Set String} {s t : Store}
  {stack : Stack Word} {hs hs' : List Held} {e : Entry}

def seen (p : Program) (known : Set String) (hs : List Held) : Set Address :=
  {a | (∃ name ∈ known, ∃ w l, p.vars.get? name = some w ∧ w.location = some l ∧
      a ∈ p.area w.type l) ∨ ∃ m, .matrix m ∈ hs ∧ a ∈ p.matrixArea m}

theorem mem_seen_of_variable {name : String} {w : Variable} {l : Location} {a : Address}
    (hname : name ∈ known) (hw : p.vars.get? name = some w) (hl : w.location = some l)
    (ha : a ∈ p.area w.type l) : a ∈ p.seen known hs :=
  .inl ⟨name, hname, w, l, hw, hl, ha⟩

theorem mem_seen_of_held {m : Nat} {a : Address} (hm : .matrix m ∈ hs)
    (ha : a ∈ p.matrixArea m) : a ∈ p.seen known hs :=
  .inr ⟨m, hm, ha⟩

theorem seen_subset (hknown : known' ⊆ known)
    (h : ∀ m, .matrix m ∈ hs' → p.matrixArea m ⊆ p.seen known hs) :
    p.seen known' hs' ⊆ p.seen known hs := by
  rintro a (⟨name, hname, hmem⟩ | ⟨m, hm, ha⟩)
  · exact .inl ⟨name, hknown hname, hmem⟩
  · exact h m hm ha

theorem seen_subset_of_subset (hknown : known' ⊆ known)
    (h : ∀ m, .matrix m ∈ hs' → .matrix m ∈ hs) : p.seen known' hs' ⊆ p.seen known hs :=
  seen_subset hknown fun m hm _ ha => mem_seen_of_held (h m hm) ha

theorem seen_nil_subset (hknown : known' ⊆ known) : p.seen known' [] ⊆ p.seen known hs :=
  seen_subset_of_subset hknown fun _ hm => absurd hm List.not_mem_nil

theorem seen_insert_subset {name : String} {w : Variable} {l : Location} {area : Set Address}
    (hw : p.vars.get? name = some w) (hl : w.location = some l)
    (hseen : p.seen known hs ⊆ area) (harea : p.area w.type l ⊆ area) :
    p.seen (insert name known) hs ⊆ area := by
  rintro a (⟨name', rfl | hname, w', l', hw', hl', ha⟩ | ⟨m, hm, ha⟩)
  · obtain rfl := Option.some.inj (hw.symm.trans hw')
    obtain rfl := Option.some.inj (hl.symm.trans hl')
    exact harea ha
  · exact hseen (mem_seen_of_variable hname hw' hl' ha)
  · exact hseen (mem_seen_of_held hm ha)

theorem has_area (hp : p.layout.Sound) (hfit : p.Fits s) {name : String} {w : Variable}
    {l : Location} (hw : p.vars.get? name = some w) (hl : w.location = some l) {a : Address}
    (ha : a ∈ p.area w.type l) : s.shape.Has a := by
  have hkeeps := (hp.houses name w hw).keeps l hl
  rcases l with offset | number | number
  · obtain ⟨k, ht, -, hend⟩ := hkeeps
    obtain ⟨o, -, hhigh, rfl⟩ := ha
    rw [ht] at hhigh
    have hbytes : s.owned.scalars.size = p.layout.variablesSize := hfit.bytes
    show o < s.owned.scalars.size
    rw [hbytes]
    exact Nat.lt_of_lt_of_le hhigh hend
  · obtain ⟨x, hx, rfl⟩ := ha
    exact has_cellAt hp.inRange hfit hx
  · obtain ⟨i, hi, rfl⟩ := ha
    exact has_matrixAt hp.inRange hfit hi

theorem mem_matrixArea_of_cellUses {number : Nat} {indices : List Nat} {c : Address}
    (hi : ∀ i ∈ indices, i < (p.matrixType number).length)
    (hc : .address c ∈ p.cellUses number indices) : c ∈ p.matrixArea number := by
  rcases List.mem_cons.mp hc with hc | hc
  · cases hc
  · obtain ⟨i, hmem, heq⟩ := List.mem_map.mp hc
    obtain rfl := Use.address.inj heq
    exact matrixAt_mem_matrixArea (hi i hmem)

theorem Combines.operand_area {op : MatrixOp} {target : Nat} {a b : Held} {wa wb : Word}
    (hfew : p.matrices.size ≤ 1 <<< 16) (hc : p.Combines op target a b) (ha : a.Matches wa)
    (hb : b.Matches wb) {c : Address}
    (h : .address c ∈ p.operandUses op target wa.toNat wb.toNat) :
    ∃ m, .matrix m ∈ [b, a] ∧ c ∈ p.matrixArea m := by
  have hword {m r n : Nat} {k : Kind} (hm : p.matrixType m = .matrix k r n) :
      (matrixWord m).toNat = m :=
    toNat_matrixWord hfew (lt_of_matrixType hm)
  have hmem {m r n : Nat} {k : Kind} {indices : List Nat} (hm : p.matrixType m = .matrix k r n)
      (hi : ∀ i ∈ indices, i < r * n) (hc : .address c ∈ p.cellUses m indices) :
      c ∈ p.matrixArea m := by
    refine mem_matrixArea_of_cellUses (fun i hmem => ?_) hc
    rw [hm]
    exact hi i hmem
  have hrange {n : Nat} (i : Nat) (hi : i ∈ List.range n) : i < n := List.mem_range.mp hi
  cases hc with
  | @sum k rows cols _ m n _ ht hm hn =>
      obtain rfl := ha
      obtain rfl := hb
      rw [operandUses, hword hm, hword hn, ht] at h
      rcases List.mem_append.mp h with h | h
      · exact ⟨m, by simp, hmem hm hrange h⟩
      · exact ⟨n, by simp, hmem hn hrange h⟩
  | @sub k rows cols _ m n _ ht hm hn =>
      obtain rfl := ha
      obtain rfl := hb
      rw [operandUses, hword hm, hword hn, ht] at h
      rcases List.mem_append.mp h with h | h
      · exact ⟨m, by simp, hmem hm hrange h⟩
      · exact ⟨n, by simp, hmem hn hrange h⟩
  | @product k rows inner cols _ m n _ ht hm hn =>
      obtain rfl := ha
      obtain rfl := hb
      rw [operandUses, hword hm, hword hn, ht, hm] at h
      rcases List.mem_append.mp h with h | h
      · exact ⟨m, by simp, hmem hm rowIndices_lt h⟩
      · exact ⟨n, by simp, hmem hn columnIndices_lt h⟩
  | @scaleLeft k rows cols _ n _ ht hn =>
      obtain rfl := hb
      rw [operandUses, hword hn, ht] at h
      exact ⟨n, by simp, hmem hn hrange h⟩
  | @scaleRight k rows cols _ m _ ht hm =>
      obtain rfl := ha
      rw [operandUses, hword hm, ht] at h
      exact ⟨m, by simp, hmem hm hrange h⟩

section Steps

variable (hp : p.layout.Sound)

include hp

theorem load_alike_seen {name : String} {w : Variable} {l : Location} (hname : name ∈ known)
    (hw : p.vars.get? name = some w) (hl : w.location = some l)
    (h : s.SameIn (p.seen known hs) t) :
    Alike (p.seen known (l.held w.type :: hs))
      (p.step checked (Draft.loadOpcode (Draft.elementKind w.type) l) ⟨s, stack⟩)
      (p.step checked (Draft.loadOpcode (Draft.elementKind w.type) l) ⟨t, stack⟩) := by
  have hkeeps := (hp.houses name w hw).keeps l hl
  have hsub : p.seen known (l.held w.type :: hs) ⊆ p.seen known hs := by
    refine seen_subset subset_rfl fun m hm a ha => ?_
    rcases List.mem_cons.mp hm with hm | hm
    · rcases l with offset | number | number
      · cases hm
      · cases hm
      · obtain rfl := Held.matrix.inj hm
        exact mem_seen_of_variable hname hw hl ha
    · exact mem_seen_of_held hm ha
  have hsame := h.mono hsub
  rcases l with offset | number | number
  · obtain ⟨k, ht, -, -⟩ := hkeeps
    have hread : s.readScalar offset k = t.readScalar offset k := by
      refine h.readScalar fun o hlow hhigh => mem_seen_of_variable hname hw hl ⟨o, hlow, ?_, rfl⟩
      rw [ht]
      exact hhigh
    rw [ht] at hsame ⊢
    simp only [Draft.loadOpcode, step]
    rw [Draft.elementKind, DataType.kind?, Option.getD_some, hread]
    exact push_alike _ hsame
  · have hcell : p.bindingCell s number = p.bindingCell t number := by
      obtain ⟨k, x, -, -, hx⟩ := hkeeps
      rw [bindingCell_eq hx, bindingCell_eq hx]
      exact h.cell (mem_seen_of_variable hname hw hl ⟨x, hx, rfl⟩)
    simp only [Draft.loadOpcode, step, hcell]
    exact push_alike _ hsame
  · exact push_alike _ hsame

variable (hfs : p.Fits s) (hft : p.Fits t)

include hfs hft

theorem store_alike_seen {name : String} {w : Variable} {l : Location} {x : Held}
    (hw : p.vars.get? name = some w) (hl : w.location = some l) (hx : x.HasType p w.type)
    (hwords : List.Forall₂ Held.Matches (x :: hs) stack.slots)
    (h : s.SameIn (p.seen known (x :: hs)) t) :
    Alike (p.seen (insert name known) hs)
      (p.step checked (Draft.storeOpcode (Draft.elementKind w.type) l) ⟨s, stack⟩)
      (p.step checked (Draft.storeOpcode (Draft.elementKind w.type) l) ⟨t, stack⟩) := by
  have hkeeps := (hp.houses name w hw).keeps l hl
  have hsub : p.seen known hs ⊆ p.seen known (x :: hs) :=
    seen_subset_of_subset subset_rfl fun m hm => List.mem_cons_of_mem _ hm
  have hhas (a : Address) (ha : a ∈ p.area w.type l) := has_area hp hfs hw hl ha
  have hhas' (a : Address) (ha : a ∈ p.area w.type l) := has_area hp hft hw hl ha
  rcases l with offset | number | number
  · obtain ⟨k, ht, -, -⟩ := hkeeps
    simp only [Draft.storeOpcode, step]
    refine popInto_alike fun v _ => ?_
    rw [ht] at hhas hhas' ⊢
    refine (h.writeScalar_grow (fun o hlow hhigh => hhas _ ⟨o, hlow, hhigh, rfl⟩)
      (fun o hlow hhigh => hhas' _ ⟨o, hlow, hhigh, rfl⟩) _).mono ?_
    refine seen_insert_subset hw hl (fun a ha => .inl (hsub ha)) ?_
    rw [ht]
    exact fun a ha => .inr ha
  · obtain ⟨k, b, -, -, hb⟩ := hkeeps
    simp only [Draft.storeOpcode, step]
    refine popInto_alike fun v _ => ?_
    rw [setBindingCell_eq hb, setBindingCell_eq hb]
    refine (h.setCell_grow (hhas _ ⟨b, hb, rfl⟩) (hhas' _ ⟨b, hb, rfl⟩) v).mono ?_
    refine seen_insert_subset hw hl (fun a ha => .inr (hsub ha)) ?_
    rintro a ⟨b', hb', rfl⟩
    obtain rfl := Option.some.inj (hb.symm.trans hb')
    exact .inl rfl
  · obtain ⟨k, rows, cols, ht, htarget⟩ := hkeeps.eq_matrix (p := p) .refl
    rw [ht] at hx
    obtain ⟨source, rfl, hsource⟩ := hx.eq_matrix
    obtain ⟨v, ws, hv, -, hslots⟩ := List.forall₂_cons_left_iff.mp hwords
    obtain rfl := hv
    refine popInto_alike fun v hv => ?_
    rw [hslots] at hv
    obtain rfl := Option.some.inj hv
    rw [toNat_matrixWord hp.matricesFew (lt_of_matrixType hsource)]
    by_cases hne : source = number
    · simp only [copyMatrix, if_pos hne]
      refine h.mono (seen_insert_subset hw hl hsub fun a ha => ?_)
      exact mem_seen_of_held List.mem_cons_self (hne ▸ ha)
    · rw [copyMatrix_eq p hne, copyMatrix_eq p hne]
      refine (h.copyCells_grow (fun i hi => ?_) (fun i hi => hhas _ ⟨i, hi, rfl⟩)
        (fun i hi => hhas' _ ⟨i, hi, rfl⟩)).mono ?_
      · refine mem_seen_of_held List.mem_cons_self (matrixAt_mem_matrixArea ?_)
        rwa [hsource, ← htarget]
      · exact seen_insert_subset hw hl (fun a ha => .inl (hsub ha)) fun a ha => .inr ha

theorem copy_alike_seen {depth source target rows cols : Nat} {k : Kind}
    (hat : hs[depth]? = some (.matrix source)) (hsource : p.matrixType source = .matrix k rows cols)
    (htarget : p.matrixType target = .matrix k rows cols)
    (hfree : .matrix target ∉ hs)
    (hwords : List.Forall₂ Held.Matches hs stack.slots) (h : s.SameIn (p.seen known hs) t) :
    Alike (p.seen known (hs.set depth (.matrix target)))
      (p.step checked (.copyMatrix depth target) ⟨s, stack⟩)
      (p.step checked (.copyMatrix depth target) ⟨t, stack⟩) := by
  obtain ⟨w, hw, rfl⟩ := forall₂_getElem?_left hwords hat
  have hmem := List.mem_of_getElem? hat
  have hne : source ≠ target := by
    rintro rfl
    exact hfree hmem
  simp only [step, hw, toNat_matrixWord hp.matricesFew (lt_of_matrixType hsource)]
  rw [copyMatrix_eq p hne, copyMatrix_eq p hne]
  refine .ok ((h.copyCells_grow (fun i hi => ?_) (fun i hi => has_matrixAt hp.inRange hfs hi)
    (fun i hi => has_matrixAt hp.inRange hft hi)).mono ?_)
  · refine mem_seen_of_held hmem (matrixAt_mem_matrixArea ?_)
    rwa [hsource, ← htarget]
  · rintro a (ha | ⟨m, hm, ha⟩)
    · exact .inl (.inl ha)
    · rcases List.mem_or_eq_of_mem_set hm with hm | hm
      · exact .inl (mem_seen_of_held hm ha)
      · obtain rfl := Held.matrix.inj hm
        exact .inr ha

theorem matrix_alike_seen {op : MatrixOp} {target : Nat} {a b : Held}
    (hc : p.Combines op target a b)
    (hwords : List.Forall₂ Held.Matches (b :: a :: hs) stack.slots)
    (h : s.SameIn (p.seen known (b :: a :: hs)) t) :
    Alike (p.seen known (.matrix target :: hs)) (p.step checked (.matrix op target) ⟨s, stack⟩)
      (p.step checked (.matrix op target) ⟨t, stack⟩) := by
  obtain ⟨wb, ws, hb, hws, hslots⟩ := List.forall₂_cons_left_iff.mp hwords
  obtain ⟨wa, rest, ha, -, rfl⟩ := List.forall₂_cons_left_iff.mp hws
  have hresult : p.matrixResult checked op (p.matrixType target) s wa wb =
      p.matrixResult checked op (p.matrixType target) t wa wb := by
    refine matrixResult_same h fun c hmem => ?_
    obtain ⟨m, hm, hc⟩ := hc.operand_area hp.matricesFew ha hb hmem
    refine mem_seen_of_held ?_ hc
    rcases List.mem_pair.mp hm with hm | hm <;> simp [hm]
  simp only [step, matrixStep, hslots]
  rw [hresult]
  cases hcells : p.matrixResult checked op (p.matrixType target) t wa wb with
  | error f => exact .fault f
  | ok cells =>
      have hlen := length_of_matrixResult hcells
      refine push_alike _ ?_
      rw [setMatrixCells_eq, setMatrixCells_eq]
      refine (h.setCells_grow (fun j hj => ?_) (fun j hj => ?_)).mono ?_
      · rw [Nat.zero_add]
        exact has_matrixAt hp.inRange hfs (hlen ▸ hj)
      · rw [Nat.zero_add]
        exact has_matrixAt hp.inRange hft (hlen ▸ hj)
      · rintro c (hmem | ⟨m, hm, hmem⟩)
        · exact .inl (.inl hmem)
        · rcases List.mem_cons.mp hm with hm | hm
          · obtain rfl := Held.matrix.inj hm
            obtain ⟨i, hi, rfl⟩ := hmem
            exact .inr ⟨i, hlen.symm ▸ hi, by rw [Nat.zero_add]⟩
          · exact .inl (mem_seen_of_held (by simp [hm]) hmem)

end Steps

theorem Admits.load_eq (h : p.Admits hs e hs') {t : DataType} {l : Location}
    (hop : e.opcode = Draft.loadOpcode (Draft.elementKind t) l) : hs' = l.held t :: hs := by
  rcases l with offset | number | number <;> cases h <;> cases hop <;> rfl

theorem Admits.store_eq (hp : p.layout.Sound) (h : p.Admits hs e hs') {name : String}
    {w : Variable} {l : Location} (hw : p.vars.get? name = some w) (hl : w.location = some l)
    (hop : e.opcode = Draft.storeOpcode (Draft.elementKind w.type) l) :
    ∃ x, hs = x :: hs' ∧ x.HasType p w.type := by
  have hkeeps := (hp.houses name w hw).keeps l hl
  rcases l with offset | number | number
  · obtain ⟨k, ht, -, -⟩ := hkeeps
    rw [ht] at hop ⊢
    cases h <;> cases hop
    exact ⟨_, rfl, rfl⟩
  · obtain ⟨k, x, ht, -, -⟩ := hkeeps
    rw [ht] at hop ⊢
    cases h <;> cases hop
    exact ⟨_, rfl, rfl⟩
  · obtain ⟨k, rows, cols, ht, hm⟩ := hkeeps.eq_matrix (p := p) .refl
    rw [ht]
    cases h with
    | storeMatrix hsource htarget =>
        cases hop
        rw [hm] at htarget
        obtain ⟨rfl, rfl, rfl⟩ := DataType.matrix.inj htarget
        exact ⟨_, rfl, hsource, rfl⟩
    | _ => cases hop

theorem Admits.inner_alike (hp : p.layout.Sound) (he : p.Admits hs e hs')
    (hop : e.opcode.location? = none) (hfs : p.Fits s) (hft : p.Fits t)
    (hwords : List.Forall₂ Held.Matches hs stack.slots) (h : s.SameIn (p.seen known hs) t) :
    Alike (p.seen known hs') (p.step checked e.opcode ⟨s, stack⟩)
      (p.step checked e.opcode ⟨t, stack⟩) := by
  have hscalar (k : Kind) (hs : List Held) : p.seen known (.scalar k :: hs) ⊆ p.seen known hs :=
    seen_subset_of_subset subset_rfl fun m hm => (List.mem_cons.mp hm).resolve_left (by simp)
  cases he with
  | loadConstant => exact push_alike _ (h.mono (hscalar _ _))
  | copyMatrix hat hsource htarget _ hfree =>
      exact copy_alike_seen hp hfs hft hat hsource htarget hfree hwords h
  | @cast _ depth j k implicit line spelling hat =>
      obtain ⟨w, hw, x, rfl⟩ := forall₂_getElem?_left hwords hat
      have hsub : p.seen known (hs.set depth (.scalar k)) ⊆ p.seen known hs :=
        seen_subset_of_subset subset_rfl fun m hm =>
          (List.mem_or_eq_of_mem_set hm).resolve_right (by simp)
      rw [step, step, castStep_eq hw, castStep_eq hw]
      cases Scalar.cast checked k x with
      | error f => exact .fault f
      | ok y => exact .ok (h.mono hsub)
  | keep =>
      rw [step, step, castStep, castStep, if_pos rfl, if_pos rfl]
      exact .ok h
  | @scalar hs kernel k =>
      have hsub : p.seen known (.scalar (kernel.resultKind k) :: hs) ⊆
          p.seen known (List.replicate kernel.arity (.scalar k) ++ hs) :=
        (hscalar _ _).trans (seen_subset_of_subset subset_rfl fun m hm =>
          List.mem_append_right _ hm)
      simp only [step]
      cases kernel.onStack checked k stack with
      | error f => exact .fault f
      | ok stack => exact .ok (h.mono hsub)
  | matrix hc => exact matrix_alike_seen hp hfs hft hc hwords h
  | _ => cases hop

theorem Admits.step_alike {es : List Entry} {code : List Postfix.Instruction}
    (hp : p.layout.Sound) (he : p.Admits hs e hs') (haccesses : p.Accesses (e :: es) code)
    (hreads : Postfix.ReadsKnown known code) (hfs : p.Fits s) (hft : p.Fits t)
    (hwords : List.Forall₂ Held.Matches hs stack.slots) (h : s.SameIn (p.seen known hs) t) :
    ∃ known' code', p.Accesses es code' ∧ Postfix.ReadsKnown known' code' ∧ known ⊆ known' ∧
      Postfix.knownAfter known code ⊆ Postfix.knownAfter known' code' ∧ ∀ checked,
        Alike (p.seen known' hs') (p.step checked e.opcode ⟨s, stack⟩)
          (p.step checked e.opcode ⟨t, stack⟩) := by
  cases haccesses with
  | @load name w l _ _ code hw hl hop hrest =>
      obtain rfl := he.load_eq hop
      obtain ⟨hname, hreads⟩ := hreads.cons
      refine ⟨_, code, hrest, hreads, Postfix.subset_knownAfter _ _,
        Postfix.knownAfter_cons_subset _ _ _, fun checked => ?_⟩
      rw [hop, Postfix.knownAfter_of_ne_write known (by simp)]
      exact load_alike_seen hp (hname name rfl) hw hl h
  | @store name w l _ _ code hw hl hop hrest =>
      obtain ⟨x, rfl, hx⟩ := he.store_eq hp hw hl hop
      refine ⟨_, code, hrest, hreads.cons.2, Postfix.subset_knownAfter _ _,
        Postfix.knownAfter_cons_subset _ _ _, fun checked => ?_⟩
      rw [hop, Postfix.knownAfter_write]
      exact store_alike_seen hp hfs hft hw hl hx hwords h
  | neither hop hrest =>
      exact ⟨known, code, hrest, hreads, subset_rfl, subset_rfl,
        fun checked => he.inner_alike hp hop hfs hft hwords h⟩

section Traces

theorem Admits.left_holds {R : DataType → Word → Prop} {ws : List Word} (he : p.Admits hs e hs')
    (h : List.Forall₂ R (hs'.map p.heldType) ws) {u : DataType} {w : Word}
    (hu : e.output = some u) (hw : leftWord? e ws = some w) : R u w := by
  have hhead {x : Held} {xs : List Held} (h : List.Forall₂ R ((x :: xs).map p.heldType) ws)
      (hu : some (p.heldType x) = some u) (hw : ws.head? = some w) : R u w := by
    obtain ⟨v, vs, hv, -, rfl⟩ := List.forall₂_cons_left_iff.mp h
    obtain rfl := Option.some.inj hu
    obtain rfl := Option.some.inj hw
    exact hv
  have hplace {depth : Nat} {x y : Held} (hat : hs[depth]? = some y)
      (h : List.Forall₂ R ((hs.set depth x).map p.heldType) ws)
      (hu : some (p.heldType x) = some u) (hw : ws[depth]?.or ws.head? = some w) : R u w := by
    have hlt := (List.getElem?_eq_some_iff.mp hat).1
    have htype : ((hs.set depth x).map p.heldType)[depth]? = some (p.heldType x) := by
      rw [List.getElem?_map, List.getElem?_set_self hlt]
      rfl
    obtain ⟨v, hv, hr⟩ := forall₂_getElem?_left h htype
    rw [hv] at hw
    obtain rfl := Option.some.inj hu
    obtain rfl := Option.some.inj hw
    exact hr
  cases he with
  | loadConstant => exact hhead h hu hw
  | loadVariable => exact hhead h hu hw
  | loadExternal => exact hhead h hu hw
  | loadMatrix ht => exact hhead h ((congrArg some ht).trans hu) hw
  | storeVariable => cases hu
  | storeExternal => cases hu
  | storeMatrix => cases hu
  | copyMatrix hat _ htarget => exact hplace hat h ((congrArg some htarget).trans hu) hw
  | cast hat => exact hplace hat h hu hw
  | keep ht =>
      obtain ⟨v, vs, -, -, rfl⟩ := List.forall₂_cons_left_iff.mp h
      exact hhead h ((congrArg some ht).trans hu) hw
  | scalar => exact hhead h hu hw
  | matrix => exact hhead h hu hw

theorem zipWith_congr_of_forall₂ {α β γ : Type} {f g : α → β → γ} {xs : List α} {ys : List β}
    (h : List.Forall₂ (fun x y => f x y = g x y) xs ys) :
    List.zipWith f xs ys = List.zipWith g xs ys := by
  induction h with
  | nil => rfl
  | cons hx _ ih => rw [List.zipWith_cons_cons, List.zipWith_cons_cons, hx, ih]

def TextsAgree (p : Program) (s t : Store) (u : DataType) (w : Word) : Prop :=
  p.wordText s u w = p.wordText t u w

theorem textsAgree (hp : p.layout.Sound) (hproper : ∀ x ∈ hs, p.Proper x) {ws : List Word}
    (hwords : List.Forall₂ Held.Matches hs ws) (h : s.SameIn (p.seen known hs) t) :
    List.Forall₂ (p.TextsAgree s t) (hs.map p.heldType) ws := by
  induction hwords with
  | nil => exact .nil
  | @cons x w hs ws hx _ ih =>
      obtain ⟨hproper, hrest⟩ := List.forall_mem_cons.mp hproper
      refine .cons ?_ (ih hrest (h.mono (seen_subset_of_subset subset_rfl fun m hm =>
        List.mem_cons_of_mem _ hm)))
      cases x with
      | scalar k => rfl
      | matrix m =>
          obtain ⟨k, rows, cols, ht⟩ := DataType.eq_matrix_of_isMatrix hproper
          obtain rfl := hx
          have hcells : (List.range (rows * cols)).map (p.elementText s k m) =
              (List.range (rows * cols)).map (p.elementText t k m) := by
            refine List.map_congr_left fun i hi => ?_
            rw [elementText, elementText]
            refine congrArg Scalar.text (element_same h (mem_seen_of_held List.mem_cons_self ?_))
            refine matrixAt_mem_matrixArea ?_
            rw [ht]
            exact List.mem_range.mp hi
          rw [heldType, ht, TextsAgree, wordText, wordText,
            toNat_matrixWord hp.matricesFew (lt_of_matrixType ht), hcells]

theorem traceBefore_eq (hp : p.layout.Sound) (he : p.Admits hs e hs')
    (hproper : ∀ x ∈ hs, p.Proper x) (hwords : List.Forall₂ Held.Matches hs stack.slots)
    (h : s.SameIn (p.seen known hs) t) (position : Nat) :
    p.traceBefore position e ⟨s, stack⟩ = p.traceBefore position e ⟨t, stack⟩ := by
  have htexts := forall₂_takenWords he.taken_eq (textsAgree hp hproper hwords h)
  have hoperands : List.zipWith (p.wordText s) e.inputs (takenWords e stack.slots) =
      List.zipWith (p.wordText t) e.inputs (takenWords e stack.slots) :=
    zipWith_congr_of_forall₂ htexts
  rw [traceBefore, traceBefore]
  simp only [hoperands]

theorem traceAfter_eq (hp : p.layout.Sound) (he : p.Admits hs e hs')
    (hproper : ∀ x ∈ hs, p.Proper x) (hwords : List.Forall₂ Held.Matches hs' stack.slots)
    (h : s.SameIn (p.seen known hs') t) :
    p.traceAfter e ⟨s, stack⟩ = p.traceAfter e ⟨t, stack⟩ := by
  have htexts := textsAgree hp (he.proper hproper) hwords h
  unfold traceAfter
  cases hu : e.output with
  | none => rfl
  | some u =>
      cases hw : leftWord? e stack.slots with
      | none => rfl
      | some w =>
          have htext : p.wordText s u w = p.wordText t u w := he.left_holds htexts hu hw
          simp only [htext]

end Traces

end Program

end FormulaMachine
