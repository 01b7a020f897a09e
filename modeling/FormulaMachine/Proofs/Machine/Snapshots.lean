import FormulaMachine.Proofs.Machine.Overlap
import FormulaMachine.Proofs.Machine.Soundness
import FormulaMachine.Proofs.Reference.Matrices

namespace FormulaMachine

namespace Program

inductive Waits (p : Program) (checked : Bool) (s : Store) (number first : Nat) (read : State) :
    (pc depth : Nat) → State → Prop
  | pushed {st : State} {e : Entry} (h : p.Visits checked s first read)
      (he : p.code[first]? = some e) (hop : e.opcode = .loadMatrix number)
      (hstep : p.step checked e.opcode read = .ok st) :
      Waits p checked s number first read (first + 1) 0 st
  | next {pc depth : Nat} {st st' : State} {e : Entry}
      (h : Waits p checked s number first read pc depth st) (he : p.code[pc]? = some e)
      (hleft : e.takes ≤ depth) (hstep : p.step checked e.opcode st = .ok st') :
      Waits p checked s number first read (pc + 1) (depth - e.takes + e.leaves) st'

def WrittenBetween (p : Program) (number first pc : Nat) : Prop :=
  ∃ q e, first < q ∧ q < pc ∧ p.code[q]? = some e ∧ e.opcode = .storeMatrix number

def Undisturbed (p : Program) (number first pc : Nat) : Prop :=
  ∀ q e, first < q → q < pc → p.code[q]? = some e → p.StoresOver number e.opcode →
    p.WrittenBetween number first q

def wordDatum (p : Program) (s : Store) : DataType → Word → Datum
  | .matrix .., w => p.matrixDatum s w.toNat
  | .scalar k, w => .scalar (.ofWord k w)
  | .void, _ => .scalar (.zero .bool)

def operands (p : Program) (e : Entry) (st : State) : List Datum :=
  List.zipWith (p.wordDatum st.store) e.inputs (takenWords e st.stack.slots)

inductive TakesSnapshot (p : Program) (checked : Bool) (number first : Nat) (read : Store)
    (pc depth : Nat) (st : State) (e : Entry) : Prop
  | operation {op : MatrixOp} {target rows cols : Nat} {k : Kind} {x y : Datum}
      (hop : e.opcode = .matrix op target) (htype : p.matrixType target = .matrix k rows cols)
      (hoperands : p.operands e st = [x, y])
      (hsnapshot : [y, x][depth]? = some (p.matrixDatum read number))
      (hstep : p.step checked e.opcode st =
        (Datum.combine checked k op rows cols x y).map fun xs =>
          ⟨p.setMatrixCells target st.store 0 (xs.map Scalar.toWord),
            (st.stack.drop 2).push (matrixWord target)⟩)
  | write {target d : Nat} {st' : State} (hop : e.opcode = .storeMatrix target)
      (hstep : p.step checked e.opcode st = .ok st')
      (hlag : d = 0 ∨ d = p.lag number target ∧ ¬ p.WrittenBetween number first pc)
      (hcells : ∀ i < (p.matrixType target).length,
        p.matrixCell st'.store target i = p.matrixCell read number (i % d))

variable {p : Program} {checked : Bool} {s : Store} {number first pc depth : Nat}
  {read st st' : State} {e : Entry} {hs hs' : List Held} {held : Nat}

theorem WrittenBetween.of_succ (h : p.WrittenBetween number first (pc + 1))
    (he : p.code[pc]? = some e) (hop : e.opcode ≠ .storeMatrix number) :
    p.WrittenBetween number first pc := by
  obtain ⟨q, e', hfirst, hlt, he', hop'⟩ := h
  refine ⟨q, e', hfirst, Nat.lt_of_le_of_ne (Nat.lt_succ_iff.mp hlt) ?_, he', hop'⟩
  rintro rfl
  obtain rfl := Option.some.inj (he.symm.trans he')
  exact hop hop'

theorem Undisturbed.mono {pc' : Nat} (h : p.Undisturbed number first pc') (hle : pc ≤ pc') :
    p.Undisturbed number first pc :=
  fun q e hfirst hlt => h q e hfirst (Nat.lt_of_lt_of_le hlt hle)

theorem Admits.slot_left (h : p.Admits hs e hs') (hat : hs[depth]? = some (.matrix held))
    (hleft : e.takes ≤ depth) :
    hs'[depth - e.takes + e.leaves]? = some (.matrix held) ∨
      ∃ target, e.opcode = .copyMatrix depth target ∧ p.Temporary target ∧
        p.matrixType target = p.matrixType held ∧
        hs'[depth - e.takes + e.leaves]? = some (.matrix target) := by
  cases h with
  | storeVariable => exact .inl (getElem?_below_top hat hleft)
  | storeExternal => exact .inl (getElem?_below_top hat hleft)
  | storeMatrix => exact .inl (getElem?_below_top hat hleft)
  | @copyMatrix _ depth' source target k rows cols line spelling hdepth hsource htarget htemp =>
      by_cases heq : depth' = depth
      · subst heq
        obtain rfl := Held.matrix.inj (Option.some.inj (hdepth.symm.trans hat))
        refine .inr ⟨target, rfl, htemp, htarget.trans hsource.symm, ?_⟩
        exact List.getElem?_set_self (List.getElem?_eq_some_iff.mp hat).1
      · exact .inl ((List.getElem?_set_ne heq).trans hat)
  | @cast _ depth' _ _ _ _ _ hdepth =>
      have hne : depth' ≠ depth := by
        rintro rfl
        cases hdepth.symm.trans hat
      exact .inl ((List.getElem?_set_ne hne).trans hat)
  | keep => exact .inl hat
  | @scalar hs kernel k line spelling hk =>
      have hle : kernel.arity ≤ depth := by simpa [Entry.takes, inPlace?] using hleft
      rw [List.getElem?_append_right (by simpa using hle), List.length_replicate] at hat
      simpa [Entry.takes, Entry.leaves, inPlace?] using hat
  | matrix =>
      have hle : 2 ≤ depth := hleft
      obtain ⟨depth, rfl⟩ := Nat.exists_eq_add_of_le' hle
      exact .inl hat
  | _ => exact .inl hat

theorem AdmitsAll.entry {limit : Nat} {hs₂ : List Held}
    (h : p.AdmitsAll limit hs (p.code.toList.drop pc) hs₂) (he : p.code[pc]? = some e) :
    ∃ hs₁, p.Admits hs e hs₁ ∧ p.AdmitsAll limit hs₁ (p.code.toList.drop (pc + 1)) hs₂ := by
  rw [← Array.getElem?_toList] at he
  obtain ⟨hlt, rfl⟩ := List.getElem?_eq_some_iff.mp he
  rw [List.drop_eq_getElem_cons hlt] at h
  cases h with
  | cons _ hadmits hrest => exact ⟨_, hadmits, hrest⟩

structure Kept (p : Program) (number first : Nat) (read : Store) (pc depth : Nat) (st : State)
    (hs : List Held) (held : Nat) : Prop where
  rest : p.AdmitsAll p.sizes.maxStackDepth hs (p.code.toList.drop pc) []
  words : List.Forall₂ Held.Matches hs st.stack.slots
  fits : p.Fits st.store
  slot : hs[depth]? = some (.matrix held)
  isMatrix : (p.matrixType number).isMatrix
  type : p.matrixType held = p.matrixType number
  source : held = number ∧ ¬ p.WrittenBetween number first pc ∨ p.matrixExternal? held = none
  cells : ∀ i < (p.matrixType number).length,
    p.matrixCell st.store held i = p.matrixCell read number i

theorem Kept.toNat_word {readStore : Store} (hp : p.Sound)
    (h : p.Kept number first readStore pc depth st hs held) :
    (matrixWord held).toNat = held := by
  obtain ⟨k, rows, cols, ht⟩ := DataType.eq_matrix_of_isMatrix h.isMatrix
  exact toNat_matrixWord hp.layout.matricesFew (lt_of_matrixType (h.type.trans ht))

theorem kept_pushed (hp : p.Sound) (hfit : p.Fits s) (h : p.Visits checked s first read)
    (he : p.code[first]? = some e) (hop : e.opcode = .loadMatrix number)
    (hstep : p.step checked e.opcode read = .ok st) :
    ∃ hs, p.Kept number first read.store (first + 1) 0 st hs number := by
  obtain ⟨hs, -, hrest, hst, hshape⟩ := h.admitted hp
  obtain ⟨hs₁, hadmits, hrest₁⟩ := hrest.entry he
  have hwords := (hadmits.step_progresses checked hst hrest₁.length_start_le).2 st hstep
  have hfits := hfit.of_shape ((shape_step hstep).trans hshape)
  have hnot : ¬ p.WrittenBetween number first (first + 1) := by
    rintro ⟨q, -, hlow, hhigh, -⟩
    omega
  have hsame (i : Nat) (hi : i < (p.matrixType number).length) :
      p.matrixCell st.store number i = p.matrixCell read.store number i := by
    refine matrixCell_of_not_written hstep ?_ hi
    rw [hop]
    exact Set.disjoint_empty _
  cases hadmits with
  | loadMatrix ht =>
      obtain rfl := Opcode.loadMatrix.inj hop
      refine ⟨_, hrest₁, hwords, hfits, rfl, ?_, rfl, .inl ⟨rfl, hnot⟩, hsame⟩
      rw [ht]
      rfl
  | _ => cases hop

theorem Kept.next {readStore : Store} (hp : p.Sound)
    (h : p.Kept number first readStore pc depth st hs held) (he : p.code[pc]? = some e)
    (hleft : e.takes ≤ depth) (hstep : p.step checked e.opcode st = .ok st') (hfirst : first < pc)
    (hclear : p.Undisturbed number first (pc + 1)) :
    ∃ hs' held', p.Kept number first readStore (pc + 1) (depth - e.takes + e.leaves) st' hs'
      held' := by
  obtain ⟨hs₁, hadmits, hrest⟩ := h.rest.entry he
  have hwords := (hadmits.step_progresses checked h.words hrest.length_start_le).2 st' hstep
  have hfits := h.fits.of_shape (shape_step hstep)
  have hcalm : p.matrixExternal? held = none ∨ ¬ p.StoresOver held e.opcode := by
    rcases h.source with ⟨rfl, hnot⟩ | howned
    · exact .inr fun hover => hnot (hclear pc e hfirst (Nat.lt_succ_self pc) he hover)
    · exact .inl howned
  rcases hadmits.slot_left h.slot hleft with hslot | ⟨target, hop, htemp, htype, hslot⟩
  · refine ⟨hs₁, held, hrest, hwords, hfits, hslot, h.isMatrix, h.type, ?_, fun i hi => ?_⟩
    · refine h.source.imp_left fun ⟨heq, hnot⟩ => ⟨heq, fun hwritten => hnot ?_⟩
      exact hwritten.of_succ he (heq ▸ hadmits.stored_ne h.slot hleft)
    · rw [← h.cells i hi]
      exact matrixCell_of_not_written hstep (hadmits.spares h.slot hleft hcalm) (h.type ▸ hi)
  · refine ⟨hs₁, target, hrest, hwords, hfits, hslot, h.isMatrix, htype.trans h.type,
      .inr htemp.owned, fun i hi => ?_⟩
    obtain ⟨w, hw, rfl⟩ := forall₂_getElem?_left h.words h.slot
    simp only [hop, step, hw, h.toNat_word hp] at hstep
    obtain rfl := Except.ok.inj hstep
    rw [matrixCell_copyMatrix_mod_lag (fun j hj => has_matrixAt hp.layout.inRange h.fits hj)
      (by rwa [htype, h.type]), lag_of_owned_target htemp.owned, Nat.mod_zero, h.cells i hi]

theorem Waits.kept (hp : p.Sound) (hfit : p.Fits s)
    (h : p.Waits checked s number first read pc depth st)
    (hclear : p.Undisturbed number first pc) :
    first < pc ∧ ∃ hs held, p.Kept number first read.store pc depth st hs held := by
  induction h with
  | pushed h he hop hstep =>
      obtain ⟨hs, hkept⟩ := kept_pushed hp hfit h he hop hstep
      exact ⟨Nat.lt_succ_self first, hs, number, hkept⟩
  | @next pc _ _ _ _ _ he hleft hstep ih =>
      obtain ⟨hfirst, hs, held, hkept⟩ := ih (hclear.mono (Nat.le_succ pc))
      exact ⟨Nat.lt_succ_of_lt hfirst, hkept.next hp he hleft hstep hfirst hclear⟩

theorem Combines.proper {op : MatrixOp} {target : Nat} {a b : Held} (h : p.Combines op target a b) :
    p.Proper a ∧ p.Proper b := by
  have hmatrix {m : Nat} {k : Kind} {rows cols : Nat} (hm : p.matrixType m = .matrix k rows cols) :
      p.Proper (.matrix m) := by
    rw [Proper, hm]
    rfl
  cases h with
  | sum _ _ hm hn => exact ⟨hmatrix hm, hmatrix hn⟩
  | sub _ _ hm hn => exact ⟨hmatrix hm, hmatrix hn⟩
  | product _ _ hm hn => exact ⟨hmatrix hm, hmatrix hn⟩
  | scaleLeft _ _ hn => exact ⟨trivial, hmatrix hn⟩
  | scaleRight _ _ hm => exact ⟨hmatrix hm, trivial⟩

theorem wordDatum_heldType (hp : p.Sound) {x : Held} {w : Word} (hx : p.Proper x)
    (hw : x.Matches w) (s : Store) : p.wordDatum s (p.heldType x) w = p.heldDatum s x w := by
  cases x with
  | scalar k => rfl
  | matrix m =>
      obtain ⟨k, rows, cols, ht⟩ := DataType.eq_matrix_of_isMatrix hx
      obtain rfl := hw
      rw [heldType, ht, wordDatum, heldDatum,
        toNat_matrixWord hp.layout.matricesFew (lt_of_matrixType ht)]

theorem matrixDatum_eq_of_cells {s t : Store} {m n : Nat}
    (htype : p.matrixType m = p.matrixType n)
    (hcells : ∀ i < (p.matrixType n).length, p.matrixCell s m i = p.matrixCell t n i) :
    p.matrixDatum s m = p.matrixDatum t n := by
  unfold matrixDatum
  rw [htype]
  cases ht : p.matrixType n with
  | void => rfl
  | scalar k => rfl
  | matrix k rows cols =>
      dsimp only
      congr 1
      refine List.map_congr_left fun i hi => ?_
      rw [element, element, hcells i (by rw [ht]; exact List.mem_range.mp hi)]

theorem Kept.takesSnapshot {readStore : Store} (hp : p.Sound)
    (h : p.Kept number first readStore pc depth st hs held) (he : p.code[pc]? = some e)
    (htaken : depth < e.takes) :
    p.TakesSnapshot checked number first readStore pc depth st e := by
  obtain ⟨hs₁, hadmits, hrest⟩ := h.rest.entry he
  have hslot := h.slot
  have hwords := h.words
  cases hadmits with
  | storeVariable =>
      obtain rfl : depth = 0 := Nat.lt_one_iff.mp htaken
      cases hslot
  | storeExternal =>
      obtain rfl : depth = 0 := Nat.lt_one_iff.mp htaken
      cases hslot
  | @scalar _ kernel k =>
      have hlt : depth < (List.replicate kernel.arity (Held.scalar k)).length := by
        simpa [Entry.takes, inPlace?] using htaken
      rw [List.getElem?_append_left hlt, List.getElem?_replicate] at hslot
      split at hslot <;> cases hslot
  | @storeMatrix _ source target k rows cols line spelling hsource htarget =>
      obtain rfl : depth = 0 := Nat.lt_one_iff.mp htaken
      obtain rfl := Held.matrix.inj (Option.some.inj hslot)
      obtain ⟨w, ws, rfl, -, hslots⟩ := List.forall₂_cons_left_iff.mp hwords
      have hstep : p.step checked (.storeMatrix target) st =
          .ok ⟨p.copyMatrix source target st.store, st.stack.drop 1⟩ := by
        simp only [step, popInto, hslots, h.toNat_word hp]
      refine .write rfl hstep (d := p.lag source target) ?_ fun i hi => ?_
      · rcases h.source with ⟨rfl, hnot⟩ | howned
        · exact .inr ⟨rfl, hnot⟩
        · exact .inl (lag_of_owned_source howned)
      · have hlt : i % p.lag source target < (p.matrixType number).length := by
          rw [← h.type, hsource, ← htarget]
          exact Nat.lt_of_le_of_lt (Nat.mod_le _ _) hi
        rw [matrixCell_copyMatrix_mod_lag
          (fun j hj => has_matrixAt hp.layout.inRange h.fits hj) hi, h.cells _ hlt]
  | @matrix hs' op target a b line spelling hc htemp hfree =>
      obtain ⟨wb, ws, hb, hws, hslots⟩ := List.forall₂_cons_left_iff.mp hwords
      obtain ⟨wa, rest, ha, hrestWords, rfl⟩ := List.forall₂_cons_left_iff.mp hws
      obtain ⟨k, rows, cols, -, htype⟩ := hc.target_type
      have hlen : rest.length < p.sizes.maxStackDepth := by
        rw [← hrestWords.length_eq]
        exact hrest.length_start_le
      have hread : p.matrixDatum st.store held = p.matrixDatum readStore number :=
        matrixDatum_eq_of_cells h.type h.cells
      refine .operation (x := p.heldDatum st.store a wa) (y := p.heldDatum st.store b wb) rfl htype
        ?_ ?_ ?_
      · obtain ⟨hproper, hproper'⟩ := hc.proper
        rw [← wordDatum_heldType hp hproper ha, ← wordDatum_heldType hp hproper' hb]
        simp [operands, takenWords, inPlace?, hslots]
      · have hdepth : depth = 0 ∨ depth = 1 := by
          have : depth < 2 := htaken
          omega
        rcases hdepth with rfl | rfl
        · obtain rfl := Option.some.inj hslot
          exact congrArg some hread
        · obtain rfl := Option.some.inj hslot
          exact congrArg some hread
      · rw [step, matrixStep_eq hslots hlen, matrixResult_eq checked st.store
          hp.layout.matricesFew hc htype ha hb, map_map_result]
  | _ => exact absurd htaken (Nat.not_lt_zero _)

theorem takesSnapshot_of_compile {text : String} {vs : Variables} {o : CompileOptions}
    (hvs : vs.Made) (h : compile text vs o = .ok p) {m : Machine} (hm : m.Reached p)
    (hwaits : p.Waits checked m.store number first read pc depth st)
    (hclear : p.Undisturbed number first pc) (he : p.code[pc]? = some e)
    (htaken : depth < e.takes) :
    p.TakesSnapshot checked number first read.store pc depth st e := by
  have hp := compile_sound hvs.fresh h
  obtain ⟨-, hs, held, hkept⟩ := hwaits.kept hp (hm.fits hp).store hclear
  exact hkept.takesSnapshot hp he htaken

theorem takesSnapshot_shifted_up :
    ∃ vs p read st e, ∃ m : Machine, vs.Made ∧
      compile "READ X\nREAD A\nWRITE X\nWRITE Y\n" vs .default = .ok p ∧ m.Reached p ∧
      p.Waits false m.store 0 0 read 4 0 st ∧ p.Undisturbed 0 0 4 ∧ p.code[4]? = some e ∧
      0 < e.takes ∧ p.TakesSnapshot false 0 0 read.store 4 0 st e := by
  let row : DataType := .matrix .float64 1 2
  let x : External := ⟨⟨0, 3⟩, 0⟩
  let y : External := ⟨⟨0, 3⟩, 1⟩
  let vs : Variables :=
    ⟨[⟨"A", row, none, none⟩], [⟨"X", row, none, some x⟩, ⟨"Y", row, none, some y⟩]⟩
  let p : Program := {
    vars := ⟨[⟨"A", row, some (.matrix 1), none⟩],
      [⟨"X", row, some (.matrix 0), some x⟩, ⟨"Y", row, some (.matrix 3), some y⟩]⟩
    constants := #[]
    literals := []
    code := #[⟨.loadMatrix 0, 1, [], some row, none⟩, ⟨.loadMatrix 1, 2, [], some row, none⟩,
      ⟨.copyMatrix 1 2, 3, [row], some row, none⟩, ⟨.storeMatrix 0, 3, [row], none, none⟩,
      ⟨.storeMatrix 3, 4, [row], none, none⟩]
    matrices := #[⟨row, some x⟩, ⟨row, none⟩, ⟨row, none⟩, ⟨row, some y⟩]
    bindings := #[]
    sizes := ⟨0, 0, 5, 2⟩ }
  let m : Machine := .new p #[#[1, 2, 3]]
  have hmade : vs.Made := by
    have hdiscover : Variables.discover "READ X\nREAD A\nWRITE X\nWRITE Y\n" =
        .ok ⟨[.named "A"], [.named "X", .named "Y"]⟩ := by decide +kernel
    have hx : Variables.bind ⟨[.named "A"], [.named "X", .named "Y"]⟩ "X" row (some x) =
        .ok ⟨[.named "A"], [⟨"X", row, none, some x⟩, .named "Y"]⟩ := by decide +kernel
    have hy : Variables.bind ⟨[.named "A"], [⟨"X", row, none, some x⟩, .named "Y"]⟩ "Y" row
        (some y) = .ok ⟨[.named "A"], [⟨"X", row, none, some x⟩, ⟨"Y", row, none, some y⟩]⟩ := by
      decide +kernel
    have ha : Variables.bind ⟨[.named "A"], [⟨"X", row, none, some x⟩, ⟨"Y", row, none, some y⟩]⟩
        "A" row none = .ok vs := by decide +kernel
    exact ⟨_, _, hdiscover, .bind (.bind (.bind .refl hx) hy) ha⟩
  have hcompile : compile "READ X\nREAD A\nWRITE X\nWRITE Y\n" vs .default = .ok p := by
    decide +kernel
  have hnew : m.Reached p := .new (by decide)
  have hread : p.Waits false m.store 0 0 ⟨m.store, .empty⟩ 1 0 _ := .pushed .start rfl rfl rfl
  have hother : p.Waits false m.store 0 0 ⟨m.store, .empty⟩ 2 1 _ :=
    hread.next (e := ⟨.loadMatrix 1, 2, [], some row, none⟩) rfl (by decide) rfl
  have hcopied : p.Waits false m.store 0 0 ⟨m.store, .empty⟩ 3 1 _ :=
    hother.next (e := ⟨.copyMatrix 1 2, 3, [row], some row, none⟩) rfl (by decide) rfl
  have hwaits : p.Waits false m.store 0 0 ⟨m.store, .empty⟩ 4 0 _ :=
    hcopied.next (e := ⟨.storeMatrix 0, 3, [row], none, none⟩) rfl (by decide) rfl
  have hclear : p.Undisturbed 0 0 4 := by
    intro q e hlow hhigh he hover
    have hq : q = 1 ∨ q = 2 ∨ q = 3 := by omega
    rcases hq with rfl | rfl | rfl
    · obtain rfl := Option.some.inj he
      exact hover.elim
    · obtain rfl := Option.some.inj he
      exact hover.elim
    · obtain rfl := Option.some.inj he
      exact absurd rfl hover.1
  exact ⟨vs, p, _, _, _, m, hmade, hcompile, hnew, hwaits, hclear, rfl, by decide,
    takesSnapshot_of_compile hmade hcompile hnew hwaits hclear rfl (by decide)⟩

theorem shifted_up_repeats_element :
    ∃ vs p, ∃ m : Machine, vs.Made ∧
      compile "READ X\nREAD X\nWRITE Y\nWRITE W\n" vs .default = .ok p ∧ m.Reached p ∧
      p.matrix m.store "X" = .ok [⟨0x3FF0000000000000⟩, ⟨0x4000000000000000⟩] ∧
      p.matrix (m.execute p .safe none).1.store "Y" =
        .ok [⟨0x3FF0000000000000⟩, ⟨0x3FF0000000000000⟩] ∧
      p.matrix (m.execute p .safe none).1.store "W" =
        .ok [⟨0x3FF0000000000000⟩, ⟨0x3FF0000000000000⟩] := by
  let row : DataType := .matrix .float64 1 2
  let x : External := ⟨⟨0, 3⟩, 0⟩
  let y : External := ⟨⟨0, 3⟩, 1⟩
  let vs : Variables := ⟨[⟨"X", row, none, some x⟩], [⟨"Y", row, none, some y⟩, .named "W"]⟩
  let p : Program := {
    vars := ⟨[⟨"X", row, some (.matrix 0), some x⟩],
      [⟨"Y", row, some (.matrix 1), some y⟩, ⟨"W", row, some (.matrix 2), none⟩]⟩
    constants := #[]
    literals := []
    code := #[⟨.loadMatrix 0, 1, [], some row, none⟩, ⟨.loadMatrix 0, 2, [], some row, none⟩,
      ⟨.storeMatrix 1, 3, [row], none, none⟩, ⟨.storeMatrix 2, 4, [row], none, none⟩]
    matrices := #[⟨row, some x⟩, ⟨row, some y⟩, ⟨row, none⟩]
    bindings := #[]
    sizes := ⟨0, 0, 4, 2⟩ }
  let m : Machine :=
    .new p #[#[0x3FF0000000000000, 0x4000000000000000, 0x4008000000000000]]
  have hmade : vs.Made := by
    have hdiscover : Variables.discover "READ X\nREAD X\nWRITE Y\nWRITE W\n" =
        .ok ⟨[.named "X"], [.named "Y", .named "W"]⟩ := by decide +kernel
    have hx : Variables.bind ⟨[.named "X"], [.named "Y", .named "W"]⟩ "X" row (some x) =
        .ok ⟨[⟨"X", row, none, some x⟩], [.named "Y", .named "W"]⟩ := by decide +kernel
    have hy : Variables.bind ⟨[⟨"X", row, none, some x⟩], [.named "Y", .named "W"]⟩ "Y" row
        (some y) = .ok vs := by decide +kernel
    exact ⟨_, _, hdiscover, .bind (.bind .refl hx) hy⟩
  have hcompile : compile "READ X\nREAD X\nWRITE Y\nWRITE W\n" vs .default = .ok p := by
    decide +kernel
  have hnew : m.Reached p := .new (by decide)
  have hrun : (m.execute p .safe none).1.store = ⟨⟨#[], #[#[], #[],
      #[0x3FF0000000000000, 0x3FF0000000000000]]⟩,
      #[#[0x3FF0000000000000, 0x3FF0000000000000, 0x3FF0000000000000]]⟩ := by decide +kernel
  refine ⟨vs, p, m, hmade, hcompile, hnew, by decide +kernel, ?_, ?_⟩
  · rw [hrun]
    decide +kernel
  · rw [hrun]
    decide +kernel

end Program

end FormulaMachine
