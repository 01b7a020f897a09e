import FormulaMachine.Proofs.Machine.Finiteness

namespace FormulaMachine

def Scalar.IsWord (k : Kind) (w : Word) : Prop :=
  ∃ x : Scalar k, w = x.toWord

theorem Scalar.isWord_iff {k : Kind} {w : Word} :
    Scalar.IsWord k w ↔ (Scalar.ofWord k w).toWord = w := by
  refine ⟨?_, fun h => ⟨_, h.symm⟩⟩
  rintro ⟨x, rfl⟩
  rw [Scalar.ofWord_toWord]

def Opcode.destination? : Opcode → Option Nat
  | .storeMatrix number | .copyMatrix _ number | .matrix _ number => some number
  | _ => none

namespace Program

variable {p : Program} {checked : Bool} {s₀ s s' : Store} {hs hs' : List Held} {e : Entry}
  {es : List Entry} {st st' : State} {pc number : Nat}

def Loads (p : Program) (number : Nat) : Prop :=
  ∃ e ∈ p.code.toList, e.opcode = .loadMatrix number

inductive Stems (p : Program) (s₀ : Store) (number i : Nat) (w : Word) : Prop
  | computed {k : Kind} (hk : (p.matrixType number).kind? = some k) (hw : Scalar.IsWord k w)
  | copied {source : Nat} (hload : p.Loads source)
      (ht : p.matrixType source = p.matrixType number) (hw : w = p.matrixCell s₀ source i)

def Settled (p : Program) (s₀ s : Store) (number : Nat) : Prop :=
  ∀ i < (p.matrixType number).length, p.Stems s₀ number i (p.matrixCell s number i)

theorem Stems.of_type {target i : Nat} {w : Word} (h : p.Stems s₀ number i w)
    (ht : p.matrixType number = p.matrixType target) : p.Stems s₀ target i w := by
  cases h with
  | computed hk hw => exact .computed (ht ▸ hk) hw
  | copied hload hsource hw => exact .copied hload (hsource.trans ht) hw

theorem Settled.of_loads (h : p.Loads number) : p.Settled s₀ s₀ number :=
  fun _ _ => .copied h rfl rfl

theorem Settled.of_changedIn {area : Set Address} (hs : p.Settled s₀ s number)
    (h : s.ChangedIn area s') (harea : Disjoint (p.matrixArea number) area) :
    p.Settled s₀ s' number :=
  fun i hi => matrixCell_of_changedIn h harea hi ▸ hs i hi

theorem isWord_of_resultCell {op : MatrixOp} {k : Kind} {target : DataType} {a b w : Word} {i : Nat}
    (h : p.resultCell checked op k target a b s i = .ok w) : Scalar.IsWord k w := by
  cases op with
  | _ =>
      obtain ⟨x, -, rfl⟩ := map_eq_ok h
      exact ⟨x, rfl⟩

section Layout

variable (hp : p.layout.Sound) (hsep : p.vars.Separate)

include hp hsep

theorem matrixArea_disjoint_written (he : p.Admits hs e hs') (haccess : p.Access e)
    (hne : e.opcode.destination? ≠ some number) :
    Disjoint (p.matrixArea number) (p.written e.opcode) := by
  cases haccess with
  | load hw hl hop =>
      rw [hop, written_loadOpcode]
      exact Set.disjoint_empty _
  | @store name w l hw hl hop =>
      rw [hop, written_storeOpcode ((hp.houses name w hw).keeps l hl)]
      refine matrixArea_disjoint_area hp hsep w.type ?_
      rintro rfl
      exact hne (congrArg Opcode.destination? hop)
  | neither hop =>
      cases he with
      | copyMatrix | matrix =>
          exact matrixArea_disjoint hp hsep fun heq => hne (congrArg some heq.symm)
      | loadConstant | cast | keep | scalar => exact Set.disjoint_empty _
      | _ => cases hop

theorem settled_copyMatrix {source : Nat} (hfit : p.Fits s)
    (ht : p.matrixType source = p.matrixType number) (h : p.Settled s₀ s source) :
    p.Settled s₀ (p.copyMatrix source number s) number := by
  intro i hi
  rw [matrixCell_copyMatrix (by rw [ht]) (matrixArea_disjoint hp hsep)
    (fun i hi => has_matrixAt hp.inRange hfit hi) hi]
  exact (h i (ht ▸ hi)).of_type ht

theorem area_disjoint_written (he : p.Admits hs e hs') (haccess : p.Access e) {name : String}
    {v : Variable} {l : Location} (hv : p.vars.get? name = some v) (hl : v.location = some l)
    (hne : e.opcode ≠ Draft.storeOpcode (Draft.elementKind v.type) l) :
    Disjoint (p.area v.type l) (p.written e.opcode) := by
  cases haccess with
  | load _ _ hop =>
      rw [hop, written_loadOpcode]
      exact Set.disjoint_empty _
  | @store other w l' hw hl' hop =>
      have hother : name ≠ other := by
        rintro rfl
        obtain rfl := Option.some.inj (hv.symm.trans hw)
        obtain rfl := Option.some.inj (hl.symm.trans hl')
        exact hne hop
      rw [hop, written_storeOpcode ((hp.houses other w hw).keeps l' hl')]
      exact area_disjoint hp hsep hother hv hw hl hl'
  | neither hop => exact (temporaries_disjoint hv hl).mono_right (he.written_subset hop)

omit hsep in
theorem settled_matrixStep {op : MatrixOp} {a b : Held} (hfit : p.Fits st.store)
    (hc : p.Combines op number a b) (h : p.matrixStep checked op number st = .ok st') :
    p.Settled s₀ st'.store number := by
  obtain ⟨k, rows, cols, -, ht⟩ := hc.target_type
  obtain ⟨wa, wb, cells, hcells, hstore⟩ := matrixResult_of_matrixStep h
  have hlen := length_of_matrixResult hcells
  rw [ht, matrixResult_eq_mapM] at hcells
  intro i hi
  rw [← hlen] at hi
  rw [hstore, matrixCell_setMatrixCells
    (fun i hi => has_matrixAt hp.inRange hfit (hlen ▸ hi)) hi]
  refine .computed (congrArg DataType.kind? ht) ?_
  exact forall_of_mapM (fun _ _ => isWord_of_resultCell) hcells _ (List.getElem_mem hi)

end Layout

theorem Admits.matrix_mem (he : p.Admits hs e hs') (hmem : .matrix number ∈ hs') :
    .matrix number ∈ hs ∨ e.opcode = .loadMatrix number ∨ e.opcode.destination? = some number := by
  have hpushed {k : Kind} (h : .matrix number ∈ Held.scalar k :: hs) : .matrix number ∈ hs :=
    (List.mem_cons.mp h).resolve_left nofun
  cases he with
  | loadConstant | loadVariable | loadExternal => exact .inl (hpushed hmem)
  | loadMatrix =>
      rcases List.mem_cons.mp hmem with heq | hmem
      · obtain rfl := Held.matrix.inj heq
        exact .inr (.inl rfl)
      · exact .inl hmem
  | storeVariable | storeExternal | storeMatrix => exact .inl (List.mem_cons_of_mem _ hmem)
  | copyMatrix =>
      rcases List.mem_or_eq_of_mem_set hmem with hmem | heq
      · exact .inl hmem
      · obtain rfl := Held.matrix.inj heq
        exact .inr (.inr rfl)
  | cast =>
      rcases List.mem_or_eq_of_mem_set hmem with hmem | heq
      · exact .inl hmem
      · cases heq
  | keep => exact .inl hmem
  | scalar =>
      have hmem := (List.mem_cons.mp hmem).resolve_left nofun
      exact .inl (List.mem_append_right _ hmem)
  | matrix =>
      rcases List.mem_cons.mp hmem with heq | hmem
      · obtain rfl := Held.matrix.inj heq
        exact .inr (.inr rfl)
      · exact .inl (List.mem_cons_of_mem _ (List.mem_cons_of_mem _ hmem))

theorem store_of_popInto_matches {x : Held} {keep : Word → Store → Store}
    (hwords : List.Forall₂ Held.Matches (x :: hs) st.stack.slots)
    (h : popInto st keep = .ok st') : ∃ w, x.Matches w ∧ st'.store = keep w st.store := by
  obtain ⟨w, hw, hstore⟩ := store_of_popInto h
  obtain ⟨w', hw', hmatches⟩ := forall₂_getElem?_left hwords (i := 0) rfl
  obtain rfl := Option.some.inj (hw.symm.trans hw')
  exact ⟨w, hmatches, hstore⟩

section Steps

variable (hp : p.layout.Sound) (he : p.Admits hs e hs') (hfit : p.Fits st.store)
  (hwords : List.Forall₂ Held.Matches hs st.stack.slots)
  (hstep : p.step checked e.opcode st = .ok st')

include hp he hfit hwords hstep

theorem settled_target (hsep : p.vars.Separate)
    (hheld : ∀ n, .matrix n ∈ hs → p.Settled s₀ st.store n)
    (htarget : e.opcode.destination? = some number) : p.Settled s₀ st'.store number := by
  have hword {m rows cols : Nat} {k : Kind} (hm : p.matrixType m = .matrix k rows cols) :
      (matrixWord m).toNat = m :=
    toNat_matrixWord hp.inRange.few (lt_of_matrixType hm)
  cases he with
  | @storeMatrix hs source target k rows cols line spelling hsource htype hfree =>
      obtain rfl : target = number := Option.some.inj htarget
      obtain ⟨w, hmatches, hstore⟩ := store_of_popInto_matches hwords hstep
      obtain rfl := hmatches
      rw [hstore, hword hsource]
      exact settled_copyMatrix hp hsep hfit (hsource.trans htype.symm)
        (hheld source List.mem_cons_self)
  | @copyMatrix _ depth source target k rows cols line spelling hdepth hsource htype =>
      obtain rfl : target = number := Option.some.inj htarget
      obtain ⟨w, hw, hmatches⟩ := forall₂_getElem?_left hwords hdepth
      obtain rfl := hmatches
      simp only [step, hw] at hstep
      obtain rfl := Except.ok.inj hstep
      rw [hword hsource]
      exact settled_copyMatrix hp hsep hfit (hsource.trans htype.symm)
        (hheld source (List.mem_of_getElem? hdepth))
  | @matrix _ op target a b line spelling hc =>
      obtain rfl : target = number := Option.some.inj htarget
      exact settled_matrixStep hp hfit hc hstep
  | _ => cases htarget

theorem isWord_bindingCell {k : Kind} (hop : e.opcode = .storeExternal number k) :
    Scalar.IsWord k (p.bindingCell st'.store number) := by
  cases he with
  | @storeExternal _ _ _ _ _ hlt =>
      cases hop
      have hpop : popInto st (fun w s => p.setBindingCell s number w) = .ok st' := hstep
      obtain ⟨w, hmatches, hstore⟩ := store_of_popInto_matches hwords hpop
      have hx := Array.getElem?_eq_getElem hlt
      rw [hstore, setBindingCell_eq hx, bindingCell_eq hx,
        Store.cell_setCell_self (has_cellAt hp.inRange hfit hx)]
      exact hmatches
  | _ => cases hop

end Steps

structure Canonical (p : Program) (s₀ : Store) (es : List Entry) (hs : List Held) (s : Store) :
    Prop where
  loaded : ∀ number, p.Loads number → p.Settled s₀ s number
  held : ∀ number, .matrix number ∈ hs → p.Settled s₀ s number
  matrices : ∀ e ∈ es, ∀ number, e.opcode.destination? = some number → p.Settled s₀ s number
  bindings : ∀ e ∈ es, ∀ name v number k, p.vars.get? name = some v →
    v.location = some (.external number) → v.type = .scalar k →
    e.opcode = .storeExternal number k → Scalar.IsWord k (p.bindingCell s number)

namespace Canonical

theorem start : p.Canonical s₀ [] [] s₀ :=
  ⟨fun _ => .of_loads, fun _ h => absurd h List.not_mem_nil,
    fun _ h => absurd h List.not_mem_nil, fun _ h => absurd h List.not_mem_nil⟩

theorem step (hp : p.layout.Sound) (hsep : p.vars.Separate) (he : p.Admits hs e hs')
    (hcode : e ∈ p.code.toList) (haccess : p.Access e) (hfit : p.Fits st.store)
    (hwords : List.Forall₂ Held.Matches hs st.stack.slots)
    (hstep : p.step checked e.opcode st = .ok st') (h : p.Canonical s₀ es hs st.store) :
    p.Canonical s₀ (es ++ [e]) hs' st'.store := by
  have hchanged := changedIn_of_step hstep
  have hnew {n : Nat} (htarget : e.opcode.destination? = some n) : p.Settled s₀ st'.store n :=
    settled_target hp he hfit hwords hstep hsep h.held htarget
  -- a matrix is settled afterwards if it was before, or if something has just been put into it
  have hsettled {n : Nat} (hn : p.Settled s₀ st.store n) : p.Settled s₀ st'.store n := by
    by_cases htarget : e.opcode.destination? = some n
    · exact hnew htarget
    · exact hn.of_changedIn hchanged (matrixArea_disjoint_written hp hsep he haccess htarget)
  refine ⟨fun n hn => hsettled (h.loaded n hn), fun n hn => ?_, fun e' he' n htarget => ?_,
    fun e' he' name v n k hv hl ht hop => ?_⟩
  · rcases he.matrix_mem hn with hn | hop | htarget
    · exact hsettled (h.held n hn)
    · exact hsettled (h.loaded n ⟨e, hcode, hop⟩)
    · exact hnew htarget
  · rcases List.mem_append.mp he' with he' | he'
    · exact hsettled (h.matrices e' he' n htarget)
    · obtain rfl := List.mem_singleton.mp he'
      exact hnew htarget
  · by_cases hlast : e.opcode = .storeExternal n k
    · exact isWord_bindingCell hp he hfit hwords hstep hlast
    rcases List.mem_append.mp he' with he' | he'
    · have hdisj := area_disjoint_written hp hsep he haccess hv hl (by rwa [ht])
      obtain ⟨-, x, -, -, hx⟩ := (hp.houses name v hv).keeps _ hl
      have hx : p.bindings[n]? = some x := hx
      have hcell := h.bindings e' he' name v n k hv hl ht hop
      rw [bindingCell_eq hx] at hcell ⊢
      have hsame : st'.store.cell (x.cellAt 0) = st.store.cell (x.cellAt 0) :=
        hchanged.content (.cell _) (Set.disjoint_left.mp hdisj ⟨x, hx, rfl⟩)
      rwa [hsame]
    · exact absurd (List.mem_singleton.mp he' ▸ hop) hlast

end Canonical

theorem Visits.canonical (hp : p.Sound) (hsep : p.vars.Separate)
    (haccess : ∀ e ∈ p.code.toList, p.Access e) (hfit : p.Fits s)
    (h : p.Visits checked s pc st) :
    ∃ hs, p.AdmitsAll p.sizes.maxStackDepth hs (p.code.toList.drop pc) [] ∧
      List.Forall₂ Held.Matches hs st.stack.slots ∧ p.Fits st.store ∧
      p.Canonical s (p.code.toList.take pc) hs st.store := by
  induction h with
  | start => exact ⟨[], hp.admits, .nil, hfit, .start⟩
  | @next pc st st' e _ he hstep ih =>
      obtain ⟨hs, hpost, hwords, hfit, hcanonical⟩ := ih
      obtain ⟨hs₁, hadmits, hrest⟩ := hpost.entry he
      have hmem : e ∈ p.code.toList := (Array.mem_of_getElem? he).val
      obtain ⟨-, hpreserves⟩ := hadmits.step_progresses checked hwords hrest.length_start_le
      refine ⟨hs₁, hrest, hpreserves st' hstep, hfit.of_shape (shape_step hstep), ?_⟩
      rw [← Array.getElem?_toList] at he
      obtain ⟨hlt, rfl⟩ := List.getElem?_eq_some_iff.mp he
      rw [List.take_succ_eq_append_getElem hlt]
      exact hcanonical.step hp.layout hsep hadmits hmem (haccess _ hmem) hfit hwords hstep

section Places

variable {name : String} {v : Variable} {l : Location} {x : External} {k : Kind}
  (hp : p.layout.Sound) (hv : p.vars.get? name = some v) (hl : v.location = some l)
  (hx : v.external = some x)

include hp hv hl hx

theorem eq_external_of_scalar (ht : v.type = .scalar k) :
    ∃ number, l = .external number ∧ p.bindings[number]? = some x := by
  have hkeeps := (hp.houses name v hv).keeps l hl
  rcases l with offset | number | number
  · obtain ⟨-, -, hnone, -⟩ := hkeeps
    cases hx.symm.trans hnone
  · obtain ⟨-, x', -, hx', hbinding⟩ := hkeeps
    obtain rfl := Option.some.inj (hx.symm.trans hx')
    exact ⟨number, rfl, hbinding⟩
  · cases (congrArg DataType.isMatrix ht).symm.trans hkeeps.1

theorem eq_matrix_of_matrix {rows cols : Nat} (ht : v.type = .matrix k rows cols) :
    ∃ number, l = .matrix number ∧ p.matrixType number = v.type ∧
      p.matrixExternal? number = some x := by
  have hkeeps := (hp.houses name v hv).keeps l hl
  rcases l with offset | number | number
  · obtain ⟨j, hj, -⟩ := hkeeps
    cases ht.symm.trans hj
  · obtain ⟨j, -, hj, -⟩ := hkeeps
    cases ht.symm.trans hj
  · have hslot : p.matrices[number]? = some ⟨v.type, v.external⟩ := hkeeps.2
    refine ⟨number, rfl, ?_, ?_⟩
    · rw [matrixType, hslot, Option.map_some, Option.getD_some]
    · rw [matrixExternal?, hslot, Option.bind_some, hx]

end Places

structure WritesWords (p : Program) (code : List Postfix.Instruction) (s s' : Store) : Prop where
  scalars : ∀ name v x k, .write name ∈ code → p.vars.get? name = some v → v.external = some x →
    v.type = .scalar k →
    ∃ w, s'.shared.load? x.memory.number x.offset = some w ∧ Scalar.IsWord k w
  matrices : ∀ name v x k rows cols, .write name ∈ code → p.vars.get? name = some v →
    v.external = some x → v.type = .matrix k rows cols → ∀ i < rows * cols,
    ∃ w, s'.shared.load? x.memory.number (x.offset + i) = some w ∧
      (Scalar.IsWord k w ∨ ∃ source u number, .read source ∈ code ∧
        p.vars.get? source = some u ∧ u.type = v.type ∧
        u.location = some (.matrix number) ∧ w = p.matrixCell s number i)

theorem Canonical.writesWords {code : List Postfix.Instruction} (hp : p.layout.Sound)
    (haccesses : p.Accesses p.code.toList code) (hfit : p.Fits s')
    (h : p.Canonical s p.code.toList hs s') : p.WritesWords code s s' := by
  refine ⟨fun name v x k hname hv hx ht => ?_,
    fun name v x k rows cols hname hv hx ht i hi => ?_⟩
  · obtain ⟨e, he, l, hl, hop⟩ := haccesses.exists_store hname hv
    obtain ⟨number, rfl, hbinding⟩ := eq_external_of_scalar hp hv hl hx ht
    rw [ht] at hop
    have hword := h.bindings e he name v number k hv hl ht hop
    rw [bindingCell_eq hbinding] at hword
    exact ⟨_, Store.load?_of_has (has_cellAt hp.inRange hfit hbinding), hword⟩
  · obtain ⟨e, he, l, hl, hop⟩ := haccesses.exists_store hname hv
    obtain ⟨number, rfl, htype, hexternal⟩ := eq_matrix_of_matrix hp hv hl hx ht
    have hi : i < (p.matrixType number).length := by
      rw [htype, ht]
      exact hi
    have hat : p.matrixAt number i = x.cellAt i := by rw [matrixAt, hexternal]
    have hhas := has_matrixAt hp.inRange hfit hi
    have hstems := h.matrices e he number (congrArg Opcode.destination? hop) i hi
    rw [matrixCell_eq, hat] at hstems
    rw [hat] at hhas
    refine ⟨_, Store.load?_of_has hhas, ?_⟩
    cases hstems with
    | computed hk hword =>
        rw [htype, ht] at hk
        obtain rfl := Option.some.inj hk
        exact .inl hword
    | @copied source hload hsource hword =>
        obtain ⟨e, he, hop⟩ := hload
        obtain ⟨other, u, hother, hu, hul⟩ := haccesses.exists_read he hop
        refine .inr ⟨other, u, source, hother, hu, ?_, hul, hword⟩
        have hslot : p.matrices[source]? = some ⟨u.type, u.external⟩ :=
          ((hp.houses other u hu).keeps _ hul).2
        rw [matrixType, hslot, Option.map_some, Option.getD_some] at hsource
        exact hsource.trans htype

theorem execute_writes_words {text : String} {vs : Variables} {o : CompileOptions} {m : Machine}
    {mode : Mode} {sink : Option Sink} (hvs : vs.Made) (hsep : vs.Separate)
    (h : compile text vs o = .ok p) (hm : m.Fits p)
    (hdone : (m.execute p mode sink).2.1 = none) :
    p.WritesWords (Postfix.accesses (Postfix.instructions text)) m.store
      (m.execute p mode sink).1.store := by
  have hp := compile_sound hvs.fresh h
  have haccesses := accesses_of_compile hvs.fresh h
  obtain ⟨hends, -⟩ := Machine.execute_ends hp hm mode sink
  have hstopped := hends.stopped.symm.trans hdone
  obtain ⟨pc, st, hvisits, hstore, hstops⟩ := execute_stops (p := p) mode m.store sink
  obtain ⟨hs, -, -, hfit, hcanonical⟩ :=
    hvisits.canonical hp (separate_of_compile hsep h) haccesses.access hm.store
  -- a run that ends without an error has gone through all of the code
  have hpc : pc = p.code.size := by
    rw [hstopped] at hstops
    rcases hstops with ⟨-, hnone | hnone⟩ | hstops
    · cases hnone
    · cases hnone
    · cases hstops with
      | completed hpc => exact hpc
  rw [hpc, ← Array.length_toList, List.take_length] at hcanonical
  rw [hends.done hstopped, hstore]
  exact hcanonical.writesWords hp.layout haccesses hfit

theorem execute_writes_words_row :
    ∃ vs p, ∃ m : Machine, vs.Made ∧ vs.Separate ∧
      compile "READ X\nWRITE Y\nREAD A\nWRITE B\n" vs .default = .ok p ∧ m.Fits p ∧
      m.store.shared = #[#[0x1FF, 0x105, 0x1FF], #[0, 0, 0]] ∧
      (m.execute p .safe none).2.1 = none ∧
      (m.execute p .safe none).1.store.shared =
        #[#[0x1FF, 0x105, 0x1FF], #[0x1FF, 0x105, 0xFFFFFFFFFFFFFFFF]] ∧
      p.WritesWords
        (Postfix.accesses (Postfix.instructions "READ X\nWRITE Y\nREAD A\nWRITE B\n")) m.store
        (m.execute p .safe none).1.store := by
  let single : DataType := .scalar (.int .w8)
  let row : DataType := .matrix (.int .w8) 1 2
  let x : External := ⟨⟨0, 3⟩, 0⟩
  let a : External := ⟨⟨0, 3⟩, 2⟩
  let y : External := ⟨⟨1, 3⟩, 0⟩
  let b : External := ⟨⟨1, 3⟩, 2⟩
  let vs : Variables := ⟨[⟨"X", row, none, some x⟩, ⟨"A", single, none, some a⟩],
    [⟨"Y", row, none, some y⟩, ⟨"B", single, none, some b⟩]⟩
  let p : Program := {
    vars := ⟨[⟨"X", row, some (.matrix 0), some x⟩, ⟨"A", single, some (.external 0), some a⟩],
      [⟨"Y", row, some (.matrix 1), some y⟩, ⟨"B", single, some (.external 1), some b⟩]⟩
    constants := #[]
    literals := []
    code := #[⟨.loadMatrix 0, 1, [], some row, none⟩, ⟨.storeMatrix 1, 2, [row], none, none⟩,
      ⟨.loadExternal 0 (.int .w8), 3, [], some single, none⟩,
      ⟨.storeExternal 1 (.int .w8), 4, [single], none, none⟩]
    matrices := #[⟨row, some x⟩, ⟨row, some y⟩]
    bindings := #[a, b]
    sizes := ⟨0, 0, 4, 1⟩ }
  let m : Machine := .new p #[#[0x1FF, 0x105, 0x1FF], #[0, 0, 0]]
  have hmade : vs.Made := by
    let vs₀ : Variables := ⟨[.named "X", .named "A"], [.named "Y", .named "B"]⟩
    let vs₁ : Variables := ⟨[⟨"X", row, none, some x⟩, .named "A"], [.named "Y", .named "B"]⟩
    let vs₂ : Variables := ⟨[⟨"X", row, none, some x⟩, .named "A"],
      [⟨"Y", row, none, some y⟩, .named "B"]⟩
    let vs₃ : Variables := ⟨[⟨"X", row, none, some x⟩, ⟨"A", single, none, some a⟩],
      [⟨"Y", row, none, some y⟩, .named "B"]⟩
    have hdiscover : Variables.discover "READ X\nWRITE Y\nREAD A\nWRITE B\n" = .ok vs₀ := by
      decide +kernel
    have hX : Variables.bind vs₀ "X" row (some x) = .ok vs₁ := by decide +kernel
    have hY : Variables.bind vs₁ "Y" row (some y) = .ok vs₂ := by decide +kernel
    have hA : Variables.bind vs₂ "A" single (some a) = .ok vs₃ := by decide +kernel
    have hB : Variables.bind vs₃ "B" single (some b) = .ok vs := by decide +kernel
    exact ⟨_, _, hdiscover, .bind (.bind (.bind (.bind .refl hX) hY) hA) hB⟩
  have hsep : vs.Separate := Variables.separate_of_forall (by decide)
  have hcompile : compile "READ X\nWRITE Y\nREAD A\nWRITE B\n" vs .default = .ok p := by
    decide +kernel
  have hm : m.Fits p := Machine.fits_new ⟨by decide, by decide⟩
  have hdone : (m.execute p .safe none).2.1 = none := by decide +kernel
  have hshared : (m.execute p .safe none).1.store.shared =
      #[#[0x1FF, 0x105, 0x1FF], #[0x1FF, 0x105, 0xFFFFFFFFFFFFFFFF]] := by decide +kernel
  exact ⟨vs, p, m, hmade, hsep, hcompile, hm, rfl, hdone, hshared,
    execute_writes_words hmade hsep hcompile hm hdone⟩

theorem written_row_not_words :
    ∃ vs p, ∃ m : Machine, vs.Made ∧ vs.Separate ∧
      compile "READ X\nWRITE Y\n" vs .default = .ok p ∧ m.Fits p ∧
      (m.execute p .safe none).2.1 = none ∧
      .write "Y" ∈ Postfix.accesses (Postfix.instructions "READ X\nWRITE Y\n") ∧
      ∃ v x w, p.vars.get? "Y" = some v ∧ v.external = some x ∧ v.type.kind? = some (.int .w8) ∧
        (m.execute p .safe none).1.store.shared.load? x.memory.number x.offset = some w ∧
        ¬ Scalar.IsWord (.int .w8) w := by
  let row : DataType := .matrix (.int .w8) 1 2
  let x : External := ⟨⟨0, 2⟩, 0⟩
  let y : External := ⟨⟨1, 2⟩, 0⟩
  let vs : Variables := ⟨[⟨"X", row, none, some x⟩], [⟨"Y", row, none, some y⟩]⟩
  let p : Program := {
    vars := ⟨[⟨"X", row, some (.matrix 0), some x⟩], [⟨"Y", row, some (.matrix 1), some y⟩]⟩
    constants := #[]
    literals := []
    code := #[⟨.loadMatrix 0, 1, [], some row, none⟩, ⟨.storeMatrix 1, 2, [row], none, none⟩]
    matrices := #[⟨row, some x⟩, ⟨row, some y⟩]
    bindings := #[]
    sizes := ⟨0, 0, 2, 1⟩ }
  let m : Machine := .new p #[#[0x1FF, 0x105], #[0, 0]]
  have hmade : vs.Made := by
    have hdiscover : Variables.discover "READ X\nWRITE Y\n" = .ok ⟨[.named "X"], [.named "Y"]⟩ := by
      decide +kernel
    have hX : Variables.bind ⟨[.named "X"], [.named "Y"]⟩ "X" row (some x) =
        .ok ⟨[⟨"X", row, none, some x⟩], [.named "Y"]⟩ := by decide +kernel
    have hY : Variables.bind ⟨[⟨"X", row, none, some x⟩], [.named "Y"]⟩ "Y" row (some y) =
        .ok vs := by decide +kernel
    exact ⟨_, _, hdiscover, .bind (.bind .refl hX) hY⟩
  have hsep : vs.Separate := Variables.separate_of_forall (by decide)
  have hcompile : compile "READ X\nWRITE Y\n" vs .default = .ok p := by decide +kernel
  have hm : m.Fits p := Machine.fits_new ⟨by decide, by decide⟩
  have hdone : (m.execute p .safe none).2.1 = none := by decide +kernel
  have hwrite : .write "Y" ∈ Postfix.accesses (Postfix.instructions "READ X\nWRITE Y\n") := by
    decide +kernel
  have hcell : (m.execute p .safe none).1.store.shared.load? 1 0 = some 0x1FF := by decide +kernel
  have hword : ¬ Scalar.IsWord (.int .w8) 0x1FF := by
    rw [Scalar.isWord_iff]
    decide
  exact ⟨vs, p, m, hmade, hsep, hcompile, hm, hdone, hwrite, ⟨"Y", row, some (.matrix 1), some y⟩,
    y, 0x1FF, rfl, rfl, rfl, hcell, hword⟩

end Program

end FormulaMachine
