import FormulaMachine.Proofs.Machine.Isolation
import FormulaMachine.Proofs.Reference.Refinement

namespace FormulaMachine

def External.Covers (x : External) (count memory index : Nat) : Prop :=
  memory = x.memory.number ∧ x.offset ≤ index ∧ index < x.offset + count

namespace Shared

variable {t t' : Shared} {n : Nat}

theorem size_eq_of_sizes (hsizes : t'.map Array.size = t.map Array.size) : t'.size = t.size := by
  simpa using congrArg Array.size hsizes

theorem load?_eq_of_word_eq (hsizes : t'.map Array.size = t.map Array.size) {i : Nat}
    (hword : (t'.load? n i).getD 0 = (t.load? n i).getD 0) : t'.load? n i = t.load? n i := by
  have hsize := size_eq_of_sizes hsizes
  by_cases hn : n < t.size
  · have hn' : n < t'.size := by omega
    have hcells : t'[n].size = t[n].size := by
      simpa [hn, hn'] using congrArg (fun sizes => sizes[n]?) hsizes
    by_cases hi : i < t[n].size
    · have hi' : i < t'[n].size := by omega
      simpa [load?, hn, hn', hi, hi'] using hword
    · have hi' : ¬ i < t'[n].size := by omega
      simp [load?, hn, hn', hi, hi']
  · have hn' : ¬ n < t'.size := by omega
    simp [load?, hn, hn']

theorem getElem?_eq_of_words_eq (hsizes : t'.map Array.size = t.map Array.size)
    (hwords : ∀ i, (t'.load? n i).getD 0 = (t.load? n i).getD 0) : t'[n]? = t[n]? := by
  have hsize := size_eq_of_sizes hsizes
  by_cases hn : n < t.size
  · have hn' : n < t'.size := by omega
    rw [Array.getElem?_eq_getElem hn, Array.getElem?_eq_getElem hn']
    refine congrArg some (Array.ext_getElem? fun i => ?_)
    simpa [load?, hn, hn'] using load?_eq_of_word_eq hsizes (hwords i)
  · rw [Array.getElem?_eq_none (by omega), Array.getElem?_eq_none (by omega)]

end Shared

namespace Store.ChangedIn

variable {area : Set Address} {s s' : Store}

theorem scalars_getElem? (h : s.ChangedIn area s') {o : Nat} (ho : .byte o ∉ area) :
    s'.owned.scalars[o]? = s.owned.scalars[o]? := by
  have hsize : s'.owned.scalars.size = s.owned.scalars.size := congrArg Shape.bytes h.shape
  by_cases hlt : o < s.owned.scalars.size
  · have hlt' : o < s'.owned.scalars.size := by omega
    have hbyte := congrArg (BitVec.setWidth 8) (h.content _ ho)
    simp only [Store.content, BitVec.setWidth_setWidth_of_le _ (show 8 ≤ 64 by decide),
      BitVec.setWidth_eq] at hbyte
    simpa [hlt, hlt'] using hbyte
  · rw [Array.getElem?_eq_none (by omega), Array.getElem?_eq_none (by omega)]

theorem matrices_getElem? (h : s.ChangedIn area s') {number : Nat}
    (hnumber : ∀ i, .cell (.owned number i) ∉ area) :
    s'.owned.matrices[number]? = s.owned.matrices[number]? :=
  Shared.getElem?_eq_of_words_eq (congrArg Shape.owned h.shape) fun i =>
    h.content (.cell (.owned number i)) (hnumber i)

theorem shared_load? (h : s.ChangedIn area s') {memory i : Nat}
    (hcell : .cell (.shared memory i) ∉ area) :
    s'.shared.load? memory i = s.shared.load? memory i :=
  Shared.load?_eq_of_word_eq (congrArg Shape.shared h.shape)
    (h.content (.cell (.shared memory i)) hcell)

end Store.ChangedIn

namespace Program

variable {p : Program} {checked : Bool} {area : Set Address}

section Runs

variable {es : List Entry}

theorem changedIn_of_step {st st' : State} {opcode : Opcode}
    (h : p.step checked opcode st = .ok st') : st.store.ChangedIn (p.written opcode) st'.store :=
  ⟨shape_step h, fun _ ha => content_of_not_written h ha⟩

theorem runFrom_changedIn (hes : ∀ e ∈ es, p.written e.opcode ⊆ area) (position : Nat)
    (st : State) : st.store.ChangedIn area (p.runFrom checked position st es).store := by
  induction es generalizing position st with
  | nil => exact .refl _ _
  | cons e es ih =>
      obtain ⟨he, hes⟩ := List.forall_mem_cons.mp hes
      rw [runFrom]
      cases hstep : p.step checked e.opcode st with
      | error f => exact .refl _ _
      | ok st' => exact ((changedIn_of_step hstep).mono he).trans (ih hes (position + 1) st')

theorem traceFrom_changedIn (hes : ∀ e ∈ es, p.written e.opcode ⊆ area) (position : Nat)
    (st : State) (sink : Sink) :
    st.store.ChangedIn area (p.traceFrom position st sink es).outcome.store := by
  induction es generalizing position st sink with
  | nil =>
      rw [traceFrom]
      rcases sink.write (p.traceEnd st) with ⟨sink, _ | _⟩ <;> exact .refl _ _
  | cons e es ih =>
      obtain ⟨he, hes⟩ := List.forall_mem_cons.mp hes
      rw [traceFrom]
      rcases sink.write (p.traceBefore position e st) with ⟨sink, _ | _⟩
      · exact .refl _ _
      dsimp only
      cases hstep : p.step true e.opcode st with
      | error f =>
          dsimp only
          rcases sink.write traceFault with ⟨sink, _ | _⟩ <;> exact .refl _ _
      | ok st' =>
          have hchanged := (changedIn_of_step hstep).mono he
          dsimp only
          rcases sink.write (p.traceAfter e st') with ⟨sink, _ | _⟩
          · exact hchanged
          · exact hchanged.trans (ih hes (position + 1) st' sink)

theorem execute_changedIn (hcode : ∀ e ∈ p.code.toList, p.written e.opcode ⊆ area) (mode : Mode)
    (s : Store) (sink : Option Sink) : s.ChangedIn area (p.execute mode s sink).1.store := by
  cases mode with
  | fast => exact runFrom_changedIn hcode 0 ⟨s, .empty⟩
  | safe => exact runFrom_changedIn hcode 0 ⟨s, .empty⟩
  | debug =>
      cases sink with
      | none => exact .refl _ _
      | some sink =>
          simp only [execute, trace]
          rcases sink.write traceHeader with ⟨sink, _ | _⟩
          · exact .refl _ _
          · exact traceFrom_changedIn hcode 0 ⟨s, .empty⟩ sink

end Runs

def areaOf (p : Program) (names : Set String) : Set Address :=
  {a | ∃ name ∈ names, ∃ v l, p.vars.get? name = some v ∧ v.location = some l ∧
    a ∈ p.area v.type l}

theorem eq_variable_of_byte_mem {t : DataType} {l : Location} {o : Nat}
    (h : .byte o ∈ p.area t l) :
    ∃ offset, l = .variable offset ∧ offset ≤ o ∧ o < offset + t.size := by
  rcases l with offset | number | number
  · obtain ⟨o', hlow, hhigh, heq⟩ := h
    obtain rfl := Address.byte.inj heq
    exact ⟨offset, rfl, hlow, hhigh⟩
  · obtain ⟨x, -, heq⟩ := h
    cases heq
  · obtain ⟨i, -, heq⟩ := h
    cases heq

theorem eq_matrix_of_owned_mem {t : DataType} {l : Location} {number i : Nat}
    (h : .cell (.owned number i) ∈ p.area t l) : l = .matrix number := by
  rcases l with offset | n | n
  · obtain ⟨o, -, -, heq⟩ := h
    cases heq
  · obtain ⟨x, -, heq⟩ := h
    cases heq
  · obtain ⟨j, -, heq⟩ := h
    unfold matrixAt at heq
    split at heq
    · cases heq
    · obtain ⟨rfl, -⟩ := Cell.owned.inj (Address.cell.inj heq)
      rfl

theorem covers_of_shared_mem (hp : p.layout.Sound) {name : String} {v : Variable} {l : Location}
    (hv : p.vars.get? name = some v) (hl : v.location = some l) {memory i : Nat}
    (h : .cell (.shared memory i) ∈ p.area v.type l) :
    ∃ x, v.external = some x ∧ x.Covers v.type.length memory i := by
  have hkeeps := (hp.houses name v hv).keeps l hl
  rcases l with offset | number | number
  · obtain ⟨o, -, -, heq⟩ := h
    cases heq
  · obtain ⟨k, x, ht, hx, hbinding⟩ := hkeeps
    obtain ⟨y, hy, heq⟩ := h
    obtain rfl := Option.some.inj (hbinding.symm.trans hy)
    obtain ⟨hmemory, hindex⟩ := Cell.shared.inj (Address.cell.inj heq)
    rw [ht]
    exact ⟨x, hx, hmemory, Nat.le_of_eq hindex.symm, hindex ▸ Nat.lt_succ_self _⟩
  · have hslot : p.matrices[number]? = some ⟨v.type, v.external⟩ := hkeeps.2
    obtain ⟨j, hj, heq⟩ := h
    simp only [matrixType, hslot, Option.map_some, Option.getD_some] at hj
    simp only [matrixAt, matrixExternal?, hslot, Option.bind_some] at heq
    cases hx : v.external with
    | none =>
        rw [hx] at heq
        cases heq
    | some x =>
        rw [hx] at heq
        obtain ⟨hmemory, hindex⟩ := Cell.shared.inj (Address.cell.inj heq)
        exact ⟨x, rfl, hmemory, by omega, by omega⟩

section Compiled

variable {es : List Entry} {code : List Postfix.Instruction}

theorem written_loadOpcode (k : Kind) (l : Location) : p.written (Draft.loadOpcode k l) = ∅ := by
  cases l <;> rfl

theorem written_storeOpcode {w : Variable} {l : Location} (h : p.layout.Keeps w l) :
    p.written (Draft.storeOpcode (Draft.elementKind w.type) l) = p.area w.type l := by
  rcases l with offset | number | number
  · obtain ⟨k, ht, -, -⟩ := h
    rw [ht]
    rfl
  · rfl
  · rfl

theorem Admits.written_subset {hs hs' : List Held} {e : Entry} (he : p.Admits hs e hs')
    (hop : e.opcode.location? = none) : p.written e.opcode ⊆ p.temporaries := by
  cases he with
  | copyMatrix _ _ _ htemp => exact htemp.area_subset
  | matrix _ htemp => exact htemp.area_subset
  | loadConstant => exact Set.empty_subset _
  | cast => exact Set.empty_subset _
  | keep => exact Set.empty_subset _
  | scalar => exact Set.empty_subset _
  | _ => cases hop

theorem Accesses.written_subset (hp : p.layout.Sound)
    (hes : ∀ e ∈ es, ∃ hs hs', p.Admits hs e hs') (h : p.Accesses es code) :
    ∀ e ∈ es, p.written e.opcode ⊆ p.areaOf {name | .write name ∈ code} ∪ p.temporaries := by
  have hlater {i : Postfix.Instruction} {code : List Postfix.Instruction} :
      p.areaOf {name | .write name ∈ code} ∪ p.temporaries ⊆
        p.areaOf {name | .write name ∈ i :: code} ∪ p.temporaries := by
    refine Set.union_subset_union_left _ ?_
    rintro a ⟨name, hname, hmem⟩
    exact ⟨name, List.mem_cons_of_mem _ hname, hmem⟩
  induction h with
  | nil => exact fun e he => absurd he List.not_mem_nil
  | load hw hl hop _ ih =>
      obtain ⟨-, hes⟩ := List.forall_mem_cons.mp hes
      refine List.forall_mem_cons.mpr ⟨?_, fun e he => (ih hes e he).trans hlater⟩
      rw [hop, written_loadOpcode]
      exact Set.empty_subset _
  | @store name w l _ _ _ hw hl hop _ ih =>
      obtain ⟨-, hes⟩ := List.forall_mem_cons.mp hes
      refine List.forall_mem_cons.mpr ⟨?_, fun e he => (ih hes e he).trans hlater⟩
      rw [hop, written_storeOpcode ((hp.houses name w hw).keeps l hl)]
      exact fun a ha => .inl ⟨name, List.mem_cons_self, w, l, hw, hl, ha⟩
  | neither hop _ ih =>
      obtain ⟨⟨hs, hs', he⟩, hes⟩ := List.forall_mem_cons.mp hes
      exact List.forall_mem_cons.mpr ⟨fun a ha => .inr (he.written_subset hop ha), ih hes⟩

structure Untouched (p : Program) (names : Set String) (s s' : Store) : Prop where
  shape : s'.shape = s.shape
  bytes : ∀ name ∉ names, ∀ v offset, p.vars.get? name = some v →
    v.location = some (.variable offset) → ∀ o, offset ≤ o → o < offset + v.type.size →
      s'.owned.scalars[o]? = s.owned.scalars[o]?
  matrices : ∀ name ∉ names, ∀ v number, p.vars.get? name = some v →
    v.location = some (.matrix number) → s'.owned.matrices[number]? = s.owned.matrices[number]?
  cells : ∀ memory i, (∀ name ∈ names, ∀ v x, p.vars.get? name = some v →
      v.external = some x → ¬ x.Covers v.type.length memory i) →
    s'.shared.load? memory i = s.shared.load? memory i

theorem untouched_of_changedIn (hp : p.layout.Sound) {names : Set String} {s s' : Store}
    (h : s.ChangedIn (p.areaOf names ∪ p.temporaries) s') : p.Untouched names s s' := by
  have hplaces {a b : String} {v w : Variable} {l l' : Location} (hab : a ≠ b)
      (hv : p.vars.get? a = some v) (hl : v.location = some l) (hw : p.vars.get? b = some w)
      (hl' : w.location = some l') : l.Apart v.type.size w.type.size l' :=
    hp.apart a b v w hab hv hw l l' hl hl'
  refine ⟨h.shape, fun name hname v offset hv hl o hlow hhigh => h.scalars_getElem? ?_,
    fun name hname v number hv hl => h.matrices_getElem? fun i => ?_,
    fun memory i hcell => h.shared_load? ?_⟩
  · rintro (⟨other, hother, w, l', hw, hl', hmem⟩ | ⟨number, i, -, heq⟩)
    · obtain ⟨offset', rfl, hlow', hhigh'⟩ := eq_variable_of_byte_mem hmem
      have hne : name ≠ other := fun heq => hname (heq ▸ hother)
      rcases hplaces hne hv hl hw hl' with hle | hle <;> omega
    · cases heq
  · rintro (⟨other, hother, w, l', hw, hl', hmem⟩ | ⟨number', i', htemp, heq⟩)
    · obtain rfl := eq_matrix_of_owned_mem hmem
      have hne : name ≠ other := fun heq => hname (heq ▸ hother)
      exact hplaces hne hv hl hw hl' rfl
    · obtain ⟨rfl, -⟩ := Cell.owned.inj (Address.cell.inj heq)
      exact htemp.unnamed name v hv hl
  · rintro (⟨name, hname, v, l, hv, hl, hmem⟩ | ⟨number, j, -, heq⟩)
    · obtain ⟨x, hx, hcovers⟩ := covers_of_shared_mem hp hv hl hmem
      exact hcell name hname v x hv hx hcovers
    · cases heq

theorem areaOf_disjoint (hp : p.layout.Sound) (hsep : p.vars.Separate) {names : Set String}
    {name : String} {v : Variable} {l : Location} (hname : name ∉ names)
    (hv : p.vars.get? name = some v) (hl : v.location = some l) :
    Disjoint (p.area v.type l) (p.areaOf names ∪ p.temporaries) := by
  refine Set.disjoint_union_right.mpr ⟨Set.disjoint_left.mpr ?_, temporaries_disjoint hv hl⟩
  rintro a ha ⟨other, hother, w, l', hw, hl', ha'⟩
  have hne : name ≠ other := fun heq => hname (heq ▸ hother)
  exact Set.disjoint_left.mp (area_disjoint hp hsep hne hv hw hl hl') ha ha'

variable {text : String} {vs₀ vs : Variables} {o : CompileOptions} {m : Machine}

theorem writes_of_compile (hvs : vs.Fresh) (h : compile text vs o = .ok p) :
    ∀ e ∈ p.code.toList, p.written e.opcode ⊆
      p.areaOf {name | .write name ∈ Postfix.accesses (Postfix.instructions text)} ∪
        p.temporaries := by
  have hp := compile_sound hvs h
  exact (accesses_of_compile hvs h).written_subset hp.layout fun e he =>
    hp.admits.admits_of_mem he

theorem machine_changedIn (hvs : vs.Fresh) (h : compile text vs o = .ok p) (hm : m.Fits p)
    (mode : Mode) (sink : Option Sink) :
    m.store.ChangedIn
      (p.areaOf {name | .write name ∈ Postfix.accesses (Postfix.instructions text)} ∪
        p.temporaries) (m.execute p mode sink).1.store := by
  obtain ⟨hends, -⟩ := Machine.execute_ends (compile_sound hvs h) hm mode sink
  exact (execute_changedIn (writes_of_compile hvs h) mode m.store sink).trans
    (hends.changed.mono Set.subset_union_right)

theorem execute_keeps_inputs (hdiscover : Variables.discover text = .ok vs₀)
    (hbound : vs₀.Bound vs) (hsep : vs.Separate) (h : compile text vs o = .ok p) (hm : m.Fits p)
    (mode : Mode) (sink : Option Sink) :
    p.SameOn {name | name ∈ p.vars.inputNames} m.store (m.execute p mode sink).1.store := by
  have hvs : vs.Fresh := (Variables.unbound_discover hdiscover).fresh.bound hbound
  intro name hname w l hw hl a ha
  have hwrite := (((names_of_compile hdiscover hbound h).2 name).mp hname).2
  refine ((machine_changedIn hvs h hm mode sink).content a ?_).symm
  exact Set.disjoint_left.mp (areaOf_disjoint (compile_sound hvs h).layout
    (separate_of_compile hsep h) hwrite hw hl) ha

theorem execute_touches_outputs (hvs : vs.Made) (h : compile text vs o = .ok p) (hm : m.Fits p)
    (mode : Mode) (sink : Option Sink) :
    p.Untouched {name | .write name ∈ Postfix.accesses (Postfix.instructions text)} m.store
        (p.execute mode m.store sink).1.store ∧
      p.Untouched {name | .write name ∈ Postfix.accesses (Postfix.instructions text)} m.store
        (m.execute p mode sink).1.store ∧
      ∀ vs₀, Variables.discover text = .ok vs₀ → vs₀.Bound vs → vs.Separate →
        p.SameOn {name | name ∈ p.vars.inputNames} m.store (m.execute p mode sink).1.store ∧
        ∀ name ∈ p.vars.inputNames,
          p.value (m.execute p mode sink).1.store name = p.value m.store name ∧
            p.matrix (m.execute p mode sink).1.store name = p.matrix m.store name := by
  have hp := compile_sound hvs.fresh h
  have hchanged := execute_changedIn (writes_of_compile hvs.fresh h) mode m.store sink
  refine ⟨untouched_of_changedIn hp.layout hchanged,
    untouched_of_changedIn hp.layout (machine_changedIn hvs.fresh h hm mode sink),
    fun vs₀ hdiscover hbound hsep => ?_⟩
  have hsame := execute_keeps_inputs hdiscover hbound hsep h hm mode sink
  refine ⟨hsame, fun name hname => ⟨(value_congr ?_).symm, (matrix_congr ?_ hp.layout).symm⟩⟩
  · exact hsame name hname
  · exact hsame name hname

end Compiled

theorem execute_touches_outputs_row :
    ∃ vs p, ∃ m : Machine, vs.Made ∧
      compile "READ S\nWRITE T\nREAD A\nREAD A\nSUM\nWRITE B\n" vs .default = .ok p ∧
      m.Fits p ∧ (m.execute p .safe none).2.1.isSome ∧
      m.store.shared = #[#[1, 7], #[0x3FF0000000000000, 0x7FE0000000000000, 0, 0]] ∧
      (m.execute p .safe none).1.store.shared =
        #[#[5, 7], #[0x3FF0000000000000, 0x7FE0000000000000, 0, 0]] ∧
      p.value (m.execute p .safe none).1.store "S" = p.value m.store "S" ∧
      p.matrix (m.execute p .safe none).1.store "A" = p.matrix m.store "A" ∧
      (m.execute p .safe none).1.store.shared.load? 0 1 = m.store.shared.load? 0 1 := by
  let byte : DataType := .scalar (.int .w8)
  let row : DataType := .matrix .float64 1 2
  let x : External := ⟨⟨0, 2⟩, 0⟩
  let y : External := ⟨⟨1, 4⟩, 0⟩
  let z : External := ⟨⟨1, 4⟩, 2⟩
  let vs : Variables := ⟨[⟨"S", byte, none, none⟩, ⟨"A", row, none, some y⟩],
    [⟨"T", byte, none, some x⟩, ⟨"B", row, none, some z⟩]⟩
  let p : Program := {
    vars := ⟨[⟨"S", byte, some (.variable 0), none⟩, ⟨"A", row, some (.matrix 0), some y⟩],
      [⟨"T", byte, some (.external 0), some x⟩, ⟨"B", row, some (.matrix 2), some z⟩]⟩
    constants := #[]
    literals := []
    code := #[⟨.loadVariable 0 (.int .w8), 1, [], some byte, none⟩,
      ⟨.storeExternal 0 (.int .w8), 2, [byte], none, none⟩,
      ⟨.loadMatrix 0, 3, [], some row, none⟩, ⟨.loadMatrix 0, 4, [], some row, none⟩,
      ⟨.matrix .sum 1, 5, [row, row], some row, none⟩, ⟨.storeMatrix 2, 6, [row], none, none⟩]
    matrices := #[⟨row, some y⟩, ⟨row, none⟩, ⟨row, some z⟩]
    bindings := #[x]
    sizes := ⟨0, 1, 6, 2⟩ }
  let m : Machine :=
    ⟨⟨⟨#[5], p.newOwned.matrices⟩,
      #[#[1, 7], #[0x3FF0000000000000, 0x7FE0000000000000, 0, 0]]⟩, #[0, 0], 0⟩
  have hdiscover : Variables.discover "READ S\nWRITE T\nREAD A\nREAD A\nSUM\nWRITE B\n" =
      .ok ⟨[.named "S", .named "A"], [.named "T", .named "B"]⟩ := by decide +kernel
  have hbound : Variables.Bound ⟨[.named "S", .named "A"], [.named "T", .named "B"]⟩ vs := by
    let vs₁ : Variables := ⟨[⟨"S", byte, none, none⟩, .named "A"], [.named "T", .named "B"]⟩
    let vs₂ : Variables :=
      ⟨[⟨"S", byte, none, none⟩, ⟨"A", row, none, some y⟩], [.named "T", .named "B"]⟩
    let vs₃ : Variables := ⟨[⟨"S", byte, none, none⟩, ⟨"A", row, none, some y⟩],
      [⟨"T", byte, none, some x⟩, .named "B"]⟩
    have hS : Variables.bind ⟨[.named "S", .named "A"], [.named "T", .named "B"]⟩ "S" byte none =
        .ok vs₁ := by decide +kernel
    have hA : Variables.bind vs₁ "A" row (some y) = .ok vs₂ := by decide +kernel
    have hT : Variables.bind vs₂ "T" byte (some x) = .ok vs₃ := by decide +kernel
    have hB : Variables.bind vs₃ "B" row (some z) = .ok vs := by decide +kernel
    exact .bind (.bind (.bind (.bind .refl hS) hA) hT) hB
  have hsep : vs.Separate := Variables.separate_of_forall (by decide)
  have hcompile : compile "READ S\nWRITE T\nREAD A\nREAD A\nSUM\nWRITE B\n" vs .default =
      .ok p := by decide +kernel
  have hprovides : Provides m.store.shared p := by decide
  have hm : m.Fits p := ⟨⟨rfl, (fits_new hprovides).owned, hprovides⟩, rfl, Nat.zero_le 2⟩
  have hstop : (m.execute p .safe none).2.1.isSome := by decide +kernel
  have hshared : (m.execute p .safe none).1.store.shared =
      #[#[5, 7], #[0x3FF0000000000000, 0x7FE0000000000000, 0, 0]] := by decide +kernel
  have hmade : vs.Made := ⟨_, _, hdiscover, hbound⟩
  obtain ⟨-, huntouched, hinputs⟩ := execute_touches_outputs hmade hcompile hm .safe none
  obtain ⟨-, hkept⟩ := hinputs _ hdiscover hbound hsep
  have hcell := huntouched.cells 0 1 fun name _ v x' hv hx' => by
    have hall : ∀ v ∈ p.vars.outputs ++ p.vars.inputs, ∀ x ∈ v.external,
        ¬ (0 = x.memory.number ∧ x.offset ≤ 1 ∧ 1 < x.offset + v.type.length) := by decide
    exact hall v (List.mem_of_find?_eq_some hv) x' hx'
  exact ⟨vs, p, m, hmade, hcompile, hm, hstop, rfl, hshared, (hkept "S" (by decide)).1,
    (hkept "A" (by decide)).2, hcell⟩

end Program

end FormulaMachine
