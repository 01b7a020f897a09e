import FormulaMachine.Proofs.Compiler.Allocation
import FormulaMachine.Proofs.Machine.Canonical

namespace FormulaMachine

theorem eq_of_countP_eq_one {α : Type} {q : α → Bool} {xs : List α} (h : xs.countP q = 1)
    {i j : Nat} {x y : α} (hx : xs[i]? = some x) (hy : xs[j]? = some y) (hqx : q x)
    (hqy : q y) : i = j := by
  induction xs generalizing i j with
  | nil => cases hx
  | cons a xs ih =>
      have hrest {k : Nat} {z : α} (ha : q a) (hz : xs[k]? = some z) (hqz : q z) : False := by
        have hpos := List.countP_pos_iff.mpr ⟨z, List.mem_of_getElem? hz, hqz⟩
        rw [List.countP_cons_of_pos ha] at h
        omega
      cases i with
      | zero =>
          obtain rfl := Option.some.inj hx
          cases j with
          | zero => rfl
          | succ j => exact (hrest hqx hy hqy).elim
      | succ i =>
          cases j with
          | zero =>
              obtain rfl := Option.some.inj hy
              exact (hrest hqy hx hqx).elim
          | succ j =>
              by_cases ha : q a
              · exact (hrest ha hx hqx).elim
              · rw [List.countP_cons_of_neg ha] at h
                rw [ih h hx hy]

namespace Program

variable {p : Program} {checked : Bool} {s : Store} {st : State} {pc number : Nat} {e : Entry}
  {hs hs' : List Held}

def StandsFor (p : Program) (pc : Nat) (st : State) (depth number : Nat) : Prop :=
  ∃ t, (p.typesAt pc)[depth]? = some t ∧ t.isMatrix ∧
    st.stack.slots[depth]? = some (matrixWord number)

def Tracks (p : Program) (slot : Slot) (w : Word) : Prop :=
  ∀ number, slot.source = some number ↔
    slot.type.isMatrix ∧ w = matrixWord number ∧ p.layout.Names number

structure StoresFreely (p : Program) (pc : Nat) (st : State) (number : Nat) : Prop where
  named : p.layout.Names number
  free : ∀ depth, 0 < depth → ¬ p.StandsFor pc st depth number

structure MakesAfresh (p : Program) (pc : Nat) (st : State) (number : Nat) : Prop where
  unnamed : ¬ p.layout.Names number
  free : ∀ depth, ¬ p.StandsFor pc st depth number
  alone : ∀ q e, q ≠ pc → p.code[q]? = some e → e.opcode.destination? ≠ some number ∧
    Disjoint (p.matrixArea number) (p.written e.opcode)

def Records (p : Program) (text : String) (vs : Variables) (o : CompileOptions) (checked : Bool)
    (s : Store) : Prop :=
  ∀ lines, lines <+: Postfix.instructions text →
    ∃ d, lines.foldlM (Draft.line o) (Draft.start vs) = .ok d ∧
      d.code.toList = p.code.toList.take d.code.size ∧
      ∀ st, p.Visits checked s d.code.size st → List.Forall₂ p.Tracks d.stack.slots st.stack.slots

structure KeepsLive (p : Program) (text : String) (vs : Variables) (o : CompileOptions)
    (checked : Bool) (s : Store) : Prop where
  stores : ∀ pc st e number, p.Visits checked s pc st → p.code[pc]? = some e →
    e.opcode = .storeMatrix number → p.StoresFreely pc st number
  makes : ∀ pc st e number, p.Visits checked s pc st → p.code[pc]? = some e →
    e.opcode.target? = some number → p.MakesAfresh pc st number
  records : p.Records text vs o checked s

section Slots

theorem matrixWord_inj (hfew : p.matrices.size ≤ 1 <<< 16) {m n : Nat}
    (hm : m < p.matrices.size) (hn : n < p.matrices.size) (h : matrixWord m = matrixWord n) :
    m = n := by
  rw [← toNat_matrixWord hfew hm, ← toNat_matrixWord hfew hn, h]

theorem StandsFor.held {depth : Nat} (h : p.StandsFor pc st depth number)
    (hfew : p.matrices.size ≤ 1 <<< 16) (hnumber : number < p.matrices.size)
    (htypes : p.typesAt pc = hs.map p.heldType)
    (hwords : List.Forall₂ Held.Matches hs st.stack.slots) :
    hs[depth]? = some (.matrix number) := by
  obtain ⟨t, ht, hmatrix, hw⟩ := h
  rw [htypes, List.getElem?_map, Option.map_eq_some_iff] at ht
  obtain ⟨x, hx, rfl⟩ := ht
  obtain ⟨w, hw', hmatches⟩ := forall₂_getElem?_left hwords hx
  obtain rfl := Option.some.inj (hw'.symm.trans hw)
  cases x with
  | scalar k => cases hmatrix
  | matrix m =>
      obtain ⟨k, rows, cols, hm⟩ := DataType.eq_matrix_of_isMatrix hmatrix
      obtain rfl := matrixWord_inj hfew hnumber (lt_of_matrixType hm) hmatches
      exact hx

theorem Admits.target_free (h : p.Admits hs e hs') (ht : e.opcode.target? = some number) :
    .matrix number ∉ hs := by
  cases h with
  | copyMatrix _ _ _ _ hfree =>
      obtain rfl := Option.some.inj ht
      exact hfree
  | matrix _ _ hfree =>
      obtain rfl := Option.some.inj ht
      exact hfree
  | _ => cases ht

theorem Temporary.not_names (h : p.Temporary number) : ¬ p.layout.Names number := by
  rintro ⟨name, v, hv, hl⟩
  exact h.unnamed name v hv hl

theorem Access.names (h : p.Access e) (hop : e.opcode = .storeMatrix number) :
    p.layout.Names number := by
  cases h with
  | @load name w l _ _ hload => rcases l with n | n | n <;> cases hop.symm.trans hload
  | @store name w l hw hl hstore =>
      rcases l with n | n | n <;> cases hop.symm.trans hstore
      exact ⟨name, w, hw, hl⟩
  | neither hnone => rw [hop] at hnone; cases hnone

theorem matrixArea_disjoint_written_of_owned (howned : p.matrixExternal? number = none)
    {opcode : Opcode} (hne : opcode.destination? ≠ some number) :
    Disjoint (p.matrixArea number) (p.written opcode) := by
  cases opcode with
  | storeVariable offset k => exact matrixArea_disjoint_variable number (.scalar k) offset
  | storeExternal n k => exact matrixArea_disjoint_external_of_owned howned (.scalar k)
  | storeMatrix | copyMatrix | matrix =>
      exact matrixArea_disjoint_of_owned howned fun heq => hne (congrArg some heq.symm)
  | _ => exact Set.disjoint_empty _

theorem tracks_of_holds (hp : p.layout.Sound) {slot : Slot} {x : Held} {w : Word}
    (h : SlotHolds p p.layout slot x) (hw : x.Matches w) : p.Tracks slot w := by
  intro n
  cases h with
  | scalar k => exact ⟨nofun, fun h => nomatch h.1⟩
  | @named m k rows cols ht hnames hlt =>
      obtain rfl := hw
      refine ⟨fun heq => ?_, fun ⟨_, hword, hn⟩ => ?_⟩
      · obtain rfl := Option.some.inj heq
        exact ⟨rfl, rfl, hnames⟩
      · exact congrArg some (matrixWord_inj hp.matricesFew hlt (hp.lt_of_names hn) hword)
  | @temporary m k rows cols ht hunnamed hlt =>
      obtain rfl := hw
      refine ⟨nofun, fun ⟨_, hword, hn⟩ => ?_⟩
      obtain rfl := matrixWord_inj hp.matricesFew hlt (hp.lt_of_names hn) hword
      exact absurd hn hunnamed

theorem forall₂_tracks (hp : p.layout.Sound) {slots : List Slot} {ws : List Word}
    (h : SlotsHold p p.layout slots hs) (hws : List.Forall₂ Held.Matches hs ws) :
    List.Forall₂ p.Tracks slots ws := by
  induction h generalizing ws with
  | nil =>
      cases hws
      exact .nil
  | cons hslot _ ih =>
      cases hws with
      | cons hw hws => exact .cons (tracks_of_holds hp hslot hw) (ih hws)

end Slots

section Compiled

variable {text : String} {vs : Variables} {o : CompileOptions}

theorem Visits.storesFreely (hp : p.Sound) (haccess : ∀ e ∈ p.code.toList, p.Access e)
    (h : p.Visits checked s pc st) (he : p.code[pc]? = some e)
    (hop : e.opcode = .storeMatrix number) : p.StoresFreely pc st number := by
  obtain ⟨hs, hs', hpre, hadmits, -, hwords, -⟩ := h.entry hp he
  have hnamed := (haccess e (Array.mem_of_getElem? he).val).names hop
  refine ⟨hnamed, fun depth hdepth hstands => ?_⟩
  have hat := hstands.held hp.layout.matricesFew (hp.layout.lt_of_names hnamed) hpre.types_eq hwords
  have htakes : e.takes = 1 := by
    cases hadmits with
    | storeMatrix => rfl
    | _ => cases hop
  exact hadmits.stored_ne hat (htakes ▸ hdepth) hop

theorem Visits.makesAfresh (hp : p.Sound) (haccess : ∀ e ∈ p.code.toList, p.Access e)
    (hsettled : p.layout.Settled p.code.toList) (h : p.Visits checked s pc st)
    (he : p.code[pc]? = some e) (ht : e.opcode.target? = some number) :
    p.MakesAfresh pc st number := by
  obtain ⟨hs, hs', hpre, hadmits, -, hwords, -⟩ := h.entry hp he
  obtain ⟨htemp, -, hlt⟩ := hadmits.target_eq ht
  refine ⟨htemp.not_names, fun depth hstands => ?_, fun q e' hq he' => ?_⟩
  · have hat := hstands.held hp.layout.matricesFew hlt hpre.types_eq hwords
    exact hadmits.target_free ht (List.mem_of_getElem? hat)
  · have hother : e'.opcode.destination? ≠ some number := by
      intro hdest
      cases hop : e'.opcode with
      | storeMatrix n =>
          rw [hop] at hdest
          obtain rfl := Option.some.inj hdest
          exact htemp.not_names ((haccess e' (Array.mem_of_getElem? he').val).names hop)
      | copyMatrix | matrix =>
          have ht' : e'.opcode.target? = some number := by
            rw [hop] at hdest ⊢
            exact hdest
          refine hq (eq_of_countP_eq_one (hsettled.once number hlt htemp.not_names)
            (Array.getElem?_toList ▸ he') (Array.getElem?_toList ▸ he) ?_ ?_)
          · simpa using ht'
          · simpa using ht
      | _ =>
          rw [hop] at hdest
          cases hdest
    exact ⟨hother, matrixArea_disjoint_written_of_owned htemp.owned hother⟩

theorem Visits.matched (h : p.Visits checked s pc st)
    (hpre : p.AdmitsAll p.sizes.maxStackDepth [] (p.code.toList.take pc) hs) :
    List.Forall₂ Held.Matches hs st.stack.slots := by
  induction h generalizing hs with
  | start =>
      cases hpre
      exact .nil
  | @next pc st st' e _ he hstep ih =>
      rw [← Array.getElem?_toList] at he
      obtain ⟨hlt, rfl⟩ := List.getElem?_eq_some_iff.mp he
      rw [List.take_succ_eq_append_getElem hlt] at hpre
      obtain ⟨hs₁, hbefore, hlast⟩ := hpre.split
      cases hlast with
      | cons _ hadmits hnil =>
          have hroom := hnil.length_start_le
          cases hnil
          exact (hadmits.step_progresses checked (ih hbefore) hroom).2 st' hstep

theorem records_of_compile (hvs : vs.Fresh) (h : compile text vs o = .ok p) (checked : Bool)
    (s : Store) : p.Records text vs o checked s := by
  intro lines hlines
  obtain ⟨d, hs, hd, hlead, hw⟩ := written_of_prefix hvs h hlines
  have hp := compile_sound hvs h
  have hcode : d.code.toList = p.code.toList.take d.code.size := by
    obtain ⟨rest, hrest⟩ := hlead.code
    rw [← hrest, List.take_left' d.code.length_toList]
  refine ⟨d, hd, hcode, fun st hvisits => ?_⟩
  have hadmits := hw.admits.mono hlead.maxDepth
  rw [hcode] at hadmits
  exact forall₂_tracks hp.layout (hw.slots.grows hlead.layout) (hvisits.matched hadmits)

theorem keepsLive_of_compile (hvs : vs.Made) (h : compile text vs o = .ok p) (mode : Mode)
    (s : Store) : p.KeepsLive text vs o mode.checked s := by
  have hp := compile_sound hvs.fresh h
  have haccess := (accesses_of_compile hvs.fresh h).access
  exact {
    stores := fun _ _ _ _ hvisits he hop => hvisits.storesFreely hp haccess he hop
    makes := fun _ _ _ _ hvisits he ht =>
      hvisits.makesAfresh hp haccess (settled_of_compile hvs.fresh h) he ht
    records := records_of_compile hvs.fresh h mode.checked s }

theorem keepsLive_written_below :
    ∃ vs p s, vs.Made ∧ compile "READ B\nREAD A\nWRITE B\nWRITE C\n" vs .default = .ok p ∧
      p.KeepsLive "READ B\nREAD A\nWRITE B\nWRITE C\n" vs .default Mode.fast.checked s ∧
      (∃ st, p.Visits false s 2 st ∧ st.stack.slots = [matrixWord 1, matrixWord 0] ∧
        p.code[2]?.map Entry.opcode = some (.copyMatrix 1 2)) ∧
      ∃ st, p.Visits false s 3 st ∧ st.stack.slots = [matrixWord 1, matrixWord 2] ∧
        p.code[3]?.map Entry.opcode = some (.storeMatrix 0) := by
  let row : DataType := .matrix .float64 1 2
  let vs : Variables :=
    ⟨[⟨"A", row, none, none⟩], [⟨"B", row, none, none⟩, .named "C"]⟩
  let p : Program := {
    vars := ⟨[⟨"A", row, some (.matrix 1), none⟩],
      [⟨"B", row, some (.matrix 0), none⟩, ⟨"C", row, some (.matrix 3), none⟩]⟩
    constants := #[]
    literals := []
    code := #[⟨.loadMatrix 0, 1, [], some row, none⟩, ⟨.loadMatrix 1, 2, [], some row, none⟩,
      ⟨.copyMatrix 1 2, 3, [row], some row, none⟩, ⟨.storeMatrix 0, 3, [row], none, none⟩,
      ⟨.storeMatrix 3, 4, [row], none, none⟩]
    matrices := #[⟨row, none⟩, ⟨row, none⟩, ⟨row, none⟩, ⟨row, none⟩]
    bindings := #[]
    sizes := ⟨0, 0, 5, 2⟩ }
  let s : Store := ⟨p.newOwned, #[]⟩
  have hmade : vs.Made := by
    have hdiscover : Variables.discover "READ B\nREAD A\nWRITE B\nWRITE C\n" =
        .ok ⟨[.named "A"], [.named "B", .named "C"]⟩ := by decide +kernel
    have hA : Variables.bind ⟨[.named "A"], [.named "B", .named "C"]⟩ "A" row none =
        .ok ⟨[⟨"A", row, none, none⟩], [.named "B", .named "C"]⟩ := by decide +kernel
    have hB : Variables.bind ⟨[⟨"A", row, none, none⟩], [.named "B", .named "C"]⟩ "B" row none =
        .ok vs := by decide +kernel
    exact ⟨_, _, hdiscover, .bind (.bind .refl hA) hB⟩
  have hcompile : compile "READ B\nREAD A\nWRITE B\nWRITE C\n" vs .default = .ok p := by
    decide +kernel
  have hread : p.Visits false s 2 _ :=
    .next (.next .start (e := ⟨.loadMatrix 0, 1, [], some row, none⟩) rfl rfl)
      (e := ⟨.loadMatrix 1, 2, [], some row, none⟩) rfl rfl
  have hcopied : p.Visits false s 3 _ :=
    hread.next (e := ⟨.copyMatrix 1 2, 3, [row], some row, none⟩) rfl rfl
  exact ⟨vs, p, s, hmade, hcompile, keepsLive_of_compile hmade hcompile .fast s,
    ⟨_, hread, rfl, rfl⟩, ⟨_, hcopied, rfl, rfl⟩⟩

end Compiled

end Program

end FormulaMachine
