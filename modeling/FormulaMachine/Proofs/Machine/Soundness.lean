import FormulaMachine.Proofs.Machine.Residue
import FormulaMachine.Proofs.Program.Signature

namespace FormulaMachine

def Mode.checked : Mode → Bool
  | .fast => false
  | .safe | .debug => true

namespace Program

inductive Visits (p : Program) (checked : Bool) (s : Store) : Nat → State → Prop
  | start : Visits p checked s 0 ⟨s, .empty⟩
  | next {pc : Nat} {st st' : State} {e : Entry} (h : Visits p checked s pc st)
      (he : p.code[pc]? = some e) (hstep : p.step checked e.opcode st = .ok st') :
      Visits p checked s (pc + 1) st'

def HoldsType (p : Program) : DataType → Word → Prop
  | .void, _ => False
  | .scalar k, w => ∃ x : Scalar k, w = x.toWord
  | .matrix k rows cols, w => p.matrixType w.toNat = .matrix k rows cols

inductive Stops (p : Program) (checked : Bool) (pc : Nat) (st : State) : Option Error → Prop
  | completed (hpc : pc = p.code.size) : Stops p checked pc st none
  | faulted {e : Entry} {f : Fault} (he : p.code[pc]? = some e)
      (hstep : p.step checked e.opcode st = .error f) :
      Stops p checked pc st (some (faultAt pc e f))

variable {p : Program} {checked : Bool} {s : Store} {pc : Nat} {st : State}

theorem holdsType_of_matches (hfew : p.matrices.size ≤ 1 <<< 16) {x : Held} {w : Word}
    (hx : p.Proper x) (h : x.Matches w) : p.HoldsType (p.heldType x) w := by
  cases x with
  | scalar k => exact h
  | matrix number =>
      obtain rfl := h
      obtain ⟨k, rows, cols, ht⟩ := DataType.eq_matrix_of_isMatrix hx
      rw [heldType, ht, HoldsType, toNat_matrixWord hfew (lt_of_matrixType ht), ht]

theorem forall₂_holdsType (hfew : p.matrices.size ≤ 1 <<< 16) {hs : List Held} {ws : List Word}
    (hhs : ∀ x ∈ hs, p.Proper x) (h : List.Forall₂ Held.Matches hs ws) :
    List.Forall₂ p.HoldsType (hs.map p.heldType) ws := by
  induction h with
  | nil => exact .nil
  | cons hx _ ih =>
      obtain ⟨hhead, htail⟩ := List.forall_mem_cons.mp hhs
      exact .cons (holdsType_of_matches hfew hhead hx) (ih htail)

theorem forall₂_takenWords {R : DataType → Word → Prop} {e : Entry} {ts : List DataType}
    {ws : List Word} (htaken : e.taken ts = e.inputs) (h : List.Forall₂ R ts ws) :
    List.Forall₂ R e.inputs (takenWords e ws) := by
  rw [← htaken]
  cases hplace : inPlace? e.opcode with
  | none =>
      have hlen : e.inputs.length ≤ ws.length := by
        have hcount := congrArg List.length htaken
        simp only [Entry.taken, hplace, List.length_reverse, List.length_take] at hcount
        rw [← h.length_eq]
        omega
      simp only [Entry.taken, takenWords, hplace, if_pos hlen]
      exact List.rel_reverse (List.forall₂_take _ h)
  | some depth =>
      simp only [Entry.taken, takenWords, hplace]
      cases ht : ts[depth]? with
      | none =>
          have hw : ws[depth]? = none := by
            rw [List.getElem?_eq_none_iff] at ht ⊢
            rwa [← h.length_eq]
          rw [hw]
          exact .nil
      | some t =>
          obtain ⟨w, hw, htw⟩ := forall₂_getElem?_left h ht
          rw [hw]
          exact .cons htw .nil

theorem Visits.admitted (hp : p.Sound) (h : p.Visits checked s pc st) :
    ∃ hs, p.AdmitsAll p.sizes.maxStackDepth [] (p.code.toList.take pc) hs ∧
      p.AdmitsAll p.sizes.maxStackDepth hs (p.code.toList.drop pc) [] ∧
      List.Forall₂ Held.Matches hs st.stack.slots ∧ st.store.shape = s.shape := by
  -- the code left leads back to the empty stack, which bounds the depth at every place
  induction h with
  | start => exact ⟨[], .nil (Nat.zero_le _), hp.admits, .nil, rfl⟩
  | @next pc st st' e _ he hstep ih =>
      obtain ⟨hs, hpre, hpost, hst, hshape⟩ := ih
      rw [← Array.getElem?_toList] at he
      obtain ⟨hlt, rfl⟩ := List.getElem?_eq_some_iff.mp he
      rw [List.drop_eq_getElem_cons hlt] at hpost
      cases hpost with
      | @cons _ hs₁ _ _ _ hlen he hes =>
          obtain ⟨-, hpreserves⟩ := he.step_progresses checked hst hes.length_start_le
          refine ⟨hs₁, ?_, hes, hpreserves st' hstep, (shape_step hstep).trans hshape⟩
          rw [List.take_succ_eq_append_getElem hlt]
          exact hpre.append (.single he hlen hes.length_start_le)

theorem Visits.entry (hp : p.Sound) {e : Entry} (h : p.Visits checked s pc st)
    (he : p.code[pc]? = some e) :
    ∃ hs hs₁, p.AdmitsAll p.sizes.maxStackDepth [] (p.code.toList.take pc) hs ∧
      p.Admits hs e hs₁ ∧ hs₁.length ≤ p.sizes.maxStackDepth ∧
      List.Forall₂ Held.Matches hs st.stack.slots ∧ st.store.shape = s.shape := by
  obtain ⟨hs, hpre, hpost, hst, hshape⟩ := h.admitted hp
  rw [← Array.getElem?_toList] at he
  obtain ⟨hlt, rfl⟩ := List.getElem?_eq_some_iff.mp he
  rw [List.drop_eq_getElem_cons hlt] at hpost
  cases hpost with
  | @cons _ hs₁ _ _ _ hlen he hes => exact ⟨hs, hs₁, hpre, he, hes.length_start_le, hst, hshape⟩

theorem drop_eq_cons {e : Entry} {es : List Entry} (h : p.code.toList.drop pc = e :: es) :
    p.code[pc]? = some e ∧ p.code.toList.drop (pc + 1) = es ∧ pc + 1 ≤ p.code.size := by
  have hlt : pc < p.code.toList.length := by
    by_contra hge
    rw [List.drop_eq_nil_of_le (by omega)] at h
    cases h
  rw [List.drop_eq_getElem_cons hlt] at h
  obtain ⟨rfl, hrest⟩ := List.cons.inj h
  exact ⟨by simp, hrest, by rwa [Array.length_toList] at hlt⟩

theorem runFrom_stops (h : p.Visits checked s pc st) {es : List Entry}
    (hes : p.code.toList.drop pc = es) (hpc : pc ≤ p.code.size) :
    ∃ pc' st', p.Visits checked s pc' st' ∧
      (p.runFrom checked pc st es).store = st'.store ∧
      p.Stops checked pc' st' (p.runFrom checked pc st es).stopped := by
  induction es generalizing pc st with
  | nil =>
      have hend : p.code.size ≤ pc := by simpa using hes
      exact ⟨pc, st, h, rfl, .completed (Nat.le_antisymm hpc hend)⟩
  | cons e es ih =>
      obtain ⟨he, hrest, hlt⟩ := drop_eq_cons hes
      rw [runFrom]
      cases hstep : p.step checked e.opcode st with
      | error f => exact ⟨pc, st, h, rfl, .faulted he hstep⟩
      | ok st₁ => exact ih (h.next he hstep) hrest hlt

theorem traceFrom_stops (h : p.Visits true s pc st) (sink : Sink) {es : List Entry}
    (hes : p.code.toList.drop pc = es) (hpc : pc ≤ p.code.size) :
    ∃ pc' st', p.Visits true s pc' st' ∧
      (p.traceFrom pc st sink es).outcome.store = st'.store ∧
      ((p.traceFrom pc st sink es).outcome.stopped = some .traceRefused ∨
        p.Stops true pc' st' (p.traceFrom pc st sink es).outcome.stopped) := by
  induction es generalizing pc st sink with
  | nil =>
      have hend : p.code.size ≤ pc := by simpa using hes
      refine ⟨pc, st, h, ?_⟩
      rw [traceFrom]
      split
      · exact ⟨rfl, .inl rfl⟩
      · exact ⟨rfl, .inr (.completed (Nat.le_antisymm hpc hend))⟩
  | cons e es ih =>
      obtain ⟨he, hrest, hlt⟩ := drop_eq_cons hes
      rw [traceFrom]
      split
      · exact ⟨pc, st, h, rfl, .inl rfl⟩
      · cases hstep : p.step true e.opcode st with
        | error f =>
            refine ⟨pc, st, h, ?_⟩
            dsimp only
            split
            · exact ⟨rfl, .inl rfl⟩
            · exact ⟨rfl, .inr (.faulted he hstep)⟩
        | ok st₁ =>
            dsimp only
            split
            · exact ⟨pc + 1, st₁, h.next he hstep, rfl, .inl rfl⟩
            · exact ih (h.next he hstep) _ hrest hlt

def StopsIn (p : Program) (mode : Mode) (pc : Nat) (st : State) (stopped : Option Error) : Prop :=
  (mode = .debug ∧ (stopped = some .missingSink ∨ stopped = some .traceRefused)) ∨
    p.Stops mode.checked pc st stopped

theorem execute_stops (mode : Mode) (s : Store) (sink : Option Sink) :
    ∃ pc st, p.Visits mode.checked s pc st ∧ (p.execute mode s sink).1.store = st.store ∧
      p.StopsIn mode pc st (p.execute mode s sink).1.stopped := by
  have hrun (checked : Bool) := runFrom_stops (.start : p.Visits checked s 0 ⟨s, .empty⟩) rfl
    (Nat.zero_le _)
  cases mode with
  | fast =>
      obtain ⟨pc, st, hvisits, hstore, hstops⟩ := hrun false
      exact ⟨pc, st, hvisits, hstore, .inr hstops⟩
  | safe =>
      obtain ⟨pc, st, hvisits, hstore, hstops⟩ := hrun true
      exact ⟨pc, st, hvisits, hstore, .inr hstops⟩
  | debug =>
      cases sink with
      | none => exact ⟨0, _, .start, rfl, .inl ⟨rfl, .inl rfl⟩⟩
      | some sink =>
          simp only [execute, trace]
          split
          · exact ⟨0, _, .start, rfl, .inl ⟨rfl, .inr rfl⟩⟩
          · rename_i sink' _
            obtain ⟨pc, st, hvisits, hstore, hstops⟩ :=
              traceFrom_stops (p := p) (.start (s := s)) sink' rfl (Nat.zero_le _)
            exact ⟨pc, st, hvisits, hstore, hstops.imp (fun h => ⟨rfl, .inr h⟩) id⟩

structure TypedAt (p : Program) (pc : Nat) (st : State) : Prop where
  words : List.Forall₂ p.HoldsType (p.typesAt pc) st.stack.slots
  depth : st.stack.depth = (p.typesAt pc).length
  bounded : st.stack.depth ≤ p.sizes.maxStackDepth
  ended : pc = p.code.size → st.stack.depth = 0

theorem Visits.typedAt (hp : p.Sound) (h : p.Visits checked s pc st) : p.TypedAt pc st := by
  obtain ⟨hs, hpre, hpost, hst, -⟩ := h.admitted hp
  have htypes : p.typesAt pc = hs.map p.heldType := hpre.types_eq
  have hdepth : st.stack.depth = hs.length := by rw [st.stack.depth_eq, hst.length_eq]
  have hproper := hpre.proper fun x hx => absurd hx List.not_mem_nil
  refine ⟨?_, ?_, ?_, fun hpc => ?_⟩
  · rw [htypes]
    exact forall₂_holdsType hp.layout.inRange.few hproper hst
  · rw [hdepth, htypes, List.length_map]
  · rw [hdepth]
    exact hpre.length_end_le
  · have hnil : p.code.toList.drop pc = [] := List.drop_eq_nil_of_le (by simp [hpc])
    rw [hnil] at hpost
    cases hpost
    exact hdepth

structure TypedStep (p : Program) (checked : Bool) (pc : Nat) (st : State) (e : Entry) :
    Prop where
  taken : e.taken (p.typesAt pc) = e.inputs
  words : List.Forall₂ p.HoldsType e.inputs (takenWords e st.stack.slots)
  left : p.typesAt (pc + 1) = e.retype (p.typesAt pc)
  uses : ∀ u ∈ p.uses st e.opcode, p.UseExists st u
  reads : ∀ t, st.store.SameIn (p.touched st e.opcode) t →
    Alike (p.touched st e.opcode) (p.step checked e.opcode st)
      (p.step checked e.opcode ⟨t, st.stack⟩)
  writes : ∀ st', p.step checked e.opcode st = .ok st' →
    st.store.ChangedIn (p.touched st e.opcode) st'.store
  progresses : Progresses checked (p.step checked e.opcode st)

theorem Visits.typedStep (hp : p.Sound) (hfit : p.Fits s) {e : Entry}
    (h : p.Visits checked s pc st) (he : p.code[pc]? = some e) :
    p.TypedStep checked pc st e := by
  obtain ⟨hs, hs₁, hpre, hadmits, hroom, hst, hshape⟩ := h.entry hp he
  have htypes : p.typesAt pc = hs.map p.heldType := hpre.types_eq
  have htaken : e.taken (p.typesAt pc) = e.inputs := by
    rw [htypes]
    exact hadmits.taken_eq
  exact ⟨htaken, forall₂_takenWords htaken (h.typedAt hp).words, typesAt_succ he,
    hadmits.uses_exist hp.layout.inRange (hfit.of_shape hshape) hst hroom,
    fun _ hsame => step_alike checked hsame, fun _ hstep => step_changedIn hstep,
    (hadmits.step_progresses checked hst hroom).1⟩

theorem Visits.before {pc' : Nat} (h : p.Visits checked s pc st) (hle : pc' ≤ pc) :
    ∃ st', p.Visits checked s pc' st' := by
  induction h with
  | start =>
      obtain rfl : pc' = 0 := Nat.le_zero.mp hle
      exact ⟨_, .start⟩
  | @next pc st st₁ e hvisits he hstep ih =>
      rcases Nat.lt_or_ge pc pc' with hlt | hge
      · obtain rfl : pc' = pc + 1 := Nat.le_antisymm hle hlt
        exact ⟨st₁, hvisits.next he hstep⟩
      · exact ih hge

theorem Visits.deepest (hp : p.Sound) (h : p.Visits checked s p.code.size st) :
    ∃ pc st', p.Visits checked s pc st' ∧ st'.stack.depth = p.sizes.maxStackDepth := by
  obtain ⟨es₁, es₂, hs, hcode, hadmits, hlen⟩ := hp.reached
  have hsize : es₁.length ≤ p.code.size := by
    rw [← Array.length_toList, hcode, List.length_append]
    exact Nat.le_add_right _ _
  obtain ⟨st', hvisits⟩ := h.before hsize
  refine ⟨es₁.length, st', hvisits, ?_⟩
  have htypes : p.typesAt es₁.length = hs.map p.heldType := by
    rw [typesAt, hcode, List.take_left']
    · exact hadmits.types_eq
    · rfl
  rw [(hvisits.typedAt hp).depth, htypes, List.length_map, hlen]

theorem Stops.numeric (hp : p.Sound) (hfit : p.Fits s) (h : p.Visits checked s pc st)
    {stopped : Option Error} (hstops : p.Stops checked pc st stopped) :
    stopped = none ∨ ∃ e f, p.code[pc]? = some e ∧ stopped = some (faultAt pc e f) ∧
      checked = true ∧ f.isNumeric = true := by
  cases hstops with
  | completed => exact .inl rfl
  | @faulted e f he hstep =>
      have hprogresses := (h.typedStep hp hfit he).progresses
      rw [hstep] at hprogresses
      cases hprogresses with
      | fault hchecked hf => exact .inr ⟨e, f, he, rfl, hchecked, hf⟩

theorem exists_faultAt_of_stops (hp : p.Sound) (hfit : p.Fits s) {mode : Mode}
    (h : p.Visits mode.checked s pc st) {stopped : Option Error}
    (hstops : p.StopsIn mode pc st stopped) {error : Error} (hsome : stopped = some error) :
    error = .missingSink ∨ error = .traceRefused ∨
      ∃ pc e f, error = faultAt pc e f ∧ f.isNumeric = true := by
  subst hsome
  rcases hstops with ⟨-, hsome | hsome⟩ | hstops
  · exact .inl (Option.some.inj hsome)
  · exact .inr (.inl (Option.some.inj hsome))
  · rcases hstops.numeric hp hfit h with hnone | ⟨e, f, -, hsome, -, hf⟩
    · cases hnone
    · exact .inr (.inr ⟨pc, e, f, Option.some.inj hsome, hf⟩)

theorem Sound.exists_run_fast (hp : p.Sound) (hfit : p.Fits s) :
    ∃ s', p.run false s = ⟨s', none⟩ := by
  obtain ⟨pc, st, hvisits, -, hstops⟩ := execute_stops (p := p) .fast s none
  have hnone : (p.run false s).stopped = none := by
    rcases hstops with ⟨hmode, -⟩ | hstops
    · cases hmode
    · rcases hstops.numeric hp hfit hvisits with hnone | ⟨e, f, -, -, hchecked, -⟩
      · exact hnone
      · cases hchecked
  exact ⟨(p.run false s).store, congrArg (Outcome.mk _) hnone⟩

end Program

namespace Machine

variable {p : Program} {m m' : Machine} {checked : Bool} {pc : Nat} {st : State}

inductive Visits (p : Program) (checked : Bool) (m : Machine) : Nat → Machine → Prop
  | start : Visits p checked m 0 { m with top := 0 }
  | next {pc : Nat} {m₁ m₂ : Machine} {e : Entry} (h : Visits p checked m pc m₁)
      (he : p.code[pc]? = some e) (hstep : m₁.step p checked e.opcode = (m₂, none)) :
      Visits p checked m (pc + 1) m₂

theorem state_start (m : Machine) : ({ m with top := 0 } : Machine).state = ⟨m.store, .empty⟩ :=
  rfl

theorem step_mirrors_of_visits (hp : p.Sound) {s : Store} (hm : m.Fits p) {e : Entry}
    (h : p.Visits checked s pc m.state) (he : p.code[pc]? = some e) :
    Mirrors p m.store (m.step p checked e.opcode) (p.step checked e.opcode m.state) := by
  obtain ⟨hs, hs₁, -, hadmits, -, hwords, -⟩ := h.entry hp he
  exact step_mirrors hp.layout hm hadmits hwords checked

theorem Visits.state (hp : p.Sound) (hm : m.Fits p) (h : m.Visits p checked pc m') :
    m'.Fits p ∧ p.Visits checked m.store pc m'.state := by
  induction h with
  | start => exact ⟨hm.start, .start⟩
  | @next pc m₁ m₂ e _ he hstep ih =>
      obtain ⟨hfit, hvisits⟩ := ih
      have hmirrors := step_mirrors_of_visits hp hfit hvisits he
      rw [hstep] at hmirrors
      generalize hresult : p.step checked e.opcode m₁.state = r at hmirrors
      cases hmirrors with
      | ok hfit' hst => exact ⟨hfit', hst ▸ hvisits.next he hresult⟩

theorem exists_visits (hp : p.Sound) (hm : m.Fits p) (h : p.Visits checked m.store pc st) :
    ∃ m', m.Visits p checked pc m' ∧ m'.state = st := by
  induction h with
  | start => exact ⟨_, .start, state_start m⟩
  | @next pc _ st₁ e _ he hstep ih =>
      obtain ⟨m₁, hvisits, rfl⟩ := ih
      obtain ⟨hfit, hstate⟩ := hvisits.state hp hm
      have hmirrors := step_mirrors_of_visits hp hfit hstate he
      rw [hstep] at hmirrors
      generalize hresult : m₁.step p checked e.opcode = r at hmirrors
      cases hmirrors with
      | ok _ hst => exact ⟨_, hvisits.next he hresult, hst⟩

theorem Fits.exists_execute_fast (hp : p.Sound) (hm : m.Fits p) (sink : Option Sink) :
    ∃ m', m.execute p .fast sink = (m', none, sink) ∧ p.run false m.store = ⟨m'.store, none⟩ := by
  obtain ⟨s', hrun⟩ := hp.exists_run_fast hm.store
  have hexecute : p.execute .fast m.store sink = (⟨s', none⟩, sink) := congrArg (·, sink) hrun
  obtain ⟨m', hm', rfl⟩ := execute_of_done hp hm hexecute
  exact ⟨m', hm', hrun⟩

structure RunsSoundly (m : Machine) (p : Program) (mode : Mode) (sink : Option Sink) : Prop where
  places : ∀ pc m', m.Visits p mode.checked pc m' → p.TypedAt pc m'.state
  steps : ∀ pc m' e, m.Visits p mode.checked pc m' → p.code[pc]? = some e →
    p.TypedStep mode.checked pc m'.state e ∧
      Mirrors p m'.store (m'.step p mode.checked e.opcode)
        (p.step mode.checked e.opcode m'.state)
  stops : ∃ pc m', m.Visits p mode.checked pc m' ∧
    m'.store.ChangedIn p.temporaries (m.execute p mode sink).1.store ∧
    ((m.execute p mode sink).2.1 = none → (m.execute p mode sink).1.store = m'.store) ∧
    p.StopsIn mode pc m'.state (m.execute p mode sink).2.1
  deepest : (m.execute p mode sink).2.1 = none →
    ∃ pc m', m.Visits p mode.checked pc m' ∧ m'.top = p.sizes.maxStackDepth
  fast : mode = .fast → (m.execute p mode sink).2.1 = none
  harmless : ∀ e, (m.execute p mode sink).2.1 = some e → e = .missingSink ∨
    e = .traceRefused ∨ ∃ pc entry f, e = Program.faultAt pc entry f ∧ f.isNumeric = true

theorem Fits.runsSoundly (hp : p.Sound) (hm : m.Fits p) (mode : Mode) (sink : Option Sink) :
    m.RunsSoundly p mode sink := by
  obtain ⟨pc, st, hvisits, hstore, hstops⟩ := Program.execute_stops (p := p) mode m.store sink
  obtain ⟨hends, -⟩ := execute_ends hp hm mode sink
  obtain ⟨m', hvisits', rfl⟩ := exists_visits hp hm hvisits
  rw [← hends.stopped] at hstops
  have hchanged := hends.changed
  have hdone := hends.done
  rw [hstore] at hchanged hdone
  rw [← hends.stopped] at hdone
  refine ⟨fun _ _ h => (h.state hp hm).2.typedAt hp, fun pc m' e h he => ?_,
    ⟨pc, m', hvisits', hchanged, hdone, hstops⟩, fun hnone => ?_, fun hfast => ?_, fun e he => ?_⟩
  · obtain ⟨hfit, hstate⟩ := h.state hp hm
    exact ⟨hstate.typedStep hp hm.store he, step_mirrors_of_visits hp hfit hstate he⟩
  · rw [hnone] at hstops
    rcases hstops with ⟨-, hsome | hsome⟩ | hstops
    · cases hsome
    · cases hsome
    · cases hstops with
      | completed hpc =>
          subst hpc
          obtain ⟨pc, st, hdeep, hdepth⟩ := hvisits.deepest hp
          obtain ⟨n, hn, rfl⟩ := exists_visits hp hm hdeep
          exact ⟨pc, n, hn, (depth_state (hn.state hp hm).1).symm.trans hdepth⟩
  · subst hfast
    obtain ⟨n, hn, -⟩ := hm.exists_execute_fast hp sink
    rw [hn]
  · exact Program.exists_faultAt_of_stops hp hm.store hvisits hstops he

end Machine

namespace Program

variable {p : Program}

def Simulated (p : Program) (text : String) (vs : Variables) (o : CompileOptions) : Prop :=
  ∀ lines, lines <+: Postfix.instructions text →
    ∃ d, lines.foldlM (Draft.line o) (Draft.start vs) = .ok d ∧
      d.code.toList = p.code.toList.take d.code.size ∧
      p.typesAt d.code.size = d.stack.slots.map Slot.type

theorem simulated_of_compile {text : String} {vs : Variables} {o : CompileOptions}
    (hvs : vs.Fresh) (h : compile text vs o = .ok p) (hsmall : p.constants.size < 2 ^ 32) :
    p.Simulated text vs o := by
  intro lines hlines
  obtain ⟨d, hs, hd, hlead, hw⟩ := written_of_compile hvs h hsmall hlines
  have hcode : d.code.toList = p.code.toList.take d.code.size := by
    obtain ⟨rest, hrest⟩ := hlead.code
    rw [← hrest, List.take_left' d.code.length_toList]
  refine ⟨d, hd, hcode, ?_⟩
  rw [typesAt, ← hcode, Draft.SlotsHold.types hw.slots]
  exact hw.admits.types_eq

theorem runsSoundly_of_compile {text : String} {vs : Variables} {o : CompileOptions}
    (hvs : vs.Made) (h : compile text vs o = .ok p) (hsmall : p.constants.size < 2 ^ 32)
    {m : Machine} (hm : m.Reached p) :
    p.Simulated text vs o ∧ ∀ mode sink, m.RunsSoundly p mode sink := by
  have hp := sound_of_compile hvs.fresh h hsmall
  exact ⟨simulated_of_compile hvs.fresh h hsmall,
    fun mode sink => (hm.fits hp).runsSoundly hp mode sink⟩

theorem runsSoundly_row_sum :
    ∃ vs p, vs.Made ∧ compile "READ A\nREAD A\nSUM\nWRITE B\n" vs .default = .ok p ∧
      p.constants.size < 2 ^ 32 ∧ (Machine.new p #[]).Reached p ∧
      (Machine.new p #[]).RunsSoundly p .fast none := by
  let row : DataType := .matrix .float64 1 2
  let vs : Variables := ⟨[⟨"A", row, none, none⟩], [.named "B"]⟩
  let p : Program := {
    vars := ⟨[⟨"A", row, some (.matrix 0), none⟩], [⟨"B", row, some (.matrix 2), none⟩]⟩
    constants := #[]
    literals := []
    code := #[⟨.loadMatrix 0, 1, [], some row, none⟩, ⟨.loadMatrix 0, 2, [], some row, none⟩,
      ⟨.matrix .sum 1, 3, [row, row], some row, none⟩,
      ⟨.storeMatrix 2, 4, [row], none, none⟩]
    matrices := #[⟨row, none⟩, ⟨row, none⟩, ⟨row, none⟩]
    bindings := #[]
    sizes := ⟨0, 0, 4, 2⟩ }
  have hmade : vs.Made := by
    have hdiscover : Variables.discover "READ A\nREAD A\nSUM\nWRITE B\n" =
        .ok ⟨[.named "A"], [.named "B"]⟩ := by decide +kernel
    have hbind : Variables.bind ⟨[.named "A"], [.named "B"]⟩ "A" row none = .ok vs := by
      decide +kernel
    exact ⟨_, _, hdiscover, .bind .refl hbind⟩
  have hcompile : compile "READ A\nREAD A\nSUM\nWRITE B\n" vs .default = .ok p := by decide +kernel
  have hsmall : p.constants.size < 2 ^ 32 := by decide
  have hnew : (Machine.new p #[]).Reached p := .new (by decide)
  exact ⟨vs, p, hmade, hcompile, hsmall, hnew,
    (runsSoundly_of_compile hmade hcompile hsmall hnew).2 .fast none⟩

end Program

end FormulaMachine
