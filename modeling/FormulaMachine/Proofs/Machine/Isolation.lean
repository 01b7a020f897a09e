import FormulaMachine.Proofs.Machine.Knowledge

namespace FormulaMachine

namespace Program

variable {p : Program} {checked : Bool} {known known' : Set String} {s t : Store}
  {stack : Stack Word} {hs hs' : List Held}

structure RunsAlike (p : Program) (known : Set String) (code : List Postfix.Instruction)
    (r q : Outcome) : Prop where
  stopped : r.stopped = q.stopped
  same : r.store.SameIn (p.seen known []) q.store
  done : r.stopped = none → r.store.SameIn (p.seen (Postfix.knownAfter known code) []) q.store

section Runs

variable {es : List Entry} {code code' : List Postfix.Instruction} {limit : Nat}

theorem RunsAlike.of_later {r q : Outcome} (h : p.RunsAlike known' code' r q)
    (hknown : known ⊆ known')
    (hafter : Postfix.knownAfter known code ⊆ Postfix.knownAfter known' code') :
    p.RunsAlike known code r q :=
  ⟨h.stopped, h.same.mono (seen_nil_subset hknown), fun hstopped =>
    (h.done hstopped).mono (seen_nil_subset hafter)⟩

theorem runsAlike_stopped (h : s.SameIn (p.seen known hs) t) (error : Error)
    (code : List Postfix.Instruction) : p.RunsAlike known code ⟨s, some error⟩ ⟨t, some error⟩ :=
  ⟨rfl, h.mono (seen_nil_subset subset_rfl), fun hstopped => by cases hstopped⟩

theorem runsAlike_done (h : s.SameIn (p.seen known hs) t) :
    p.RunsAlike known [] ⟨s, none⟩ ⟨t, none⟩ := by
  refine ⟨rfl, h.mono (seen_nil_subset subset_rfl), fun _ => h.mono (seen_nil_subset ?_)⟩
  exact Set.union_subset subset_rfl fun _ hmem => absurd hmem List.not_mem_nil

theorem runFrom_alike (hp : p.layout.Sound) (hes : p.AdmitsAll limit hs es hs')
    (hlimit : limit ≤ p.sizes.maxStackDepth) (haccesses : p.Accesses es code)
    (hreads : Postfix.ReadsKnown known code) (hfs : p.Fits s) (hft : p.Fits t)
    (hwords : List.Forall₂ Held.Matches hs stack.slots) (h : s.SameIn (p.seen known hs) t)
    (position : Nat) :
    p.RunsAlike known code (p.runFrom checked position ⟨s, stack⟩ es)
      (p.runFrom checked position ⟨t, stack⟩ es) := by
  induction hes generalizing s t stack position known code with
  | nil =>
      cases haccesses
      exact runsAlike_done h
  | @cons hs hs₁ hs₂ e es hlen he hes ih =>
      obtain ⟨known', code', hrest, hreads', hknown, hafter, halike⟩ :=
        he.step_alike hp haccesses hreads hfs hft hwords h
      have halike := halike checked
      have hroom := Nat.le_trans hes.length_start_le hlimit
      have hwords' (st : State) (h : p.step checked e.opcode ⟨s, stack⟩ = .ok st) :
          List.Forall₂ Held.Matches hs₁ st.stack.slots :=
        (he.step_progresses checked hwords hroom).2 st h
      rw [runFrom, runFrom]
      cases hs : p.step checked e.opcode ⟨s, stack⟩ with
      | error f =>
          rw [hs] at halike
          generalize p.step checked e.opcode ⟨t, stack⟩ = r at halike
          cases halike with
          | fault => exact runsAlike_stopped h _ _
      | ok st =>
          cases ht : p.step checked e.opcode ⟨t, stack⟩ with
          | error f =>
              rw [hs, ht] at halike
              cases halike
          | ok st' =>
              rw [hs, ht] at halike
              have hfs' := hfs.of_shape (shape_step hs)
              have hft' := hft.of_shape (shape_step ht)
              have hmatches := hwords' st hs
              cases halike with
              | ok h' =>
                  exact (ih hrest hreads' hfs' hft' hmatches h' (position + 1)).of_later hknown
                    hafter

theorem traceFrom_alike (hp : p.layout.Sound) (hes : p.AdmitsAll limit hs es hs')
    (hlimit : limit ≤ p.sizes.maxStackDepth) (haccesses : p.Accesses es code)
    (hreads : Postfix.ReadsKnown known code) (hproper : ∀ x ∈ hs, p.Proper x) (hfs : p.Fits s)
    (hft : p.Fits t) (hwords : List.Forall₂ Held.Matches hs stack.slots)
    (h : s.SameIn (p.seen known hs) t) (position : Nat) (sink : Sink) :
    p.RunsAlike known code (p.traceFrom position ⟨s, stack⟩ sink es).outcome
        (p.traceFrom position ⟨t, stack⟩ sink es).outcome ∧
      (p.traceFrom position ⟨s, stack⟩ sink es).sink =
        (p.traceFrom position ⟨t, stack⟩ sink es).sink := by
  induction hes generalizing s t stack position sink known code with
  | nil =>
      cases haccesses
      have hend : p.traceEnd ⟨s, stack⟩ = p.traceEnd ⟨t, stack⟩ := rfl
      rw [traceFrom, traceFrom, hend]
      rcases sink.write (p.traceEnd ⟨t, stack⟩) with ⟨sink, _ | _⟩
      · exact ⟨runsAlike_stopped h _ _, rfl⟩
      · exact ⟨runsAlike_done h, rfl⟩
  | @cons hs hs₁ hs₂ e es hlen he hes ih =>
      obtain ⟨known', code', hrest, hreads', hknown, hafter, halike⟩ :=
        he.step_alike hp haccesses hreads hfs hft hwords h
      have halike := halike true
      have hroom := Nat.le_trans hes.length_start_le hlimit
      have hwords' (st : State) (h : p.step true e.opcode ⟨s, stack⟩ = .ok st) :
          List.Forall₂ Held.Matches hs₁ st.stack.slots :=
        (he.step_progresses true hwords hroom).2 st h
      rw [traceFrom, traceFrom, traceBefore_eq hp he hproper hwords h]
      rcases sink.write (p.traceBefore position e ⟨t, stack⟩) with ⟨sink, _ | _⟩
      · exact ⟨runsAlike_stopped h _ _, rfl⟩
      dsimp only
      cases hs : p.step true e.opcode ⟨s, stack⟩ with
      | error f =>
          rw [hs] at halike
          generalize p.step true e.opcode ⟨t, stack⟩ = r at halike
          cases halike with
          | fault =>
              dsimp only
              rcases sink.write traceFault with ⟨sink, _ | _⟩
              · exact ⟨runsAlike_stopped h _ _, rfl⟩
              · exact ⟨runsAlike_stopped h _ _, rfl⟩
      | ok st =>
          cases ht : p.step true e.opcode ⟨t, stack⟩ with
          | error f =>
              rw [hs, ht] at halike
              cases halike
          | ok st' =>
              rw [hs, ht] at halike
              have hfs' := hfs.of_shape (shape_step hs)
              have hft' := hft.of_shape (shape_step ht)
              have hmatches := hwords' st hs
              cases halike with
              | @ok s' t' stack' h' =>
                  dsimp only
                  rw [traceAfter_eq hp he hproper hmatches h']
                  rcases sink.write (p.traceAfter e ⟨t', stack'⟩) with ⟨sink, _ | _⟩
                  · exact ⟨(runsAlike_stopped h' _ code').of_later hknown hafter, rfl⟩
                  · obtain ⟨hruns, hsink⟩ := ih hrest hreads' (he.proper hproper) hfs' hft'
                      hmatches h' (position + 1) sink
                    exact ⟨hruns.of_later hknown hafter, hsink⟩

theorem execute_alike (hp : p.Sound) (haccesses : p.Accesses p.code.toList code)
    (hreads : Postfix.ReadsKnown known code) (hfs : p.Fits s) (hft : p.Fits t)
    (h : s.SameIn (p.seen known []) t) (mode : Mode) (sink : Option Sink) :
    p.RunsAlike known code (p.execute mode s sink).1 (p.execute mode t sink).1 ∧
      (p.execute mode s sink).2 = (p.execute mode t sink).2 := by
  have hrun (checked : Bool) : p.RunsAlike known code (p.run checked s) (p.run checked t) :=
    runFrom_alike hp.layout hp.admits (Nat.le_refl _) haccesses hreads hfs hft .nil h 0
  cases mode with
  | fast => exact ⟨hrun false, rfl⟩
  | safe => exact ⟨hrun true, rfl⟩
  | debug =>
      cases sink with
      | none => exact ⟨runsAlike_stopped h _ _, rfl⟩
      | some sink =>
          simp only [execute, trace]
          rcases sink.write traceHeader with ⟨sink, _ | _⟩
          · exact ⟨runsAlike_stopped h _ _, rfl⟩
          · have hproper : ∀ x ∈ ([] : List Held), p.Proper x := fun x hx => by cases hx
            have hwords : List.Forall₂ Held.Matches [] (Stack.empty : Stack Word).slots := .nil
            obtain ⟨halike, hsink⟩ := traceFrom_alike hp.layout hp.admits (Nat.le_refl _)
              haccesses hreads hproper hfs hft hwords h 0 sink
            exact ⟨halike, congrArg some hsink⟩

end Runs

def SameOn (p : Program) (known : Set String) (s t : Store) : Prop :=
  ∀ name ∈ known, ∀ w l, p.vars.get? name = some w → w.location = some l →
    ∀ a ∈ p.area w.type l, s.content a = t.content a

theorem sameOn_univ : p.SameOn Set.univ s t ↔ p.SameVariables s t :=
  ⟨fun h name => h name (Set.mem_univ name), fun h name _ => h name⟩

theorem SameOn.symm (h : p.SameOn known s t) : p.SameOn known t s :=
  fun name hname w l hw hl a ha => (h name hname w l hw hl a ha).symm

theorem SameOn.trans {u : Store} (h : p.SameOn known s t) (h' : p.SameOn known t u) :
    p.SameOn known s u := fun name hname w l hw hl a ha =>
  (h name hname w l hw hl a ha).trans (h' name hname w l hw hl a ha)

theorem SameOn.sameIn (hp : p.layout.Sound) (hfs : p.Fits s) (hft : p.Fits t)
    (h : p.SameOn known s t) : s.SameIn (p.seen known []) t := by
  refine ⟨fun a ha => ?_, fun a ha => ?_, fun a ha => ?_⟩ <;>
    obtain ⟨name, hname, w, l, hw, hl, hmem⟩ | ⟨_, hm, -⟩ := ha
  · exact has_area hp hfs hw hl hmem
  · cases hm
  · exact has_area hp hft hw hl hmem
  · cases hm
  · exact h name hname w l hw hl a hmem
  · cases hm

theorem sameOn_of_sameIn (h : s.SameIn (p.seen known []) t) : p.SameOn known s t :=
  fun _ hname _ _ hw hl _ ha => h.content _ (mem_seen_of_variable hname hw hl ha)

theorem SameVariables.symm (h : p.SameVariables s t) : p.SameVariables t s :=
  sameOn_univ.mp (sameOn_univ.mpr h).symm

theorem SameVariables.trans {u : Store} (h : p.SameVariables s t) (h' : p.SameVariables t u) :
    p.SameVariables s u :=
  sameOn_univ.mp ((sameOn_univ.mpr h).trans (sameOn_univ.mpr h'))

theorem execute_isolated {text : String} {vs : Variables} {o : CompileOptions} (hvs : vs.Made)
    (h : compile text vs o = .ok p) {m n : Machine} (hm : m.Reached p) (hn : n.Reached p)
    (hsame : p.SameVariables m.store n.store) (mode : Mode) (sink : Option Sink) :
    (m.execute p mode sink).2 = (n.execute p mode sink).2 ∧
      p.SameVariables (m.execute p mode sink).1.store (n.execute p mode sink).1.store := by
  have hp := compile_sound hvs.fresh h
  have hfitm := hm.fits hp
  have hfitn := hn.fits hp
  obtain ⟨hendm, hsinkm⟩ := Machine.execute_ends hp hfitm mode sink
  obtain ⟨hendn, hsinkn⟩ := Machine.execute_ends hp hfitn mode sink
  obtain ⟨halike, hsink⟩ := execute_alike hp (accesses_of_compile hvs.fresh h)
    (fun _ name _ _ => .inl (Set.mem_univ name)) hfitm.store hfitn.store
    ((sameOn_univ.mpr hsame).sameIn hp.layout hfitm.store hfitn.store) mode sink
  refine ⟨Prod.ext ?_ ?_, ?_⟩
  · exact hendm.stopped.trans (halike.stopped.trans hendn.stopped.symm)
  · exact hsinkm.trans (hsink.trans hsinkn.symm)
  · exact (sameVariables_of_changedIn hendm.changed).trans
      ((sameOn_univ.mp (sameOn_of_sameIn halike.same)).trans
        (sameVariables_of_changedIn hendn.changed).symm)

theorem execute_isolated_after_fault :
    ∃ vs p, ∃ m n : Machine, vs.Made ∧
      compile "READ A\nREAD A\nSUM\nWRITE B\n" vs .default = .ok p ∧ m.Reached p ∧ n.Reached p ∧
      m.store.owned.matrices = #[#[], #[0, 0], #[0, 0]] ∧
      n.store.owned.matrices = #[#[], #[0x4000000000000000, 0], #[0, 0]] ∧
      p.SameVariables m.store n.store ∧
      (m.execute p .debug (some .unlimited)).2 = (n.execute p .debug (some .unlimited)).2 ∧
      (m.execute p .debug (some .unlimited)).2.1 = none ∧
      p.SameVariables (m.execute p .debug (some .unlimited)).1.store
        (n.execute p .debug (some .unlimited)).1.store := by
  let row : DataType := .matrix .float64 1 2
  let x : External := ⟨⟨0, 2⟩, 0⟩
  let vs : Variables := ⟨[⟨"A", row, none, some x⟩], [.named "B"]⟩
  let p : Program := {
    vars := ⟨[⟨"A", row, some (.matrix 0), some x⟩], [⟨"B", row, some (.matrix 2), none⟩]⟩
    constants := #[]
    literals := []
    code := #[⟨.loadMatrix 0, 1, [], some row, none⟩, ⟨.loadMatrix 0, 2, [], some row, none⟩,
      ⟨.matrix .sum 1, 3, [row, row], some row, none⟩, ⟨.storeMatrix 2, 4, [row], none, none⟩]
    matrices := #[⟨row, some x⟩, ⟨row, none⟩, ⟨row, none⟩]
    bindings := #[]
    sizes := ⟨0, 0, 4, 2⟩ }
  -- the second element is put right on both machines, after a run of one of them faulted at it
  let fresh : Machine := .new p #[#[0x3FF0000000000000, 0x7FE0000000000000]]
  let used : Machine := (fresh.execute p .safe none).1
  let m : Machine :=
    { fresh with store.shared := fresh.store.shared.store 0 1 0x3FF0000000000000 }
  let n : Machine := { used with store.shared := used.store.shared.store 0 1 0x3FF0000000000000 }
  have hmade : vs.Made := by
    have hdiscover : Variables.discover "READ A\nREAD A\nSUM\nWRITE B\n" =
        .ok ⟨[.named "A"], [.named "B"]⟩ := by decide +kernel
    have hbind : Variables.bind ⟨[.named "A"], [.named "B"]⟩ "A" row (some x) = .ok vs := by
      decide +kernel
    exact ⟨_, _, hdiscover, .bind .refl hbind⟩
  have hcompile : compile "READ A\nREAD A\nSUM\nWRITE B\n" vs .default = .ok p := by decide +kernel
  have hfresh : fresh.Reached p := .new (by decide)
  have hm : m.Reached p := .storeShared 0 1 _ hfresh
  have hn : n.Reached p := .storeShared 0 1 _ (.execute .safe none hfresh)
  have htemp : p.Temporary 1 := by
    refine ⟨rfl, fun name v hv => ?_⟩
    rcases List.mem_pair.mp (List.mem_of_find?_eq_some hv) with rfl | rfl <;> decide
  have hleft : n.store = m.store.setCell (.owned 1 0) 0x4000000000000000 := by decide +kernel
  have hchanged : m.store.ChangedIn p.temporaries n.store := by
    rw [hleft]
    refine ⟨m.store.shape_setCell _ _, fun a ha => Store.content_setCell_of_ne _ ?_ _⟩
    rintro rfl
    exact ha ⟨1, 0, htemp, rfl⟩
  have hsame := (sameVariables_of_changedIn hchanged).symm
  obtain ⟨hresult, hvariables⟩ :=
    execute_isolated hmade hcompile hm hn hsame .debug (some .unlimited)
  have hends : (m.execute p .debug (some .unlimited)).2.1 = none := by decide +kernel
  have hmatrices : m.store.owned.matrices = #[#[], #[0, 0], #[0, 0]] := by decide +kernel
  have hmatrices' : n.store.owned.matrices = #[#[], #[0x4000000000000000, 0], #[0, 0]] := by
    decide +kernel
  exact ⟨vs, p, m, n, hmade, hcompile, hm, hn, hmatrices, hmatrices', hsame, hresult, hends,
    hvariables⟩

end Program

end FormulaMachine
