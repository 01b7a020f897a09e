import FormulaMachine.Proofs.Machine.Residue
import FormulaMachine.Proofs.Machine.Soundness
import FormulaMachine.Proofs.Reference.Instructions

namespace FormulaMachine

namespace Sink

def Unlimited (sink : Sink) : Prop :=
  sink.room = none

theorem write_of_unlimited {sink : Sink} (h : sink.Unlimited) (text : String) :
    ∃ sink', sink'.Unlimited ∧ sink.write text = (sink', true) :=
  ⟨⟨none, sink.received ++ text⟩, rfl, by rw [write, h]⟩

end Sink

namespace Program

variable {p : Program} {checked : Bool} {s s' : Store}

theorem traceFrom_of_unlimited {sink : Sink} (h : sink.Unlimited) (position : Nat) (st : State)
    (es : List Entry) :
    (p.traceFrom position st sink es).outcome = p.runFrom true position st es := by
  induction es generalizing position st sink with
  | nil =>
      obtain ⟨sink', -, hwrite⟩ := Sink.write_of_unlimited h (p.traceEnd st)
      rw [traceFrom, hwrite]
      rfl
  | cons e es ih =>
      obtain ⟨sink₁, h₁, hbefore⟩ := Sink.write_of_unlimited h (p.traceBefore position e st)
      rw [traceFrom, hbefore, runFrom]
      cases hstep : p.step true e.opcode st with
      | error f =>
          obtain ⟨sink₂, -, hfault⟩ := Sink.write_of_unlimited h₁ traceFault
          dsimp only
          rw [hfault]
      | ok st' =>
          obtain ⟨sink₂, h₂, hafter⟩ := Sink.write_of_unlimited h₁ (p.traceAfter e st')
          dsimp only
          rw [hafter]
          exact ih h₂ (position + 1) st'

theorem execute_debug_of_unlimited {sink : Sink} (h : sink.Unlimited) (s : Store) :
    (p.execute .debug s (some sink)).1 = p.run true s := by
  obtain ⟨sink', h', hwrite⟩ := Sink.write_of_unlimited h traceHeader
  simp only [execute, trace, hwrite]
  exact traceFrom_of_unlimited h' 0 _ _

theorem Visits.steps_take {pc : Nat} {st : State} (h : p.Visits checked s pc st) :
    p.steps checked (p.code.toList.take pc) ⟨s, .empty⟩ = .ok st := by
  induction h with
  | start => rfl
  | @next pc st st' e _ he hstep ih =>
      rw [← Array.getElem?_toList] at he
      obtain ⟨hlt, rfl⟩ := List.getElem?_eq_some_iff.mp he
      rw [List.take_succ_eq_append_getElem hlt, steps_append, bind_of_ok ih, steps_single]
      exact hstep

def SameVariables (p : Program) (s t : Store) : Prop :=
  ∀ name w l, p.vars.get? name = some w → w.location = some l →
    ∀ a ∈ p.area w.type l, s.content a = t.content a

theorem getScalar_congr {k : Kind} {l : Location}
    (h : ∀ a ∈ p.area (.scalar k) l, s.content a = s'.content a) :
    p.getScalar s k l = p.getScalar s' k l := by
  rcases l with offset | number | number
  · exact Store.readScalar_congr fun o hlow hhigh => h _ ⟨o, hlow, hhigh, rfl⟩
  · cases hx : p.bindings[number]? with
    | none => simp only [getScalar, bindingCell, hx]
    | some x =>
        simp only [getScalar, bindingCell_eq hx]
        exact congrArg (Scalar.ofWord k) (h (.cell (x.cellAt 0)) ⟨x, hx, rfl⟩)
  · rfl

section Congruence

variable {name : String} (h : ∀ w l, p.vars.get? name = some w → w.location = some l →
  ∀ a ∈ p.area w.type l, s.content a = s'.content a)

include h

theorem value_congr : p.value s name = p.value s' name := by
  unfold value find
  cases hw : p.vars.get? name with
  | none => rfl
  | some w =>
      cases hl : w.location with
      | none => simp only [hl]
      | some l =>
          simp only [hl]
          cases ht : w.type with
          | scalar k =>
              have hsame := h w l hw hl
              rw [ht] at hsame
              simp only [getScalar_congr hsame]
          | _ => rfl

theorem matrix_congr (hp : p.layout.Sound) : p.matrix s name = p.matrix s' name := by
  unfold matrix find
  cases hw : p.vars.get? name with
  | none => rfl
  | some w =>
      cases hl : w.location with
      | none => simp only [hl]
      | some l =>
          simp only [hl]
          cases ht : w.type with
          | matrix k rows cols =>
              rcases l with offset | number | number
              · rfl
              · rfl
              · obtain ⟨k', rows', cols', ht', hm⟩ :=
                  ((hp.houses name w hw).keeps _ hl).eq_matrix (p := p) .refl
                obtain ⟨rfl, rfl, rfl⟩ := DataType.matrix.inj (ht.symm.trans ht')
                refine congrArg Except.ok (List.map_congr_left fun i hi => ?_)
                rw [element, element, matrixCell_eq, matrixCell_eq]
                refine congrArg (fun w => (Scalar.ofWord k w).toFloat64) ?_
                refine h w _ hw hl _ (matrixAt_mem_matrixArea ?_)
                rw [hm]
                exact List.mem_range.mp hi
          | _ => rfl

end Congruence

theorem SameVariables.value_eq (h : p.SameVariables s s') (name : String) :
    p.value s name = p.value s' name :=
  value_congr (h name)

theorem SameVariables.matrix_eq (hp : p.layout.Sound) (h : p.SameVariables s s')
    (name : String) : p.matrix s name = p.matrix s' name :=
  matrix_congr (h name) hp

theorem temporaries_disjoint {name : String} {w : Variable} {l : Location}
    (hw : p.vars.get? name = some w) (hl : w.location = some l) :
    Disjoint (p.area w.type l) p.temporaries := by
  refine Set.disjoint_left.mpr fun a ha ha' => ?_
  obtain ⟨number, i, htemp, rfl⟩ := ha'
  rcases l with offset | n | n
  · obtain ⟨o, -, -, heq⟩ := ha
    cases heq
  · obtain ⟨x, -, heq⟩ := ha
    cases heq
  · obtain ⟨j, -, heq⟩ := ha
    unfold matrixAt at heq
    split at heq
    · cases heq
    · obtain ⟨rfl, -⟩ := Cell.owned.inj (Address.cell.inj heq)
      exact htemp.unnamed name w hw hl

theorem sameVariables_of_changedIn (h : s.ChangedIn p.temporaries s') : p.SameVariables s' s :=
  fun _ _ _ hw hl a ha =>
    h.content a (Set.disjoint_left.mp (temporaries_disjoint hw hl) ha)

end Program

theorem Store.shared_eq_of_changedIn {area : Set Address} {s s' : Store}
    (h : s.ChangedIn area s') (harea : ∀ memory i, .cell (.shared memory i) ∉ area) :
    s'.shared = s.shared := by
  have hshape : s'.shared.map Array.size = s.shared.map Array.size := congrArg Shape.shared h.shape
  have hsize : s'.shared.size = s.shared.size := by
    simpa using congrArg Array.size hshape
  refine Array.ext hsize fun memory hlt hlt' => ?_
  have hcells : s'.shared[memory].size = s.shared[memory].size := by
    simpa [hlt, hlt'] using congrArg (fun sizes => sizes[memory]?) hshape
  refine Array.ext hcells fun i hi hi' => ?_
  have hword := h.content (.cell (.shared memory i)) (harea memory i)
  simpa [content, cell, Shared.load?, hlt, hlt', hi, hi'] using hword

namespace Program

variable {p : Program} {s s' : Store}

structure SeenAlike (p : Program) (s s' : Store) : Prop where
  words : p.SameVariables s' s
  values : ∀ name, p.value s' name = p.value s name
  matrices : ∀ name, p.matrix s' name = p.matrix s name
  shared : s'.shared = s.shared

theorem seenAlike_of_changedIn (hp : p.layout.Sound) (h : s.ChangedIn p.temporaries s') :
    p.SeenAlike s s' := by
  have hsame := sameVariables_of_changedIn h
  refine ⟨hsame, hsame.value_eq, hsame.matrix_eq hp, Store.shared_eq_of_changedIn h ?_⟩
  rintro memory i ⟨number, j, -, heq⟩
  cases heq

theorem execute_checked {mode : Mode} {sink : Option Sink}
    (hmode : mode = .safe ∨ mode = .debug ∧ ∃ unlimited : Sink, unlimited.Unlimited ∧
      sink = some unlimited) (s : Store) : (p.execute mode s sink).1 = p.run true s := by
  rcases hmode with rfl | ⟨rfl, unlimited, hunlimited, rfl⟩
  · rfl
  · exact execute_debug_of_unlimited hunlimited s

theorem run_stops_between {e : Error} (h : (p.run true s).stopped = some e) :
    ∃ k entry f st, p.code[k]? = some entry ∧ e = faultAt k entry f ∧
      p.steps true (p.code.toList.take k) ⟨s, .empty⟩ = .ok st ∧
      p.step true entry.opcode st = .error f ∧ (p.run true s).store = st.store := by
  obtain ⟨k, st, hvisits, hstore, hstops⟩ :=
    runFrom_stops (.start : p.Visits true s 0 ⟨s, .empty⟩) rfl (Nat.zero_le _)
  have hstops : p.Stops true k st (p.run true s).stopped := hstops
  rw [h] at hstops
  cases hstops with
  | @faulted entry f he hstep =>
      exact ⟨k, entry, f, st, he, rfl, hvisits.steps_take, hstep, hstore⟩

theorem fault_leaves_boundary {text : String} {vs : Variables} {o : CompileOptions}
    (hvs : vs.Made) (h : compile text vs o = .ok p) {m : Machine} (hm : m.Reached p) {mode : Mode}
    {sink : Option Sink} (hmode : mode = .safe ∨ mode = .debug ∧ ∃ unlimited : Sink,
      unlimited.Unlimited ∧ sink = some unlimited) {e : Error}
    (hstop : (p.execute mode m.store sink).1.stopped = some e) :
    ∃ k entry f st, p.code[k]? = some entry ∧ e = faultAt k entry f ∧
      p.steps true (p.code.toList.take k) ⟨m.store, .empty⟩ = .ok st ∧
      p.step true entry.opcode st = .error f ∧
      p.SeenAlike st.store (p.execute mode m.store sink).1.store ∧
      (m.execute p mode sink).2.1 = some e ∧
      p.SeenAlike st.store (m.execute p mode sink).1.store := by
  have hp := compile_sound hvs.fresh h
  obtain ⟨hends, -⟩ := Machine.execute_ends hp (hm.fits hp) mode sink
  rw [execute_checked hmode] at hstop hends ⊢
  obtain ⟨k, entry, f, st, he, hfault, hsteps, hstep, hstore⟩ := run_stops_between hstop
  have hchanged := hends.changed
  rw [hstore] at hchanged ⊢
  exact ⟨k, entry, f, st, he, hfault, hsteps, hstep, seenAlike_of_changedIn hp.layout (.refl _ _),
    hends.stopped.trans hstop, seenAlike_of_changedIn hp.layout hchanged⟩

theorem fault_leaves_boundary_sum :
    ∃ vs p, ∃ m : Machine, ∃ e, vs.Made ∧
      compile "READ A\nREAD A\nSUM\nWRITE B\n" vs .default = .ok p ∧ m.Reached p ∧
      (p.execute .safe m.store none).1.stopped = some e ∧
      (m.execute p .safe none).1.store.owned.matrices = #[#[], #[0x4000000000000000, 0], #[0, 0]] ∧
      ∃ k entry f st, p.code[k]? = some entry ∧ e = faultAt k entry f ∧
        p.steps true (p.code.toList.take k) ⟨m.store, .empty⟩ = .ok st ∧
        p.SeenAlike st.store (m.execute p .safe none).1.store := by
  let row : DataType := .matrix .float64 1 2
  let x : External := ⟨⟨0, 2⟩, 0⟩
  let vs : Variables := ⟨[⟨"A", row, none, some x⟩], [.named "B"]⟩
  let p : Program := {
    vars := ⟨[⟨"A", row, some (.matrix 0), some x⟩], [⟨"B", row, some (.matrix 2), none⟩]⟩
    constants := #[]
    literals := []
    code := #[⟨.loadMatrix 0, 1, [], some row, none⟩, ⟨.loadMatrix 0, 2, [], some row, none⟩,
      ⟨.matrix .sum 1, 3, [row, row], some row, none⟩, ⟨.storeMatrix 2, 4, [row], none, none⟩]
    matrices := #[⟨row, some x⟩, ⟨row, none⟩, ⟨row, none⟩]
    bindings := #[]
    sizes := ⟨0, 0, 4, 2⟩ }
  -- one, of which the double is written, and a number whose double is not finite
  let m : Machine := .new p #[#[0x3FF0000000000000, 0x7FE0000000000000]]
  let e : Error := faultAt 2 ⟨.matrix .sum 1, 3, [row, row], some row, none⟩ .notFinite
  have hmade : vs.Made := by
    have hdiscover : Variables.discover "READ A\nREAD A\nSUM\nWRITE B\n" =
        .ok ⟨[.named "A"], [.named "B"]⟩ := by decide +kernel
    have hbind : Variables.bind ⟨[.named "A"], [.named "B"]⟩ "A" row (some x) = .ok vs := by
      decide +kernel
    exact ⟨_, _, hdiscover, .bind .refl hbind⟩
  have hcompile : compile "READ A\nREAD A\nSUM\nWRITE B\n" vs .default = .ok p := by decide +kernel
  have hreached : m.Reached p := .new (by decide)
  have hstop : (p.execute .safe m.store none).1.stopped = some e := by decide +kernel
  have hpartly : (m.execute p .safe none).1.store.owned.matrices =
      #[#[], #[0x4000000000000000, 0], #[0, 0]] := by decide +kernel
  obtain ⟨k, entry, f, st, he, hfault, hsteps, -, -, -, hseen⟩ :=
    fault_leaves_boundary hmade hcompile hreached (.inl rfl) hstop
  exact ⟨vs, p, m, e, hmade, hcompile, hreached, hstop, hpartly, k, entry, f, st, he, hfault,
    hsteps, hseen⟩

end Program

end FormulaMachine
