import FormulaMachine.Proofs.Compiler.Discovery
import FormulaMachine.Proofs.Compiler.Listing
import FormulaMachine.Proofs.Machine.Reports
import FormulaMachine.Proofs.Text.SingleLine

namespace FormulaMachine

open Text

theorem Datum.singleLine_text (x : Datum) : SingleLine x.text := by
  cases x with
  | @scalar k x =>
      have hopen : SingleLine "(" := by decide
      exact ((hopen.append k.singleLine_name).append (by decide)).append x.singleLine_text
  | @matrix k rows cols xs =>
      have hopen : SingleLine "(" := by decide
      have hcells : SingleLine (" ".intercalate (xs.map Scalar.text)) :=
        .intercalate (by decide) fun s hs => by
          obtain ⟨x, -, rfl⟩ := List.mem_map.mp hs
          exact x.singleLine_text
      exact (((hopen.append (DataType.singleLine_text _)).append (by decide)).append
        hcells).append (by decide)

theorem Report.singleLine_text {r : Report} (h : SingleLine r.spelling) :
    ∃ line, r.text = line ++ "\n" ∧ SingleLine line := by
  have htaken : SingleLine (",".intercalate (r.taken.map Datum.text)) :=
    .intercalate (by decide) fun s hs => by
      obtain ⟨x, -, rfl⟩ := List.mem_map.mp hs
      exact x.singleLine_text
  have hleft : SingleLine ((r.left.map Datum.text).getD "") := by
    cases r.left with
    | none => decide
    | some x => exact x.singleLine_text
  have hmark : SingleLine (if r.faulted then " <ERROR>" else "") := by
    split <;> decide
  refine ⟨_, rfl, ?_⟩
  have hline := (singleLine_nat r.line).append (by decide : SingleLine " - ")
  have hdepth := (hline.append (singleLine_nat r.depth)).append (by decide : SingleLine " - ")
  have hposition :=
    (hdepth.append (singleLine_nat r.position)).append (by decide : SingleLine " :: ")
  have hspelling := (hposition.append h).append (by decide : SingleLine " (")
  have hresult := (hspelling.append htaken).append (by decide : SingleLine ") => (")
  exact ((hresult.append hleft).append (by decide)).append hmark

def Datum.Spells : Datum → String → Prop
  | .scalar (k := k) x, text => ∃ value, text = "(" ++ k.name ++ ")" ++ value ∧ x.Spells value
  | .matrix (k := k) rows cols xs, text => ∃ values,
      text = "(" ++ (DataType.matrix k rows cols).text ++ ")[" ++ " ".intercalate values ++ "]" ∧
      List.Forall₂ Scalar.Spells xs values

theorem Datum.spells_text (x : Datum) : x.Spells x.text := by
  cases x with
  | scalar x => exact ⟨_, rfl, x.spells_text⟩
  | matrix rows cols xs =>
      refine ⟨_, rfl, ?_⟩
      rw [List.forall₂_map_right_iff, List.forall₂_same]
      exact fun x _ => x.spells_text

def Report.Spells (r : Report) (text : String) : Prop :=
  ∃ taken left, List.Forall₂ Datum.Spells r.taken taken ∧ Option.Rel Datum.Spells r.left left ∧
    text = r.spelled taken left

theorem Report.spells_text (r : Report) : r.Spells r.text := by
  refine ⟨_, _, ?_, ?_, rfl⟩
  · rw [List.forall₂_map_right_iff, List.forall₂_same]
    exact fun x _ => x.spells_text
  · cases r.left with
    | none => exact .none
    | some x => exact .some x.spells_text

namespace Program

structure Tells (p : Program) (s : Store) (r : Report) (e : Entry) (st : State) : Prop where
  visits : p.Visits true s r.position st
  entry : p.code[r.position]? = some e
  typed : p.TypedAt r.position st
  line : r.line = e.line
  depth : r.depth = st.stack.depth
  spelling : r.spelling = p.describe e
  taken : r.taken = e.takenFrom (p.valuesAt r.position st)
  inputs : r.taken.map Datum.type = e.inputs
  faulted : r.faulted = true → r.left = none ∧ ∃ f, p.step true e.opcode st = .error f
  done : r.faulted = false → ∃ st', p.step true e.opcode st = .ok st' ∧
    r.left = e.leftOn (p.valuesAt (r.position + 1) st') ∧ r.left.map Datum.type = e.output ∧
    st'.stack.slots = e.restack st.stack.slots (e.leftOn st'.stack.slots)

structure ReportsRun (p : Program) (s : Store) (stopped : Option Error) : Prop where
  tells : ∀ k r, (p.reports s)[k]? = some r → r.position = k ∧ ∃ e st, p.Tells s r e st
  lines : ∀ r ∈ p.reports s, ∃ line, r.text = line ++ "\n" ∧ SingleLine line
  spelled : ∀ r ∈ p.reports s, r.Spells r.text
  completed : stopped = none →
    (p.reports s).length = p.code.size ∧ ∀ r ∈ p.reports s, r.faulted = false
  faulted : ∀ error, stopped = some error → ∃ before last e f,
    p.reports s = before ++ [last] ∧ p.code[before.length]? = some e ∧
    error = faultAt before.length e f ∧ (∀ r ∈ before, r.faulted = false) ∧
    last.faulted = true ∧ ∃ start, last.text = start ++ " => () <ERROR>\n"

variable {p : Program} {s : Store} {pc : Nat} {st : State} {e : Entry}

theorem Visits.report_tells (hp : p.Sound) (h : p.Visits true s pc st)
    (he : p.code[pc]? = some e) : p.Tells s (p.report pc st e) e st := by
  obtain ⟨hwords, htaken⟩ := h.taken_eq hp he
  have hinputs : (e.takenFrom (p.valuesAt pc st)).map Datum.type = e.inputs := by
    rw [htaken, map_type_zipWith hwords]
  cases hstep : p.step true e.opcode st with
  | error f =>
      rw [report_of_fault hstep]
      exact ⟨h, he, h.typedAt hp, rfl, rfl, rfl, rfl, hinputs, fun _ => ⟨rfl, f, hstep⟩,
        fun hdone => by cases hdone⟩
  | ok st' =>
      have h' := h.next he hstep
      obtain ⟨hs, hs₁, -, hadmits, hroom, hst, -⟩ := h.entry hp he
      have houtput : (e.leftOn (p.valuesAt (pc + 1) st')).map Datum.type = e.output := by
        cases ht : e.output with
        | none => simp only [Entry.leftOn, ht, Option.map_none]
        | some t =>
            obtain ⟨w, -, htw, hleft⟩ := h.left_eq hp he h' ht
            rw [hleft, Option.map_some, type_wordDatum htw]
      rw [report_of_step hstep]
      exact ⟨h, he, h.typedAt hp, rfl, rfl, rfl, rfl, hinputs, fun hfaulted => (by cases hfaulted),
        fun _ => ⟨st', hstep, rfl, houtput, hadmits.stack_eq hst hroom hstep⟩⟩

theorem reportsFrom_tells (hp : p.Sound) (h : p.Visits true s pc st) {es : List Entry}
    (hes : p.code.toList.drop pc = es) {k : Nat} {r : Report}
    (hr : (p.reportsFrom pc st es)[k]? = some r) :
    r.position = pc + k ∧ ∃ e st, p.Tells s r e st := by
  induction es generalizing pc st k with
  | nil => cases hr
  | cons e es ih =>
      obtain ⟨he, hrest, -⟩ := drop_eq_cons hes
      rw [reportsFrom] at hr
      cases k with
      | zero =>
          obtain rfl := Option.some.inj hr
          exact ⟨rfl, e, st, h.report_tells hp he⟩
      | succ k =>
          rw [List.getElem?_cons_succ] at hr
          cases hstep : p.step true e.opcode st with
          | error f =>
              rw [hstep] at hr
              cases hr
          | ok st' =>
              rw [hstep] at hr
              obtain ⟨hposition, htells⟩ := ih (h.next he hstep) hrest hr
              exact ⟨by omega, htells⟩

theorem faulted_report {f : Fault} (h : p.step true e.opcode st = .error f) (pc : Nat) :
    (p.report pc st e).faulted = true ∧
      ∃ start, (p.report pc st e).text = start ++ " => () <ERROR>\n" := by
  rw [report_of_fault h]
  refine ⟨rfl, s!"{e.line} - {st.stack.depth} - {pc} :: {p.describe e} (" ++
    ",".intercalate ((e.takenFrom (p.valuesAt pc st)).map Datum.text) ++ ")", ?_⟩
  simp only [Report.text, Report.spelled, Option.map_none, Option.getD_none, if_true,
    String.append_assoc]
  rfl

theorem reportsFrom_done {es : List Entry} (h : (p.runFrom true pc st es).stopped = none) :
    (p.reportsFrom pc st es).length = es.length ∧
      ∀ r ∈ p.reportsFrom pc st es, r.faulted = false := by
  induction es generalizing pc st with
  | nil => exact ⟨rfl, fun r hr => by cases hr⟩
  | cons e es ih =>
      rw [runFrom] at h
      rw [reportsFrom]
      cases hstep : p.step true e.opcode st with
      | error f =>
          rw [hstep] at h
          cases h
      | ok st' =>
          rw [hstep] at h
          obtain ⟨hlen, hrest⟩ := ih h
          refine ⟨congrArg Nat.succ hlen, List.forall_mem_cons.mpr ⟨?_, hrest⟩⟩
          rw [report_of_step hstep]

theorem reportsFrom_faulted {es : List Entry} (hes : p.code.toList.drop pc = es) {error : Error}
    (h : (p.runFrom true pc st es).stopped = some error) :
    ∃ before last e f, p.reportsFrom pc st es = before ++ [last] ∧
      p.code[pc + before.length]? = some e ∧ error = faultAt (pc + before.length) e f ∧
      (∀ r ∈ before, r.faulted = false) ∧ last.faulted = true ∧
      ∃ start, last.text = start ++ " => () <ERROR>\n" := by
  induction es generalizing pc st with
  | nil => cases h
  | cons e es ih =>
      obtain ⟨he, hrest, -⟩ := drop_eq_cons hes
      rw [runFrom] at h
      rw [reportsFrom]
      cases hstep : p.step true e.opcode st with
      | error f =>
          rw [hstep] at h
          obtain ⟨hfaulted, htext⟩ := faulted_report hstep pc
          exact ⟨[], p.report pc st e, e, f, rfl, he, (Option.some.inj h).symm,
            fun r hr => (by cases hr), hfaulted, htext⟩
      | ok st' =>
          rw [hstep] at h
          obtain ⟨before, last, e', f, hreports, he', herror, hdone, hlast⟩ := ih hrest h
          have hplace : pc + 1 + before.length = pc + (p.report pc st e :: before).length := by
            rw [List.length_cons]
            omega
          rw [hplace] at he' herror
          refine ⟨p.report pc st e :: before, last, e', f, congrArg (_ :: ·) hreports, he', herror,
            List.forall_mem_cons.mpr ⟨?_, hdone⟩, hlast⟩
          rw [report_of_step hstep]

theorem reportsRun (hp : p.Sound) (hspelled : ∀ e ∈ p.code.toList, SingleLine (p.describe e))
    (s : Store) : p.ReportsRun s (p.run true s).stopped := by
  have htells (k : Nat) (r : Report) (hr : (p.reports s)[k]? = some r) :
      r.position = k ∧ ∃ e st, p.Tells s r e st := by
    have hstart : p.Visits true s 0 ⟨s, .empty⟩ := .start
    simpa using reportsFrom_tells hp hstart rfl hr
  refine ⟨htells, fun r hr => ?_, fun r _ => r.spells_text, fun hdone => ?_,
    fun error hfaulted => ?_⟩
  · obtain ⟨k, hk⟩ := List.mem_iff_getElem?.mp hr
    obtain ⟨-, e, st, hr⟩ := htells k r hk
    refine Report.singleLine_text ?_
    rw [hr.spelling]
    have hentry := hr.entry
    rw [← Array.getElem?_toList] at hentry
    exact hspelled e (List.mem_of_getElem? hentry)
  · exact reportsFrom_done hdone
  · have hcode : p.code.toList.drop 0 = p.code.toList := List.drop_zero
    obtain ⟨before, last, e, f, hreports, he, herror, hlast⟩ :=
      reportsFrom_faulted hcode hfaulted
    rw [Nat.zero_add] at he herror
    exact ⟨before, last, e, f, hreports, he, herror, hlast⟩

end Program

namespace Machine

variable {p : Program} {m : Machine}

theorem traceFrom_of_unlimited {sink : Sink} (h : sink.Unlimited) (position : Nat)
    (es : List Entry) :
    (m.traceFrom p position sink es).1 = (m.runFrom p true position es).1 ∧
      (m.traceFrom p position sink es).2.1 = (m.runFrom p true position es).2 := by
  induction es generalizing position m sink with
  | nil =>
      obtain ⟨sink', -, hwrite⟩ := Sink.write_of_unlimited h (p.traceEnd m.state)
      rw [traceFrom, hwrite]
      exact ⟨rfl, rfl⟩
  | cons e es ih =>
      obtain ⟨sink₁, h₁, hbefore⟩ := Sink.write_of_unlimited h (p.traceBefore position e m.state)
      rw [traceFrom, hbefore, runFrom]
      dsimp only
      rcases m.step p true e.opcode with ⟨m', _ | f⟩
      · obtain ⟨sink₂, h₂, hafter⟩ := Sink.write_of_unlimited h₁ (p.traceAfter e m'.state)
        dsimp only
        rw [hafter]
        exact ih h₂ (position + 1)
      · obtain ⟨sink₂, -, hfault⟩ := Sink.write_of_unlimited h₁ Program.traceFault
        dsimp only
        rw [hfault]
        exact ⟨rfl, rfl⟩

theorem execute_debug_of_unlimited {sink : Sink} (h : sink.Unlimited) :
    (m.execute p .debug (some sink)).1 = (m.execute p .safe none).1 ∧
      (m.execute p .debug (some sink)).2.1 = (m.execute p .safe none).2.1 := by
  obtain ⟨sink', h', hwrite⟩ := Sink.write_of_unlimited h Program.traceHeader
  simp only [execute, hwrite]
  exact traceFrom_of_unlimited h' 0 _

end Machine

namespace Program

variable {p : Program}

theorem singleLine_describe {text : String} {ess : List (List Entry)}
    (hcode : p.code.toList = ess.flatten)
    (h : List.Forall₂ (fun l es => ∃ i, l.2 = .ok i ∧ Draft.Renders p (l.1 % Draft.lineLimit) i es)
      (Postfix.instructions text) ess) :
    ∀ e ∈ p.code.toList, SingleLine (p.describe e) := by
  intro e he
  rw [hcode] at he
  obtain ⟨es, hes, he⟩ := List.mem_flatten.mp he
  obtain ⟨n, hn⟩ := List.mem_iff_getElem?.mp hes
  obtain ⟨l, hl, i, hi, inserted, own, rfl, -, htext, -, hinserted⟩ :=
    forall₂_getElem?_left h.flip hn
  rcases List.mem_append.mp he with he | he
  · rcases (hinserted e he).2 with ⟨j, k, depth, -, hcast⟩ | ⟨depth, target, -, hcopy⟩
    · rw [hcast]
      exact SingleLine.append (by decide) k.singleLine_name
    · rw [hcopy]
      decide
  · obtain rfl := List.mem_singleton.mp he
    rw [htext]
    exact Postfix.singleLine_of_mem (List.mem_of_getElem? hl) hi

theorem execute_debug_traces {text : String} {vs : Variables} {o : CompileOptions}
    (hvs : vs.Made) (h : compile text vs o = .ok p) (hsmall : p.constants.size < 2 ^ 32)
    {m : Machine} (hm : m.Reached p) {sink : Sink} (hsink : sink.Unlimited) :
    let stopped := (m.execute p .safe none).2.1
    m.execute p .debug (some sink) = ((m.execute p .safe none).1, stopped,
      some { sink with received := sink.received ++ (traceHeader ++
        String.join ((p.reports m.store).map Report.text) ++ p.ending stopped) }) ∧
    p.ReportsRun m.store stopped ∧
    ∃ ess, p.code.toList = ess.flatten ∧ List.Forall₂ (fun l es => ∃ i, l.2 = .ok i ∧
      Draft.Renders p (l.1 % Draft.lineLimit) i es) (Postfix.instructions text) ess := by
  have hp := compile_sound hvs.fresh h
  obtain ⟨ess, hcode, hrendered⟩ := rendered_of_compile hvs h hsmall
  obtain ⟨hsafe, -⟩ := Machine.execute_ends hp (hm.fits hp) .safe none
  obtain ⟨-, hreceived⟩ := Machine.execute_ends hp (hm.fits hp) .debug (some sink)
  obtain ⟨hmachine, hstopped⟩ := Machine.execute_debug_of_unlimited (m := m) (p := p) hsink
  have hrun : (m.execute p .safe none).2.1 = (p.run true m.store).stopped := hsafe.stopped
  rw [execute_debug_received hp hsink] at hreceived
  refine ⟨?_, ?_, ess, hcode, hrendered⟩
  · rw [hrun, ← hreceived, ← hmachine, ← hrun, ← hstopped]
  · rw [hrun]
    exact reportsRun hp (singleLine_describe hcode hrendered) m.store

theorem execute_debug_traces_divided_by_zero :
    ∃ vs p, ∃ m : Machine, vs.Made ∧
      compile "READ a\nREAD b\nDIV\nWRITE c\n" vs .default = .ok p ∧
      p.constants.size < 2 ^ 32 ∧ m.Reached p ∧ Sink.unlimited.Unlimited ∧
      m.execute p .debug (some .unlimited) =
        ((m.execute p .safe none).1, some (.instructionFault 4 "DIV" .divideByZero), some ⟨none,
          "[line]-[stackPtr]-[codePtr]::[CODE] stack-in => stack-out\n" ++
          "1 - 0 - 0 :: READ a () => ((uint8)7)\n" ++
          "2 - 1 - 1 :: READ b () => ((int8)0)\n" ++
          "3 - 2 - 2 :: CAST int16 ((uint8)7) => ((int16)7)\n" ++
          "3 - 2 - 3 :: CAST int16 ((int8)0) => ((int16)0)\n" ++
          "3 - 2 - 4 :: DIV ((int16)7,(int16)0) => () <ERROR>\n"⟩) := by
  let u8 : Kind := .uint .w8
  let i8 : Kind := .int .w8
  let i16 : Kind := .int .w16
  let vs : Variables :=
    ⟨[⟨"a", .scalar u8, none, none⟩, ⟨"b", .scalar i8, none, none⟩], [.named "c"]⟩
  let p : Program := {
    vars := ⟨[⟨"a", .scalar u8, some (.variable 0), none⟩,
        ⟨"b", .scalar i8, some (.variable 1), none⟩],
      [⟨"c", .scalar i16, some (.variable 2), none⟩]⟩
    constants := #[]
    literals := []
    code := #[⟨.loadVariable 0 u8, 1, [], some (.scalar u8), none⟩,
      ⟨.loadVariable 1 i8, 2, [], some (.scalar i8), none⟩,
      ⟨.cast u8 i16 1 true, 3, [.scalar u8], some (.scalar i16), none⟩,
      ⟨.cast i8 i16 0 true, 3, [.scalar i8], some (.scalar i16), none⟩,
      ⟨.scalar (.arithmetic .div) i16, 3, [.scalar i16, .scalar i16], some (.scalar i16), none⟩,
      ⟨.storeVariable 2 i16, 4, [.scalar i16], none, none⟩]
    matrices := #[]
    bindings := #[]
    sizes := ⟨0, 4, 6, 2⟩ }
  let m : Machine := ⟨⟨⟨#[7, 0, 0, 0], #[]⟩, #[]⟩, #[0, 0], 0⟩
  have hmade : vs.Made := by
    have hdiscover : Variables.discover "READ a\nREAD b\nDIV\nWRITE c\n" =
        .ok ⟨[.named "a", .named "b"], [.named "c"]⟩ := by decide +kernel
    have hbind : Variables.bind ⟨[.named "a", .named "b"], [.named "c"]⟩ "a" (.scalar u8) none =
        .ok ⟨[⟨"a", .scalar u8, none, none⟩, .named "b"], [.named "c"]⟩ := by decide +kernel
    have hbind' : Variables.bind ⟨[⟨"a", .scalar u8, none, none⟩, .named "b"], [.named "c"]⟩ "b"
        (.scalar i8) none = .ok vs := by decide +kernel
    exact ⟨_, _, hdiscover, .bind (.bind .refl hbind) hbind'⟩
  have hcompile : compile "READ a\nREAD b\nDIV\nWRITE c\n" vs .default = .ok p := by decide +kernel
  have hsmall : p.constants.size < 2 ^ 32 := by decide
  have hreached : m.Reached p := by
    have hnew : (Machine.new p #[]).Reached p := .new (by decide)
    have hset : p.setValue (Machine.new p #[]).store "a" ⟨u8, .ofWord u8 7⟩ =
        .ok m.store := by decide +kernel
    exact .setValue hnew hset
  obtain ⟨hdebug, -⟩ := execute_debug_traces hmade hcompile hsmall hreached
    (show Sink.unlimited.Unlimited from rfl)
  refine ⟨vs, p, m, hmade, hcompile, hsmall, hreached, rfl, hdebug.trans ?_⟩
  have hstopped : (m.execute p .safe none).2.1 =
      some (.instructionFault 4 "DIV" .divideByZero) := by decide +kernel
  have hreports : p.reports m.store =
      [⟨1, 0, 0, "READ a", [], some (.scalar (k := u8) ⟨7⟩), false⟩,
        ⟨2, 1, 1, "READ b", [], some (.scalar (k := i8) ⟨0⟩), false⟩,
        ⟨3, 2, 2, "CAST int16", [.scalar (k := u8) ⟨7⟩], some (.scalar (k := i16) ⟨7⟩), false⟩,
        ⟨3, 2, 3, "CAST int16", [.scalar (k := i8) ⟨0⟩], some (.scalar (k := i16) ⟨0⟩), false⟩,
        ⟨3, 2, 4, "DIV", [.scalar (k := i16) ⟨7⟩, .scalar (k := i16) ⟨0⟩], none, true⟩] := by
    decide +kernel
  rw [hstopped, hreports]
  refine congrArg (fun text => ((m.execute p .safe none).1,
    some (Error.instructionFault 4 "DIV" .divideByZero), some (⟨none, text⟩ : Sink))) ?_
  decide +kernel

theorem wrapped_line_numbers :
    let text := String.ofList (List.replicate (2 ^ 32) '\n' ++ "CONST 1\nWRITE y\n".toList)
    ∃ vs p, ∃ m : Machine, vs.Made ∧ compile text vs .default = .ok p ∧
      p.constants.size < 2 ^ 32 ∧ m.Reached p ∧
      Postfix.instructions text =
        [(2 ^ 32 + 1, .ok (.const none "1")), (2 ^ 32 + 2, .ok (.write "y"))] ∧
      (m.execute p .debug (some .unlimited)).2 = (none, some ⟨none,
        "[line]-[stackPtr]-[codePtr]::[CODE] stack-in => stack-out\n" ++
          "1 - 0 - 0 :: CONST 1 () => ((float64)1)\n" ++
          "2 - 1 - 1 :: WRITE y ((float64)1) => ()\n" ++
          "0 - 2 :: END\n"⟩) := by
  intro text
  let vs : Variables := ⟨[], [.named "y"]⟩
  let p : Program := {
    vars := ⟨[], [⟨"y", .scalar .float64, some (.variable 0), none⟩]⟩
    constants := #[0, 0, 0, 0, 0, 0, 0xf0, 0x3f]
    literals := [(0, ⟨"1", none⟩)]
    code := #[⟨.loadConstant 0 .float64, 1, [], some (.scalar .float64), none⟩,
      ⟨.storeVariable 0 .float64, 2, [.scalar .float64], none, none⟩]
    matrices := #[]
    bindings := #[]
    sizes := ⟨8, 8, 2, 1⟩ }
  have hnumbered : (Postfix.numberedLines "CONST 1\nWRITE y\n").filter
      (fun l => !Postfix.isBlankLine l.2) = [(1, "CONST 1".toList), (2, "WRITE y".toList)] := by
    decide +kernel
  have hlines : Postfix.instructions text =
      [(2 ^ 32 + 1, .ok (.const none "1")), (2 ^ 32 + 2, .ok (.write "y"))] := by
    rw [Postfix.instructions_line_feeds, hnumbered]
    decide +kernel
  have hcode : (Postfix.instructions text).map Prod.snd =
      [Postfix.Instruction.const none "1", .write "y"].map .ok := by
    rw [hlines]
    rfl
  have hdiscover : Variables.discover text = .ok vs := Variables.discover_eq hcode
  have hcompile : compile text vs .default = .ok p := by
    rw [compile, hlines]
    decide +kernel
  have hreached : (Machine.new p #[]).Reached p := .new (by decide)
  exact ⟨vs, p, _, ⟨_, _, hdiscover, .refl⟩, hcompile, by decide, hreached, hlines,
    by decide +kernel⟩

end Program

end FormulaMachine
