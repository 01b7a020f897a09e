import FormulaMachine.Proofs.Machine.Faults
import FormulaMachine.Proofs.Machine.Snapshots

namespace FormulaMachine

namespace Entry

variable {α β γ : Type}

def takenFrom (e : Entry) (xs : List α) : List α :=
  match Program.inPlace? e.opcode with
  | some depth => xs[depth]?.toList
  | none => (xs.take e.inputs.length).reverse

def leftOn (e : Entry) (xs : List α) : Option α :=
  match e.output, Program.inPlace? e.opcode with
  | none, _ => none
  | some _, some depth => xs[depth]?
  | some _, none => xs.head?

def restack (e : Entry) (xs : List α) (left : Option α) : List α :=
  match Program.inPlace? e.opcode with
  | some depth => left.elim xs (xs.set depth)
  | none => left.toList ++ xs.drop e.inputs.length

theorem takenFrom_zipWith (e : Entry) (f : α → β → γ) {xs : List α} {ys : List β}
    (h : xs.length = ys.length) :
    e.takenFrom (List.zipWith f xs ys) = List.zipWith f (e.takenFrom xs) (e.takenFrom ys) := by
  unfold takenFrom
  cases Program.inPlace? e.opcode with
  | none =>
      dsimp only
      rw [List.take_zipWith, List.reverse_zipWith (by simp [h])]
  | some depth =>
      dsimp only
      rw [List.getElem?_zipWith]
      cases xs[depth]? <;> cases ys[depth]? <;> rfl

theorem leftOn_zipWith (e : Entry) (f : α → β → γ) {xs : List α} {ys : List β} {x : α} {y : β}
    (hx : e.leftOn xs = some x) (hy : e.leftOn ys = some y) :
    e.leftOn (List.zipWith f xs ys) = some (f x y) := by
  revert hx hy
  unfold leftOn
  cases e.output with
  | none => intro hx; cases hx
  | some t =>
      cases Program.inPlace? e.opcode with
      | none =>
          dsimp only
          intro hx hy
          rw [List.head?_zipWith, hx, hy]
      | some depth =>
          dsimp only
          intro hx hy
          rw [List.getElem?_zipWith, hx, hy]

theorem forall₂_leftOn {R : α → β → Prop} {e : Entry} {xs : List α} {ys : List β} {x : α}
    (h : List.Forall₂ R xs ys) (hx : e.leftOn xs = some x) :
    ∃ y, e.leftOn ys = some y ∧ R x y := by
  revert hx
  unfold leftOn
  cases e.output with
  | none => intro hx; cases hx
  | some t =>
      cases Program.inPlace? e.opcode with
      | none =>
          intro hx
          cases h with
          | nil => cases hx
          | @cons x' y xs ys hr _ =>
              obtain rfl := Option.some.inj hx
              exact ⟨y, rfl, hr⟩
      | some depth => exact forall₂_getElem?_left h

end Entry

namespace Datum

def text : Datum → String
  | .scalar (k := k) x => "(" ++ k.name ++ ")" ++ x.text
  | .matrix (k := k) rows cols xs =>
      "(" ++ (DataType.matrix k rows cols).text ++ ")[" ++ " ".intercalate (xs.map Scalar.text) ++
        "]"

end Datum

structure Report where
  line : Nat
  depth : Nat
  position : Nat
  spelling : String
  taken : List Datum
  left : Option Datum
  faulted : Bool
  deriving DecidableEq, Repr

def Report.spelled (r : Report) (taken : List String) (left : Option String) : String :=
  let taken := ",".intercalate taken
  let left := left.getD ""
  let mark := if r.faulted then " <ERROR>" else ""
  s!"{r.line} - {r.depth} - {r.position} :: {r.spelling} ({taken}) => ({left}){mark}\n"

def Report.text (r : Report) : String :=
  r.spelled (r.taken.map Datum.text) (r.left.map Datum.text)

namespace Program

def valuesAt (p : Program) (pc : Nat) (st : State) : List Datum :=
  List.zipWith (p.wordDatum st.store) (p.typesAt pc) st.stack.slots

def report (p : Program) (pc : Nat) (st : State) (e : Entry) : Report :=
  let (left, faulted) := match p.step true e.opcode st with
    | .error _ => (none, true)
    | .ok st' => (e.leftOn (p.valuesAt (pc + 1) st'), false)
  ⟨e.line, st.stack.depth, pc, p.describe e, e.takenFrom (p.valuesAt pc st), left, faulted⟩

def reportsFrom (p : Program) (pc : Nat) (st : State) : List Entry → List Report
  | [] => []
  | e :: es =>
      p.report pc st e :: match p.step true e.opcode st with
        | .error _ => []
        | .ok st' => p.reportsFrom (pc + 1) st' es

def reports (p : Program) (s : Store) : List Report :=
  p.reportsFrom 0 ⟨s, .empty⟩ p.code.toList

variable {p : Program} {checked : Bool} {s : Store} {pc : Nat} {st st' : State} {e : Entry}
  {hs hs' : List Held}

theorem report_of_fault {f : Fault} (h : p.step true e.opcode st = .error f) (pc : Nat) :
    p.report pc st e = ⟨e.line, st.stack.depth, pc, p.describe e,
      e.takenFrom (p.valuesAt pc st), none, true⟩ := by
  rw [report, h]

theorem report_of_step (h : p.step true e.opcode st = .ok st') (pc : Nat) :
    p.report pc st e = ⟨e.line, st.stack.depth, pc, p.describe e,
      e.takenFrom (p.valuesAt pc st), e.leftOn (p.valuesAt (pc + 1) st'), false⟩ := by
  rw [report, h]

theorem type_wordDatum {t : DataType} {w : Word} (h : p.HoldsType t w) (s : Store) :
    (p.wordDatum s t w).type = t := by
  cases t with
  | void => cases h
  | scalar k => rfl
  | matrix k rows cols =>
      rw [wordDatum, matrixDatum_eq h]
      rfl

theorem wordText_eq {t : DataType} {w : Word} (h : p.HoldsType t w) (s : Store) :
    p.wordText s t w = (p.wordDatum s t w).text := by
  cases t with
  | void => cases h
  | scalar k => rfl
  | matrix k rows cols =>
      rw [wordDatum, matrixDatum_eq h, wordText, Datum.text, List.map_map]
      simp only [if_pos (lt_of_matrixType h)]
      rfl

theorem map_type_zipWith {ts : List DataType} {ws : List Word}
    (h : List.Forall₂ p.HoldsType ts ws) (s : Store) :
    (List.zipWith (p.wordDatum s) ts ws).map Datum.type = ts := by
  induction h with
  | nil => rfl
  | cons ht _ ih => rw [List.zipWith_cons_cons, List.map_cons, type_wordDatum ht, ih]

theorem zipWith_wordText {ts : List DataType} {ws : List Word}
    (h : List.Forall₂ p.HoldsType ts ws) (s : Store) :
    List.zipWith (p.wordText s) ts ws =
      (List.zipWith (p.wordDatum s) ts ws).map Datum.text := by
  induction h with
  | nil => rfl
  | cons ht _ ih =>
      rw [List.zipWith_cons_cons, List.zipWith_cons_cons, List.map_cons, wordText_eq ht, ih]

theorem Admits.inPlace_lt (h : p.Admits hs e hs') {depth : Nat}
    (hplace : inPlace? e.opcode = some depth) : depth < hs.length ∧ e.output.isSome := by
  cases h with
  | copyMatrix hat =>
      obtain rfl := Option.some.inj hplace
      exact ⟨(List.getElem?_eq_some_iff.mp hat).1, rfl⟩
  | cast hat =>
      obtain rfl := Option.some.inj hplace
      exact ⟨(List.getElem?_eq_some_iff.mp hat).1, rfl⟩
  | keep =>
      obtain rfl := Option.some.inj hplace
      exact ⟨Nat.zero_lt_succ _, rfl⟩
  | _ => cases hplace

theorem Admits.stack_eq (h : p.Admits hs e hs')
    (hst : List.Forall₂ Held.Matches hs st.stack.slots)
    (hroom : hs'.length ≤ p.sizes.maxStackDepth) (hstep : p.step checked e.opcode st = .ok st') :
    st'.stack.slots = e.restack st.stack.slots (e.leftOn st'.stack.slots) := by
  have hdepth : st.stack.depth = hs.length := by rw [st.stack.depth_eq, hst.length_eq]
  have hpush {w : Word} (hlen : hs.length < p.sizes.maxStackDepth)
      (hok : p.push w st = .ok st') : st'.stack.slots = w :: st.stack.slots := by
    rw [push_eq_ok (by omega)] at hok
    rw [← Except.ok.inj hok]
    rfl
  cases h with
  | loadConstant => rw [hpush hroom hstep]; rfl
  | loadVariable => rw [hpush hroom hstep]; rfl
  | loadExternal => rw [hpush hroom hstep]; rfl
  | loadMatrix => rw [hpush hroom hstep]; rfl
  | storeVariable =>
      simp only [step] at hstep
      exact slots_of_popInto hstep
  | storeExternal =>
      simp only [step] at hstep
      exact slots_of_popInto hstep
  | storeMatrix =>
      simp only [step] at hstep
      exact slots_of_popInto hstep
  | copyMatrix hat =>
      obtain ⟨w, hw, -⟩ := forall₂_getElem?_left hst hat
      simp only [step, hw] at hstep
      obtain rfl := Except.ok.inj hstep
      have hlt := (List.getElem?_eq_some_iff.mp hw).1
      simp [Entry.restack, Entry.leftOn, inPlace?, List.getElem?_set_self hlt]
  | cast hat =>
      obtain ⟨w, hw, x, rfl⟩ := forall₂_getElem?_left hst hat
      rw [step, castStep_eq hw] at hstep
      obtain ⟨y, -, rfl⟩ := map_eq_ok hstep
      have hlt := (List.getElem?_eq_some_iff.mp hw).1
      simp [Entry.restack, Entry.leftOn, inPlace?, List.getElem?_set_self hlt]
  | keep =>
      simp only [step, castStep, if_true] at hstep
      obtain rfl := Except.ok.inj hstep
      obtain ⟨w, ws, -, -, hslots⟩ := List.forall₂_cons_left_iff.mp hst
      simp [Entry.restack, Entry.leftOn, inPlace?, hslots]
  | @scalar hs kernel k line spelling hk =>
      obtain ⟨xs, rest, hlen, hslots, -⟩ := exists_scalars hst
      rw [step, onStack_eq hlen hslots, map_map_result] at hstep
      obtain ⟨y, -, rfl⟩ := map_eq_ok hstep
      simp [Entry.restack, Entry.leftOn, inPlace?]
  | matrix hc =>
      obtain ⟨wb, ws, hb, hws, hslots⟩ := List.forall₂_cons_left_iff.mp hst
      obtain ⟨wa, rest, ha, hrest, rfl⟩ := List.forall₂_cons_left_iff.mp hws
      have hlen : rest.length < p.sizes.maxStackDepth := by
        rw [← hrest.length_eq]
        exact hroom
      rw [step, matrixStep_eq hslots hlen] at hstep
      obtain ⟨cells, -, rfl⟩ := map_eq_ok hstep
      simp [Entry.restack, Entry.leftOn, inPlace?]

theorem Visits.inputs_eq (hp : p.Sound) (h : p.Visits checked s pc st)
    (he : p.code[pc]? = some e) : e.takenFrom (p.typesAt pc) = e.inputs := by
  obtain ⟨hs, hs₁, hpre, hadmits, -⟩ := h.entry hp he
  have htypes : p.typesAt pc = hs.map p.heldType := hpre.types_eq
  rw [htypes]
  exact hadmits.taken_eq

theorem takenWords_eq {R : DataType → Word → Prop} {ts : List DataType} {ws : List Word}
    (htaken : e.takenFrom ts = e.inputs) (h : List.Forall₂ R ts ws) :
    takenWords e ws = e.takenFrom ws := by
  unfold takenWords Entry.takenFrom
  cases hplace : inPlace? e.opcode with
  | some depth => rfl
  | none =>
      have hlen : e.inputs.length ≤ ws.length := by
        have hcount := congrArg List.length htaken
        simp only [Entry.takenFrom, hplace, List.length_reverse, List.length_take] at hcount
        rw [← h.length_eq]
        omega
      exact if_pos hlen

theorem Visits.taken_eq (hp : p.Sound) (h : p.Visits checked s pc st)
    (he : p.code[pc]? = some e) :
    List.Forall₂ p.HoldsType e.inputs (takenWords e st.stack.slots) ∧
      e.takenFrom (p.valuesAt pc st) =
        List.zipWith (p.wordDatum st.store) e.inputs (takenWords e st.stack.slots) := by
  have hwords := (h.typedAt hp).words
  have hinputs := h.inputs_eq hp he
  refine ⟨forall₂_takenWords hinputs hwords, ?_⟩
  rw [valuesAt, Entry.takenFrom_zipWith e _ hwords.length_eq, hinputs,
    takenWords_eq hinputs hwords]

theorem Visits.left_type (hp : p.Sound) (h : p.Visits checked s pc st)
    (he : p.code[pc]? = some e) : e.leftOn (p.typesAt (pc + 1)) = e.output := by
  obtain ⟨hs, hs₁, hpre, hadmits, -⟩ := h.entry hp he
  have htypes : p.typesAt pc = hs.map p.heldType := hpre.types_eq
  rw [typesAt_succ he, Entry.leftOn, Entry.retype]
  cases ht : e.output with
  | none => rfl
  | some t =>
      cases hplace : inPlace? e.opcode with
      | none => rfl
      | some depth =>
          have hlt := (hadmits.inPlace_lt hplace).1
          dsimp only
          rw [htypes, List.getElem?_set_self (by rwa [List.length_map]), Option.getD_some]

theorem leftWord?_eq {ws : List Word} {w : Word} (h : e.leftOn ws = some w) :
    leftWord? e ws = some w := by
  revert h
  unfold Entry.leftOn leftWord?
  cases e.output with
  | none => intro h; cases h
  | some t =>
      cases inPlace? e.opcode with
      | none => exact id
      | some depth =>
          dsimp only
          intro h
          rw [h, Option.some_or]

theorem Visits.left_eq (hp : p.Sound) (h : p.Visits checked s pc st) (he : p.code[pc]? = some e)
    (h' : p.Visits checked s (pc + 1) st') {t : DataType} (ht : e.output = some t) :
    ∃ w, leftWord? e st'.stack.slots = some w ∧ p.HoldsType t w ∧
      e.leftOn (p.valuesAt (pc + 1) st') = some (p.wordDatum st'.store t w) := by
  have htype : e.leftOn (p.typesAt (pc + 1)) = some t := (h.left_type hp he).trans ht
  obtain ⟨w, hw, htw⟩ := Entry.forall₂_leftOn (h'.typedAt hp).words htype
  exact ⟨w, leftWord?_eq hw, htw, Entry.leftOn_zipWith e _ htype hw⟩

section Texts

theorem Visits.traceBefore_eq (hp : p.Sound) (h : p.Visits checked s pc st)
    (he : p.code[pc]? = some e) :
    p.traceBefore pc e st = s!"{e.line} - {st.stack.depth} - {pc} :: {p.describe e} (" ++
      ",".intercalate ((e.takenFrom (p.valuesAt pc st)).map Datum.text) ++ ")" := by
  obtain ⟨hwords, htaken⟩ := h.taken_eq hp he
  rw [traceBefore, htaken, zipWith_wordText hwords]

theorem Visits.traceAfter_eq (hp : p.Sound) (h : p.Visits checked s pc st)
    (he : p.code[pc]? = some e) (h' : p.Visits checked s (pc + 1) st') :
    p.traceAfter e st' =
      " => (" ++ ((e.leftOn (p.valuesAt (pc + 1) st')).map Datum.text).getD "" ++ ")\n" := by
  rw [traceAfter]
  cases ht : e.output with
  | none => simp only [Entry.leftOn, ht, Option.map_none, Option.getD_none]
  | some t =>
      obtain ⟨w, hw, htw, hleft⟩ := h.left_eq hp he h' ht
      simp only [hw, hleft, wordText_eq htw, Option.map_some, Option.getD_some]

theorem Visits.report_text (hp : p.Sound) (h : p.Visits true s pc st)
    (he : p.code[pc]? = some e) :
    (p.report pc st e).text = p.traceBefore pc e st ++
      match p.step true e.opcode st with
      | .error _ => traceFault
      | .ok st' => p.traceAfter e st' := by
  rw [h.traceBefore_eq hp he]
  cases hstep : p.step true e.opcode st with
  | error f =>
      rw [report_of_fault hstep]
      simp only [Report.text, Report.spelled, traceFault, Option.map_none, Option.getD_none,
        if_true, String.append_assoc]
      rfl
  | ok st' =>
      have h' := h.next he hstep
      dsimp only
      have hjoin (text : String) : ")" ++ (" => (" ++ text) = ") => (" ++ text := by
        rw [← String.append_assoc]
        rfl
      rw [report_of_step hstep, h.traceAfter_eq hp he h']
      simp only [Report.text, Report.spelled, Bool.false_eq_true, if_false, String.append_assoc,
        hjoin]
      rfl

def ending (p : Program) (stopped : Option Error) : String :=
  if stopped = none then s!"0 - {p.code.size} :: END\n" else ""

theorem traceFrom_received (hp : p.Sound) (h : p.Visits true s pc st) {es : List Entry}
    (hes : p.code.toList.drop pc = es) (hpc : pc ≤ p.code.size) (received : String) :
    (p.traceFrom pc st ⟨none, received⟩ es).sink = ⟨none, received ++
      String.join ((p.reportsFrom pc st es).map Report.text) ++
        p.ending (p.runFrom true pc st es).stopped⟩ := by
  induction es generalizing pc st received with
  | nil =>
      have hend : p.code.size ≤ pc := by simpa using hes
      have hdepth := (h.typedAt hp).ended (Nat.le_antisymm hpc hend)
      simp only [traceFrom, Sink.write, traceEnd, hdepth, reportsFrom, runFrom, ending, if_true,
        List.map_nil, String.join_nil, String.append_empty]
      rfl
  | cons e es ih =>
      obtain ⟨he, hrest, hlt⟩ := drop_eq_cons hes
      have htext := h.report_text hp he
      rw [traceFrom, reportsFrom, runFrom, List.map_cons, String.join_cons, htext]
      cases hstep : p.step true e.opcode st with
      | error f =>
          simp only [Sink.write, List.map_nil, String.join_nil, String.append_empty, ending,
            reduceCtorEq, if_false, String.append_assoc]
      | ok st' =>
          simp only [Sink.write]
          rw [ih (h.next he hstep) hrest hlt]
          simp only [String.append_assoc]

theorem execute_debug_received (hp : p.Sound) {sink : Sink} (hsink : sink.Unlimited) (s : Store) :
    (p.execute .debug s (some sink)).2 = some { sink with received := sink.received ++
      (traceHeader ++ String.join ((p.reports s).map Report.text) ++
        p.ending (p.run true s).stopped) } := by
  obtain ⟨room, received⟩ := sink
  obtain rfl : room = none := hsink
  have hstart : p.Visits true s 0 ⟨s, .empty⟩ := .start
  have hcode : p.code.toList.drop 0 = p.code.toList := List.drop_zero
  have hsink := traceFrom_received hp hstart hcode (Nat.zero_le _) (received ++ traceHeader)
  simp only [execute, trace, Sink.write]
  rw [hsink, reports, run]
  simp only [String.append_assoc]

end Texts

end Program

end FormulaMachine
