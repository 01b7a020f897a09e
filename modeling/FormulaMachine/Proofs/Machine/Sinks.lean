import FormulaMachine.Proofs.Machine.Tracing
import Mathlib.Data.String.Basic

namespace FormulaMachine

namespace Text

theorem prefix_append (s t : String) : s.toList <+: (s ++ t).toList := by
  rw [String.toList_append]
  exact List.prefix_append _ _

theorem append_prefix_append_iff {s t t' : String} :
    (s ++ t).toList <+: (s ++ t').toList ↔ t.toList <+: t'.toList := by
  rw [String.toList_append, String.toList_append, List.prefix_append_right_inj]

end Text

namespace Sink

theorem fitting_append_of_le {room : Nat} {xs : List Char} (h : String.utf8Len xs ≤ room)
    (ys : List Char) :
    fitting room (xs ++ ys) = xs ++ fitting (room - String.utf8Len xs) ys := by
  induction xs generalizing room with
  | nil => rfl
  | cons c xs ih =>
      rw [String.utf8Len_cons] at h
      have hrest : room - c.utf8Size - String.utf8Len xs =
          room - String.utf8Len (c :: xs) := by
        rw [String.utf8Len_cons]
        omega
      rw [List.cons_append, fitting, if_pos (by omega), ih (by omega), hrest, List.cons_append]

theorem fitting_append_of_lt {room : Nat} {xs : List Char} (h : room < String.utf8Len xs)
    (ys : List Char) : fitting room (xs ++ ys) = fitting room xs := by
  induction xs generalizing room with
  | nil => exact absurd h (Nat.not_lt_zero room)
  | cons c xs ih =>
      rw [String.utf8Len_cons] at h
      rw [List.cons_append, fitting, fitting]
      split
      · rw [ih (by omega)]
      · rfl

theorem prefix_fitting_iff {room : Nat} {xs ys : List Char} :
    xs <+: fitting room ys ↔ xs <+: ys ∧ String.utf8Len xs ≤ room := by
  induction ys generalizing room xs with
  | nil =>
      rw [fitting, List.prefix_nil]
      constructor
      · rintro rfl
        exact ⟨rfl, Nat.zero_le room⟩
      · exact And.left
  | cons c ys ih =>
      rw [fitting]
      cases xs with
      | nil => exact ⟨fun _ => ⟨List.nil_prefix, Nat.zero_le room⟩, fun _ => List.nil_prefix⟩
      | cons x xs =>
          rw [List.cons_prefix_cons, String.utf8Len_cons]
          split
          · rw [List.cons_prefix_cons, ih]
            constructor
            · rintro ⟨rfl, hprefix, hle⟩
              exact ⟨⟨rfl, hprefix⟩, by omega⟩
            · rintro ⟨⟨rfl, hprefix⟩, hle⟩
              exact ⟨rfl, hprefix, by omega⟩
          · constructor
            · exact fun hprefix => absurd (List.prefix_nil.mp hprefix) (List.cons_ne_nil x xs)
            · rintro ⟨⟨rfl, -⟩, hle⟩
              omega

def cut (room : Nat) (text : String) : String :=
  .ofList (fitting room text.toList)

theorem cut_append_of_le {room : Nat} {s : String} (h : s.utf8ByteSize ≤ room) (t : String) :
    cut room (s ++ t) = s ++ cut (room - s.utf8ByteSize) t := by
  rw [← String.utf8Len_toList] at h ⊢
  rw [cut, String.toList_append, fitting_append_of_le h, String.ofList_append, String.ofList_toList]
  rfl

theorem cut_append_of_lt {room : Nat} {s : String} (h : room < s.utf8ByteSize) (t : String) :
    cut room (s ++ t) = cut room s := by
  rw [← String.utf8Len_toList] at h
  rw [cut, String.toList_append, fitting_append_of_lt h]
  rfl

theorem prefix_cut_iff {room : Nat} {s t : String} :
    s.toList <+: (cut room t).toList ↔ s.toList <+: t.toList ∧ s.utf8ByteSize ≤ room := by
  rw [cut, String.toList_ofList, prefix_fitting_iff, String.utf8Len_toList]

theorem write_of_le {room : Nat} {text : String} (h : text.utf8ByteSize ≤ room)
    (received : String) :
    (⟨some room, received⟩ : Sink).write text =
      (⟨some (room - text.utf8ByteSize), received ++ text⟩, true) := by
  simp only [write, if_pos h]

theorem write_of_lt {room : Nat} {text : String} (h : room < text.utf8ByteSize)
    (received : String) :
    (⟨some room, received⟩ : Sink).write text = (⟨some 0, received ++ cut room text⟩, false) := by
  simp only [write, if_neg (Nat.not_le.mpr h)]
  rfl

end Sink

namespace Report

def opening (r : Report) : String :=
  s!"{r.line} - {r.depth} - {r.position} :: {r.spelling} (" ++
    ",".intercalate (r.taken.map Datum.text) ++ ")"

def closing (r : Report) : String :=
  " => (" ++ (r.left.map Datum.text).getD "" ++ ")" ++ (if r.faulted then " <ERROR>" else "") ++
    "\n"

theorem text_eq (r : Report) : r.text = r.opening ++ r.closing := by
  have hjoin (text : String) : ")" ++ (" => (" ++ text) = ") => (" ++ text := by
    rw [← String.append_assoc]
    rfl
  simp only [text, spelled, opening, closing, String.append_assoc, hjoin]
  rfl

theorem size_opening_le (r : Report) : r.opening.utf8ByteSize ≤ r.text.utf8ByteSize := by
  rw [text_eq, String.utf8ByteSize_append]
  exact Nat.le_add_right _ _

structure Begun (rs : List Report) (room k : Nat) : Prop where
  few : k ≤ rs.length
  opened : ∀ j r, rs[j]? = some r →
    (j < k ↔ (String.join ((rs.take j).map text) ++ r.opening).utf8ByteSize ≤ room)

variable {r : Report} {rs : List Report} {room k : Nat}

theorem begun_nil (room : Nat) : Begun [] room 0 :=
  ⟨Nat.le_refl 0, fun _ _ hr => by cases hr⟩

theorem begun_zero (h : room < r.opening.utf8ByteSize) : Begun (r :: rs) room 0 := by
  have hle := r.size_opening_le
  refine ⟨Nat.zero_le _, fun j r' hr => ⟨fun hj => absurd hj (Nat.not_lt_zero j), fun hfits => ?_⟩⟩
  rw [String.utf8ByteSize_append] at hfits
  cases j with
  | zero =>
      obtain rfl := Option.some.inj hr
      omega
  | succ j =>
      rw [List.take_succ_cons, List.map_cons, String.join_cons, String.utf8ByteSize_append] at hfits
      omega

theorem begun_one (h : r.opening.utf8ByteSize ≤ room) (h' : room < r.text.utf8ByteSize) :
    Begun (r :: rs) room 1 := by
  refine ⟨Nat.succ_le_succ (Nat.zero_le _), fun j r' hr => ?_⟩
  cases j with
  | zero =>
      obtain rfl := Option.some.inj hr
      rw [List.take_zero, List.map_nil, String.join_nil, String.empty_append]
      exact ⟨fun _ => h, fun _ => Nat.zero_lt_one⟩
  | succ j =>
      rw [List.take_succ_cons, List.map_cons, String.join_cons, String.utf8ByteSize_append,
        String.utf8ByteSize_append]
      omega

theorem begun_succ (h : r.text.utf8ByteSize ≤ room)
    (hrs : Begun rs (room - r.text.utf8ByteSize) k) : Begun (r :: rs) room (k + 1) := by
  refine ⟨Nat.succ_le_succ hrs.few, fun j r' hr => ?_⟩
  cases j with
  | zero =>
      obtain rfl := Option.some.inj hr
      rw [List.take_zero, List.map_nil, String.join_nil, String.empty_append]
      exact ⟨fun _ => Nat.le_trans r.size_opening_le h, fun _ => Nat.zero_lt_succ k⟩
  | succ j =>
      have hopened := hrs.opened j r' hr
      rw [String.utf8ByteSize_append] at hopened
      rw [List.take_succ_cons, List.map_cons, String.join_cons, String.utf8ByteSize_append,
        String.utf8ByteSize_append]
      omega

theorem opening_prefix {j : Nat} (h : rs[j]? = some r) :
    (String.join ((rs.take j).map text) ++ r.opening).toList <+:
      (String.join (rs.map text)).toList := by
  induction rs generalizing j with
  | nil => cases h
  | cons r' rs ih =>
      rw [List.map_cons, String.join_cons]
      cases j with
      | zero =>
          obtain rfl := Option.some.inj h
          rw [List.take_zero, List.map_nil, String.join_nil, String.empty_append, text_eq,
            String.append_assoc]
          exact Text.prefix_append _ _
      | succ j =>
          rw [List.take_succ_cons, List.map_cons, String.join_cons, String.append_assoc]
          exact Text.append_prefix_append_iff.mpr (ih h)

end Report

namespace Program

variable {p : Program} {s : Store} {pc : Nat} {st st' : State} {e : Entry} {es : List Entry}

theorem Visits.opening_report (hp : p.Sound) (h : p.Visits true s pc st)
    (he : p.code[pc]? = some e) : (p.report pc st e).opening = p.traceBefore pc e st := by
  rw [h.traceBefore_eq hp he]
  cases hstep : p.step true e.opcode st with
  | error f =>
      rw [report_of_fault hstep]
      rfl
  | ok st' =>
      rw [report_of_step hstep]
      rfl

theorem Visits.text_fault (hp : p.Sound) (h : p.Visits true s pc st) (he : p.code[pc]? = some e)
    {f : Fault} (hstep : p.step true e.opcode st = .error f) :
    (p.report pc st e).text = p.traceBefore pc e st ++ traceFault := by
  rw [h.report_text hp he, hstep]

theorem Visits.text_step (hp : p.Sound) (h : p.Visits true s pc st) (he : p.code[pc]? = some e)
    (hstep : p.step true e.opcode st = .ok st') :
    (p.report pc st e).text = p.traceBefore pc e st ++ p.traceAfter e st' := by
  rw [h.report_text hp he, hstep]

theorem runFrom_take_of_faulted {k : Nat} {r : Report}
    (hr : (p.reportsFrom pc st es)[k]? = some r) (hfaulted : r.faulted = true) :
    (p.runFrom true pc st (es.take (k + 1))).store = (p.runFrom true pc st (es.take k)).store := by
  induction es generalizing pc st k with
  | nil => cases hr
  | cons e es ih =>
      rw [reportsFrom] at hr
      rw [List.take_succ_cons, runFrom]
      cases hstep : p.step true e.opcode st with
      | error f =>
          cases k with
          | zero => rfl
          | succ k =>
              rw [List.take_succ_cons, runFrom, hstep]
      | ok st' =>
          cases k with
          | zero =>
              obtain rfl := Option.some.inj hr
              rw [report_of_step hstep] at hfaulted
              cases hfaulted
          | succ k =>
              rw [hstep, List.getElem?_cons_succ] at hr
              rw [List.take_succ_cons, runFrom, hstep]
              exact ih hr

def traceText (p : Program) (pc : Nat) (st : State) (es : List Entry) : String :=
  String.join ((p.reportsFrom pc st es).map Report.text) ++
    p.ending (p.runFrom true pc st es).stopped

theorem Visits.traceText_nil (hp : p.Sound) (h : p.Visits true s pc st)
    (hend : p.code.toList.drop pc = []) (hpc : pc ≤ p.code.size) :
    p.traceText pc st [] = p.traceEnd st := by
  have hsize : p.code.size ≤ pc := by simpa using hend
  have hdepth := (h.typedAt hp).ended (Nat.le_antisymm hpc hsize)
  simp only [traceText, reportsFrom, runFrom, ending, if_true, traceEnd, hdepth, List.map_nil,
    String.join_nil, String.empty_append]
  rfl

theorem Visits.traceText_fault (hp : p.Sound) (h : p.Visits true s pc st)
    (he : p.code[pc]? = some e) {f : Fault} (hstep : p.step true e.opcode st = .error f)
    (es : List Entry) :
    p.traceText pc st (e :: es) = p.traceBefore pc e st ++ traceFault := by
  simp only [traceText, reportsFrom, runFrom, hstep, List.map_cons, List.map_nil,
    h.text_fault hp he hstep, String.join_cons, String.join_nil, String.append_empty,
    ending, reduceCtorEq, if_false]

theorem Visits.traceText_cons (hp : p.Sound) (h : p.Visits true s pc st)
    (he : p.code[pc]? = some e) (hstep : p.step true e.opcode st = .ok st') (es : List Entry) :
    p.traceText pc st (e :: es) =
      p.traceBefore pc e st ++ (p.traceAfter e st' ++ p.traceText (pc + 1) st' es) := by
  simp only [traceText, reportsFrom, runFrom, hstep, List.map_cons, h.text_step hp he hstep,
    String.join_cons, String.append_assoc]

theorem traceFrom_of_le (hp : p.Sound) (h : p.Visits true s pc st)
    (hes : p.code.toList.drop pc = es) (hpc : pc ≤ p.code.size) {room : Nat}
    (hroom : (p.traceText pc st es).utf8ByteSize ≤ room) (received : String) :
    p.traceFrom pc st ⟨some room, received⟩ es = ⟨p.runFrom true pc st es,
      ⟨some (room - (p.traceText pc st es).utf8ByteSize),
        received ++ p.traceText pc st es⟩⟩ := by
  induction es generalizing pc st room received with
  | nil =>
      rw [h.traceText_nil hp hes hpc] at hroom ⊢
      rw [traceFrom, Sink.write_of_le hroom]
      rfl
  | cons e es ih =>
      obtain ⟨he, hrest, hlt⟩ := drop_eq_cons hes
      rw [traceFrom, runFrom]
      cases hstep : p.step true e.opcode st with
      | error f =>
          rw [h.traceText_fault hp he hstep] at hroom ⊢
          rw [String.utf8ByteSize_append] at hroom ⊢
          rw [Sink.write_of_le (by omega)]
          dsimp only
          rw [Sink.write_of_le (by omega), String.append_assoc, Nat.sub_sub]
      | ok st' =>
          rw [h.traceText_cons hp he hstep] at hroom ⊢
          rw [String.utf8ByteSize_append, String.utf8ByteSize_append] at hroom ⊢
          rw [Sink.write_of_le (by omega)]
          dsimp only
          rw [Sink.write_of_le (by omega)]
          dsimp only
          rw [ih (h.next he hstep) hrest hlt (by omega)]
          simp only [String.append_assoc, Nat.sub_sub, Nat.add_assoc]

theorem Visits.cut_traceText_of_lt (hp : p.Sound) (h : p.Visits true s pc st)
    (he : p.code[pc]? = some e) {room : Nat}
    (hroom : room < (p.traceBefore pc e st).utf8ByteSize) :
    Sink.cut room (p.traceText pc st (e :: es)) = Sink.cut room (p.traceBefore pc e st) := by
  cases hstep : p.step true e.opcode st with
  | error f => rw [h.traceText_fault hp he hstep, Sink.cut_append_of_lt hroom]
  | ok st' => rw [h.traceText_cons hp he hstep, Sink.cut_append_of_lt hroom]

theorem store_runFrom_take_one (p : Program) (pc : Nat) (st : State) (e : Entry)
    (es : List Entry) :
    (p.runFrom true pc st (List.take 1 (e :: es))).store =
      match p.step true e.opcode st with
      | .error _ => st.store
      | .ok st' => st'.store := by
  rw [List.take_succ_cons, List.take_zero, runFrom]
  cases p.step true e.opcode st <;> rfl

theorem traceFrom_of_lt (hp : p.Sound) (h : p.Visits true s pc st)
    (hes : p.code.toList.drop pc = es) (hpc : pc ≤ p.code.size) {room : Nat}
    (hroom : room < (p.traceText pc st es).utf8ByteSize) (received : String) :
    ∃ k, Report.Begun (p.reportsFrom pc st es) room k ∧
      p.traceFrom pc st ⟨some room, received⟩ es =
        refused (p.runFrom true pc st (es.take k)).store
          ⟨some 0, received ++ Sink.cut room (p.traceText pc st es)⟩ := by
  induction es generalizing pc st room received with
  | nil =>
      rw [h.traceText_nil hp hes hpc] at hroom ⊢
      rw [traceFrom, Sink.write_of_lt hroom]
      exact ⟨0, Report.begun_nil room, rfl⟩
  | cons e es ih =>
      obtain ⟨he, hrest, hlt⟩ := drop_eq_cons hes
      have hopening := h.opening_report hp he
      rw [traceFrom, reportsFrom]
      by_cases hbefore : room < (p.traceBefore pc e st).utf8ByteSize
      · refine ⟨0, Report.begun_zero (hopening ▸ hbefore), ?_⟩
        rw [Sink.write_of_lt hbefore, h.cut_traceText_of_lt hp he hbefore]
        rfl
      have hbefore := Nat.le_of_not_lt hbefore
      rw [Sink.write_of_le hbefore]
      have hrun := p.store_runFrom_take_one pc st e es
      dsimp only
      cases hstep : p.step true e.opcode st with
      | error f =>
          rw [hstep] at hrun
          rw [h.traceText_fault hp he hstep] at hroom ⊢
          have hlong : room < (p.report pc st e).text.utf8ByteSize := by
            rw [h.text_fault hp he hstep]
            exact hroom
          refine ⟨1, Report.begun_one (hopening ▸ hbefore) hlong, ?_⟩
          rw [String.utf8ByteSize_append] at hroom
          have hfault : room - (p.traceBefore pc e st).utf8ByteSize < traceFault.utf8ByteSize := by
            omega
          dsimp only
          rw [Sink.write_of_lt hfault, hrun, Sink.cut_append_of_le hbefore,
            String.append_assoc]
      | ok st' =>
          rw [hstep] at hrun
          rw [h.traceText_cons hp he hstep] at hroom ⊢
          rw [Sink.cut_append_of_le hbefore]
          have hsize := congrArg String.utf8ByteSize (h.text_step hp he hstep)
          rw [String.utf8ByteSize_append] at hsize
          rw [String.utf8ByteSize_append, String.utf8ByteSize_append] at hroom
          dsimp only
          by_cases hafter : room - (p.traceBefore pc e st).utf8ByteSize <
              (p.traceAfter e st').utf8ByteSize
          · refine ⟨1, Report.begun_one (hopening ▸ hbefore) (by omega), ?_⟩
            rw [Sink.write_of_lt hafter, hrun, Sink.cut_append_of_lt hafter, String.append_assoc]
          · have hafter := Nat.le_of_not_lt hafter
            have hleft : room - (p.traceBefore pc e st).utf8ByteSize -
                (p.traceAfter e st').utf8ByteSize =
                  room - (p.report pc st e).text.utf8ByteSize := by omega
            rw [Sink.write_of_le hafter, Sink.cut_append_of_le hafter, hleft]
            have hrestRoom : room - (p.report pc st e).text.utf8ByteSize <
                (p.traceText (pc + 1) st' es).utf8ByteSize := by omega
            obtain ⟨k, hbegun, htrace⟩ := ih (h.next he hstep) hrest hlt hrestRoom
              (received ++ p.traceBefore pc e st ++ p.traceAfter e st')
            refine ⟨k + 1, Report.begun_succ (by omega) hbegun, ?_⟩
            dsimp only
            rw [htrace, List.take_succ_cons, runFrom, hstep]
            simp only [String.append_assoc]

def fullTrace (p : Program) (s : Store) : String :=
  traceHeader ++ p.traceText 0 ⟨s, .empty⟩ p.code.toList

theorem trace_of_le (hp : p.Sound) (s : Store) {room : Nat}
    (hroom : (p.fullTrace s).utf8ByteSize ≤ room) (received : String) :
    p.trace s ⟨some room, received⟩ = ⟨p.run true s,
      ⟨some (room - (p.fullTrace s).utf8ByteSize), received ++ p.fullTrace s⟩⟩ := by
  have hstart : p.Visits true s 0 ⟨s, .empty⟩ := .start
  have hcode : p.code.toList.drop 0 = p.code.toList := List.drop_zero
  rw [fullTrace, String.utf8ByteSize_append] at hroom ⊢
  rw [trace, Sink.write_of_le (by omega)]
  dsimp only
  rw [traceFrom_of_le hp hstart hcode (Nat.zero_le _) (by omega), Nat.sub_sub, String.append_assoc]
  rfl

structure Interrupted (p : Program) (s : Store) (taken : String) (k : Nat) : Prop where
  few : k ≤ (p.reports s).length
  opened : ∀ j r, (p.reports s)[j]? = some r →
    (j < k ↔ (traceHeader ++ (String.join (((p.reports s).take j).map Report.text) ++
      r.opening)).toList <+: taken.toList)

theorem opening_prefix_fullTrace {j : Nat} {r : Report} (hr : (p.reports s)[j]? = some r) :
    (traceHeader ++ (String.join (((p.reports s).take j).map Report.text) ++
      r.opening)).toList <+: (p.fullTrace s).toList :=
  Text.append_prefix_append_iff.mpr ((Report.opening_prefix hr).trans (Text.prefix_append _ _))

theorem interrupted_of_begun {k room : Nat} (hheader : traceHeader.utf8ByteSize ≤ room)
    (h : Report.Begun (p.reports s) (room - traceHeader.utf8ByteSize) k) :
    p.Interrupted s (Sink.cut room (p.fullTrace s)) k := by
  refine ⟨h.few, fun j r hr => (h.opened j r hr).trans ?_⟩
  have hsize (t : String) :
      (traceHeader ++ t).utf8ByteSize = traceHeader.utf8ByteSize + t.utf8ByteSize :=
    String.utf8ByteSize_append
  rw [Sink.prefix_cut_iff, and_iff_right (opening_prefix_fullTrace hr), hsize]
  omega

theorem interrupted_of_header {room : Nat} (hheader : room < traceHeader.utf8ByteSize) :
    p.Interrupted s (Sink.cut room (p.fullTrace s)) 0 := by
  refine ⟨Nat.zero_le _, fun j r _ => ⟨fun hj => absurd hj (Nat.not_lt_zero j), fun hfits => ?_⟩⟩
  rw [Sink.prefix_cut_iff, String.utf8ByteSize_append] at hfits
  omega

theorem trace_of_lt (hp : p.Sound) (s : Store) {room : Nat}
    (hroom : room < (p.fullTrace s).utf8ByteSize) (received : String) :
    ∃ k, p.Interrupted s (Sink.cut room (p.fullTrace s)) k ∧
      p.trace s ⟨some room, received⟩ =
        refused (p.runFrom true 0 ⟨s, .empty⟩ (p.code.toList.take k)).store
          ⟨some 0, received ++ Sink.cut room (p.fullTrace s)⟩ := by
  have hstart : p.Visits true s 0 ⟨s, .empty⟩ := .start
  have hcode : p.code.toList.drop 0 = p.code.toList := List.drop_zero
  by_cases hheader : room < traceHeader.utf8ByteSize
  · refine ⟨0, interrupted_of_header hheader, ?_⟩
    rw [trace, Sink.write_of_lt hheader, fullTrace, Sink.cut_append_of_lt hheader]
    rfl
  · have hheader := Nat.le_of_not_lt hheader
    have hrest : room - traceHeader.utf8ByteSize <
        (p.traceText 0 ⟨s, .empty⟩ p.code.toList).utf8ByteSize := by
      rw [fullTrace, String.utf8ByteSize_append] at hroom
      omega
    obtain ⟨k, hbegun, htrace⟩ := traceFrom_of_lt hp hstart hcode (Nat.zero_le _) hrest
      (received ++ traceHeader)
    refine ⟨k, interrupted_of_begun hheader hbegun, ?_⟩
    rw [trace, Sink.write_of_le hheader]
    dsimp only
    rw [htrace, fullTrace, Sink.cut_append_of_le hheader, String.append_assoc]

end Program

namespace Machine

variable {p : Program} {m : Machine}

theorem traceFrom_refused_or (sink : Sink) (position : Nat) (es : List Entry) :
    (m.traceFrom p position sink es).2.1 = some .traceRefused ∨
      (m.traceFrom p position sink es).1 = (m.runFrom p true position es).1 ∧
        (m.traceFrom p position sink es).2.1 = (m.runFrom p true position es).2 := by
  induction es generalizing position m sink with
  | nil =>
      rw [traceFrom]
      rcases sink.write (p.traceEnd m.state) with ⟨sink, _ | _⟩
      · exact .inl rfl
      · exact .inr ⟨rfl, rfl⟩
  | cons e es ih =>
      rw [traceFrom, runFrom]
      rcases sink.write (p.traceBefore position e m.state) with ⟨sink, _ | _⟩
      · exact .inl rfl
      dsimp only
      rcases m.step p true e.opcode with ⟨m', _ | f⟩
      · dsimp only
        rcases sink.write (p.traceAfter e m'.state) with ⟨sink, _ | _⟩
        · exact .inl rfl
        · exact ih sink (position + 1)
      · dsimp only
        rcases sink.write Program.traceFault with ⟨sink, _ | _⟩
        · exact .inl rfl
        · exact .inr ⟨rfl, rfl⟩

theorem execute_debug_refused_or (sink : Sink) :
    (m.execute p .debug (some sink)).2.1 = some .traceRefused ∨
      (m.execute p .debug (some sink)).1 = (m.execute p .safe none).1 ∧
        (m.execute p .debug (some sink)).2.1 = (m.execute p .safe none).2.1 := by
  simp only [execute]
  rcases sink.write Program.traceHeader with ⟨sink, _ | _⟩
  · exact .inl rfl
  · exact traceFrom_refused_or sink 0 p.code.toList

structure CutShort (p : Program) (m m' : Machine) (taken : String) (k : Nat) : Prop where
  interrupted : p.Interrupted m.store taken k
  faulted : ∀ j r, (p.reports m.store)[j]? = some r → r.faulted = true →
    (p.runFrom true 0 ⟨m.store, .empty⟩ (p.code.toList.take (j + 1))).store =
      (p.runFrom true 0 ⟨m.store, .empty⟩ (p.code.toList.take j)).store
  seen : p.SeenAlike (p.runFrom true 0 ⟨m.store, .empty⟩ (p.code.toList.take k)).store m'.store

end Machine

namespace Program

variable {p : Program}

theorem run_ne_refused (checked : Bool) (s : Store) :
    (p.run checked s).stopped ≠ some .traceRefused := by
  obtain ⟨k, st, -, -, hstops⟩ :=
    runFrom_stops (.start : p.Visits checked s 0 ⟨s, .empty⟩) rfl (Nat.zero_le _)
  have hstops : p.Stops checked k st (p.run checked s).stopped := hstops
  intro h
  rw [h] at hstops
  cases hstops

theorem execute_debug_bounded {text : String} {vs : Variables} {o : CompileOptions}
    (hvs : vs.Made) (h : compile text vs o = .ok p) {m : Machine} (hm : m.Fits p) (room : Nat)
    (received : String) :
    let whole := m.execute p .debug (some .unlimited)
    let full := p.fullTrace m.store
    whole.2.2 = some ⟨none, full⟩ ∧
      (full.utf8ByteSize ≤ room → m.execute p .debug (some ⟨some room, received⟩) =
        (whole.1, whole.2.1, some ⟨some (room - full.utf8ByteSize), received ++ full⟩)) ∧
      (room < full.utf8ByteSize → ∃ m' taken k,
        m.execute p .debug (some ⟨some room, received⟩) =
          (m', some .traceRefused, some ⟨some 0, received ++ taken⟩) ∧
        (∀ s : String, s.toList <+: taken.toList ↔
          s.toList <+: full.toList ∧ s.utf8ByteSize ≤ room) ∧
        m.CutShort p m' taken k) := by
  have hp := compile_sound hvs.fresh h
  have hunlimited : Sink.unlimited.Unlimited := rfl
  obtain ⟨hwhole, hwholeSink⟩ := Machine.execute_ends hp hm .debug (some .unlimited)
  obtain ⟨hends, hsink⟩ := Machine.execute_ends hp hm .debug (some ⟨some room, received⟩)
  refine ⟨?_, fun hroom => ?_, fun hroom => ?_⟩
  · rw [hwholeSink, execute_debug_received hp hunlimited, fullTrace, String.append_assoc]
    rfl
  · have htrace := trace_of_le hp m.store hroom received
    simp only [execute, htrace] at hends hsink
    have htaken : (m.execute p .debug (some ⟨some room, received⟩)).2.1 ≠
        some .traceRefused := by
      rw [hends.stopped]
      exact run_ne_refused true m.store
    obtain ⟨hmachine, hstopped⟩ := (Machine.execute_debug_refused_or _).resolve_left htaken
    obtain ⟨hmachine', hstopped'⟩ := Machine.execute_debug_of_unlimited (m := m) (p := p) hunlimited
    exact Prod.ext (hmachine.trans hmachine'.symm)
      (Prod.ext (hstopped.trans hstopped'.symm) hsink)
  · obtain ⟨k, hinterrupted, htrace⟩ := trace_of_lt hp m.store hroom received
    simp only [execute, htrace] at hends hsink
    refine ⟨_, _, k, Prod.ext rfl (Prod.ext hends.stopped hsink), fun s => Sink.prefix_cut_iff,
      hinterrupted, fun j r hr hfaulted => runFrom_take_of_faulted hr hfaulted, ?_⟩
    exact seenAlike_of_changedIn hp.layout hends.changed

theorem execute_debug_bounded_divided_by_zero :
    ∃ vs p, ∃ m m' : Machine, ∃ taken, vs.Made ∧
      compile "READ a\nWRITE b\nREAD a\nREAD z\nDIV\nWRITE c\n" vs .default = .ok p ∧
      m.Fits p ∧ 249 < (p.fullTrace m.store).utf8ByteSize ∧
      m.execute p .debug (some (.ofSize 249)) =
        (m', some .traceRefused, some ⟨some 0, "" ++ taken⟩) ∧
      taken = "[line]-[stackPtr]-[codePtr]::[CODE] stack-in => stack-out\n" ++
        "1 - 0 - 0 :: READ a () => ((uint8)7)\n" ++
        "2 - 1 - 1 :: WRITE b ((uint8)7) => ()\n" ++
        "3 - 0 - 2 :: READ a () => ((uint8)7)\n" ++
        "4 - 1 - 3 :: READ z () => ((uint8)0)\n" ++
        "5 - 2 - 4 :: DIV ((uint8)7,(uint8)0) => ()" ∧
      m.store.owned.scalars = #[7, 0, 0, 0] ∧ m'.store.owned.scalars = #[7, 7, 0, 0] ∧
      (m.execute p .safe none).2.1 = some (.instructionFault 4 "DIV" .divideByZero) ∧
      m.CutShort p m' taken 5 := by
  let u8 : Kind := .uint .w8
  let byte : DataType := .scalar u8
  let vs : Variables :=
    ⟨[⟨"a", byte, none, none⟩, ⟨"z", byte, none, none⟩], [.named "b", .named "c"]⟩
  let p : Program := {
    vars := ⟨[⟨"a", byte, some (.variable 0), none⟩, ⟨"z", byte, some (.variable 2), none⟩],
      [⟨"b", byte, some (.variable 1), none⟩, ⟨"c", byte, some (.variable 3), none⟩]⟩
    constants := #[]
    literals := []
    code := #[⟨.loadVariable 0 u8, 1, [], some byte, none⟩,
      ⟨.storeVariable 1 u8, 2, [byte], none, none⟩,
      ⟨.loadVariable 0 u8, 3, [], some byte, none⟩, ⟨.loadVariable 2 u8, 4, [], some byte, none⟩,
      ⟨.scalar (.arithmetic .div) u8, 5, [byte, byte], some byte, none⟩,
      ⟨.storeVariable 3 u8, 6, [byte], none, none⟩]
    matrices := #[]
    bindings := #[]
    sizes := ⟨0, 4, 6, 2⟩ }
  let m : Machine := ⟨⟨⟨#[7, 0, 0, 0], #[]⟩, #[]⟩, #[0, 0], 0⟩
  let cut : Machine := ⟨⟨⟨#[7, 7, 0, 0], #[]⟩, #[]⟩, #[7, 0], 0⟩
  let taken : String := "[line]-[stackPtr]-[codePtr]::[CODE] stack-in => stack-out\n" ++
    "1 - 0 - 0 :: READ a () => ((uint8)7)\n" ++ "2 - 1 - 1 :: WRITE b ((uint8)7) => ()\n" ++
    "3 - 0 - 2 :: READ a () => ((uint8)7)\n" ++ "4 - 1 - 3 :: READ z () => ((uint8)0)\n" ++
    "5 - 2 - 4 :: DIV ((uint8)7,(uint8)0) => ()"
  have hmade : vs.Made := by
    have hdiscover : Variables.discover "READ a\nWRITE b\nREAD a\nREAD z\nDIV\nWRITE c\n" =
        .ok ⟨[.named "a", .named "z"], [.named "b", .named "c"]⟩ := by decide +kernel
    have hbind : Variables.bind ⟨[.named "a", .named "z"], [.named "b", .named "c"]⟩ "a" byte none =
        .ok ⟨[⟨"a", byte, none, none⟩, .named "z"], [.named "b", .named "c"]⟩ := by decide +kernel
    have hbind' : Variables.bind ⟨[⟨"a", byte, none, none⟩, .named "z"],
        [.named "b", .named "c"]⟩ "z" byte none = .ok vs := by decide +kernel
    exact ⟨_, _, hdiscover, .bind (.bind .refl hbind) hbind'⟩
  have hcompile : compile "READ a\nWRITE b\nREAD a\nREAD z\nDIV\nWRITE c\n" vs .default =
      .ok p := by decide +kernel
  have hm : m.Fits p := ⟨⟨rfl, by decide +kernel, by decide⟩, rfl, Nat.zero_le 2⟩
  have hroom : 249 < (p.fullTrace m.store).utf8ByteSize := by decide +kernel
  have hrun : m.execute p .debug (some (.ofSize 249)) =
      (cut, some .traceRefused, some ⟨some 0, "" ++ taken⟩) := by decide +kernel
  have hsafe : (m.execute p .safe none).2.1 =
      some (.instructionFault 4 "DIV" .divideByZero) := by decide +kernel
  have hreports : (p.reports m.store).length = 5 := by decide +kernel
  have hopened : ∃ r, (p.reports m.store)[4]? = some r ∧
      (traceHeader ++ (String.join (((p.reports m.store).take 4).map Report.text) ++
        r.opening)).utf8ByteSize ≤ 249 :=
    ⟨⟨5, 2, 4, "DIV", [.scalar (k := u8) ⟨7⟩, .scalar (k := u8) ⟨0⟩], none, true⟩,
      by decide +kernel, by decide +kernel⟩
  obtain ⟨-, -, hcut⟩ := execute_debug_bounded hmade hcompile hm 249 ""
  obtain ⟨m', taken', k, hrun', hlongest, hcut⟩ := hcut hroom
  obtain ⟨rfl, hsinks⟩ := Prod.ext_iff.mp (hrun.symm.trans hrun')
  have htaken : "" ++ taken = "" ++ taken' :=
    congrArg Sink.received (Option.some.inj (Prod.ext_iff.mp hsinks).2)
  rw [String.empty_append, String.empty_append] at htaken
  obtain rfl := htaken
  -- the run began the fifth instruction and no other after it
  obtain ⟨r, hr, hsize⟩ := hopened
  obtain rfl : k = 5 := by
    have hprefix := (hlongest _).mpr ⟨opening_prefix_fullTrace hr, hsize⟩
    have hbegun := (hcut.interrupted.opened 4 r hr).mpr hprefix
    have hfew := hcut.interrupted.few
    omega
  exact ⟨vs, p, m, cut, taken, hmade, hcompile, hm, hroom, hrun, rfl, rfl, rfl, hsafe, hcut⟩

end Program

end FormulaMachine
