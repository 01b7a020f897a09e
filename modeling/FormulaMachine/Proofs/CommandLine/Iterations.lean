import FormulaMachine.CommandLine.Command
import FormulaMachine.Proofs.Machine.Tracing

namespace FormulaMachine

namespace Program

inductive Completes (p : Program) : Store → List String → Store → Prop
  | nil {s : Store} : Completes p s [] s
  | cons {s s₁ s' : Store} {trace : String} {traces : List String}
      (h : p.execute .debug s (some .unlimited) = (⟨s₁, none⟩, some ⟨none, trace⟩))
      (hrest : Completes p s₁ traces s') : Completes p s (trace :: traces) s'

variable {p : Program} {s s' : Store} {trace : String} {traces : List String}

theorem execute_debug_unlimited (hp : p.Sound) (s : Store) :
    p.execute .debug s (some .unlimited) = (p.run true s, some ⟨none, traceHeader ++
      String.join ((p.reports s).map Report.text) ++ p.ending (p.run true s).stopped⟩) := by
  have hunlimited : Sink.unlimited.Unlimited := rfl
  refine Prod.ext (execute_debug_of_unlimited hunlimited s) ?_
  rw [execute_debug_received hp hunlimited]
  simp only [Sink.unlimited, String.empty_append]

theorem trace_of_completed (hp : p.Sound)
    (h : p.execute .debug s (some .unlimited) = (⟨s', none⟩, some ⟨none, trace⟩)) :
    ∃ lines, trace = lines ++ s!"0 - {p.code.size} :: END\n" := by
  rw [execute_debug_unlimited hp] at h
  obtain ⟨hrun, hsink⟩ := Prod.mk.inj h
  obtain ⟨-, rfl⟩ := Sink.mk.inj (Option.some.inj hsink)
  exact ⟨_, by rw [hrun, ending, if_pos rfl]⟩

theorem trace_of_faulted (hp : p.Sound) {e : Error}
    (h : p.execute .debug s (some .unlimited) = (⟨s', some e⟩, some ⟨none, trace⟩)) :
    ∃ lines, trace = lines ++ " => () <ERROR>\n" := by
  rw [execute_debug_unlimited hp] at h
  obtain ⟨hrun, hsink⟩ := Prod.mk.inj h
  obtain ⟨-, rfl⟩ := Sink.mk.inj (Option.some.inj hsink)
  have hstopped : (p.run true s).stopped = some e := by rw [hrun]
  have hcode : p.code.toList.drop 0 = p.code.toList := List.drop_zero
  obtain ⟨before, last, entry, f, hreports, -, -, -, -, start, hlast⟩ :=
    reportsFrom_faulted hcode hstopped
  have hreports : p.reports s = before ++ [last] := hreports
  refine ⟨traceHeader ++ String.join (before.map Report.text) ++ start, ?_⟩
  rw [hstopped, hreports, ending, if_neg (Option.some_ne_none e), List.map_append,
    String.join_append, List.map_singleton, String.join_cons, String.join_nil, hlast]
  simp only [String.append_assoc, String.append_empty]

theorem Completes.traces_end (hp : p.Sound) (h : p.Completes s traces s') :
    ∀ t ∈ traces, ∃ lines, t = lines ++ s!"0 - {p.code.size} :: END\n" := by
  induction h with
  | nil => exact fun t ht => by cases ht
  | cons hdone _ ih => exact List.forall_mem_cons.mpr ⟨trace_of_completed hp hdone, ih⟩

end Program

namespace CommandLine

open Program

variable {p : Program} {s s' : Store} {traces : List String}

theorem iterate_of_completes (h : p.Completes s traces s') (written : String) (times : Nat) :
    iterate p .debug written (traces.length + times) s =
      iterate p .debug (written ++ String.join traces) times s' := by
  induction h generalizing written with
  | nil => rw [List.length_nil, Nat.zero_add, String.join_nil, String.append_empty]
  | @cons s s₁ s' trace traces hdone _ ih =>
      have hcount : (trace :: traces).length + times = traces.length + times + 1 := by
        rw [List.length_cons]
        omega
      rw [hcount, iterate, hdone]
      dsimp only [Option.map_some, Option.getD_some]
      rw [ih, String.join_cons, String.append_assoc]

theorem made_of_buildProgram [Infix.Lexicon] [Json.Reader] {w : Surroundings} {b : Build}
    (h : buildProgram w b = .ok p) :
    ∃ text vs o, vs.Made ∧ compile text vs o = .ok p := by
  obtain ⟨source, -, h⟩ := bind_eq_ok h
  obtain ⟨code, h⟩ : ∃ code, (do
      let vs ← (Variables.discover code).mapError Error.message
      let vs ← (bindAll vs b.bindings).mapError Error.message
      let o ← readOptions w b.config
      (compile code vs o).mapError Error.message) = .ok p := by
    dsimp only at h
    split at h
    · exact ⟨_, h⟩
    · obtain ⟨code, -, h⟩ := bind_eq_ok h
      exact ⟨code, h⟩
  obtain ⟨vs, hdiscover, h⟩ := bind_eq_ok h
  obtain ⟨vs', hbind, h⟩ := bind_eq_ok h
  obtain ⟨o, -, h⟩ := bind_eq_ok h
  refine ⟨code, vs', o, ⟨code, vs, mapError_eq_ok hdiscover, ?_⟩, mapError_eq_ok h⟩
  exact foldlM_invariant (fun _ _ _ hbound hb => .bind hbound hb) .refl (mapError_eq_ok hbind)

theorem join_ne_faulted {n : Nat}
    (h : ∀ t ∈ traces, ∃ lines, t = lines ++ s!"0 - {n} :: END\n") (lines : String) :
    String.join traces ≠ lines ++ " <ERROR>\n" := by
  intro heq
  have hmark : " <ERROR>\n".toList <:+ (String.join traces).toList := by
    rw [heq, String.toList_append]
    exact List.suffix_append _ _
  by_cases hnil : traces = []
  · subst hnil
    exact absurd (List.suffix_nil.mp hmark) (by decide)
  · obtain ⟨start, hlast⟩ := h _ (List.getLast_mem hnil)
    have hend : " :: END\n".toList <:+ (String.join traces).toList := by
      rw [← List.dropLast_append_getLast hnil, hlast, String.join_append, String.join_cons,
        String.join_nil, String.append_empty, String.toList_append, String.toList_append,
        String.toList_append, ← List.append_assoc, ← List.append_assoc]
      exact List.suffix_append _ _
    have hshort := List.suffix_of_suffix_length_le hend hmark (by decide)
    revert hshort
    decide

section Run

variable [Infix.Lexicon] [Json.Reader] {w : Surroundings} {b : Build} {n : Nat}
  {start last : Store} {e : Error} {lost : String}

theorem execute_run_debug (hbuild : buildProgram w b = .ok p)
    (hstart : b.bindings.foldlM (setInitial p) ⟨p.newOwned, #[]⟩ = .ok start)
    (hdone : p.Completes start traces last) (hcount : traces.length < n)
    (hfault : p.execute .debug last (some .unlimited) = (⟨s', some e⟩, some ⟨none, lost⟩)) :
    (Command.run b .debug n).execute w = ⟨String.join traces, some e.message⟩ := by
  obtain ⟨rest, rfl⟩ : ∃ rest, n = traces.length + (rest + 1) :=
    ⟨n - traces.length - 1, by omega⟩
  simp only [Command.execute, hbuild, runProgram, hstart]
  rw [iterate_of_completes hdone, iterate, hfault]
  dsimp only
  rw [String.empty_append]
  rfl

theorem run_debug_loses_trace (hbuild : buildProgram w b = .ok p)
    (hstart : b.bindings.foldlM (setInitial p) ⟨p.newOwned, #[]⟩ = .ok start)
    (hdone : p.Completes start traces last) (hcount : traces.length < n)
    (hfault : p.execute .debug last (some .unlimited) = (⟨s', some e⟩, some ⟨none, lost⟩)) :
    (Command.run b .debug n).execute w = ⟨String.join traces, some e.message⟩ ∧
      (∀ t ∈ traces, ∃ lines, t = lines ++ s!"0 - {p.code.size} :: END\n") ∧
      (∃ lines, lost = lines ++ " => () <ERROR>\n") ∧
      ∀ lines, String.join traces ≠ lines ++ " <ERROR>\n" := by
  obtain ⟨text, vs, o, hvs, hcompile⟩ := made_of_buildProgram hbuild
  have hp := compile_sound hvs.fresh hcompile
  have htraces := hdone.traces_end hp
  exact ⟨execute_run_debug hbuild hstart hdone hcount hfault, htraces, trace_of_faulted hp hfault,
    join_ne_faulted htraces⟩

end Run

theorem quotient_faults_again :
    ∃ w b p start last s' trace lost, buildProgram w b = .ok p ∧
      b.bindings.foldlM (setInitial p) ⟨p.newOwned, #[]⟩ = .ok start ∧
      p.Completes start [trace] last ∧
      p.execute .debug last (some .unlimited) =
        (⟨s', some (.instructionFault 2 "DIV" .divideByZero)⟩, some ⟨none, lost⟩) ∧
      lost = "[line]-[stackPtr]-[codePtr]::[CODE] stack-in => stack-out\n" ++
        "1 - 0 - 0 :: READ a () => ((uint8)1)\n" ++ "2 - 1 - 1 :: READ b () => ((uint8)0)\n" ++
        "3 - 2 - 2 :: DIV ((uint8)1,(uint8)0) => () <ERROR>\n" := by
  let u8 : Kind := .uint .w8
  let w : Surroundings := ⟨fun _ => .error .missing, ""⟩
  let b : Build := ⟨.text "READ a\nREAD b\nDIV\nWRITE b\n", true,
    [⟨"a", .scalar u8, some (.scalar ⟨u8, ⟨1⟩⟩)⟩, ⟨"b", .scalar u8, some (.scalar ⟨u8, ⟨2⟩⟩)⟩],
    none⟩
  let p : Program := {
    vars := ⟨[⟨"a", .scalar u8, some (.variable 0), none⟩],
      [⟨"b", .scalar u8, some (.variable 1), none⟩]⟩
    constants := #[]
    literals := []
    code := #[⟨.loadVariable 0 u8, 1, [], some (.scalar u8), none⟩,
      ⟨.loadVariable 1 u8, 2, [], some (.scalar u8), none⟩,
      ⟨.scalar (.arithmetic .div) u8, 3, [.scalar u8, .scalar u8], some (.scalar u8), none⟩,
      ⟨.storeVariable 1 u8, 4, [.scalar u8], none, none⟩]
    matrices := #[]
    bindings := #[]
    sizes := ⟨0, 2, 4, 2⟩ }
  let store (divisor : Byte) : Store := ⟨⟨#[1, divisor], #[]⟩, #[]⟩
  have hbuild : buildProgram w b = .ok p := by decide +kernel
  have hstart : b.bindings.foldlM (setInitial p) ⟨p.newOwned, #[]⟩ = .ok (store 2) := by
    decide +kernel
  have hfirst : p.execute .debug (store 2) (some .unlimited) = (⟨store 0, none⟩, some ⟨none,
      "[line]-[stackPtr]-[codePtr]::[CODE] stack-in => stack-out\n" ++
      "1 - 0 - 0 :: READ a () => ((uint8)1)\n" ++ "2 - 1 - 1 :: READ b () => ((uint8)2)\n" ++
      "3 - 2 - 2 :: DIV ((uint8)1,(uint8)2) => ((uint8)0)\n" ++
      "4 - 1 - 3 :: WRITE b ((uint8)0) => ()\n" ++ "0 - 4 :: END\n"⟩) := by decide +kernel
  have hsecond : p.execute .debug (store 0) (some .unlimited) =
      (⟨store 0, some (.instructionFault 2 "DIV" .divideByZero)⟩, some ⟨none,
      "[line]-[stackPtr]-[codePtr]::[CODE] stack-in => stack-out\n" ++
      "1 - 0 - 0 :: READ a () => ((uint8)1)\n" ++ "2 - 1 - 1 :: READ b () => ((uint8)0)\n" ++
      "3 - 2 - 2 :: DIV ((uint8)1,(uint8)0) => () <ERROR>\n"⟩) := by decide +kernel
  exact ⟨w, b, p, _, _, _, _, _, hbuild, hstart, .cons hfirst .nil, hsecond, rfl⟩

theorem run_debug_loses_trace_quotient :
    ∃ w b p start last s' trace lost, buildProgram w b = .ok p ∧
      b.bindings.foldlM (setInitial p) ⟨p.newOwned, #[]⟩ = .ok start ∧
      p.Completes start [trace] last ∧ [trace].length < 2 ∧
      p.execute .debug last (some .unlimited) =
        (⟨s', some (.instructionFault 2 "DIV" .divideByZero)⟩, some ⟨none, lost⟩) ∧
      (Command.run b .debug 2).execute w = ⟨String.join [trace],
        some "RuntimeError\x7bdivide_by_zero: instruction 2 (DIV): divide_by_zero\x7d"⟩ ∧
      ∀ lines, String.join [trace] ≠ lines ++ " <ERROR>\n" := by
  obtain ⟨w, b, p, start, last, s', trace, lost, hbuild, hstart, hdone, hfault, -⟩ :=
    quotient_faults_again
  have hcount : [trace].length < 2 := Nat.one_lt_two
  obtain ⟨hout, -, -, hmark⟩ := run_debug_loses_trace hbuild hstart hdone hcount hfault
  have hmessage : (Error.instructionFault 2 "DIV" .divideByZero).message =
      "RuntimeError\x7bdivide_by_zero: instruction 2 (DIV): divide_by_zero\x7d" := by decide +kernel
  rw [hmessage] at hout
  exact ⟨w, b, p, start, last, s', trace, lost, hbuild, hstart, hdone, hcount, hfault, hout, hmark⟩

theorem run_debug_omits_fault :
    ¬ ∀ (w : Surroundings) (b : Build) (p : Program) (n : Nat) (start last s' : Store)
      (traces : List String) (e : Error) (lost : String), buildProgram w b = .ok p →
      b.bindings.foldlM (setInitial p) ⟨p.newOwned, #[]⟩ = .ok start →
      p.Completes start traces last → traces.length < n →
      p.execute .debug last (some .unlimited) = (⟨s', some e⟩, some ⟨none, lost⟩) →
      ((Command.run b .debug n).execute w).text = String.join (traces ++ [lost]) := by
  intro hall
  obtain ⟨w, b, p, start, last, s', trace, lost, hbuild, hstart, hdone, hfault, hlost⟩ :=
    quotient_faults_again
  have hcount : [trace].length < 2 := Nat.one_lt_two
  have htrace := hall w b p 2 start last s' [trace] _ lost hbuild hstart hdone hcount hfault
  rw [execute_run_debug hbuild hstart hdone hcount hfault, String.join_append] at htrace
  have hlength := congrArg String.length htrace
  rw [String.length_append, hlost] at hlength
  simp at hlength

end CommandLine

end FormulaMachine
