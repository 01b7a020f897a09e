import FormulaMachine.Proofs.Compiler.Refusal
import FormulaMachine.Proofs.Postfix.Partition
import Mathlib.Data.List.Permutation

namespace FormulaMachine

namespace Postfix

theorem exists_words_of_mem_instructions {text : String} {l : Nat × Except Error Instruction}
    {i : Instruction} (hl : l ∈ instructions text) (hi : l.2 = .ok i) :
    ∃ m ∈ numberedLines text, lineWords m.2 = i.words := by
  obtain ⟨m, hm, rfl⟩ := List.mem_map.mp hl
  exact ⟨m, (List.mem_filter.mp hm).1, (Instruction.ofLine_eq_ok hi).1⟩

theorem mem_namesAfter {word name : String} {lines : List (Nat × List Char)}
    {m : Nat × List Char} (hm : m ∈ lines) (h : lineWords m.2 = [word, name]) :
    name ∈ namesAfter word lines :=
  List.mem_filterMap.mpr ⟨m, hm, by rw [h]; exact if_pos rfl⟩

end Postfix

namespace Variables

variable {text : String} {vs₀ vs : Variables}

theorem mem_names_partition {name : String} {lines : List (Nat × List Char)} :
    name ∈ (partition lines).names ↔
      name ∈ Postfix.namesAfter "READ" lines ∨ name ∈ Postfix.written lines := by
  have hnames : (partition lines).names =
      (Postfix.written lines).eraseDups ++ (Postfix.onlyRead lines).eraseDups := by
    rw [partition, ofNames, names, ← List.map_append, List.map_map]
    exact List.map_id _
  rw [hnames, List.mem_append, List.mem_eraseDups, List.mem_eraseDups, Postfix.onlyRead,
    List.mem_filter, decide_eq_true_eq]
  tauto

theorem eq_partition_of_discover (h : discover text = .ok vs₀) :
    vs₀ = partition (Postfix.numberedLines text) := by
  by_cases hnamed : ∀ l ∈ Postfix.numberedLines text, ¬ Postfix.IsNameless l
  · exact Except.ok.inj (h.symm.trans (discover_of_named hnamed))
  · obtain ⟨before, l, after, hlines, hl, hbefore⟩ := exists_first_nameless hnamed
    rw [discover_of_nameless hlines hl hbefore] at h
    cases h

theorem declared_of_discover (h : discover text = .ok vs₀)
    {l : Nat × Except Error Postfix.Instruction} (hl : l ∈ Postfix.instructions text)
    {name : String} (hi : l.2 = .ok (.read name) ∨ l.2 = .ok (.write name)) : name ∈ vs₀.names := by
  obtain rfl := eq_partition_of_discover h
  refine mem_names_partition.mpr (hi.imp (fun hi => ?_) fun hi => ?_)
  all_goals
    obtain ⟨m, hm, hwords⟩ := Postfix.exists_words_of_mem_instructions hl hi
    exact Postfix.mem_namesAfter hm hwords

end Variables

section Compile

variable {text : String} {vs₀ vs : Variables} {o : CompileOptions} {e : Error}

theorem names_of_lines (hbound : vs₀.Bound vs) {d : Draft}
    {lines : List (Nat × Except Error Postfix.Instruction)}
    (h : lines.foldlM (Draft.line o) (Draft.start vs) = .ok d) : d.vars.names = vs₀.names :=
  (Draft.lines_extend h).layout.names_eq.trans hbound.names_eq

theorem code_ne_of_instruction_refused (hdiscover : Variables.discover text = .ok vs₀)
    {d : Draft} (hnames : d.vars.names = vs₀.names)
    {l : Nat × Except Error Postfix.Instruction} (hl : l ∈ Postfix.instructions text)
    {i : Postfix.Instruction} (hi : l.2 = .ok i) {line : Nat} (h : Draft.Refusal o line d i e) :
    e.code ≠ "unknown_variable" := by
  cases h with
  | unknownRead hnone =>
      refine absurd ?_ (Variables.not_mem_names hnone)
      exact hnames ▸ Variables.declared_of_discover hdiscover hl (.inl hi)
  | unknownWrite hnone =>
      refine absurd ?_ (Variables.not_mem_names hnone)
      exact hnames ▸ Variables.declared_of_discover hdiscover hl (.inr hi)
  | unfit hcode => exact Error.code_ne_of_unfit hcode (by decide)
  | _ => simp [Error.code]

theorem discovery_suffices (text : String) :
    (∀ vs₀ vs, Variables.discover text = .ok vs₀ → vs₀.Bound vs → ∀ o e,
        compile text vs o = .error e → e.code ≠ "unknown_variable") ∧
      ∀ e, Variables.discover text = .error e → ∀ vs o, ∃ e', compile text vs o = .error e' := by
  refine ⟨fun vs₀ vs hdiscover hbound o e h => ?_, fun e hdiscover vs o => ?_⟩
  · rcases compile_error h with ⟨before, l, after, d, hlines, hd, hrefused⟩ | ⟨d, -, hfinish⟩
    · have hl : l ∈ Postfix.instructions text := by rw [hlines]; simp
      rcases hrefused with hline | ⟨i, hi, hrefusal⟩
      · rcases Postfix.code_of_refused hl hline with hcode | hcode <;> (rw [hcode]; decide)
      · exact code_ne_of_instruction_refused hdiscover (names_of_lines hbound hd) hl hi hrefusal
    · rcases Draft.finish_error hfinish with rfl | ⟨-, hcode⟩ | hcode
      · simp [Error.code]
      · rw [hcode]
        decide
      · exact Error.code_ne_of_unfit hcode (by decide)
  · cases h : compile text vs o with
    | error e' => exact ⟨e', rfl⟩
    | ok p =>
        obtain ⟨d, hd, -⟩ := compile_eq_ok h
        obtain ⟨code, hcode⟩ := Draft.lines_read hd
        rw [Variables.discover_eq hcode] at hdiscover
        cases hdiscover

theorem discovery_suffices_odd_lines :
    ∃ vs₀ vs e, Variables.discover "\tREAD  READ\n\nREAD a b\nREAD\nWRITE y" = .ok vs₀ ∧
      vs₀.Bound vs ∧
      compile "\tREAD  READ\n\nREAD a b\nREAD\nWRITE y" vs .default = .error e ∧
      e.code ≠ "unknown_variable" ∧
      Variables.discover "READ a\nWRITE\n" = .error (.missingName 2 "WRITE") ∧
      (∃ e', compile "READ a\nWRITE\n" vs .default = .error e') ∧
      ∃ vs₁ vs₂ p, Variables.discover "\tREAD  READ\n\nWRITE y" = .ok vs₁ ∧ vs₁.Bound vs₂ ∧
        compile "\tREAD  READ\n\nWRITE y" vs₂ .default = .ok p := by
  have hdiscover : Variables.discover "\tREAD  READ\n\nREAD a b\nREAD\nWRITE y" =
      .ok ⟨[.named "READ", .named "a"], [.named "y"]⟩ := by decide +kernel
  have hbind : Variables.bind ⟨[.named "READ", .named "a"], [.named "y"]⟩ "READ"
      (.scalar (.int .w8)) none =
        .ok ⟨[⟨"READ", .scalar (.int .w8), none, none⟩, .named "a"], [.named "y"]⟩ := by
    decide +kernel
  have hbound := Variables.Bound.bind .refl hbind
  have hcompile : compile "\tREAD  READ\n\nREAD a b\nREAD\nWRITE y"
      ⟨[⟨"READ", .scalar (.int .w8), none, none⟩, .named "a"], [.named "y"]⟩ .default =
        .error (.badInstruction 3 "READ a b") := by decide +kernel
  have hnameless : Variables.discover "READ a\nWRITE\n" = .error (.missingName 2 "WRITE") := by
    decide +kernel
  have hdiscover' : Variables.discover "\tREAD  READ\n\nWRITE y" =
      .ok ⟨[.named "READ"], [.named "y"]⟩ := by decide +kernel
  have hbind' : Variables.bind ⟨[.named "READ"], [.named "y"]⟩ "READ" (.scalar (.int .w8)) none =
      .ok ⟨[⟨"READ", .scalar (.int .w8), none, none⟩], [.named "y"]⟩ := by decide +kernel
  obtain ⟨p, hp⟩ := exists_ok_of_isOk (x := compile "\tREAD  READ\n\nWRITE y"
    ⟨[⟨"READ", .scalar (.int .w8), none, none⟩], [.named "y"]⟩ .default) (by decide +kernel)
  exact ⟨_, _, _, hdiscover, hbound, hcompile,
    (discovery_suffices _).1 _ _ hdiscover hbound _ _ hcompile, hnameless,
    (discovery_suffices _).2 _ hnameless _ _, _, _, p, hdiscover', .bind .refl hbind', hp⟩

end Compile

end FormulaMachine
