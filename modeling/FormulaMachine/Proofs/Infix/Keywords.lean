import FormulaMachine.Proofs.Infix.Arity
import FormulaMachine.Proofs.Postfix.Partition

namespace FormulaMachine

namespace Postfix

namespace Instruction

def readBack (number : Nat) : Instruction → Except Error Instruction
  | .operator name =>
      if name = "READ" ∨ name = "WRITE" then .error (.missingName number name)
      else if name = "CONST" ∨ name = "CAST" then .error (.badInstruction number name)
      else .ok (.operator name)
  | i => .ok i

theorem readBack_eq_ok_iff {i : Instruction} {number : Nat} :
    i.readBack number = .ok i ↔ ∀ name, i = .operator name → name ∉ keywords := by
  cases i with
  | operator name =>
      simp only [readBack, keywords, List.mem_cons, List.not_mem_nil, or_false,
        Instruction.operator.injEq, forall_eq']
      split
      · rename_i h
        simp only [reduceCtorEq, false_iff, not_not]
        tauto
      · rename_i h
        split
        · rename_i h'
          simp only [reduceCtorEq, false_iff, not_not]
          tauto
        · rename_i h'
          simp only [true_iff]
          tauto
  | _ => simp [readBack]

theorem eq_of_readBack {i j : Instruction} {number : Nat} (h : i.readBack number = .ok j) :
    i = j := by
  cases i with
  | operator name =>
      simp only [readBack] at h
      split at h
      · cases h
      split at h
      · cases h
      · exact Except.ok.inj h
  | _ => exact Except.ok.inj h

theorem HasWords.ofLine_text {i : Instruction} (h : i.HasWords) (number : Nat) :
    ofLine number i.text.toList = i.readBack number := by
  by_cases hplain : ∀ name, i = .operator name → name ∉ keywords
  · rw [Plain.ofLine_text ⟨h, hplain⟩, readBack_eq_ok_iff.mpr hplain]
  · push Not at hplain
    obtain ⟨name, rfl, hkeyword⟩ := hplain
    have hline : String.ofList (operator name).text.toList = name := by
      rw [String.ofList_toList]
      simp [text, words]
    unfold ofLine
    rw [h.lineWords_text, hline]
    simp only [words]
    simp only [keywords, List.mem_cons, List.not_mem_nil, or_false] at hkeyword
    rcases hkeyword with rfl | rfl | rfl | rfl <;> rfl

end Instruction

section Text

variable {code : List Instruction} (h : ∀ i ∈ code, i.HasWords)

include h

theorem instructions_text_eq_readBack :
    instructions (text code) = code.mapIdx fun n i => (n + 1, i.readBack (n + 1)) := by
  rw [instructions_text h]
  refine List.ext_getElem (by simp) fun n hn _ => ?_
  have hwords := h _ (List.getElem_mem (by simpa using hn))
  simp [hwords.ofLine_text]

theorem map_snd_instructions_text_iff :
    (instructions (text code)).map Prod.snd = code.map .ok ↔
      ∀ name ∈ keywords, .operator name ∉ code := by
  refine ⟨fun hread name hkeyword hmem => ?_, fun hkeywords => ?_⟩
  · exact (plain_of_instructions_text h hread _ hmem).no_keyword name rfl hkeyword
  · refine map_snd_instructions_text fun i hi => ⟨h i hi, fun name hname hkeyword => ?_⟩
    exact hkeywords name hkeyword (hname ▸ hi)

theorem numberedLines_text :
    numberedLines (text code) = code.mapIdx fun n i => (n + 1, i.text.toList) := by
  rw [numberedLines, lines_text h]
  exact List.ext_getElem (by simp) fun n _ _ => by simp

theorem exists_discover_text_iff :
    (∃ vs, Variables.discover (text code) = .ok vs) ↔ .operator "WRITE" ∉ code := by
  have hnameless (n : Nat) {i : Instruction} (hi : i ∈ code) :
      IsNameless (n, i.text.toList) ↔ i = .operator "WRITE" := by
    rw [IsNameless, (h i hi).lineWords_text]
    rcases i with _ | _ | ⟨_ | _, _⟩ | _ | name <;> simp [Instruction.words]
  constructor
  · rintro ⟨vs, hvs⟩ hmem
    obtain ⟨n, hn, hget⟩ := List.mem_iff_getElem.mp hmem
    have hl : (n + 1, code[n].text.toList) ∈ numberedLines (text code) := by
      rw [numberedLines_text h, List.mem_mapIdx]
      exact ⟨n, hn, rfl⟩
    obtain ⟨before, l, after, hlines, hfirst, hbefore⟩ := Variables.exists_first_nameless
      fun hall => hall _ hl ((hnameless _ (List.getElem_mem hn)).mpr hget)
    rw [Variables.discover_of_nameless hlines hfirst hbefore] at hvs
    cases hvs
  · refine fun hwrite => ⟨_, Variables.discover_of_named fun l hl => ?_⟩
    rw [numberedLines_text h] at hl
    obtain ⟨n, hn, rfl⟩ := List.mem_mapIdx.mp hl
    intro hline
    have hmem := List.getElem_mem hn
    exact hwrite ((hnameless _ hmem).mp hline ▸ hmem)

end Text

end Postfix

namespace Infix

theorem opcode_not_mem_keywords (op : BinaryOp) : op.opcode ∉ Postfix.keywords := by
  cases op <;> decide

mutual

theorem Expr.keyword_mem_code_iff (e : Expr) {name : String} (h : name ∈ Postfix.keywords) :
    .operator name ∈ e.code ↔ ∃ c ∈ e.calls, Text.uppercase c.name = name := by
  cases e with
  | name | number | castNumber => simp [Expr.code, Expr.calls]
  | cast _ e => simp [Expr.code, Expr.calls, e.keyword_mem_code_iff h]
  | signed s e =>
      have hsign : .operator name ∉ s.code := by
        rcases s with _ | _ | _ <;>
          simp only [Sign.code, List.not_mem_nil, List.mem_singleton,
            Postfix.Instruction.operator.injEq, not_false_eq_true]
        all_goals
          rintro rfl
          revert h
          decide
      simp [Expr.code, Expr.calls, e.keyword_mem_code_iff h, hsign]
  | group e => exact e.keyword_mem_code_iff h
  | binary op l r =>
      have hop : name ≠ op.opcode := fun heq => opcode_not_mem_keywords op (heq ▸ h)
      simp [Expr.code, Expr.calls, l.keyword_mem_code_iff h, r.keyword_mem_code_iff h, hop,
        or_and_right, exists_or]
  | call f args =>
      simp [Expr.code, Expr.calls, args.keyword_mem_code_iff h, or_and_right, exists_or, eq_comm]

theorem Args.keyword_mem_code_iff (args : Args) {name : String} (h : name ∈ Postfix.keywords) :
    .operator name ∈ args.code ↔ ∃ c ∈ args.calls, Text.uppercase c.name = name := by
  cases args with
  | last e => exact e.keyword_mem_code_iff h
  | more e rest =>
      simp [Args.code, Args.calls, e.keyword_mem_code_iff h, rest.keyword_mem_code_iff h,
        or_and_right, exists_or]

end

theorem keyword_mem_programCode_iff {as : List Assignment} {name : String}
    (h : name ∈ Postfix.keywords) :
    .operator name ∈ programCode as ↔ ∃ c ∈ callsOf as, Text.uppercase c.name = name := by
  simp only [programCode, callsOf, List.mem_flatMap, Assignment.code, List.mem_append,
    List.mem_singleton, reduceCtorEq, or_false, Expr.keyword_mem_code_iff _ h]
  constructor
  · rintro ⟨a, ha, c, hc, hname⟩
    exact ⟨c, ⟨a, ha, hc⟩, hname⟩
  · rintro ⟨c, ⟨a, ha, hc⟩, hname⟩
    exact ⟨a, ha, c, hc, hname⟩

variable {formula code : String} {as : List Assignment}

theorem reads_back_but_keywords [Lexicon] (hstatements : statements formula = .ok as)
    (hcode : toPostfix formula = .ok code) :
    Postfix.instructions code =
        (programCode as).mapIdx (fun n i => (n + 1, i.readBack (n + 1))) ∧
      ((Postfix.instructions code).map Prod.snd = (programCode as).map .ok ↔
        ∀ c ∈ callsOf as, Text.uppercase c.name ∉ Postfix.keywords) ∧
      ((∃ vs, Variables.discover code = .ok vs) ↔
        ∀ c ∈ callsOf as, Text.uppercase c.name ≠ "WRITE") := by
  obtain ⟨as', has', rfl, hwords⟩ := toPostfix_eq_ok hcode
  obtain rfl : as = as' := Except.ok.inj (hstatements.symm.trans has')
  refine ⟨Postfix.instructions_text_eq_readBack hwords, ?_, ?_⟩
  · rw [Postfix.map_snd_instructions_text_iff hwords]
    constructor
    · intro hall c hc hkeyword
      exact hall _ hkeyword ((keyword_mem_programCode_iff hkeyword).mpr ⟨c, hc, rfl⟩)
    · intro hall name hkeyword hmem
      obtain ⟨c, hc, rfl⟩ := (keyword_mem_programCode_iff hkeyword).mp hmem
      exact hall c hc hkeyword
  · rw [Postfix.exists_discover_text_iff hwords, keyword_mem_programCode_iff (by decide)]
    simp

theorem reads_back_but_keywords_cast :
    ∃ as, statements "WRITE = cast(READ, (CONST) 1);" = .ok as ∧
      toPostfix "WRITE = cast(READ, (CONST) 1);" =
        .ok "READ READ\nCONST CONST 1\nCAST\nWRITE WRITE\n" ∧
      Postfix.instructions "READ READ\nCONST CONST 1\nCAST\nWRITE WRITE\n" =
        [(1, .ok (.read "READ")), (2, .ok (.const (some "CONST") "1")),
          (3, .error (.badInstruction 3 "CAST")), (4, .ok (.write "WRITE"))] ∧
      ∃ vs, Variables.discover "READ READ\nCONST CONST 1\nCAST\nWRITE WRITE\n" = .ok vs := by
  let as : List Assignment :=
    [⟨"WRITE", .call "cast" (.more (.name "READ") (.last (.castNumber "CONST" "1"))),
      .semicolon⟩]
  have hstatements : statements "WRITE = cast(READ, (CONST) 1);" = .ok as := by decide +kernel
  have hcode : toPostfix "WRITE = cast(READ, (CONST) 1);" =
      .ok "READ READ\nCONST CONST 1\nCAST\nWRITE WRITE\n" := by decide +kernel
  have hupper : Text.uppercase "cast" = "CAST" := by decide +kernel
  obtain ⟨hread, -, hdiscover⟩ := reads_back_but_keywords hstatements hcode
  have hcalls : callsOf as = [⟨"cast", 2⟩] := rfl
  have hprogram : programCode as = [.read "READ", .const (some "CONST") "1",
      .operator (Text.uppercase "cast"), .write "WRITE"] := rfl
  rw [hcalls, List.forall_mem_singleton, hupper] at hdiscover
  rw [hprogram, hupper] at hread
  exact ⟨as, hstatements, hcode, hread, hdiscover.mpr (by decide)⟩

theorem discover_call_of_write :
    ∃ as, statements "y = write(a);" = .ok as ∧
      programCode as = [.read "a", .operator "WRITE", .write "y"] ∧
      toPostfix "y = write(a);" = .ok "READ a\nWRITE\nWRITE y\n" ∧
      Variables.discover "READ a\nWRITE\nWRITE y\n" = .error (.missingName 2 "WRITE") ∧
      Postfix.instructions "READ a\nWRITE\nWRITE y\n" =
        [(1, .ok (.read "a")), (2, .error (.missingName 2 "WRITE")), (3, .ok (.write "y"))] := by
  refine ⟨[⟨"y", .call "write" (.last (.name "a")), .semicolon⟩], ?_, ?_, ?_, ?_, ?_⟩ <;>
    decide +kernel

end Infix

end FormulaMachine
