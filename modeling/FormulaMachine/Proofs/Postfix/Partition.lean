import FormulaMachine.Proofs.Compiler.Discovery
import Mathlib.Data.List.Induction

namespace FormulaMachine

section Repetitions

variable {α : Type} [DecidableEq α]

theorem eraseDups_concat (xs : List α) (x : α) :
    (xs ++ [x]).eraseDups = if x ∈ xs then xs.eraseDups else xs.eraseDups ++ [x] := by
  by_cases hx : x ∈ xs
  · simp [List.eraseDups_append, List.removeAll, hx]
  · simp [List.eraseDups_append, List.removeAll, hx, List.eraseDups_cons]

theorem nodup_eraseDups (xs : List α) : xs.eraseDups.Nodup := by
  induction xs using List.reverseRecOn with
  | nil => exact List.nodup_nil
  | append_singleton xs x ih =>
      rw [eraseDups_concat]
      split
      · exact ih
      · rename_i hx
        have hnew : x ∉ xs.eraseDups := fun hmem => hx (List.mem_eraseDups.mp hmem)
        rw [← List.concat_eq_append]
        exact ih.concat hnew

theorem eraseDups_filter (p : α → Bool) (xs : List α) :
    (xs.filter p).eraseDups = xs.eraseDups.filter p := by
  induction xs using List.reverseRecOn with
  | nil => rfl
  | append_singleton xs x ih =>
      rw [List.filter_append, eraseDups_concat]
      by_cases hp : p x
      · rw [List.filter_cons_of_pos hp, List.filter_nil, eraseDups_concat]
        by_cases hx : x ∈ xs
        · rw [if_pos hx, if_pos (List.mem_filter.mpr ⟨hx, hp⟩), ih]
        · rw [if_neg hx, if_neg fun hmem => hx (List.mem_filter.mp hmem).1, ih, List.filter_append,
            List.filter_cons_of_pos hp, List.filter_nil]
      · rw [List.filter_cons_of_neg hp, List.filter_nil, List.append_nil, ih]
        split
        · rfl
        · rw [List.filter_append, List.filter_cons_of_neg hp, List.filter_nil, List.append_nil]

end Repetitions

namespace Postfix

def nameAfter? (word : String) : List String → Option String
  | first :: name :: _ => if first = word then some name else none
  | _ => none

def namesAfter (word : String) (lines : List (Nat × List Char)) : List String :=
  lines.filterMap fun l => nameAfter? word (lineWords l.2)

theorem namesAfter_concat (word : String) (lines : List (Nat × List Char))
    (l : Nat × List Char) :
    namesAfter word (lines ++ [l]) =
      namesAfter word lines ++ (nameAfter? word (lineWords l.2)).toList := by
  rw [namesAfter, List.filterMap_append]
  cases h : nameAfter? word (lineWords l.2) <;> simp [h, namesAfter]

def IsNameless (l : Nat × List Char) : Prop :=
  lineWords l.2 = ["WRITE"]

instance (l : Nat × List Char) : Decidable (IsNameless l) :=
  inferInstanceAs (Decidable (lineWords l.2 = ["WRITE"]))

def written (lines : List (Nat × List Char)) : List String :=
  namesAfter "WRITE" lines

def onlyRead (lines : List (Nat × List Char)) : List String :=
  (namesAfter "READ" lines).filter fun name => name ∉ written lines

end Postfix

namespace Variables

def ofNames (inputs outputs : List String) : Variables :=
  ⟨inputs.map .named, outputs.map .named⟩

section Names

variable (inputs outputs : List String)

theorem any_named (name : String) (names : List String) :
    (names.map Variable.named).any (·.name == name) = decide (name ∈ names) := by
  rw [Bool.eq_iff_iff]
  simp [Variable.named]

theorem find?_named (name : String) (names : List String) :
    (names.map Variable.named).find? (·.name == name) =
      if name ∈ names then some (.named name) else none := by
  induction names with
  | nil => rfl
  | cons first names ih =>
      by_cases hfirst : first = name
      · simp [Variable.named, hfirst]
      · have hbeq : (first == name) = false := by simpa using hfirst
        simp only [List.map_cons, List.find?_cons, ih, List.mem_cons, Ne.symm hfirst, false_or,
          Variable.named, hbeq]

theorem noteRead_ofNames (name : String) : (ofNames inputs outputs).noteRead name =
    if name ∈ outputs ∨ name ∈ inputs then ofNames inputs outputs
    else ofNames (inputs ++ [name]) outputs := by
  simp only [noteRead, get?, ofNames, List.find?_append, find?_named]
  by_cases hout : name ∈ outputs
  · simp [hout]
  · by_cases hin : name ∈ inputs
    · simp [hout, hin]
    · simp [hout, hin]

theorem noteWrite_ofNames (name : String) : (ofNames inputs outputs).noteWrite name =
    if name ∈ outputs then ofNames inputs outputs
    else ofNames (inputs.erase name) (outputs ++ [name]) := by
  have herase : (inputs.map Variable.named).eraseP (·.name == name) =
      (inputs.erase name).map .named := by
    rw [List.erase_eq_eraseP, List.eraseP_map]
    congr 2
    funext other
    exact BEq.comm
  simp only [noteWrite, ofNames, any_named, find?_named, decide_eq_true_eq]
  by_cases hout : name ∈ outputs
  · simp [hout]
  · by_cases hin : name ∈ inputs
    · simp [hout, hin, herase]
    · simp [hout, hin, List.erase_of_not_mem hin]

end Names

def partition (lines : List (Nat × List Char)) : Variables :=
  ofNames (Postfix.onlyRead lines).eraseDups (Postfix.written lines).eraseDups

section Lines

variable {lines : List (Nat × List Char)} {l : Nat × List Char}

theorem partition_read {name : String}
    (hread : Postfix.nameAfter? "READ" (Postfix.lineWords l.2) = some name)
    (hwrite : Postfix.nameAfter? "WRITE" (Postfix.lineWords l.2) = none) :
    (partition lines).noteRead name = partition (lines ++ [l]) := by
  have hwritten : Postfix.written (lines ++ [l]) = Postfix.written lines := by
    rw [Postfix.written, Postfix.namesAfter_concat, hwrite, Option.toList_none, List.append_nil]
    rfl
  have honly : Postfix.onlyRead (lines ++ [l]) = if name ∈ Postfix.written lines
      then Postfix.onlyRead lines else Postfix.onlyRead lines ++ [name] := by
    rw [Postfix.onlyRead, hwritten, Postfix.namesAfter_concat, hread, Option.toList_some,
      List.filter_append]
    split
    · rename_i hmem
      simp [Postfix.onlyRead, hmem]
    · rename_i hmem
      simp [Postfix.onlyRead, hmem]
  rw [partition, noteRead_ofNames, partition, hwritten, honly]
  simp only [List.mem_eraseDups]
  by_cases hmem : name ∈ Postfix.written lines
  · rw [if_pos (.inl hmem), if_pos hmem]
  · rw [if_neg hmem, eraseDups_concat]
    by_cases hin : name ∈ Postfix.onlyRead lines
    · rw [if_pos (.inr hin), if_pos hin]
    · rw [if_neg (not_or.mpr ⟨hmem, hin⟩), if_neg hin]

theorem partition_write {name : String}
    (hread : Postfix.nameAfter? "READ" (Postfix.lineWords l.2) = none)
    (hwrite : Postfix.nameAfter? "WRITE" (Postfix.lineWords l.2) = some name) :
    (partition lines).noteWrite name = partition (lines ++ [l]) := by
  have hwritten : Postfix.written (lines ++ [l]) = Postfix.written lines ++ [name] := by
    rw [Postfix.written, Postfix.namesAfter_concat, hwrite, Option.toList_some]
    rfl
  have honly : Postfix.onlyRead (lines ++ [l]) =
      (Postfix.onlyRead lines).filter fun other => other ≠ name := by
    rw [Postfix.onlyRead, Postfix.namesAfter_concat, hread, Option.toList_none, List.append_nil,
      hwritten, Postfix.onlyRead, List.filter_filter]
    refine List.filter_congr fun other _ => ?_
    rw [Bool.eq_iff_iff]
    simp [and_comm]
  rw [partition, noteWrite_ofNames, partition, hwritten, honly, eraseDups_concat,
    eraseDups_filter]
  simp only [List.mem_eraseDups]
  split
  · rename_i hmem
    -- a name that was written before is not among the inputs
    have hkeep : (Postfix.onlyRead lines).eraseDups.filter (fun other => other ≠ name) =
        (Postfix.onlyRead lines).eraseDups := by
      refine List.filter_eq_self.mpr fun other hother => ?_
      have hnot := (List.mem_filter.mp (List.mem_eraseDups.mp hother)).2
      simp only [decide_eq_true_eq] at hnot ⊢
      rintro rfl
      exact hnot hmem
    rw [hkeep]
  · rw [(nodup_eraseDups _).erase_eq_filter]
    congr 2
    funext other
    simp [bne, Bool.beq_eq_decide_eq]

theorem partition_neither (hread : Postfix.nameAfter? "READ" (Postfix.lineWords l.2) = none)
    (hwrite : Postfix.nameAfter? "WRITE" (Postfix.lineWords l.2) = none) :
    partition lines = partition (lines ++ [l]) := by
  have hsame {word : String} (h : Postfix.nameAfter? word (Postfix.lineWords l.2) = none) :
      Postfix.namesAfter word (lines ++ [l]) = Postfix.namesAfter word lines := by
    rw [Postfix.namesAfter_concat, h, Option.toList_none, List.append_nil]
  rw [partition, partition, Postfix.onlyRead, Postfix.onlyRead, Postfix.written, Postfix.written,
    hsame hread, hsame hwrite]

theorem noteLine_partition (h : ¬ Postfix.IsNameless l) :
    (partition lines).noteLine l.1 (Postfix.lineWords l.2) = .ok (partition (lines ++ [l])) := by
  unfold noteLine
  split
  · rename_i name rest hwords
    have hread : Postfix.nameAfter? "READ" (Postfix.lineWords l.2) = some name := by
      rw [hwords]
      rfl
    rw [partition_read hread (by rw [hwords]; rfl)]
  · rename_i name rest hwords
    have hwrite : Postfix.nameAfter? "WRITE" (Postfix.lineWords l.2) = some name := by
      rw [hwords]
      rfl
    rw [partition_write (by rw [hwords]; rfl) hwrite]
  · rename_i hwords
    exact absurd hwords h
  · rename_i hread hwrite _
    have hneither (word : String)
        (hword : ∀ name rest, Postfix.lineWords l.2 ≠ word :: name :: rest) :
        Postfix.nameAfter? word (Postfix.lineWords l.2) = none := by
      unfold Postfix.nameAfter?
      split
      · rename_i first name rest hwords
        rw [if_neg]
        rintro rfl
        exact hword name rest hwords
      · rfl
    rw [partition_neither (hneither "READ" hread) (hneither "WRITE" hwrite)]

theorem foldlM_noteLine {rest : List (Nat × List Char)} (h : ∀ l ∈ rest, ¬ Postfix.IsNameless l) :
    rest.foldlM (fun vs l => vs.noteLine l.1 (Postfix.lineWords l.2)) (partition lines) =
      .ok (partition (lines ++ rest)) := by
  induction rest generalizing lines with
  | nil => rw [List.append_nil]; rfl
  | cons l rest ih =>
      obtain ⟨hl, hrest⟩ := List.forall_mem_cons.mp h
      rw [List.foldlM_cons, bind_of_ok (noteLine_partition hl), ih hrest, List.append_assoc]
      rfl

theorem foldlM_noteLine_empty (h : ∀ l ∈ lines, ¬ Postfix.IsNameless l) :
    lines.foldlM (fun vs l => vs.noteLine l.1 (Postfix.lineWords l.2)) empty =
      .ok (partition lines) := by
  have hempty : empty = partition [] := rfl
  rw [hempty]
  exact foldlM_noteLine h

end Lines

theorem discover_of_named {text : String}
    (h : ∀ l ∈ Postfix.numberedLines text, ¬ Postfix.IsNameless l) :
    discover text = .ok (partition (Postfix.numberedLines text)) :=
  foldlM_noteLine_empty h

theorem discover_of_nameless {text : String} {before after : List (Nat × List Char)}
    {l : Nat × List Char} (hlines : Postfix.numberedLines text = before ++ l :: after)
    (hl : Postfix.IsNameless l) (hbefore : ∀ m ∈ before, ¬ Postfix.IsNameless m) :
    discover text = .error (.missingName l.1 "WRITE") := by
  have hfirst : (partition before).noteLine l.1 (Postfix.lineWords l.2) =
      .error (.missingName l.1 "WRITE") := by
    rw [show Postfix.lineWords l.2 = ["WRITE"] from hl]
    rfl
  have hstart := foldlM_noteLine_empty hbefore
  rw [discover, hlines, List.foldlM_append]
  refine (bind_of_ok hstart).trans ?_
  rw [List.foldlM_cons, hfirst]
  rfl

theorem exists_first_nameless {lines : List (Nat × List Char)}
    (h : ¬ ∀ l ∈ lines, ¬ Postfix.IsNameless l) :
    ∃ before l after, lines = before ++ l :: after ∧ Postfix.IsNameless l ∧
      ∀ m ∈ before, ¬ Postfix.IsNameless m := by
  have hsome : (lines.find? fun l => Postfix.IsNameless l).isSome := by
    simpa [List.find?_isSome] using h
  obtain ⟨l, hl⟩ := Option.isSome_iff_exists.mp hsome
  obtain ⟨hnameless, before, after, hlines, hbefore⟩ := List.find?_eq_some_iff_append.mp hl
  exact ⟨before, l, after, hlines, by simpa using hnameless, by simpa using hbefore⟩

theorem nodup_partition (lines : List (Nat × List Char)) : (partition lines).names.Nodup := by
  have hnames (names : List String) : (names.map Variable.named).map Variable.name = names := by
    rw [List.map_map]
    exact List.map_id names
  rw [names_eq_append, partition, ofNames, outputNames, inputNames, hnames, hnames]
  refine List.nodup_append.mpr ⟨nodup_eraseDups _, nodup_eraseDups _, fun name hout other hin => ?_⟩
  have hnot := (List.mem_filter.mp (List.mem_eraseDups.mp hin)).2
  rintro rfl
  exact (of_decide_eq_true hnot) (List.mem_eraseDups.mp hout)

theorem discover_partitions (text : String) :
    (∀ vs, discover text = .ok vs ↔
      (∀ l ∈ Postfix.numberedLines text, ¬ Postfix.IsNameless l) ∧
        vs = ofNames (Postfix.onlyRead (Postfix.numberedLines text)).eraseDups
          (Postfix.written (Postfix.numberedLines text)).eraseDups) ∧
      (∀ vs, discover text = .ok vs → vs.names.Nodup) ∧
      ∀ e, discover text = .error e ↔ ∃ before l after,
        Postfix.numberedLines text = before ++ l :: after ∧ Postfix.IsNameless l ∧
          (∀ m ∈ before, ¬ Postfix.IsNameless m) ∧ e = .missingName l.1 "WRITE" := by
  by_cases hnamed : ∀ l ∈ Postfix.numberedLines text, ¬ Postfix.IsNameless l
  · rw [discover_of_named hnamed]
    refine ⟨fun vs => ⟨fun h => ⟨hnamed, (Except.ok.inj h).symm⟩, fun h => ?_⟩, fun vs h => ?_,
      fun e => ⟨nofun, ?_⟩⟩
    · rw [h.2]
      rfl
    · obtain rfl := Except.ok.inj h
      exact nodup_partition _
    · rintro ⟨before, l, after, hlines, hl, -, -⟩
      exact absurd hl (hnamed l (hlines ▸ List.mem_append_right _ List.mem_cons_self))
  · obtain ⟨before, l, after, hlines, hl, hbefore⟩ := exists_first_nameless hnamed
    have hfails := discover_of_nameless hlines hl hbefore
    refine ⟨fun vs => ⟨fun h => ?_, fun h => absurd h.1 hnamed⟩, fun vs h => ?_,
      fun e => ⟨fun h => ?_, ?_⟩⟩
    · rw [hfails] at h
      cases h
    · rw [hfails] at h
      cases h
    · rw [hfails] at h
      exact ⟨before, l, after, hlines, hl, hbefore, (Except.error.inj h).symm⟩
    · rintro ⟨before', l', after', hlines', hl', hbefore', rfl⟩
      exact discover_of_nameless hlines' hl' hbefore'

theorem discover_partitions_read_first :
    discover "READ A\nREAD b\nSUM\nWRITE ret\nREAD ret\nWRITE C\nREAD A\nWRITE A\n" =
        .ok (ofNames ["b"] ["ret", "C", "A"]) ∧
      discover "READ A\n\n WRITE \nWRITE" = .error (.missingName 3 "WRITE") := by
  have hlines : Postfix.numberedLines
      "READ A\nREAD b\nSUM\nWRITE ret\nREAD ret\nWRITE C\nREAD A\nWRITE A\n" =
        [(1, "READ A".toList), (2, "READ b".toList), (3, "SUM".toList), (4, "WRITE ret".toList),
          (5, "READ ret".toList), (6, "WRITE C".toList), (7, "READ A".toList),
          (8, "WRITE A".toList)] := by decide +kernel
  have hnameless : Postfix.numberedLines "READ A\n\n WRITE \nWRITE" =
      [(1, "READ A".toList), (2, []), (3, " WRITE ".toList), (4, "WRITE".toList)] := by
    decide +kernel
  refine ⟨((discover_partitions _).1 _).mpr ?_, ((discover_partitions _).2.2 _).mpr ?_⟩
  · rw [hlines]
    exact ⟨by decide +kernel, by decide +kernel⟩
  · exact ⟨[(1, "READ A".toList), (2, [])], (3, " WRITE ".toList), [(4, "WRITE".toList)], hnameless,
      by decide +kernel, by decide +kernel, rfl⟩

end Variables

end FormulaMachine
