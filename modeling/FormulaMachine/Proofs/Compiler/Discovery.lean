import FormulaMachine.Proofs.Compiler.Names
import FormulaMachine.Proofs.Postfix.Reading
import Mathlib.Data.List.Induction

namespace FormulaMachine

namespace Postfix

namespace Instruction

def isAccess : Instruction → Bool
  | .read _ | .write _ => true
  | _ => false

end Instruction

def accesses (lines : List (Nat × Except Error Instruction)) : List Instruction :=
  (lines.filterMap fun l => l.2.toOption).filter Instruction.isAccess

theorem accesses_cons {l : Nat × Except Error Instruction} {i : Instruction} (h : l.2 = .ok i)
    (lines : List (Nat × Except Error Instruction)) :
    accesses (l :: lines) = if i.isAccess then i :: accesses lines else accesses lines := by
  have hsome : l.2.toOption = some i := by rw [h]; rfl
  rw [accesses, List.filterMap_cons, hsome, List.filter_cons]
  rfl

theorem accesses_eq {lines : List (Nat × Except Error Instruction)} {code : List Instruction}
    (h : lines.map Prod.snd = code.map .ok) :
    accesses lines = code.filter Instruction.isAccess := by
  induction lines generalizing code with
  | nil =>
      obtain rfl : code = [] := List.map_eq_nil_iff.mp h.symm
      rfl
  | cons l lines ih =>
      obtain ⟨i, code, rfl, hi, h⟩ := List.map_eq_cons_iff.mp h.symm
      rw [accesses_cons hi.symm, ih h.symm, List.filter_cons]

def ReadsKnown (known : Set String) (code : List Instruction) : Prop :=
  ∀ before name after, code = before ++ .read name :: after →
    name ∈ known ∨ .write name ∈ before

def knownAfter (known : Set String) (code : List Instruction) : Set String :=
  known ∪ {name | .write name ∈ code}

section Known

variable {known known' : Set String} {i : Instruction} {code : List Instruction}

theorem subset_knownAfter (known : Set String) (code : List Instruction) :
    known ⊆ knownAfter known code :=
  Set.subset_union_left

theorem knownAfter_cons_subset (known : Set String) (i : Instruction) (code : List Instruction) :
    knownAfter known (i :: code) ⊆ knownAfter (knownAfter known [i]) code := by
  rintro name (hname | hmem)
  · exact .inl (.inl hname)
  · rcases List.mem_cons.mp hmem with heq | hmem
    · exact .inl (.inr (List.mem_singleton.mpr heq))
    · exact .inr hmem

theorem knownAfter_of_ne_write (known : Set String) (hi : ∀ name, i ≠ .write name) :
    knownAfter known [i] = known :=
  Set.union_eq_self_of_subset_right fun name hmem =>
    absurd (List.mem_singleton.mp hmem).symm (hi name)

theorem knownAfter_write (known : Set String) (name : String) :
    knownAfter known [.write name] = insert name known := by
  have hwritten : {other | Instruction.write other ∈ [Instruction.write name]} = {name} := by
    ext other
    simp
  rw [knownAfter, hwritten, Set.union_singleton]

theorem ReadsKnown.mono (h : ReadsKnown known code) (hknown : known ⊆ known') :
    ReadsKnown known' code :=
  fun before name after hcode => (h before name after hcode).imp_left fun hmem => hknown hmem

theorem ReadsKnown.cons (h : ReadsKnown known (i :: code)) :
    (∀ name, i = .read name → name ∈ known) ∧ ReadsKnown (knownAfter known [i]) code := by
  refine ⟨fun name heq => ?_, fun before name after hcode => ?_⟩
  · exact (h [] name code (by rw [heq]; rfl)).resolve_right List.not_mem_nil
  · rcases h (i :: before) name after (by rw [hcode]; rfl) with hname | hmem
    · exact .inl (.inl hname)
    · rcases List.mem_cons.mp hmem with heq | hmem
      · exact .inl (.inr (List.mem_singleton.mpr heq))
      · exact .inr hmem

theorem ReadsKnown.of_line {l : Nat × Except Error Instruction}
    {lines : List (Nat × Except Error Instruction)} (h : ReadsKnown known (accesses (l :: lines)))
    (hi : l.2 = .ok i) : (∀ name, i = .read name → name ∈ known) ∧
      ReadsKnown (knownAfter known [i]) (accesses lines) ∧
      knownAfter known (accesses (l :: lines)) ⊆
        knownAfter (knownAfter known [i]) (accesses lines) := by
  rw [accesses_cons hi] at h ⊢
  by_cases haccess : i.isAccess
  · rw [if_pos haccess] at h ⊢
    exact ⟨h.cons.1, h.cons.2, knownAfter_cons_subset known i _⟩
  · rw [if_neg haccess] at h ⊢
    refine ⟨fun name heq => ?_, h.mono (subset_knownAfter _ _),
      Set.union_subset_union_left _ (subset_knownAfter _ _)⟩
    rw [heq] at haccess
    exact absurd rfl haccess

end Known

def WritesFirst (code : List Instruction) : Prop :=
  ∀ before name after, code = before ++ .read name :: after → .write name ∈ code →
    .write name ∈ before

end Postfix

namespace Variables

variable {vs ws : Variables}

def inputNames (vs : Variables) : List String :=
  vs.inputs.map Variable.name

def outputNames (vs : Variables) : List String :=
  vs.outputs.map Variable.name

theorem names_eq_append (vs : Variables) : vs.names = vs.outputNames ++ vs.inputNames := by
  rw [names, List.map_append]
  rfl

theorem mem_names_of_get? {name : String} {v : Variable} (h : vs.get? name = some v) :
    name ∈ vs.names :=
  List.mem_map.mpr ⟨v, List.mem_of_find?_eq_some h, name_of_get? h⟩

def SameNames (vs ws : Variables) : Prop :=
  ws.inputNames = vs.inputNames ∧ ws.outputNames = vs.outputNames

theorem SameNames.trans {us : Variables} (h : vs.SameNames ws) (h' : ws.SameNames us) :
    vs.SameNames us :=
  ⟨h'.1.trans h.1, h'.2.trans h.2⟩

theorem sameNames_set (vs : Variables) (v : Variable) : vs.SameNames (vs.set v) := by
  unfold set
  split
  · exact ⟨rfl, names_replace v vs.outputs⟩
  · exact ⟨names_replace v vs.inputs, rfl⟩

theorem Bound.sameNames (h : vs.Bound ws) : vs.SameNames ws := by
  induction h with
  | refl => exact ⟨rfl, rfl⟩
  | bind _ hbind ih =>
      obtain ⟨v, w, -, -, rfl⟩ := bind_eq_ok hbind
      exact ih.trans (sameNames_set _ w)

def note (vs : Variables) : Postfix.Instruction → Variables
  | .read name => vs.noteRead name
  | .write name => vs.noteWrite name
  | _ => vs

theorem noteLine_eq {number : Nat} {l : List Char} {i : Postfix.Instruction}
    (h : Postfix.Instruction.ofLine number l = .ok i) (vs : Variables) :
    vs.noteLine number (Postfix.lineWords l) = .ok (vs.note i) := by
  obtain ⟨hwords, hkeyword⟩ := Postfix.Instruction.ofLine_eq_ok h
  rw [hwords]
  cases i with
  | const typeName literal => cases typeName <;> rfl
  | operator name =>
      have hwrite : name ≠ "WRITE" := by
        rintro rfl
        exact hkeyword _ rfl (by decide)
      unfold noteLine
      simp only [Postfix.Instruction.words]
      split
      · rename_i heq
        cases heq
      · rename_i heq
        cases heq
      · rename_i heq
        exact absurd (List.cons.inj heq).1 hwrite
      · rfl
  | _ => rfl

theorem discover_eq {text : String} {code : List Postfix.Instruction}
    (h : (Postfix.instructions text).map Prod.snd = code.map .ok) :
    discover text = .ok (code.foldl note empty) := by
  rw [discover]
  rw [Postfix.instructions, List.map_map] at h
  generalize Postfix.numberedLines text = lines at h
  generalize empty = vs
  induction lines generalizing code vs with
  | nil =>
      obtain rfl : code = [] := List.map_eq_nil_iff.mp h.symm
      rfl
  | cons l lines ih =>
      rw [List.foldlM_cons]
      by_cases hblank : Postfix.isBlankLine l.2
      · have hwords : Postfix.lineWords l.2 = [] := by
          rw [Postfix.lineWords, Text.words_eq_nil_of_all_isBlank hblank]
          rfl
        rw [List.filter_cons_of_neg (by simpa using hblank)] at h
        rw [hwords]
        exact ih h vs
      · rw [List.filter_cons_of_pos (by simpa using hblank), List.map_cons] at h
        obtain ⟨i, code, rfl, hi, h⟩ := List.map_eq_cons_iff.mp h.symm
        rw [noteLine_eq hi.symm]
        exact ih h.symm (vs.note i)

structure Notes (code : List Postfix.Instruction) (vs : Variables) : Prop where
  nodup : vs.names.Nodup
  outputs : ∀ name, name ∈ vs.outputNames ↔ .write name ∈ code
  inputs : ∀ name, name ∈ vs.inputNames ↔ .read name ∈ code ∧ .write name ∉ code

namespace Notes

variable {code : List Postfix.Instruction}

theorem mem_names (h : Notes code vs) (name : String) :
    name ∈ vs.names ↔ .read name ∈ code ∨ .write name ∈ code := by
  rw [names_eq_append, List.mem_append, h.outputs, h.inputs]
  tauto

theorem noteRead (h : Notes code vs) (name : String) :
    Notes (code ++ [.read name]) (vs.noteRead name) := by
  have hwrites (other : String) :
      .write other ∈ code ++ [.read name] ↔ Postfix.Instruction.write other ∈ code := by simp
  have hreads (other : String) : .read other ∈ code ++ [.read name] ↔
      Postfix.Instruction.read other ∈ code ∨ other = name := by simp
  refine ⟨nodup_noteRead h.nodup name, fun other => ?_, fun other => ?_⟩
  · rw [hwrites, ← h.outputs]
    unfold Variables.noteRead
    split <;> rfl
  · rw [hwrites, hreads]
    unfold Variables.noteRead
    split
    · rename_i v hv
      have hmem := (h.mem_names name).mp (mem_names_of_get? hv)
      rw [h.inputs]
      refine ⟨fun hin => ⟨.inl hin.1, hin.2⟩, fun ⟨hread, hwrite⟩ => ⟨?_, hwrite⟩⟩
      rcases hread with hread | rfl
      · exact hread
      · exact hmem.resolve_right hwrite
    · rename_i hnone
      have hnew := (h.mem_names name).not.mp (not_mem_names hnone)
      have hinputs : ({ vs with inputs := vs.inputs ++ [.named name] } : Variables).inputNames =
          vs.inputNames ++ [name] := by simp [inputNames, Variable.named]
      rw [hinputs, List.mem_append, List.mem_singleton, h.inputs]
      refine ⟨?_, fun ⟨hread, hwrite⟩ => hread.imp (fun hread => ⟨hread, hwrite⟩) id⟩
      rintro (⟨hread, hwrite⟩ | rfl)
      · exact ⟨.inl hread, hwrite⟩
      · exact ⟨.inr rfl, fun hwrite => hnew (.inr hwrite)⟩

theorem names_noteWrite (h : Notes code vs) (name : String) :
    (∀ other, other ∈ (vs.noteWrite name).outputNames ↔
        other ∈ vs.outputNames ∨ other = name) ∧
      ∀ other, other ∈ (vs.noteWrite name).inputNames ↔
        other ∈ vs.inputNames ∧ other ≠ name := by
  have hnodup : vs.inputNames.Nodup := by
    have hnames := h.nodup
    rw [names_eq_append] at hnames
    exact hnames.of_append_right
  unfold Variables.noteWrite
  split
  · rename_i hout
    have hmem : name ∈ vs.outputNames := by simpa [outputNames] using hout
    have hwrite := (h.outputs name).mp hmem
    refine ⟨fun other => ⟨.inl, ?_⟩, fun other => ⟨fun hin => ⟨hin, ?_⟩, And.left⟩⟩
    · rintro (hother | rfl)
      · exact hother
      · exact hmem
    · rintro rfl
      exact ((h.inputs other).mp hin).2 hwrite
  · split
    · rename_i v hv
      have hname : v.name = name := by simpa using List.find?_some hv
      have herase : (vs.inputs.eraseP (·.name == name)).map Variable.name =
          vs.inputNames.erase name := by
        rw [inputNames, List.erase_eq_eraseP, List.eraseP_map]
        congr 2
        funext w
        exact BEq.comm
      refine ⟨fun other => ?_, fun other => ?_⟩
      · simp [outputNames, hname]
      · change other ∈ (vs.inputs.eraseP (·.name == name)).map Variable.name ↔ _
        rw [herase, hnodup.mem_erase_iff, and_comm]
    · rename_i hin
      have hnot : name ∉ vs.inputNames := by
        simpa [inputNames, List.find?_eq_none] using hin
      refine ⟨fun other => by simp [outputNames, Variable.named], fun other => ?_⟩
      refine ⟨fun hother => ⟨hother, ?_⟩, And.left⟩
      rintro rfl
      exact hnot hother

theorem noteWrite (h : Notes code vs) (name : String) :
    Notes (code ++ [.write name]) (vs.noteWrite name) := by
  have hwrites (other : String) : .write other ∈ code ++ [.write name] ↔
      Postfix.Instruction.write other ∈ code ∨ other = name := by simp
  have hreads (other : String) :
      .read other ∈ code ++ [.write name] ↔ Postfix.Instruction.read other ∈ code := by simp
  obtain ⟨houtputs, hinputs⟩ := h.names_noteWrite name
  refine ⟨nodup_noteWrite h.nodup name, fun other => ?_, fun other => ?_⟩
  · rw [houtputs, hwrites, h.outputs]
  · rw [hinputs, hwrites, hreads, h.inputs]
    tauto

theorem note (h : Notes code vs) (i : Postfix.Instruction) : Notes (code ++ [i]) (vs.note i) := by
  have hskip (hread : ∀ name, i ≠ .read name) (hwrite : ∀ name, i ≠ .write name) :
      Notes (code ++ [i]) vs := by
    have hmem {j : Postfix.Instruction} (hj : j ≠ i) : j ∈ code ++ [i] ↔ j ∈ code := by simp [hj]
    refine ⟨h.nodup, fun name => ?_, fun name => ?_⟩
    · rw [hmem (hwrite name).symm, h.outputs]
    · rw [hmem (hwrite name).symm, hmem (hread name).symm, h.inputs]
  cases i with
  | read name => exact h.noteRead name
  | write name => exact h.noteWrite name
  | const typeName literal => exact hskip (by simp) (by simp)
  | cast typeName => exact hskip (by simp) (by simp)
  | operator name => exact hskip (by simp) (by simp)

end Notes

theorem notes_foldl (code : List Postfix.Instruction) : Notes code (code.foldl note empty) := by
  induction code using List.reverseRecOn with
  | nil => exact ⟨List.nodup_nil, fun name => by simp [outputNames, empty],
      fun name => by simp [inputNames, empty]⟩
  | append_singleton code i ih =>
      rw [List.foldl_append]
      exact ih.note i

end Variables

theorem Layout.Grows.sameNames {y y' : Layout} (h : y.Grows y') : y.vars.SameNames y'.vars := by
  induction h with
  | refl => exact ⟨rfl, rfl⟩
  | tail _ hmove ih =>
      refine ih.trans ?_
      rcases hmove.vars_cases with hvars | ⟨v, w, -, hvars, -⟩
      · rw [hvars]
        exact ⟨rfl, rfl⟩
      · rw [hvars]
        exact Variables.sameNames_set _ w

namespace Program

variable {p : Program} {text : String} {vs₀ vs : Variables} {o : CompileOptions}

theorem names_of_compile (hdiscover : Variables.discover text = .ok vs₀) (hbound : vs₀.Bound vs)
    (h : compile text vs o = .ok p) :
    (∀ name, name ∈ p.vars.outputNames ↔
        .write name ∈ Postfix.accesses (Postfix.instructions text)) ∧
      ∀ name, name ∈ p.vars.inputNames ↔
        .read name ∈ Postfix.accesses (Postfix.instructions text) ∧
          .write name ∉ Postfix.accesses (Postfix.instructions text) := by
  obtain ⟨d, hd, -⟩ := compile_eq_ok h
  obtain ⟨code, hcode⟩ := Draft.lines_read hd
  obtain ⟨hinputs, houtputs⟩ := hbound.sameNames.trans (grows_of_compile h).sameNames
  obtain rfl := Except.ok.inj ((Variables.discover_eq hcode).symm.trans hdiscover)
  have hnotes := Variables.notes_foldl code
  have hinputs : p.vars.inputNames = _ := hinputs
  have houtputs : p.vars.outputNames = _ := houtputs
  rw [hinputs, houtputs, Postfix.accesses_eq hcode]
  simp only [List.mem_filter, Postfix.Instruction.isAccess, and_true]
  exact ⟨hnotes.outputs, hnotes.inputs⟩

theorem inputs_suffice (hdiscover : Variables.discover text = .ok vs₀) (hbound : vs₀.Bound vs)
    (h : compile text vs o = .ok p)
    (hfirst : Postfix.WritesFirst (Postfix.accesses (Postfix.instructions text))) :
    Postfix.ReadsKnown {name | name ∈ p.vars.inputNames}
        (Postfix.accesses (Postfix.instructions text)) ∧
      ∀ name w, p.vars.get? name = some w → name ∈ Postfix.knownAfter
        {name | name ∈ p.vars.inputNames} (Postfix.accesses (Postfix.instructions text)) := by
  obtain ⟨houtputs, hinputs⟩ := names_of_compile hdiscover hbound h
  refine ⟨fun before name after hcode => ?_, fun name w hw => ?_⟩
  · by_cases hwrite : .write name ∈ Postfix.accesses (Postfix.instructions text)
    · exact .inr (hfirst before name after hcode hwrite)
    · refine .inl ((hinputs name).mpr ⟨?_, hwrite⟩)
      rw [hcode]
      exact List.mem_append_right _ List.mem_cons_self
  · have hname := Variables.mem_names_of_get? hw
    rw [Variables.names_eq_append, List.mem_append] at hname
    exact hname.symm.imp_right (houtputs name).mp

end Program

end FormulaMachine
