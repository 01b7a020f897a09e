import FormulaMachine.Postfix.Reader
import FormulaMachine.Proofs.Text.Words
import Mathlib.Data.List.Forall2

namespace FormulaMachine.Postfix

def normalized (text : String) : String :=
  String.join (((Text.lines text.toList).filter (!isBlankLine ·)).map fun l =>
    " ".intercalate (lineWords l) ++ "\n")

namespace Instruction

def HasWords (i : Instruction) : Prop :=
  ∀ w ∈ i.words, Text.IsWord w.toList

structure Plain (i : Instruction) : Prop where
  words : i.HasWords
  no_keyword : ∀ name, i = .operator name → name ∉ keywords

theorem ofLine_eq_ok {number : Nat} {l : List Char} {i : Instruction}
    (h : ofLine number l = .ok i) :
    lineWords l = i.words ∧ ∀ name, i = .operator name → name ∉ keywords := by
  unfold ofLine at h
  split at h
  case h_8 name _ _ hwords =>
    split at h
    · cases h
    · rename_i hkeyword
      obtain rfl := Except.ok.inj h
      refine ⟨hwords, fun name' heq => ?_⟩
      obtain rfl := Instruction.operator.inj heq
      simpa using hkeyword
  -- the other lines are errors, or instructions that are no operators
  all_goals cases h
  all_goals exact ⟨by assumption, fun _ heq => by cases heq⟩

theorem isWord_of_mem_lineWords {l : List Char} {w : String} (h : w ∈ lineWords l) :
    Text.IsWord w.toList := by
  obtain ⟨cs, hcs, rfl⟩ := List.mem_map.mp h
  rw [String.toList_ofList]
  exact Text.isWord_of_mem_words hcs

theorem plain_of_ofLine {number : Nat} {l : List Char} {i : Instruction}
    (h : ofLine number l = .ok i) : i.Plain := by
  obtain ⟨hwords, hkeyword⟩ := ofLine_eq_ok h
  refine ⟨fun w hw => ?_, hkeyword⟩
  rw [← hwords] at hw
  exact isWord_of_mem_lineWords hw

theorem words_ne_nil (i : Instruction) : i.words ≠ [] := by
  rcases i with _ | _ | ⟨_ | _, _⟩ | _ | _ <;> simp [words]

section HasWords

variable {i : Instruction} (h : i.HasWords)

include h

theorem HasWords.forall_toList : ∀ w ∈ i.words.map String.toList, Text.IsWord w := by
  intro w hw
  obtain ⟨s, hs, rfl⟩ := List.mem_map.mp hw
  exact h s hs

theorem HasWords.lineWords_text : lineWords i.text.toList = i.words := by
  have hspace : " ".toList = [' '] := rfl
  rw [lineWords, text, String.toList_intercalate, hspace, Text.words_intercalate h.forall_toList,
    List.map_map]
  simp

theorem HasWords.isLine_text : Text.IsLine i.text.toList := by
  rw [text, String.toList_intercalate]
  exact Text.isLine_intercalate h.forall_toList

theorem HasWords.not_isBlankLine : isBlankLine i.text.toList = false := by
  rw [← Bool.not_eq_true]
  intro hblank
  have hnil := h.lineWords_text
  rw [lineWords, Text.words_eq_nil_of_all_isBlank hblank] at hnil
  exact i.words_ne_nil hnil.symm

end HasWords

theorem Plain.ofLine_text {i : Instruction} (h : i.Plain) (number : Nat) :
    ofLine number i.text.toList = .ok i := by
  unfold ofLine
  rw [h.words.lineWords_text]
  rcases i with _ | _ | ⟨_ | _, _⟩ | _ | name
  case operator =>
    have hkeyword : name ∉ keywords := h.no_keyword name rfl
    split
    case h_8 =>
      rename_i heq
      obtain rfl := List.singleton_inj.mp heq
      rw [if_neg (by simpa using hkeyword)]
    all_goals simp_all [keywords, Instruction.words]
  all_goals rfl

theorem HasWords.ofLine_text_of_keyword {name : String} (h : (operator name).HasWords)
    (hkeyword : name ∈ keywords) (number : Nat) :
    ∃ e, ofLine number (operator name).text.toList = .error e := by
  unfold ofLine
  rw [h.lineWords_text]
  simp only [words]
  simp only [keywords, List.mem_cons, List.not_mem_nil, or_false] at hkeyword
  rcases hkeyword with rfl | rfl | rfl | rfl <;> exact ⟨_, rfl⟩

end Instruction

section Text

variable {code : List Instruction} (h : ∀ i ∈ code, i.HasWords)

include h

theorem lines_text : Text.lines (text code).toList = code.map fun i => i.text.toList := by
  have hlist : (text code).toList = (code.map fun i => i.text.toList).flatMap (· ++ ['\n']) := by
    rw [text, String.toList_join, List.flatMap_map, List.flatMap_map]
    simp
  rw [hlist]
  refine Text.lines_flatMap fun l hl => ?_
  obtain ⟨i, hi, rfl⟩ := List.mem_map.mp hl
  exact (h i hi).isLine_text

theorem normalized_text : normalized (text code) = text code := by
  have hkept : (code.map fun i => i.text.toList).filter (!isBlankLine ·) =
      code.map fun i => i.text.toList := by
    refine List.filter_eq_self.mpr fun l hl => ?_
    obtain ⟨i, hi, rfl⟩ := List.mem_map.mp hl
    rw [(h i hi).not_isBlankLine]
    rfl
  rw [normalized, lines_text h, hkept, List.map_map, text]
  refine congrArg _ (List.map_congr_left fun i hi => ?_)
  simp only [Function.comp_apply, (h i hi).lineWords_text]
  rfl

theorem instructions_text :
    instructions (text code) =
      code.mapIdx fun n i => (n + 1, Instruction.ofLine (n + 1) i.text.toList) := by
  have hkept : ((code.map fun i => i.text.toList).mapIdx fun n l => (n + 1, l)).filter
      (fun l => !isBlankLine l.2) =
        (code.map fun i => i.text.toList).mapIdx fun n l => (n + 1, l) := by
    refine List.filter_eq_self.mpr fun l hl => ?_
    obtain ⟨n, hn, rfl⟩ := List.mem_mapIdx.mp hl
    rw [List.length_map] at hn
    simp [(h code[n] (List.getElem_mem hn)).not_isBlankLine]
  rw [instructions, numberedLines, lines_text h, hkept]
  exact List.ext_getElem (by simp) fun n _ _ => by simp

end Text

theorem instructions_line_feeds (n : Nat) (text : String) :
    instructions (String.ofList (List.replicate n '\n' ++ text.toList)) =
      ((numberedLines text).filter fun l => !isBlankLine l.2).map fun l =>
        (n + l.1, Instruction.ofLine (n + l.1) l.2) := by
  have hlines : numberedLines (String.ofList (List.replicate n '\n' ++ text.toList)) =
      ((List.replicate n []).mapIdx fun i l => (i + 1, l)) ++
        (numberedLines text).map fun l => (n + l.1, l.2) := by
    rw [numberedLines, String.toList_ofList, Text.lines_line_feeds, List.mapIdx_append,
      List.length_replicate, numberedLines]
    refine congrArg _ (List.ext_getElem (by simp) fun i _ _ => ?_)
    rw [List.getElem_mapIdx, List.getElem_map, List.getElem_mapIdx, Nat.add_comm i n, Nat.add_assoc]
  have hblank : ((List.replicate n []).mapIdx fun i (l : List Char) => (i + 1, l)).filter
      (fun l => !isBlankLine l.2) = [] := by
    refine List.filter_eq_nil_iff.mpr fun l hl => ?_
    obtain ⟨i, hi, rfl⟩ := List.mem_mapIdx.mp hl
    simp [isBlankLine]
  rw [instructions, hlines, List.filter_append, hblank, List.nil_append, List.filter_map,
    List.map_map]
  rfl

theorem instructions_text_of_plain {code : List Instruction} (h : ∀ i ∈ code, i.Plain) :
    instructions (text code) = code.mapIdx fun n i => (n + 1, .ok i) := by
  rw [instructions_text fun i hi => (h i hi).words]
  refine List.ext_getElem (by simp) fun n hn _ => ?_
  have hplain := h _ (List.getElem_mem (by simpa using hn))
  simp [hplain.ofLine_text]

theorem plain_of_instructions_text {code read : List Instruction} (h : ∀ i ∈ code, i.HasWords)
    (hread : (instructions (text code)).map Prod.snd = read.map .ok) : ∀ i ∈ code, i.Plain := by
  intro i hi
  refine ⟨h i hi, fun name hname hkeyword => ?_⟩
  subst hname
  obtain ⟨n, hn, hget⟩ := List.mem_iff_getElem.mp hi
  have hmem : (n + 1, Instruction.ofLine (n + 1) (Instruction.operator name).text.toList) ∈
      instructions (text code) := by
    rw [instructions_text h, List.mem_mapIdx]
    exact ⟨n, hn, by rw [hget]⟩
  obtain ⟨e, he⟩ := (h _ hi).ofLine_text_of_keyword hkeyword (n + 1)
  have hsnd := List.mem_map_of_mem (f := Prod.snd) hmem
  rw [hread, he] at hsnd
  obtain ⟨i, -, hi⟩ := List.mem_map.mp hsnd
  cases hi

theorem map_snd_instructions_text {code : List Instruction} (h : ∀ i ∈ code, i.Plain) :
    (instructions (text code)).map Prod.snd = code.map .ok := by
  rw [instructions_text_of_plain h]
  exact List.ext_getElem (by simp) fun n _ _ => by simp

theorem exists_instructions_eq (text : String) :
    ∃ lines : List (Nat × List Char),
      lines.map Prod.snd = (Text.lines text.toList).filter (!isBlankLine ·) ∧
      instructions text = lines.map fun l => (l.1, Instruction.ofLine l.1 l.2) := by
  refine ⟨(numberedLines text).filter fun l => !isBlankLine l.2, ?_, rfl⟩
  have hlines : (numberedLines text).map Prod.snd = Text.lines text.toList :=
    List.ext_getElem (by simp [numberedLines]) fun n _ _ => by simp [numberedLines]
  rw [← hlines, List.filter_map]
  rfl

theorem normalized_eq_text {text : String} {code : List Instruction}
    (h : (instructions text).map Prod.snd = code.map .ok) :
    normalized text = Postfix.text code ∧ ∀ i ∈ code, i.Plain := by
  obtain ⟨lines, hlines, hread⟩ := exists_instructions_eq text
  rw [hread, List.map_map] at h
  rw [normalized, ← hlines, List.map_map, Postfix.text]
  have hcode : List.Forall₂ (fun l i => Instruction.ofLine l.1 l.2 = .ok i) lines code := by
    rw [← List.forall₂_eq_eq_eq, List.forall₂_map_left_iff, List.forall₂_map_right_iff] at h
    exact h
  clear hlines hread h
  induction hcode with
  | nil => exact ⟨rfl, fun i hi => by cases hi⟩
  | @cons l i lines code hi _ ih =>
      obtain ⟨htext, hplain⟩ := ih
      constructor
      · simp only [List.map_cons, String.join_cons] at htext ⊢
        rw [htext]
        simp only [Function.comp_apply, (Instruction.ofLine_eq_ok hi).1]
        rfl
      · exact List.forall_mem_cons.mpr ⟨Instruction.plain_of_ofLine hi, hplain⟩

end FormulaMachine.Postfix
