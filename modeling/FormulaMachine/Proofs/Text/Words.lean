import FormulaMachine.Text.Unicode
import FormulaMachine.Text.Uppercase
import Mathlib.Data.List.Basic

namespace FormulaMachine

namespace Text

section Blanks

def uppercaseImages : CharRanges :=
  uppercaseRuns.map fun (first, last, _, upper) => (upper, upper + (last - first))

theorem uppercaseImages_apart_blanks : uppercaseImages.apart blanks := by decide +kernel

theorem uppercaseExpansions_not_blank : ∀ e ∈ uppercaseExpansions,
    e.2 ≠ [] ∧ ∀ n ∈ e.2, isBlank (Char.ofNat n) = false := by decide +kernel

theorem not_isBlank_of_uppercaseRun? {n m : Nat} (h : uppercaseRun? n = some m) :
    isBlank (Char.ofNat m) = false := by
  obtain ⟨⟨first, last, step, upper⟩, hmem, hrun⟩ := List.exists_of_findSome?_eq_some h
  dsimp only at hrun
  split at hrun
  · rename_i hin
    simp only [Bool.and_eq_true, decide_eq_true_eq] at hin
    obtain rfl := Option.some.inj hrun
    -- a number that is no code point stands for the character zero
    by_cases hvalid : (upper + (n - first)).isValidChar
    · have hto : (Char.ofNat (upper + (n - first))).toNat = upper + (n - first) := by
        rw [Char.ofNat, dif_pos hvalid]
        rfl
      refine not_isBlank_of_covers uppercaseImages_apart_blanks (List.any_eq_true.mpr
        ⟨_, List.mem_map_of_mem hmem, ?_⟩)
      simp only [Bool.and_eq_true, decide_eq_true_eq, hto]
      omega
    · rw [Char.ofNat, dif_neg hvalid]
      rfl
  · cases hrun

end Blanks

structure IsWord (cs : List Char) : Prop where
  ne_nil : cs ≠ []
  not_blank : ∀ c ∈ cs, isBlank c = false

theorem isWord_iff {cs : List Char} :
    IsWord cs ↔ cs.isEmpty = false ∧ cs.any isBlank = false := by
  rw [List.isEmpty_eq_false_iff, List.any_eq_false]
  simp only [Bool.not_eq_true]
  exact ⟨fun h => ⟨h.ne_nil, h.not_blank⟩, fun h => ⟨h.1, h.2⟩⟩

instance (cs : List Char) : Decidable (IsWord cs) :=
  decidable_of_iff _ isWord_iff.symm

theorem isWord_uppercaseChar {c : Char} (h : isBlank c = false) : IsWord (uppercaseChar c) := by
  unfold uppercaseChar
  split
  · rename_i hascii
    refine ⟨List.cons_ne_nil _ _, List.forall_mem_singleton.mpr ?_⟩
    exact forall_ascii (P := fun c => isBlank c = false → isBlank c.toUpper = false)
      (by decide +kernel) hascii h
  · split
    · rename_i ns hns
      obtain ⟨before, after, hsplit, -⟩ := List.lookup_eq_some_iff.mp hns
      have hmem : (c.toNat, ns) ∈ uppercaseExpansions := by
        rw [hsplit]
        exact List.mem_append_right _ List.mem_cons_self
      obtain ⟨hne, hblank⟩ := uppercaseExpansions_not_blank _ hmem
      refine ⟨fun hnil => hne (List.map_eq_nil_iff.mp hnil), fun d hd => ?_⟩
      obtain ⟨n, hn, rfl⟩ := List.mem_map.mp hd
      exact hblank n hn
    · split
      · rename_i m hm
        exact ⟨List.cons_ne_nil _ _,
          List.forall_mem_singleton.mpr (not_isBlank_of_uppercaseRun? hm)⟩
      · exact ⟨List.cons_ne_nil _ _, List.forall_mem_singleton.mpr h⟩

theorem isWord_uppercase {s : String} (h : IsWord s.toList) : IsWord (uppercase s).toList := by
  have hword (c : Char) (hc : c ∈ s.toList) := isWord_uppercaseChar (h.not_blank c hc)
  obtain ⟨c, hc⟩ := List.exists_mem_of_ne_nil _ h.ne_nil
  rw [uppercase, String.toList_ofList]
  constructor
  · intro hnil
    exact (hword c hc).ne_nil (List.flatMap_eq_nil_iff.mp hnil c hc)
  · intro d hd
    obtain ⟨c, hc, hd⟩ := List.mem_flatMap.mp hd
    exact (hword c hc).not_blank d hd

theorem not_blank_of_mem_flush {w seen : List Char} (hseen : ∀ c ∈ seen, isBlank c = false)
    (h : w ∈ flush seen) : ∀ c ∈ w, isBlank c = false := by
  cases seen with
  | nil => cases h
  | cons c cs =>
      obtain rfl := List.mem_singleton.mp h
      exact fun d hd => hseen d (List.mem_reverse.mp hd)

theorem isWord_of_mem_words {w cs : List Char} (h : w ∈ words cs) : IsWord w := by
  refine ⟨ne_nil_of_mem_words h, ?_⟩
  -- the letters collected so far are not blank either
  suffices hfrom : ∀ seen, (∀ c ∈ seen, isBlank c = false) → w ∈ wordsFrom seen cs →
      ∀ c ∈ w, isBlank c = false from hfrom [] (fun c hc => by cases hc) h
  clear h
  induction cs with
  | nil => exact fun seen hseen h => not_blank_of_mem_flush hseen h
  | cons c cs ih =>
      intro seen hseen h
      rw [wordsFrom] at h
      split at h
      · rcases List.mem_append.mp h with h | h
        · exact not_blank_of_mem_flush hseen h
        · exact ih [] (fun c hc => by cases hc) h
      · rename_i hc
        exact ih (c :: seen) (List.forall_mem_cons.mpr ⟨by simpa using hc, hseen⟩) h

theorem words_eq_nil_of_all_isBlank {cs : List Char} (h : cs.all isBlank) : words cs = [] := by
  induction cs with
  | nil => rfl
  | cons c cs ih =>
      rw [List.all_cons, Bool.and_eq_true] at h
      rw [words, wordsFrom, if_pos h.1]
      exact ih h.2

theorem wordsFrom_append {w : List Char} (hw : ∀ c ∈ w, isBlank c = false) (seen cs : List Char) :
    wordsFrom seen (w ++ cs) = wordsFrom (w.reverse ++ seen) cs := by
  induction w generalizing seen with
  | nil => rfl
  | cons c w ih =>
      obtain ⟨hc, hw⟩ := List.forall_mem_cons.mp hw
      rw [List.cons_append, wordsFrom, if_neg (by simp [hc]), ih hw]
      simp

theorem flush_reverse {w : List Char} (hw : w ≠ []) : flush w.reverse = [w] := by
  cases hr : w.reverse with
  | nil => exact absurd (List.reverse_eq_nil_iff.mp hr) hw
  | cons c cs => rw [flush, ← hr, List.reverse_reverse]

theorem words_intercalate {ws : List (List Char)} (h : ∀ w ∈ ws, IsWord w) :
    words ([' '].intercalate ws) = ws := by
  induction ws with
  | nil => rfl
  | cons w ws ih =>
      obtain ⟨hw, hws⟩ := List.forall_mem_cons.mp h
      cases ws with
      | nil =>
          have hsingle : [' '].intercalate [w] = w ++ [] := by simp [List.intercalate]
          rw [hsingle, words, wordsFrom_append hw.not_blank, List.append_nil, wordsFrom,
            flush_reverse hw.ne_nil]
      | cons v ws =>
          have hspace : isBlank ' ' = true := by decide
          rw [List.intercalate_cons_cons, List.append_assoc, words,
            wordsFrom_append hw.not_blank, List.append_nil, List.singleton_append, wordsFrom,
            if_pos hspace, flush_reverse hw.ne_nil]
          exact congrArg (w :: ·) (ih hws)

theorem piecesFrom_append {sep : Char} {cs : List Char} (hcs : sep ∉ cs) (seen rest : List Char) :
    piecesFrom sep seen (cs ++ sep :: rest) =
      (seen.reverse ++ cs, true) :: piecesFrom sep [] rest := by
  induction cs generalizing seen with
  | nil => simp [piecesFrom]
  | cons c cs ih =>
      rw [List.mem_cons, not_or] at hcs
      rw [List.cons_append, piecesFrom, if_neg (Ne.symm hcs.1), ih hcs.2]
      simp

theorem lines_line_feeds (n : Nat) (cs : List Char) :
    lines (List.replicate n '\n' ++ cs) = List.replicate n [] ++ lines cs := by
  induction n with
  | zero => rfl
  | succ n ih =>
      rw [List.replicate_succ, List.replicate_succ, List.cons_append, List.cons_append, ← ih]
      rfl

structure IsLine (l : List Char) : Prop where
  no_feed : '\n' ∉ l
  no_return : l.getLast? ≠ some '\r'

theorem lines_flatMap {ls : List (List Char)} (h : ∀ l ∈ ls, IsLine l) :
    lines (ls.flatMap (· ++ ['\n'])) = ls := by
  induction ls with
  | nil => rfl
  | cons l ls ih =>
      obtain ⟨hl, hls⟩ := List.forall_mem_cons.mp h
      have hcons : (l :: ls).flatMap (· ++ ['\n']) = l ++ '\n' :: ls.flatMap (· ++ ['\n']) := by
        simp
      rw [hcons, lines, pieces, piecesFrom_append hl.no_feed, List.map_cons]
      refine congr (congrArg _ ?_) (ih hls)
      exact if_neg hl.no_return

theorem mem_intercalate {sep : List Char} {ws : List (List Char)} {c : Char}
    (h : c ∈ sep.intercalate ws) : c ∈ sep ∨ ∃ w ∈ ws, c ∈ w := by
  induction ws with
  | nil => cases h
  | cons w ws ih =>
      cases ws with
      | nil => exact .inr ⟨w, List.mem_cons_self, by simpa [List.intercalate] using h⟩
      | cons v ws =>
          rw [List.intercalate_cons_cons, List.append_assoc, List.mem_append, List.mem_append] at h
          rcases h with h | h | h
          · exact .inr ⟨w, List.mem_cons_self, h⟩
          · exact .inl h
          · exact (ih h).imp_right fun ⟨u, hu, hc⟩ => ⟨u, List.mem_cons_of_mem _ hu, hc⟩

theorem isLine_intercalate {ws : List (List Char)} (h : ∀ w ∈ ws, IsWord w) :
    IsLine ([' '].intercalate ws) := by
  have hletters (c : Char) (hc : c ∈ [' '].intercalate ws) : c = ' ' ∨ isBlank c = false :=
    (mem_intercalate hc).imp List.mem_singleton.mp fun ⟨w, hw, hcw⟩ => (h w hw).not_blank c hcw
  constructor
  · intro hfeed
    rcases hletters _ hfeed with h | h <;> revert h <;> decide
  · intro hreturn
    rcases hletters _ (List.mem_of_getLast? hreturn) with h | h <;> revert h <;> decide

end Text

end FormulaMachine
