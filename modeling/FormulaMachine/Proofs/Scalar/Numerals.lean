import FormulaMachine.Proofs.Text.Words
import FormulaMachine.Scalar.Text
import Mathlib.Data.List.TakeWhile

namespace FormulaMachine

section Trim

variable {cs : List Char}

theorem Text.trim_eq_self (h : ∀ c ∈ cs, Text.isBlank c = false) : Text.trim cs = cs := by
  have hdrop (ds : List Char) (hds : ∀ c ∈ ds, Text.isBlank c = false) :
      ds.dropWhile Text.isBlank = ds := by
    cases ds with
    | nil => rfl
    | cons d ds => rw [List.dropWhile_cons_of_neg (by simp [hds d List.mem_cons_self])]
  rw [Text.trim, hdrop cs h, Text.trimEnd, hdrop _ fun c hc => h c (List.mem_reverse.mp hc),
    List.reverse_reverse]

end Trim

theorem exists_of_map_cast {x : Option Nat} {f : Int → Int} {e : Int}
    (h : Option.map f (do let n ← x; pure (n : Int)) = some e) : ∃ n, x = some n := by
  cases x with
  | none => cases h
  | some n => exact ⟨n, rfl⟩

namespace Numeral

def isMark (c : Char) : Bool :=
  c == 'e' || c == 'E'

def InAscii [Text.Characters] (cs : List Char) : Prop :=
  ∀ c ∈ cs, Text.isDecimalDigit c → c.isDigit

def IsDecimal [Text.Characters] (cs : List Char) : Prop :=
  InAscii cs ∧ ∃ c ∈ cs.takeWhile (fun c => !isMark c), c.isDigit

instance [Text.Characters] (cs : List Char) : Decidable (InAscii cs) :=
  List.decidableBAll (fun c => Text.isDecimalDigit c → c.isDigit) cs

instance [Text.Characters] (cs : List Char) : Decidable (IsDecimal cs) :=
  have := List.decidableBEx (fun c : Char => c.isDigit = true) (cs.takeWhile fun c => !isMark c)
  instDecidableAnd

section Digits

variable {c : Char} {cs ds : List Char}

theorem span_digits (hcs : ∀ c ∈ cs, c.isDigit) (hds : ∀ c ∈ ds.head?, c.isDigit = false) :
    (cs ++ ds).takeWhile Char.isDigit = cs ∧ (cs ++ ds).dropWhile Char.isDigit = ds := by
  rw [List.takeWhile_append_of_pos hcs, List.dropWhile_append_of_pos hcs]
  cases ds with
  | nil => simp
  | cons c ds =>
      have hc : ¬ c.isDigit := by simp [hds c rfl]
      rw [List.takeWhile_cons_of_neg hc, List.dropWhile_cons_of_neg hc, List.append_nil]
      exact ⟨rfl, rfl⟩

theorem isMark_of_isDigit (h : c.isDigit) : isMark c = false := by
  by_contra hmark
  rcases Bool.or_eq_true_iff.mp (eq_true_of_ne_false hmark) with heq | heq <;>
    · rw [beq_iff_eq.mp heq] at h
      revert h
      decide

variable [Text.Characters]

theorem inAscii_of_digits (h : ∀ c ∈ cs, c.isDigit) : InAscii cs :=
  fun c hc _ => h c hc

theorem InAscii.append (h : InAscii cs) (h' : InAscii ds) : InAscii (cs ++ ds) :=
  List.forall_mem_append.mpr ⟨h, h'⟩

theorem InAscii.cons (h : InAscii cs) (hc : Text.isDecimalDigit c = false) : InAscii (c :: cs) :=
  List.forall_mem_cons.mpr ⟨fun hdigit => by simp [hc] at hdigit, h⟩

theorem isDecimal_append (hcs : InAscii cs) (hmark : ∀ c ∈ cs, isMark c = false)
    (hdigit : ∃ c ∈ cs, c.isDigit) (hds : InAscii ds) : IsDecimal (cs ++ ds) := by
  obtain ⟨c, hc, hdigit⟩ := hdigit
  refine ⟨hcs.append hds, c, ?_, hdigit⟩
  rw [List.takeWhile_append_of_pos fun d hd => by simp [hmark d hd]]
  exact List.mem_append_left _ hc

theorem isDecimal_of_digits (h : ∀ c ∈ cs, c.isDigit) (hne : cs ≠ []) : IsDecimal cs := by
  obtain ⟨c, hc⟩ := List.exists_mem_of_ne_nil cs hne
  have hdecimal : IsDecimal (cs ++ []) := isDecimal_append (inAscii_of_digits h)
    (fun d hd => isMark_of_isDigit (h d hd)) ⟨c, hc, h c hc⟩ (by simp [InAscii])
  rwa [List.append_nil] at hdecimal

theorem IsDecimal.cons_sign (h : IsDecimal cs) (hc : c = '-' ∨ c = '+') : IsDecimal (c :: cs) := by
  obtain ⟨hascii, d, hd, hdigit⟩ := h
  have hsign : Text.isDecimalDigit c = false ∧ isMark c = false := by
    rcases hc with rfl | rfl <;>
      exact ⟨Text.isDecimalDigit_eq_false (by decide) (by decide), by decide⟩
  refine ⟨InAscii.cons hascii hsign.1, d, ?_, hdigit⟩
  rw [List.takeWhile_cons_of_pos (by simp [hsign.2])]
  exact List.mem_cons_of_mem _ hd

end Digits

section Read

variable {cs : List Char} {negative : Bool}

theorem exponentSize?_eq_some {n : Nat} (h : exponentSize? cs = some n) :
    ∀ c ∈ cs, c.isDigit := by
  unfold exponentSize? at h
  split at h
  · rename_i hcs
    exact List.all_eq_true.mp hcs.2
  · cases h

section Exponent

variable [Text.Characters]

theorem inAscii_of_exponent? {e : Int} (h : exponent? cs = some e) : InAscii cs := by
  unfold exponent? at h
  split at h
  · simp [InAscii]
  · rename_i c cs
    split at h
    · rename_i hc
      have hletter : Text.isDecimalDigit c = false := by
        rcases hc with rfl | rfl <;>
          exact Text.isDecimalDigit_eq_false (by decide) (by decide)
      refine InAscii.cons ?_ hletter
      unfold signedExponent? at h
      split at h
      · obtain ⟨n, hn⟩ := exists_of_map_cast h
        exact InAscii.cons (inAscii_of_digits (exponentSize?_eq_some hn))
          (Text.isDecimalDigit_eq_false (by decide) (by decide))
      · obtain ⟨n, hn⟩ := exists_of_map_cast h
        exact InAscii.cons (inAscii_of_digits (exponentSize?_eq_some hn))
          (Text.isDecimalDigit_eq_false (by decide) (by decide))
      · obtain ⟨n, hn⟩ := exists_of_map_cast h
        exact inAscii_of_digits (exponentSize?_eq_some hn)
    · cases h

theorem isDecimal_of_decimal? {n : Numeral} (h : decimal? negative cs = some n) :
    IsDecimal cs := by
  have hwhole (c : Char) (hc : c ∈ cs.takeWhile Char.isDigit) : c.isDigit :=
    List.mem_takeWhile_imp hc
  rw [← List.takeWhile_append_dropWhile (p := Char.isDigit) (l := cs)]
  unfold decimal? at h
  dsimp only at h
  split at h
  · rename_i r hr
    dsimp only at h
    split at h
    · cases h
    rename_i hne
    obtain ⟨e, he, -⟩ := Option.map_eq_some_iff.mp h
    have hfraction (c : Char) (hc : c ∈ r.takeWhile Char.isDigit) : c.isDigit :=
      List.mem_takeWhile_imp hc
    -- The point stands between the digits and is no digit itself.
    have hparts : cs.takeWhile Char.isDigit ++ '.' :: r =
        (cs.takeWhile Char.isDigit ++ '.' :: r.takeWhile Char.isDigit) ++
          r.dropWhile Char.isDigit := by
      rw [List.append_assoc, List.cons_append, List.takeWhile_append_dropWhile]
    obtain ⟨c, hc⟩ := List.exists_mem_of_ne_nil _ hne
    rw [hr, hparts]
    refine isDecimal_append ((inAscii_of_digits hwhole).append
      ((inAscii_of_digits hfraction).cons (Text.isDecimalDigit_eq_false (by decide) (by decide))))
      ?_ ?_ (inAscii_of_exponent? he)
    · exact List.forall_mem_append.mpr ⟨fun d hd => isMark_of_isDigit (hwhole d hd),
        List.forall_mem_cons.mpr ⟨by decide, fun d hd => isMark_of_isDigit (hfraction d hd)⟩⟩
    · rcases List.mem_append.mp hc with hc | hc
      · exact ⟨c, List.mem_append_left _ hc, hwhole c hc⟩
      · exact ⟨c, List.mem_append_right _ (List.mem_cons_of_mem _ hc), hfraction c hc⟩
  · dsimp only at h
    split at h
    · cases h
    rename_i hne
    rw [List.append_nil] at hne
    obtain ⟨e, he, -⟩ := Option.map_eq_some_iff.mp h
    obtain ⟨c, hc⟩ := List.exists_mem_of_ne_nil _ hne
    exact isDecimal_append (inAscii_of_digits hwhole)
      (fun d hd => isMark_of_isDigit (hwhole d hd)) ⟨c, hc, hwhole c hc⟩ (inAscii_of_exponent? he)

end Exponent

def HasWordLetter (cs : List Char) : Prop :=
  'n' ∈ cs.map Char.toLower

theorem unsigned?_eq_decimal? (h : ¬ HasWordLetter cs) :
    unsigned? negative cs = decimal? negative cs := by
  have hword (w : String) (hw : 'n' ∈ w.toList) : cs.map Char.toLower ≠ w.toList :=
    fun heq => h (by rw [HasWordLetter, heq]; exact hw)
  have hinf := hword "inf" (by decide)
  have hinfinity := hword "infinity" (by decide)
  have hnan := hword "nan" (by decide)
  simp only [unsigned?, hinf, hinfinity, hnan, or_self, if_false]

variable [Text.Characters]

theorem isDecimal_of_read? {n : Numeral} (hcs : ¬ HasWordLetter cs) (h : read? cs = some n) :
    IsDecimal cs := by
  unfold read? at h
  split at h
  · rw [unsigned?_eq_decimal? fun hn => hcs (List.mem_cons_of_mem _ hn)] at h
    exact (isDecimal_of_decimal? h).cons_sign (.inl rfl)
  · rw [unsigned?_eq_decimal? fun hn => hcs (List.mem_cons_of_mem _ hn)] at h
    exact (isDecimal_of_decimal? h).cons_sign (.inr rfl)
  · rw [unsigned?_eq_decimal? hcs] at h
    exact isDecimal_of_decimal? h

theorem isDecimal_of_natural? {n : Nat} (h : Text.natural? cs = some n) : IsDecimal cs := by
  unfold Text.natural? at h
  split at h
  · rename_i hcs
    exact isDecimal_of_digits (List.all_eq_true.mp hcs.2) hcs.1
  · cases h

theorem isDecimal_of_integer? {n : Int} (h : Text.integer? cs = some n) : IsDecimal cs := by
  unfold Text.integer? at h
  split at h
  · obtain ⟨m, hm⟩ := exists_of_map_cast h
    exact (isDecimal_of_natural? hm).cons_sign (.inl rfl)
  · obtain ⟨m, hm⟩ := exists_of_map_cast h
    unfold Text.unsigned? at hm
    split at hm
    · exact (isDecimal_of_natural? hm).cons_sign (.inr rfl)
    · exact isDecimal_of_natural? hm

end Read

end Numeral

namespace Scalar

open Numeral (IsDecimal HasWordLetter)

variable {cs : List Char} [Text.Characters]

theorem isDecimal_of_format_read? {f : Format} {n : Nat} (hcs : ¬ HasWordLetter cs)
    (h : f.read? cs = some n) : IsDecimal cs := by
  obtain ⟨m, hm, -⟩ := Option.map_eq_some_iff.mp h
  exact Numeral.isDecimal_of_read? hcs hm

theorem isDecimal_of_readInteger? {k : Kind} {x : Scalar k} (hcs : ¬ HasWordLetter cs)
    (h : readInteger? k cs = some x) : IsDecimal cs := by
  unfold readInteger? at h
  split at h
  · rename_i hn
    exact Numeral.isDecimal_of_integer? hn
  · obtain ⟨n, hn, -⟩ := Option.bind_eq_some_iff.mp h
    exact isDecimal_of_format_read? hcs hn

theorem isDecimal_of_readBool? {x : Scalar .bool} (hcs : ¬ HasWordLetter cs)
    (htrue : cs ≠ "true".toList) (hfalse : cs ≠ "false".toList) (h : readBool? cs = some x) :
    IsDecimal cs := by
  rw [readBool?, if_neg htrue, if_neg hfalse] at h
  obtain ⟨n, hn, -⟩ := Option.map_eq_some_iff.mp h
  exact isDecimal_of_format_read? hcs hn

theorem isDecimal_of_read? {k : Kind} {x : Scalar k} (hblank : ∀ c ∈ cs, Text.isBlank c = false)
    (hcs : ¬ HasWordLetter cs) (htrue : cs ≠ "true".toList) (hfalse : cs ≠ "false".toList)
    (h : read? k cs = some x) : IsDecimal cs := by
  unfold read? at h
  rw [Text.trim_eq_self hblank] at h
  cases k with
  | bool => exact isDecimal_of_readBool? hcs htrue hfalse h
  | uint w => exact isDecimal_of_readInteger? hcs h
  | int w => exact isDecimal_of_readInteger? hcs h
  | float32 =>
      obtain ⟨n, hn, -⟩ := Option.map_eq_some_iff.mp h
      exact isDecimal_of_format_read? hcs hn
  | float64 =>
      obtain ⟨n, hn, -⟩ := Option.map_eq_some_iff.mp h
      exact isDecimal_of_format_read? hcs hn

end Scalar

end FormulaMachine
