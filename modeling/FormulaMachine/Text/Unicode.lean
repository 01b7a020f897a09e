import FormulaMachine.Text.Characters
import FormulaMachine.Text.Digit
import FormulaMachine.Text.Identifier

namespace FormulaMachine.Text

def blanks : CharRanges :=
  [(9, 13), (0x20, 0x20), (0x85, 0x85), (0xa0, 0xa0), (0x1680, 0x1680), (0x2000, 0x200a),
    (0x2028, 0x2029), (0x202f, 0x202f), (0x205f, 0x205f), (0x3000, 0x3000)]

theorem isBlank_eq_covers (c : Char) : isBlank c = blanks.covers c := by
  rw [Bool.eq_iff_iff]
  simp only [isBlank, blanks, CharRanges.covers, List.any_cons, List.any_nil, Bool.or_eq_true,
    Bool.and_eq_true, decide_eq_true_eq, beq_iff_eq, Bool.or_false]
  omega

theorem not_isBlank_of_covers {rs : CharRanges} {c : Char} (h : rs.apart blanks)
    (hc : rs.covers c) : isBlank c = false := by
  rw [isBlank_eq_covers]
  exact CharRanges.not_covers_of_apart h hc

theorem xidStart_apart_blanks : xidStart.apart blanks := by decide +kernel

theorem xidExtend_apart_blanks : xidExtend.apart blanks := by decide +kernel

theorem decimalDigits_apart_blanks : decimalDigits.apart blanks := by decide +kernel

theorem isAlphanum_of_isAlpha {c : Char} (h : c.isAlpha) : c.isAlphanum := by
  rw [Char.isAlphanum, h]
  rfl

theorem not_isBlank_of_ascii {c : Char} (hascii : c.toNat < 0x80)
    (h : c.isAlphanum || c == '_') : isBlank c = false := by
  refine forall_ascii (P := fun c => (c.isAlphanum || c == '_') = true → isBlank c = false)
    ?_ hascii h
  decide +kernel

theorem not_isBlank_of_isDigit {c : Char} (h : c.isDigit) : isBlank c = false :=
  not_isBlank_of_ascii (ascii_of_isDigit h) (by simp [Char.isAlphanum, h])

abbrev unicode : Characters where
  isXidStart c := if c.toNat < 0x80 then c.isAlpha else xidStart.covers c
  isXidContinue c :=
    if c.toNat < 0x80 then c.isAlphanum || c == '_' else xidStart.covers c || xidExtend.covers c
  isDecimalDigit c := if c.toNat < 0x80 then c.isDigit else decimalDigits.covers c
  isXidStart_of_ascii h := if_pos h
  isXidContinue_of_ascii h := if_pos h
  isDecimalDigit_of_ascii h := if_pos h
  isXidContinue_of_isXidStart h := by
    split at h
    · rw [if_pos ‹_›, isAlphanum_of_isAlpha h]
      rfl
    · rw [if_neg ‹_›, h]
      rfl
  not_isBlank_of_isXidContinue h := by
    split at h
    · exact not_isBlank_of_ascii ‹_› h
    · rcases Bool.or_eq_true_iff.mp h with h | h
      · exact not_isBlank_of_covers xidStart_apart_blanks h
      · exact not_isBlank_of_covers xidExtend_apart_blanks h
  not_isBlank_of_isDecimalDigit h := by
    split at h
    · exact not_isBlank_of_isDigit h
    · exact not_isBlank_of_covers decimalDigits_apart_blanks h

end FormulaMachine.Text
