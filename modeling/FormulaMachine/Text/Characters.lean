import FormulaMachine.Text.Blank

namespace FormulaMachine.Text

class Characters where
  isXidStart : Char → Bool
  isXidContinue : Char → Bool
  isDecimalDigit : Char → Bool
  isXidStart_of_ascii {c : Char} (h : c.toNat < 0x80) : isXidStart c = c.isAlpha
  isXidContinue_of_ascii {c : Char} (h : c.toNat < 0x80) :
    isXidContinue c = (c.isAlphanum || c == '_')
  isDecimalDigit_of_ascii {c : Char} (h : c.toNat < 0x80) : isDecimalDigit c = c.isDigit
  isXidContinue_of_isXidStart {c : Char} (h : isXidStart c) : isXidContinue c
  not_isBlank_of_isXidContinue {c : Char} (h : isXidContinue c) : isBlank c = false
  not_isBlank_of_isDecimalDigit {c : Char} (h : isDecimalDigit c) : isBlank c = false

export Characters (isXidStart isXidContinue isDecimalDigit isXidStart_of_ascii
  isXidContinue_of_ascii isDecimalDigit_of_ascii isXidContinue_of_isXidStart
  not_isBlank_of_isXidContinue not_isBlank_of_isDecimalDigit)

theorem ascii_of_isDigit {c : Char} (h : c.isDigit) : c.toNat < 0x80 := by
  simp only [Char.isDigit, Bool.and_eq_true, decide_eq_true_eq] at h
  have hle := h.2
  simp only [Char.toNat, UInt32.le_iff_toNat_le] at *
  exact Nat.lt_of_le_of_lt hle (by decide)

theorem isDecimalDigit_of_isDigit [Characters] {c : Char} (h : c.isDigit) : isDecimalDigit c :=
  (isDecimalDigit_of_ascii (ascii_of_isDigit h)).trans h

theorem isDecimalDigit_eq_false [Characters] {c : Char} (hascii : c.toNat < 0x80)
    (h : c.isDigit = false) : isDecimalDigit c = false :=
  (isDecimalDigit_of_ascii hascii).trans h

theorem forall_ascii {P : Char → Prop} (h : ∀ n < 0x80, P (Char.ofNat n)) {c : Char}
    (hc : c.toNat < 0x80) : P c :=
  Char.ofNat_toNat c ▸ h c.toNat hc

end FormulaMachine.Text
