namespace FormulaMachine

abbrev CharRanges := List (Nat × Nat)

namespace CharRanges

def covers (rs : CharRanges) (c : Char) : Bool :=
  rs.any fun r => r.1 ≤ c.toNat && c.toNat ≤ r.2

def apart (rs ss : CharRanges) : Bool :=
  rs.all fun r => ss.all fun s => r.2 < s.1 || s.2 < r.1

theorem not_covers_of_apart {rs ss : CharRanges} {c : Char} (h : rs.apart ss)
    (hc : rs.covers c) : ss.covers c = false := by
  obtain ⟨r, hr, hrc⟩ := List.any_eq_true.mp hc
  rw [covers, List.any_eq_false]
  intro s hs
  have hrs := List.all_eq_true.mp (List.all_eq_true.mp h r hr) s hs
  simp only [Bool.or_eq_true, Bool.and_eq_true, decide_eq_true_eq] at hrs hrc ⊢
  omega

end CharRanges

end FormulaMachine
