import FormulaMachine.Proofs.Number.Nearest

namespace FormulaMachine

namespace Format

variable {f : Format} {units : Nat}

def HasUnits (f : Format) (units : Nat) : Prop :=
  ∃ m < f.infinity, units = f.quanta m * f.unitsPerQuantum

theorem exists_quanta (hf : f.Proper) {c e : Nat} (hc : c ≤ 2 ^ (f.fraction + 1))
    (he : e < f.topExponent) : ∃ m < f.infinity, f.quanta m = c * 2 ^ e := by
  -- a significand that is small for its exponent is doubled until it is not
  induction e generalizing c with
  | zero =>
      refine ⟨c, ?_, ?_⟩
      · rw [infinity_eq hf]
        rw [Nat.pow_succ'] at hc
        exact hc.trans_lt (Nat.mul_lt_mul_of_pos_right (by omega) (Nat.two_pow_pos _))
      · have hquanta := quanta_add (f := f) (.inl rfl) hc
        rwa [Nat.zero_mul, Nat.zero_add] at hquanta
  | succ e ih =>
      by_cases hsmall : c < 2 ^ f.fraction
      · have hdouble : 2 * c ≤ 2 ^ (f.fraction + 1) := by
          rw [Nat.pow_succ']
          exact Nat.mul_le_mul_left 2 hsmall.le
        obtain ⟨m, hm, hquanta⟩ := ih hdouble (Nat.lt_of_succ_lt he)
        exact ⟨m, hm, by rw [hquanta]; ring⟩
      · refine ⟨(e + 1) * 2 ^ f.fraction + c, ?_, quanta_add (.inr (Nat.le_of_not_lt hsmall)) hc⟩
        rw [infinity_eq hf]
        rw [Nat.pow_succ'] at hc
        calc (e + 1) * 2 ^ f.fraction + c ≤ (e + 3) * 2 ^ f.fraction := by linarith
          _ < (f.topExponent + 2) * 2 ^ f.fraction :=
            Nat.mul_lt_mul_of_pos_right (by omega) (Nat.two_pow_pos _)

theorem hasUnits_whole (hf : f.Proper) (hscale : f.scale ≤ double.scale)
    (hplaces : f.scale < f.topExponent) {n : Nat} (hn : n ≤ 2 ^ (f.fraction + 1)) :
    f.HasUnits (n <<< double.scale) := by
  obtain ⟨m, hm, hquanta⟩ := exists_quanta hf hn hplaces
  refine ⟨m, hm, ?_⟩
  rw [hquanta, unitsPerQuantum, Nat.one_shiftLeft, Nat.shiftLeft_eq, Nat.mul_assoc, ← Nat.pow_add,
    Nat.add_sub_cancel' hscale]

theorem HasUnits.widen {g : Format} (hg : g.Proper) (hfraction : f.fraction ≤ g.fraction)
    (hscale : f.scale ≤ g.scale) (hdouble : g.scale ≤ double.scale) (hf : f.Proper)
    (htop : f.topExponent + (g.scale - f.scale) < g.topExponent) (h : f.HasUnits units) :
    g.HasUnits units := by
  obtain ⟨m, hm, rfl⟩ := h
  obtain ⟨e, c, rfl, hc, hlow⟩ := f.exists_parts m
  have he : e ≤ f.topExponent := by
    rw [infinity_eq hf] at hm
    rcases hlow with rfl | hlow
    · exact Nat.zero_le _
    · have hlt : (e + 1) * 2 ^ f.fraction < (f.topExponent + 2) * 2 ^ f.fraction := by linarith
      have := Nat.lt_of_mul_lt_mul_right hlt
      omega
  have hc' : c ≤ 2 ^ (g.fraction + 1) :=
    hc.le.trans (Nat.pow_le_pow_right Nat.two_pos (Nat.succ_le_succ hfraction))
  obtain ⟨m', hm', hquanta⟩ := exists_quanta (e := e + (g.scale - f.scale)) hg hc' (by omega)
  refine ⟨m', hm', ?_⟩
  have hplaces : double.scale - f.scale = (g.scale - f.scale) + (double.scale - g.scale) := by
    omega
  rw [hquanta, quanta_add hlow hc.le, unitsPerQuantum, unitsPerQuantum, Nat.one_shiftLeft,
    Nat.one_shiftLeft, hplaces, Nat.pow_add, Nat.pow_add]
  ring

theorem decode_encode (hscale : f.scale ≤ double.scale) (h : f.HasUnits units)
    (negative : Bool) :
    f.decode (f.encode (.finite negative units)) = .finite negative units := by
  obtain ⟨m, hm, rfl⟩ := h
  have hround : f.round (f.quanta m * f.unitsPerQuantum) (1 <<< double.scale) = m := by
    rw [Nat.one_shiftLeft]
    refine round_exact (Nat.two_pow_pos _) hm ?_
    rw [unitsPerQuantum, Nat.one_shiftLeft, Nat.mul_assoc, ← Nat.pow_add,
      Nat.sub_add_cancel hscale]
  rw [encode, hround, decode_signed hm.le, if_pos hm]

theorem hasUnits_of_isFinite {pattern : Nat} (h : f.isFinite pattern) :
    ∃ units, f.decode pattern = .finite (f.negative pattern) units ∧ f.HasUnits units := by
  have hlt : f.magnitude pattern < f.infinity := of_decide_eq_true h
  exact ⟨_, decode_of_lt hlt, f.magnitude pattern, hlt, rfl⟩

theorem decode_mod (f : Format) (pattern : Nat) :
    f.decode (pattern % 2 ^ (f.signPlace + 1)) = f.decode pattern := by
  have hdvd : 2 ^ f.signPlace ∣ 2 ^ (f.signPlace + 1) := Nat.pow_dvd_pow 2 (Nat.le_succ _)
  have hnegative : f.negative (pattern % 2 ^ (f.signPlace + 1)) = f.negative pattern := by
    rw [negative, negative, Nat.testBit_mod_two_pow]
    simp
  simp only [decode, hnegative, magnitude, Nat.one_shiftLeft, Nat.mod_mod_of_dvd _ hdvd]

end Format

end FormulaMachine
