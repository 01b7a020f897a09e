import FormulaMachine.Proofs.Number.Nearest

namespace FormulaMachine

namespace Format

variable {f : Format} {m n d r : Nat} {q : ℚ}

-- in halves of a quantum, so that every halfway point is a whole number
def midpoint (f : Format) (m : Nat) : Nat :=
  f.quanta m + f.quanta (m + 1)

theorem midpoint_strictMono (f : Format) : StrictMono f.midpoint :=
  fun _ _ h => Nat.add_lt_add (f.quanta_strictMono h) (f.quanta_strictMono (Nat.succ_lt_succ h))

structure Nearby (f : Format) (m : Nat) (q : ℚ) : Prop where
  above : m < f.infinity → q ≤ f.midpoint m ∧ (q = f.midpoint m → m % 2 = 0)
  below : ∀ k, m = k + 1 → f.midpoint k ≤ q ∧ (q = f.midpoint k → m % 2 = 0)

namespace Nearby

theorem le_of (h : f.Nearby m q) (h' : f.Nearby r q) (hr : r ≤ f.infinity) : r ≤ m := by
  by_contra hlt
  obtain ⟨k, rfl⟩ : ∃ k, r = k + 1 := ⟨r - 1, by omega⟩
  obtain ⟨hhigh, heven⟩ := h.above (by omega)
  obtain ⟨hlow, heven'⟩ := h'.below k rfl
  have hmono : (f.midpoint m : ℚ) ≤ f.midpoint k := by
    exact_mod_cast f.midpoint_strictMono.monotone (by omega)
  -- the halfway point between two neighbours is taken by one of them only
  have hq : q = f.midpoint m := le_antisymm hhigh (hmono.trans hlow)
  have hq' : q = f.midpoint k := le_antisymm (hhigh.trans hmono) hlow
  have hmk : f.midpoint m = f.midpoint k := by exact_mod_cast hq.symm.trans hq'
  have hinj := f.midpoint_strictMono.injective hmk
  have := heven hq
  have := heven' hq'
  omega

theorem unique (h : f.Nearby m q) (h' : f.Nearby r q) (hm : m ≤ f.infinity)
    (hr : r ≤ f.infinity) : m = r :=
  Nat.le_antisymm (h'.le_of h hm) (h.le_of h' hr)

end Nearby

theorem parity (hfraction : f.fraction ≠ 0) (e c : Nat) :
    (e * 2 ^ f.fraction + c) % 2 = c % 2 := by
  obtain ⟨i, hi⟩ := Nat.exists_eq_succ_of_ne_zero hfraction
  rw [hi, Nat.pow_succ, ← Nat.mul_assoc, Nat.mul_comm _ 2, Nat.mul_add_mod]

theorem quanta_infinity (hf : f.Proper) :
    f.quanta f.infinity = 2 ^ (f.fraction + 1) * 2 ^ f.topExponent := by
  have hpos : 2 ^ f.fraction ≤ 2 ^ (f.fraction + 1) :=
    Nat.pow_le_pow_right Nat.two_pos (Nat.le_succ _)
  have hparts : f.infinity = f.topExponent * 2 ^ f.fraction + 2 ^ (f.fraction + 1) := by
    rw [infinity_eq hf, Nat.pow_succ]
    ring
  rw [hparts, quanta_add (.inr hpos) (Nat.le_refl _)]

theorem even_infinity (hf : f.Proper) (hfraction : f.fraction ≠ 0) : f.infinity % 2 = 0 := by
  have hparity := parity (f := f) hfraction (f.topExponent + 2) 0
  rwa [Nat.add_zero, ← infinity_eq hf, Nat.zero_mod] at hparity

section Round

variable {e c a D : Nat} (hD : 0 < D) (hfraction : f.fraction ≠ 0)
  (hlow : e = 0 ∨ 2 ^ f.fraction * D ≤ a) (hhigh : a < 2 ^ (f.fraction + 1) * D)

include hD hfraction hlow hhigh

theorem nearest_above : 2 * a * 2 ^ e ≤ f.midpoint (e * 2 ^ f.fraction + nearest a D) * D ∧
    (2 * a * 2 ^ e = f.midpoint (e * 2 ^ f.fraction + nearest a D) * D →
      (e * 2 ^ f.fraction + nearest a D) % 2 = 0) := by
  have hc := nearest_le hD hhigh.le
  have hlow' := hlow.imp_right (le_nearest hD)
  have hmod := Nat.div_add_mod a D
  have hrest := Nat.mod_lt a hD
  rw [parity hfraction, midpoint, quanta_add hlow' hc]
  rcases Nat.lt_or_eq_of_le hc with hlt | hmax
  · rw [Nat.add_assoc, quanta_add (hlow'.imp_right Nat.le_succ_of_le) hlt]
    have hsum : (nearest a D * 2 ^ e + (nearest a D + 1) * 2 ^ e) * D =
        (2 * (nearest a D * D) + D) * 2 ^ e := by ring
    rw [hsum, Nat.mul_le_mul_right_iff (Nat.two_pow_pos e),
      Nat.mul_left_inj (Nat.two_pow_pos e).ne']
    rw [Nat.mul_comm] at hmod
    rcases nearest_cases a D with ⟨hdown, hr⟩ | ⟨hup, hr⟩
    · rw [hdown]
      omega
    · rw [hup, Nat.add_mul, Nat.one_mul]
      omega
  · -- the largest significand lies above the number
    have hnext := f.quanta_lt_succ (e * 2 ^ f.fraction + nearest a D)
    rw [quanta_add hlow' hc] at hnext
    have hstrict : 2 * a * 2 ^ e < (nearest a D * 2 ^ e +
        f.quanta (e * 2 ^ f.fraction + nearest a D + 1)) * D := by
      calc 2 * a * 2 ^ e < 2 * (2 ^ (f.fraction + 1) * D) * 2 ^ e := by
            exact Nat.mul_lt_mul_of_pos_right (by omega) (Nat.two_pow_pos e)
        _ = (nearest a D * 2 ^ e + nearest a D * 2 ^ e) * D := by rw [hmax]; ring
        _ ≤ _ := Nat.mul_le_mul_right D (by omega)
    exact ⟨hstrict.le, fun heq => absurd heq hstrict.ne⟩

theorem nearest_below {k : Nat} (hk : e * 2 ^ f.fraction + nearest a D = k + 1) :
    f.midpoint k * D ≤ 2 * a * 2 ^ e ∧
      (2 * a * 2 ^ e = f.midpoint k * D → (e * 2 ^ f.fraction + nearest a D) % 2 = 0) := by
  have hc := nearest_le hD hhigh.le
  have hlow' := hlow.imp_right (le_nearest hD)
  have hmod := Nat.div_add_mod a D
  rw [parity hfraction, midpoint, ← hk, quanta_add hlow' hc]
  by_cases hmin : e = 0 ∨ 2 ^ f.fraction < nearest a D
  · obtain ⟨i, hi⟩ : ∃ i, nearest a D = i + 1 := by
      refine Nat.exists_eq_succ_of_ne_zero fun hzero => ?_
      rcases hmin with rfl | hmin
      · rw [hzero, Nat.zero_mul] at hk
        cases hk
      · rw [hzero] at hmin
        cases hmin
    obtain rfl : e * 2 ^ f.fraction + i = k := by omega
    rw [quanta_add (hmin.imp_right fun h => by omega) (by omega), hi]
    have hsum : (i * 2 ^ e + (i + 1) * 2 ^ e) * D = (2 * (i * D) + D) * 2 ^ e := by ring
    rw [hsum, Nat.mul_le_mul_right_iff (Nat.two_pow_pos e),
      Nat.mul_left_inj (Nat.two_pow_pos e).ne']
    rw [Nat.mul_comm] at hmod
    have hsucc : (i + 1) * D = i * D + D := Nat.succ_mul _ _
    rcases nearest_cases a D with ⟨hdown, hr⟩ | ⟨hup, hr⟩
    · rw [← hdown, hi] at hmod
      omega
    · obtain rfl : a / D = i := by omega
      omega
  · -- the smallest significand lies below the number
    rw [not_or] at hmin
    have hle := hlow.resolve_left hmin.1
    have hc' : nearest a D = 2 ^ f.fraction := by
      have := hlow'.resolve_left hmin.1
      omega
    have hprev := f.quanta_lt_succ k
    rw [← hk, quanta_add hlow' hc] at hprev
    have hstrict : (f.quanta k + nearest a D * 2 ^ e) * D < 2 * a * 2 ^ e := by
      calc (f.quanta k + nearest a D * 2 ^ e) * D
          < (nearest a D * 2 ^ e + nearest a D * 2 ^ e) * D :=
            Nat.mul_lt_mul_of_pos_right (by omega) hD
        _ = 2 * (2 ^ f.fraction * D) * 2 ^ e := by rw [hc']; ring
        _ ≤ 2 * a * 2 ^ e := Nat.mul_le_mul_right _ (by omega)
    exact ⟨hstrict.le, fun heq => absurd heq hstrict.ne'⟩

end Round

theorem cast_le_iff {a k : Nat} (hd : 0 < d) (hq : q * d = n) (ha : a = n * 2 ^ f.scale) :
    (2 * a ≤ k * d ↔ q * 2 ^ (f.scale + 1) ≤ k) ∧ (k * d ≤ 2 * a ↔ k ≤ q * 2 ^ (f.scale + 1)) ∧
      (2 * a = k * d ↔ q * 2 ^ (f.scale + 1) = k) := by
  have hd' : (0 : ℚ) < d := by exact_mod_cast hd
  have hdouble : ((2 * a : Nat) : ℚ) = q * 2 ^ (f.scale + 1) * d := by
    rw [ha]
    push_cast
    rw [← hq]
    ring
  refine ⟨?_, ?_, ?_⟩
  · rw [← mul_le_mul_iff_left₀ hd', ← hdouble]
    norm_cast
  · rw [← mul_le_mul_iff_left₀ hd', ← hdouble]
    norm_cast
  · rw [← mul_left_inj' hd'.ne', ← hdouble]
    norm_cast

theorem round_nearby (hf : f.Proper) (hfraction : f.fraction ≠ 0) (hd : 0 < d) (hq : q * d = n) :
    f.Nearby (f.round n d) (q * 2 ^ (f.scale + 1)) := by
  obtain ⟨e, hround, hhigh, hlow⟩ := f.round_parts n hd
  generalize ha : n * 2 ^ f.scale = a at hround hhigh hlow
  have hD : 0 < d * 2 ^ e := Nat.mul_pos hd (Nat.two_pow_pos e)
  have hcancel (k : Nat) : (2 * a * 2 ^ e ≤ k * (d * 2 ^ e) ↔ 2 * a ≤ k * d) ∧
      (k * (d * 2 ^ e) ≤ 2 * a * 2 ^ e ↔ k * d ≤ 2 * a) ∧
      (2 * a * 2 ^ e = k * (d * 2 ^ e) ↔ 2 * a = k * d) := by
    rw [← Nat.mul_assoc]
    exact ⟨Nat.mul_le_mul_right_iff (Nat.two_pow_pos e), Nat.mul_le_mul_right_iff
      (Nat.two_pow_pos e), Nat.mul_left_inj (Nat.two_pow_pos e).ne'⟩
  have hcast (k : Nat) := cast_le_iff (f := f) (k := k) hd hq ha.symm
  refine ⟨fun hr => ?_, fun k hk => ?_⟩
  · rw [Nat.min_eq_right (by omega)] at hround
    obtain ⟨hle, htie⟩ := nearest_above hD hfraction hlow hhigh
    rw [← hround] at hle htie
    rw [(hcancel _).1, (hcast _).1] at hle
    rw [(hcancel _).2.2, (hcast _).2.2] at htie
    exact ⟨hle, htie⟩
  · rcases Nat.le_total (e * 2 ^ f.fraction + nearest a (d * 2 ^ e)) f.infinity with hle | hle
    · rw [Nat.min_eq_right hle] at hround
      rw [hround] at hk ⊢
      obtain ⟨hle, htie⟩ := nearest_below hD hfraction hlow hhigh hk
      rw [(hcancel _).2.1, (hcast _).2.1] at hle
      rw [(hcancel _).2.2, (hcast _).2.2] at htie
      exact ⟨hle, htie⟩
    · rw [Nat.min_eq_left hle] at hround
      rw [hround] at hk ⊢
      obtain ⟨i, hi⟩ := Nat.exists_eq_add_of_le hle
      have hi' : e * 2 ^ f.fraction + nearest a (d * 2 ^ e) = k + i + 1 := by omega
      obtain ⟨hle, -⟩ := nearest_below hD hfraction hlow hhigh hi'
      rw [(hcancel _).2.1, (hcast _).2.1] at hle
      have hmono : (f.midpoint k : ℚ) ≤ f.midpoint (k + i) := by
        exact_mod_cast f.midpoint_strictMono.monotone (Nat.le_add_right k i)
      exact ⟨hmono.trans hle, fun _ => even_infinity hf hfraction⟩

theorem Rounds.nearby (hf : f.Proper) (hfraction : f.fraction ≠ 0) (h : f.Rounds q r) :
    f.Nearby r (q * 2 ^ (f.scale + 1)) := by
  cases h with
  | tiny hq h =>
      refine ⟨fun _ => ⟨?_, fun _ => rfl⟩, fun k hk => by cases hk⟩
      have hone : f.midpoint 0 = 1 := by
        have hfirst : f.quanta (0 * 2 ^ f.fraction + 1) = 1 * 2 ^ 0 :=
          quanta_add (.inl rfl) Nat.one_le_two_pow
        rw [Nat.zero_mul, Nat.zero_add] at hfirst
        rw [midpoint, quanta_zero, Nat.zero_add, hfirst]
        rfl
      rw [hone, Nat.cast_one]
      exact h
  | huge h =>
      refine ⟨fun hr => absurd hr (Nat.lt_irrefl _), fun k hk => ⟨?_, fun _ =>
        even_infinity hf hfraction⟩⟩
      obtain rfl : k = f.infinity - 1 := by omega
      have hmiddle : (f.midpoint (f.infinity - 1) : ℚ) = f.overflow * 2 ^ (f.scale + 1) := by
        have hone : 1 ≤ 2 ^ (f.fraction + 1) := Nat.one_le_two_pow
        rw [midpoint, ← hk, quanta_largest hf, quanta_infinity hf, pow_succ _ f.scale,
          ← mul_assoc, overflow_mul_scale]
        push_cast [Nat.cast_sub hone]
        ring
      rw [hmiddle]
      exact mul_le_mul_of_nonneg_right ((overflow_le hf).trans h) (by positivity)
  | quotient n d hd hq => exact round_nearby hf hfraction hd hq

end Format

end FormulaMachine
