import FormulaMachine.Number.Shortest
import FormulaMachine.Proofs.Number.Midpoints

namespace FormulaMachine

namespace Shortest

namespace Interval

variable {i : Interval} {q q' : ℚ} {step d n : Nat}

def Has (i : Interval) (q : ℚ) : Prop :=
  if i.closed then i.lower ≤ q ∧ q ≤ i.upper else i.lower < q ∧ q < i.upper

theorem holds_iff (hd : 0 < d) : i.holds n d ↔ i.Has (n / d) := by
  have hd' : (0 : ℚ) < d := by exact_mod_cast hd
  unfold holds Has
  split
  · rw [Bool.and_eq_true, decide_eq_true_eq, decide_eq_true_eq, le_div_iff₀ hd', div_le_iff₀ hd']
    norm_cast
  · rw [Bool.and_eq_true, decide_eq_true_eq, decide_eq_true_eq, lt_div_iff₀ hd', div_lt_iff₀ hd']
    norm_cast

theorem Has.bounds (h : i.Has q) : i.lower ≤ q ∧ q ≤ i.upper := by
  unfold Has at h
  split at h
  · exact h
  · exact ⟨h.1.le, h.2.le⟩

theorem has_of_lt (hlow : i.lower < q) (hhigh : q < i.upper) : i.Has q := by
  unfold Has
  split
  · exact ⟨hlow.le, hhigh.le⟩
  · exact ⟨hlow, hhigh⟩

theorem Has.down (h : i.Has q) (hlow : i.lower < q') (hq : q' ≤ q) : i.Has q' := by
  unfold Has at h ⊢
  split
  · rename_i hclosed
    rw [if_pos hclosed] at h
    exact ⟨hlow.le, hq.trans h.2⟩
  · rename_i hclosed
    rw [if_neg hclosed] at h
    exact ⟨hlow, hq.trans_lt h.2⟩

theorem Has.up (h : i.Has q) (hhigh : q' < i.upper) (hq : q ≤ q') : i.Has q' := by
  unfold Has at h ⊢
  split
  · rename_i hclosed
    rw [if_pos hclosed] at h
    exact ⟨h.1.trans hq, hhigh.le⟩
  · rename_i hclosed
    rw [if_neg hclosed] at h
    exact ⟨h.1.trans_le hq, hhigh⟩

theorem onGrid?_cases (i : Interval) (step d : Nat) : ∃ near far,
    (near = i.value * d / step ∧ far = near + 1 ∧ 2 * (i.value * d % step) < step ∨
      far = i.value * d / step ∧ near = far + 1 ∧ step ≤ 2 * (i.value * d % step)) ∧
    i.onGrid? step d = if i.holds (near * step) d then some near
      else if i.holds (far * step) d then some far else none := by
  unfold onGrid?
  dsimp only
  by_cases hnear : 2 * (i.value * d % step) < step
  · rw [if_pos hnear, if_pos rfl]
    exact ⟨_, _, .inl ⟨rfl, rfl, hnear⟩, rfl⟩
  · rw [if_neg hnear, if_neg (Nat.succ_ne_self _)]
    exact ⟨_, _, .inr ⟨rfl, rfl, Nat.le_of_not_lt hnear⟩, rfl⟩

theorem onGrid?_eq_some (hd : 0 < d) (h : i.onGrid? step d = some n) : i.Has (n * step / d) := by
  obtain ⟨near, far, -, hgrid⟩ := i.onGrid?_cases step d
  rw [hgrid] at h
  have hpoint : i.holds (n * step) d := by
    split at h
    · rename_i hnear
      rwa [← Option.some.inj h]
    · rw [Option.ite_none_right_eq_some] at h
      rw [← Option.some.inj h.2]
      exact h.1
  rw [holds_iff hd, Nat.cast_mul] at hpoint
  exact hpoint

section Neighbours

variable (hstep : 0 < step) (hd : 0 < d)

include hstep hd

theorem between_neighbours (v : Nat) : ((v * d / step : Nat) * step / d : ℚ) ≤ v ∧
    (v : ℚ) < ((v * d / step + 1 : Nat) * step / d : ℚ) := by
  have hd' : (0 : ℚ) < d := by exact_mod_cast hd
  have hmod := Nat.div_add_mod (v * d) step
  have hlt := Nat.mod_lt (v * d) hstep
  rw [Nat.mul_comm] at hmod
  rw [div_le_iff₀ hd', lt_div_iff₀ hd']
  constructor
  · exact_mod_cast Nat.div_mul_le_self (v * d) step
  · have hnext : v * d < (v * d / step + 1) * step := by
      rw [Nat.succ_mul]
      omega
    exact_mod_cast hnext

theorem grid_mono {m n : Nat} (h : m ≤ n) : (m * step / d : ℚ) ≤ n * step / d := by
  have hd' : (0 : ℚ) < d := by exact_mod_cast hd
  gcongr

variable (hlow : i.lower < i.value) (hhigh : i.value < i.upper)

include hlow hhigh

theorem has_neighbour (h : i.Has (n * step / d)) :
    n ≤ i.value * d / step ∧ i.Has ((i.value * d / step : Nat) * step / d) ∨
      i.value * d / step < n ∧ i.Has ((i.value * d / step + 1 : Nat) * step / d) := by
  obtain ⟨hbelow, habove⟩ := between_neighbours hstep hd i.value
  have hlow' : (i.lower : ℚ) < i.value := by exact_mod_cast hlow
  have hhigh' : (i.value : ℚ) < i.upper := by exact_mod_cast hhigh
  rcases Nat.lt_or_ge (i.value * d / step) n with hlt | hle
  · exact .inr ⟨hlt, h.down (hlow'.trans habove) (grid_mono hstep hd hlt)⟩
  · exact .inl ⟨hle, h.up (hbelow.trans_lt hhigh') (grid_mono hstep hd hle)⟩

theorem onGrid?_eq_none (h : i.onGrid? step d = none) (n : Nat) : ¬ i.Has (n * step / d) := by
  intro hn
  obtain ⟨near, far, hplace, hgrid⟩ := i.onGrid?_cases step d
  have hnot {k : Nat} (hk : k = near ∨ k = far) : ¬ i.Has (k * step / d) := by
    rw [← Nat.cast_mul, ← holds_iff hd]
    intro hholds
    rw [hgrid] at h
    split at h
    · cases h
    · rename_i hnear
      rcases hk with rfl | rfl
      · exact hnear hholds
      · rw [if_pos hholds] at h
        cases h
  rcases has_neighbour hstep hd hlow hhigh hn with ⟨-, hbelow⟩ | ⟨-, habove⟩
  · exact hnot (by omega) hbelow
  · exact hnot (by omega) habove

omit hlow hhigh in
theorem distance_below (v : Nat) :
    |((v * d / step : Nat) * step / d : ℚ) - v| = (v * d % step : Nat) / d ∧
      ∀ k ≤ v * d / step, ((v * d % step : Nat) / d : ℚ) ≤ |(k * step / d : ℚ) - v| := by
  have hd' : (0 : ℚ) < d := by exact_mod_cast hd
  have hmod := Nat.div_add_mod (v * d) step
  rw [Nat.mul_comm] at hmod
  obtain ⟨hle, -⟩ := between_neighbours hstep hd v
  have hnear : |((v * d / step : Nat) * step / d : ℚ) - v| = (v * d % step : Nat) / d := by
    rw [abs_sub_comm, abs_of_nonneg (sub_nonneg.mpr hle), eq_div_iff hd'.ne', sub_mul,
      div_mul_cancel₀ _ hd'.ne', sub_eq_iff_eq_add']
    exact_mod_cast hmod.symm
  refine ⟨hnear, fun k hk => ?_⟩
  have hmono := grid_mono hstep hd hk
  rw [← hnear, abs_sub_comm, abs_sub_comm (k * step / d : ℚ), abs_of_nonneg (sub_nonneg.mpr hle),
    abs_of_nonneg (sub_nonneg.mpr (hmono.trans hle))]
  exact sub_le_sub_left hmono _

omit hlow hhigh in
theorem distance_above (v : Nat) :
    |((v * d / step + 1 : Nat) * step / d : ℚ) - v| = (step - v * d % step : Nat) / d ∧
      ∀ k, v * d / step < k →
        ((step - v * d % step : Nat) / d : ℚ) ≤ |(k * step / d : ℚ) - v| := by
  have hd' : (0 : ℚ) < d := by exact_mod_cast hd
  have hmod := Nat.div_add_mod (v * d) step
  have hrest := Nat.mod_lt (v * d) hstep
  rw [Nat.mul_comm] at hmod
  obtain ⟨-, hlt⟩ := between_neighbours hstep hd v
  have hnear : |((v * d / step + 1 : Nat) * step / d : ℚ) - v| =
      (step - v * d % step : Nat) / d := by
    have hsum : (v * d / step + 1) * step = (step - v * d % step) + v * d := by
      rw [Nat.succ_mul]
      omega
    rw [abs_of_nonneg (sub_nonneg.mpr hlt.le), eq_div_iff hd'.ne', sub_mul,
      div_mul_cancel₀ _ hd'.ne', sub_eq_iff_eq_add]
    exact_mod_cast hsum
  refine ⟨hnear, fun k hk => ?_⟩
  have hmono := grid_mono hstep hd (Nat.succ_le_of_lt hk)
  rw [← hnear, abs_of_nonneg (sub_nonneg.mpr hlt.le),
    abs_of_nonneg (sub_nonneg.mpr (hlt.le.trans hmono))]
  exact sub_le_sub_right hmono _

theorem onGrid?_nearest (h : i.onGrid? step d = some n) {m : Nat} (hm : i.Has (m * step / d)) :
    |(n * step / d : ℚ) - i.value| ≤ |(m * step / d : ℚ) - i.value| := by
  have hd' : (0 : ℚ) < d := by exact_mod_cast hd
  obtain ⟨hbelow, hdown⟩ := distance_below hstep hd i.value
  obtain ⟨habove, hup⟩ := distance_above hstep hd i.value
  have hholds (k : Nat) : i.Has (k * step / d) ↔ i.holds (k * step) d := by
    rw [holds_iff hd, Nat.cast_mul]
  have hcloser {a b : Nat} (hab : a ≤ b) : (a / d : ℚ) ≤ b / d :=
    div_le_div_of_nonneg_right (by exact_mod_cast hab) hd'.le
  have hside := has_neighbour hstep hd hlow hhigh hm
  rw [hholds, hholds] at hside
  obtain ⟨near, far, hplace, hgrid⟩ := i.onGrid?_cases step d
  rw [hgrid] at h
  rcases hplace with ⟨rfl, rfl, hr⟩ | ⟨rfl, rfl, hr⟩
  · split at h
    · obtain rfl := Option.some.inj h
      rw [hbelow]
      rcases hside with ⟨hle, -⟩ | ⟨hlt, -⟩
      · exact hdown m hle
      · exact (hcloser (by omega)).trans (hup m hlt)
    · rename_i hnear
      obtain rfl := Option.some.inj (Option.ite_none_right_eq_some.mp h).2
      rw [habove]
      exact hup m (hside.resolve_left fun hbelow => hnear hbelow.2).1
  · split at h
    · obtain rfl := Option.some.inj h
      rw [habove]
      rcases hside with ⟨hle, -⟩ | ⟨hlt, -⟩
      · exact (hcloser (by omega)).trans (hdown m hle)
      · exact hup m hlt
    · rename_i hnear
      obtain rfl := Option.some.inj (Option.ite_none_right_eq_some.mp h).2
      rw [hbelow]
      exact hdown m (hside.resolve_right fun habove => hnear habove.2).1

end Neighbours

end Interval

def Interval.at? (i : Interval) (f : Format) (e : Int) : Option Nat :=
  if e < 0 then i.onGrid? (1 <<< (f.scale + 1)) (Nat.pow 10 e.natAbs)
  else i.onGrid? (Nat.pow 10 e.natAbs <<< (f.scale + 1)) 1

def halves (f : Format) (n : Nat) (e : Int) : ℚ :=
  n * 10 ^ e * 2 ^ (f.scale + 1)

section Grids

variable {i : Interval} {f : Format} {e : Int} {n : Nat}

theorem Interval.exists_grid (i : Interval) (f : Format) (e : Int) : ∃ step d, 0 < step ∧ 0 < d ∧
    i.at? f e = i.onGrid? step d ∧ ∀ n : Nat, (n * step / d : ℚ) = halves f n e := by
  have hten (k : Nat) : 0 < Nat.pow 10 k := Nat.pow_pos (by decide)
  have hpow : ((Nat.pow 10 e.natAbs : Nat) : ℚ) = 10 ^ (e.natAbs : Int) := by
    rw [Nat.pow_eq, Nat.cast_pow, zpow_natCast, Nat.cast_ofNat]
  unfold at?
  split
  · refine ⟨_, _, Nat.one_shiftLeft _ ▸ Nat.two_pow_pos _, hten _, rfl, fun n => ?_⟩
    rw [halves, hpow, Nat.one_shiftLeft, Nat.cast_pow, Nat.cast_ofNat, div_eq_iff (by positivity)]
    calc (n : ℚ) * 2 ^ (f.scale + 1)
        = n * 2 ^ (f.scale + 1) * 10 ^ (e + e.natAbs) := by
          rw [show e + e.natAbs = 0 by omega, zpow_zero, mul_one]
      _ = n * 10 ^ e * 2 ^ (f.scale + 1) * 10 ^ (e.natAbs : Int) := by
          rw [zpow_add₀ (by norm_num)]
          ring
  · refine ⟨_, _, ?_, Nat.one_pos, rfl, fun n => ?_⟩
    · rw [Nat.shiftLeft_eq]
      exact Nat.mul_pos (hten _) (Nat.two_pow_pos _)
    · rw [halves, Nat.shiftLeft_eq, Nat.cast_mul, hpow, Nat.cast_pow, Nat.cast_ofNat, Nat.cast_one,
        div_one, mul_assoc, show (e.natAbs : Int) = e by omega]

theorem Interval.at?_eq_some (h : i.at? f e = some n) : i.Has (halves f n e) := by
  obtain ⟨step, d, -, hd, hat, hhalves⟩ := i.exists_grid f e
  rw [hat] at h
  exact hhalves n ▸ onGrid?_eq_some hd h

section Within

variable (hlow : i.lower < i.value) (hhigh : i.value < i.upper)

include hlow hhigh

theorem Interval.at?_eq_none (h : i.at? f e = none) (n : Nat) : ¬ i.Has (halves f n e) := by
  obtain ⟨step, d, hstep, hd, hat, hhalves⟩ := i.exists_grid f e
  rw [hat] at h
  exact hhalves n ▸ onGrid?_eq_none hstep hd hlow hhigh h n

theorem Interval.at?_nearest (h : i.at? f e = some n) {m : Nat} (hm : i.Has (halves f m e)) :
    |halves f n e - i.value| ≤ |halves f m e - i.value| := by
  obtain ⟨step, d, hstep, hd, hat, hhalves⟩ := i.exists_grid f e
  rw [hat] at h
  rw [← hhalves] at hm ⊢
  rw [← hhalves]
  exact onGrid?_nearest hstep hd hlow hhigh h hm

theorem Interval.at?_ne_none (hstep : i.value + halves f 1 e < i.upper) : i.at? f e ≠ none := by
  intro h
  obtain ⟨step, d, hpos, hd, -, hhalves⟩ := i.exists_grid f e
  obtain ⟨hle, hlt⟩ := between_neighbours hpos hd i.value
  have hnext : ((i.value * d / step + 1 : Nat) * step / d : ℚ) =
      (i.value * d / step : Nat) * step / d + halves f 1 e := by
    rw [← hhalves, Nat.cast_one, Nat.cast_succ]
    ring
  refine at?_eq_none hlow hhigh h (i.value * d / step + 1) ?_
  rw [← hhalves]
  have hlow' : (i.lower : ℚ) < i.value := by exact_mod_cast hlow
  refine has_of_lt (hlow'.trans hlt) ?_
  rw [hnext]
  linarith

end Within

theorem search_cases (f : Format) (i : Interval) (fuel : Nat) (e : Int) :
    (∃ k < fuel, ∃ n, i.at? f (e - k) = some n ∧ search f i fuel e = ⟨n, e - k⟩ ∧
      ∀ j < k, i.at? f (e - j) = none) ∨ ∀ k < fuel, i.at? f (e - k) = none := by
  induction fuel generalizing e with
  | zero => exact .inr fun k hk => by cases hk
  | succ fuel ih =>
      have hshift (k : Nat) : e - 1 - k = e - (k + 1 : Nat) := by omega
      cases hpoint : i.at? f e with
      | some n =>
          have hsearch : search f i (fuel + 1) e = ⟨n, e⟩ := by
            unfold Interval.at? at hpoint
            rw [search, hpoint]
          refine .inl ⟨0, Nat.succ_pos fuel, n, ?_, ?_, fun j hj => by cases hj⟩
          · rwa [Nat.cast_zero, sub_zero]
          · rwa [Nat.cast_zero, sub_zero]
      | none =>
          have hsearch : search f i (fuel + 1) e = search f i fuel (e - 1) := by
            unfold Interval.at? at hpoint
            rw [search, hpoint]
          have hfirst {P : Nat → Prop} (hzero : P 0) {m : Nat} (h : ∀ k < m, P (k + 1)) :
              ∀ k < m + 1, P k := by
            intro k hk
            cases k with
            | zero => exact hzero
            | succ k => exact h k (Nat.lt_of_succ_lt_succ hk)
          have hnone : i.at? f (e - (0 : Nat)) = none := by rwa [Nat.cast_zero, sub_zero]
          rcases ih (e - 1) with ⟨k, hk, n, hn, hfound, hbefore⟩ | hall
          · rw [hshift] at hn hfound
            refine .inl ⟨k + 1, Nat.succ_lt_succ hk, n, hn, hsearch.trans hfound,
              hfirst hnone fun j hj => ?_⟩
            rw [← hshift]
            exact hbefore j hj
          · refine .inr (hfirst hnone fun k hk => ?_)
            rw [← hshift]
            exact hall k hk

end Grids

section Magnitude

variable {f : Format} {m n : Nat} {e : Int} {q : ℚ}

theorem quanta_succ (hm : 0 < m) : ∃ e, f.quanta (m + 1) = f.quanta m + 2 ^ e ∧
    Nat.log2 (f.quanta m) ≤ f.fraction + e ∧ 2 ^ e ≤ f.quanta m := by
  obtain ⟨e, c, rfl, hhigh, hlow⟩ := f.exists_parts m
  have hc : 0 < c := by
    rcases hlow with rfl | hle
    · omega
    · exact (Nat.two_pow_pos _).trans_le hle
  rw [Nat.add_assoc, Format.quanta_add hlow hhigh.le,
    Format.quanta_add (hlow.imp_right Nat.le_succ_of_le) hhigh]
  have hquanta : c * 2 ^ e < 2 ^ (f.fraction + 1 + e) := by
    rw [Nat.pow_add]
    exact Nat.mul_lt_mul_of_pos_right hhigh (Nat.two_pow_pos e)
  have hne : c * 2 ^ e ≠ 0 := (Nat.mul_pos hc (Nat.two_pow_pos e)).ne'
  have hlog := (Nat.log2_lt hne).mpr hquanta
  exact ⟨e, Nat.succ_mul _ _, by omega, Nat.le_mul_of_pos_left _ hc⟩

theorem Interval.ofMagnitude_eq (f : Format) (m : Nat) : ofMagnitude f (m + 1) =
    ⟨f.midpoint m, 2 * f.quanta (m + 1), f.midpoint (m + 1), (m + 1) % 2 == 0⟩ :=
  rfl

theorem has_ofMagnitude_iff (hm : 0 < m) (hm' : m < f.infinity) :
    (Interval.ofMagnitude f m).Has q ↔ f.Nearby m q := by
  obtain ⟨k, rfl⟩ := Nat.exists_eq_succ_of_ne_zero hm.ne'
  rw [Nat.succ_eq_add_one, Interval.ofMagnitude_eq, Interval.Has]
  dsimp only
  by_cases heven : (k + 1) % 2 = 0
  · rw [if_pos (beq_iff_eq.mpr heven)]
    refine ⟨fun ⟨hlow, hhigh⟩ => ⟨fun _ => ⟨hhigh, fun _ => heven⟩, fun j hj => ?_⟩,
      fun h => ⟨(h.below k rfl).1, (h.above hm').1⟩⟩
    obtain rfl := Nat.succ.inj hj
    exact ⟨hlow, fun _ => heven⟩
  · rw [if_neg (by rwa [beq_iff_eq])]
    refine ⟨fun ⟨hlow, hhigh⟩ => ⟨fun _ => ⟨hhigh.le, fun heq => absurd heq hhigh.ne⟩,
      fun j hj => ?_⟩, fun h => ?_⟩
    · obtain rfl := Nat.succ.inj hj
      exact ⟨hlow.le, fun heq => absurd heq hlow.ne'⟩
    · obtain ⟨hle, hnot⟩ := h.below k rfl
      obtain ⟨hle', hnot'⟩ := h.above hm'
      exact ⟨lt_of_le_of_ne hle fun heq => heven (hnot heq.symm),
        lt_of_le_of_ne hle' fun heq => heven (hnot' heq)⟩

end Magnitude

section Places

-- `2 ^ n` has `m` decimal places but for less than one binary place
variable {n m : Nat} (hten : 2 ^ n ≤ 10 ^ m) (hten' : 10 ^ m ≤ 2 ^ (n + 1)) {x y : Int}

include hten hten'

theorem ten_zpow_le (hx : x ≤ n) : (10 : ℚ) ^ (m * x) ≤ 2 ^ ((x + 1) * n) := by
  have hlow : (2 : ℚ) ^ n ≤ 10 ^ m := by exact_mod_cast hten
  have hhigh : (10 : ℚ) ^ m ≤ 2 ^ (n + 1) := by exact_mod_cast hten'
  rw [zpow_mul, zpow_natCast]
  rcases le_total 0 x with hpos | hneg
  · calc ((10 : ℚ) ^ m) ^ x ≤ (2 ^ (n + 1)) ^ x := zpow_le_zpow_left₀ hpos (by positivity) hhigh
      _ = 2 ^ ((n + 1 : Nat) * x) := by rw [zpow_mul, zpow_natCast]
      _ ≤ 2 ^ ((x + 1) * n) := zpow_le_zpow_right₀ (by norm_num) (by push_cast; linarith)
  · calc ((10 : ℚ) ^ m) ^ x ≤ (2 ^ n) ^ x := by
          rw [← neg_neg x, zpow_neg, zpow_neg ((2 : ℚ) ^ n)]
          exact inv_anti₀ (by positivity)
            (zpow_le_zpow_left₀ (Int.neg_nonneg.mpr hneg) (by positivity) hlow)
      _ = 2 ^ (n * x) := by rw [zpow_mul, zpow_natCast]
      _ ≤ 2 ^ ((x + 1) * n) := zpow_le_zpow_right₀ (by norm_num) (by linarith)

theorem le_ten_zpow (hx : -x ≤ n) : (2 : ℚ) ^ ((x - 1) * n) ≤ 10 ^ (m * x) := by
  have hle := ten_zpow_le hten hten' hx
  rw [← inv_le_inv₀ (by positivity) (by positivity), ← zpow_neg, ← zpow_neg] at hle
  calc (2 : ℚ) ^ ((x - 1) * n) = 2 ^ (-((-x + 1) * n)) := by congr 1; ring
    _ ≤ 10 ^ (-(m * -x)) := hle
    _ = 10 ^ (m * x) := by congr 1; ring

theorem zpow_bounds (hn : n ≠ 0) (hx : |x| ≤ n) (hy : y = x * m / n) :
    (10 : ℚ) ^ y ≤ 2 ^ (x + 1) ∧ (2 : ℚ) ^ (x - 1) ≤ 10 ^ (y + 1) := by
  have hn' : (0 : Int) < n := by omega
  have hlow : y * n ≤ x * m := hy ▸ Int.ediv_mul_le _ hn'.ne'
  have hhigh : x * m < (y + 1) * n := by
    rw [hy]
    exact Int.lt_ediv_add_one_mul_self _ hn'
  obtain ⟨hx, hx'⟩ := abs_le.mp hx
  constructor
  · refine (pow_le_pow_iff_left₀ (by positivity) (by positivity) hn).mp ?_
    rw [← zpow_natCast, ← zpow_natCast, ← zpow_mul, ← zpow_mul]
    refine le_trans ?_ (ten_zpow_le hten hten' hx')
    exact zpow_le_zpow_right₀ (by norm_num) (by linarith)
  · refine (pow_le_pow_iff_left₀ (by positivity) (by positivity) hn).mp ?_
    rw [← zpow_natCast, ← zpow_natCast, ← zpow_mul, ← zpow_mul]
    refine (le_ten_zpow hten hten' (by omega)).trans ?_
    exact zpow_le_zpow_right₀ (by norm_num) (by linarith)

end Places

theorem pow_places : 2 ^ 100000 ≤ 10 ^ 30103 ∧ 10 ^ 30103 ≤ 2 ^ (100000 + 1) := by
  decide +kernel

theorem zpow_places {x : Int} (hx : |x| ≤ 100000) :
    (10 : ℚ) ^ (x * 30103 / 100000) ≤ 2 ^ (x + 1) ∧
      (2 : ℚ) ^ (x - 1) ≤ 10 ^ (x * 30103 / 100000 + 1) :=
  zpow_bounds pow_places.1 pow_places.2 (by norm_num) hx rfl

section OfMagnitude

variable {f : Format} {m : Nat}

theorem topExponent_bounds {quanta : Nat} (hscale : f.scale ≤ 50000)
    (hquanta : Nat.log2 quanta ≤ 50000) :
    (10 : ℚ) ^ (topExponent f quanta - 19) * 2 ^ (f.scale + 1) ≤
        2 ^ (Nat.log2 quanta + 3) / 10 ^ 17 ∧
      (2 : ℚ) ^ Nat.log2 quanta * 10 ≤ 10 ^ topExponent f quanta * 2 ^ f.scale := by
  have hbits : |(Nat.log2 quanta : Int) + 1 - f.scale| ≤ 100000 :=
    abs_le.mpr ⟨by omega, by omega⟩
  obtain ⟨hhigh, hlow⟩ := zpow_places hbits
  generalize hy : ((Nat.log2 quanta : Int) + 1 - f.scale) * 30103 / 100000 = y at hhigh hlow
  have htop : topExponent f quanta = y + 2 := by rw [topExponent, hy]
  have hadd (k : Nat) (i : Int) : (2 : ℚ) ^ i * 2 ^ k = 2 ^ (i + k) := by
    rw [zpow_add₀ (by norm_num), zpow_natCast]
  rw [htop]
  constructor
  · rw [le_div_iff₀ (by positivity)]
    calc (10 : ℚ) ^ (y + 2 - 19) * 2 ^ (f.scale + 1) * 10 ^ 17
        = 10 ^ y * 2 ^ (f.scale + 1) := by
          rw [show y + 2 - 19 = y - (17 : Nat) by omega, zpow_sub₀ (by norm_num), zpow_natCast]
          field_simp
      _ ≤ 2 ^ ((Nat.log2 quanta : Int) + 1 - f.scale + 1) * 2 ^ (f.scale + 1) := by gcongr
      _ = 2 ^ (Nat.log2 quanta + 3) := by
          rw [hadd, ← zpow_natCast]
          congr 1
          omega
  · calc (2 : ℚ) ^ Nat.log2 quanta * 10
        = 2 ^ ((Nat.log2 quanta : Int) + 1 - f.scale - 1) * 2 ^ f.scale * 10 := by
          rw [hadd, ← zpow_natCast]
          congr 2
          omega
      _ ≤ 10 ^ (y + 1) * 2 ^ f.scale * 10 := by gcongr
      _ = 10 ^ (y + 2) * 2 ^ f.scale := by
          rw [show y + 2 = y + 1 + 1 by omega, zpow_add_one₀ (by norm_num) (y + 1)]
          ring

variable (hfraction : f.fraction ≤ 53) (hscale : f.scale ≤ 50000)
  (hquanta : Nat.log2 (f.quanta m) ≤ 50000) (hm : 0 < m)

include hfraction hscale hquanta hm

theorem last_grid : (Interval.ofMagnitude f m).value +
    halves f 1 (topExponent f (f.quanta m) - 19) < (Interval.ofMagnitude f m).upper := by
  obtain ⟨hfine, -⟩ := topExponent_bounds hscale hquanta
  obtain ⟨e, hnext, hlog, -⟩ := quanta_succ (f := f) hm
  have hpow : (2 : ℚ) ^ (Nat.log2 (f.quanta m) + 3) ≤ 2 ^ (56 + e) :=
    pow_le_pow_right₀ (by norm_num) (by omega)
  have hstep : halves f 1 (topExponent f (f.quanta m) - 19) < 2 ^ e := by
    rw [halves, Nat.cast_one, one_mul]
    refine hfine.trans_lt ((div_lt_iff₀ (by positivity)).mpr (hpow.trans_lt ?_))
    rw [pow_add, mul_comm]
    gcongr
    norm_num
  simp only [Interval.ofMagnitude, hnext]
  push_cast
  linarith

omit hfraction in
theorem first_grid {n : Nat} {e : Int} (he : topExponent f (f.quanta m) ≤ e) (hn : 0 < n) :
    (Interval.ofMagnitude f m).upper < halves f n e := by
  obtain ⟨-, hcoarse⟩ := topExponent_bounds hscale hquanta
  obtain ⟨e', hnext, -, hsmall⟩ := quanta_succ (f := f) hm
  have hlog : (f.quanta m : ℚ) < 2 ^ (Nat.log2 (f.quanta m)) * 2 := by
    have hlt := Nat.lt_log2_self (n := f.quanta m)
    rw [Nat.pow_succ] at hlt
    exact_mod_cast hlt
  have hupper : ((Interval.ofMagnitude f m).upper : ℚ) ≤ 3 * f.quanta m := by
    simp only [Interval.ofMagnitude, hnext]
    exact_mod_cast (by omega)
  have hpow : (10 : ℚ) ^ topExponent f (f.quanta m) ≤ n * 10 ^ e := by
    calc (10 : ℚ) ^ topExponent f (f.quanta m) ≤ 10 ^ e := zpow_le_zpow_right₀ (by norm_num) he
      _ ≤ n * 10 ^ e := le_mul_of_one_le_left (by positivity) (by exact_mod_cast hn)
  calc ((Interval.ofMagnitude f m).upper : ℚ)
      < 2 ^ Nat.log2 (f.quanta m) * 10 * 2 := by linarith
    _ ≤ 10 ^ topExponent f (f.quanta m) * 2 ^ f.scale * 2 := by gcongr
    _ ≤ n * 10 ^ e * 2 ^ f.scale * 2 := by gcongr
    _ = halves f n e := by rw [halves]; ring

end OfMagnitude

end Shortest

structure Format.Standard (f : Format) : Prop where
  proper : f.Proper
  fraction_ne_zero : f.fraction ≠ 0
  fraction_le : f.fraction ≤ Format.double.fraction
  scale_le : f.scale ≤ Format.double.scale
  exponent_le : f.exponent ≤ Format.double.exponent

theorem Format.standard_single : single.Standard :=
  ⟨proper_single, by decide, by decide, by decide, by decide⟩

theorem Format.standard_double : double.Standard :=
  ⟨proper_double, by decide, by decide, by decide, by decide⟩

theorem Format.Standard.log2_quanta {f : Format} {m : Nat} (hf : f.Standard)
    (hm : m < f.infinity) : Nat.log2 (f.quanta m) ≤ 50000 := by
  have hle := f.quanta_strictMono.monotone (Nat.le_sub_one_of_lt hm)
  have hpow : 2 ^ f.exponent ≤ 2 ^ 11 := Nat.pow_le_pow_right Nat.two_pos hf.exponent_le
  have hfraction : f.fraction ≤ 52 := hf.fraction_le
  have htop : f.fraction + 1 + f.topExponent ≤ 50000 := by
    rw [topExponent]
    omega
  rw [quanta_largest hf.proper] at hle
  have hlt : f.quanta m < 2 ^ (f.fraction + 1 + f.topExponent) := by
    rw [Nat.pow_add]
    refine hle.trans_lt (Nat.mul_lt_mul_of_pos_right ?_ (Nat.two_pow_pos _))
    exact Nat.sub_lt (Nat.two_pow_pos _) Nat.one_pos
  by_cases hzero : f.quanta m = 0
  · simp [hzero]
  · exact ((Nat.log2_lt hzero).mpr hlt).le.trans htop

namespace Shortest

theorem ofMagnitude_shortest {f : Format} {m : Nat} (hf : f.Standard) (hm : 0 < m)
    (hm' : m < f.infinity) {d : Decimal} (hd : ofMagnitude f m = d) :
    f.Nearby m (halves f d.digits d.exponent) ∧
      ∀ n e, f.Nearby m (halves f n e) → e ≤ d.exponent ∧ (e = d.exponent →
        |halves f d.digits d.exponent - (2 * f.quanta m : Nat)| ≤
          |halves f n e - (2 * f.quanta m : Nat)|) := by
  have hquanta := hf.log2_quanta hm'
  have hfraction : f.fraction ≤ 53 := hf.fraction_le.trans (by decide)
  have hscale : f.scale ≤ 50000 := hf.scale_le.trans (by decide)
  have hprev := f.quanta_lt_succ (m - 1)
  rw [Nat.sub_add_cancel hm] at hprev
  have hlow : (Interval.ofMagnitude f m).lower < (Interval.ofMagnitude f m).value := by
    simp only [Interval.ofMagnitude]
    omega
  have hhigh : (Interval.ofMagnitude f m).value < (Interval.ofMagnitude f m).upper := by
    have hnext := f.quanta_lt_succ m
    simp only [Interval.ofMagnitude]
    omega
  have hlast : (Interval.ofMagnitude f m).at? f (topExponent f (f.quanta m) - (19 : Nat)) ≠ none :=
    Interval.at?_ne_none hlow hhigh (last_grid hfraction hscale hquanta hm)
  rcases search_cases f (.ofMagnitude f m) 20 (topExponent f (f.quanta m)) with
    ⟨k, hk, n, hn, hfound, hbefore⟩ | hnone
  · obtain rfl : ⟨n, topExponent f (f.quanta m) - k⟩ = d := hfound.symm.trans hd
    refine ⟨(has_ofMagnitude_iff hm hm').mp (Interval.at?_eq_some hn), fun n' e h => ?_⟩
    rw [← has_ofMagnitude_iff hm hm'] at h
    refine ⟨?_, ?_⟩
    · by_contra hlt
      dsimp only at hlt
      by_cases htop : e ≤ topExponent f (f.quanta m)
      · obtain ⟨j, hj, rfl⟩ : ∃ j : Nat, j < k ∧ e = topExponent f (f.quanta m) - j :=
          ⟨(topExponent f (f.quanta m) - e).toNat, by omega, by omega⟩
        exact Interval.at?_eq_none hlow hhigh (hbefore j hj) n' h
      · have hpos : 0 < n' := by
          refine Nat.pos_of_ne_zero fun hzero => ?_
          have hle := h.bounds.1
          rw [hzero, halves, Nat.cast_zero, zero_mul, zero_mul, Interval.ofMagnitude] at hle
          have hle' : f.quanta (m - 1) + f.quanta m ≤ 0 := by exact_mod_cast hle
          omega
        exact absurd h.bounds.2 (not_le.mpr (first_grid hscale hquanta hm (by omega) hpos))
    · rintro rfl
      exact Interval.at?_nearest hlow hhigh hn h
  · exact absurd (hnone 19 (by decide)) hlast

end Shortest

end FormulaMachine
