import FormulaMachine.Proofs.Compiler.Resolution
import FormulaMachine.Proofs.Number.Representable
import FormulaMachine.Proofs.Scalar.Decimals
import FormulaMachine.Proofs.Scalar.Integers

namespace FormulaMachine

namespace Kind

variable {j k : Kind}

theorem bool_or_isInteger_or_isFloat (k : Kind) : k = .bool ∨ k.isInteger ∨ k.isFloat := by
  cases k with
  | bool => exact .inl rfl
  | uint w => exact .inr (.inl rfl)
  | int w => exact .inr (.inl rfl)
  | float32 => exact .inr (.inr rfl)
  | float64 => exact .inr (.inr rfl)

theorem widens_of_wideningCost? {cost : Nat} (h : j.wideningCost? k = some cost) :
    j.widensTo k ∨ (j = .uint .w64 ∨ j = .int .w64) ∧ k = .float64 := by
  unfold wideningCost? at h
  dsimp only at h
  split at h
  · rename_i hjk
    exact .inl (by unfold widensTo; rw [if_pos hjk])
  split at h
  · exact .inl ‹_›
  split at h
  · exact .inr ‹_›
  · cases h

theorem widensTo_of_isInteger (hj : j.isInteger) (hk : k.isInteger) :
    j.widensTo k ↔ (j.isSigned → k.isSigned) ∧ j.precision ≤ k.precision := by
  have hall : ∀ j ∈ all, ∀ k ∈ all, j.isInteger → k.isInteger →
      (j.widensTo k ↔ (j.isSigned → k.isSigned) ∧ j.precision ≤ k.precision) := by decide
  exact hall j (mem_all j) k (mem_all k) hj hk

theorem precision_le_of_widensTo (hj : j.isFloat = false) (hk : k.isFloat) (h : j.widensTo k) :
    j.precision ≤ k.precision := by
  have hall : ∀ j ∈ all, ∀ k ∈ all, j.isFloat = false → k.isFloat → j.widensTo k →
      j.precision ≤ k.precision := by decide
  exact hall j (mem_all j) k (mem_all k) hj hk h

theorem eq_bool_of_widensTo (h : j.widensTo .bool) : j = .bool := by
  have hall : ∀ j ∈ all, j.widensTo .bool → j = .bool := by decide
  exact hall j (mem_all j) h

theorem eq_of_widensTo_float (hj : j.isFloat) (h : j.widensTo k) :
    j = k ∨ j = .float32 ∧ k = .float64 := by
  have hall : ∀ j ∈ all, ∀ k ∈ all, j.isFloat → j.widensTo k →
      j = k ∨ j = .float32 ∧ k = .float64 := by decide
  exact hall j (mem_all j) k (mem_all k) hj h

end Kind

namespace Scalar

variable {j k : Kind} {n : Int}

theorem inRange_iff (hk : k.isInteger) :
    inRange k n ↔ (k.isSigned ∨ 0 ≤ n) ∧ -2 ^ k.precision ≤ n ∧ n < 2 ^ k.precision := by
  cases k with
  | uint w =>
      have hpos : (0 : Int) < 2 ^ w.bits := by positivity
      simp only [inRange, lowest, highest, Kind.isSigned, Kind.precision, Kind.width,
        Nat.one_shiftLeft, Bool.and_eq_true, decide_eq_true_eq, Bool.false_eq_true, if_false,
        false_or, Nat.cast_pow, Nat.cast_ofNat]
      omega
  | int w =>
      simp only [inRange, lowest, highest, Kind.isSigned, Kind.precision, Kind.width,
        Nat.one_shiftLeft, Bool.and_eq_true, decide_eq_true_eq, if_true, true_or, true_and,
        Nat.cast_pow, Nat.cast_ofNat]
      omega
  | _ => cases hk

theorem natAbs_le_precision {x : Scalar j} (h : x.toInt? = some n) :
    n.natAbs ≤ 2 ^ j.precision := by
  cases j with
  | bool =>
      obtain rfl := Option.some.inj h
      exact x.bits.isLt.le
  | uint w =>
      obtain ⟨-, hlow, hhigh⟩ := (inRange_iff rfl).mp (inRange_of_toInt? rfl h).1
      zify
      exact abs_le.mpr ⟨hlow, hhigh.le⟩
  | int w =>
      obtain ⟨-, hlow, hhigh⟩ := (inRange_iff rfl).mp (inRange_of_toInt? rfl h).1
      zify
      exact abs_le.mpr ⟨hlow, hhigh.le⟩
  | float32 => cases h
  | float64 => cases h

theorem inRange_of_widensTo {x : Scalar j} (hx : x.toInt? = some n) (hk : k.isInteger)
    (h : j.widensTo k) : inRange k n := by
  rw [inRange_iff hk]
  cases j with
  | bool =>
      have hlt : x.bits.toNat < 2 := x.bits.isLt
      obtain rfl := Option.some.inj hx
      have hprecision : 1 ≤ k.precision := by
        have hall : ∀ k ∈ Kind.all, 1 ≤ k.precision := by decide
        exact hall k k.mem_all
      have hpow : (2 : Int) ^ 1 ≤ 2 ^ k.precision :=
        pow_le_pow_right₀ (by decide) hprecision
      omega
  | uint w | int w =>
      obtain ⟨hsigned, hprecision⟩ := (Kind.widensTo_of_isInteger rfl hk).mp h
      obtain ⟨hsign, hlow, hhigh⟩ := (inRange_iff rfl).mp (inRange_of_toInt? rfl hx).1
      have hpow := pow_le_pow_right₀ (show (1 : Int) ≤ 2 by decide) hprecision
      exact ⟨hsign.imp_left hsigned, by linarith, by linarith⟩
  | float32 => cases hx
  | float64 => cases hx

theorem widensTo_iff_inRange (hj : j.isInteger) (hk : k.isInteger) :
    j.widensTo k ↔ ∀ (x : Scalar j) (n : Int), x.toInt? = some n → inRange k n := by
  refine ⟨fun h x n hx => inRange_of_widensTo hx hk h, fun h => ?_⟩
  have hfits (n : Int) (hn : inRange j n) := (inRange_iff hk).mp (h _ n (toInt?_wrap hj hn))
  have hpos : (0 : Int) < 2 ^ j.precision := by positivity
  rw [Kind.widensTo_of_isInteger hj hk]
  constructor
  · intro hsigned
    obtain ⟨hsign, -⟩ := hfits (-2 ^ j.precision) ((inRange_iff hj).mpr ⟨.inl hsigned, by omega⟩)
    exact hsign.resolve_right (by omega)
  · obtain ⟨-, -, hhigh⟩ := hfits (2 ^ j.precision - 1)
      ((inRange_iff hj).mpr ⟨.inr (by omega), by omega⟩)
    exact (pow_le_pow_iff_right₀ (show (1 : Int) < 2 by decide)).mp (by omega)

section Floats

variable {units : Nat} (negative : Bool)

theorem value_ofFloatValue32 (h : Format.single.HasUnits units) :
    (ofFloatValue32 (.finite negative units)).value = .finite negative units := by
  have hdecode := Format.decode_encode (by decide) h negative
  rwa [← Format.decode_mod] at hdecode

theorem value_ofFloatValue64 (h : Format.double.HasUnits units) :
    (ofFloatValue64 (.finite negative units)).value = .finite negative units := by
  have hdecode := Format.decode_encode (Nat.le_refl _) h negative
  rwa [← Format.decode_mod] at hdecode

end Floats

theorem value_of_toInt? {x : Scalar j} (h : x.toInt? = some n) : x.value = .ofInt n := by
  cases j with
  | float32 => cases h
  | float64 => cases h
  | _ =>
      obtain rfl := Option.some.inj h
      rfl

theorem value_ofInt? {y : Scalar k} (hk : k.isFloat) (hn : n.natAbs ≤ 2 ^ k.precision)
    (h : ofInt? k n = some y) : y.value = .ofInt n := by
  cases k with
  | float32 =>
      obtain rfl := Option.some.inj h
      exact value_ofFloatValue32 _
        (Format.hasUnits_whole Format.proper_single (by decide) (by decide) hn)
  | float64 =>
      obtain rfl := Option.some.inj h
      exact value_ofFloatValue64 _
        (Format.hasUnits_whole Format.proper_double (by decide) (by decide) hn)
  | _ => cases hk

theorem cast_of_ofInt? {x : Scalar j} {y : Scalar k} (checked : Bool) (hjk : j ≠ k)
    (hx : x.toInt? = some n) (hy : ofInt? k n = some y) : cast checked k x = .ok y := by
  rw [cast, dif_neg hjk, hx]
  simp only [hy]

theorem cast_float64_of_float32 {x : Scalar .float32} (hx : x.isFinite) :
    ∃ y : Scalar .float64, cast true .float64 x = .ok y ∧ y.value = x.value := by
  obtain ⟨units, hvalue, hunits⟩ := Format.hasUnits_of_isFinite hx
  have hdouble : Format.double.HasUnits units :=
    hunits.widen Format.proper_double (by decide) (by decide) (by decide) Format.proper_single
      (by decide)
  have hx : x.value = .finite (Format.single.negative x.bits.toNat) units := hvalue
  refine ⟨ofFloatValue64 x.value, ?_, ?_⟩
  · rw [cast, dif_neg (by decide)]
    simp only [toInt?, hx]
    rfl
  · rw [hx, value_ofFloatValue64 _ hdouble]

end Scalar

namespace Resolution

variable {implicitCasts : Bool} {target : Kind}

theorem mem_wideningsTo {ks : List Kind} {w : Widening} (h : w ∈ wideningsTo target ks) :
    w.source ∈ ks ∧ w.target = target ∧ w.source ≠ w.target := by
  induction ks with
  | nil => cases h
  | cons k ks ih =>
      rw [wideningsTo] at h
      split at h
      · exact (ih h).imp_left (List.mem_cons_of_mem _)
      · rename_i hk
        rcases List.mem_cons.mp h with rfl | hmem
        · exact ⟨List.mem_cons_self, rfl, hk⟩
        · exact (ih hmem).imp_left (List.mem_cons_of_mem _)

theorem wideningCost?_of_scaleWidening? {depth : Nat} {s k : Kind} {ws : List Widening}
    (h : scaleWidening? implicitCasts depth s k = some ws) {w : Widening} (hw : w ∈ ws) :
    w.source ≠ w.target ∧ ∃ cost, w.source.wideningCost? w.target = some cost := by
  unfold scaleWidening? at h
  split at h
  · cases h
  split at h
  · obtain rfl := Option.some.inj h
    cases hw
  rename_i hsk
  split at h
  · obtain ⟨cost, hcost, rfl⟩ := Option.map_eq_some_iff.mp h
    obtain rfl := List.mem_singleton.mp hw
    exact ⟨hsk, cost, hcost⟩
  · cases h

theorem wideningCost?_of_ofMatrices {kernel : Kernel} {operands : List DataType} {r : Resolution}
    (h : ofMatrices kernel implicitCasts operands = .ok r) {w : Widening} (hw : w ∈ r.widenings) :
    w.source ≠ w.target ∧ ∃ cost, w.source.wideningCost? w.target = some cost := by
  unfold ofMatrices at h
  split at h
  · obtain ⟨-, -, -, -, rfl⟩ := ofSameShape_eq_ok h
    cases hw
  · obtain ⟨-, -, -, -, rfl⟩ := ofSameShape_eq_ok h
    cases hw
  · obtain ⟨-, -, -, rfl⟩ := ofProduct_eq_ok h
    cases hw
  · obtain ⟨ws, hws, rfl⟩ := ofScale_eq_ok h
    exact wideningCost?_of_scaleWidening? hws hw
  · obtain ⟨ws, hws, rfl⟩ := ofScale_eq_ok h
    exact wideningCost?_of_scaleWidening? hws hw
  · cases h

theorem wideningCost?_of_resolve {kernel : Kernel} {operands : List DataType} {r : Resolution}
    (h : kernel.resolve implicitCasts operands = .ok r) {w : Widening} (hw : w ∈ r.widenings) :
    w.source ≠ w.target ∧ ∃ cost, w.source.wideningCost? w.target = some cost := by
  unfold Kernel.resolve at h
  split at h
  · exact wideningCost?_of_ofMatrices h hw
  split at h
  · unfold ofScalars at h
    split at h
    · cases h
    rename_i k hk
    obtain rfl := Except.ok.inj h
    obtain ⟨-, s, hs⟩ := chooseKind?_eq_some hk
    obtain ⟨hmem, rfl, hne⟩ := mem_wideningsTo hw
    exact ⟨hne, (wideningCost?_of_score? hs _ hmem).resolve_left hne⟩
  · cases h

end Resolution

namespace Widening

def IsLossy (w : Widening) : Prop :=
  (w.source = .uint .w64 ∨ w.source = .int .w64) ∧ w.target = .float64

structure Keeps (w : Widening) (x : Scalar w.source) (y : Scalar w.target) : Prop where
  integer : w.target.isInteger → ∃ n, x.toInt? = some n ∧ y.toInt? = some n
  single : w.target = .float32 → ∀ n, x.toInt? = some n → n.natAbs ≤ 2 ^ 24
  double : w.target = .float64 → ¬ w.IsLossy → ∀ n, x.toInt? = some n → n.natAbs ≤ 2 ^ 53
  value : ¬ w.IsLossy → y.value = x.value

variable {w : Widening}

theorem keeps_of_isInteger (hk : w.target.isInteger) (hw : w.source.widensTo w.target)
    {x : Scalar w.source} {n : Int} (hx : x.toInt? = some n) :
    ∃ y, Scalar.ofInt? w.target n = some y ∧ w.Keeps x y := by
  have hy := Scalar.toInt?_wrap hk (Scalar.inRange_of_widensTo hx hk hw)
  refine ⟨Scalar.wrap w.target n, (Scalar.ofInt?_eq_some_iff hk).mpr hy, fun _ => ⟨n, hx, hy⟩,
    fun hfloat => ?_, fun hfloat => ?_, fun _ => ?_⟩
  · rw [hfloat] at hk
    cases hk
  · rw [hfloat] at hk
    cases hk
  · rw [Scalar.value_of_toInt? hx, Scalar.value_of_toInt? hy]

theorem keeps_of_isFloat (hk : w.target.isFloat) (hw : w.source.widensTo w.target ∨ w.IsLossy)
    {x : Scalar w.source} {n : Int} (hx : x.toInt? = some n) :
    ∃ y, Scalar.ofInt? w.target n = some y ∧ w.Keeps x y := by
  have hdigits (hexact : ¬ w.IsLossy) : n.natAbs ≤ 2 ^ w.target.precision := by
    have hj : w.source.isFloat = false := by
      generalize w.source = j at x hx
      cases j with
      | float32 => cases hx
      | float64 => cases hx
      | _ => rfl
    exact (Scalar.natAbs_le_precision hx).trans (Nat.pow_le_pow_right Nat.two_pos
      (Kind.precision_le_of_widensTo hj hk (hw.resolve_right hexact)))
  obtain ⟨y, hy⟩ : ∃ y, Scalar.ofInt? w.target n = some y := by
    generalize w.target = k at hk
    cases k with
    | float32 => exact ⟨_, rfl⟩
    | float64 => exact ⟨_, rfl⟩
    | _ => cases hk
  refine ⟨y, hy, fun hinteger => ?_, fun htarget m hm => ?_, fun htarget hexact m hm => ?_,
    fun hexact => ?_⟩
  · rw [Kind.isFloat_of_isInteger hinteger] at hk
    cases hk
  · obtain rfl := Option.some.inj (hx.symm.trans hm)
    have hexact : ¬ w.IsLossy := fun hlossy => by
      rw [hlossy.2] at htarget
      cases htarget
    have hle := hdigits hexact
    rwa [htarget] at hle
  · obtain rfl := Option.some.inj (hx.symm.trans hm)
    have hle := hdigits hexact
    rwa [htarget] at hle
  · rw [Scalar.value_ofInt? hk (hdigits hexact) hy, Scalar.value_of_toInt? hx]

theorem keeps_of_toInt? (hne : w.source ≠ w.target)
    (hw : w.source.widensTo w.target ∨ w.IsLossy) {x : Scalar w.source} {n : Int}
    (hx : x.toInt? = some n) : ∃ y, Scalar.cast true w.target x = .ok y ∧ w.Keeps x y := by
  suffices h : ∃ y, Scalar.ofInt? w.target n = some y ∧ w.Keeps x y by
    obtain ⟨y, hy, hkeeps⟩ := h
    exact ⟨y, Scalar.cast_of_ofInt? true hne hx hy, hkeeps⟩
  rcases hw with hwidens | hlossy
  · rcases w.target.bool_or_isInteger_or_isFloat with hk | hk | hk
    · rw [hk] at hwidens
      exact absurd ((Kind.eq_bool_of_widensTo hwidens).trans hk.symm) hne
    · exact keeps_of_isInteger hk hwidens hx
    · exact keeps_of_isFloat hk (.inl hwidens) hx
  · exact keeps_of_isFloat (by rw [hlossy.2]; rfl) (.inr hlossy) hx

theorem exists_keeps {kernel : Kernel} {implicitCasts : Bool} {operands : List DataType}
    {r : Resolution} (h : kernel.resolve implicitCasts operands = .ok r) (hw : w ∈ r.widenings)
    (x : Scalar w.source) (hx : w.source = .float32 → x.isFinite) :
    ∃ y, Scalar.cast true w.target x = .ok y ∧ w.Keeps x y := by
  obtain ⟨hne, cost, hcost⟩ := Resolution.wideningCost?_of_resolve h hw
  have hwidens := Kind.widens_of_wideningCost? hcost
  clear hw
  obtain ⟨depth, j, k⟩ := w
  cases hn : x.toInt? with
  | some n => exact keeps_of_toInt? hne hwidens hn
  | none =>
      have hj : j.isFloat := by
        by_contra hj
        obtain ⟨n, hsome⟩ := Scalar.exists_toInt? (Bool.eq_false_iff.mpr hj) x
        rw [hsome] at hn
        cases hn
      have hexact : j.widensTo k := hwidens.resolve_right fun hlossy => by
        rcases hlossy.1 with rfl | rfl <;> cases hj
      obtain ⟨rfl, rfl⟩ := (Kind.eq_of_widensTo_float hj hexact).resolve_left hne
      obtain ⟨y, hy, hvalue⟩ := Scalar.cast_float64_of_float32 (hx rfl)
      refine ⟨y, hy, by rintro ⟨⟩, by rintro ⟨⟩, fun _ _ n hn' => ?_, fun _ => hvalue⟩
      rw [hn] at hn'
      cases hn'

end Widening

end FormulaMachine
