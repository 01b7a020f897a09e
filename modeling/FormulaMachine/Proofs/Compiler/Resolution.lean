import FormulaMachine.Operator

namespace FormulaMachine

namespace Resolution

def widenAt (depth : Nat) (s k : Kind) : List Widening :=
  if s = k then [] else [⟨depth, s, k⟩]

inductive Shape (kernel : Kernel) : List DataType → Resolution → Prop
  | scalars {ks k} (hk : k ∈ kernel.kinds) :
      Shape kernel (ks.map .scalar) ⟨.scalar kernel k, wideningsTo k ks,
        ks.map fun _ => .scalar k, .scalar (kernel.resultKind k)⟩
  | sum {k rows cols} (hkernel : kernel = .arithmetic .sum) (hk : k.isFloat) :
      Shape kernel [.matrix k rows cols, .matrix k rows cols] ⟨.matrix .sum, [],
        [.matrix k rows cols, .matrix k rows cols], .matrix k rows cols⟩
  | sub {k rows cols} (hkernel : kernel = .arithmetic .sub) (hk : k.isFloat) :
      Shape kernel [.matrix k rows cols, .matrix k rows cols] ⟨.matrix .sub, [],
        [.matrix k rows cols, .matrix k rows cols], .matrix k rows cols⟩
  | product {k rows inner cols} (hkernel : kernel = .arithmetic .mul) (hk : k.isFloat) :
      Shape kernel [.matrix k rows inner, .matrix k inner cols] ⟨.matrix .product, [],
        [.matrix k rows inner, .matrix k inner cols], .matrix k rows cols⟩
  | scaleLeft {s k rows cols} (hkernel : kernel = .arithmetic .mul) (hk : k.isFloat) :
      Shape kernel [.scalar s, .matrix k rows cols] ⟨.matrix .scaleLeft, widenAt 1 s k,
        [.scalar k, .matrix k rows cols], .matrix k rows cols⟩
  | scaleRight {s k rows cols} (hkernel : kernel = .arithmetic .mul) (hk : k.isFloat) :
      Shape kernel [.matrix k rows cols, .scalar s] ⟨.matrix .scaleRight, widenAt 0 s k,
        [.matrix k rows cols, .scalar k], .matrix k rows cols⟩

theorem better_mem {best : Option (Score × Kind)} {candidate found : Score × Kind}
    (h : better best candidate = some found) : best = some found ∨ candidate = found := by
  unfold better at h
  split at h
  · exact .inr (Option.some.inj h)
  · split at h
    · exact .inr (Option.some.inj h)
    · exact .inl h

theorem foldl_better_mem {candidates : List (Score × Kind)} {best : Option (Score × Kind)}
    {found : Score × Kind} (h : candidates.foldl better best = some found) :
    best = some found ∨ found ∈ candidates := by
  induction candidates generalizing best with
  | nil => exact .inl h
  | cons candidate candidates ih =>
      rcases ih h with hbest | hmem
      · rcases better_mem hbest with hbest | rfl
        · exact .inl hbest
        · exact .inr (List.mem_cons_self ..)
      · exact .inr (List.mem_cons_of_mem _ hmem)

theorem chooseKind?_eq_some {implicitCasts : Bool} {targets operands : List Kind} {k : Kind}
    (h : chooseKind? implicitCasts targets operands = some k) :
    k ∈ targets ∧ ∃ s, score? implicitCasts k operands = some s := by
  unfold chooseKind? at h
  obtain ⟨⟨s, k'⟩, hfound, rfl⟩ := Option.map_eq_some_iff.mp h
  rcases foldl_better_mem hfound with hnone | hmem
  · cases hnone
  · obtain ⟨target, htarget, hscore⟩ := List.mem_filterMap.mp hmem
    obtain ⟨score, hsome, heq⟩ := Option.map_eq_some_iff.mp hscore
    obtain ⟨-, rfl⟩ := Prod.mk.inj heq
    exact ⟨htarget, score, hsome⟩

theorem chooseKind?_mem {implicitCasts : Bool} {targets operands : List Kind} {k : Kind}
    (h : chooseKind? implicitCasts targets operands = some k) : k ∈ targets :=
  (chooseKind?_eq_some h).1

theorem eq_bool_of_wideningCost? {k : Kind} {cost : Nat}
    (h : k.wideningCost? .bool = some cost) : k = .bool := by
  cases k with
  | bool => rfl
  | uint w => cases w <;> cases h
  | int w => cases w <;> cases h
  | float32 => cases h
  | float64 => cases h

theorem wideningCost?_of_score? {implicitCasts : Bool} {target : Kind} {ks : List Kind}
    {s : Score} (h : score? implicitCasts target ks = some s) :
    ∀ k ∈ ks, k = target ∨ ∃ cost, k.wideningCost? target = some cost := by
  induction ks generalizing s with
  | nil => exact fun k hk => absurd hk List.not_mem_nil
  | cons k ks ih =>
      rw [score?] at h
      split at h
      · cases h
      rename_i s' hs'
      refine List.forall_mem_cons.mpr ⟨?_, ih hs'⟩
      split at h
      · exact .inl ‹_›
      · split at h
        · obtain ⟨cost, hcost, -⟩ := Option.map_eq_some_iff.mp h
          exact .inr ⟨cost, hcost⟩
        · cases h

theorem scaleWidening?_eq_some {implicitCasts : Bool} {depth : Nat} {s k : Kind}
    {ws : List Widening} (h : scaleWidening? implicitCasts depth s k = some ws) :
    k.isFloat ∧ ws = widenAt depth s k := by
  unfold scaleWidening? at h
  split at h
  · cases h
  rename_i hk
  have hfloat : k.isFloat := by simpa using hk
  split at h
  · rename_i hs
    exact ⟨hfloat, by rw [widenAt, if_pos hs, Option.some.inj h]⟩
  rename_i hs
  split at h
  · obtain ⟨cost, -, rfl⟩ := Option.map_eq_some_iff.mp h
    exact ⟨hfloat, by rw [widenAt, if_neg hs]⟩
  · cases h

theorem ofScale_eq_ok {op : MatrixOp} {m : DataType} {inputs : List DataType}
    {ws : Option (List Widening)} {r : Resolution} (h : ofScale op m inputs ws = .ok r) :
    ∃ ws', ws = some ws' ∧ r = ⟨.matrix op, ws', inputs, m⟩ := by
  cases ws with
  | none => cases h
  | some ws' => exact ⟨ws', rfl, (Except.ok.inj h).symm⟩

theorem ofSameShape_eq_ok {op : MatrixOp} {k j : Kind} {rows cols rows' cols' : Nat}
    {r : Resolution}
    (h : ofSameShape op (.matrix k rows cols) (.matrix j rows' cols') k j = .ok r) :
    k.isFloat ∧ j = k ∧ rows' = rows ∧ cols' = cols ∧
      r = ⟨.matrix op, [], [.matrix k rows cols, .matrix k rows cols], .matrix k rows cols⟩ := by
  unfold ofSameShape at h
  split at h
  · cases h
  rename_i hk
  split at h
  · cases h
  rename_i hdims
  obtain ⟨hfloat, rfl⟩ : k.isFloat ∧ k = j := by simpa using hk
  obtain ⟨rfl, rfl⟩ : rows = rows' ∧ cols = cols' := by simpa [DataType.dims] using hdims
  exact ⟨hfloat, rfl, rfl, rfl, (Except.ok.inj h).symm⟩

theorem ofProduct_eq_ok {k j : Kind} {rows cols rows' cols' : Nat} {r : Resolution}
    (h : ofProduct (.matrix k rows cols) (.matrix j rows' cols') k j = .ok r) :
    k.isFloat ∧ j = k ∧ rows' = cols ∧ r = ⟨.matrix .product, [],
      [.matrix k rows cols, .matrix k cols cols'], .matrix k rows cols'⟩ := by
  unfold ofProduct at h
  split at h
  · cases h
  rename_i hk
  split at h
  · cases h
  rename_i hdims
  obtain ⟨hfloat, rfl⟩ : k.isFloat ∧ k = j := by simpa using hk
  obtain rfl : cols = rows' := by simpa [DataType.dims] using hdims
  exact ⟨hfloat, rfl, rfl, (Except.ok.inj h).symm⟩

theorem shape_of_ofMatrices {kernel : Kernel} {implicitCasts : Bool} {operands : List DataType}
    {r : Resolution} (h : ofMatrices kernel implicitCasts operands = .ok r) :
    Shape kernel operands r := by
  unfold ofMatrices at h
  split at h
  · obtain ⟨hk, rfl, rfl, rfl, rfl⟩ := ofSameShape_eq_ok h
    exact .sum rfl hk
  · obtain ⟨hk, rfl, rfl, rfl, rfl⟩ := ofSameShape_eq_ok h
    exact .sub rfl hk
  · obtain ⟨hk, rfl, rfl, rfl⟩ := ofProduct_eq_ok h
    exact .product rfl hk
  · obtain ⟨ws, hws, rfl⟩ := ofScale_eq_ok h
    obtain ⟨hk, rfl⟩ := scaleWidening?_eq_some hws
    exact .scaleLeft rfl hk
  · obtain ⟨ws, hws, rfl⟩ := ofScale_eq_ok h
    obtain ⟨hk, rfl⟩ := scaleWidening?_eq_some hws
    exact .scaleRight rfl hk
  · cases h

theorem map_scalar_of_kinds {operands : List DataType} {ks : List Kind}
    (hmatrix : ¬ operands.any DataType.isMatrix) (h : operands.mapM DataType.kind? = some ks) :
    operands = ks.map .scalar := by
  induction operands generalizing ks with
  | nil =>
      obtain rfl : [] = ks := Option.some.inj h
      rfl
  | cons t operands ih =>
      simp only [List.any_cons, Bool.or_eq_true, not_or] at hmatrix
      rw [List.mapM_cons] at h
      obtain ⟨k, hk, h⟩ := Option.bind_eq_some_iff.mp h
      obtain ⟨ks', hks, h⟩ := Option.bind_eq_some_iff.mp h
      obtain rfl : k :: ks' = ks := Option.some.inj h
      rw [List.map_cons, ← ih hmatrix.2 hks]
      cases t with
      | void => cases hk
      | scalar j =>
          obtain rfl : j = k := Option.some.inj hk
          rfl
      | matrix j rows cols => exact absurd rfl hmatrix.1

theorem shape_of_resolve {kernel : Kernel} {implicitCasts : Bool} {operands : List DataType}
    {r : Resolution} (h : kernel.resolve implicitCasts operands = .ok r) :
    Shape kernel operands r := by
  unfold Kernel.resolve at h
  split at h
  · exact shape_of_ofMatrices h
  rename_i hmatrix
  split at h
  · rename_i ks hks
    unfold ofScalars at h
    split at h
    · cases h
    rename_i k hk
    obtain rfl := Except.ok.inj h
    rw [map_scalar_of_kinds hmatrix hks]
    exact .scalars (chooseKind?_mem hk)
  · cases h

theorem kinds_map_scalar (ks : List Kind) :
    (ks.map DataType.scalar).mapM DataType.kind? = some ks := by
  induction ks with
  | nil => rfl
  | cons k ks ih =>
      rw [List.map_cons, List.mapM_cons, ih]
      rfl

theorem eq_bool_of_resolve {kernel kernel' : Kernel} {implicitCasts : Bool} {ks : List Kind}
    {r : Resolution} (h : kernel.resolve implicitCasts (ks.map .scalar) = .ok r)
    (hr : r.operation = .scalar kernel' .bool) : ∀ k ∈ ks, k = .bool := by
  have hmatrix : (ks.map DataType.scalar).any DataType.isMatrix = false := by
    simp [DataType.isMatrix]
  rw [Kernel.resolve, hmatrix, kinds_map_scalar] at h
  simp only [Bool.false_eq_true, if_false] at h
  unfold ofScalars at h
  split at h
  · cases h
  · rename_i k hk
    obtain rfl := Except.ok.inj h
    obtain ⟨-, rfl⟩ := Operation.scalar.inj hr
    obtain ⟨-, s, hs⟩ := chooseKind?_eq_some hk
    intro j hj
    rcases wideningCost?_of_score? hs j hj with rfl | ⟨cost, hcost⟩
    · rfl
    · exact eq_bool_of_wideningCost? hcost

theorem depth_lt_of_mem_wideningsTo {k : Kind} {ks : List Kind} {w : Widening}
    (hw : w ∈ wideningsTo k ks) : w.depth < ks.length := by
  induction ks with
  | nil => cases hw
  | cons j ks ih =>
      rw [wideningsTo] at hw
      split at hw
      · exact Nat.lt_succ_of_lt (ih hw)
      · rcases List.mem_cons.mp hw with rfl | hw
        · exact Nat.lt_succ_self _
        · exact Nat.lt_succ_of_lt (ih hw)

theorem Shape.depth_lt {kernel : Kernel} {operands : List DataType} {r : Resolution}
    (hshape : Shape kernel operands r) {w : Widening} (hw : w ∈ r.widenings) :
    w.depth < operands.length := by
  have hat {depth : Nat} {s k : Kind} (hw : w ∈ widenAt depth s k) :
      w.depth = depth := by
    unfold widenAt at hw
    split at hw
    · cases hw
    · rw [List.mem_singleton.mp hw]
  cases hshape with
  | scalars hk =>
      rw [List.length_map]
      exact depth_lt_of_mem_wideningsTo hw
  | sum | sub | product => cases hw
  | scaleLeft => exact Nat.lt_of_le_of_lt (Nat.le_of_eq (hat hw)) Nat.one_lt_two
  | scaleRight => exact Nat.lt_of_le_of_lt (Nat.le_of_eq (hat hw)) Nat.two_pos

end Resolution

end FormulaMachine
