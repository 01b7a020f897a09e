import FormulaMachine.Proofs.Compiler.Emission

namespace FormulaMachine

namespace Draft

variable {o : CompileOptions} {line : Nat} {d d' : Draft} {p : Program} {hs : List Held}

inductive Applies (p : Program) (kernel : Kernel) (r : Resolution) (rest : List Held) :
    List Held → List Held → Held → Opcode → Prop
  | scalars {ks : List Kind} {k : Kind} (hk : k ∈ kernel.kinds)
      (hlen : ks.length = kernel.arity) (hr : r = ⟨.scalar kernel k,
        Resolution.wideningsTo k ks, ks.map fun _ => .scalar k,
        .scalar (kernel.resultKind k)⟩) :
      Applies p kernel r rest (ks.map .scalar) (ks.map fun _ => .scalar k)
        (.scalar (kernel.resultKind k)) (.scalar kernel k)
  | matrices {op : MatrixOp} {target : Nat} {a b a' b' : Held} (hop : r.operation = .matrix op)
      (hout : r.output = p.matrixType target)
      (hin : r.inputs = [p.heldType a', p.heldType b']) (harity : kernel.arity = 2)
      (hbrings : Brings r.widenings [a, b] [a', b']) (hc : p.Combines op target a' b')
      (htemp : p.Temporary target) (hfree : .matrix target ∉ b' :: a' :: rest) :
      Applies p kernel r rest [a, b] [a', b'] (.matrix target) (.matrix op target)

namespace Applies

variable {kernel : Kernel} {r : Resolution} {xs ys rest : List Held} {x : Held} {opcode : Opcode}

theorem admits (h : Applies p kernel r rest xs ys x opcode) (line : Nat)
    (spelling : Option String) :
    p.Admits (ys.reverse ++ rest) ⟨opcode, line, r.inputs, some r.output, spelling⟩
      (x :: rest) := by
  cases h with
  | scalars hk hlen hr =>
      subst hr
      simp only [List.map_const', List.reverse_replicate, hlen]
      exact .scalar hk
  | matrices hop hout hin harity hbrings hc htemp hfree =>
      rw [hout, hin]
      exact .matrix hc htemp hfree

theorem brings (h : Applies p kernel r rest xs ys x opcode) : Brings r.widenings xs ys := by
  cases h with
  | @scalars ks k hk hlen hr =>
      subst hr
      exact .to_kind k ks
  | matrices hop hout hin harity hbrings => exact hbrings

theorem length_eq (h : Applies p kernel r rest xs ys x opcode) : xs.length = kernel.arity := by
  cases h with
  | scalars hk hlen => rw [List.length_map, hlen]
  | matrices hop hout hin harity => rw [harity]; rfl

theorem inputs_eq (h : Applies p kernel r rest xs ys x opcode) :
    r.inputs = ys.map p.heldType := by
  cases h with
  | scalars hk hlen hr =>
      subst hr
      rw [List.map_map]
      rfl
  | matrices hop hout hin => exact hin

end Applies

theorem SlotsHold.types {y : Layout} {slots : List Slot} (h : SlotsHold p y slots hs) :
    slots.map Slot.type = hs.map p.heldType := by
  induction h with
  | nil => rfl
  | cons hs _ ih => rw [List.map_cons, List.map_cons, hs.type_eq, ih]

theorem take_scalars {y : Layout} {slots : List Slot} {js : List Kind}
    (h : SlotsHold p y slots hs)
    (htypes : (slots.take js.length).map Slot.type = js.map .scalar) :
    ∃ rest, hs = js.map .scalar ++ rest ∧ SlotsHold p y (slots.drop js.length) rest := by
  induction js generalizing slots hs with
  | nil => exact ⟨hs, rfl, h⟩
  | cons j js ih =>
      cases h with
      | nil => cases htypes
      | @cons s x slots hs hx hrest =>
          obtain ⟨hs, htypes⟩ := List.cons.inj htypes
          obtain ⟨-, rfl⟩ := hx.eq_scalar hs
          obtain ⟨rest, rfl, hslots⟩ := ih hrest htypes
          exact ⟨rest, rfl, hslots⟩

theorem combine_of_shape {y : Layout} {kernel : Kernel} {r : Resolution} {op : MatrixOp}
    {target : Nat} {sa sb : Slot} {a b : Held} (ha : SlotHolds p y sa a)
    (hb : SlotHolds p y sb b) {operands : List DataType}
    (hoperands : operands = [sa.type, sb.type])
    (hshape : Resolution.Shape kernel operands r) (hop : r.operation = .matrix op)
    (ht : p.matrixType target = r.output) :
    ∃ a' b', Brings r.widenings [a, b] [a', b'] ∧
      p.Combines op target a' b' ∧ r.inputs = [p.heldType a', p.heldType b'] := by
  cases hshape with
  | scalars => cases hop
  | sum hkernel hk =>
      obtain rfl := Operation.matrix.inj hop
      obtain ⟨hsa, hsb⟩ : _ = sa.type ∧ _ = sb.type := by simpa using hoperands
      obtain ⟨m, rfl, hm⟩ := ha.eq_matrix hsa.symm
      obtain ⟨n, rfl, hn⟩ := hb.eq_matrix hsb.symm
      refine ⟨.matrix m, .matrix n, .same _ (.same _ .nil), .sum hk ht hm hn, ?_⟩
      simp only [Program.heldType, hm, hn]
  | sub hkernel hk =>
      obtain rfl := Operation.matrix.inj hop
      obtain ⟨hsa, hsb⟩ : _ = sa.type ∧ _ = sb.type := by simpa using hoperands
      obtain ⟨m, rfl, hm⟩ := ha.eq_matrix hsa.symm
      obtain ⟨n, rfl, hn⟩ := hb.eq_matrix hsb.symm
      refine ⟨.matrix m, .matrix n, .same _ (.same _ .nil), .sub hk ht hm hn, ?_⟩
      simp only [Program.heldType, hm, hn]
  | product hkernel hk =>
      obtain rfl := Operation.matrix.inj hop
      obtain ⟨hsa, hsb⟩ : _ = sa.type ∧ _ = sb.type := by simpa using hoperands
      obtain ⟨m, rfl, hm⟩ := ha.eq_matrix hsa.symm
      obtain ⟨n, rfl, hn⟩ := hb.eq_matrix hsb.symm
      refine ⟨.matrix m, .matrix n, .same _ (.same _ .nil), .product hk ht hm hn, ?_⟩
      simp only [Program.heldType, hm, hn]
  | @scaleLeft s k rows cols hkernel hk =>
      obtain rfl := Operation.matrix.inj hop
      obtain ⟨hsa, hsb⟩ : _ = sa.type ∧ _ = sb.type := by simpa using hoperands
      obtain ⟨-, rfl⟩ := ha.eq_scalar hsa.symm
      obtain ⟨n, rfl, hn⟩ := hb.eq_matrix hsb.symm
      refine ⟨.scalar k, .matrix n, .one s k [.matrix n], .scaleLeft hk ht hn, ?_⟩
      simp only [Program.heldType, hn]
  | @scaleRight s k rows cols hkernel hk =>
      obtain rfl := Operation.matrix.inj hop
      obtain ⟨hsa, hsb⟩ : _ = sa.type ∧ _ = sb.type := by simpa using hoperands
      obtain ⟨m, rfl, hm⟩ := ha.eq_matrix hsa.symm
      obtain ⟨-, rfl⟩ := hb.eq_scalar hsb.symm
      refine ⟨.matrix m, .scalar k, .same _ (.one s k []), .scaleRight hk ht hm, ?_⟩
      simp only [Program.heldType, hm]

theorem scalars_of_shape {kernel kernel' : Kernel} {r : Resolution} {k : Kind}
    {operands : List DataType} (hshape : Resolution.Shape kernel operands r)
    (hop : r.operation = .scalar kernel' k) :
    ∃ ks, operands = ks.map .scalar ∧ kernel' = kernel ∧ k ∈ kernel.kinds ∧
      r = ⟨.scalar kernel k, Resolution.wideningsTo k ks, ks.map fun _ => .scalar k,
        .scalar (kernel.resultKind k)⟩ := by
  cases hshape with
  | @scalars ks k' hk =>
      obtain ⟨rfl, rfl⟩ := Operation.scalar.inj hop
      exact ⟨ks, rfl, rfl, hk, rfl⟩
  | _ => cases hop

theorem arity_of_shape {kernel : Kernel} {r : Resolution} {op : MatrixOp}
    {operands : List DataType} (hshape : Resolution.Shape kernel operands r)
    (hop : r.operation = .matrix op) : kernel.arity = 2 := by
  cases hshape with
  | scalars => cases hop
  | sum hkernel => rw [hkernel]; rfl
  | sub hkernel => rw [hkernel]; rfl
  | product hkernel => rw [hkernel]; rfl
  | scaleLeft hkernel => rw [hkernel]; rfl
  | scaleRight hkernel => rw [hkernel]; rfl

theorem operator_emits {name : String} (hd : d.layout.Sound)
    (hslots : SlotsHold p d.layout d.stack.slots hs) (hdepth : hs.length ≤ d.maxDepth)
    (h : operator o line d name = .ok d') (hlead : d'.Leads p) :
    ∃ kernel r xs ys x rest opcode spelling, Kernel.ofName? name = some kernel ∧
      kernel.resolve o.implicitCasts ((hs.take kernel.arity).map p.heldType).reverse = .ok r ∧
      hs = xs.reverse ++ rest ∧ Applies p kernel r rest xs ys x opcode ∧
      d.Emits p d' hs
        (r.widenings.map (widenEntry line) ++ [⟨opcode, line, r.inputs, some r.output, spelling⟩])
        (x :: rest) := by
  obtain ⟨kernel, r, opcode, d₁, spelling, hname, harity, hresolve, hop, rfl⟩ := operator_eq_ok h
  obtain ⟨hcode, hlayout, hmax⟩ := foldl_widen line r.widenings d
  have hshape := Resolution.shape_of_resolve hresolve
  rw [List.map_take, SlotsHold.types hslots, ← List.map_take] at hresolve
  rcases operationOpcode_eq_ok hop with ⟨kernel', k, hr, rfl, rfl⟩ | ⟨op, hr, rfl, hroom, rfl⟩
  · obtain ⟨ks, hks, rfl, hk, rfl⟩ := scalars_of_shape hshape hr
    have hlen : ks.length = kernel'.arity := by
      have := congrArg List.length hks
      simp only [List.length_reverse, List.length_map, List.length_take] at this
      omega
    have htypes : (d.stack.slots.take ks.reverse.length).map Slot.type =
        ks.reverse.map .scalar := by
      rw [List.length_reverse, hlen, List.map_reverse, ← hks, List.reverse_reverse]
    obtain ⟨rest, rfl, hrest⟩ := take_scalars hslots htypes
    have happlies : Applies p kernel' _ rest (ks.map .scalar) _ _ _ := .scalars hk hlen rfl
    rw [List.map_reverse] at hslots hdepth hresolve ⊢
    have hwidens := (Brings.to_kind k ks).widens rest
    have hstack := List.forall₂_drop kernel'.arity (hwidens.slots line hslots)
    rw [List.drop_left' (by simpa using hlen), ← hlayout] at hstack
    exact ⟨kernel', _, _, _, _, rest, _, spelling, hname, hresolve, rfl, happlies,
      Emits.pushed _ _ hcode hmax (hwidens.admits hdepth) (happlies.admits line spelling) hstack
        (.scalar _)⟩
  · have harity' := arity_of_shape hshape hr
    rw [harity'] at harity hshape
    obtain ⟨sb, sa, slots, hstack⟩ : ∃ sb sa slots, d.stack.slots = sb :: sa :: slots := by
      match d.stack.slots, harity with
      | sb :: sa :: slots, _ => exact ⟨sb, sa, slots, rfl⟩
    rw [hstack] at hshape
    rw [← hlayout] at hd hslots
    have hslots₀ := hslots
    rw [hstack] at hslots₀
    cases hslots₀ with
    | @cons _ b _ _ hb hslots₁ =>
    cases hslots₁ with
    | @cons _ a _ rest ha hrest =>
    obtain ⟨htemp, htype⟩ := hd.temporary hlead.layout
    obtain ⟨a', b', hbrings, hc, hinputs⟩ := combine_of_shape ha hb rfl hshape hr htype
    have hwidens : Widens r.widenings (b :: a :: rest) (b' :: a' :: rest) := hbrings.widens rest
    have hslots' := hwidens.slots line hslots
    have hfree : .matrix (r.widenings.foldl (widen line) d).matrices.size ∉ b' :: a' :: rest :=
      fun hmem => Nat.lt_irrefl _ (SlotsHold.number_lt hslots' hmem)
    have happlies : Applies p kernel r rest [a, b] _ _ _ :=
      .matrices hr htype.symm hinputs harity' hbrings hc htemp hfree
    obtain ⟨k, rows, cols, -, htarget⟩ := hc.target_type
    have hout : r.output = .matrix k rows cols := htype.symm.trans htarget
    have hgrows := (Extends.addMatrix (t := r.output) hroom).layout
    have hstack' := List.forall₂_drop 2 (SlotsHold.grows hslots' hgrows)
    have hnew : ¬ Layout.Names (r.widenings.foldl (widen line) d).layout
        (r.widenings.foldl (widen line) d).matrices.size :=
      fun hnames => Nat.lt_irrefl _ (hd.lt_of_names hnames)
    have hslot : SlotHolds p { (r.widenings.foldl (widen line) d).layout with
        matrices := (r.widenings.foldl (widen line) d).matrices.push ⟨r.output, none⟩ }
        ⟨r.output, none⟩ (.matrix (r.widenings.foldl (widen line) d).matrices.size) := by
      rw [hout]
      exact .temporary htarget hnew (by simp)
    refine ⟨kernel, r, _, _, _, rest, _, spelling, hname, hresolve, rfl, happlies, ?_⟩
    rw [harity']
    exact Emits.pushed _ _ hcode hmax (hwidens.admits hdepth) (happlies.admits line spelling)
      hstack' hslot

end Draft

end FormulaMachine
