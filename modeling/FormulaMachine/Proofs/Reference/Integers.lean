import FormulaMachine.Proofs.Compiler.Resolution
import FormulaMachine.Proofs.Reference.Instructions
import FormulaMachine.Proofs.Scalar.Exact

namespace FormulaMachine

inductive Quantity where
  | number (n : Int)
  | matrix (elements : List Int)
  deriving DecidableEq, Repr

namespace Quantity

def number? : Quantity → Option Int
  | .number n => some n
  | .matrix _ => none

def convert (t : DataType) (q : Quantity) : Quantity :=
  match t, q with
  | .scalar k, .number n => .number (k.convert n)
  | _, q => q

end Quantity

namespace Integers

structure State where
  vars : String → Option Quantity
  stack : List Quantity

def State.push (σ : State) (q : Quantity) : State :=
  { σ with stack := q :: σ.stack }

def literal? (o : CompileOptions) (typeName : Option String) (literal : String) : Option Int :=
  (Reference.literalKind? o typeName).bind fun k =>
    (Scalar.read? k literal.toList).bind Scalar.toInt?

def step (o : CompileOptions) (types : String → Option DataType) (σ : State) :
    Postfix.Instruction → Option State
  | .read name => (σ.vars name).map σ.push
  | .const typeName literal => (literal? o typeName literal).map fun n => σ.push (.number n)
  | .cast typeName =>
      match DataType.read typeName, σ.stack with
      | .ok t, q :: stack => some { σ with stack := q.convert t :: stack }
      | _, _ => none
  | .write name =>
      match types name, σ.stack with
      | some t, q :: stack => some ⟨Function.update σ.vars name (some (q.convert t)), stack⟩
      | _, _ => none
  | .operator name =>
      match Kernel.ofName? name with
      | none => none
      | some kernel =>
          (((σ.stack.take kernel.arity).reverse.mapM Quantity.number?).bind kernel.onInts?).map
            fun n => { σ with stack := .number n :: σ.stack.drop kernel.arity }

def line (o : CompileOptions) (types : String → Option DataType) (σ : State)
    (l : Nat × Except Error Postfix.Instruction) : Option State :=
  match l.2 with
  | .ok i => step o types σ i
  | .error _ => none

def run (o : CompileOptions) (types : String → Option DataType) (vars : String → Option Quantity)
    (lines : List (Nat × Except Error Postfix.Instruction)) : Option State :=
  lines.foldlM (line o types) ⟨vars, []⟩

variable {o : CompileOptions} {types : String → Option DataType} {σ σ' : State}

theorem defined_of_step {i : Postfix.Instruction} (h : step o types σ i = some σ') {name : String}
    (hname : (σ.vars name).isSome ∨ i = .write name) : (σ'.vars name).isSome := by
  cases i with
  | read other =>
      obtain ⟨q, -, rfl⟩ := Option.map_eq_some_iff.mp h
      exact hname.resolve_right (by simp)
  | const typeName literal =>
      obtain ⟨n, -, rfl⟩ := Option.map_eq_some_iff.mp h
      exact hname.resolve_right (by simp)
  | cast typeName =>
      rw [step] at h
      split at h
      · obtain rfl := Option.some.inj h
        exact hname.resolve_right (by simp)
      · cases h
  | write other =>
      rw [step] at h
      split at h
      · obtain rfl := Option.some.inj h
        by_cases heq : name = other
        · subst heq
          simp only [Function.update_self, Option.isSome_some]
        · simp only [Function.update_of_ne heq]
          exact hname.resolve_right fun hwrite =>
            heq (Postfix.Instruction.write.inj hwrite).symm
      · cases h
  | operator other =>
      rw [step] at h
      split at h
      · cases h
      · obtain ⟨n, -, rfl⟩ := Option.map_eq_some_iff.mp h
        exact hname.resolve_right (by simp)

end Integers

namespace DataType

def IsWhole (t : DataType) : Prop :=
  ∀ k ∈ t.kind?, k.isFloat = false

instance (t : DataType) : Decidable t.IsWhole :=
  inferInstanceAs (Decidable (∀ k ∈ t.kind?, k.isFloat = false))

end DataType

namespace Datum

def quantity? : Datum → Option Quantity
  | .scalar x => x.toInt?.map .number
  | .matrix _ _ xs => (xs.mapM Scalar.toInt?).map .matrix

variable {k : Kind} {x y : Datum} {q : Quantity} {n : Int} {t : DataType}

theorem exists_mapM_toInt? (hk : k.isFloat = false) (xs : List (Scalar k)) :
    ∃ ns, xs.mapM Scalar.toInt? = some ns := by
  induction xs with
  | nil => exact ⟨[], rfl⟩
  | cons x xs ih =>
      obtain ⟨n, hn⟩ := Scalar.exists_toInt? hk x
      obtain ⟨ns, hns⟩ := ih
      exact ⟨n :: ns, by rw [List.mapM_cons, hn, hns]; rfl⟩

theorem exists_quantity? (h : x.type.IsWhole) : ∃ q, x.quantity? = some q := by
  cases x with
  | scalar x =>
      obtain ⟨n, hn⟩ := Scalar.exists_toInt? (h _ rfl) x
      exact ⟨.number n, by rw [quantity?, hn]; rfl⟩
  | matrix rows cols xs =>
      obtain ⟨ns, hns⟩ := exists_mapM_toInt? (h _ rfl) xs
      exact ⟨.matrix ns, by rw [quantity?, hns]; rfl⟩

theorem quantity?_scalar {x : Scalar k} (hx : x.toInt? = some n) :
    (Datum.scalar x).quantity? = some (.number n) := by
  rw [quantity?, hx]
  rfl

theorem toInt?_of_quantity? {x : Scalar k} (h : (Datum.scalar x).quantity? = some q) :
    ∃ n, q = .number n ∧ x.toInt? = some n := by
  obtain ⟨n, hn, rfl⟩ := Option.map_eq_some_iff.mp h
  exact ⟨n, rfl, hn⟩

theorem castTo_exact (ht : t.IsWhole) (hx : x.quantity? = some q) (h : x.castTo true t = .ok y) :
    y.quantity? = some (q.convert t) := by
  cases x with
  | @scalar j x =>
      obtain ⟨n, rfl, hn⟩ := toInt?_of_quantity? hx
      cases t with
      | void => cases h
      | matrix k rows cols => cases h
      | scalar k =>
          obtain ⟨z, hz, rfl⟩ := map_eq_ok h
          exact quantity?_scalar (Scalar.cast_exact (ht k rfl) hn hz)
  | @matrix j rows cols xs =>
      obtain ⟨ns, hns, rfl⟩ := Option.map_eq_some_iff.mp hx
      rw [castTo] at h
      · split at h
        · obtain rfl := Except.ok.inj h
          rw [hx]
          cases t <;> rfl
        · cases h
      · intro j' y k hmatrix
        cases hmatrix

theorem convert_eq {j : Kind} {x : Scalar j} (hbool : k = .bool → j = .bool)
    (hx : x.toInt? = some n) : k.convert n = n := by
  by_cases hk : k = .bool
  · obtain rfl := hbool hk
    rw [hk]
    exact Scalar.convert_of_bool hx
  · rw [Kind.convert, if_neg hk]

theorem castAll_exact {ks : List Kind} {xs ys : List Datum} {qs : List Quantity}
    (hwhole : ∀ t ∈ ks.map fun _ => DataType.scalar k, t.IsWhole)
    (hbool : k = .bool → ∀ j ∈ ks, j = .bool) (htypes : xs.map Datum.type = ks.map .scalar)
    (hxs : List.Forall₂ (fun x q => x.quantity? = some q) xs qs)
    (h : castAll true xs (ks.map fun _ => .scalar k) = .ok ys) :
    ∃ (zs : List (Scalar k)) (ns : List Int), ys = zs.map .scalar ∧
      qs.mapM Quantity.number? = some ns ∧
      List.Forall₂ (fun z n => Scalar.toInt? z = some n) zs ns := by
  induction hxs generalizing ks ys with
  | nil =>
      obtain rfl : ks = [] := List.map_eq_nil_iff.mp htypes.symm
      obtain rfl := Except.ok.inj h
      exact ⟨[], [], rfl, rfl, .nil⟩
  | @cons x q xs qs hx hxs ih =>
      obtain ⟨j, ks, rfl, hj, htypes⟩ := List.map_eq_cons_iff.mp htypes.symm
      rw [List.map_cons, castAll_cons] at h
      obtain ⟨y, hy, h⟩ := bind_eq_ok h
      obtain ⟨ys, hys, rfl⟩ := map_eq_ok h
      obtain ⟨hk, hwhole⟩ := List.forall_mem_cons.mp hwhole
      obtain ⟨zs, ns, rfl, hqs, hzs⟩ :=
        ih hwhole (fun hk => (List.forall_mem_cons.mp (hbool hk)).2) htypes.symm hys
      cases x with
      | matrix rows cols xs => cases hj
      | @scalar i x =>
          obtain rfl : j = i := DataType.scalar.inj hj
          obtain ⟨n, rfl, hn⟩ := toInt?_of_quantity? hx
          obtain ⟨z, hz, rfl⟩ := map_eq_ok hy
          have hexact := Scalar.cast_exact (hk k rfl) hn hz
          rw [convert_eq (fun hk => hbool hk j List.mem_cons_self) hn] at hexact
          exact ⟨z :: zs, n :: ns, rfl, by rw [List.mapM_cons, hqs]; rfl, .cons hexact hzs⟩

end Datum

namespace Reference

def WholeAt (o : CompileOptions) (ρ : State) : Postfix.Instruction → Prop
  | .read name | .write name => ∀ x ∈ ρ.vars name, x.type.IsWhole
  | .const typeName _ => ∀ k ∈ literalKind? o typeName, k.isFloat = false
  | .cast typeName => ∀ t, DataType.read typeName = .ok t → t.IsWhole
  | .operator name => ∀ kernel r, Kernel.ofName? name = some kernel →
      kernel.resolve o.implicitCasts ((ρ.stack.take kernel.arity).reverse.map Datum.type) = .ok r →
        ∀ t ∈ r.inputs ++ [r.output], t.IsWhole

structure Exactly (ρ : State) (σ : Integers.State) : Prop where
  vars : ∀ name, σ.vars name = (ρ.vars name).bind Datum.quantity?
  stack : List.Forall₂ (fun x q => x.quantity? = some q) ρ.stack σ.stack

variable {o : CompileOptions} {types : String → Option DataType} {ρ ρ' : State}
  {σ : Integers.State}

theorem Exactly.push (h : Exactly ρ σ) {x : Datum} {q : Quantity} (hx : x.quantity? = some q) :
    Exactly (ρ.push x) (σ.push q) :=
  ⟨h.vars, .cons hx h.stack⟩

theorem read_exact {name : String} (h : Exactly ρ σ) (hwhole : WholeAt o ρ (.read name))
    (hstep : step o true ρ (.read name) = .ok ρ') :
    ∃ σ', Integers.step o types σ (.read name) = some σ' ∧ Exactly ρ' σ' := by
  rw [step] at hstep
  split at hstep
  · rename_i x hx
    obtain rfl := Except.ok.inj hstep
    obtain ⟨q, hq⟩ := Datum.exists_quantity? (hwhole x hx)
    refine ⟨σ.push q, ?_, h.push hq⟩
    rw [Integers.step, h.vars, hx, Option.bind_some, hq]
    rfl
  · cases hstep

theorem const_exact {typeName : Option String} {literal : String} (h : Exactly ρ σ)
    (hwhole : WholeAt o ρ (.const typeName literal))
    (hstep : step o true ρ (.const typeName literal) = .ok ρ') :
    ∃ σ', Integers.step o types σ (.const typeName literal) = some σ' ∧ Exactly ρ' σ' := by
  rw [step] at hstep
  split at hstep
  · rename_i y hy
    obtain rfl := Except.ok.inj hstep
    obtain ⟨k, hk, hy⟩ := Option.bind_eq_some_iff.mp hy
    obtain ⟨x, hx, rfl⟩ := Option.map_eq_some_iff.mp hy
    obtain ⟨n, hn⟩ := Scalar.exists_toInt? (hwhole k hk) x
    refine ⟨σ.push (.number n), ?_, h.push (Datum.quantity?_scalar hn)⟩
    rw [Integers.step, Integers.literal?, hk, Option.bind_some, hx, Option.bind_some, hn]
    rfl
  · cases hstep

theorem cast_step_exact {typeName : String} (h : Exactly ρ σ)
    (hwhole : WholeAt o ρ (.cast typeName)) (hstep : step o true ρ (.cast typeName) = .ok ρ') :
    ∃ σ', Integers.step o types σ (.cast typeName) = some σ' ∧ Exactly ρ' σ' := by
  obtain ⟨vars, stack⟩ := ρ
  rw [step] at hstep
  split at hstep
  · rename_i t x stack ht hstack
    obtain rfl : _ = x :: stack := hstack
    obtain ⟨y, hy, rfl⟩ := map_eq_ok hstep
    obtain ⟨q, qs, hx, hqs, hσ⟩ := List.forall₂_cons_left_iff.mp h.stack
    refine ⟨⟨σ.vars, q.convert t :: qs⟩, ?_, h.vars, .cons ?_ hqs⟩
    · rw [Integers.step, ht, hσ]
    · exact Datum.castTo_exact (hwhole t ht) hx hy
  · cases hstep
  · cases hstep

theorem write_exact {name : String} (h : Exactly ρ σ)
    (htypes : ∀ name, (ρ.vars name).map Datum.type = types name)
    (hwhole : WholeAt o ρ (.write name)) (hstep : step o true ρ (.write name) = .ok ρ') :
    ∃ σ', Integers.step o types σ (.write name) = some σ' ∧ Exactly ρ' σ' := by
  obtain ⟨vars, stack⟩ := ρ
  rw [step] at hstep
  split at hstep
  · rename_i v x stack hv hstack
    obtain rfl : _ = x :: stack := hstack
    obtain ⟨y, hy, rfl⟩ := map_eq_ok hstep
    obtain ⟨q, qs, hx, hqs, hσ⟩ := List.forall₂_cons_left_iff.mp h.stack
    have hexact := Datum.castTo_exact (hwhole v hv) hx hy
    refine ⟨⟨Function.update σ.vars name (some (q.convert v.type)), qs⟩, ?_, fun other => ?_, hqs⟩
    · rw [Integers.step, ← htypes, hv, Option.map_some, hσ]
    · by_cases heq : other = name
      · subst heq
        simp only [Function.update_self, Option.bind_some, hexact]
      · simp only [Function.update_of_ne heq]
        exact h.vars other
  · cases hstep
  · cases hstep

theorem operator_exact {name : String} (h : Exactly ρ σ) (hwhole : WholeAt o ρ (.operator name))
    (hstep : step o true ρ (.operator name) = .ok ρ') :
    ∃ σ', Integers.step o types σ (.operator name) = some σ' ∧ Exactly ρ' σ' := by
  rw [step] at hstep
  split at hstep
  · cases hstep
  rename_i kernel hname
  dsimp only at hstep
  split at hstep
  · cases hstep
  rename_i r hresolve
  obtain ⟨operands, hcast, hstep⟩ := bind_eq_ok hstep
  obtain ⟨y, hy, hstep⟩ := bind_eq_ok hstep
  obtain rfl := Except.ok.inj hstep
  have hr := hwhole kernel r hname hresolve
  have hin (t : DataType) (ht : t ∈ r.inputs) : t.IsWhole := hr t (List.mem_append_left _ ht)
  have hout : r.output.IsWhole := hr _ (List.mem_append_right _ List.mem_cons_self)
  have hoperands : List.Forall₂ (fun x q => x.quantity? = some q)
      (ρ.stack.take kernel.arity).reverse (σ.stack.take kernel.arity).reverse :=
    List.rel_reverse (List.forall₂_take _ h.stack)
  have hshape := Resolution.shape_of_resolve hresolve
  generalize htypes : (ρ.stack.take kernel.arity).reverse.map Datum.type = ts at hresolve hshape
  cases hshape with
  | @scalars ks k hk =>
      obtain ⟨zs, ns, rfl, hns, hzs⟩ := Datum.castAll_exact hin
        (fun hbool => Resolution.eq_bool_of_resolve hresolve (by rw [hbool])) htypes hoperands hcast
      rw [Datum.apply_scalar] at hy
      obtain ⟨z, hz, rfl⟩ := map_eq_ok hy
      obtain ⟨n, hn, hexact⟩ := kernel.onScalars_exact hzs hz
      refine ⟨⟨σ.vars, .number n :: σ.stack.drop kernel.arity⟩, ?_, h.vars, .cons ?_ ?_⟩
      · simp only [Integers.step, hname, hns, Option.bind_some, hn, Option.map_some]
      · exact Datum.quantity?_scalar hexact
      · exact List.forall₂_drop _ h.stack
  -- operations on matrices have floats for elements
  | sum _ hk => exact absurd (hout _ rfl) (by simp [hk])
  | sub _ hk => exact absurd (hout _ rfl) (by simp [hk])
  | product _ hk => exact absurd (hout _ rfl) (by simp [hk])
  | scaleLeft _ hk => exact absurd (hout _ rfl) (by simp [hk])
  | scaleRight _ hk => exact absurd (hout _ rfl) (by simp [hk])

theorem step_exact {i : Postfix.Instruction} (h : Exactly ρ σ)
    (htypes : ∀ name, (ρ.vars name).map Datum.type = types name) (hwhole : WholeAt o ρ i)
    (hstep : step o true ρ i = .ok ρ') :
    ∃ σ', Integers.step o types σ i = some σ' ∧ Exactly ρ' σ' := by
  cases i with
  | read name => exact read_exact h hwhole hstep
  | write name => exact write_exact h htypes hwhole hstep
  | const typeName literal => exact const_exact h hwhole hstep
  | cast typeName => exact cast_step_exact h hwhole hstep
  | operator name => exact operator_exact h hwhole hstep

end Reference

end FormulaMachine
