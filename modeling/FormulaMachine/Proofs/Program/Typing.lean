import FormulaMachine.Machine.Store

namespace FormulaMachine

theorem DataType.eq_matrix_of_isMatrix {t : DataType} (h : t.isMatrix) :
    ∃ k rows cols, t = .matrix k rows cols := by
  cases t with
  | matrix k rows cols => exact ⟨k, rows, cols, rfl⟩
  | _ => cases h

inductive Held where
  | scalar (k : Kind)
  | matrix (number : Nat)
  deriving DecidableEq, Repr

namespace Program

variable (p : Program)

def heldType : Held → DataType
  | .scalar k => .scalar k
  | .matrix number => p.matrixType number

structure Temporary (number : Nat) : Prop where
  owned : p.matrixExternal? number = none
  unnamed : ∀ name v, p.vars.get? name = some v → v.location ≠ some (.matrix number)

inductive Combines : MatrixOp → (target : Nat) → (a b : Held) → Prop
  | sum {k rows cols t m n} (hk : k.isFloat) (ht : p.matrixType t = .matrix k rows cols)
      (hm : p.matrixType m = .matrix k rows cols) (hn : p.matrixType n = .matrix k rows cols) :
      Combines .sum t (.matrix m) (.matrix n)
  | sub {k rows cols t m n} (hk : k.isFloat) (ht : p.matrixType t = .matrix k rows cols)
      (hm : p.matrixType m = .matrix k rows cols) (hn : p.matrixType n = .matrix k rows cols) :
      Combines .sub t (.matrix m) (.matrix n)
  | product {k rows inner cols t m n} (hk : k.isFloat)
      (ht : p.matrixType t = .matrix k rows cols) (hm : p.matrixType m = .matrix k rows inner)
      (hn : p.matrixType n = .matrix k inner cols) :
      Combines .product t (.matrix m) (.matrix n)
  | scaleLeft {k rows cols t n} (hk : k.isFloat) (ht : p.matrixType t = .matrix k rows cols)
      (hn : p.matrixType n = .matrix k rows cols) : Combines .scaleLeft t (.scalar k) (.matrix n)
  | scaleRight {k rows cols t m} (hk : k.isFloat) (ht : p.matrixType t = .matrix k rows cols)
      (hm : p.matrixType m = .matrix k rows cols) : Combines .scaleRight t (.matrix m) (.scalar k)

theorem Combines.target_type {p : Program} {op : MatrixOp} {target : Nat} {a b : Held}
    (h : p.Combines op target a b) :
    ∃ k rows cols, k.isFloat ∧ p.matrixType target = .matrix k rows cols := by
  cases h with
  | sum hk ht => exact ⟨_, _, _, hk, ht⟩
  | sub hk ht => exact ⟨_, _, _, hk, ht⟩
  | product hk ht => exact ⟨_, _, _, hk, ht⟩
  | scaleLeft hk ht => exact ⟨_, _, _, hk, ht⟩
  | scaleRight hk ht => exact ⟨_, _, _, hk, ht⟩

inductive Admits : List Held → Entry → List Held → Prop
  | loadConstant {hs offset k line spelling} (h : offset + k.size ≤ p.constants.size) :
      Admits hs ⟨.loadConstant offset k, line, [], some (.scalar k), spelling⟩ (.scalar k :: hs)
  | loadVariable {hs offset k line spelling} (h : offset + k.size ≤ p.sizes.variableBytes) :
      Admits hs ⟨.loadVariable offset k, line, [], some (.scalar k), spelling⟩ (.scalar k :: hs)
  | loadExternal {hs number k line spelling} (h : number < p.bindings.size) :
      Admits hs ⟨.loadExternal number k, line, [], some (.scalar k), spelling⟩ (.scalar k :: hs)
  | loadMatrix {hs number k rows cols line spelling}
      (ht : p.matrixType number = .matrix k rows cols) :
      Admits hs ⟨.loadMatrix number, line, [], some (.matrix k rows cols), spelling⟩
        (.matrix number :: hs)
  | storeVariable {hs offset k line spelling} (h : offset + k.size ≤ p.sizes.variableBytes) :
      Admits (.scalar k :: hs) ⟨.storeVariable offset k, line, [.scalar k], none, spelling⟩ hs
  | storeExternal {hs number k line spelling} (h : number < p.bindings.size) :
      Admits (.scalar k :: hs) ⟨.storeExternal number k, line, [.scalar k], none, spelling⟩ hs
  | storeMatrix {hs source number k rows cols line spelling}
      (hsource : p.matrixType source = .matrix k rows cols)
      (htarget : p.matrixType number = .matrix k rows cols) (hfree : .matrix number ∉ hs) :
      Admits (.matrix source :: hs)
        ⟨.storeMatrix number, line, [.matrix k rows cols], none, spelling⟩ hs
  | copyMatrix {hs depth source target k rows cols line spelling}
      (hdepth : hs[depth]? = some (.matrix source))
      (hsource : p.matrixType source = .matrix k rows cols)
      (htarget : p.matrixType target = .matrix k rows cols) (htemp : p.Temporary target)
      (hfree : .matrix target ∉ hs) :
      Admits hs ⟨.copyMatrix depth target, line, [.matrix k rows cols],
        some (.matrix k rows cols), spelling⟩ (hs.set depth (.matrix target))
  | cast {hs depth j k implicit line spelling} (hdepth : hs[depth]? = some (.scalar j)) :
      Admits hs ⟨.cast j k depth implicit, line, [.scalar j], some (.scalar k), spelling⟩
        (hs.set depth (.scalar k))
  | keep {hs number k rows cols line spelling} (ht : p.matrixType number = .matrix k rows cols) :
      Admits (.matrix number :: hs) ⟨.cast k k 0 false, line, [.matrix k rows cols],
        some (.matrix k rows cols), spelling⟩ (.matrix number :: hs)
  | scalar {hs kernel k line spelling} (hk : k ∈ kernel.kinds) :
      Admits (List.replicate kernel.arity (.scalar k) ++ hs)
        ⟨.scalar kernel k, line, List.replicate kernel.arity (.scalar k),
          some (.scalar (kernel.resultKind k)), spelling⟩
        (.scalar (kernel.resultKind k) :: hs)
  | matrix {hs op target a b line spelling} (h : p.Combines op target a b)
      (htemp : p.Temporary target) (hfree : .matrix target ∉ b :: a :: hs) :
      Admits (b :: a :: hs) ⟨.matrix op target, line, [p.heldType a, p.heldType b],
        some (p.matrixType target), spelling⟩ (.matrix target :: hs)

inductive AdmitsAll (limit : Nat) : List Held → List Entry → List Held → Prop
  | nil {hs} (hlen : hs.length ≤ limit) : AdmitsAll limit hs [] hs
  | cons {hs hs₁ hs₂ e es} (hlen : hs.length ≤ limit) (he : p.Admits hs e hs₁)
      (hes : AdmitsAll limit hs₁ es hs₂) : AdmitsAll limit hs (e :: es) hs₂

namespace AdmitsAll

variable {p} {limit limit' : Nat} {hs hs₁ hs₂ : List Held} {es es₁ es₂ : List Entry}

theorem length_start_le (h : p.AdmitsAll limit hs es hs₁) : hs.length ≤ limit := by
  cases h <;> assumption

theorem length_end_le (h : p.AdmitsAll limit hs es hs₁) : hs₁.length ≤ limit := by
  induction h with
  | nil hlen => exact hlen
  | cons _ _ _ ih => exact ih

theorem mono (h : p.AdmitsAll limit hs es hs₁) (hlimit : limit ≤ limit') :
    p.AdmitsAll limit' hs es hs₁ := by
  induction h with
  | nil hlen => exact .nil (Nat.le_trans hlen hlimit)
  | cons hlen he _ ih => exact .cons (Nat.le_trans hlen hlimit) he ih

theorem append (h : p.AdmitsAll limit hs es₁ hs₁) (h' : p.AdmitsAll limit hs₁ es₂ hs₂) :
    p.AdmitsAll limit hs (es₁ ++ es₂) hs₂ := by
  induction h with
  | nil _ => exact h'
  | cons hlen he _ ih => exact .cons hlen he (ih h')

theorem split (h : p.AdmitsAll limit hs (es₁ ++ es₂) hs₂) :
    ∃ hs₁, p.AdmitsAll limit hs es₁ hs₁ ∧ p.AdmitsAll limit hs₁ es₂ hs₂ := by
  induction es₁ generalizing hs with
  | nil => exact ⟨hs, .nil h.length_start_le, h⟩
  | cons e es ih =>
      cases h with
      | cons hlen he hes =>
          obtain ⟨hs₁, hpre, hpost⟩ := ih hes
          exact ⟨hs₁, .cons hlen he hpre, hpost⟩

theorem admits_of_mem {e : Entry} (h : p.AdmitsAll limit hs es hs₁) (he : e ∈ es) :
    ∃ hs hs', p.Admits hs e hs' := by
  induction h with
  | nil => exact absurd he List.not_mem_nil
  | cons _ hadmits _ ih =>
      rcases List.mem_cons.mp he with rfl | he
      · exact ⟨_, _, hadmits⟩
      · exact ih he

theorem single {e : Entry} (h : p.Admits hs e hs₁) (hlen : hs.length ≤ limit)
    (hlen₁ : hs₁.length ≤ limit) : p.AdmitsAll limit hs [e] hs₁ :=
  .cons hlen h (.nil hlen₁)

end AdmitsAll

end Program

end FormulaMachine
