import FormulaMachine.Machine.Run
import FormulaMachine.Proofs.Machine.Storage
import FormulaMachine.Proofs.Program.Typing
import FormulaMachine.Proofs.Results
import FormulaMachine.Proofs.Scalar.Progress
import Mathlib.Data.List.Forall2

namespace FormulaMachine

def Held.Matches : Held → Word → Prop
  | .scalar k, w => ∃ x : Scalar k, w = x.toWord
  | .matrix number, w => w = Program.matrixWord number

theorem forall₂_getElem?_left {α β : Type} {R : α → β → Prop} {xs : List α} {ys : List β}
    (h : List.Forall₂ R xs ys) {i : Nat} {x : α} (hx : xs[i]? = some x) :
    ∃ y, ys[i]? = some y ∧ R x y := by
  induction h generalizing i with
  | nil => simp at hx
  | cons hr _ ih =>
      cases i with
      | zero =>
          obtain rfl : _ = x := by simpa using hx
          exact ⟨_, rfl, hr⟩
      | succ i => exact ih (by simpa using hx)

theorem forall₂_set {α β : Type} {R : α → β → Prop} {xs : List α} {ys : List β}
    (h : List.Forall₂ R xs ys) (i : Nat) {x : α} {y : β} (hxy : R x y) :
    List.Forall₂ R (xs.set i x) (ys.set i y) := by
  induction h generalizing i with
  | nil => exact .nil
  | cons hr hrest ih =>
      cases i with
      | zero => exact .cons hxy hrest
      | succ i => exact .cons hr (ih i)

theorem Progresses.map_post {α β : Type} {checked : Bool} {a : Except Fault α} {f : α → β}
    {Q : β → Prop} (h : Progresses checked a) (hf : ∀ x, Q (f x)) :
    Progresses checked (a.map f) ∧ ∀ y, a.map f = .ok y → Q y := by
  refine ⟨h.map f, fun y hy => ?_⟩
  cases a with
  | error e => cases hy
  | ok x =>
      obtain rfl : f x = y := Except.ok.inj hy
      exact hf x

namespace Program

structure InRange (p : Program) : Prop where
  few : p.matrices.size ≤ 1 <<< 16
  bindings : ∀ x ∈ p.bindings, x.offset < x.memory.cells
  matrices : ∀ slot ∈ p.matrices, ∀ x, slot.external = some x →
    x.offset + slot.type.length ≤ x.memory.cells

variable {p : Program}

theorem lt_of_matrixType {number : Nat} {k : Kind} {rows cols : Nat}
    (h : p.matrixType number = .matrix k rows cols) : number < p.matrices.size := by
  by_contra hn
  rw [matrixType, Array.getElem?_eq_none (by omega)] at h
  cases h

theorem toNat_matrixWord {number : Nat} (hfew : p.matrices.size ≤ 1 <<< 16)
    (h : number < p.matrices.size) : (matrixWord number).toNat = number := by
  have hlimit : (1 <<< 16 : Nat) < 2 ^ 64 := by decide
  rw [matrixWord, BitVec.toNat_ofNat, Nat.mod_eq_of_lt (by omega)]

theorem push_eq_ok {st : State} {w : Word} (h : st.stack.depth < p.sizes.maxStackDepth) :
    p.push w st = .ok { st with stack := st.stack.push w } := by
  rw [push, if_pos h]

theorem castStep_eq {checked : Bool} {j k : Kind} {depth : Nat} {st : State} {x : Scalar j}
    (h : st.stack.slots[depth]? = some x.toWord) :
    castStep checked j k depth st = (Scalar.cast checked k x).map fun y =>
      { st with stack := st.stack.set depth y.toWord } := by
  by_cases hjk : j = k
  · subst hjk
    have hset : st.stack.slots.set depth x.toWord = st.stack.slots := by
      obtain ⟨hlen, hw⟩ := List.getElem?_eq_some_iff.mp h
      rw [← hw, List.set_getElem_self]
    have hstack : st.stack.set depth x.toWord = st.stack := Stack.eq_of_slots_eq hset
    simp only [castStep, if_true, Scalar.cast, dif_pos, Except.map, hstack]
  · simp only [castStep, hjk, if_false, h, Scalar.ofWord_toWord]

theorem onStack_eq {checked : Bool} {kernel : Kernel} {k : Kind} {stack : Stack Word}
    {xs : List (Scalar k)} {rest : List Word} (hlen : xs.length = kernel.arity)
    (h : stack.slots = xs.map Scalar.toWord ++ rest) :
    kernel.onStack checked k stack = (kernel.onScalars checked xs.reverse).map fun y =>
      (stack.drop kernel.arity).push y.toWord := by
  cases kernel with
  | unary op =>
      obtain ⟨x, rfl⟩ := List.length_eq_one_iff.mp hlen
      simp only [Kernel.onStack, h, List.map_cons, List.cons_append, Kernel.applyUnary,
        Scalar.ofWord_toWord, map_map_result]
      rfl
  | arithmetic op =>
      obtain ⟨r, l, rfl⟩ := List.length_eq_two.mp hlen
      simp only [Kernel.onStack, h, List.map_cons, List.cons_append, Kernel.applyBinary,
        Scalar.ofWord_toWord, map_map_result]
      rfl
  | comparison op =>
      obtain ⟨r, l, rfl⟩ := List.length_eq_two.mp hlen
      simp only [Kernel.onStack, h, List.map_cons, List.cons_append, Kernel.applyBinary,
        Scalar.ofWord_toWord]
      rfl
  | connective op =>
      obtain ⟨r, l, rfl⟩ := List.length_eq_two.mp hlen
      simp only [Kernel.onStack, h, List.map_cons, List.cons_append, Kernel.applyBinary,
        Scalar.ofWord_toWord]
      rfl

theorem matrixStep_eq {checked : Bool} {op : MatrixOp} {target : Nat} {st : State} {a b : Word}
    {rest : List Word} (h : st.stack.slots = b :: a :: rest)
    (hroom : rest.length < p.sizes.maxStackDepth) :
    p.matrixStep checked op target st =
      (p.matrixResult checked op (p.matrixType target) st.store a b).map fun cells =>
        ⟨p.setMatrixCells target st.store 0 cells,
          (st.stack.drop 2).push (matrixWord target)⟩ := by
  have hdepth : (st.stack.drop 2).depth < p.sizes.maxStackDepth := by
    rw [Stack.depth_eq, Stack.slots_drop, h]
    exact hroom
  simp only [matrixStep, h]
  cases p.matrixResult checked op (p.matrixType target) st.store a b with
  | error f => rfl
  | ok cells => exact push_eq_ok hdepth

theorem exists_scalars {k : Kind} {n : Nat} {hs : List Held} {ws : List Word}
    (h : List.Forall₂ Held.Matches (List.replicate n (.scalar k) ++ hs) ws) :
    ∃ (xs : List (Scalar k)) (rest : List Word), xs.length = n ∧
      ws = xs.map Scalar.toWord ++ rest ∧ List.Forall₂ Held.Matches hs rest := by
  induction n generalizing ws with
  | zero => exact ⟨[], ws, rfl, rfl, h⟩
  | succ n ih =>
      rw [List.replicate_succ, List.cons_append] at h
      cases h with
      | @cons _ w _ ws' hw hws =>
          obtain ⟨x, rfl⟩ := hw
          obtain ⟨xs, rest, hlen, rfl, hrest⟩ := ih hws
          exact ⟨x :: xs, rest, by rw [List.length_cons, hlen], rfl, hrest⟩

theorem mem_kinds_of_isFloat {k : Kind} (hk : k.isFloat) (op : Arithmetic) :
    k ∈ (Kernel.arithmetic op).kinds := by
  cases k with
  | float32 => cases op <;> decide
  | float64 => cases op <;> decide
  | _ => cases hk

theorem matrixResult_progresses (checked : Bool) {op : MatrixOp} {target : Nat} {a b : Held}
    (h : p.Combines op target a b) (s : Store) (wa wb : Word) :
    Progresses checked (p.matrixResult checked op (p.matrixType target) s wa wb) := by
  have harith {k : Kind} (hk : k.isFloat) (op : Arithmetic) (l r : Scalar k) :
      Progresses checked (Scalar.arithmetic checked op l r) :=
    Scalar.arithmetic_progresses checked (mem_kinds_of_isFloat hk op) l r
  cases h with
  | sum hk ht =>
      rw [matrixResult, ht]
      exact .mapM (fun _ => (harith hk _ _ _).map _) _
  | sub hk ht =>
      rw [matrixResult, ht]
      exact .mapM (fun _ => (harith hk _ _ _).map _) _
  | product hk ht =>
      rw [matrixResult, ht]
      exact .mapM (fun _ => (Progresses.foldlM (fun _ _ => (harith hk _ _ _).bind fun _ =>
        harith hk _ _ _) _ _).map _) _
  | scaleLeft hk ht =>
      rw [matrixResult, ht]
      exact .mapM (fun _ => (harith hk _ _ _).map _) _
  | scaleRight hk ht =>
      rw [matrixResult, ht]
      exact .mapM (fun _ => (harith hk _ _ _).map _) _

theorem Admits.step_progresses (checked : Bool) {hs hs₁ : List Held} {e : Entry} {st : State}
    (h : p.Admits hs e hs₁) (hst : List.Forall₂ Held.Matches hs st.stack.slots)
    (hroom : hs₁.length ≤ p.sizes.maxStackDepth) :
    Progresses checked (p.step checked e.opcode st) ∧
      ∀ st', p.step checked e.opcode st = .ok st' →
        List.Forall₂ Held.Matches hs₁ st'.stack.slots := by
  have hdepth : st.stack.depth = hs.length := by rw [st.stack.depth_eq, hst.length_eq]
  have hload {w : Word} {x : Held} (hx : x.Matches w) (hlen : hs.length < p.sizes.maxStackDepth) :
      Progresses checked (p.push w st) ∧ ∀ st', p.push w st = .ok st' →
        List.Forall₂ Held.Matches (x :: hs) st'.stack.slots := by
    rw [push_eq_ok (by omega)]
    refine ⟨.ok _, fun st' hok => ?_⟩
    obtain rfl := Except.ok.inj hok
    exact .cons hx hst
  have hstore {x : Held} {hs' : List Held} (hhs : hs = x :: hs') (keep : Word → Store → Store) :
      Progresses checked (popInto st keep) ∧ ∀ st', popInto st keep = .ok st' →
        List.Forall₂ Held.Matches hs' st'.stack.slots := by
    subst hhs
    obtain ⟨w, ws, hw, hws, hslots⟩ := List.forall₂_cons_left_iff.mp hst
    simp only [popInto, hslots]
    refine ⟨.ok _, fun st' hok => ?_⟩
    obtain rfl := Except.ok.inj hok
    simpa [hslots] using hws
  cases h with
  | loadConstant => exact hload ⟨_, rfl⟩ hroom
  | loadVariable => exact hload ⟨_, rfl⟩ hroom
  | loadExternal => exact hload ⟨_, rfl⟩ hroom
  | loadMatrix => exact hload rfl hroom
  | storeVariable =>
      simp only [step]
      exact hstore rfl _
  | storeExternal =>
      simp only [step]
      exact hstore rfl _
  | storeMatrix =>
      simp only [step]
      exact hstore rfl _
  | copyMatrix hat =>
      obtain ⟨w, hw, -⟩ := forall₂_getElem?_left hst hat
      simp only [step, hw]
      refine ⟨.ok _, fun st' hok => ?_⟩
      obtain rfl := Except.ok.inj hok
      exact forall₂_set hst _ rfl
  | cast hat =>
      obtain ⟨w, hw, x, rfl⟩ := forall₂_getElem?_left hst hat
      rw [step, castStep_eq hw]
      exact (Scalar.cast_progresses checked _ x).map_post fun y => forall₂_set hst _ ⟨y, rfl⟩
  | keep =>
      simp only [step, castStep, if_true]
      refine ⟨.ok _, fun st' hok => ?_⟩
      obtain rfl := Except.ok.inj hok
      exact hst
  | scalar hk =>
      obtain ⟨xs, rest, hlen, hslots, hrest⟩ := exists_scalars hst
      rw [step, onStack_eq hlen hslots, map_map_result]
      have hlen' := xs.length_reverse.trans hlen
      refine (Kernel.onScalars_progresses checked hk hlen').map_post fun y => .cons ⟨y, rfl⟩ ?_
      rw [Stack.slots_drop, hslots, List.drop_left' (by simpa using hlen)]
      exact hrest
  | matrix hc =>
      obtain ⟨wb, ws, hb, hws, hslots⟩ := List.forall₂_cons_left_iff.mp hst
      obtain ⟨wa, rest, ha, hrest, rfl⟩ := List.forall₂_cons_left_iff.mp hws
      have hlen : rest.length < p.sizes.maxStackDepth := by
        rw [← hrest.length_eq]
        exact hroom
      rw [step, matrixStep_eq hslots hlen]
      refine (matrixResult_progresses checked hc st.store wa wb).map_post fun cells => ?_
      exact .cons rfl (by simpa [hslots] using hrest)

end Program

end FormulaMachine
