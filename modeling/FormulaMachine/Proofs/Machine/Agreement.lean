import FormulaMachine.Compiler.Draft
import FormulaMachine.Machine.Run
import FormulaMachine.Proofs.Scalar.Agreement

namespace FormulaMachine

namespace Kernel

theorem applyBinary_agrees (kernel : Kernel) (k : Kind) (l r : Word) :
    Agrees (applyBinary true kernel k l r) (applyBinary false kernel k l r) := by
  cases kernel with
  | arithmetic op => exact (Scalar.arithmetic_agrees op _ _).map _
  | comparison op => exact Agrees.refl _
  | connective op => exact Agrees.refl _
  | unary op => exact Agrees.refl _

theorem applyUnary_agrees (op : UnaryOp) (k : Kind) (x : Word) :
    Agrees (applyUnary true op k x) (applyUnary false op k x) :=
  (Scalar.unary_agrees op _).map _

theorem onStack_agrees (kernel : Kernel) (k : Kind) (stack : Stack Word) :
    Agrees (onStack true kernel k stack) (onStack false kernel k stack) := by
  unfold onStack
  split
  · exact (applyUnary_agrees _ _ _).map _
  · exact (applyBinary_agrees _ _ _ _).map _
  · exact Agrees.refl _

end Kernel

namespace Program

variable (p : Program)

theorem elementwise_agrees (op : Arithmetic) (k : Kind) (length : Nat) (s : Store) (a b : Nat) :
    Agrees (p.elementwise true op k length s a b) (p.elementwise false op k length s a b) :=
  Agrees.mapM (fun _ => (Scalar.arithmetic_agrees op _ _).map _) _

theorem scaled_agrees (k : Kind) (length : Nat) (s : Store) (a : Nat) (x : Scalar k) :
    Agrees (p.scaled true k length s a x) (p.scaled false k length s a x) :=
  Agrees.mapM (fun _ => (Scalar.arithmetic_agrees .mul _ _).map _) _

theorem rowTimesColumn_agrees (k : Kind) (inner cols : Nat) (s : Store) (a b i j : Nat) :
    Agrees (p.rowTimesColumn true k inner cols s a b i j)
      (p.rowTimesColumn false k inner cols s a b i j) :=
  Agrees.foldlM
    (fun _ _ => (Scalar.arithmetic_agrees .mul _ _).bind fun _ =>
      Scalar.arithmetic_agrees .sum _ _) _ _

theorem product_agrees (k : Kind) (rows inner cols : Nat) (s : Store) (a b : Nat) :
    Agrees (p.product true k rows inner cols s a b) (p.product false k rows inner cols s a b) :=
  Agrees.mapM (fun _ => (p.rowTimesColumn_agrees k inner cols s a b _ _).map _) _

theorem matrixResult_agrees (op : MatrixOp) (target : DataType) (s : Store) (a b : Word) :
    Agrees (p.matrixResult true op target s a b) (p.matrixResult false op target s a b) := by
  unfold matrixResult
  cases target.kind? with
  | none => exact Agrees.refl _
  | some k =>
      cases op with
      | sum => exact p.elementwise_agrees _ _ _ _ _ _
      | sub => exact p.elementwise_agrees _ _ _ _ _ _
      | product => exact p.product_agrees _ _ _ _ _ _ _
      | scaleLeft => exact p.scaled_agrees _ _ _ _ _
      | scaleRight => exact p.scaled_agrees _ _ _ _ _

theorem matrixStep_agrees (op : MatrixOp) (target : Nat) (st : State) :
    Agrees (p.matrixStep true op target st) (p.matrixStep false op target st) := by
  unfold matrixStep
  split
  · exact (p.matrixResult_agrees _ _ _ _ _).bind fun _ => Agrees.refl _
  · exact Agrees.refl _

theorem castStep_agrees (j k : Kind) (depth : Nat) (st : State) :
    Agrees (castStep true j k depth st) (castStep false j k depth st) := by
  unfold castStep
  split
  · exact Agrees.refl _
  · split
    · exact Agrees.refl _
    · exact (Scalar.cast_agrees _ _).map _

theorem step_agrees (opcode : Opcode) (st : State) :
    Agrees (p.step true opcode st) (p.step false opcode st) := by
  cases opcode with
  | cast j k depth implicit => exact castStep_agrees j k depth st
  | scalar kernel k => exact (kernel.onStack_agrees k st.stack).map _
  | matrix op target => exact p.matrixStep_agrees op target st
  | _ => exact Agrees.refl _

theorem runFrom_false_eq_runFrom_true (entries : List Entry) (position : Nat) (st : State)
    (h : (p.runFrom true position st entries).stopped = none) :
    p.runFrom false position st entries = p.runFrom true position st entries := by
  induction entries generalizing position st with
  | nil => rfl
  | cons e entries ih =>
      rw [runFrom] at h ⊢
      rw [runFrom]
      cases hstep : p.step true e.opcode st with
      | error f => simp [hstep] at h
      | ok st' =>
          rw [hstep] at h
          rw [p.step_agrees e.opcode st st' hstep]
          exact ih (position + 1) st' h

theorem execute_fast_of_safe (s : Store) (sink sink' : Option Sink)
    (h : (p.execute .safe s sink).1.stopped = none) :
    (p.execute .fast s sink').1.stopped = none ∧
      (p.execute .fast s sink').1.store.owned.scalars =
        (p.execute .safe s sink).1.store.owned.scalars ∧
      (p.execute .fast s sink').1.store.owned.matrices =
        (p.execute .safe s sink).1.store.owned.matrices ∧
      (p.execute .fast s sink').1.store.shared = (p.execute .safe s sink).1.store.shared := by
  have hrun : p.run false s = p.run true s := p.runFrom_false_eq_runFrom_true _ _ _ h
  simp only [execute, hrun, and_self, and_true]
  exact h

theorem execute_fast_sum_int8 :
    ∃ p, compile "CONST int8 100\nCONST int8 27\nSUM\nWRITE X\n"
        ⟨[], [.named "X"]⟩ .default = .ok p ∧
      (p.execute .safe ⟨p.newOwned, #[]⟩ none).1.stopped = none ∧
      (p.execute .fast ⟨p.newOwned, #[]⟩ none).1.stopped = none ∧
      (p.execute .fast ⟨p.newOwned, #[]⟩ none).1.store.owned.scalars = #[127] := by
  let int8 : DataType := .scalar (.int .w8)
  let p : Program := {
    vars := ⟨[], [⟨"X", int8, some (.variable 0), none⟩]⟩
    constants := #[100, 27]
    literals := [(1, ⟨"27", some "int8"⟩), (0, ⟨"100", some "int8"⟩)]
    code := #[⟨.loadConstant 0 (.int .w8), 1, [], some int8, none⟩,
      ⟨.loadConstant 1 (.int .w8), 2, [], some int8, none⟩,
      ⟨.scalar (.arithmetic .sum) (.int .w8), 3, [int8, int8], some int8, none⟩,
      ⟨.storeVariable 0 (.int .w8), 4, [int8], none, none⟩]
    matrices := #[]
    bindings := #[]
    sizes := ⟨2, 1, 4, 2⟩ }
  have hsafe : (p.execute .safe ⟨p.newOwned, #[]⟩ none).1 = ⟨⟨⟨#[127], #[]⟩, #[]⟩, none⟩ := by
    decide +kernel
  have hstop : (p.execute .safe ⟨p.newOwned, #[]⟩ none).1.stopped = none := by rw [hsafe]
  obtain ⟨hok, hscalars, -, -⟩ := p.execute_fast_of_safe ⟨p.newOwned, #[]⟩ none none hstop
  exact ⟨p, by decide +kernel, hstop, hok, by rw [hscalars, hsafe]⟩

end Program

end FormulaMachine
