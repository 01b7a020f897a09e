import FormulaMachine.Machine.Store
import FormulaMachine.Scalar.Cast
import FormulaMachine.Stack

namespace FormulaMachine

structure State where
  store : Store
  stack : Stack Word
  deriving DecidableEq, Repr

namespace Kernel

def applyBinary (checked : Bool) (kernel : Kernel) (k : Kind) (l r : Word) :
    Except Fault Word :=
  let l := Scalar.ofWord k l
  let r := Scalar.ofWord k r
  match kernel with
  | .arithmetic op => (Scalar.arithmetic checked op l r).map Scalar.toWord
  | .comparison op => .ok (Scalar.comparison op l r).toWord
  | .connective op => .ok (Scalar.connective op l r).toWord
  | .unary _ => .error .badOperand

def applyUnary (checked : Bool) (op : UnaryOp) (k : Kind) (x : Word) : Except Fault Word :=
  (Scalar.unary checked op (Scalar.ofWord k x)).map Scalar.toWord

def onStack (checked : Bool) (kernel : Kernel) (k : Kind) (stack : Stack Word) :
    Except Fault (Stack Word) :=
  match kernel, stack.slots with
  | .unary op, x :: _ => (applyUnary checked op k x).map fun y => (stack.drop 1).push y
  | kernel, r :: l :: _ =>
      (applyBinary checked kernel k l r).map fun y => (stack.drop 2).push y
  | _, _ => .error .stackUnderflow

end Kernel

namespace Program

def push (p : Program) (w : Word) (st : State) : Except Fault State :=
  if st.stack.depth < p.sizes.maxStackDepth then .ok { st with stack := st.stack.push w }
  else .error .stackOverflow

def matrixWord (number : Nat) : Word := BitVec.ofNat 64 number

def element (p : Program) (s : Store) (k : Kind) (number i : Nat) : Scalar k :=
  .ofWord k (p.matrixCell s number i)

def elementwise (p : Program) (checked : Bool) (op : Arithmetic) (k : Kind) (length : Nat)
    (s : Store) (a b : Nat) : Except Fault (List Word) :=
  (List.range length).mapM fun i =>
    (Scalar.arithmetic checked op (p.element s k a i) (p.element s k b i)).map Scalar.toWord

def scaled (p : Program) (checked : Bool) (k : Kind) (length : Nat) (s : Store) (a : Nat)
    (x : Scalar k) : Except Fault (List Word) :=
  (List.range length).mapM fun i =>
    (Scalar.arithmetic checked .mul (p.element s k a i) x).map Scalar.toWord

def rowTimesColumn (p : Program) (checked : Bool) (k : Kind) (inner cols : Nat) (s : Store)
    (a b i j : Nat) : Except Fault (Scalar k) :=
  (List.range inner).foldlM (fun sum t => do
    let x ← Scalar.arithmetic checked .mul (p.element s k a (i * inner + t))
      (p.element s k b (t * cols + j))
    Scalar.arithmetic checked .sum sum x) (Scalar.zero k)

def product (p : Program) (checked : Bool) (k : Kind) (rows inner cols : Nat) (s : Store)
    (a b : Nat) : Except Fault (List Word) :=
  (List.range (rows * cols)).mapM fun n =>
    (p.rowTimesColumn checked k inner cols s a b (n / cols) (n % cols)).map Scalar.toWord

def matrixResult (p : Program) (checked : Bool) (op : MatrixOp) (target : DataType) (s : Store)
    (a b : Word) : Except Fault (List Word) :=
  match target.kind? with
  | none => .error .badOperand
  | some k =>
      match op with
      | .sum => p.elementwise checked .sum k target.length s a.toNat b.toNat
      | .sub => p.elementwise checked .sub k target.length s a.toNat b.toNat
      | .product =>
          p.product checked k target.dims.1 (p.matrixType a.toNat).dims.2 target.dims.2 s
            a.toNat b.toNat
      | .scaleLeft => p.scaled checked k target.length s b.toNat (.ofWord k a)
      | .scaleRight => p.scaled checked k target.length s a.toNat (.ofWord k b)

def matrixStep (p : Program) (checked : Bool) (op : MatrixOp) (target : Nat) (st : State) :
    Except Fault State :=
  match st.stack.slots with
  | b :: a :: _ => do
      let cells ← p.matrixResult checked op (p.matrixType target) st.store a b
      p.push (matrixWord target) ⟨p.setMatrixCells target st.store 0 cells, st.stack.drop 2⟩
  | _ => .error .stackUnderflow

def castStep (checked : Bool) (j k : Kind) (depth : Nat) (st : State) : Except Fault State :=
  if j = k then .ok st
  else match st.stack.slots[depth]? with
    | none => .error .stackUnderflow
    | some w => (Scalar.cast checked k (Scalar.ofWord j w)).map fun x =>
        { st with stack := st.stack.set depth x.toWord }

def popInto (st : State) (keep : Word → Store → Store) : Except Fault State :=
  match st.stack.slots with
  | [] => .error .stackUnderflow
  | w :: _ => .ok ⟨keep w st.store, st.stack.drop 1⟩

def step (p : Program) (checked : Bool) (opcode : Opcode) (st : State) : Except Fault State :=
  match opcode with
  | .loadConstant offset k =>
      p.push (Scalar.ofBytes k (readBytes p.constants offset k.size)).toWord st
  | .loadVariable offset k => p.push (st.store.readScalar offset k).toWord st
  | .loadExternal number k =>
      p.push (Scalar.ofWord k (p.bindingCell st.store number)).toWord st
  | .loadMatrix number => p.push (matrixWord number) st
  | .storeVariable offset k =>
      popInto st fun w s => s.writeScalar offset (Scalar.ofWord k w)
  | .storeExternal number _ => popInto st fun w s => p.setBindingCell s number w
  | .storeMatrix number => popInto st fun w s => p.copyMatrix w.toNat number s
  | .copyMatrix depth target =>
      match st.stack.slots[depth]? with
      | none => .error .stackUnderflow
      | some w =>
          .ok ⟨p.copyMatrix w.toNat target st.store, st.stack.set depth (matrixWord target)⟩
  | .cast j k depth _ => castStep checked j k depth st
  | .scalar kernel k =>
      (kernel.onStack checked k st.stack).map fun stack => { st with stack := stack }
  | .matrix op target => p.matrixStep checked op target st

end Program

end FormulaMachine
