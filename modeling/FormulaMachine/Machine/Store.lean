import FormulaMachine.Program.Basic

namespace FormulaMachine

abbrev Shared := Array (Array Word)

namespace Shared

def load? (s : Shared) (memory index : Nat) : Option Word :=
  s[memory]?.bind fun cells => cells[index]?

def store (s : Shared) (memory index : Nat) (w : Word) : Shared :=
  s.modify memory fun cells => cells.setIfInBounds index w

end Shared

namespace External

def get (x : External) (s : Shared) (i : Nat) : Word :=
  (s.load? x.memory.number (x.offset + i)).getD 0

def set (x : External) (s : Shared) (i : Nat) (w : Word) : Shared :=
  s.store x.memory.number (x.offset + i) w

end External

structure Owned where
  scalars : Array Byte
  matrices : Array (Array Word)
  deriving DecidableEq, Repr

structure Store where
  owned : Owned
  shared : Shared
  deriving DecidableEq, Repr

def readBytes (area : Array Byte) (offset : Nat) : (count : Nat) → List Byte
  | 0 => []
  | count + 1 => area.getD offset 0 :: readBytes area (offset + 1) count

def writeBytes (area : Array Byte) (offset : Nat) : List Byte → Array Byte
  | [] => area
  | b :: bs => writeBytes (area.setIfInBounds offset b) (offset + 1) bs

namespace Store

def readScalar (s : Store) (offset : Nat) (k : Kind) : Scalar k :=
  .ofBytes k (readBytes s.owned.scalars offset k.size)

def writeScalar {k : Kind} (s : Store) (offset : Nat) (x : Scalar k) : Store :=
  { s with owned.scalars := writeBytes s.owned.scalars offset x.bytes }

end Store

namespace Program

def bindingCell (p : Program) (s : Store) (number : Nat) : Word :=
  match p.bindings[number]? with
  | some x => x.get s.shared 0
  | none => 0

def setBindingCell (p : Program) (s : Store) (number : Nat) (w : Word) : Store :=
  match p.bindings[number]? with
  | some x => { s with shared := x.set s.shared 0 w }
  | none => s

def matrixType (p : Program) (number : Nat) : DataType :=
  (p.matrices[number]?.map MatrixSlot.type).getD .void

def matrixExternal? (p : Program) (number : Nat) : Option External :=
  p.matrices[number]?.bind MatrixSlot.external

def matrixCell (p : Program) (s : Store) (number i : Nat) : Word :=
  match p.matrixExternal? number with
  | some x => x.get s.shared i
  | none => (s.owned.matrices[number]?.bind fun cells => cells[i]?).getD 0

def setMatrixCell (p : Program) (s : Store) (number i : Nat) (w : Word) : Store :=
  match p.matrixExternal? number with
  | some x => { s with shared := x.set s.shared i w }
  | none =>
      { s with owned.matrices :=
          s.owned.matrices.modify number fun cells => cells.setIfInBounds i w }

def setMatrixCells (p : Program) (number : Nat) (s : Store) (i : Nat) : List Word → Store
  | [] => s
  | w :: ws => p.setMatrixCells number (p.setMatrixCell s number i w) (i + 1) ws

-- Copies cell after cell, each as it is when its turn comes
def copyMatrix (p : Program) (source target : Nat) (s : Store) : Store :=
  if source = target then s
  else (List.range (p.matrixType target).length).foldl
    (fun s i => p.setMatrixCell s target i (p.matrixCell s source i)) s

def ownedCells (slot : MatrixSlot) : Array Word :=
  match slot.external with
  | some _ => #[]
  | none => Array.replicate slot.type.length 0

def newOwned (p : Program) : Owned :=
  ⟨Array.replicate p.sizes.variableBytes 0, p.matrices.map ownedCells⟩

end Program

end FormulaMachine
