import FormulaMachine.Machine.Step
import FormulaMachine.Proofs.Scalar.Words
import Mathlib.Data.Set.BooleanAlgebra
import Mathlib.Data.Set.Disjoint
import Mathlib.Order.CompletePartialOrder

namespace FormulaMachine

inductive Cell where
  | owned (number index : Nat)
  | shared (memory index : Nat)
  deriving DecidableEq, Repr

inductive Address where
  | byte (offset : Nat)
  | cell (c : Cell)
  deriving DecidableEq, Repr

structure Shape where
  bytes : Nat
  owned : Array Nat
  shared : Array Nat
  deriving DecidableEq, Repr

def Shape.Has (x : Shape) : Address → Prop
  | .byte offset => offset < x.bytes
  | .cell (.owned number index) => index < x.owned.getD number 0
  | .cell (.shared memory index) => index < x.shared.getD memory 0

namespace Shared

theorem load?_store_self (t : Shared) {n i : Nat} (h : i < (t.map Array.size).getD n 0)
    (w : Word) : (t.store n i w).load? n i = some w := by
  by_cases hn : n < t.size
  · have hi : i < t[n].size := by simpa [Array.getD_eq_getD_getElem?, hn] using h
    rw [load?, store, Array.getElem?_modify, if_pos rfl, Array.getElem?_eq_getElem hn]
    simp [hi]
  · simp [Array.getD_eq_getD_getElem?, hn] at h

theorem load?_store_of_ne (t : Shared) {n i m j : Nat} (h : n = m → i ≠ j) (w : Word) :
    (t.store n i w).load? m j = t.load? m j := by
  by_cases hnm : n = m
  · subst hnm
    cases ht : t[n]? with
    | none => simp [load?, store, Array.getElem?_modify, ht]
    | some cells =>
        simp [load?, store, Array.getElem?_modify, ht, Array.getElem?_setIfInBounds_ne (h rfl)]
  · simp [load?, store, Array.getElem?_modify, hnm]

@[simp] theorem size_store (t : Shared) (n i : Nat) (w : Word) :
    (t.store n i w).map Array.size = t.map Array.size := by
  apply Array.ext
  · simp [store]
  · intro m hm _
    simp only [store, Array.getElem_map, Array.getElem_modify]
    split <;> simp

end Shared

namespace Store

def shape (s : Store) : Shape :=
  ⟨s.owned.scalars.size, s.owned.matrices.map Array.size, s.shared.map Array.size⟩

def cell (s : Store) : Cell → Word
  | .owned number index => (Shared.load? s.owned.matrices number index).getD 0
  | .shared memory index => (s.shared.load? memory index).getD 0

def setCell (s : Store) : Cell → Word → Store
  | .owned number index, w =>
      { s with owned.matrices := Shared.store s.owned.matrices number index w }
  | .shared memory index, w => { s with shared := s.shared.store memory index w }

def content (s : Store) : Address → Word
  | .byte offset => (s.owned.scalars.getD offset 0).setWidth 64
  | .cell c => s.cell c

theorem load?_of_has {s : Store} {memory i : Nat} (h : s.shape.Has (.cell (.shared memory i))) :
    s.shared.load? memory i = some (s.cell (.shared memory i)) := by
  have hi : i < (s.shared.map Array.size).getD memory 0 := h
  by_cases hmemory : memory < s.shared.size
  · have hi : i < s.shared[memory].size := by
      simpa [Array.getD_eq_getD_getElem?, hmemory] using hi
    simp [cell, Shared.load?, hmemory, hi]
  · simp [Array.getD_eq_getD_getElem?, hmemory] at hi

theorem cell_setCell_self {s : Store} {c : Cell} (h : s.shape.Has (.cell c)) (w : Word) :
    (s.setCell c w).cell c = w := by
  cases c with
  | owned number index =>
      exact congrArg (Option.getD · 0) (Shared.load?_store_self s.owned.matrices h w)
  | shared memory index =>
      exact congrArg (Option.getD · 0) (Shared.load?_store_self s.shared h w)

theorem cell_setCell_of_ne (s : Store) {c c' : Cell} (h : c ≠ c') (w : Word) :
    (s.setCell c w).cell c' = s.cell c' := by
  cases c with
  | owned n i =>
      cases c' with
      | owned m j =>
          have hne : n = m → i ≠ j := fun hn hi => h (by rw [hn, hi])
          exact congrArg (Option.getD · 0) (Shared.load?_store_of_ne s.owned.matrices hne w)
      | shared m j => rfl
  | shared n i =>
      cases c' with
      | owned m j => rfl
      | shared m j =>
          have hne : n = m → i ≠ j := fun hn hi => h (by rw [hn, hi])
          exact congrArg (Option.getD · 0) (Shared.load?_store_of_ne s.shared hne w)

@[simp] theorem scalars_setCell (s : Store) (c : Cell) (w : Word) :
    (s.setCell c w).owned.scalars = s.owned.scalars := by
  cases c <;> rfl

@[simp] theorem shape_setCell (s : Store) (c : Cell) (w : Word) :
    (s.setCell c w).shape = s.shape := by
  cases c <;> simp [shape, setCell]

theorem content_setCell_of_ne (s : Store) {c : Cell} {a : Address} (h : a ≠ .cell c) (w : Word) :
    (s.setCell c w).content a = s.content a := by
  cases a with
  | byte offset => simp [content]
  | cell c' => exact cell_setCell_of_ne s (fun hc => h (by rw [hc])) w

end Store

theorem size_writeBytes (area : Array Byte) (offset : Nat) (bs : List Byte) :
    (writeBytes area offset bs).size = area.size := by
  induction bs generalizing area offset with
  | nil => rfl
  | cons b bs ih => rw [writeBytes, ih, Array.size_setIfInBounds]

theorem getD_writeBytes_of_outside (area : Array Byte) (offset : Nat) (bs : List Byte) {o : Nat}
    (h : o < offset ∨ offset + bs.length ≤ o) :
    (writeBytes area offset bs).getD o 0 = area.getD o 0 := by
  induction bs generalizing area offset with
  | nil => rfl
  | cons b bs ih =>
      rw [List.length_cons] at h
      rw [writeBytes, ih _ _ (by omega)]
      simp only [Array.getD_eq_getD_getElem?]
      rw [Array.getElem?_setIfInBounds_ne (by omega)]

theorem getD_writeBytes_of_inside {area : Array Byte} {offset o : Nat} {bs : List Byte}
    (hlow : offset ≤ o) (hhigh : o < offset + bs.length) (hsize : o < area.size) :
    (writeBytes area offset bs).getD o 0 = bs.getD (o - offset) 0 := by
  induction bs generalizing area offset with
  | nil => simp at hhigh; omega
  | cons b bs ih =>
      rw [List.length_cons] at hhigh
      rw [writeBytes]
      by_cases ho : o = offset
      · subst ho
        rw [getD_writeBytes_of_outside _ _ _ (by omega)]
        simp [Array.getD_eq_getD_getElem?, hsize]
      · have hstep : o - offset = (o - (offset + 1)) + 1 := by omega
        rw [ih (by omega) (by omega) (by simpa using hsize), hstep, List.getD_cons_succ]

theorem readBytes_congr {a b : Array Byte} (count offset : Nat)
    (h : ∀ o, offset ≤ o → o < offset + count → a.getD o 0 = b.getD o 0) :
    readBytes a offset count = readBytes b offset count := by
  induction count generalizing offset with
  | zero => rfl
  | succ count ih =>
      rw [readBytes, readBytes, h offset (by omega) (by omega),
        ih (offset + 1) fun o ho ho' => h o (by omega) (by omega)]

theorem readBytes_writeBytes_self {area : Array Byte} {offset : Nat} {bs : List Byte}
    (h : offset + bs.length ≤ area.size) :
    readBytes (writeBytes area offset bs) offset bs.length = bs := by
  induction bs generalizing area offset with
  | nil => rfl
  | cons b bs ih =>
      rw [List.length_cons] at h
      have hb : (writeBytes (area.setIfInBounds offset b) (offset + 1) bs).getD offset 0 = b := by
        rw [getD_writeBytes_of_outside _ _ _ (by omega)]
        simp [Array.getD_eq_getD_getElem?, show offset < area.size by omega]
      rw [List.length_cons, readBytes, writeBytes, hb, ih (by simp; omega)]

namespace Store

@[simp] theorem shape_writeScalar {k : Kind} (s : Store) (offset : Nat) (x : Scalar k) :
    (s.writeScalar offset x).shape = s.shape := by
  simp [shape, writeScalar, size_writeBytes]

theorem readScalar_writeScalar_self {k : Kind} {s : Store} {offset : Nat}
    (h : offset + k.size ≤ s.shape.bytes) (x : Scalar k) :
    (s.writeScalar offset x).readScalar offset k = x := by
  have hx : x.bytes.length = k.size := x.length_bytes
  have hbytes : readBytes (writeBytes s.owned.scalars offset x.bytes) offset k.size = x.bytes := by
    rw [← hx]
    exact readBytes_writeBytes_self (by rw [hx]; exact h)
  rw [readScalar, writeScalar, hbytes, Scalar.ofBytes_bytes]

theorem content_writeScalar_of_outside {k : Kind} (s : Store) {offset : Nat} (x : Scalar k)
    {a : Address} (h : ∀ o, offset ≤ o → o < offset + k.size → a ≠ .byte o) :
    (s.writeScalar offset x).content a = s.content a := by
  cases a with
  | byte o =>
      have ho : o < offset ∨ offset + x.bytes.length ≤ o := by
        rw [x.length_bytes]
        by_contra hin
        exact h o (by omega) (by omega) rfl
      simp only [content, writeScalar]
      rw [getD_writeBytes_of_outside _ _ _ ho]
  | cell c => cases c <;> rfl

theorem content_writeScalar_of_inside {k : Kind} {s : Store} {offset o : Nat} (x : Scalar k)
    (hlow : offset ≤ o) (hhigh : o < offset + k.size) (hhas : s.shape.Has (.byte o)) :
    (s.writeScalar offset x).content (.byte o) = (x.bytes.getD (o - offset) 0).setWidth 64 := by
  have hhigh' : o < offset + x.bytes.length := by rwa [x.length_bytes]
  simp only [content, writeScalar]
  rw [getD_writeBytes_of_inside hlow hhigh' hhas]

theorem readScalar_congr {s t : Store} {k : Kind} {offset : Nat}
    (h : ∀ o, offset ≤ o → o < offset + k.size → s.content (.byte o) = t.content (.byte o)) :
    s.readScalar offset k = t.readScalar offset k := by
  rw [readScalar, readScalar, readBytes_congr k.size offset]
  intro o ho ho'
  have hw := congrArg (BitVec.setWidth 8) (h o ho ho')
  simpa [content, BitVec.setWidth_setWidth_of_le] using hw

end Store

end FormulaMachine
