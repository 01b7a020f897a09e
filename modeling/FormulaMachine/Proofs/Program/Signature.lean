import FormulaMachine.Machine.Trace
import FormulaMachine.Proofs.Program.Typing
import Mathlib.Data.List.Forall2

namespace FormulaMachine

namespace Entry

def taken (e : Entry) (ts : List DataType) : List DataType :=
  match Program.inPlace? e.opcode with
  | some depth => ts[depth]?.toList
  | none => (ts.take e.inputs.length).reverse

def retype (e : Entry) (ts : List DataType) : List DataType :=
  match Program.inPlace? e.opcode with
  | some depth => ts.set depth (e.output.getD .void)
  | none => e.output.toList ++ ts.drop e.inputs.length

end Entry

namespace Program

def typesAt (p : Program) (pc : Nat) : List DataType :=
  (p.code.toList.take pc).foldl (fun ts e => e.retype ts) []

variable {p : Program}

theorem typesAt_succ {pc : Nat} {e : Entry} (he : p.code[pc]? = some e) :
    p.typesAt (pc + 1) = e.retype (p.typesAt pc) := by
  rw [← Array.getElem?_toList] at he
  obtain ⟨hlt, rfl⟩ := List.getElem?_eq_some_iff.mp he
  rw [typesAt, List.take_succ_eq_append_getElem hlt, List.foldl_append]
  rfl

theorem Admits.taken_eq {hs hs' : List Held} {e : Entry} (h : p.Admits hs e hs') :
    e.taken (hs.map p.heldType) = e.inputs := by
  cases h with
  | copyMatrix hat hsource =>
      simp only [Entry.taken, inPlace?, List.getElem?_map, hat, Option.map_some, heldType, hsource]
      rfl
  | cast hat =>
      simp only [Entry.taken, inPlace?, List.getElem?_map, hat, Option.map_some]
      rfl
  | keep ht =>
      simp only [Entry.taken, inPlace?, List.map_cons, List.getElem?_cons_zero, heldType, ht]
      rfl
  | storeMatrix hsource =>
      simp only [Entry.taken, inPlace?, List.map_cons, heldType, hsource]
      rfl
  | @scalar hs kernel k line spelling hk =>
      simp [Entry.taken, inPlace?, heldType, List.take_left']
  | matrix => rfl
  | _ => rfl

theorem Admits.retype_eq {hs hs' : List Held} {e : Entry} (h : p.Admits hs e hs') :
    e.retype (hs.map p.heldType) = hs'.map p.heldType := by
  cases h with
  | loadMatrix ht =>
      simp only [Entry.retype, inPlace?, List.map_cons, heldType, ht]
      rfl
  | copyMatrix hat hsource htarget =>
      simp only [Entry.retype, inPlace?, List.map_set, heldType, htarget, Option.getD_some]
  | cast => simp only [Entry.retype, inPlace?, List.map_set, heldType, Option.getD_some]
  | keep ht =>
      simp only [Entry.retype, inPlace?, List.map_cons, heldType, ht, Option.getD_some,
        List.set_cons_zero]
  | @scalar hs kernel k line spelling hk =>
      simp [Entry.retype, inPlace?, heldType, List.drop_left']
  | matrix => rfl
  | _ => rfl

theorem AdmitsAll.types_eq {limit : Nat} {hs hs' : List Held} {es : List Entry}
    (h : p.AdmitsAll limit hs es hs') :
    es.foldl (fun ts e => e.retype ts) (hs.map p.heldType) = hs'.map p.heldType := by
  induction h with
  | nil => rfl
  | cons _ he _ ih => rw [List.foldl_cons, he.retype_eq, ih]

def Proper (p : Program) : Held → Prop
  | .scalar _ => True
  | .matrix number => (p.matrixType number).isMatrix

theorem Admits.proper {hs hs' : List Held} {e : Entry} (h : p.Admits hs e hs')
    (hhs : ∀ x ∈ hs, p.Proper x) : ∀ x ∈ hs', p.Proper x := by
  have hset {x : Held} {hs : List Held} (hx : p.Proper x) (hhs : ∀ x ∈ hs, p.Proper x)
      (i : Nat) : ∀ y ∈ hs.set i x, p.Proper y := by
    intro y hy
    rcases List.mem_or_eq_of_mem_set hy with hy | rfl
    · exact hhs y hy
    · exact hx
  have hmatrix {number : Nat} {k : Kind} {rows cols : Nat}
      (ht : p.matrixType number = .matrix k rows cols) : p.Proper (.matrix number) := by
    rw [Proper, ht]
    rfl
  cases h with
  | loadConstant => exact List.forall_mem_cons.mpr ⟨trivial, hhs⟩
  | loadVariable => exact List.forall_mem_cons.mpr ⟨trivial, hhs⟩
  | loadExternal => exact List.forall_mem_cons.mpr ⟨trivial, hhs⟩
  | loadMatrix ht => exact List.forall_mem_cons.mpr ⟨hmatrix ht, hhs⟩
  | storeVariable => exact (List.forall_mem_cons.mp hhs).2
  | storeExternal => exact (List.forall_mem_cons.mp hhs).2
  | storeMatrix => exact (List.forall_mem_cons.mp hhs).2
  | copyMatrix hat hsource htarget => exact hset (hmatrix htarget) hhs _
  | cast => exact hset (x := .scalar _) trivial hhs _
  | keep => exact hhs
  | scalar =>
      exact List.forall_mem_cons.mpr ⟨trivial, (List.forall_mem_append.mp hhs).2⟩
  | matrix hc =>
      obtain ⟨k, rows, cols, -, ht⟩ := hc.target_type
      refine List.forall_mem_cons.mpr ⟨hmatrix ht, ?_⟩
      exact (List.forall_mem_cons.mp (List.forall_mem_cons.mp hhs).2).2

theorem AdmitsAll.proper {limit : Nat} {hs hs' : List Held} {es : List Entry}
    (h : p.AdmitsAll limit hs es hs') (hhs : ∀ x ∈ hs, p.Proper x) : ∀ x ∈ hs', p.Proper x := by
  induction h with
  | nil => exact hhs
  | cons _ he _ ih => exact ih (he.proper hhs)

end Program

end FormulaMachine
