import FormulaMachine.Proofs.Compiler.Names
import FormulaMachine.Proofs.Compiler.Unbounded
import Mathlib.Algebra.BigOperators.Group.List.Basic

namespace FormulaMachine

namespace Demand

instance : Add Demand :=
  ⟨fun m n => ⟨m.matrices + n.matrices, m.bindings + n.bindings, m.bytes + n.bytes⟩⟩

instance : Zero Demand := ⟨⟨0, 0, 0⟩⟩

theorem eq_of_parts {m n : Demand} (hmatrices : m.matrices = n.matrices)
    (hbindings : m.bindings = n.bindings) (hbytes : m.bytes = n.bytes) : m = n := by
  cases m
  cases n
  congr

instance : AddCommMonoid Demand where
  add_assoc _ _ _ := eq_of_parts (Nat.add_assoc ..) (Nat.add_assoc ..) (Nat.add_assoc ..)
  zero_add _ := eq_of_parts (Nat.zero_add _) (Nat.zero_add _) (Nat.zero_add _)
  add_zero _ := rfl
  add_comm _ _ := eq_of_parts (Nat.add_comm ..) (Nat.add_comm ..) (Nat.add_comm ..)
  nsmul := nsmulRec

end Demand

def Variable.bound (v : Variable) : DataType × Option External :=
  (v.type, v.external)

def share : DataType × Option External → Demand
  | (.matrix .., _) => ⟨1, 0, 0⟩
  | (_, some _) => ⟨0, 1, 0⟩
  | (t, none) => ⟨0, 0, t.size⟩

namespace Variable

variable {v : Variable}

theorem share_of_isMatrix (h : v.type.isMatrix) : share v.bound = ⟨1, 0, 0⟩ := by
  obtain ⟨k, rows, cols, ht⟩ := DataType.eq_matrix_of_isMatrix h
  rw [bound, ht, share]

theorem share_of_external {x : External} (h : ¬ v.type.isMatrix) (hx : v.external = some x) :
    share v.bound = ⟨0, 1, 0⟩ := by
  unfold bound
  cases ht : v.type with
  | matrix => exact absurd (by rw [ht]; rfl) h
  | _ =>
      rw [hx]
      rfl

theorem share_of_owned (h : ¬ v.type.isMatrix) (hx : v.external = none) :
    share v.bound = ⟨0, 0, v.type.size⟩ := by
  unfold bound
  cases ht : v.type with
  | matrix => exact absurd (by rw [ht]; rfl) h
  | _ =>
      rw [hx]
      rfl

end Variable

def Variable.allotted (v : Variable) : Demand :=
  if v.location = none then 0 else share v.bound

namespace Variables

def allotted (vs : Variables) : Demand :=
  ((vs.outputs ++ vs.inputs).map Variable.allotted).sum

section Sums

variable {v w : Variable} {ws : List Variable}

theorem sum_replace (hv : ws.find? (·.name == w.name) = some v) (hnone : v.location = none) :
    ((replace w ws).map Variable.allotted).sum =
      (ws.map Variable.allotted).sum + w.allotted := by
  induction ws with
  | nil => cases hv
  | cons u ws ih =>
      rw [List.find?_cons] at hv
      rw [replace]
      split at hv
      · rename_i hname
        obtain rfl := Option.some.inj hv
        have hzero : u.allotted = 0 := if_pos hnone
        rw [if_pos (by simpa using hname), List.map_cons, List.map_cons, List.sum_cons,
          List.sum_cons, hzero, zero_add, add_comm]
      · rename_i hname
        rw [if_neg (by simpa using hname), List.map_cons, List.map_cons, List.sum_cons,
          List.sum_cons, ih hv, add_assoc]

end Sums

theorem allotted_set {vs : Variables} {v w : Variable} (hv : vs.get? w.name = some v)
    (hnone : v.location = none) : (vs.set w).allotted = vs.allotted + w.allotted := by
  rw [get?, List.find?_append] at hv
  unfold set
  split
  · rename_i hout
    have hsome : (vs.outputs.find? (·.name == w.name)).isSome := by
      simpa [List.find?_isSome] using hout
    rw [Option.or_of_isSome hsome] at hv
    rw [allotted, allotted, List.map_append, List.map_append, List.sum_append, List.sum_append,
      sum_replace hv hnone, add_right_comm]
  · rename_i hout
    have hnot : vs.outputs.find? (·.name == w.name) = none := by
      simpa [List.find?_eq_none] using hout
    rw [hnot, Option.none_or] at hv
    rw [allotted, allotted, List.map_append, List.map_append, List.sum_append, List.sum_append,
      sum_replace hv hnone, add_assoc]

def total (names : List String) (bound : String → Option (DataType × Option External)) : Demand :=
  (names.map fun x => ((bound x).map share).getD 0).sum

theorem total_perm {xs ys : List String} (h : xs.Perm ys)
    (bound : String → Option (DataType × Option External)) : total xs bound = total ys bound :=
  (h.map _).sum_eq

section Placed

variable {vs : Variables} (hnodup : vs.names.Nodup)

include hnodup

theorem allotted_eq_zero (h : ∀ x v, vs.get? x = some v → v.location = none) :
    vs.allotted = 0 := by
  refine List.sum_eq_zero fun n hn => ?_
  obtain ⟨v, hv, rfl⟩ := List.mem_map.mp hn
  exact if_pos (h v.name v (get?_of_mem hnodup hv))

theorem allotted_eq_total (h : ∀ x v, vs.get? x = some v → v.location ≠ none) :
    vs.allotted = total vs.names fun x => (vs.get? x).map Variable.bound := by
  rw [allotted, total, names, List.map_map]
  refine congrArg List.sum (List.map_congr_left fun v hv => ?_)
  have hget := get?_of_mem hnodup hv
  rw [Function.comp_apply, hget]
  exact if_neg (h v.name v hget)

end Placed

end Variables

end FormulaMachine
