namespace FormulaMachine

structure Stack (α : Type) where
  -- The top comes first
  slots : List α
  depth : Nat
  depth_eq : depth = slots.length
  deriving DecidableEq, Repr

namespace Stack

variable {α : Type}

def empty : Stack α := ⟨[], 0, rfl⟩

def ofList (xs : List α) : Stack α := ⟨xs, xs.length, rfl⟩

def push (x : α) (s : Stack α) : Stack α :=
  ⟨x :: s.slots, s.depth + 1, by simp [s.depth_eq]⟩

def drop (n : Nat) (s : Stack α) : Stack α :=
  ⟨s.slots.drop n, s.depth - n, by simp [s.depth_eq]⟩

def set (i : Nat) (x : α) (s : Stack α) : Stack α :=
  ⟨s.slots.set i x, s.depth, by simp [s.depth_eq]⟩

def modify (i : Nat) (f : α → α) (s : Stack α) : Stack α :=
  ⟨s.slots.modify i f, s.depth, by simp [s.depth_eq]⟩

theorem eq_of_slots_eq {s t : Stack α} (h : s.slots = t.slots) : s = t := by
  obtain ⟨xs, n, hn⟩ := s
  obtain ⟨ys, m, hm⟩ := t
  obtain rfl : xs = ys := h
  obtain rfl : n = m := hn.trans hm.symm
  rfl

@[simp] theorem slots_empty : (empty : Stack α).slots = [] := rfl

@[simp] theorem slots_ofList (xs : List α) : (ofList xs).slots = xs := rfl

@[simp] theorem slots_push (x : α) (s : Stack α) : (s.push x).slots = x :: s.slots := rfl

@[simp] theorem slots_drop (n : Nat) (s : Stack α) : (s.drop n).slots = s.slots.drop n := rfl

@[simp] theorem slots_set (i : Nat) (x : α) (s : Stack α) :
    (s.set i x).slots = s.slots.set i x := rfl

@[simp] theorem slots_modify (i : Nat) (f : α → α) (s : Stack α) :
    (s.modify i f).slots = s.slots.modify i f := rfl

end Stack

end FormulaMachine
