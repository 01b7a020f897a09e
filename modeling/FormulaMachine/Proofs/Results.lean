import FormulaMachine.Error

namespace FormulaMachine

section Results

variable {ε ε' α β γ : Type}

theorem bind_eq_ok {x : Except ε α} {f : α → Except ε β} {b : β} (h : x >>= f = .ok b) :
    ∃ a, x = .ok a ∧ f a = .ok b := by
  cases x with
  | error e => cases h
  | ok a => exact ⟨a, rfl, h⟩

theorem bind_of_ok {x : Except ε α} {f : α → Except ε β} {a : α} (h : x = .ok a) :
    x >>= f = f a := by
  rw [h]
  rfl

theorem bind_eq_error {x : Except ε α} {f : α → Except ε β} {e : ε} (h : x >>= f = .error e) :
    x = .error e ∨ ∃ a, x = .ok a ∧ f a = .error e := by
  cases x with
  | error e' =>
      obtain rfl : e' = e := Except.error.inj h
      exact .inl rfl
  | ok a => exact .inr ⟨a, rfl, h⟩

theorem exists_ok_of_isOk {x : Except ε α} (h : x.isOk) : ∃ a, x = .ok a := by
  cases x with
  | error e => cases h
  | ok a => exact ⟨a, rfl⟩

theorem map_eq_ok {f : α → β} {x : Except ε α} {b : β} (h : x.map f = .ok b) :
    ∃ a, x = .ok a ∧ f a = b := by
  cases x with
  | error e => cases h
  | ok a => exact ⟨a, rfl, Except.ok.inj h⟩

theorem map_eq_error {f : α → β} {x : Except ε α} {e : ε} (h : x.map f = .error e) :
    x = .error e := by
  cases x with
  | error e' =>
      obtain rfl : e' = e := Except.error.inj h
      rfl
  | ok a => cases h

theorem mapError_eq_ok {x : Except ε α} {f : ε → ε'} {a : α} (h : x.mapError f = .ok a) :
    x = .ok a := by
  cases x with
  | error e => cases h
  | ok b =>
      obtain rfl : b = a := Except.ok.inj h
      rfl

theorem toOption_eq_some {x : Except ε α} {a : α} (h : x.toOption = some a) : x = .ok a := by
  cases x with
  | error e => cases h
  | ok b => exact congrArg Except.ok (Option.some.inj h)

theorem map_map_result (f : α → β) (g : β → γ) (x : Except ε α) :
    (x.map f).map g = x.map fun a => g (f a) := by
  cases x <;> rfl

section Map

variable {α' β' : Type} {f : α → α'} {g : β → β'} {x y : Except ε α} {x' y' : Except ε α'}

theorem map_bind_eq {k : α → Except ε β} {k' : α' → Except ε β'} (hx : x' = x.map f)
    (hk : ∀ a, k' (f a) = (k a).map g) : x' >>= k' = (x >>= k).map g := by
  subst hx
  cases x with
  | error e => rfl
  | ok a => exact hk a

theorem map_bind_same {k : α → Except ε β} {k' : α → Except ε β'}
    (hk : ∀ a, k' a = (k a).map g) : x >>= k' = (x >>= k).map g := by
  cases x with
  | error e => rfl
  | ok a => exact hk a

theorem map_ite_map {c : Prop} [Decidable c] {h : α → β} {h' : α' → β}
    (hx : x'.map h' = x.map h) (hy : y'.map h' = y.map h) :
    (if c then x' else y').map h' = (if c then x else y).map h := by
  split
  · exact hx
  · exact hy

theorem map_ite_eq {c : Prop} [Decidable c] (hx : x' = x.map f) (hy : y' = y.map f) :
    (if c then x' else y') = (if c then x else y).map f := by
  split
  · exact hx
  · exact hy

theorem map_foldlM_eq {k : α → γ → Except ε α} {k' : α' → γ → Except ε α'}
    (hk : ∀ a c, k' (f a) c = (k a c).map f) (cs : List γ) (a : α) :
    cs.foldlM k' (f a) = (cs.foldlM k a).map f := by
  induction cs generalizing a with
  | nil => rfl
  | cons c cs ih =>
      rw [List.foldlM_cons, List.foldlM_cons]
      exact map_bind_eq (hk a c) ih

end Map

theorem foldlM_invariant {f : β → α → Except ε β} {P : β → Prop}
    (hf : ∀ b a b', P b → f b a = .ok b' → P b') {xs : List α} {b b' : β} (hb : P b)
    (h : xs.foldlM f b = .ok b') : P b' := by
  induction xs generalizing b with
  | nil =>
      obtain rfl : b = b' := Except.ok.inj h
      exact hb
  | cons x xs ih =>
      rw [List.foldlM_cons] at h
      obtain ⟨c, hx, h⟩ := bind_eq_ok h
      exact ih (hf b x c hb hx) h

theorem foldlM_congr {f g : β → α → Except ε β} {xs : List α}
    (h : ∀ y, ∀ x ∈ xs, f y x = g y x) (y : β) : xs.foldlM f y = xs.foldlM g y := by
  induction xs generalizing y with
  | nil => rfl
  | cons x xs ih =>
      rw [List.foldlM_cons, List.foldlM_cons, h y x (List.mem_cons_self ..)]
      congr 1
      funext z
      exact ih (fun y x hx => h y x (List.mem_cons_of_mem _ hx)) z

theorem foldlM_mem_ok {f : β → α → Except ε β} {xs : List α} {b b' : β} {x : α} (hx : x ∈ xs)
    (h : xs.foldlM f b = .ok b') : ∃ c c', f c x = .ok c' := by
  induction xs generalizing b with
  | nil => cases hx
  | cons y xs ih =>
      rw [List.foldlM_cons] at h
      obtain ⟨c, hy, h⟩ := bind_eq_ok h
      rcases List.mem_cons.mp hx with rfl | hx
      · exact ⟨b, c, hy⟩
      · exact ih hx h

theorem mapM_congr {f g : α → Except ε β} {xs : List α} (h : ∀ x ∈ xs, f x = g x) :
    xs.mapM f = xs.mapM g := by
  induction xs with
  | nil => rfl
  | cons x xs ih =>
      obtain ⟨hx, hxs⟩ := List.forall_mem_cons.mp h
      rw [List.mapM_cons, List.mapM_cons, hx, ih hxs]

theorem mapM_map_result (f : α → Except ε β) (g : β → γ) (xs : List α) :
    (xs.mapM fun x => (f x).map g) = (xs.mapM f).map (List.map g) := by
  induction xs with
  | nil => rfl
  | cons x xs ih =>
      rw [List.mapM_cons, List.mapM_cons, ih]
      cases f x with
      | error e => rfl
      | ok y => cases xs.mapM f <;> rfl

theorem length_of_mapM {f : α → Except ε β} {xs : List α} {ys : List β}
    (h : xs.mapM f = .ok ys) : ys.length = xs.length := by
  induction xs generalizing ys with
  | nil =>
      obtain rfl : [] = ys := Except.ok.inj h
      rfl
  | cons x xs ih =>
      rw [List.mapM_cons] at h
      obtain ⟨y, -, h⟩ := bind_eq_ok h
      obtain ⟨ys', hys, h⟩ := bind_eq_ok h
      obtain rfl := Except.ok.inj h
      rw [List.length_cons, List.length_cons, ih hys]

inductive Mirrors (R : α → β → Prop) : Except ε α → Option β → Prop
  | ok {a b} (h : R a b) : Mirrors R (.ok a) (some b)
  | error (e : ε) : Mirrors R (.error e) none

namespace Mirrors

variable {R : α → β → Prop} {x : Except ε α} {y : Option β}

theorem bind {δ : Type} {S : γ → δ → Prop} {f : α → Except ε γ} {g : β → Option δ}
    (h : Mirrors R x y) (hf : ∀ a b, y = some b → R a b → Mirrors S (f a) (g b)) :
    Mirrors S (x >>= f) (y.bind g) := by
  cases h with
  | ok h => exact hf _ _ rfl h
  | error e => exact .error e

theorem exists_some (h : Mirrors R x y) {a : α} (hx : x = .ok a) : ∃ b, y = some b ∧ R a b := by
  subst hx
  cases h with
  | ok h => exact ⟨_, rfl, h⟩

theorem exists_ok (h : Mirrors R x y) {b : β} (hy : y = some b) : ∃ a, x = .ok a ∧ R a b := by
  subst hy
  cases h with
  | ok h => exact ⟨_, rfl, h⟩

end Mirrors

end Results

end FormulaMachine
