import FormulaMachine.Proofs.Machine.Faults
import FormulaMachine.Proofs.Machine.Knowledge
import FormulaMachine.Proofs.Reference.Refinement

namespace FormulaMachine

namespace Machine

def setValue (p : Program) (m : Machine) (name : String) (x : Value) : Machine × Option Error :=
  match p.find name with
  | .error e => (m, some e)
  | .ok (.scalar k, l) =>
      match Program.fitting name k x.scalar with
      | .error e => (m, some e)
      | .ok y => ({ m with store := p.putScalar m.store y l }, none)
  | .ok (t, _) => (m, some (.notScalar name t))

def setMatrix (p : Program) (m : Machine) (name : String) (xs : List (Scalar .float64)) :
    Machine × Option Error :=
  let (s, refused) := p.setMatrix m.store name xs
  ({ m with store := s }, refused)

variable {p : Program} {m : Machine} {name : String}

theorem setValue_eq (x : Value) : m.setValue p name x =
    match p.setValue m.store name x with
    | .error e => (m, some e)
    | .ok s => ({ m with store := s }, none) := by
  unfold setValue Program.setValue
  rcases p.find name with e | ⟨_ | k | _, l⟩
  · rfl
  · rfl
  · dsimp only
    cases Program.fitting name k x.scalar <;> rfl
  · rfl

end Machine

namespace Program

variable {p : Program} {s s' : Store} {name : String} {k : Kind}

theorem find_eq_ok {t : DataType} {l : Location} (h : p.find name = .ok (t, l)) :
    ∃ v, p.vars.get? name = some v ∧ v.type = t ∧ v.location = some l := by
  unfold find at h
  split at h
  · cases h
  rename_i v hv
  split at h
  · rename_i l' hl
    obtain ⟨rfl, rfl⟩ := Prod.mk.inj (Except.ok.inj h)
    exact ⟨v, hv, rfl, hl⟩
  · cases h

theorem changedIn_putScalar (s : Store) (x : Scalar k) (l : Location) :
    s.ChangedIn (p.area (.scalar k) l) (p.putScalar s x l) := by
  refine ⟨shape_putScalar s x l, fun a ha => ?_⟩
  rcases l with offset | number | number
  · refine s.content_writeScalar_of_outside x fun o hlow hhigh heq => ha ?_
    exact ⟨o, hlow, hhigh, heq⟩
  · cases hx : p.bindings[number]? with
    | none => simp only [putScalar, setBindingCell, hx]
    | some y =>
        rw [putScalar, setBindingCell_eq hx]
        exact s.content_setCell_of_ne (fun heq => ha ⟨y, hx, heq⟩) _
  · rfl

theorem getScalar_putScalar (hp : p.layout.Sound) (hfit : p.Fits s) {v : Variable} {l : Location}
    (hv : p.vars.get? name = some v) (ht : v.type = .scalar k) (hl : v.location = some l)
    (x : Scalar k) : p.getScalar (p.putScalar s x l) k l = x := by
  have hkeeps := (hp.houses name v hv).keeps l hl
  rcases l with offset | number | number
  · obtain ⟨j, hj, -, hend⟩ := hkeeps
    obtain rfl := DataType.scalar.inj (ht.symm.trans hj)
    have hbytes : s.owned.scalars.size = p.layout.variablesSize := hfit.bytes
    exact Store.readScalar_writeScalar_self (hend.trans_eq hbytes.symm) x
  · obtain ⟨j, y, -, -, hy⟩ := hkeeps
    rw [getScalar, putScalar, setBindingCell_eq hy, bindingCell_eq hy,
      Store.cell_setCell_self (has_cellAt hp.inRange hfit hy), Scalar.ofWord_toWord]
  · cases (congrArg DataType.isMatrix ht).symm.trans hkeeps.1

structure ChangesOnly (p : Program) (name : String) (s s' : Store) : Prop where
  own : ∃ v l, p.vars.get? name = some v ∧ v.location = some l ∧
    s.ChangedIn (p.area v.type l) s'
  values : ∀ other, other ≠ name → p.value s' other = p.value s other
  matrices : ∀ other, other ≠ name → p.matrix s' other = p.matrix s other

theorem changesOnly_of_changedIn (hp : p.layout.Sound) (hsep : p.vars.Separate) {v : Variable}
    {l : Location} (hv : p.vars.get? name = some v) (hl : v.location = some l)
    (h : s.ChangedIn (p.area v.type l) s') : p.ChangesOnly name s s' := by
  have hwords (other : String) (hne : other ≠ name) (w : Variable) (l' : Location)
      (hw : p.vars.get? other = some w) (hl' : w.location = some l') (a : Address)
      (ha : a ∈ p.area w.type l') : s'.content a = s.content a :=
    h.content a (Set.disjoint_left.mp (area_disjoint hp hsep hne hw hv hl' hl) ha)
  exact ⟨⟨v, l, hv, hl, h⟩, fun other hne => value_congr (hwords other hne),
    fun other hne => matrix_congr (hwords other hne) hp⟩

structure SetBefore (p : Program) (k : Kind) (number : Nat) (xs : List (Scalar .float64)) (n : Nat)
    (s s' : Store) : Prop where
  set : ∀ i x, i < n → xs[i]? = some x → Scalar.cast true k x = .ok (p.element s' k number i)
  kept : ∀ i, n ≤ i → i < (p.matrixType number).length →
    p.element s' k number i = p.element s k number i
  changed : s.ChangedIn (p.matrixArea number) s'

theorem fitting_eq_error {j : Kind} {x : Scalar j} {e : Error} (h : fitting name k x = .error e) :
    ∃ f, Scalar.cast true k x = .error f ∧ e = .doesNotFit f x.text name k := by
  unfold fitting at h
  cases hcast : Scalar.cast true k x with
  | error f =>
      rw [hcast] at h
      exact ⟨f, rfl, (Except.error.inj h).symm⟩
  | ok y =>
      rw [hcast] at h
      cases h

structure Writes (p : Program) (name : String) (k : Kind) (number i : Nat)
    (xs : List (Scalar .float64)) (n : Nat) (s : Store) (r : Store × Option Error) : Prop where
  set : ∀ j x, j < n → xs[j]? = some x → Scalar.cast true k x = .ok (p.element r.1 k number (i + j))
  kept : ∀ j, j < i ∨ i + n ≤ j → p.matrixCell r.1 number j = p.matrixCell s number j
  changed : s.ChangedIn (p.matrixArea number) r.1
  stopped : r.2 = none ∧ n = xs.length ∨ ∃ x f, xs[n]? = some x ∧
    Scalar.cast true k x = .error f ∧ r.2 = some (.doesNotFit f x.text name k)

theorem matrixCell_setMatrixCell_self {number i : Nat}
    (h : s.shape.Has (.cell (p.matrixAt number i))) (w : Word) :
    p.matrixCell (p.setMatrixCell s number i w) number i = w := by
  rw [matrixCell_eq, setMatrixCell_eq, Store.cell_setCell_self h]

theorem matrixCell_setMatrixCell_of_ne (s : Store) {number i j : Nat} (h : i ≠ j) (w : Word) :
    p.matrixCell (p.setMatrixCell s number i w) number j = p.matrixCell s number j := by
  rw [matrixCell_eq, matrixCell_eq, setMatrixCell_eq,
    Store.cell_setCell_of_ne s (fun heq => h (matrixAt_injective heq))]

theorem setElements_writes (hp : p.InRange) {number : Nat} {xs : List (Scalar .float64)} {i : Nat}
    (hfit : p.Fits s) (hlen : i + xs.length ≤ (p.matrixType number).length) :
    ∃ n, p.Writes name k number i xs n s (p.setElements name k number s i xs) := by
  induction xs generalizing s i with
  | nil =>
      refine ⟨0, fun j _ hj => absurd hj (Nat.not_lt_zero j), fun _ _ => rfl, .refl _ _, ?_⟩
      exact .inl ⟨rfl, rfl⟩
  | cons x xs ih =>
      rw [List.length_cons] at hlen
      have hi : i < (p.matrixType number).length := by omega
      rw [setElements]
      cases hx : fitting name k x with
      | error e =>
          obtain ⟨f, hcast, rfl⟩ := fitting_eq_error hx
          refine ⟨0, fun j _ hj => absurd hj (Nat.not_lt_zero j), fun _ _ => rfl, .refl _ _, ?_⟩
          exact .inr ⟨x, f, rfl, hcast, rfl⟩
      | ok y =>
          dsimp only
          have hcast : Scalar.cast true k x = .ok y := mapError_eq_ok hx
          have hfit' : p.Fits (p.setMatrixCell s number i y.toWord) :=
            hfit.of_shape (shape_setMatrixCell s number i y.toWord)
          obtain ⟨n, hwrites⟩ := ih hfit' (i := i + 1) (by omega)
          refine ⟨n + 1, fun j z hj hz => ?_, fun j hj => ?_, ?_, ?_⟩
          · cases j with
            | zero =>
                obtain rfl := Option.some.inj hz
                have hcell := hwrites.kept i (.inl (Nat.lt_succ_self i))
                rw [matrixCell_setMatrixCell_self (has_matrixAt hp hfit hi)] at hcell
                change Scalar.cast true k x = .ok (Scalar.ofWord k (p.matrixCell _ number i))
                rw [hcell, Scalar.ofWord_toWord]
                exact hcast
            | succ j =>
                rw [show i + (j + 1) = i + 1 + j by omega]
                exact hwrites.set j z (by omega) (by simpa using hz)
          · rw [hwrites.kept j (by omega), matrixCell_setMatrixCell_of_ne s (by omega)]
          · exact (changedIn_setMatrixCell s hi y.toWord).trans hwrites.changed
          · rcases hwrites.stopped with ⟨hnone, rfl⟩ | ⟨z, f, hz, hfails, hsome⟩
            · exact .inl ⟨hnone, rfl⟩
            · exact .inr ⟨z, f, by simpa using hz, hfails, hsome⟩

theorem Writes.setBefore {number n : Nat} {xs : List (Scalar .float64)}
    {r : Store × Option Error} (h : p.Writes name k number 0 xs n s r) :
    p.SetBefore k number xs n s r.1 := by
  refine ⟨fun i x hi hx => ?_, fun i hi _ => ?_, h.changed⟩
  · have hset := h.set i x hi hx
    rwa [Nat.zero_add] at hset
  · rw [element, element, h.kept i (.inr (by omega))]

end Program

namespace Machine

variable {p : Program} {m m' : Machine} {name : String}

theorem setValue_eq_ok (hp : p.layout.Sound) (hsep : p.vars.Separate) (hfit : p.Fits m.store)
    {x : Value} (h : m.setValue p name x = (m', none)) :
    ∃ v k y, p.vars.get? name = some v ∧ v.type = .scalar k ∧
      Scalar.cast true k x.scalar = .ok y ∧ p.value m'.store name = .ok ⟨k, y⟩ ∧
      p.ChangesOnly name m.store m'.store := by
  unfold setValue at h
  split at h
  · cases h
  · rename_i k l hfind
    split at h
    · cases h
    rename_i y hy
    obtain ⟨rfl, -⟩ := Prod.mk.inj h
    obtain ⟨v, hv, ht, hl⟩ := Program.find_eq_ok hfind
    have hread := Program.getScalar_putScalar hp hfit hv ht hl y
    have hchanged := Program.changedIn_putScalar (p := p) m.store y l
    rw [← ht] at hchanged
    refine ⟨v, k, y, hv, ht, mapError_eq_ok hy, ?_,
      Program.changesOnly_of_changedIn hp hsep hv hl hchanged⟩
    simp only [Program.value, hfind, hread]
  · cases h

theorem setValue_eq_error {x : Value} {e : Error} (h : m.setValue p name x = (m', some e)) :
    m' = m := by
  rw [setValue_eq] at h
  split at h
  · exact (Prod.mk.inj h).1.symm
  · cases h

def Takes (p : Program) (name : String) (xs : List (Scalar .float64)) (k : Kind) (number : Nat) :
    Prop :=
  ∃ rows cols, p.find name = .ok (.matrix k rows cols, .matrix number) ∧ xs.length = rows * cols

theorem setMatrix_of_takes (hp : p.layout.Sound) (hsep : p.vars.Separate) (hfit : p.Fits m.store)
    {xs : List (Scalar .float64)} {k : Kind} {number : Nat} (h : Takes p name xs k number) :
    ∃ n, p.Writes name k number 0 xs n m.store (p.setMatrix m.store name xs) ∧
      p.ChangesOnly name m.store (p.setMatrix m.store name xs).1 := by
  obtain ⟨rows, cols, hfind, hlen⟩ := h
  obtain ⟨v, hv, ht, hl⟩ := Program.find_eq_ok hfind
  obtain ⟨k', rows', cols', ht', htype⟩ :=
    ((hp.houses name v hv).keeps _ hl).eq_matrix (p := p) .refl
  obtain ⟨rfl, rfl, rfl⟩ := DataType.matrix.inj (ht.symm.trans ht')
  have hroom : 0 + xs.length ≤ (p.matrixType number).length := by
    rw [htype, DataType.length, hlen, Nat.zero_add]
  simp only [Program.setMatrix, hfind, if_pos hlen]
  obtain ⟨n, hwrites⟩ : ∃ n, p.Writes name k number 0 xs n m.store
      (p.setElements name k number m.store 0 xs) :=
    Program.setElements_writes hp.inRange hfit hroom
  exact ⟨n, hwrites, Program.changesOnly_of_changedIn hp hsep hv hl hwrites.changed⟩

theorem setMatrix_of_not_takes {xs : List (Scalar .float64)}
    (h : ∀ k number, ¬ Takes p name xs k number) :
    (m.setMatrix p name xs).1 = m ∧ ∃ e, (m.setMatrix p name xs).2 = some e := by
  unfold setMatrix Program.setMatrix
  split
  rename_i s refused hset
  split at hset
  · obtain ⟨rfl, rfl⟩ := Prod.mk.inj hset
    exact ⟨rfl, _, rfl⟩
  · rename_i hfind
    rw [if_neg fun hlen => h _ _ ⟨_, _, hfind, hlen⟩] at hset
    obtain ⟨rfl, rfl⟩ := Prod.mk.inj hset
    exact ⟨rfl, _, rfl⟩
  · obtain ⟨rfl, rfl⟩ := Prod.mk.inj hset
    exact ⟨rfl, _, rfl⟩

end Machine

section Compile

open Machine

variable {text : String} {vs : Variables} {o : CompileOptions} {p : Program}

theorem assignments_obey_store_laws (hvs : vs.Made) (hsep : vs.Separate)
    (h : compile text vs o = .ok p) {m : Machine} (hm : m.Reached p) :
    (∀ name x m', m.setValue p name x = (m', none) →
      ∃ v k y, p.vars.get? name = some v ∧ v.type = .scalar k ∧
        Scalar.cast true k x.scalar = .ok y ∧ p.value m'.store name = .ok ⟨k, y⟩ ∧
        p.ChangesOnly name m.store m'.store) ∧
    (∀ name x m' e, m.setValue p name x = (m', some e) → m' = m) ∧
    (∀ name xs m', m.setMatrix p name xs = (m', none) → ∃ k number, Takes p name xs k number ∧
      p.SetBefore k number xs xs.length m.store m'.store ∧
      p.ChangesOnly name m.store m'.store) ∧
    (∀ name xs m' e, m.setMatrix p name xs = (m', some e) →
      m' = m ∧ (∀ k number, ¬ Takes p name xs k number) ∨
        ∃ k number j x f, Takes p name xs k number ∧ xs[j]? = some x ∧
          Scalar.cast true k x = .error f ∧ p.SetBefore k number xs j m.store m'.store ∧
          p.ChangesOnly name m.store m'.store) := by
  have hp := compile_sound hvs.fresh h
  have hapart := Program.separate_of_compile hsep h
  have hfit := (hm.fits hp).store
  refine ⟨fun name x m' hset => setValue_eq_ok hp.layout hapart hfit hset,
    fun name x m' e hset => setValue_eq_error hset, fun name xs m' hset => ?_,
    fun name xs m' e hset => ?_⟩
  · by_cases htakes : ∃ k number, Takes p name xs k number
    · obtain ⟨k, number, htakes⟩ := htakes
      obtain ⟨n, hwrites, hothers⟩ := setMatrix_of_takes hp.layout hapart hfit htakes
      obtain ⟨rfl, hnone⟩ := Prod.mk.inj hset
      rcases hwrites.stopped with ⟨-, rfl⟩ | ⟨x, f, -, -, hsome⟩
      · exact ⟨k, number, htakes, hwrites.setBefore, hothers⟩
      · cases hnone.symm.trans hsome
    · obtain ⟨-, e, hsome⟩ := setMatrix_of_not_takes (m := m)
        fun k number hk => htakes ⟨k, number, hk⟩
      rw [hset] at hsome
      cases hsome
  · by_cases htakes : ∃ k number, Takes p name xs k number
    · obtain ⟨k, number, htakes⟩ := htakes
      obtain ⟨n, hwrites, hothers⟩ := setMatrix_of_takes hp.layout hapart hfit htakes
      obtain ⟨rfl, hsome⟩ := Prod.mk.inj hset
      rcases hwrites.stopped with ⟨hnone, -⟩ | ⟨x, f, hx, hfails, -⟩
      · cases hnone.symm.trans hsome
      · exact .inr ⟨k, number, n, x, f, htakes, hx, hfails, hwrites.setBefore, hothers⟩
    · have hnot (k : Kind) (number : Nat) (hk : Takes p name xs k number) : False :=
        htakes ⟨k, number, hk⟩
      obtain ⟨hsame, -⟩ := setMatrix_of_not_takes (m := m) hnot
      rw [hset] at hsame
      exact .inl ⟨hsame, hnot⟩

theorem assignments_obey_store_laws_bytes :
    ∃ vs p, ∃ m : Machine, vs.Made ∧ vs.Separate ∧
      compile "READ a\nWRITE b\nREAD M\nWRITE N\n" vs .default = .ok p ∧ m.Reached p ∧
      (∃ m', m.setValue p "a" ⟨.int .w16, ⟨7⟩⟩ = (m', none) ∧
        p.value m'.store "a" = .ok ⟨.uint .w8, ⟨7⟩⟩ ∧ p.ChangesOnly "a" m.store m'.store) ∧
      m.setValue p "a" ⟨.int .w16, ⟨300⟩⟩ =
        (m, some (.doesNotFit .outOfRange "300" "a" (.uint .w8))) ∧
      ∃ m', m.setMatrix p "M" [⟨0x3FF0000000000000⟩, ⟨0x4072C00000000000⟩] =
          (m', some (.doesNotFit .outOfRange "300" "M" (.int .w8))) ∧
        p.element m'.store (.int .w8) 0 0 = ⟨1⟩ ∧ p.element m'.store (.int .w8) 0 1 = ⟨0⟩ ∧
        p.ChangesOnly "M" m.store m'.store := by
  let row : DataType := .matrix (.int .w8) 1 2
  let x : External := ⟨⟨0, 4⟩, 0⟩
  let y : External := ⟨⟨0, 4⟩, 2⟩
  let vs : Variables := ⟨[⟨"a", .scalar (.uint .w8), none, none⟩, ⟨"M", row, none, some x⟩],
    [.named "b", ⟨"N", row, none, some y⟩]⟩
  let p : Program := {
    vars := ⟨[⟨"a", .scalar (.uint .w8), some (.variable 0), none⟩,
      ⟨"M", row, some (.matrix 0), some x⟩],
      [⟨"b", .scalar (.uint .w8), some (.variable 1), none⟩,
        ⟨"N", row, some (.matrix 1), some y⟩]⟩
    constants := #[]
    literals := []
    code := #[⟨.loadVariable 0 (.uint .w8), 1, [], some (.scalar (.uint .w8)), none⟩,
      ⟨.storeVariable 1 (.uint .w8), 2, [.scalar (.uint .w8)], none, none⟩,
      ⟨.loadMatrix 0, 3, [], some row, none⟩, ⟨.storeMatrix 1, 4, [row], none, none⟩]
    matrices := #[⟨row, some x⟩, ⟨row, some y⟩]
    bindings := #[]
    sizes := ⟨0, 2, 4, 1⟩ }
  let m : Machine := .new p #[#[0, 0, 0, 0]]
  have hmade : vs.Made := by
    have hdiscover : Variables.discover "READ a\nWRITE b\nREAD M\nWRITE N\n" =
        .ok ⟨[.named "a", .named "M"], [.named "b", .named "N"]⟩ := by decide +kernel
    have ha : Variables.bind ⟨[.named "a", .named "M"], [.named "b", .named "N"]⟩ "a"
        (.scalar (.uint .w8)) none =
        .ok ⟨[⟨"a", .scalar (.uint .w8), none, none⟩, .named "M"], [.named "b", .named "N"]⟩ := by
      decide +kernel
    have hx : Variables.bind ⟨[⟨"a", .scalar (.uint .w8), none, none⟩, .named "M"],
        [.named "b", .named "N"]⟩ "M" row (some x) =
        .ok ⟨[⟨"a", .scalar (.uint .w8), none, none⟩, ⟨"M", row, none, some x⟩],
          [.named "b", .named "N"]⟩ := by decide +kernel
    have hy : Variables.bind ⟨[⟨"a", .scalar (.uint .w8), none, none⟩, ⟨"M", row, none, some x⟩],
        [.named "b", .named "N"]⟩ "N" row (some y) = .ok vs := by decide +kernel
    exact ⟨_, _, hdiscover, .bind (.bind (.bind .refl ha) hx) hy⟩
  have hsep : vs.Separate := Variables.separate_of_forall (by decide)
  have hcompile : compile "READ a\nWRITE b\nREAD M\nWRITE N\n" vs .default = .ok p := by
    decide +kernel
  have hreached : m.Reached p := .new (by decide)
  let xs : List (Scalar .float64) := [⟨0x3FF0000000000000⟩, ⟨0x4072C00000000000⟩]
  have hrefused : (m.setMatrix p "M" xs).2 =
      some (.doesNotFit .outOfRange "300" "M" (.int .w8)) := by decide +kernel
  have hpair : m.setMatrix p "M" xs = ((m.setMatrix p "M" xs).1,
      some (.doesNotFit .outOfRange "300" "M" (.int .w8))) := Prod.ext rfl hrefused
  obtain ⟨hset, hkept, -, hpartly⟩ := assignments_obey_store_laws hmade hsep hcompile hreached
  refine ⟨vs, p, m, hmade, hsep, hcompile, hreached, ⟨_, rfl, ?_⟩, ?_, _, hpair, ?_⟩
  · obtain ⟨v, k, z, hv, ht, hcast, hvalue, honly⟩ := hset "a" ⟨.int .w16, ⟨7⟩⟩ _ rfl
    obtain rfl := Option.some.inj hv
    obtain rfl := DataType.scalar.inj ht
    obtain rfl := Except.ok.inj hcast
    exact ⟨hvalue, honly⟩
  · have hfails : (m.setValue p "a" ⟨.int .w16, ⟨300⟩⟩).2 =
        some (.doesNotFit .outOfRange "300" "a" (.uint .w8)) := by decide +kernel
    exact Prod.ext (hkept "a" ⟨.int .w16, ⟨300⟩⟩ _ _ (Prod.ext rfl hfails)) hfails
  · rcases hpartly "M" xs _ _ hpair with
      ⟨-, hnot⟩ | ⟨k, number, j, z, f, -, -, -, -, honly⟩
    · exact absurd ⟨1, 2, rfl, rfl⟩ (hnot (.int .w8) 0)
    · exact ⟨by decide +kernel, by decide +kernel, honly⟩

end Compile

end FormulaMachine
