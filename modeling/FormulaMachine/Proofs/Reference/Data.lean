import FormulaMachine.Machine.Access
import FormulaMachine.Proofs.Compiler.Compile
import FormulaMachine.Proofs.Machine.Reachability
import FormulaMachine.Proofs.Program.Areas
import FormulaMachine.Proofs.Program.Signature
import FormulaMachine.Proofs.Reference.Interpreter

namespace FormulaMachine

namespace Program

variable {p : Program} {s s' : Store} {area : Set Address}

def matrixDatum (p : Program) (s : Store) (number : Nat) : Datum :=
  match p.matrixType number with
  | .matrix k rows cols => .matrix rows cols ((List.range (rows * cols)).map (p.element s k number))
  | .scalar k => .scalar (.zero k)
  | .void => .scalar (.zero .bool)

def heldDatum (p : Program) (s : Store) : Held → Word → Datum
  | .scalar k, w => .scalar (.ofWord k w)
  | .matrix number, _ => p.matrixDatum s number

def datumAt (p : Program) (s : Store) (t : DataType) : Location → Datum
  | .variable offset => .scalar (s.readScalar offset (Draft.elementKind t))
  | .external number => .scalar (.ofWord (Draft.elementKind t) (p.bindingCell s number))
  | .matrix number => p.matrixDatum s number

def datum (p : Program) (s : Store) (name : String) : Option Datum :=
  (p.vars.get? name).bind fun v => v.location.map (p.datumAt s v.type)

def view (p : Program) (s : Store) (hs : List Held) (ws : List Word) : List Datum :=
  List.zipWith (p.heldDatum s) hs ws

theorem datum_eq {name : String} {w : Variable} {l : Location} (hw : p.vars.get? name = some w)
    (hl : w.location = some l) : p.datum s name = some (p.datumAt s w.type l) := by
  rw [datum, hw, Option.bind_some, hl, Option.map_some]

theorem matrixDatum_eq {number : Nat} {k : Kind} {rows cols : Nat}
    (ht : p.matrixType number = .matrix k rows cols) : p.matrixDatum s number =
      .matrix rows cols ((List.range (rows * cols)).map (p.element s k number)) := by
  rw [matrixDatum, ht]

theorem type_heldDatum {x : Held} (hx : p.Proper x) (w : Word) :
    (p.heldDatum s x w).type = p.heldType x := by
  cases x with
  | scalar k => rfl
  | matrix number =>
      obtain ⟨k, rows, cols, ht⟩ := DataType.eq_matrix_of_isMatrix hx
      rw [heldDatum, matrixDatum_eq ht, heldType, ht]
      rfl

theorem map_type_view {hs : List Held} {ws : List Word} (hhs : ∀ x ∈ hs, p.Proper x)
    (hlen : hs.length = ws.length) : (p.view s hs ws).map Datum.type = hs.map p.heldType := by
  induction hs generalizing ws with
  | nil => rfl
  | cons x hs ih =>
      cases ws with
      | nil => cases hlen
      | cons w ws =>
          obtain ⟨hx, hhs⟩ := List.forall_mem_cons.mp hhs
          have hrest := ih hhs (Nat.succ.inj hlen)
          simp only [view, List.zipWith_cons_cons, List.map_cons, type_heldDatum hx] at hrest ⊢
          rw [hrest]

theorem element_congr {k : Kind} {number i : Nat}
    (h : s'.content (.cell (p.matrixAt number i)) = s.content (.cell (p.matrixAt number i))) :
    p.element s' k number i = p.element s k number i := by
  simp only [element, matrixCell_eq]
  exact congrArg _ h

theorem matrixDatum_of_changedIn (h : s.ChangedIn area s') {number : Nat}
    (hdisj : Disjoint (p.matrixArea number) area) :
    p.matrixDatum s' number = p.matrixDatum s number := by
  cases ht : p.matrixType number with
  | matrix k rows cols =>
      rw [matrixDatum_eq ht, matrixDatum_eq ht]
      congr 1
      refine List.map_congr_left fun i hi => element_congr (h.content _ ?_)
      refine Set.disjoint_left.mp hdisj (matrixAt_mem_matrixArea ?_)
      rw [ht]
      exact List.mem_range.mp hi
  | scalar k => rw [matrixDatum, matrixDatum, ht]
  | void => rw [matrixDatum, matrixDatum, ht]

theorem datumAt_of_changedIn {w : Variable} {l : Location} (h : s.ChangedIn area s')
    (hkeeps : p.layout.Keeps w l) (hdisj : Disjoint (p.area w.type l) area) :
    p.datumAt s' w.type l = p.datumAt s w.type l := by
  rcases l with offset | number | number
  · obtain ⟨k, ht, -, -⟩ := hkeeps
    rw [ht] at hdisj ⊢
    simp only [datumAt]
    congr 1
    refine Store.readScalar_congr fun o hlow hhigh => h.content _ ?_
    exact Set.disjoint_left.mp hdisj ⟨o, hlow, hhigh, rfl⟩
  · obtain ⟨k, x, ht, -, hx⟩ := hkeeps
    rw [datumAt, datumAt, bindingCell_eq hx, bindingCell_eq hx]
    congr 2
    exact h.content (.cell (x.cellAt 0)) (Set.disjoint_left.mp hdisj ⟨x, hx, rfl⟩)
  · exact matrixDatum_of_changedIn h hdisj

theorem datum_of_changedIn (hp : p.layout.Sound) (h : s.ChangedIn area s') {name : String}
    (hdisj : ∀ w l, p.vars.get? name = some w → w.location = some l →
      Disjoint (p.area w.type l) area) : p.datum s' name = p.datum s name := by
  rw [datum, datum]
  cases hw : p.vars.get? name with
  | none => rfl
  | some w =>
      cases hl : w.location with
      | none => simp only [Option.bind_some, hl, Option.map_none]
      | some l =>
          have hkeeps := (hp.houses name w hw).keeps l hl
          simp only [Option.bind_some, hl, Option.map_some]
          rw [datumAt_of_changedIn h hkeeps (hdisj w l hw hl)]

theorem view_of_changedIn (h : s.ChangedIn area s') {hs : List Held}
    (hdisj : ∀ m, .matrix m ∈ hs → Disjoint (p.matrixArea m) area) (ws : List Word) :
    p.view s' hs ws = p.view s hs ws := by
  induction hs generalizing ws with
  | nil => rfl
  | cons x hs ih =>
      cases ws with
      | nil => rfl
      | cons w ws =>
          have hhead : p.heldDatum s' x w = p.heldDatum s x w := by
            cases x with
            | scalar k => rfl
            | matrix number =>
                exact matrixDatum_of_changedIn h (hdisj number (List.mem_cons_self ..))
          have hrest := ih (fun m hm => hdisj m (List.mem_cons_of_mem _ hm)) ws
          simp only [view, List.zipWith_cons_cons, hhead] at hrest ⊢
          rw [hrest]

theorem view_set (s : Store) (hs : List Held) (ws : List Word) (i : Nat) (x : Held) (w : Word) :
    p.view s (hs.set i x) (ws.set i w) = (p.view s hs ws).set i (p.heldDatum s x w) := by
  induction hs generalizing ws i with
  | nil => cases ws <;> rfl
  | cons y hs ih =>
      cases ws with
      | nil => cases i <;> rfl
      | cons v ws =>
          cases i with
          | zero => rfl
          | succ i =>
              have hrest := ih ws i
              simp only [view, List.set_cons_succ, List.zipWith_cons_cons] at hrest ⊢
              rw [hrest]

theorem getElem?_view {hs : List Held} {ws : List Word} {i : Nat} {x : Held} {w : Word}
    (hx : hs[i]? = some x) (hw : ws[i]? = some w) :
    (p.view s hs ws)[i]? = some (p.heldDatum s x w) := by
  simp [view, List.getElem?_zipWith, hx, hw]

theorem view_scalars {k : Kind} (xs : List (Scalar k)) (hs : List Held) (ws : List Word) :
    p.view s (List.replicate xs.length (.scalar k) ++ hs) (xs.map Scalar.toWord ++ ws) =
      xs.map .scalar ++ p.view s hs ws := by
  induction xs with
  | nil => rfl
  | cons x xs ih =>
      simp only [view, List.length_cons, List.replicate_succ, List.map_cons, List.cons_append,
        List.zipWith_cons_cons, heldDatum, Scalar.ofWord_toWord] at ih ⊢
      rw [ih]

theorem matrixDatum_copyMatrix (hp : p.layout.Sound) (hsep : p.vars.Separate) (hfit : p.Fits s)
    {source target : Nat} {k : Kind} {rows cols : Nat}
    (hsource : p.matrixType source = .matrix k rows cols)
    (htarget : p.matrixType target = .matrix k rows cols) :
    p.matrixDatum (p.copyMatrix source target s) target = p.matrixDatum s source := by
  rw [matrixDatum_eq hsource, matrixDatum_eq htarget]
  congr 1
  refine List.map_congr_left fun i hi => ?_
  have hlt : i < (p.matrixType target).length := by
    rw [htarget]
    exact List.mem_range.mp hi
  have hcell := matrixCell_copyMatrix (by rw [hsource, htarget])
    (fun hne => matrixArea_disjoint hp hsep hne) (fun j hj => has_matrixAt hp.inRange hfit hj) hlt
  rw [element, element, hcell]

theorem matrixDatum_setMatrixCells (hp : p.InRange) (hfit : p.Fits s) {target : Nat} {k : Kind}
    {rows cols : Nat} (htarget : p.matrixType target = .matrix k rows cols)
    {xs : List (Scalar k)} (hlen : xs.length = rows * cols) :
    p.matrixDatum (p.setMatrixCells target s 0 (xs.map Scalar.toWord)) target =
      .matrix rows cols xs := by
  rw [matrixDatum_eq htarget]
  congr 1
  refine List.ext_getElem (by simp [hlen]) fun i hi hi' => ?_
  have hhas (j : Nat) (hj : j < (xs.map Scalar.toWord).length) :
      s.shape.Has (.cell (p.matrixAt target j)) := by
    refine has_matrixAt hp hfit ?_
    rw [htarget, DataType.length, ← hlen]
    simpa using hj
  have hcell := matrixCell_setMatrixCells hhas (i := i) (by simpa using hi')
  rw [List.getElem_map, List.getElem_range, element, hcell, List.getElem_map,
    Scalar.ofWord_toWord]

end Program

end FormulaMachine
