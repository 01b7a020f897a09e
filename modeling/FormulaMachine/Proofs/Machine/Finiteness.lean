import FormulaMachine.Proofs.Machine.Frame
import FormulaMachine.Proofs.Machine.Reports
import FormulaMachine.Proofs.Scalar.Finite

namespace FormulaMachine

theorem forall_of_mapM {ε α β : Type} {f : α → Except ε β} {P : β → Prop}
    (hf : ∀ x y, f x = .ok y → P y) {xs : List α} {ys : List β} (h : xs.mapM f = .ok ys) :
    ∀ y ∈ ys, P y := by
  induction xs generalizing ys with
  | nil =>
      obtain rfl : [] = ys := Except.ok.inj h
      exact fun y hy => absurd hy List.not_mem_nil
  | cons x xs ih =>
      rw [List.mapM_cons] at h
      obtain ⟨y, hy, h⟩ := bind_eq_ok h
      obtain ⟨ys', hys, h⟩ := bind_eq_ok h
      obtain rfl := Except.ok.inj h
      exact List.forall_mem_cons.mpr ⟨hf x y hy, ih hys⟩

theorem Scalar.isFinite_zero (k : Kind) : (Scalar.zero k).isFinite := by
  cases k with
  | uint w | int w => rfl
  | _ => decide

theorem Scalar.accumulated_finite {k : Kind} {f : Nat → Except Fault (Scalar k)} {n : Nat}
    {y : Scalar k} (h : (List.range n).foldlM (fun sum t => do
      let x ← f t
      Scalar.arithmetic true .sum sum x) (.zero k) = .ok y) : y.isFinite := by
  refine foldlM_invariant (P := fun x : Scalar k => x.isFinite) (fun sum t sum' _ hsum => ?_)
    (Scalar.isFinite_zero k) h
  obtain ⟨x, -, hsum⟩ := bind_eq_ok hsum
  exact Scalar.arithmetic_finite hsum

namespace Datum

def isFinite : Datum → Bool
  | .scalar x => x.isFinite
  | .matrix _ _ xs => xs.all Scalar.isFinite

theorem isFinite_matrix {k : Kind} {rows cols : Nat} {xs : List (Scalar k)} :
    (Datum.matrix rows cols xs).isFinite ↔ ∀ x ∈ xs, x.isFinite :=
  List.all_eq_true

theorem combine_finite {k : Kind} {op : MatrixOp} {rows cols : Nat} {a b : Datum}
    {xs : List (Scalar k)} (h : combine true k op rows cols a b = .ok xs) :
    ∀ x ∈ xs, x.isFinite := by
  have harithmetic {op : Arithmetic} {x y z : Scalar k} :
      Scalar.arithmetic true op x y = .ok z → z.isFinite := Scalar.arithmetic_finite
  cases op with
  | sum | sub =>
      obtain ⟨ys, -, h⟩ := bind_eq_ok h
      obtain ⟨zs, -, h⟩ := bind_eq_ok h
      exact forall_of_mapM (fun e _ => harithmetic) h
  | product =>
      obtain ⟨ys, -, h⟩ := bind_eq_ok h
      obtain ⟨zs, -, h⟩ := bind_eq_ok h
      exact forall_of_mapM (fun n _ => Scalar.accumulated_finite) h
  | scaleLeft | scaleRight =>
      obtain ⟨ys, -, h⟩ := bind_eq_ok h
      obtain ⟨zs, -, h⟩ := bind_eq_ok h
      exact forall_of_mapM (fun x _ => harithmetic) h

end Datum

structure Reference.State.Finite (ρ : Reference.State) : Prop where
  vars : ∀ name x, ρ.vars name = some x → x.isFinite
  stack : ∀ x ∈ ρ.stack, x.isFinite

theorem Reference.State.Finite.push {ρ : Reference.State} {x : Datum} (h : ρ.Finite)
    (hx : x.isFinite) : (ρ.push x).Finite :=
  ⟨h.vars, List.forall_mem_cons.mpr ⟨hx, h.stack⟩⟩

theorem Follows.of_step {p : Program} {hs : List Held} {x : Except Fault State} {st : State}
    {r : Except Fault Reference.State} (h : Follows p hs x r) (hx : x = .ok st) :
    ∃ ρ, r = .ok ρ ∧ Represents p hs st ρ := by
  subst hx
  cases h with
  | ok h => exact ⟨_, rfl, h⟩

namespace Program

variable {p : Program} {s : Store} {hs hs' : List Held} {e : Entry} {st st' : State}
  {ρ : Reference.State} {pc : Nat}

def ConstantsFinite (p : Program) : Prop :=
  ∀ e ∈ p.code.toList, ∀ offset k, e.opcode = .loadConstant offset k →
    (Scalar.ofBytes k (readBytes p.constants offset k.size)).isFinite

def VariablesFinite (p : Program) (s : Store) : Prop :=
  ∀ name x, p.datum s name = some x → x.isFinite

inductive Access (p : Program) (e : Entry) : Prop
  | load {name : String} {w : Variable} {l : Location} (hw : p.vars.get? name = some w)
      (hl : w.location = some l)
      (hop : e.opcode = Draft.loadOpcode (Draft.elementKind w.type) l) : Access p e
  | store {name : String} {w : Variable} {l : Location} (hw : p.vars.get? name = some w)
      (hl : w.location = some l)
      (hop : e.opcode = Draft.storeOpcode (Draft.elementKind w.type) l) : Access p e
  | neither (hop : e.opcode.location? = none) : Access p e

theorem Accesses.access {es : List Entry} {code : List Postfix.Instruction}
    (h : p.Accesses es code) : ∀ e ∈ es, p.Access e := by
  induction h with
  | nil => exact fun e he => absurd he List.not_mem_nil
  | load hw hl hop _ ih => exact List.forall_mem_cons.mpr ⟨.load hw hl hop, ih⟩
  | store hw hl hop _ ih => exact List.forall_mem_cons.mpr ⟨.store hw hl hop, ih⟩
  | neither hop _ ih => exact List.forall_mem_cons.mpr ⟨.neither hop, ih⟩

theorem Admits.store_free (he : p.Admits hs e hs') {k : Kind} {l : Location}
    (hop : e.opcode = Draft.storeOpcode k l) :
    ∀ number, l = .matrix number → .matrix number ∉ hs' := by
  rintro number rfl
  cases he with
  | storeMatrix _ _ hfree =>
      cases hop
      exact hfree
  | _ => cases hop

section Steps

variable (hp : p.layout.Sound) (hsep : p.vars.Separate) (hconst : p.ConstantsFinite)
  (he : p.Admits hs e hs') (hcode : e ∈ p.code.toList)
  (hroom : hs'.length ≤ p.sizes.maxStackDepth) (h : Represents p hs st ρ) (hρ : ρ.Finite)
  (hstep : p.step true e.opcode st = .ok st')

include hp hsep hconst he hcode hroom h hρ hstep

theorem inner_finite (hop : e.opcode.location? = none) :
    ∃ ρ', Represents p hs' st' ρ' ∧ ρ'.Finite := by
  have hentry := he
  cases he with
  | @loadConstant _ offset k line spelling hsize =>
      obtain ⟨_, hρ', hrep⟩ := (h.push true hentry hroom rfl).of_step hstep
      obtain rfl := Except.ok.inj hρ'
      refine ⟨_, hrep, hρ.push ?_⟩
      rw [heldDatum, Scalar.ofWord_toWord]
      exact hconst _ hcode offset k rfl
  | copyMatrix =>
      obtain ⟨_, hρ', hrep⟩ := (h.copy hp hsep true hentry ⟨_, _, rfl⟩ hroom).of_step hstep
      obtain rfl := Except.ok.inj hρ'
      exact ⟨_, hrep, hρ⟩
  | @cast _ depth j k implicit line spelling hat =>
      rw [List.length_set] at hroom
      obtain ⟨x, hx, hfollows⟩ := h.cast true depth k implicit hat hroom
      obtain ⟨_, hρ', hrep⟩ := hfollows.of_step hstep
      obtain ⟨y, hy, rfl⟩ := map_eq_ok hρ'
      refine ⟨_, hrep, hρ.vars, fun z hz => ?_⟩
      rcases List.mem_or_eq_of_mem_set hz with hz | rfl
      · exact hρ.stack z hz
      · have hfinite := hρ.stack _ (List.mem_of_getElem? hx)
        exact Scalar.cast_finite hfinite hy
  | keep =>
      rw [step, castStep, if_pos rfl] at hstep
      obtain rfl := Except.ok.inj hstep
      exact ⟨ρ, h, hρ⟩
  | @scalar hs kernel k line spelling hk =>
      obtain ⟨xs, -, -, hfollows⟩ := h.scalars true hk hroom
      obtain ⟨_, hρ', hrep⟩ := hfollows.of_step hstep
      obtain ⟨y, hy, rfl⟩ := map_eq_ok hρ'
      refine ⟨_, hrep, hρ.vars, List.forall_mem_cons.mpr ⟨Kernel.onScalars_finite hy, ?_⟩⟩
      exact fun z hz => hρ.stack z (List.mem_of_mem_drop hz)
  | matrix hc htemp hfree =>
      obtain ⟨k, rows, cols, -, htarget⟩ := hc.target_type
      obtain ⟨x, y, rest, hstack, hfollows⟩ :=
        h.matrix hp hsep true hc htarget htemp hfree hroom
      obtain ⟨_, hρ', hrep⟩ := hfollows.of_step hstep
      obtain ⟨xs, hxs, rfl⟩ := map_eq_ok hρ'
      have hresult : (Datum.matrix rows cols xs).isFinite :=
        Datum.isFinite_matrix.mpr (Datum.combine_finite hxs)
      refine ⟨_, hrep, hρ.vars, List.forall_mem_cons.mpr ⟨hresult, fun z hz => ?_⟩⟩
      exact hρ.stack z (hstack ▸ List.mem_cons_of_mem _ (List.mem_cons_of_mem _ hz))
  | _ => cases hop

theorem step_finite (haccess : p.Access e) : ∃ ρ', Represents p hs' st' ρ' ∧ ρ'.Finite := by
  cases haccess with
  | @load name w l hw hl hop =>
      obtain rfl := he.load_eq hop
      rw [hop] at hstep
      obtain ⟨_, hρ', hrep⟩ := (h.load hp hw hl hroom).of_step hstep
      obtain rfl := Except.ok.inj hρ'
      exact ⟨_, hrep, hρ.push (hρ.vars name _ ((h.vars name).trans (datum_eq hw hl)))⟩
  | @store name w l hw hl hop =>
      obtain ⟨x, rfl, hx⟩ := he.store_eq hp hw hl hop
      obtain ⟨y, rest, hstack, hfollows⟩ :=
        h.store hp hsep true hw hl hx (he.store_free hop) hroom
      rw [hop] at hstep
      obtain ⟨_, hρ', hrep⟩ := hfollows.of_step hstep
      obtain rfl := Except.ok.inj hρ'
      have hfinite := hρ.stack
      rw [hstack] at hfinite
      obtain ⟨hy, hrest⟩ := List.forall_mem_cons.mp hfinite
      refine ⟨_, hrep, fun other z hz => ?_, hrest⟩
      by_cases hname : other = name
      · subst hname
        dsimp only at hz
        rw [Function.update_self] at hz
        exact Option.some.inj hz ▸ hy
      · dsimp only at hz
        rw [Function.update_of_ne hname] at hz
        exact hρ.vars other z hz
  | neither hop => exact inner_finite hp hsep hconst he hcode hroom h hρ hstep hop

end Steps

theorem Visits.finite (hp : p.Sound) (hsep : p.vars.Separate) (hconst : p.ConstantsFinite)
    (haccess : ∀ e ∈ p.code.toList, p.Access e) (hfit : p.Fits s) (hs : p.VariablesFinite s)
    (h : p.Visits true s pc st) :
    ∃ hs ρ, p.AdmitsAll p.sizes.maxStackDepth [] (p.code.toList.take pc) hs ∧
      p.AdmitsAll p.sizes.maxStackDepth hs (p.code.toList.drop pc) [] ∧
      Represents p hs st ρ ∧ ρ.Finite := by
  induction h with
  | start =>
      refine ⟨[], _, .nil (Nat.zero_le _), hp.admits, represents_start hfit, hs, ?_⟩
      exact fun x hx => absurd hx List.not_mem_nil
  | @next pc st st' e _ he hstep ih =>
      obtain ⟨hs, ρ, hpre, hpost, hrep, hρ⟩ := ih
      obtain ⟨hs₁, hadmits, hrest⟩ := hpost.entry he
      have hmem : e ∈ p.code.toList := (Array.mem_of_getElem? he).val
      obtain ⟨ρ', hrep', hρ'⟩ := step_finite hp.layout hsep hconst hadmits hmem
        hrest.length_start_le hrep hρ hstep (haccess e hmem)
      refine ⟨hs₁, ρ', ?_, hrest, hrep', hρ'⟩
      rw [← Array.getElem?_toList] at he
      obtain ⟨hlt, rfl⟩ := List.getElem?_eq_some_iff.mp he
      rw [List.take_succ_eq_append_getElem hlt]
      exact hpre.append (.single hadmits hpost.length_start_le hrest.length_start_le)

theorem zipWith_wordDatum (hp : p.Sound) {ws : List Word} (hproper : ∀ x ∈ hs, p.Proper x)
    (h : List.Forall₂ Held.Matches hs ws) (s : Store) :
    List.zipWith (p.wordDatum s) (hs.map p.heldType) ws = p.view s hs ws := by
  induction h with
  | nil => rfl
  | @cons x w hs ws hw _ ih =>
      obtain ⟨hx, hproper⟩ := List.forall_mem_cons.mp hproper
      rw [List.map_cons, List.zipWith_cons_cons, wordDatum_heldType hp hx hw, ih hproper]
      rfl

def WritesFinite (p : Program) (s s' : Store) : Prop :=
  ∀ number k rows cols i, p.matrixType number = .matrix k rows cols → i < rows * cols →
    (p.element s' k number i).isFinite ∨ p.matrixCell s' number i = p.matrixCell s number i

theorem WritesFinite.refl (p : Program) (s : Store) : p.WritesFinite s s :=
  fun _ _ _ _ _ _ _ => .inr rfl

theorem element_finite {s : Store} {number rows cols i : Nat} {k : Kind}
    (ht : p.matrixType number = .matrix k rows cols) (hi : i < rows * cols)
    (h : (p.matrixDatum s number).isFinite) : (p.element s k number i).isFinite := by
  rw [matrixDatum_eq ht, Datum.isFinite_matrix] at h
  exact h _ (List.mem_map_of_mem (List.mem_range.mpr hi))

theorem writesFinite_of_changedIn {s s' : Store} {area : Set Address} (h : s.ChangedIn area s')
    (harea : ∀ number, Disjoint (p.matrixArea number) area ∨
      (p.matrixDatum s' number).isFinite) : p.WritesFinite s s' := by
  intro number k rows cols i ht hi
  rcases harea number with hdisj | hfinite
  · refine .inr (matrixCell_of_changedIn h hdisj ?_)
    rw [ht]
    exact hi
  · exact .inl (element_finite ht hi hfinite)

theorem held_finite (h : Represents p hs st ρ) (hρ : ρ.Finite) {number : Nat}
    (hmem : .matrix number ∈ hs) : (p.matrixDatum st.store number).isFinite := by
  obtain ⟨i, hi⟩ := List.mem_iff_getElem?.mp hmem
  obtain ⟨w, hw, -⟩ := forall₂_getElem?_left h.words hi
  refine hρ.stack _ (List.mem_of_getElem? (i := i) ?_)
  rw [h.stack, getElem?_view hi hw]
  rfl

theorem step_writesFinite (hp : p.layout.Sound) (hsep : p.vars.Separate)
    (he : p.Admits hs e hs') (haccess : p.Access e) (h : Represents p hs' st' ρ) (hρ : ρ.Finite)
    (hstep : p.step true e.opcode st = .ok st') : p.WritesFinite st.store st'.store := by
  refine writesFinite_of_changedIn (changedIn_of_step hstep) fun number => ?_
  -- the matrix that an entry writes is a variable or lies on the stack afterwards
  have hheld {target : Nat} (hmem : .matrix target ∈ hs') :
      Disjoint (p.matrixArea number) (p.matrixArea target) ∨
        (p.matrixDatum st'.store number).isFinite := by
    by_cases hnumber : number = target
    · exact .inr (held_finite h hρ (hnumber ▸ hmem))
    · exact .inl (matrixArea_disjoint hp hsep hnumber)
  cases haccess with
  | load hw hl hop =>
      rw [hop, written_loadOpcode]
      exact .inl (Set.disjoint_empty _)
  | @store name w l hw hl hop =>
      rw [hop, written_storeOpcode ((hp.houses name w hw).keeps l hl)]
      by_cases hmatrix : l = .matrix number
      · refine .inr (hρ.vars name _ ?_)
        rw [h.vars, datum_eq hw hl, hmatrix]
        rfl
      · exact .inl (matrixArea_disjoint_area hp hsep w.type hmatrix)
  | neither hop =>
      cases he with
      | copyMatrix hat =>
          exact hheld (List.mem_set (List.getElem?_eq_some_iff.mp hat).1 _)
      | matrix => exact hheld List.mem_cons_self
      | loadConstant | cast | keep | scalar => exact .inl (Set.disjoint_empty _)
      | _ => cases hop

section Cells

variable {k : Kind} {number : Nat} {cell : Store → Nat → Except Fault Word}

theorem resultCell_finite {op : MatrixOp} {target : DataType} {a b w : Word} {i : Nat}
    (h : p.resultCell true op k target a b s i = .ok w) : (Scalar.ofWord k w).isFinite := by
  cases op with
  | product =>
      obtain ⟨x, hx, rfl⟩ := map_eq_ok h
      rw [Scalar.ofWord_toWord]
      exact Scalar.accumulated_finite hx
  | _ =>
      obtain ⟨x, hx, rfl⟩ := map_eq_ok h
      rw [Scalar.ofWord_toWord]
      exact Scalar.arithmetic_finite hx

theorem fillCells_finite (hp : p.InRange) (hfit : p.Fits s)
    (hcell : ∀ s i w, cell s i = .ok w → (Scalar.ofWord k w).isFinite) {is : List Nat}
    (his : ∀ i ∈ is, i < (p.matrixType number).length) :
    s.ChangedIn (p.matrixArea number) (p.fillCells number cell s is).1 ∧
      ∀ i, (p.element (p.fillCells number cell s is).1 k number i).isFinite ∨
        p.matrixCell (p.fillCells number cell s is).1 number i = p.matrixCell s number i := by
  induction is generalizing s with
  | nil => exact ⟨.refl _ _, fun i => .inr rfl⟩
  | cons i is ih =>
      obtain ⟨hi, his⟩ := List.forall_mem_cons.mp his
      rw [fillCells]
      cases hw : cell s i with
      | error f => exact ⟨.refl _ _, fun i => .inr rfl⟩
      | ok w =>
          have hchanged := changedIn_setMatrixCell s hi w
          obtain ⟨hrest, hcells⟩ := ih (hfit.of_shape hchanged.shape) his
          refine ⟨hchanged.trans hrest, fun j => (hcells j).elim .inl fun hsame => ?_⟩
          dsimp only
          by_cases hj : j = i
          · subst hj
            have hwritten : p.matrixCell (p.setMatrixCell s number j w) number j = w := by
              rw [setMatrixCell_eq, matrixCell_eq,
                Store.cell_setCell_self (has_matrixAt hp hfit hi)]
            rw [element, hsame, hwritten]
            exact .inl (hcell s j w hw)
          · have hne : p.matrixAt number i ≠ p.matrixAt number j :=
              fun heq => hj (matrixAt_injective heq).symm
            have hkept : p.matrixCell (p.setMatrixCell s number i w) number j =
                p.matrixCell s number j := by
              rw [setMatrixCell_eq, matrixCell_eq, Store.cell_setCell_of_ne s hne, matrixCell_eq]
            exact .inr (hsame.trans hkept)

end Cells

end Program

namespace Machine

variable {p : Program} {m : Machine} {checked : Bool}

theorem store_push (m : Machine) (w : Word) : (m.push w).1.store = m.store := by
  unfold push
  split <;> rfl

theorem store_pushResult (m : Machine) (r : Except Fault Word) :
    (m.pushResult r).1.store = m.store := by
  cases r with
  | error f => rfl
  | ok w => exact m.store_push w

theorem pop_elim {P : Machine × Option Fault → Prop}
    {next : Word → Machine → Machine × Option Fault}
    (hempty : P (m, some .stackUnderflow))
    (hnext : ∀ w m', m'.store = m.store → P (next w m')) : P (m.pop next) := by
  unfold pop
  split
  · exact hempty
  · exact hnext _ _ rfl

theorem inPlace_elim {P : Machine × Option Fault → Prop} {depth : Nat}
    {next : Nat → Word → Machine × Option Fault} (hempty : P (m, some .stackUnderflow))
    (hnext : ∀ i w, P (next i w)) : P (m.inPlace depth next) := by
  unfold inPlace
  split
  · exact hnext _ _
  · exact hempty

theorem store_of_step_fault {opcode : Opcode} (hop : ∀ op target, opcode ≠ .matrix op target) :
    (m.step p checked opcode).2.isSome → (m.step p checked opcode).1.store = m.store := by
  let kept (r : Machine × Option Fault) : Prop := r.2.isSome → r.1.store = m.store
  have hempty {m' : Machine} (hm' : m'.store = m.store) : kept (m', some .stackUnderflow) :=
    fun _ => hm'
  have hresult {m' : Machine} (hm' : m'.store = m.store) (r : Except Fault Word) :
      kept (m'.pushResult r) := fun _ => (m'.store_pushResult r).trans hm'
  change kept _
  cases opcode with
  | loadConstant | loadVariable | loadExternal | loadMatrix => exact fun _ => m.store_push _
  | storeVariable | storeExternal | storeMatrix =>
      refine pop_elim (hempty rfl) fun w m' _ hfault => ?_
      cases hfault
  | copyMatrix =>
      refine inPlace_elim (hempty rfl) fun i w hfault => ?_
      cases hfault
  | cast j k depth =>
      rw [step]
      split
      · exact fun _ => rfl
      · refine inPlace_elim (hempty rfl) fun i w => ?_
        split <;> exact fun _ => rfl
  | scalar kernel k =>
      cases kernel with
      | unary op => exact pop_elim (hempty rfl) fun x m' hm' => hresult hm' _
      | _ =>
          refine pop_elim (hempty rfl) fun r m₁ hm₁ => pop_elim (hempty hm₁) fun l m₂ hm₂ => ?_
          exact hresult (hm₂.trans hm₁) _
  | matrix op target => exact absurd rfl (hop op target)

theorem matrixStep_writesFinite (hp : p.layout.Sound) (hsep : p.vars.Separate) (hm : p.Fits m.store)
    {op : MatrixOp} {target : Nat} :
    p.WritesFinite m.store (m.matrixStep p true op target).1.store := by
  unfold matrixStep
  cases hk : (p.matrixType target).kind? with
  | none => exact .refl p _
  | some k =>
      refine pop_elim (P := fun r => p.WritesFinite m.store r.1.store) (.refl p _)
        fun b m₁ hm₁ => ?_
      refine pop_elim (P := fun r => p.WritesFinite m.store r.1.store) (hm₁ ▸ .refl p _)
        fun a m₂ hm₂ => ?_
      have hstore : m₂.store = m.store := hm₂.trans hm₁
      let cell := p.resultCell true op k (p.matrixType target) a b
      have hcell (s : Store) (i : Nat) (w : Word) : cell s i = .ok w →
          (Scalar.ofWord k w).isFinite := Program.resultCell_finite
      have his (i : Nat) : i ∈ List.range (p.matrixType target).length →
          i < (p.matrixType target).length := List.mem_range.mp
      obtain ⟨hchanged, hcells⟩ := Program.fillCells_finite hp.inRange (hstore ▸ hm) hcell his
      have hfilled : (combine p true op k target b a m₂).1.store =
          (p.fillCells target cell m₂.store (List.range (p.matrixType target).length)).1 := by
        unfold combine
        dsimp only
        split
        · rename_i hfill
          rw [hfill]
        · rename_i hfill
          rw [store_push, hfill]
      rw [hfilled, ← hstore]
      intro number k' rows cols i ht hi
      by_cases hnumber : number = target
      · subst hnumber
        rw [ht] at hk
        obtain rfl : k' = k := Option.some.inj hk
        exact hcells i
      · have hdisj := Program.matrixArea_disjoint hp hsep hnumber
        refine .inr (Program.matrixCell_of_changedIn hchanged hdisj ?_)
        rw [ht]
        exact hi

theorem step_writesFinite (hp : p.layout.Sound) (hsep : p.vars.Separate)
    (hconst : p.ConstantsFinite) {e : Entry} {hs hs' : List Held} {ρ : Reference.State}
    (he : p.Admits hs e hs') (hcode : e ∈ p.code.toList) (haccess : p.Access e)
    (hroom : hs'.length ≤ p.sizes.maxStackDepth) (hm : m.Fits p)
    (h : Represents p hs m.state ρ) (hρ : ρ.Finite) :
    p.WritesFinite m.store (m.step p true e.opcode).1.store := by
  by_cases hop : ∃ op target, e.opcode = .matrix op target
  · obtain ⟨op, target, hop⟩ := hop
    rw [hop]
    exact matrixStep_writesFinite hp hsep hm.store
  have hkept : (m.step p true e.opcode).2.isSome → (m.step p true e.opcode).1.store = m.store :=
    store_of_step_fault fun op target heq => hop ⟨op, target, heq⟩
  have hmirrors := step_mirrors hp hm he h.words true
  generalize m.step p true e.opcode = result at hkept hmirrors
  cases hstep : p.step true e.opcode m.state with
  | error f =>
      rw [hstep] at hmirrors
      cases hmirrors with
      | fault =>
          have hsame := hkept rfl
          dsimp only at hsame ⊢
          rw [hsame]
          exact .refl p m.store
  | ok st =>
      obtain ⟨ρ', h', hρ'⟩ := Program.step_finite hp hsep hconst he hcode hroom h hρ hstep haccess
      rw [hstep] at hmirrors
      cases hmirrors with
      | ok hm' hst =>
          have hwrites := Program.step_writesFinite hp hsep he haccess h' hρ' hstep
          rw [← hst] at hwrites
          exact hwrites

end Machine

namespace Program

structure StaysFinite (p : Program) (m : Machine) (sink : Option Sink) : Prop where
  visited : ∀ pc st, p.Visits true m.store pc st →
    (∀ x ∈ p.valuesAt pc st, x.isFinite) ∧ p.VariablesFinite st.store
  written : ∀ pc st e, ∀ n : Machine, p.Visits true m.store pc st → p.code[pc]? = some e →
    n.Fits p → n.state = st → p.WritesFinite st.store (n.step p true e.opcode).1.store
  left : p.VariablesFinite (p.execute .safe m.store sink).1.store
  leftOn : p.VariablesFinite (m.execute p .safe sink).1.store

variable {p : Program} {m : Machine}

theorem VariablesFinite.of_changedIn (hp : p.layout.Sound) {s s' : Store}
    (hs : p.VariablesFinite s) (h : s.ChangedIn p.temporaries s') : p.VariablesFinite s' := by
  intro name x hx
  rw [datum_of_changedIn hp h fun w l hw hl => temporaries_disjoint hw hl] at hx
  exact hs name x hx

theorem Sound.staysFinite (hp : p.Sound) (hsep : p.vars.Separate) (hconst : p.ConstantsFinite)
    (haccess : ∀ e ∈ p.code.toList, p.Access e) (hm : m.Fits p)
    (hs : p.VariablesFinite m.store) (sink : Option Sink) : p.StaysFinite m sink := by
  have hvisits {pc : Nat} {st : State} (h : p.Visits true m.store pc st) :=
    h.finite hp hsep hconst haccess hm.store hs
  have hvars {pc : Nat} {st : State} (h : p.Visits true m.store pc st) :
      p.VariablesFinite st.store := by
    obtain ⟨hs, ρ, -, -, hrep, hρ⟩ := hvisits h
    exact fun name x hx => hρ.vars name x ((hrep.vars name).trans hx)
  have hleft : p.VariablesFinite (p.execute .safe m.store sink).1.store := by
    obtain ⟨pc, st, h, hstore, -⟩ := execute_stops (p := p) .safe m.store sink
    exact hstore ▸ hvars h
  refine ⟨fun pc st h => ⟨?_, hvars h⟩, fun pc st e n h he hn hst => ?_, hleft, ?_⟩
  · obtain ⟨hs, ρ, hpre, -, hrep, hρ⟩ := hvisits h
    have htypes : p.typesAt pc = hs.map p.heldType := hpre.types_eq
    rw [valuesAt, htypes, zipWith_wordDatum hp hrep.proper hrep.words, ← hrep.stack]
    exact hρ.stack
  · obtain ⟨hs, ρ, -, hpost, hrep, hρ⟩ := hvisits h
    obtain ⟨hs₁, hadmits, hrest⟩ := hpost.entry he
    have hmem : e ∈ p.code.toList := (Array.mem_of_getElem? he).val
    subst hst
    exact Machine.step_writesFinite hp.layout hsep hconst hadmits hmem (haccess e hmem)
      hrest.length_start_le hn hrep hρ
  · obtain ⟨hends, -⟩ := Machine.execute_ends hp hm .safe sink
    exact hleft.of_changedIn hp.layout hends.changed

theorem execute_safe_finite {text : String} {vs : Variables} {o : CompileOptions}
    (hvs : vs.Made) (hsep : vs.Separate) (h : compile text vs o = .ok p)
    (hconst : p.ConstantsFinite) (hm : m.Fits p) (hs : p.VariablesFinite m.store)
    (sink : Option Sink) : p.StaysFinite m sink :=
  (compile_sound hvs.fresh h).staysFinite (separate_of_compile hsep h) hconst
    (accesses_of_compile hvs.fresh h).access hm hs sink

theorem execute_safe_finite_row :
    ∃ vs p, ∃ m : Machine, vs.Made ∧ vs.Separate ∧
      compile "READ S\nCONST float32 1.5\nSUM\nWRITE T\nREAD A\nREAD A\nSUM\nWRITE B\n" vs
        .default = .ok p ∧
      p.ConstantsFinite ∧ m.Fits p ∧ p.VariablesFinite m.store ∧
      m.store.owned.matrices = #[#[], #[0x7FF0000000000000, 0x7FF0000000000000], #[]] ∧
      (m.execute p .safe none).2.1.isSome ∧
      (m.execute p .safe none).1.store.owned.matrices =
        #[#[], #[0x4000000000000000, 0x7FF0000000000000], #[]] ∧
      p.StaysFinite m none := by
  let single : DataType := .scalar .float32
  let row : DataType := .matrix .float64 1 2
  let x : External := ⟨⟨0, 2⟩, 0⟩
  let y : External := ⟨⟨1, 4⟩, 0⟩
  let z : External := ⟨⟨1, 4⟩, 2⟩
  let vs : Variables := ⟨[⟨"S", single, none, none⟩, ⟨"A", row, none, some y⟩],
    [⟨"T", single, none, some x⟩, ⟨"B", row, none, some z⟩]⟩
  let p : Program := {
    vars := ⟨[⟨"S", single, some (.variable 0), none⟩, ⟨"A", row, some (.matrix 0), some y⟩],
      [⟨"T", single, some (.external 0), some x⟩, ⟨"B", row, some (.matrix 2), some z⟩]⟩
    constants := #[0, 0, 0xC0, 0x3F]
    literals := [(0, ⟨"1.5", some "float32"⟩)]
    code := #[⟨.loadVariable 0 .float32, 1, [], some single, none⟩,
      ⟨.loadConstant 0 .float32, 2, [], some single, none⟩,
      ⟨.scalar (.arithmetic .sum) .float32, 3, [single, single], some single, none⟩,
      ⟨.storeExternal 0 .float32, 4, [single], none, none⟩,
      ⟨.loadMatrix 0, 5, [], some row, none⟩, ⟨.loadMatrix 0, 6, [], some row, none⟩,
      ⟨.matrix .sum 1, 7, [row, row], some row, none⟩, ⟨.storeMatrix 2, 8, [row], none, none⟩]
    matrices := #[⟨row, some y⟩, ⟨row, none⟩, ⟨row, some z⟩]
    bindings := #[x]
    sizes := ⟨4, 4, 8, 2⟩ }
  let m : Machine :=
    ⟨⟨⟨#[0, 0, 0xC0, 0x3F], #[#[], #[0x7FF0000000000000, 0x7FF0000000000000], #[]]⟩,
      #[#[1, 7], #[0x3FF0000000000000, 0x7FE0000000000000, 0, 0]]⟩, #[0, 0], 0⟩
  have hmade : vs.Made := by
    let vs₀ : Variables := ⟨[.named "S", .named "A"], [.named "T", .named "B"]⟩
    let vs₁ : Variables := ⟨[⟨"S", single, none, none⟩, .named "A"], [.named "T", .named "B"]⟩
    let vs₂ : Variables :=
      ⟨[⟨"S", single, none, none⟩, ⟨"A", row, none, some y⟩], [.named "T", .named "B"]⟩
    let vs₃ : Variables := ⟨[⟨"S", single, none, none⟩, ⟨"A", row, none, some y⟩],
      [⟨"T", single, none, some x⟩, .named "B"]⟩
    have hdiscover : Variables.discover
        "READ S\nCONST float32 1.5\nSUM\nWRITE T\nREAD A\nREAD A\nSUM\nWRITE B\n" =
        .ok vs₀ := by decide +kernel
    have hS : Variables.bind vs₀ "S" single none = .ok vs₁ := by decide +kernel
    have hA : Variables.bind vs₁ "A" row (some y) = .ok vs₂ := by decide +kernel
    have hT : Variables.bind vs₂ "T" single (some x) = .ok vs₃ := by decide +kernel
    have hB : Variables.bind vs₃ "B" row (some z) = .ok vs := by decide +kernel
    exact ⟨_, _, hdiscover, .bind (.bind (.bind (.bind .refl hS) hA) hT) hB⟩
  have hsep : vs.Separate := Variables.separate_of_forall (by decide)
  have hcompile : compile
      "READ S\nCONST float32 1.5\nSUM\nWRITE T\nREAD A\nREAD A\nSUM\nWRITE B\n" vs .default =
      .ok p := by decide +kernel
  have hconst : p.ConstantsFinite := by
    intro e he offset k hop
    have hload : ∀ e ∈ p.code.toList, ∀ offset k, e.opcode = .loadConstant offset k →
        offset = 0 ∧ k = .float32 := by
      simp [p]
    obtain ⟨rfl, rfl⟩ := hload e he offset k hop
    decide
  have hm : m.Fits p := ⟨⟨rfl, by decide +kernel, by decide⟩, rfl, Nat.zero_le 2⟩
  have hvars : p.VariablesFinite m.store := by
    intro name d hd
    obtain ⟨v, hv, hdatum⟩ := Option.bind_eq_some_iff.mp hd
    have hall : ∀ v ∈ p.vars.outputs ++ p.vars.inputs,
        ∀ d ∈ v.location.map (p.datumAt m.store v.type), d.isFinite := by decide
    exact hall v (List.mem_of_find?_eq_some hv) d hdatum
  have hstop : (m.execute p .safe none).2.1.isSome := by decide +kernel
  have hmatrices : (m.execute p .safe none).1.store.owned.matrices =
      #[#[], #[0x4000000000000000, 0x7FF0000000000000], #[]] := by decide +kernel
  exact ⟨vs, p, m, hmade, hsep, hcompile, hconst, hm, hvars, rfl, hstop, hmatrices,
    execute_safe_finite hmade hsep hcompile hconst hm hvars none⟩

end Program

end FormulaMachine
