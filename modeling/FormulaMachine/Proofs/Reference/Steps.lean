import FormulaMachine.Proofs.Reference.Matrices

namespace FormulaMachine

structure Represents (p : Program) (hs : List Held) (st : State) (ρ : Reference.State) : Prop where
  words : List.Forall₂ Held.Matches hs st.stack.slots
  proper : ∀ x ∈ hs, p.Proper x
  fits : p.Fits st.store
  vars : ∀ name, ρ.vars name = p.datum st.store name
  stack : ρ.stack = p.view st.store hs st.stack.slots

inductive Follows (p : Program) (hs : List Held) :
    Except Fault State → Except Fault Reference.State → Prop
  | ok {st : State} {ρ : Reference.State} (h : Represents p hs st ρ) :
      Follows p hs (.ok st) (.ok ρ)
  | fault (f : Fault) : Follows p hs (.error f) (.error f)

theorem Follows.bind {p : Program} {hs hs' : List Held} {r : Except Fault State}
    {q : Except Fault Reference.State} {f : State → Except Fault State}
    {g : Reference.State → Except Fault Reference.State} (h : Follows p hs r q)
    (hf : ∀ st ρ, Represents p hs st ρ → Follows p hs' (f st) (g ρ)) :
    Follows p hs' (r >>= f) (q >>= g) := by
  cases h with
  | ok h => exact hf _ _ h
  | fault f => exact .fault f

theorem Follows.of_ok {p : Program} {hs : List Held} {r : Except Fault State}
    {ρ : Reference.State} (h : Follows p hs r (.ok ρ)) :
    ∃ st, r = .ok st ∧ Represents p hs st ρ := by
  cases h with
  | ok h => exact ⟨_, rfl, h⟩

theorem Follows.of_fault {p : Program} {hs : List Held} {r : Except Fault State} {f : Fault}
    (h : Follows p hs r (.error f)) : r = .error f := by
  cases h with
  | fault => rfl

namespace Represents

variable {p : Program} {hs hs' : List Held} {st st' : State} {ρ ρ' : Reference.State}
  {e : Entry} {checked : Bool}

theorem next (h : Represents p hs st ρ) (he : p.Admits hs e hs')
    (hroom : hs'.length ≤ p.sizes.maxStackDepth) (hstep : p.step checked e.opcode st = .ok st')
    (hvars : ∀ name, ρ'.vars name = p.datum st'.store name)
    (hstack : ρ'.stack = p.view st'.store hs' st'.stack.slots) : Represents p hs' st' ρ' :=
  ⟨(he.step_progresses checked h.words hroom).2 st' hstep, he.proper h.proper,
    h.fits.of_shape (Program.shape_step hstep), hvars, hstack⟩

theorem depth_eq (h : Represents p hs st ρ) : st.stack.depth = hs.length := by
  rw [st.stack.depth_eq, h.words.length_eq]

theorem stack_types (h : Represents p hs st ρ) : ρ.stack.map Datum.type = hs.map p.heldType := by
  rw [h.stack]
  exact Program.map_type_view h.proper h.words.length_eq

theorem operand_types (h : Represents p hs st ρ) (count : Nat) :
    (ρ.stack.take count).reverse.map Datum.type = ((hs.take count).map p.heldType).reverse := by
  rw [List.map_reverse, List.map_take, h.stack_types, List.map_take]

theorem push (checked : Bool) {x : Held} {w : Word} (h : Represents p hs st ρ)
    (he : p.Admits hs e (x :: hs)) (hroom : (x :: hs).length ≤ p.sizes.maxStackDepth)
    (hstep : p.step checked e.opcode st = p.push w st) :
    Follows p (x :: hs) (p.step checked e.opcode st)
      (.ok (ρ.push (p.heldDatum st.store x w))) := by
  have hdepth : st.stack.depth < p.sizes.maxStackDepth := by
    rw [h.depth_eq]
    exact hroom
  have hok := hstep.trans (Program.push_eq_ok hdepth)
  rw [hok]
  refine .ok (h.next he hroom hok h.vars ?_)
  rw [Reference.State.push, h.stack]
  rfl

theorem load {name : String} {w : Variable} {l : Location} (h : Represents p hs st ρ)
    (hp : p.layout.Sound) (hw : p.vars.get? name = some w) (hl : w.location = some l)
    (hroom : (l.held w.type :: hs).length ≤ p.sizes.maxStackDepth) :
    Follows p (l.held w.type :: hs)
      (p.step checked (Draft.loadOpcode (Draft.elementKind w.type) l) st)
      (.ok (ρ.push (p.datumAt st.store w.type l))) := by
  have he := load_admits hp hw hl hs 0 none
  rcases l with offset | number | number
  · have hpush := h.push checked he hroom rfl
    rwa [Location.held, Program.heldDatum, Scalar.ofWord_toWord] at hpush
  · have hpush := h.push checked he hroom rfl
    rwa [Location.held, Program.heldDatum, Scalar.ofWord_toWord] at hpush
  · exact h.push checked he hroom rfl

theorem constant {offset : Nat} {k : Kind} {x : Scalar k} (h : Represents p hs st ρ)
    (hsize : offset + k.size ≤ p.constants.size)
    (hbytes : readBytes p.constants offset k.size = x.bytes)
    (hroom : (Held.scalar k :: hs).length ≤ p.sizes.maxStackDepth) :
    Follows p (.scalar k :: hs) (p.step checked (.loadConstant offset k) st)
      (.ok (ρ.push (.scalar x))) := by
  have he : p.Admits hs ⟨.loadConstant offset k, 0, [], some (.scalar k), none⟩ (.scalar k :: hs) :=
    .loadConstant hsize
  have hpush := h.push checked he hroom rfl
  rwa [hbytes, Scalar.ofBytes_bytes, Program.heldDatum, Scalar.ofWord_toWord] at hpush

theorem cast (checked : Bool) (depth : Nat) {j : Kind} (k : Kind) (implicit : Bool)
    (h : Represents p hs st ρ) (hat : hs[depth]? = some (.scalar j))
    (hroom : hs.length ≤ p.sizes.maxStackDepth) :
    ∃ x : Scalar j, ρ.stack[depth]? = some (.scalar x) ∧
      Follows p (hs.set depth (.scalar k)) (p.step checked (.cast j k depth implicit) st)
        ((Scalar.cast checked k x).map fun y =>
          { ρ with stack := ρ.stack.set depth (.scalar y) }) := by
  obtain ⟨w, hw, x, rfl⟩ := forall₂_getElem?_left h.words hat
  refine ⟨x, ?_, ?_⟩
  · rw [h.stack, Program.getElem?_view hat hw, Program.heldDatum, Scalar.ofWord_toWord]
  · have he : p.Admits hs ⟨.cast j k depth implicit, 0, [.scalar j], some (.scalar k), none⟩ _ :=
      .cast hat
    have hstep : p.step checked (.cast j k depth implicit) st = _ := Program.castStep_eq hw
    cases hy : Scalar.cast checked k x with
    | error f =>
        rw [hstep, hy]
        exact .fault f
    | ok y =>
        rw [hy] at hstep
        rw [hstep]
        refine .ok (h.next he (by rwa [List.length_set]) hstep h.vars ?_)
        rw [Stack.slots_set, Program.view_set, Program.heldDatum, Scalar.ofWord_toWord, ← h.stack]

theorem scalars (checked : Bool) {kernel : Kernel} {k : Kind}
    (h : Represents p (List.replicate kernel.arity (.scalar k) ++ hs) st ρ)
    (hk : k ∈ kernel.kinds) (hroom : hs.length + 1 ≤ p.sizes.maxStackDepth) :
    ∃ xs : List (Scalar k), xs.length = kernel.arity ∧
      ρ.stack.take kernel.arity = xs.map .scalar ∧
      Follows p (.scalar (kernel.resultKind k) :: hs) (p.step checked (.scalar kernel k) st)
        ((kernel.onScalars checked xs.reverse).map fun y =>
          ⟨ρ.vars, .scalar y :: ρ.stack.drop kernel.arity⟩) := by
  obtain ⟨xs, rest, hlen, hslots, hrest⟩ := Program.exists_scalars h.words
  have hstack : ρ.stack = xs.map .scalar ++ p.view st.store hs rest := by
    rw [h.stack, hslots, ← hlen, Program.view_scalars]
  have hcount : (xs.map Datum.scalar).length = kernel.arity := by rw [List.length_map, hlen]
  refine ⟨xs, hlen, by rw [hstack, List.take_left' hcount], ?_⟩
  have he : p.Admits (List.replicate kernel.arity (.scalar k) ++ hs) ⟨.scalar kernel k, 0,
      List.replicate kernel.arity (.scalar k), some (.scalar (kernel.resultKind k)), none⟩
      (.scalar (kernel.resultKind k) :: hs) := .scalar hk
  have hstep : p.step checked (.scalar kernel k) st =
      (kernel.onScalars checked xs.reverse).map fun y =>
        { st with stack := (st.stack.drop kernel.arity).push y.toWord } := by
    rw [Program.step, Program.onStack_eq hlen hslots, map_map_result]
  cases hy : kernel.onScalars checked xs.reverse with
  | error f =>
      rw [hstep, hy]
      exact .fault f
  | ok y =>
      rw [hy] at hstep
      rw [hstep]
      refine .ok (h.next he hroom hstep h.vars ?_)
      have hwords : (xs.map Scalar.toWord).length = kernel.arity := by rw [List.length_map, hlen]
      rw [hstack, List.drop_left' hcount, Stack.slots_push, Stack.slots_drop, hslots,
        List.drop_left' hwords]
      simp only [Program.view, List.zipWith_cons_cons, Program.heldDatum, Scalar.ofWord_toWord]

variable (hp : p.layout.Sound) (hsep : p.vars.Separate)

include hp hsep

theorem unchanged {target : Nat} {s : Store} (h : Represents p hs st ρ)
    (htemp : p.Temporary target) (hfree : .matrix target ∉ hs)
    (hchanged : st.store.ChangedIn (p.matrixArea target) s) :
    (∀ name, ρ.vars name = p.datum s name) ∧ ρ.stack = p.view s hs st.stack.slots := by
  refine ⟨fun name => ?_, ?_⟩
  · rw [h.vars, Program.datum_of_changedIn hp hchanged]
    intro w l hw hl
    refine (Program.matrixArea_disjoint_area hp hsep w.type ?_).symm
    rintro rfl
    exact htemp.unnamed name w hw hl
  · rw [h.stack, Program.view_of_changedIn hchanged]
    intro m hm
    refine Program.matrixArea_disjoint hp hsep ?_
    rintro rfl
    exact hfree hm

theorem copy (checked : Bool) (h : Represents p hs st ρ) (he : p.Admits hs e hs')
    (hop : ∃ depth target, e.opcode = .copyMatrix depth target)
    (hroom : hs'.length ≤ p.sizes.maxStackDepth) :
    Follows p hs' (p.step checked e.opcode st) (.ok ρ) := by
  have hentry := he
  cases he with
  | @copyMatrix _ depth source target k rows cols line spelling hat hsource htarget htemp hfree =>
      obtain ⟨w, hw, rfl⟩ := forall₂_getElem?_left h.words hat
      have hword := Program.toNat_matrixWord hp.matricesFew (Program.lt_of_matrixType hsource)
      have hstep : p.step checked (.copyMatrix depth target) st =
          .ok ⟨p.copyMatrix source target st.store,
            st.stack.set depth (Program.matrixWord target)⟩ := by
        simp only [Program.step, hw, hword]
      rw [hstep]
      obtain ⟨hvars, hstack⟩ :=
        h.unchanged hp hsep htemp hfree (Program.changedIn_copyMatrix source target st.store)
      refine .ok (h.next hentry hroom hstep hvars ?_)
      have hdatum := Program.matrixDatum_copyMatrix hp hsep h.fits hsource htarget
      have hview := Program.getElem?_view (p := p) (s := st.store) hat hw
      rw [← h.stack, Program.heldDatum, ← hdatum] at hview
      obtain ⟨hlt, hget⟩ := List.getElem?_eq_some_iff.mp hview
      rw [Stack.slots_set, Program.view_set, ← hstack, Program.heldDatum, ← hget,
        List.set_getElem_self]
  | _ =>
      obtain ⟨depth, target, hop⟩ := hop
      cases hop

theorem matrix (checked : Bool) {op : MatrixOp} {target rows cols : Nat} {k : Kind} {a b : Held}
    (h : Represents p (b :: a :: hs) st ρ) (hc : p.Combines op target a b)
    (htarget : p.matrixType target = .matrix k rows cols) (htemp : p.Temporary target)
    (hfree : .matrix target ∉ b :: a :: hs) (hroom : hs.length + 1 ≤ p.sizes.maxStackDepth) :
    ∃ x y rest, ρ.stack = y :: x :: rest ∧
      Follows p (.matrix target :: hs) (p.step checked (.matrix op target) st)
        ((Datum.combine checked k op rows cols x y).map fun xs =>
          ⟨ρ.vars, .matrix rows cols xs :: rest⟩) := by
  obtain ⟨wb, ws, hb, hws, hslots⟩ := List.forall₂_cons_left_iff.mp h.words
  obtain ⟨wa, rest, ha, hrest, rfl⟩ := List.forall₂_cons_left_iff.mp hws
  have hstack : ρ.stack = p.heldDatum st.store b wb :: p.heldDatum st.store a wa ::
      p.view st.store hs rest := by
    rw [h.stack, hslots]
    rfl
  refine ⟨_, _, _, hstack, ?_⟩
  have he : p.Admits (b :: a :: hs) ⟨.matrix op target, 0, [p.heldType a, p.heldType b],
      some (p.matrixType target), none⟩ (.matrix target :: hs) := .matrix hc htemp hfree
  have hlen : rest.length < p.sizes.maxStackDepth := by
    rw [← hrest.length_eq]
    exact hroom
  have hstep : p.step checked (.matrix op target) st =
      (Datum.combine checked k op rows cols (p.heldDatum st.store a wa)
        (p.heldDatum st.store b wb)).map fun xs =>
          ⟨p.setMatrixCells target st.store 0 (xs.map Scalar.toWord),
            (st.stack.drop 2).push (Program.matrixWord target)⟩ := by
    rw [Program.step, Program.matrixStep_eq hslots hlen,
      Program.matrixResult_eq checked st.store hp.matricesFew hc htarget ha hb, map_map_result]
  cases hxs : Datum.combine checked k op rows cols (p.heldDatum st.store a wa)
      (p.heldDatum st.store b wb) with
  | error f =>
      rw [hstep, hxs]
      exact .fault f
  | ok xs =>
      rw [hxs] at hstep
      rw [hstep]
      have hcount := Program.length_of_combine hp.matricesFew hc htarget ha hb hxs
      have hcells : (xs.map Scalar.toWord).length = (p.matrixType target).length := by
        rw [List.length_map, hcount, htarget]
        rfl
      obtain ⟨hvars, hview⟩ := h.unchanged hp hsep htemp hfree
        (Program.changedIn_setMatrixCells st.store hcells)
      refine .ok (h.next he hroom hstep hvars ?_)
      have hdatum := Program.matrixDatum_setMatrixCells hp.inRange h.fits htarget hcount
      rw [hstack, hslots] at hview
      obtain ⟨-, hview⟩ := List.cons.inj hview
      obtain ⟨-, hview⟩ := List.cons.inj hview
      rw [hview, Stack.slots_push, Stack.slots_drop, hslots]
      simp only [Program.view, List.zipWith_cons_cons, Program.heldDatum, hdatum]
      rfl

theorem stored {name : String} {w : Variable} {l : Location} {x : Held} {v : Word}
    {rest : List Word} (checked : Bool) (hfit : p.Fits st.store) (hw : p.vars.get? name = some w)
    (hl : w.location = some l) (hx : x.HasType p w.type) (hv : x.Matches v)
    (hslots : st.stack.slots = v :: rest) :
    ∃ s, p.step checked (Draft.storeOpcode (Draft.elementKind w.type) l) st =
        .ok ⟨s, st.stack.drop 1⟩ ∧
      st.store.ChangedIn (p.area w.type l) s ∧
      p.datumAt s w.type l = p.heldDatum st.store x v := by
  have hkeeps := (hp.houses name w hw).keeps l hl
  rcases l with offset | number | number
  · obtain ⟨k, ht, -, hsize⟩ := hkeeps
    rw [ht] at hx ⊢
    obtain rfl := hx.eq_scalar
    obtain ⟨y, rfl⟩ := hv
    have hbytes : offset + k.size ≤ st.store.shape.bytes := Nat.le_trans hsize hfit.bytes.ge
    refine ⟨st.store.writeScalar offset y, ?_, ⟨Store.shape_writeScalar _ _ _, ?_⟩, ?_⟩
    · simp only [Draft.storeOpcode, Program.step, Program.popInto, hslots]
      rw [Draft.elementKind, DataType.kind?, Option.getD_some, Scalar.ofWord_toWord]
    · exact fun a ha => Store.content_writeScalar_of_outside _ _ fun o hlow hhigh heq =>
        ha ⟨o, hlow, hhigh, heq⟩
    · have hread := Store.readScalar_writeScalar_self hbytes y
      rw [Program.heldDatum, Scalar.ofWord_toWord]
      exact congrArg Datum.scalar hread
  · obtain ⟨k, b, ht, -, hb⟩ := hkeeps
    rw [ht] at hx ⊢
    obtain rfl := hx.eq_scalar
    have hcell : (st.store.setCell (b.cellAt 0) v).cell (b.cellAt 0) = v :=
      Store.cell_setCell_self (Program.has_cellAt hp.inRange hfit hb) v
    refine ⟨p.setBindingCell st.store number v, ?_, ⟨p.shape_setBindingCell _ _ _, ?_⟩, ?_⟩
    · simp only [Draft.storeOpcode, Program.step, Program.popInto, hslots]
    · intro a ha
      rw [Program.setBindingCell_eq hb]
      exact Store.content_setCell_of_ne _ (fun heq => ha ⟨b, hb, heq⟩) v
    · rw [Program.datumAt, Program.setBindingCell_eq hb, Program.bindingCell_eq hb, hcell]
      rfl
  · obtain ⟨k, rows, cols, ht, htarget⟩ := hkeeps.eq_matrix (p := p) .refl
    rw [ht] at hx
    obtain ⟨source, rfl, hsource⟩ := hx.eq_matrix
    obtain rfl := hv
    have hword := Program.toNat_matrixWord hp.matricesFew (Program.lt_of_matrixType hsource)
    refine ⟨p.copyMatrix source number st.store, ?_,
      Program.changedIn_copyMatrix source number st.store,
      Program.matrixDatum_copyMatrix hp hsep hfit hsource htarget⟩
    simp only [Draft.storeOpcode, Program.step, Program.popInto, hslots, hword]

theorem store (checked : Bool) {name : String} {w : Variable} {l : Location} {x : Held}
    (h : Represents p (x :: hs) st ρ) (hw : p.vars.get? name = some w)
    (hl : w.location = some l) (hx : x.HasType p w.type)
    (hfree : ∀ number, l = .matrix number → .matrix number ∉ hs)
    (hroom : hs.length ≤ p.sizes.maxStackDepth) :
    ∃ y rest, ρ.stack = y :: rest ∧
      Follows p hs (p.step checked (Draft.storeOpcode (Draft.elementKind w.type) l) st)
        (.ok ⟨Function.update ρ.vars name (some y), rest⟩) := by
  obtain ⟨v, ws, hv, -, hslots⟩ := List.forall₂_cons_left_iff.mp h.words
  have hstack : ρ.stack = p.heldDatum st.store x v :: p.view st.store hs ws := by
    rw [h.stack, hslots]
    rfl
  obtain ⟨s, hstep, hchanged, hdatum⟩ := stored hp hsep checked h.fits hw hl hx hv hslots
  refine ⟨_, _, hstack, ?_⟩
  rw [hstep]
  refine .ok (h.next (store_admits hp hw hl hx hfree 0 none) hroom hstep (fun other => ?_) ?_)
  · dsimp only
    by_cases hname : other = name
    · subst hname
      rw [Function.update_self, Program.datum_eq hw hl, hdatum]
    · rw [Function.update_of_ne hname, h.vars, Program.datum_of_changedIn hp hchanged]
      exact fun w' l' hw' hl' => Program.area_disjoint hp hsep hname hw' hw hl' hl
  · rw [Stack.slots_drop, hslots, List.drop_one, List.tail_cons,
      Program.view_of_changedIn hchanged]
    intro m hm
    exact Program.matrixArea_disjoint_area hp hsep w.type fun heq => hfree m heq hm

end Represents

end FormulaMachine
