import FormulaMachine.Proofs.Reference.Steps

namespace FormulaMachine

namespace Datum

theorem castTo_self (checked : Bool) (x : Datum) : x.castTo checked x.type = .ok x := by
  cases x with
  | scalar x =>
      rw [type, castTo, Scalar.cast, dif_pos rfl]
      rfl
  | matrix rows cols xs =>
      rw [castTo, if_pos rfl]
      intro j y k hx
      cases hx

theorem castAll_cons (checked : Bool) (x : Datum) (xs : List Datum) (t : DataType)
    (ts : List DataType) : castAll checked (x :: xs) (t :: ts) =
      x.castTo checked t >>= fun y => (castAll checked xs ts).map (y :: ·) := by
  rw [castAll]
  cases x.castTo checked t with
  | error f => rfl
  | ok y => cases castAll checked xs ts <;> rfl

theorem castTo_scalar (checked : Bool) {j : Kind} (x : Scalar j) (k : Kind) :
    (Datum.scalar x).castTo checked (.scalar k) = (Scalar.cast checked k x).map .scalar := rfl

theorem length_of_castAll {checked : Bool} {xs ys : List Datum} {ts : List DataType}
    (h : castAll checked xs ts = .ok ys) : ys.length = xs.length := by
  induction xs generalizing ts ys with
  | nil =>
      cases ts with
      | nil =>
          obtain rfl := Except.ok.inj h
          rfl
      | cons t ts => cases h
  | cons x xs ih =>
      cases ts with
      | nil => cases h
      | cons t ts =>
          rw [castAll_cons] at h
          obtain ⟨y, -, h⟩ := bind_eq_ok h
          obtain ⟨ys, hys, rfl⟩ := map_eq_ok h
          rw [List.length_cons, List.length_cons, ih hys]

theorem mapM_scalarOf {k : Kind} (xs : List (Scalar k)) :
    (xs.map Datum.scalar).mapM (scalarOf k) = .ok xs := by
  induction xs with
  | nil => rfl
  | cons x xs ih =>
      rw [List.map_cons, List.mapM_cons, scalarOf_scalar, ih]
      rfl

theorem apply_scalar (checked : Bool) (kernel : Kernel) {k : Kind} (output : DataType)
    (xs : List (Scalar k)) : apply checked (.scalar kernel k) output (xs.map .scalar) =
      (kernel.onScalars checked xs).map .scalar := by
  rw [apply, mapM_scalarOf]
  rfl

end Datum

theorem Program.AdmitsAll.of_single {p : Program} {limit : Nat} {hs hs' : List Held} {e : Entry}
    (h : p.AdmitsAll limit hs [e] hs') : p.Admits hs e hs' ∧ hs'.length ≤ limit := by
  cases h with
  | cons _ he hes =>
      cases hes with
      | nil hlen => exact ⟨he, hlen⟩

namespace Program

variable {p : Program} {checked : Bool}

def steps (p : Program) (checked : Bool) (es : List Entry) (st : State) : Except Fault State :=
  es.foldlM (fun st e => p.step checked e.opcode st) st

theorem steps_cons (e : Entry) (es : List Entry) (st : State) :
    p.steps checked (e :: es) st = p.step checked e.opcode st >>= p.steps checked es :=
  List.foldlM_cons

theorem steps_append (es₁ es₂ : List Entry) (st : State) :
    p.steps checked (es₁ ++ es₂) st = p.steps checked es₁ st >>= p.steps checked es₂ :=
  List.foldlM_append

theorem steps_single (e : Entry) (st : State) :
    p.steps checked [e] st = p.step checked e.opcode st := by
  rw [steps, List.foldlM_cons]
  cases p.step checked e.opcode st <;> rfl

end Program

section Instructions

variable {p : Program} {o : CompileOptions} {checked : Bool} {line limit : Nat} {d d' : Draft}
  {hs hs' : List Held} {st : State} {ρ : Reference.State}

theorem literalKind?_eq {typeName : Option String} {k : Kind}
    (h : Draft.literalKind o line typeName = .ok k) :
    Reference.literalKind? o typeName = some k := by
  cases typeName with
  | none => exact congrArg some (Except.ok.inj h)
  | some name =>
      rw [Draft.literalKind] at h
      cases hk : Kind.ofName? name with
      | none => simp [hk] at h
      | some j =>
          simp only [hk] at h
          rw [Reference.literalKind?, hk, Except.ok.inj h]

theorem Held.HasType.heldType_eq {x : Held} {t : DataType} (h : x.HasType p t) :
    p.heldType x = t := by
  cases x with
  | scalar k => exact h.symm
  | matrix number => exact h.1

theorem Represents.getElem? {i : Nat} {x : Held} (h : Represents p hs st ρ)
    (hx : hs[i]? = some x) : ∃ y, ρ.stack[i]? = some y ∧ y.type = p.heldType x := by
  obtain ⟨w, hw, -⟩ := forall₂_getElem?_left h.words hx
  refine ⟨p.heldDatum st.store x w, ?_, ?_⟩
  · rw [h.stack, Program.getElem?_view hx hw]
  · exact Program.type_heldDatum (h.proper x (List.mem_of_getElem? hx)) w

theorem Represents.top {x : Held} (h : Represents p (x :: hs) st ρ) :
    ∃ y stack, ρ.stack = y :: stack ∧ y.type = p.heldType x := by
  obtain ⟨y, hy, htype⟩ := h.getElem? (i := 0) rfl
  cases hstack : ρ.stack with
  | nil =>
      rw [hstack] at hy
      cases hy
  | cons z stack =>
      rw [hstack] at hy
      obtain rfl : z = y := Option.some.inj hy
      exact ⟨z, stack, rfl, htype⟩

theorem type_datumAt (hp : p.layout.Sound) {s : Store} {name : String} {w : Variable}
    {l : Location} (hw : p.vars.get? name = some w) (hl : w.location = some l) :
    (p.datumAt s w.type l).type = w.type := by
  have hkeeps := (hp.houses name w hw).keeps l hl
  rcases l with offset | number | number
  · obtain ⟨k, ht, -, -⟩ := hkeeps
    rw [ht]
    rfl
  · obtain ⟨k, x, ht, -, -⟩ := hkeeps
    rw [ht]
    rfl
  · obtain ⟨k, rows, cols, ht, hm⟩ := hkeeps.eq_matrix (p := p) .refl
    rw [Program.datumAt, Program.matrixDatum_eq hm, ht]
    rfl

theorem read_follows {name : String} {w : Variable} {l : Location} {spelling : Option String}
    (h : Represents p hs st ρ) (hp : p.layout.Sound) (hw : p.vars.get? name = some w)
    (hl : w.location = some l) (hroom : (l.held w.type :: hs).length ≤ p.sizes.maxStackDepth) :
    Follows p (l.held w.type :: hs)
      (p.steps checked [⟨Draft.loadOpcode (Draft.elementKind w.type) l, line, [], some w.type,
        spelling⟩] st) (Reference.step o checked ρ (.read name)) := by
  rw [Program.steps_single, Reference.step, h.vars, Program.datum_eq hw hl]
  exact h.load hp hw hl hroom

theorem const_follows {offset : Nat} {k : Kind} {x : Scalar k} {typeName : Option String}
    {literal : String} {spelling : Option String} (h : Represents p hs st ρ)
    (hk : Draft.literalKind o line typeName = .ok k)
    (hx : Scalar.read? k literal.toList = some x)
    (hbytes : readBytes p.constants offset k.size = x.bytes)
    (hes : p.AdmitsAll limit hs
      [⟨.loadConstant offset k, line, [], some (.scalar k), spelling⟩] (.scalar k :: hs))
    (hlimit : limit ≤ p.sizes.maxStackDepth) :
    Follows p (.scalar k :: hs)
      (p.steps checked [⟨.loadConstant offset k, line, [], some (.scalar k), spelling⟩] st)
      (Reference.step o checked ρ (.const typeName literal)) := by
  obtain ⟨he, hlen⟩ := hes.of_single
  cases he with
  | loadConstant hsize =>
      rw [Program.steps_single, Reference.step, literalKind?_eq hk, Option.bind_some, hx,
        Option.map_some]
      exact h.constant hsize hbytes (Nat.le_trans hlen hlimit)

theorem Represents.castTop {j k : Kind} {implicit : Bool} (h : Represents p (.scalar j :: hs) st ρ)
    (hroom : hs.length + 1 ≤ p.sizes.maxStackDepth) :
    ∃ y stack, ρ.stack = y :: stack ∧
      Follows p (.scalar k :: hs) (p.step checked (.cast j k 0 implicit) st)
        ((y.castTo checked (.scalar k)).map fun y => { ρ with stack := y :: stack }) := by
  obtain ⟨x, hx, hfollows⟩ := h.cast checked 0 k implicit rfl hroom
  obtain ⟨y, stack, hstack, -⟩ := h.top
  rw [hstack] at hx
  obtain rfl : y = .scalar x := Option.some.inj hx
  refine ⟨_, stack, hstack, ?_⟩
  rw [Datum.castTo_scalar, map_map_result]
  rw [hstack] at hfollows
  exact hfollows

theorem cast_follows {typeName : String} {t : DataType} {x x' : Held} {j k : Kind}
    {spelling : Option String} (h : Represents p (x :: hs) st ρ)
    (ht : DataType.read typeName = .ok t)
    (hcase : (x = .scalar j ∧ x' = .scalar k ∧ t = .scalar k) ∨
      ∃ number, x = .matrix number ∧ x' = x ∧ p.matrixType number = t ∧ j = k)
    (hroom : hs.length + 1 ≤ p.sizes.maxStackDepth) :
    Follows p (x' :: hs)
      (p.steps checked [⟨.cast j k 0 false, line, [p.heldType x], some t, spelling⟩] st)
      (Reference.step o checked ρ (.cast typeName)) := by
  rw [Program.steps_single]
  rcases hcase with ⟨rfl, rfl, rfl⟩ | ⟨number, rfl, rfl, rfl, rfl⟩
  · obtain ⟨y, stack, hstack, hfollows⟩ := h.castTop hroom
    rw [Reference.step, ht, hstack]
    exact hfollows
  · obtain ⟨y, stack, hstack, hy⟩ := h.top
    have hself := y.castTo_self checked
    rw [hy, Program.heldType] at hself
    rw [Reference.step, ht, hstack]
    dsimp only
    rw [hself, Program.step, Program.castStep, if_pos rfl]
    exact .ok ⟨h.words, h.proper, h.fits, h.vars, hstack.symm.trans h.stack⟩

theorem convert_follows (checked : Bool) {x x' : Held} {t : DataType} {es : List Entry}
    (h : Represents p (x :: hs) st ρ) (hes : Draft.ConvertEntries p line x x' t es)
    (hroom : hs.length + 1 ≤ p.sizes.maxStackDepth) :
    ∃ y stack, ρ.stack = y :: stack ∧ Follows p (x' :: hs) (p.steps checked es st)
      ((y.castTo checked t).map fun y => { ρ with stack := y :: stack }) := by
  rcases hes with ⟨hx, rfl, rfl⟩ | ⟨j, k, rfl, rfl, rfl, rfl⟩
  · obtain ⟨y, stack, hstack, hy⟩ := h.top
    have hself := y.castTo_self checked
    rw [hy, hx.heldType_eq] at hself
    refine ⟨y, stack, hstack, ?_⟩
    rw [hself]
    exact .ok ⟨h.words, h.proper, h.fits, h.vars, hstack.symm.trans h.stack⟩
  · rw [Program.steps_single]
    exact h.castTop hroom

theorem copies_follow (hp : p.layout.Sound) (hsep : p.vars.Separate) {es : List Entry}
    (hes : p.AdmitsAll limit hs es hs') (hlimit : limit ≤ p.sizes.maxStackDepth)
    (hcopies : Draft.Copies es) (h : Represents p hs st ρ) :
    Follows p hs' (p.steps checked es st) (.ok ρ) := by
  induction hes generalizing st ρ with
  | nil => exact .ok h
  | cons hlen he hes ih =>
      obtain ⟨hcopy, hrest⟩ := List.forall_mem_cons.mp hcopies
      have hroom := Nat.le_trans hes.length_start_le hlimit
      exact (h.copy hp hsep checked he hcopy hroom).bind fun st ρ h => ih hrest h

theorem write_follows (hp : p.layout.Sound) (hsep : p.vars.Separate) {name : String}
    {w : Variable} {l : Location} {x x' : Held} {rest rest' : List Held} {casts copies : List Entry}
    {spelling : Option String} (h : Represents p (x :: rest) st ρ)
    (hw : p.vars.get? name = some w) (hl : w.location = some l)
    (hcasts : Draft.ConvertEntries p line x x' w.type casts) (hcopies : Draft.Copies copies)
    (hes : p.AdmitsAll limit (x' :: rest) copies (x' :: rest'))
    (hfree : ∀ number, l = .matrix number → .matrix number ∉ rest')
    (hlimit : limit ≤ p.sizes.maxStackDepth) :
    Follows p rest' (p.steps checked (casts ++ copies ++
        [⟨Draft.storeOpcode (Draft.elementKind w.type) l, line, [w.type], none, spelling⟩]) st)
      (Reference.step o checked ρ (.write name)) := by
  have hstart := Nat.le_trans hes.length_start_le hlimit
  have hend := Nat.le_trans hes.length_end_le hlimit
  obtain ⟨y, stack, hstack, hconvert⟩ := convert_follows checked h hcasts hstart
  let assign (ρ : Reference.State) : Except Fault Reference.State :=
    match ρ.stack with
    | [] => .error .stackUnderflow
    | y :: stack => .ok ⟨Function.update ρ.vars name (some y), stack⟩
  have hstep : Reference.step o checked ρ (.write name) =
      ((y.castTo checked w.type).map (fun y => { ρ with stack := y :: stack }) >>= .ok) >>=
        assign := by
    rw [Reference.step, h.vars, Program.datum_eq hw hl, hstack]
    dsimp only
    rw [type_datumAt hp hw hl]
    cases y.castTo checked w.type <;> rfl
  rw [hstep, Program.steps_append, Program.steps_append]
  refine (hconvert.bind fun st ρ h => copies_follow hp hsep hes hlimit hcopies h).bind
    fun st ρ h => ?_
  obtain ⟨y, stack, hstack, hstore⟩ := h.store hp hsep checked hw hl hcasts.hasType hfree
    (Nat.le_of_succ_le hend)
  simp only [assign, hstack]
  rw [Program.steps_single]
  exact hstore

theorem brings_follow (checked : Bool) (line : Nat) {ws : List Widening}
    {xs ys rest : List Held} {data tail : List Datum} (hws : Draft.Brings ws xs ys)
    (h : Represents p (xs.reverse ++ rest) st ρ)
    (hstack : ρ.stack = data.reverse ++ tail) (hlen : data.length = xs.length)
    (hroom : (xs.reverse ++ rest).length ≤ p.sizes.maxStackDepth) :
    Follows p (ys.reverse ++ rest) (p.steps checked (ws.map (Draft.widenEntry line)) st)
      ((Datum.castAll checked data (ys.map p.heldType)).map fun data =>
        { ρ with stack := data.reverse ++ tail }) := by
  -- the deepest operand is the first of `xs` and of `data`
  induction hws generalizing st ρ rest data tail with
  | nil =>
      obtain rfl := List.length_eq_zero_iff.mp hlen
      exact .ok ⟨h.words, h.proper, h.fits, h.vars, hstack.symm.trans h.stack⟩
  | @same ws xs ys x hws ih =>
      obtain ⟨y, data, rfl⟩ := List.exists_cons_of_length_eq_add_one hlen
      have hlen' : data.length = xs.length := Nat.succ.inj hlen
      rw [List.reverse_cons, List.append_assoc] at h hroom hstack
      obtain ⟨y', hy, htype⟩ := h.getElem? (Draft.getElem?_under xs x rest)
      rw [hstack, ← hlen'] at hy
      obtain rfl := Option.some.inj ((Draft.getElem?_under data y tail).symm.trans hy)
      have hself := y.castTo_self checked
      rw [htype] at hself
      have hrest := ih h hstack hlen' hroom
      rw [List.reverse_cons, List.append_assoc, List.map_cons, Datum.castAll_cons, hself]
      change Follows _ _ _ (((Datum.castAll checked data _).map _).map _)
      rw [map_map_result]
      simp only [List.reverse_cons, List.append_assoc]
      exact hrest
  | @widen ws xs ys j k hws ih =>
      obtain ⟨y, data, rfl⟩ := List.exists_cons_of_length_eq_add_one hlen
      have hlen' : data.length = xs.length := Nat.succ.inj hlen
      rw [List.reverse_cons, List.append_assoc] at h hroom hstack
      obtain ⟨x, hx, hfollows⟩ :=
        h.cast checked xs.length k true (Draft.getElem?_under xs _ rest) hroom
      rw [hstack, ← hlen'] at hx
      obtain rfl := Option.some.inj ((Draft.getElem?_under data y tail).symm.trans hx)
      rw [List.map_cons, Program.steps_cons, List.map_cons, Datum.castAll_cons, Program.heldType,
        Datum.castTo_scalar, List.reverse_cons, List.append_assoc]
      cases hy : Scalar.cast checked k x with
      | error f =>
          rw [hy] at hfollows
          have hstep : p.step checked (Draft.widenEntry line ⟨xs.length, j, k⟩).opcode st = _ :=
            hfollows.of_fault
          rw [hstep]
          exact .fault f
      | ok y =>
          rw [hy] at hfollows
          obtain ⟨st₁, hok, h₁⟩ := hfollows.of_ok
          have hstep : p.step checked (Draft.widenEntry line ⟨xs.length, j, k⟩).opcode st = _ :=
            hok
          have hset := Draft.set_under xs (.scalar j) (.scalar k) rest
          have hdata := Draft.set_under data (.scalar x) (.scalar y) tail
          rw [hlen'] at hdata
          have hstack₁ : ρ.stack.set xs.length (.scalar y) = data.reverse ++ .scalar y :: tail :=
            hstack ▸ hdata
          rw [hstep]
          change Follows _ _ (p.steps checked _ st₁) (((Datum.castAll checked data _).map _).map _)
          rw [map_map_result]
          simp only [List.reverse_cons, List.append_assoc]
          rw [List.singleton_append, hset] at h₁
          have hroom₁ : (xs.reverse ++ .scalar k :: rest).length ≤ p.sizes.maxStackDepth := by
            rw [← hset, List.length_set]
            exact hroom
          have hrest := ih h₁ hstack₁ hlen' hroom₁
          exact hrest

theorem applies_follow (checked : Bool) {kernel : Kernel} {r : Resolution}
    {xs ys rest : List Held} {x : Held} {opcode : Opcode} {data tail : List Datum}
    (happlies : Draft.Applies p kernel r rest xs ys x opcode) (hp : p.layout.Sound)
    (hsep : p.vars.Separate) (h : Represents p (ys.reverse ++ rest) st ρ)
    (hstack : ρ.stack = data.reverse ++ tail) (hlen : data.length = kernel.arity)
    (hroom : (x :: rest).length ≤ p.sizes.maxStackDepth) :
    Follows p (x :: rest) (p.step checked opcode st)
      ((Datum.apply checked r.operation r.output data).map fun y => ⟨ρ.vars, y :: tail⟩) := by
  have hcount : data.reverse.length = kernel.arity := by rw [List.length_reverse, hlen]
  cases happlies with
  | @scalars ks k hk hks hr =>
      subst hr
      rw [List.map_const', List.reverse_replicate, hks] at h
      obtain ⟨xs, -, htake, hfollows⟩ := h.scalars checked hk hroom
      rw [hstack, List.take_left' hcount, List.reverse_eq_iff, ← List.map_reverse] at htake
      rw [hstack, List.drop_left' hcount] at hfollows
      dsimp only
      rw [htake, Datum.apply_scalar, map_map_result]
      exact hfollows
  | @matrices op target a b a' b' hop hout hin harity hbrings hc htemp hfree =>
      obtain ⟨k, rows, cols, -, htarget⟩ := hc.target_type
      have h' : Represents p (b' :: a' :: rest) st ρ := h
      obtain ⟨x, y, rest, hrest, hfollows⟩ := h'.matrix hp hsep checked hc htarget htemp hfree hroom
      have hsplit : data.reverse ++ tail = [y, x] ++ rest := hstack.symm.trans hrest
      obtain ⟨hdata, rfl⟩ := List.append_inj hsplit (by rw [hcount, harity]; rfl)
      obtain rfl : data = [x, y] := List.reverse_eq_iff.mp hdata
      rw [hop, hout, htarget, Datum.apply, map_map_result]
      exact hfollows

theorem operator_follows {name : String} {kernel : Kernel} {r : Resolution}
    {xs ys rest : List Held} {x : Held} {opcode : Opcode} {spelling : Option String}
    (hname : Kernel.ofName? name = some kernel)
    (hresolve : kernel.resolve o.implicitCasts ((hs.take kernel.arity).map p.heldType).reverse =
      .ok r) (hhs : hs = xs.reverse ++ rest)
    (happlies : Draft.Applies p kernel r rest xs ys x opcode) (hp : p.layout.Sound)
    (hsep : p.vars.Separate) (h : Represents p hs st ρ)
    (hstart : hs.length ≤ p.sizes.maxStackDepth)
    (hend : (x :: rest).length ≤ p.sizes.maxStackDepth) :
    Follows p (x :: rest)
      (p.steps checked (r.widenings.map (Draft.widenEntry line) ++
        [⟨opcode, line, r.inputs, some r.output, spelling⟩]) st)
      (Reference.step o checked ρ (.operator name)) := by
  have htypes := h.operand_types kernel.arity
  have hlen : (ρ.stack.take kernel.arity).reverse.length = xs.length := by
    have hlength := congrArg List.length htypes
    rw [List.length_map, List.length_reverse, List.length_reverse, List.length_map, hhs,
      ← happlies.length_eq, List.take_left' List.length_reverse, List.length_reverse] at hlength
    rw [List.length_reverse, ← happlies.length_eq, hlength]
  have hstack : ρ.stack =
      (ρ.stack.take kernel.arity).reverse.reverse ++ ρ.stack.drop kernel.arity := by
    rw [List.reverse_reverse, List.take_append_drop]
  rw [Reference.step, hname]
  dsimp only
  rw [htypes, hresolve, Program.steps_append]
  dsimp only
  subst hhs
  have hbrings := brings_follow checked line happlies.brings h hstack hlen hstart
  rw [← happlies.inputs_eq] at hbrings
  cases hdata : Datum.castAll checked (ρ.stack.take kernel.arity).reverse r.inputs with
  | error f =>
      rw [hdata] at hbrings
      rw [hbrings.of_fault]
      exact .fault f
  | ok data =>
      rw [hdata] at hbrings
      obtain ⟨st₁, hok, h₁⟩ := hbrings.of_ok
      rw [hok]
      change Follows _ _ (p.steps checked _ st₁) _
      rw [Program.steps_single]
      have hcount := (Datum.length_of_castAll hdata).trans (hlen.trans happlies.length_eq)
      have happly := applies_follow checked happlies hp hsep h₁ rfl hcount hend
      exact happly

end Instructions

end FormulaMachine
