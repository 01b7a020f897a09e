import FormulaMachine.Proofs.Compiler.Discovery
import FormulaMachine.Proofs.Reference.Integers
import FormulaMachine.Proofs.Reference.Refinement

namespace FormulaMachine

namespace Integers

variable {o : CompileOptions} {types : String → Option DataType} {σ σ' : State}

theorem line_eq_some {l : Nat × Except Error Postfix.Instruction}
    (h : line o types σ l = some σ') : ∃ i, l.2 = .ok i ∧ step o types σ i = some σ' := by
  unfold line at h
  split at h
  · rename_i i hi
    exact ⟨i, hi, h⟩
  · cases h

theorem defined_of_lines {lines : List (Nat × Except Error Postfix.Instruction)}
    (h : lines.foldlM (line o types) σ = some σ') {name : String}
    (hname : (σ.vars name).isSome ∨ .write name ∈ Postfix.accesses lines) :
    (σ'.vars name).isSome := by
  induction lines generalizing σ with
  | nil =>
      obtain rfl : σ = σ' := Option.some.inj h
      exact hname.resolve_right List.not_mem_nil
  | cons l lines ih =>
      rw [List.foldlM_cons] at h
      obtain ⟨σ₁, hl, h⟩ := Option.bind_eq_some_iff.mp h
      obtain ⟨i, hi, hstep⟩ := line_eq_some hl
      refine ih h ?_
      rw [Postfix.accesses_cons hi] at hname
      rcases hname with hsome | hwrite
      · exact .inl (defined_of_step hstep (.inl hsome))
      · split at hwrite
        · rcases List.mem_cons.mp hwrite with rfl | hwrite
          · exact .inl (defined_of_step hstep (.inr rfl))
          · exact .inr hwrite
        · exact .inr hwrite

end Integers

def Entry.IsWhole (e : Entry) : Prop :=
  ∀ t ∈ e.inputs ++ e.output.toList, t.IsWhole

instance (e : Entry) : Decidable e.IsWhole :=
  inferInstanceAs (Decidable (∀ t ∈ e.inputs ++ e.output.toList, t.IsWhole))

namespace Program

def IsWhole (p : Program) : Prop :=
  ∀ e ∈ p.code.toList, e.IsWhole

instance (p : Program) : Decidable p.IsWhole :=
  inferInstanceAs (Decidable (∀ e ∈ p.code.toList, e.IsWhole))

def types (p : Program) (name : String) : Option DataType :=
  (p.vars.get? name).map Variable.type

def quantities (p : Program) (s : Store) (name : String) : Option Quantity :=
  (p.datum s name).bind Datum.quantity?

def Mirrors (p : Program) (hs : List Held) (st : State) (σ : Integers.State) : Prop :=
  ∃ ρ, Represents p hs st ρ ∧ Reference.Exactly ρ σ

end Program

section Lines

variable {p : Program} {o : CompileOptions} {d d' : Draft} {hs : List Held} {st : State}
  {ρ : Reference.State}

theorem Represents.type_of_mem {name : String} {w : Variable} {l : Location} {x : Datum}
    (h : Represents p hs st ρ) (hp : p.layout.Sound) (hw : p.vars.get? name = some w)
    (hl : w.location = some l) (hx : x ∈ ρ.vars name) : x.type = w.type := by
  rw [h.vars, Program.datum_eq hw hl] at hx
  obtain rfl := Option.some.inj hx
  exact type_datumAt hp hw hl

theorem Represents.types (h : Represents p hs st ρ) (hp : p.Sound) (name : String) :
    (ρ.vars name).map Datum.type = p.types name := by
  rw [h.vars, Program.types]
  cases hw : p.vars.get? name with
  | none =>
      rw [Program.datum, hw]
      rfl
  | some w =>
      obtain ⟨-, l, hl⟩ := hp.homes name w hw
      rw [Program.datum_eq hw hl, Option.map_some, type_datumAt hp.layout hw hl, Option.map_some]

theorem instruction_whole {line : Nat} {i : Postfix.Instruction} (hp : p.layout.Sound)
    (hd : Draft.Written p d hs) (h : Draft.instruction o line d i = .ok d')
    (hlead : d'.Leads p) :
    ∃ es hs', d.Emits p d' hs es hs' ∧ ((∀ e ∈ es, e.IsWhole) → ∀ st ρ, Represents p hs st ρ →
      Reference.WholeAt o ρ i) := by
  have hdepth := hd.admits.length_end_le
  cases i with
  | read name =>
      obtain ⟨w, l, hw, hl, hemits⟩ := Draft.read_emits hd.sound hd.slots hdepth h hlead
      refine ⟨_, _, hemits, fun hwhole st ρ hrep x hx => ?_⟩
      rw [hrep.type_of_mem hp hw hl hx]
      exact hwhole _ List.mem_cons_self _ List.mem_cons_self
  | write name =>
      obtain ⟨w, l, x, x', rest, rest', casts, copies, rfl, hw, hl, -, -, -, -, hemits⟩ :=
        Draft.write_emits hd.sound hd.slots hdepth h hlead
      refine ⟨_, _, hemits, fun hwhole st ρ hrep x hx => ?_⟩
      rw [hrep.type_of_mem hp hw hl hx]
      exact hwhole _ List.mem_concat_self _ List.mem_cons_self
  | const typeName literal =>
      obtain ⟨k, x, hk, -, -, hemits⟩ := Draft.const_emits_at hd.slots hdepth h hlead
      refine ⟨_, _, hemits, fun hwhole st ρ hrep j hj => ?_⟩
      rw [literalKind?_eq hk] at hj
      obtain rfl := Option.some.inj hj
      exact hwhole _ List.mem_cons_self _ List.mem_cons_self k rfl
  | cast typeName =>
      obtain ⟨t, x, x', rest, j, k, ht, rfl, hemits, -⟩ := Draft.cast_emits hd.slots hdepth h
      refine ⟨_, _, hemits, fun hwhole st ρ hrep t' ht' => ?_⟩
      obtain rfl := Except.ok.inj (ht.symm.trans ht')
      exact hwhole _ List.mem_cons_self _ (List.mem_cons_of_mem _ List.mem_cons_self)
  | operator name =>
      obtain ⟨kernel, r, xs, ys, x, rest, opcode, spelling, hname, hresolve, hhs, happlies,
        hemits⟩ := Draft.operator_emits hd.sound hd.slots hdepth h hlead
      refine ⟨_, _, hemits, fun hwhole st ρ hrep kernel' r' hname' hresolve' => ?_⟩
      obtain rfl := Option.some.inj (hname.symm.trans hname')
      rw [hrep.operand_types] at hresolve'
      obtain rfl := Except.ok.inj (hresolve.symm.trans hresolve')
      exact hwhole _ List.mem_concat_self

theorem instruction_exact {line : Nat} {i : Postfix.Instruction} (hp : p.Sound)
    (hsep : p.vars.Separate) (hsmall : p.constants.size < 2 ^ 32) (hd : Draft.Written p d hs)
    (h : Draft.instruction o line d i = .ok d') (hlead : d'.Leads p) :
    ∃ es hs', d.Emits p d' hs es hs' ∧ ((∀ e ∈ es, e.IsWhole) → ∀ st st' σ, p.Mirrors hs st σ →
      p.steps true es st = .ok st' →
        ∃ σ', Integers.step o p.types σ i = some σ' ∧ p.Mirrors hs' st' σ') := by
  obtain ⟨es, hs', hemits, hfollows⟩ := instruction_follows hp.layout hsep hsmall hd h hlead
  obtain ⟨es', hs₁, hemits', hwhole⟩ := instruction_whole hp.layout hd h hlead
  obtain rfl : es = es' := List.append_cancel_left (hemits.code.symm.trans hemits'.code)
  refine ⟨es, hs', hemits, fun hes st st' σ ⟨ρ, hrep, hexact⟩ hsteps => ?_⟩
  have hfollow := hfollows true st ρ hrep
  rw [hsteps] at hfollow
  generalize hstep : Reference.step o true ρ i = result at hfollow
  cases hfollow with
  | @ok _ ρ' hrep' =>
      obtain ⟨σ', hσ, hexact'⟩ :=
        Reference.step_exact hexact (hrep.types hp) (hwhole hes st ρ hrep) hstep
      exact ⟨σ', hσ, ρ', hrep', hexact'⟩

theorem lines_exact {lines : List (Nat × Except Error Postfix.Instruction)} (hp : p.Sound)
    (hsep : p.vars.Separate) (hsmall : p.constants.size < 2 ^ 32) (hd : Draft.Written p d hs)
    (h : lines.foldlM (Draft.line o) d = .ok d') (hlead : d'.Leads p) :
    ∃ es hs', d'.code.toList = d.code.toList ++ es ∧ Draft.Written p d' hs' ∧
      ((∀ e ∈ es, e.IsWhole) → ∀ st st' σ, p.Mirrors hs st σ → p.steps true es st = .ok st' →
        ∃ σ', lines.foldlM (Integers.line o p.types) σ = some σ' ∧ p.Mirrors hs' st' σ') := by
  induction lines generalizing d hs with
  | nil =>
      obtain rfl : d = d' := Except.ok.inj h
      refine ⟨[], hs, (List.append_nil _).symm, hd, fun _ st st' σ hmirrors hsteps => ?_⟩
      obtain rfl : st = st' := Except.ok.inj hsteps
      exact ⟨σ, rfl, hmirrors⟩
  | cons l lines ih =>
      rw [List.foldlM_cons] at h
      obtain ⟨d₁, hl, h⟩ := bind_eq_ok h
      obtain ⟨i, hi, hinstr⟩ := Draft.line_eq_ok hl
      obtain ⟨es₁, hs₁, hemits, hfirst⟩ :=
        instruction_exact hp hsep hsmall hd hinstr ((Draft.lines_extend h).leads hlead)
      obtain ⟨es, hs', hcode, hw, hrest⟩ :=
        ih (hd.emits (Draft.instruction_extends hinstr) hemits) h
      refine ⟨es₁ ++ es, hs', ?_, hw, fun hes st st' σ hmirrors hsteps => ?_⟩
      · rw [hcode, hemits.code, List.append_assoc]
      · obtain ⟨hes₁, hes⟩ := List.forall_mem_append.mp hes
        rw [Program.steps_append] at hsteps
        obtain ⟨st₁, hsteps₁, hsteps⟩ := bind_eq_ok hsteps
        obtain ⟨σ₁, hσ₁, hmirrors₁⟩ := hfirst hes₁ st st₁ σ hmirrors hsteps₁
        obtain ⟨σ', hσ, hmirrors'⟩ := hrest hes st₁ st' σ₁ hmirrors₁ hsteps
        refine ⟨σ', ?_, hmirrors'⟩
        have hline : Integers.line o p.types σ l = some σ₁ := by
          rw [Integers.line, hi]
          exact hσ₁
        rw [List.foldlM_cons, hline]
        exact hσ

end Lines

namespace Program

variable {p : Program} {s : Store} {st : State} {σ : Integers.State} {hs : List Held}

theorem mirrors_start (hfit : p.Fits s) : p.Mirrors [] ⟨s, .empty⟩ ⟨p.quantities s, []⟩ :=
  ⟨_, represents_start hfit, fun _ => rfl, .nil⟩

theorem Mirrors.vars (h : p.Mirrors hs st σ) (name : String) :
    σ.vars name = p.quantities st.store name := by
  obtain ⟨ρ, hrep, hexact⟩ := h
  rw [hexact.vars, hrep.vars, quantities]

theorem Mirrors.stack (h : p.Mirrors [] st σ) : σ.stack = [] := by
  obtain ⟨ρ, hrep, hexact⟩ := h
  have hstack := hexact.stack
  rw [hrep.stack] at hstack
  exact List.forall₂_nil_left_iff.mp hstack

def Holds (p : Program) (s : Store) (name : String) : Quantity → Prop
  | .number n => ∃ (k : Kind) (x : Scalar k), p.value s name = .ok ⟨k, x⟩ ∧ x.toInt? = some n
  | .matrix ns => ∃ (k : Kind) (xs : List (Scalar k)),
      p.matrix s name = .ok (xs.map Scalar.toFloat64) ∧ xs.mapM Scalar.toInt? = some ns

theorem holds_of_quantities (hp : p.Sound) {name : String} {q : Quantity}
    (h : p.quantities s name = some q) : p.Holds s name q := by
  obtain ⟨x, hx, hq⟩ := Option.bind_eq_some_iff.mp h
  have hshows := shows_datum hp s name
  rw [hx] at hshows
  cases x with
  | scalar x =>
      obtain ⟨n, rfl, hn⟩ := Datum.toInt?_of_quantity? hq
      exact ⟨_, x, hshows, hn⟩
  | matrix rows cols xs =>
      obtain ⟨ns, hns, rfl⟩ := Option.map_eq_some_iff.mp hq
      exact ⟨_, xs, hshows, hns⟩

def ExactAfter (p : Program) (vs : Variables) (o : CompileOptions) (s : Store)
    (lines : List (Nat × Except Error Postfix.Instruction)) : Prop :=
  ∃ d st σ, lines.foldlM (Draft.line o) (Draft.start vs) = .ok d ∧
    p.steps true (p.code.toList.take d.code.size) ⟨s, .empty⟩ = .ok st ∧
    Integers.run o p.types (p.quantities s) lines = some σ ∧
    ∀ name, σ.vars name = p.quantities st.store name

section Compiled

variable {text : String} {vs : Variables} {o : CompileOptions}

theorem mirrors_after (hvs : vs.Fresh) (hsep : vs.Separate) (h : compile text vs o = .ok p)
    (hsmall : p.constants.size < 2 ^ 32) (hwhole : p.IsWhole) (hfit : p.Fits s)
    (hsteps : p.steps true p.code.toList ⟨s, .empty⟩ = .ok st)
    {lines : List (Nat × Except Error Postfix.Instruction)}
    (hlines : lines <+: Postfix.instructions text) :
    ∃ d hs st₁ σ, lines.foldlM (Draft.line o) (Draft.start vs) = .ok d ∧ Draft.Written p d hs ∧
      p.steps true (p.code.toList.take d.code.size) ⟨s, .empty⟩ = .ok st₁ ∧
      Integers.run o p.types (p.quantities s) lines = some σ ∧ p.Mirrors hs st₁ σ := by
  obtain ⟨d, -, hd, hlead, -⟩ := written_of_compile hvs h hsmall hlines
  obtain ⟨es, hs, hcode, hw, hexact⟩ := lines_exact (compile_sound hvs h)
    (separate_of_compile hsep h) hsmall (Draft.written_start hvs) hd hlead
  obtain rfl : d.code.toList = es := hcode
  obtain ⟨rest, hrest⟩ : d.code.toList <+: p.code.toList := hlead.code
  rw [← hrest, steps_append] at hsteps
  obtain ⟨st₁, hsteps₁, -⟩ := bind_eq_ok hsteps
  have hes (e : Entry) (he : e ∈ d.code.toList) : e.IsWhole := by
    refine hwhole e ?_
    rw [← hrest]
    exact List.mem_append_left _ he
  obtain ⟨σ, hσ, hmirrors⟩ := hexact hes _ st₁ _ (mirrors_start hfit) hsteps₁
  refine ⟨d, hs, st₁, σ, hd, hw, ?_, hσ, hmirrors⟩
  rw [← hrest, List.take_left' Array.length_toList]
  exact hsteps₁

theorem execute_safe_exact (hvs : vs.Made) (hsep : vs.Separate) (h : compile text vs o = .ok p)
    (hsmall : p.constants.size < 2 ^ 32) (hwhole : p.IsWhole) (hfit : p.Fits s)
    {sink : Option Sink} (hok : (p.execute .safe s sink).1.stopped = none) :
    ∃ σ, Integers.run o p.types (p.quantities s) (Postfix.instructions text) = some σ ∧
      σ.stack = [] ∧
      (∀ name, .write name ∈ Postfix.accesses (Postfix.instructions text) →
        (σ.vars name).isSome) ∧
      (∀ name, σ.vars name = p.quantities (p.execute .safe s sink).1.store name) ∧
      (∀ name, ∀ q ∈ σ.vars name, p.Holds (p.execute .safe s sink).1.store name q) ∧
      ∀ lines, lines <+: Postfix.instructions text → p.ExactAfter vs o s lines := by
  have hstopped : (p.run true s).stopped = none := hok
  obtain ⟨st, hsteps, hrun⟩ := steps_of_run hstopped
  have hafter {lines : List (Nat × Except Error Postfix.Instruction)}
      (hlines : lines <+: Postfix.instructions text) :=
    mirrors_after hvs.fresh hsep h hsmall hwhole hfit hsteps hlines
  obtain ⟨d, hs, st', σ, hd, hw, hsteps', hσ, hmirrors⟩ := hafter List.prefix_rfl
  obtain ⟨d', hd', hslots, -, hcode, -⟩ := compile_eq_ok h
  obtain rfl := Except.ok.inj (hd.symm.trans hd')
  obtain rfl := hw.held_eq_nil hslots
  rw [hcode, ← Array.length_toList, List.take_length] at hsteps'
  obtain rfl := Except.ok.inj (hsteps.symm.trans hsteps')
  have hvars (name : String) :
      σ.vars name = p.quantities (p.execute .safe s sink).1.store name := by
    rw [execute, hrun, hmirrors.vars]
  refine ⟨σ, hσ, hmirrors.stack, fun name hname => ?_, hvars, fun name q hq => ?_, ?_⟩
  · exact Integers.defined_of_lines hσ (.inr hname)
  · exact holds_of_quantities (compile_sound hvs.fresh h) ((hvars name).symm.trans hq)
  · intro lines hlines
    obtain ⟨d, hs, st, σ, hd, -, hsteps, hσ, hmirrors⟩ := hafter hlines
    exact ⟨d, st, σ, hd, hsteps, hσ, hmirrors.vars⟩

end Compiled

theorem execute_safe_exact_quotient :
    ∃ vs p s, vs.Made ∧ vs.Separate ∧
      compile "READ A\nREAD K\nMUL\nCONST int16 8\nDIV\nWRITE Q\nREAD Q\nWRITE F\n" vs .default =
        .ok p ∧
      p.constants.size < 2 ^ 32 ∧ p.IsWhole ∧ p.Fits s ∧
      (p.execute .safe s none).1.stopped = none ∧
      p.quantities s "A" = some (.number (-7)) ∧ p.quantities s "K" = some (.number 300) ∧
      p.Holds (p.execute .safe s none).1.store "Q" (.number ((-7 * 300 : Int).tdiv 8)) ∧
      p.Holds (p.execute .safe s none).1.store "F" (.number 1) ∧
      p.ExactAfter vs .default s (Postfix.instructions
        "READ A\nREAD K\nMUL\nCONST int16 8\nDIV\nWRITE Q\nREAD Q\nWRITE F\n") := by
  let x : External := ⟨⟨0, 2⟩, 0⟩
  let y : External := ⟨⟨0, 2⟩, 1⟩
  let byte : DataType := .scalar (.int .w8)
  let short : DataType := .scalar (.int .w16)
  let truth : DataType := .scalar .bool
  let vs : Variables := ⟨[⟨"A", byte, none, some x⟩, ⟨"K", short, none, some y⟩],
    [.named "Q", ⟨"F", truth, none, none⟩]⟩
  let p : Program := {
    vars := ⟨[⟨"A", byte, some (.external 0), some x⟩, ⟨"K", short, some (.external 1), some y⟩],
      [⟨"Q", short, some (.variable 0), none⟩, ⟨"F", truth, some (.variable 2), none⟩]⟩
    constants := #[8, 0]
    literals := [(0, ⟨"8", some "int16"⟩)]
    code := #[⟨.loadExternal 0 (.int .w8), 1, [], some byte, none⟩,
      ⟨.loadExternal 1 (.int .w16), 2, [], some short, none⟩,
      ⟨.cast (.int .w8) (.int .w16) 1 true, 3, [byte], some short, none⟩,
      ⟨.scalar (.arithmetic .mul) (.int .w16), 3, [short, short], some short, none⟩,
      ⟨.loadConstant 0 (.int .w16), 4, [], some short, none⟩,
      ⟨.scalar (.arithmetic .div) (.int .w16), 5, [short, short], some short, none⟩,
      ⟨.storeVariable 0 (.int .w16), 6, [short], none, none⟩,
      ⟨.loadVariable 0 (.int .w16), 7, [], some short, none⟩,
      ⟨.cast (.int .w16) .bool 0 true, 8, [short], some truth, none⟩,
      ⟨.storeVariable 2 .bool, 8, [truth], none, none⟩]
    matrices := #[]
    bindings := #[x, y]
    sizes := ⟨2, 3, 10, 2⟩ }
  let s : Store := ⟨p.newOwned, #[#[0xFFFFFFFFFFFFFFF9, 300]]⟩
  have hdiscover : Variables.discover
      "READ A\nREAD K\nMUL\nCONST int16 8\nDIV\nWRITE Q\nREAD Q\nWRITE F\n" =
        .ok ⟨[.named "A", .named "K"], [.named "Q", .named "F"]⟩ := by decide +kernel
  have hmade : vs.Made := by
    have hbindA : Variables.bind ⟨[.named "A", .named "K"], [.named "Q", .named "F"]⟩ "A" byte
        (some x) = .ok ⟨[⟨"A", byte, none, some x⟩, .named "K"], [.named "Q", .named "F"]⟩ := by
      decide +kernel
    have hbindK : Variables.bind
        ⟨[⟨"A", byte, none, some x⟩, .named "K"], [.named "Q", .named "F"]⟩ "K" short (some y) =
        .ok ⟨[⟨"A", byte, none, some x⟩, ⟨"K", short, none, some y⟩],
          [.named "Q", .named "F"]⟩ := by decide +kernel
    have hbindF : Variables.bind ⟨[⟨"A", byte, none, some x⟩, ⟨"K", short, none, some y⟩],
          [.named "Q", .named "F"]⟩ "F" truth none = .ok vs := by decide +kernel
    exact ⟨_, _, hdiscover, .bind (.bind (.bind .refl hbindA) hbindK) hbindF⟩
  have hsep : vs.Separate := Variables.separate_of_forall (by decide)
  have hcompile :
      compile "READ A\nREAD K\nMUL\nCONST int16 8\nDIV\nWRITE Q\nREAD Q\nWRITE F\n" vs .default =
        .ok p := by decide +kernel
  have hsmall : p.constants.size < 2 ^ 32 := by decide
  have hwhole : p.IsWhole := by decide
  have hfit : p.Fits s := fits_new (by decide)
  have hok : (p.execute .safe s none).1.stopped = none := by decide +kernel
  have hA : p.quantities s "A" = some (.number (-7)) := by decide +kernel
  have hK : p.quantities s "K" = some (.number 300) := by decide +kernel
  have hQ : p.quantities (p.execute .safe s none).1.store "Q" =
      some (.number ((-7 * 300 : Int).tdiv 8)) := by decide +kernel
  have hF : p.quantities (p.execute .safe s none).1.store "F" = some (.number 1) := by
    decide +kernel
  obtain ⟨σ, -, -, -, hvars, hholds, hafter⟩ :=
    execute_safe_exact hmade hsep hcompile hsmall hwhole hfit hok
  exact ⟨vs, p, s, hmade, hsep, hcompile, hsmall, hwhole, hfit, hok, hA, hK,
    hholds "Q" _ ((hvars "Q").trans hQ), hholds "F" _ ((hvars "F").trans hF),
    hafter _ List.prefix_rfl⟩

end Program

end FormulaMachine
