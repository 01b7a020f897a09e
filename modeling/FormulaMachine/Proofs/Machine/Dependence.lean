import FormulaMachine.Proofs.Machine.Frame

namespace FormulaMachine

inductive Both {α β : Type} (R : α → β → Prop) : Except Fault α → Except Fault β → Prop
  | ok {a : α} {b : β} (h : R a b) : Both R (.ok a) (.ok b)
  | fault (f : Fault) : Both R (.error f) (.error f)

namespace Both

variable {α β α' β' : Type} {R R' : α → β → Prop} {Q : α' → β' → Prop} {x : Except Fault α}
  {y : Except Fault β}

theorem bind {f : α → Except Fault α'} {g : β → Except Fault β'} (h : Both R x y)
    (hf : ∀ a b, R a b → Both Q (f a) (g b)) : Both Q (x >>= f) (y >>= g) := by
  cases h with
  | ok h => exact hf _ _ h
  | fault f => exact .fault f

theorem mono (h : Both R x y) (hR : ∀ a b, R a b → R' a b) : Both R' x y := by
  cases h with
  | ok h => exact .ok (hR _ _ h)
  | fault f => exact .fault f

theorem bind_same {γ : Type} {f : γ → Except Fault α} {g : γ → Except Fault β}
    (z : Except Fault γ) (h : ∀ c, Both R (f c) (g c)) : Both R (z >>= f) (z >>= g) := by
  cases z with
  | ok c => exact h c
  | error e => exact .fault e

theorem map_same {γ : Type} {f : γ → α} {g : γ → β} (z : Except Fault γ)
    (h : ∀ c, R (f c) (g c)) : Both R (z.map f) (z.map g) := by
  cases z with
  | ok c => exact .ok (h c)
  | error e => exact .fault e

end Both

namespace Reference

structure Agree (known : Set String) (ρ ρ' : State) : Prop where
  known : ∀ name ∈ known, ρ.vars name = ρ'.vars name
  types : ∀ name, (ρ.vars name).map Datum.type = (ρ'.vars name).map Datum.type
  stack : ρ.stack = ρ'.stack

variable {o : CompileOptions} {checked : Bool} {known known' : Set String} {ρ ρ' : State}

theorem Agree.mono (h : Agree known ρ ρ') (hsub : known' ⊆ known) : Agree known' ρ ρ' :=
  ⟨fun name hname => h.known name (hsub hname), h.types, h.stack⟩

theorem Agree.restack (h : Agree known ρ ρ') (stack : List Datum) :
    Agree known { ρ with stack := stack } { ρ' with stack := stack } :=
  ⟨h.known, h.types, rfl⟩

theorem Agree.push (h : Agree known ρ ρ') (x : Datum) : Agree known (ρ.push x) (ρ'.push x) :=
  ⟨h.known, h.types, congrArg (x :: ·) h.stack⟩

theorem Agree.update (h : Agree known ρ ρ') (name : String) (x : Datum) (stack : List Datum) :
    Agree (insert name known) ⟨Function.update ρ.vars name (some x), stack⟩
      ⟨Function.update ρ'.vars name (some x), stack⟩ := by
  refine ⟨fun other hother => ?_, fun other => ?_, rfl⟩ <;> by_cases heq : other = name
  · subst heq
    simp only [Function.update_self]
  · simp only [Function.update_of_ne heq]
    exact h.known other (hother.resolve_left heq)
  · subst heq
    simp only [Function.update_self]
  · simp only [Function.update_of_ne heq]
    exact h.types other

theorem step_write_agree (h : Agree known ρ ρ') (name : String) :
    Both (Agree (insert name known)) (step o checked ρ (.write name))
      (step o checked ρ' (.write name)) := by
  have htype := h.types name
  rw [step, step, ← h.stack]
  cases hv : ρ.vars name with
  | none =>
      rw [hv] at htype
      rw [Option.map_eq_none_iff.mp htype.symm]
      exact .fault _
  | some v =>
      rw [hv] at htype
      obtain ⟨v', hv', htype⟩ := Option.map_eq_some_iff.mp htype.symm
      rw [hv']
      cases ρ.stack with
      | nil => exact .fault _
      | cons x stack =>
          dsimp only
          rw [htype]
          exact .map_same _ fun y => h.update name y stack

theorem step_agree {i : Postfix.Instruction} (h : Agree known ρ ρ')
    (hread : ∀ name, i = .read name → name ∈ known) :
    Both (Agree (Postfix.knownAfter known [i])) (step o checked ρ i) (step o checked ρ' i) := by
  by_cases hwrite : ∃ name, i = .write name
  · obtain ⟨name, rfl⟩ := hwrite
    rw [Postfix.knownAfter_write]
    exact step_write_agree h name
  rw [Postfix.knownAfter_of_ne_write known fun name heq => hwrite ⟨name, heq⟩]
  cases i with
  | read name =>
      rw [step, step, h.known name (hread name rfl)]
      cases ρ'.vars name with
      | none => exact .fault _
      | some x => exact .ok (h.push x)
  | write name => exact absurd ⟨name, rfl⟩ hwrite
  | const typeName literal =>
      rw [step, step]
      cases (literalKind? o typeName).bind fun k =>
          (Scalar.read? k literal.toList).map Datum.scalar with
      | none => exact .fault _
      | some x => exact .ok (h.push x)
  | cast typeName =>
      rw [step, step, ← h.stack]
      cases DataType.read typeName with
      | error e => exact .fault _
      | ok t =>
          cases ρ.stack with
          | nil => exact .fault _
          | cons x stack => exact .map_same _ fun y => h.restack (y :: stack)
  | operator name =>
      rw [step, step, ← h.stack]
      cases Kernel.ofName? name with
      | none => exact .fault _
      | some kernel =>
          dsimp only
          cases kernel.resolve o.implicitCasts
              ((ρ.stack.take kernel.arity).reverse.map Datum.type) with
          | error e => exact .fault _
          | ok r =>
              exact .bind_same _ fun operands => .bind_same _ fun y => .ok (h.restack _)

end Reference

section Twins

variable {p : Program} {o : CompileOptions} {d d' : Draft} {hs hs' : List Held}
  {known : Set String} {st st' : State} {s t : Store}

def Program.Twins (p : Program) (hs : List Held) (known : Set String) (st st' : State) : Prop :=
  ∃ ρ ρ', Represents p hs st ρ ∧ Represents p hs st' ρ' ∧ Reference.Agree known ρ ρ'

theorem both_of_follows {checked : Bool} {i : Postfix.Instruction} {es : List Entry}
    (hfollows : ∀ checked st ρ, Represents p hs st ρ →
      Follows p hs' (p.steps checked es st) (Reference.step o checked ρ i))
    (hread : ∀ name, i = .read name → name ∈ known) (h : p.Twins hs known st st') :
    Both (p.Twins hs' (Postfix.knownAfter known [i])) (p.steps checked es st)
      (p.steps checked es st') := by
  obtain ⟨ρ, ρ', hrep, hrep', hagree⟩ := h
  have hleft := hfollows checked st ρ hrep
  have hright := hfollows checked st' ρ' hrep'
  have hboth : Both _ (Reference.step o checked ρ i) (Reference.step o checked ρ' i) :=
    Reference.step_agree hagree hread
  generalize Reference.step o checked ρ i = r at hleft hboth
  generalize Reference.step o checked ρ' i = r' at hright hboth
  cases hboth with
  | ok hagree =>
      obtain ⟨st₁, hst, hrep⟩ := hleft.of_ok
      obtain ⟨st₁', hst', hrep'⟩ := hright.of_ok
      rw [hst, hst']
      exact .ok ⟨_, _, hrep, hrep', hagree⟩
  | fault f =>
      rw [hleft.of_fault, hright.of_fault]
      exact .fault f

theorem constant_twins {checked : Bool} {offset line : Nat} {k : Kind} {limit : Nat}
    (hes : p.AdmitsAll limit hs [⟨.loadConstant offset k, line, [], some (.scalar k), none⟩]
      (.scalar k :: hs)) (hlimit : limit ≤ p.sizes.maxStackDepth) (h : p.Twins hs known st st') :
    Both (p.Twins (.scalar k :: hs) known)
      (p.steps checked [⟨.loadConstant offset k, line, [], some (.scalar k), none⟩] st)
      (p.steps checked [⟨.loadConstant offset k, line, [], some (.scalar k), none⟩] st') := by
  obtain ⟨ρ, ρ', hrep, hrep', hagree⟩ := h
  obtain ⟨he, hlen⟩ := hes.of_single
  have hroom := Nat.le_trans hlen hlimit
  obtain ⟨st₁, hst, hrep₁⟩ := (hrep.push checked he hroom rfl).of_ok
  obtain ⟨st₁', hst', hrep₁'⟩ := (hrep'.push checked he hroom rfl).of_ok
  rw [Program.steps_single, Program.steps_single, hst, hst']
  refine .ok ⟨_, _, hrep₁, hrep₁', hagree.known, hagree.types, ?_⟩
  rw [Reference.State.push, Reference.State.push, hagree.stack]
  rfl

theorem instruction_twins {line : Nat} {i : Postfix.Instruction} (hp : p.layout.Sound)
    (hsep : p.vars.Separate) (hd : Draft.Written p d hs)
    (h : Draft.instruction o line d i = .ok d') (hlead : d'.Leads p)
    (hread : ∀ name, i = .read name → name ∈ known) :
    ∃ es hs', d.Emits p d' hs es hs' ∧ ∀ checked st st', p.Twins hs known st st' →
      Both (p.Twins hs' (Postfix.knownAfter known [i])) (p.steps checked es st)
        (p.steps checked es st') := by
  by_cases hconst : ∃ typeName literal, i = .const typeName literal
  · obtain ⟨typeName, literal, rfl⟩ := hconst
    obtain ⟨k, x, -, -, -, hemits⟩ :=
      Draft.const_emits_at hd.slots hd.admits.length_end_le h hlead
    rw [Postfix.knownAfter_of_ne_write known (by simp)]
    exact ⟨_, _, hemits, fun checked st st' htwins =>
      constant_twins hemits.admits hlead.maxDepth htwins⟩
  · obtain ⟨es, hs', hemits, hfollows⟩ :=
      instruction_follows_of_ne_const hp hsep hd h hlead fun typeName literal heq =>
        hconst ⟨typeName, literal, heq⟩
    exact ⟨es, hs', hemits, fun checked st st' htwins => both_of_follows hfollows hread htwins⟩

theorem lines_twins {lines : List (Nat × Except Error Postfix.Instruction)}
    (hp : p.layout.Sound) (hsep : p.vars.Separate) (hd : Draft.Written p d hs)
    (h : lines.foldlM (Draft.line o) d = .ok d') (hlead : d'.Leads p)
    (hreads : Postfix.ReadsKnown known (Postfix.accesses lines)) :
    ∃ es hs', d'.code.toList = d.code.toList ++ es ∧ ∀ checked st st',
      p.Twins hs known st st' →
        Both (p.Twins hs' (Postfix.knownAfter known (Postfix.accesses lines)))
          (p.steps checked es st) (p.steps checked es st') := by
  induction lines generalizing d hs known with
  | nil =>
      obtain rfl : d = d' := Except.ok.inj h
      refine ⟨[], hs, (List.append_nil _).symm, fun checked st st' htwins => .ok ?_⟩
      obtain ⟨ρ, ρ', hrep, hrep', hagree⟩ := htwins
      refine ⟨ρ, ρ', hrep, hrep', hagree.mono ?_⟩
      exact Set.union_subset subset_rfl fun _ hmem => absurd hmem List.not_mem_nil
  | cons l lines ih =>
      rw [List.foldlM_cons] at h
      obtain ⟨d₁, hl, h⟩ := bind_eq_ok h
      obtain ⟨i, hi, hinstr⟩ := Draft.line_eq_ok hl
      obtain ⟨hread, hreads', hafter⟩ := hreads.of_line hi
      obtain ⟨es₁, hs₁, hemits, hfirst⟩ :=
        instruction_twins hp hsep hd hinstr ((Draft.lines_extend h).leads hlead) hread
      obtain ⟨es, hs', hcode, hrest⟩ :=
        ih (hd.emits (Draft.instruction_extends hinstr) hemits) h hreads'
      refine ⟨es₁ ++ es, hs', by rw [hcode, hemits.code, List.append_assoc],
        fun checked st st' htwins => ?_⟩
      rw [Program.steps_append, Program.steps_append]
      refine ((hfirst checked st st' htwins).bind fun st st' htwins =>
        hrest checked st st' htwins).mono fun st st' ⟨ρ, ρ', hrep, hrep', hagree⟩ => ?_
      exact ⟨ρ, ρ', hrep, hrep', hagree.mono hafter⟩

end Twins

namespace Program

variable {p : Program} {checked : Bool} {hs hs' : List Held} {known : Set String} {s t : Store}

theorem type_datum (hp : p.layout.Sound) (s t : Store) (name : String) :
    (p.datum s name).map Datum.type = (p.datum t name).map Datum.type := by
  cases hw : p.vars.get? name with
  | none => rw [datum, datum, hw]; rfl
  | some w =>
      cases hl : w.location with
      | none => rw [datum, datum, hw, Option.bind_some, Option.bind_some, hl]; rfl
      | some l =>
          rw [datum_eq hw hl, datum_eq hw hl, Option.map_some, Option.map_some,
            type_datumAt hp hw hl, type_datumAt hp hw hl]

section Compiled

variable {text : String} {vs₀ vs : Variables} {o : CompileOptions}

theorem steps_agree (hvs : vs.Fresh) (hsep : vs.Separate) (h : compile text vs o = .ok p)
    (hreads : Postfix.ReadsKnown known (Postfix.accesses (Postfix.instructions text)))
    (hfs : p.Fits s) (hft : p.Fits t)
    (hsame : ∀ name ∈ known, p.datum s name = p.datum t name) (checked : Bool) :
    Both (fun st st' => ∀ name ∈ Postfix.knownAfter known
          (Postfix.accesses (Postfix.instructions text)),
        p.datum st.store name = p.datum st'.store name)
      (p.steps checked p.code.toList ⟨s, .empty⟩) (p.steps checked p.code.toList ⟨t, .empty⟩) := by
  have hp := compile_sound hvs h
  obtain ⟨d, hd, -, hlead, hcode, -, -⟩ := compile_eq_ok h
  obtain ⟨es, hs, hes, htwins⟩ := lines_twins hp.layout (separate_of_compile hsep h)
    (Draft.written_start hvs) hd hlead hreads
  obtain rfl : es = p.code.toList := by
    rw [← hcode, hes]
    rfl
  have hstart : p.Twins [] known ⟨s, .empty⟩ ⟨t, .empty⟩ :=
    ⟨_, _, represents_start hfs, represents_start hft, hsame, type_datum hp.layout s t, rfl⟩
  refine (htwins checked _ _ hstart).mono fun st st' ⟨ρ, ρ', hrep, hrep', hagree⟩ name hname => ?_
  rw [← hrep.vars, ← hrep'.vars]
  exact hagree.known name hname

theorem fast_machine (hp : p.Sound) {m : Machine} (hm : m.Fits p) (sink : Option Sink) :
    ∃ st, p.steps false p.code.toList ⟨m.store, .empty⟩ = .ok st ∧
      (m.execute p .fast sink).1.store = st.store ∧ (m.execute p .fast sink).2 = (none, sink) := by
  obtain ⟨m', hexecute, hrun⟩ := hm.exists_execute_fast hp sink
  obtain ⟨st, hsteps, hrun'⟩ := steps_of_run (congrArg Outcome.stopped hrun)
  have hstore : m'.store = st.store := congrArg Outcome.store (hrun.symm.trans hrun')
  rw [hexecute]
  exact ⟨st, hsteps, hstore, rfl⟩

variable {m n : Machine}

theorem fast_words_agree (hdiscover : Variables.discover text = .ok vs₀) (hbound : vs₀.Bound vs)
    (h : compile text vs o = .ok p)
    (hfirst : Postfix.WritesFirst (Postfix.accesses (Postfix.instructions text)))
    (hm : m.Reached p) (hn : n.Reached p)
    (hsame : p.SameOn {name | name ∈ p.vars.inputNames} m.store n.store) (sink : Option Sink) :
    p.SameVariables (m.execute p .fast sink).1.store (n.execute p .fast sink).1.store := by
  have hvs : vs.Fresh := (Variables.unbound_discover hdiscover).fresh.bound hbound
  have hp := compile_sound hvs h
  obtain ⟨hreads, hall⟩ := inputs_suffice hdiscover hbound h hfirst
  have hfitm := hm.fits hp
  have hfitn := hn.fits hp
  obtain ⟨m', hm', hrun⟩ := hfitm.exists_execute_fast hp sink
  obtain ⟨n', hn', hrun'⟩ := hfitn.exists_execute_fast hp sink
  obtain ⟨halike, -⟩ := execute_alike hp (accesses_of_compile hvs h) hreads hfitm.store hfitn.store
    (hsame.sameIn hp.layout hfitm.store hfitn.store) .fast sink
  have hsame := halike.done (congrArg Outcome.stopped hrun)
  simp only [execute, hrun, hrun'] at hsame
  rw [hm', hn']
  exact fun name w l hw hl => sameOn_of_sameIn hsame name (hall name w hw) w l hw hl

theorem fast_values_agree (hdiscover : Variables.discover text = .ok vs₀) (hbound : vs₀.Bound vs)
    (hsep : vs.Separate) (h : compile text vs o = .ok p)
    (hfirst : Postfix.WritesFirst (Postfix.accesses (Postfix.instructions text)))
    (hm : m.Reached p) (hn : n.Reached p)
    (hsame : ∀ name ∈ p.vars.inputNames, p.datum m.store name = p.datum n.store name)
    (sink : Option Sink) {name : String} (hname : name ∈ p.vars.outputNames) :
    p.datum (m.execute p .fast sink).1.store name =
      p.datum (n.execute p .fast sink).1.store name := by
  have hvs : vs.Fresh := (Variables.unbound_discover hdiscover).fresh.bound hbound
  have hp := compile_sound hvs h
  obtain ⟨hreads, -⟩ := inputs_suffice hdiscover hbound h hfirst
  obtain ⟨st, hsteps, hstore, -⟩ := fast_machine hp (hm.fits hp) sink
  obtain ⟨st', hsteps', hstore', -⟩ := fast_machine hp (hn.fits hp) sink
  have hboth := steps_agree hvs hsep h hreads (hm.fits hp).store (hn.fits hp).store hsame false
  rw [hsteps, hsteps'] at hboth
  rw [hstore, hstore']
  cases hboth with
  | ok hagree => exact hagree name (.inr (((names_of_compile hdiscover hbound h).1 name).mp hname))

theorem outputs_depend_on_inputs (hdiscover : Variables.discover text = .ok vs₀)
    (hbound : vs₀.Bound vs) (hsep : vs.Separate) (h : compile text vs o = .ok p)
    (hfirst : Postfix.WritesFirst (Postfix.accesses (Postfix.instructions text)))
    (hm : m.Reached p) (hn : n.Reached p) (sink : Option Sink) :
    (m.execute p .fast sink).2 = (none, sink) ∧
      ((∀ name ∈ p.vars.inputNames, p.datum m.store name = p.datum n.store name) →
        ∀ name ∈ p.vars.outputNames, p.datum (m.execute p .fast sink).1.store name =
          p.datum (n.execute p .fast sink).1.store name) ∧
      (p.SameOn {name | name ∈ p.vars.inputNames} m.store n.store →
        p.SameVariables (m.execute p .fast sink).1.store (n.execute p .fast sink).1.store) ∧
      p.SameOn {name | name ∈ p.vars.inputNames} m.store (m.execute p .fast sink).1.store ∧
      ∀ times, p.SameVariables (m.execute p .fast sink).1.store
        ((fun m : Machine => (m.execute p .fast sink).1)^[times + 1] m).store := by
  have hvs : vs.Fresh := (Variables.unbound_discover hdiscover).fresh.bound hbound
  have hp := compile_sound hvs h
  obtain ⟨st, -, -, hresult⟩ := fast_machine hp (hm.fits hp) sink
  refine ⟨hresult, fun hsame name hname => ?_, fun hsame => ?_, ?_, fun times => ?_⟩
  · exact fast_values_agree hdiscover hbound hsep h hfirst hm hn hsame sink hname
  · exact fast_words_agree hdiscover hbound h hfirst hm hn hsame sink
  · exact execute_keeps_inputs hdiscover hbound hsep h (hm.fits hp) .fast sink
  · have hreached (k : Nat) :
        ((fun m : Machine => (m.execute p .fast sink).1)^[k] m).Reached p := by
      induction k with
      | zero => exact hm
      | succ k ih =>
          rw [Function.iterate_succ_apply']
          exact .execute .fast sink ih
    -- every run finds the inputs as the first one found them
    induction times with
    | zero => exact fun _ _ _ _ _ _ _ => rfl
    | succ k ih =>
        rw [Function.iterate_succ_apply']
        refine fast_words_agree hdiscover hbound h hfirst hm (hreached (k + 1)) ?_ sink
        refine (execute_keeps_inputs hdiscover hbound hsep h (hm.fits hp) .fast sink).trans ?_
        exact fun name _ => ih name

end Compiled

theorem outputs_depend_on_inputs_thrice :
    ∃ vs₀ vs p, ∃ m n : Machine,
      Variables.discover "READ A\nREAD A\nSUM\nWRITE T\nREAD T\nREAD A\nSUM\nWRITE B\n" =
        .ok vs₀ ∧ vs₀.Bound vs ∧ vs.Separate ∧
      compile "READ A\nREAD A\nSUM\nWRITE T\nREAD T\nREAD A\nSUM\nWRITE B\n" vs .default = .ok p ∧
      Postfix.WritesFirst (Postfix.accesses
        (Postfix.instructions "READ A\nREAD A\nSUM\nWRITE T\nREAD T\nREAD A\nSUM\nWRITE B\n")) ∧
      m.Reached p ∧ n.Reached p ∧ p.datum m.store "A" = p.datum n.store "A" ∧
      p.datum m.store "B" ≠ p.datum n.store "B" ∧
      p.datum (m.execute p .fast none).1.store "B" =
        p.datum (n.execute p .fast none).1.store "B" ∧
      p.SameVariables (n.execute p .fast none).1.store
        ((fun m : Machine => (m.execute p .fast none).1)^[3] n).store := by
  let x : External := ⟨⟨0, 1⟩, 0⟩
  let byte : DataType := .scalar (.int .w8)
  let sum : Opcode := .scalar (.arithmetic .sum) (.int .w8)
  let vs : Variables := ⟨[⟨"A", byte, none, some x⟩], [.named "T", .named "B"]⟩
  let p : Program := {
    vars := ⟨[⟨"A", byte, some (.external 0), some x⟩],
      [⟨"T", byte, some (.variable 0), none⟩, ⟨"B", byte, some (.variable 1), none⟩]⟩
    constants := #[]
    literals := []
    code := #[⟨.loadExternal 0 (.int .w8), 1, [], some byte, none⟩,
      ⟨.loadExternal 0 (.int .w8), 2, [], some byte, none⟩,
      ⟨sum, 3, [byte, byte], some byte, none⟩,
      ⟨.storeVariable 0 (.int .w8), 4, [byte], none, none⟩,
      ⟨.loadVariable 0 (.int .w8), 5, [], some byte, none⟩,
      ⟨.loadExternal 0 (.int .w8), 6, [], some byte, none⟩,
      ⟨sum, 7, [byte, byte], some byte, none⟩,
      ⟨.storeVariable 1 (.int .w8), 8, [byte], none, none⟩]
    matrices := #[]
    bindings := #[x]
    sizes := ⟨0, 2, 8, 2⟩ }
  -- both cells hold a three, one of them with more above its byte, and one machine has run before
  let m : Machine := .new p #[#[3]]
  let ran : Machine := ((Machine.new p #[#[7]]).execute p .fast none).1
  let n : Machine := { ran with store.shared := ran.store.shared.store 0 0 0x103 }
  have hdiscover :
      Variables.discover "READ A\nREAD A\nSUM\nWRITE T\nREAD T\nREAD A\nSUM\nWRITE B\n" =
        .ok ⟨[.named "A"], [.named "T", .named "B"]⟩ := by decide +kernel
  have hbind : Variables.bind ⟨[.named "A"], [.named "T", .named "B"]⟩ "A" byte (some x) =
      .ok vs := by decide +kernel
  have hsep : vs.Separate := Variables.separate_of_forall (by decide)
  have hcompile :
      compile "READ A\nREAD A\nSUM\nWRITE T\nREAD T\nREAD A\nSUM\nWRITE B\n" vs .default =
        .ok p := by decide +kernel
  have haccesses : Postfix.accesses (Postfix.instructions
      "READ A\nREAD A\nSUM\nWRITE T\nREAD T\nREAD A\nSUM\nWRITE B\n") =
        [.read "A", .read "A", .write "T", .read "T", .read "A", .write "B"] := by decide +kernel
  have hfirst : Postfix.WritesFirst (Postfix.accesses (Postfix.instructions
      "READ A\nREAD A\nSUM\nWRITE T\nREAD T\nREAD A\nSUM\nWRITE B\n")) := by
    rw [haccesses]
    intro before name after hcode hwrite
    obtain rfl : name = "T" := by
      have hread : .read name ∈ before ++ .read name :: after :=
        List.mem_append_right _ List.mem_cons_self
      rw [← hcode] at hread
      simp only [List.mem_cons, Postfix.Instruction.write.injEq, List.not_mem_nil, reduceCtorEq,
        false_or, or_false] at hwrite
      rcases hwrite with rfl | rfl
      · rfl
      · simp at hread
    rcases before with _ | ⟨_, _ | ⟨_, _ | ⟨_, before⟩⟩⟩
    · simp at hcode
    · simp at hcode
    · simp at hcode
    · have hthird := congrArg (·[2]?) hcode
      simp at hthird
      simp [hthird]
  have hm : m.Reached p := .new (by decide)
  have hn : n.Reached p := .storeShared 0 0 _ (.execute .fast none (.new (by decide)))
  have hbound : Variables.Bound _ vs := .bind .refl hbind
  have hA : p.datum m.store "A" = p.datum n.store "A" := by decide +kernel
  have hB : p.datum m.store "B" ≠ p.datum n.store "B" := by decide +kernel
  have hinputs : ∀ name ∈ p.vars.inputNames, p.datum m.store name = p.datum n.store name := by
    intro name hname
    obtain rfl := List.mem_singleton.mp hname
    exact hA
  obtain ⟨-, hvalues, -⟩ :=
    outputs_depend_on_inputs hdiscover hbound hsep hcompile hfirst hm hn none
  obtain ⟨-, -, -, -, hrepeat⟩ :=
    outputs_depend_on_inputs hdiscover hbound hsep hcompile hfirst hn hn none
  have hB' := hvalues hinputs "B" (by decide)
  exact ⟨_, vs, p, m, n, hdiscover, hbound, hsep, hcompile, hfirst, hm, hn, hA, hB, hB', hrepeat 2⟩

end Program

end FormulaMachine
