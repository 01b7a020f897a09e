import FormulaMachine.Proofs.Machine.Soundness
import FormulaMachine.Proofs.Reference.Instructions

namespace FormulaMachine

section Lines

variable {p : Program} {o : CompileOptions} {d d' : Draft} {hs : List Held}

theorem instruction_follows_of_ne_const {line : Nat} {i : Postfix.Instruction}
    (hp : p.layout.Sound) (hsep : p.vars.Separate) (hd : Draft.Written p d hs)
    (h : Draft.instruction o line d i = .ok d') (hlead : d'.Leads p)
    (hconst : ∀ typeName literal, i ≠ .const typeName literal) :
    ∃ es hs', d.Emits p d' hs es hs' ∧ ∀ checked st ρ, Represents p hs st ρ →
      Follows p hs' (p.steps checked es st) (Reference.step o checked ρ i) := by
  have hdepth := hd.admits.length_end_le
  have hmax : d'.maxDepth ≤ p.sizes.maxStackDepth := hlead.maxDepth
  cases i with
  | read name =>
      obtain ⟨w, l, hw, hl, hemits⟩ := Draft.read_emits hd.sound hd.slots hdepth h hlead
      refine ⟨_, _, hemits, fun checked st ρ hrep => ?_⟩
      exact read_follows hrep hp hw hl (Nat.le_trans hemits.admits.length_end_le hmax)
  | write name =>
      obtain ⟨w, l, x, x', rest, rest', casts, copies, rfl, hw, hl, hcasts, hcopies, hadmits, hfree,
        hemits⟩ := Draft.write_emits hd.sound hd.slots hdepth h hlead
      refine ⟨_, _, hemits, fun checked st ρ hrep => ?_⟩
      exact write_follows hp hsep hrep hw hl hcasts hcopies hadmits hfree hmax
  | const typeName literal => exact absurd rfl (hconst typeName literal)
  | cast typeName =>
      obtain ⟨t, x, x', rest, j, k, ht, rfl, hemits, hcase⟩ :=
        Draft.cast_emits hd.slots hdepth h
      refine ⟨_, _, hemits, fun checked st ρ hrep => ?_⟩
      exact cast_follows hrep ht hcase (Nat.le_trans hemits.admits.length_end_le hmax)
  | operator name =>
      obtain ⟨kernel, r, xs, ys, x, rest, opcode, spelling, hname, hresolve, hhs, happlies,
        hemits⟩ := Draft.operator_emits hd.sound hd.slots hdepth h hlead
      refine ⟨_, _, hemits, fun checked st ρ hrep => ?_⟩
      exact operator_follows hname hresolve hhs happlies hp hsep hrep
        (Nat.le_trans hemits.admits.length_start_le hmax)
        (Nat.le_trans hemits.admits.length_end_le hmax)

theorem instruction_follows {line : Nat} {i : Postfix.Instruction} (hp : p.layout.Sound)
    (hsep : p.vars.Separate) (hsmall : p.constants.size < 2 ^ 32) (hd : Draft.Written p d hs)
    (h : Draft.instruction o line d i = .ok d') (hlead : d'.Leads p) :
    ∃ es hs', d.Emits p d' hs es hs' ∧ ∀ checked st ρ, Represents p hs st ρ →
      Follows p hs' (p.steps checked es st) (Reference.step o checked ρ i) := by
  by_cases hconst : ∃ typeName literal, i = .const typeName literal
  · obtain ⟨typeName, literal, rfl⟩ := hconst
    obtain ⟨k, x, hk, hx, hbytes, hemits⟩ :=
      Draft.const_emits hd.slots hd.admits.length_end_le h hlead hsmall
    refine ⟨_, _, hemits, fun checked st ρ hrep => ?_⟩
    exact const_follows hrep hk hx hbytes hemits.admits hlead.maxDepth
  · exact instruction_follows_of_ne_const hp hsep hd h hlead fun typeName literal heq =>
      hconst ⟨typeName, literal, heq⟩

theorem lines_follow {lines : List (Nat × Except Error Postfix.Instruction)}
    (hp : p.layout.Sound) (hsep : p.vars.Separate) (hsmall : p.constants.size < 2 ^ 32)
    (hd : Draft.Written p d hs) (h : lines.foldlM (Draft.line o) d = .ok d')
    (hlead : d'.Leads p) :
    ∃ es hs', d'.code.toList = d.code.toList ++ es ∧ Draft.Written p d' hs' ∧
      ∀ checked st ρ, Represents p hs st ρ → Follows p hs' (p.steps checked es st)
        (lines.foldlM (Reference.line o checked) ρ) := by
  -- `Written` carries what the compiler knew of the stack from line to line
  induction lines generalizing d hs with
  | nil =>
      obtain rfl : d = d' := Except.ok.inj h
      exact ⟨[], hs, (List.append_nil _).symm, hd, fun checked st ρ hrep => .ok hrep⟩
  | cons l lines ih =>
      rw [List.foldlM_cons] at h
      obtain ⟨d₁, hl, h⟩ := bind_eq_ok h
      obtain ⟨i, hi, hinstr⟩ := Draft.line_eq_ok hl
      obtain ⟨es₁, hs₁, hemits, hfollows⟩ :=
        instruction_follows hp hsep hsmall hd hinstr ((Draft.lines_extend h).leads hlead)
      obtain ⟨es, hs', hcode, hw, hrest⟩ :=
        ih (hd.emits (Draft.instruction_extends hinstr) hemits) h
      refine ⟨es₁ ++ es, hs', ?_, hw, fun checked st ρ hrep => ?_⟩
      · rw [hcode, hemits.code, List.append_assoc]
      · have hline : Reference.line o checked ρ l = Reference.step o checked ρ i := by
          rw [Reference.line, hi]
        rw [Program.steps_append, List.foldlM_cons, hline]
        exact (hfollows checked st ρ hrep).bind fun st ρ hrep => hrest checked st ρ hrep

end Lines

namespace Program

variable {p : Program} {s : Store}

def Shows (p : Program) (s : Store) (name : String) : Option Datum → Prop
  | none => p.value s name = .error (.unknownVariable name) ∧
      p.matrix s name = .error (.unknownVariable name)
  | some (.scalar (k := k) x) => p.value s name = .ok ⟨k, x⟩
  | some (.matrix _ _ xs) => p.matrix s name = .ok (xs.map Scalar.toFloat64)

theorem shows_datum (hp : p.Sound) (s : Store) (name : String) :
    p.Shows s name (p.datum s name) := by
  cases hw : p.vars.get? name with
  | none =>
      have hfind : p.find name = .error (.unknownVariable name) := by rw [find, hw]
      rw [datum, hw, Option.bind_none, Shows, value, matrix, hfind]
      exact ⟨rfl, rfl⟩
  | some w =>
      obtain ⟨-, l, hl⟩ := hp.homes name w hw
      have hfind : p.find name = .ok (w.type, l) := by simp only [find, hw, hl]
      have hkeeps := (hp.layout.houses name w hw).keeps l hl
      rw [datum_eq hw hl]
      rcases l with offset | number | number
      · obtain ⟨k, ht, -, -⟩ := hkeeps
        rw [ht] at hfind ⊢
        rw [datumAt, Shows, value, hfind]
        rfl
      · obtain ⟨k, x, ht, -, -⟩ := hkeeps
        rw [ht] at hfind ⊢
        rw [datumAt, Shows, value, hfind]
        rfl
      · obtain ⟨k, rows, cols, ht, hm⟩ := hkeeps.eq_matrix (p := p) .refl
        rw [ht] at hfind
        rw [datumAt, matrixDatum_eq hm, Shows, matrix, hfind, List.map_map]
        rfl

theorem runFrom_of_steps (checked : Bool) (pc : Nat) (st : State) (es : List Entry) :
    (∃ st', p.steps checked es st = .ok st' ∧ p.runFrom checked pc st es = ⟨st'.store, none⟩) ∨
      ∃ f pc' e, p.steps checked es st = .error f ∧
        (p.runFrom checked pc st es).stopped = some (faultAt pc' e f) := by
  induction es generalizing pc st with
  | nil => exact .inl ⟨st, rfl, rfl⟩
  | cons e es ih =>
      rw [steps_cons, runFrom]
      cases hstep : p.step checked e.opcode st with
      | error f => exact .inr ⟨f, pc, e, rfl, rfl⟩
      | ok st₁ => exact ih (pc + 1) st₁

theorem steps_of_run {checked : Bool} (h : (p.run checked s).stopped = none) :
    ∃ st, p.steps checked p.code.toList ⟨s, .empty⟩ = .ok st ∧
      p.run checked s = ⟨st.store, none⟩ := by
  rcases runFrom_of_steps checked 0 ⟨s, .empty⟩ p.code.toList with
    hdone | ⟨f, pc, e, -, hfault⟩
  · exact hdone
  · exact absurd (hfault.symm.trans h) (by simp)

theorem represents_start (hfit : p.Fits s) : Represents p [] ⟨s, .empty⟩ ⟨p.datum s, []⟩ where
  words := .nil
  proper _ hx := absurd hx List.not_mem_nil
  fits := hfit
  vars _ := rfl
  stack := rfl

inductive Agrees (p : Program) : Outcome → Except Fault Reference.State → Prop
  | done {s : Store} {ρ : Reference.State} (hvars : ∀ name, ρ.vars name = p.datum s name)
      (hstack : ρ.stack = []) : Agrees p ⟨s, none⟩ (.ok ρ)
  | fault (s : Store) (pc : Nat) (e : Entry) (f : Fault) :
      Agrees p ⟨s, some (faultAt pc e f)⟩ (.error f)

section Compiled

variable {text : String} {vs : Variables} {o : CompileOptions} {m : Machine}

theorem separate_of_compile (hsep : vs.Separate) (h : compile text vs o = .ok p) :
    p.vars.Separate :=
  (grows_of_compile h).separate hsep

theorem run_agrees (hvs : vs.Fresh) (hsep : vs.Separate) (h : compile text vs o = .ok p)
    (hsmall : p.constants.size < 2 ^ 32) (hfit : p.Fits s) (checked : Bool) :
    p.Agrees (p.run checked s) (Reference.run text o checked (p.datum s)) := by
  have hp := sound_of_compile hvs h hsmall
  have hsep' := separate_of_compile hsep h
  obtain ⟨d, hd, hslots, hlead, hcode, -, -⟩ := compile_eq_ok h
  obtain ⟨es, hs, hes, hw, hfollows⟩ :=
    lines_follow hp.layout hsep' hsmall (Draft.written_start hvs) hd hlead
  obtain rfl : es = p.code.toList := by
    rw [← hcode, hes]
    rfl
  obtain rfl := hw.held_eq_nil hslots
  have hrun : Follows p [] (p.steps checked p.code.toList ⟨s, .empty⟩)
      (Reference.run text o checked (p.datum s)) := hfollows checked _ _ (represents_start hfit)
  rcases runFrom_of_steps checked 0 ⟨s, .empty⟩ p.code.toList with
    ⟨st, hok, hout⟩ | ⟨f, pc, e, hfault, hout⟩
  · rw [hok] at hrun
    rw [run, hout]
    generalize hresult : Reference.run text o checked (p.datum s) = result at hrun
    cases hrun with
    | ok hrep => exact .done hrep.vars hrep.stack
  · rw [hfault] at hrun
    generalize hresult : Reference.run text o checked (p.datum s) = result at hrun
    cases hrun with
    | fault =>
        have heq : p.run checked s = ⟨(p.run checked s).store, some (faultAt pc e f)⟩ := by
          rw [← hout]
          rfl
        rw [heq]
        exact .fault _ pc e f

theorem execute_fast_refines (hvs : vs.Made) (hsep : vs.Separate)
    (h : compile text vs o = .ok p) (hsmall : p.constants.size < 2 ^ 32) (hm : m.Reached p)
    (sink : Option Sink) :
    (∀ name, p.Shows m.store name (p.datum m.store name)) ∧
      ∃ m' ρ, m.execute p .fast sink = (m', none, sink) ∧
        Reference.run text o false (p.datum m.store) = .ok ρ ∧ ρ.stack = [] ∧
        ∀ name, ρ.vars name = p.datum m'.store name ∧ p.Shows m'.store name (ρ.vars name) := by
  have hp := sound_of_compile hvs.fresh h hsmall
  have hfit := hm.fits hp
  refine ⟨shows_datum hp m.store, ?_⟩
  obtain ⟨m', hexecute, hrun⟩ := hfit.exists_execute_fast hp sink
  have hagrees := run_agrees hvs.fresh hsep h hsmall hfit.store false
  rw [hrun] at hagrees
  generalize hresult : Reference.run text o false (p.datum m.store) = result at hagrees
  cases hagrees with
  | @done _ ρ hvars hstack =>
      refine ⟨m', ρ, hexecute, rfl, hstack, fun name => ⟨hvars name, ?_⟩⟩
      rw [hvars]
      exact shows_datum hp m'.store name

end Compiled

theorem execute_fast_swap :
    ∃ vs p a b, ∃ m : Machine, vs.Made ∧ vs.Separate ∧
      compile "READ A\nREAD B\nWRITE A\nWRITE B\n" vs .default = .ok p ∧
      p.constants.size < 2 ^ 32 ∧ m.Reached p ∧ p.datum m.store "A" = some a ∧
      p.datum m.store "B" = some b ∧ a ≠ b ∧
      ∃ m', m.execute p .fast none = (m', none, none) ∧ p.datum m'.store "A" = some b ∧
        p.datum m'.store "B" = some a := by
  let row : DataType := .matrix (.int .w8) 1 2
  let x : External := ⟨⟨0, 4⟩, 0⟩
  let y : External := ⟨⟨0, 4⟩, 2⟩
  let vs : Variables := ⟨[], [⟨"A", row, none, some x⟩, ⟨"B", row, none, some y⟩]⟩
  let p : Program := {
    vars := ⟨[], [⟨"A", row, some (.matrix 0), some x⟩, ⟨"B", row, some (.matrix 1), some y⟩]⟩
    constants := #[]
    literals := []
    code := #[⟨.loadMatrix 0, 1, [], some row, none⟩, ⟨.loadMatrix 1, 2, [], some row, none⟩,
      ⟨.copyMatrix 1 2, 3, [row], some row, none⟩, ⟨.storeMatrix 0, 3, [row], none, none⟩,
      ⟨.storeMatrix 1, 4, [row], none, none⟩]
    matrices := #[⟨row, some x⟩, ⟨row, some y⟩, ⟨row, none⟩]
    bindings := #[]
    sizes := ⟨0, 0, 5, 2⟩ }
  let m : Machine := .new p #[#[5, 7, 0, 1]]
  let a : Datum := .matrix (k := .int .w8) 1 2 [.ofWord _ 5, .ofWord _ 7]
  let b : Datum := .matrix (k := .int .w8) 1 2 [.ofWord _ 0, .ofWord _ 1]
  have hmade : vs.Made := by
    have hdiscover : Variables.discover "READ A\nREAD B\nWRITE A\nWRITE B\n" =
        .ok ⟨[], [.named "A", .named "B"]⟩ := by decide +kernel
    have hbindA : Variables.bind ⟨[], [.named "A", .named "B"]⟩ "A" row (some x) =
        .ok ⟨[], [⟨"A", row, none, some x⟩, .named "B"]⟩ := by decide +kernel
    have hbindB : Variables.bind ⟨[], [⟨"A", row, none, some x⟩, .named "B"]⟩ "B" row (some y) =
        .ok vs := by decide +kernel
    exact ⟨_, _, hdiscover, .bind (.bind .refl hbindA) hbindB⟩
  have hsep : vs.Separate := Variables.separate_of_forall (by decide)
  have hcompile : compile "READ A\nREAD B\nWRITE A\nWRITE B\n" vs .default = .ok p := by
    decide +kernel
  have hsmall : p.constants.size < 2 ^ 32 := by decide
  have hnew : m.Reached p := .new (by decide)
  have hA : p.datum m.store "A" = some a := by decide
  have hB : p.datum m.store "B" = some b := by decide
  have hinstructions : Postfix.instructions "READ A\nREAD B\nWRITE A\nWRITE B\n" =
      [(1, .ok (.read "A")), (2, .ok (.read "B")), (3, .ok (.write "A")),
        (4, .ok (.write "B"))] := by decide +kernel
  have hswap : Reference.run "READ A\nREAD B\nWRITE A\nWRITE B\n" .default false (p.datum m.store) =
      .ok ⟨Function.update (Function.update (p.datum m.store) "A" (some b)) "B" (some a), []⟩ := by
    rw [Reference.run, hinstructions]
    simp [Reference.line, Reference.step, Reference.State.push, hA, hB, bind, Except.bind,
      Datum.castTo, Except.map, Datum.type, a, b]
    rfl
  obtain ⟨-, m', ρ, hm', hrun, -, hvars⟩ :=
    execute_fast_refines hmade hsep hcompile hsmall hnew none
  obtain rfl := Except.ok.inj (hswap.symm.trans hrun)
  have hA' : p.datum m'.store "A" = some b := by
    rw [← (hvars "A").1]
    rfl
  have hB' : p.datum m'.store "B" = some a := by
    rw [← (hvars "B").1]
    rfl
  exact ⟨vs, p, a, b, m, hmade, hsep, hcompile, hsmall, hnew, hA, hB, by decide, m', hm', hA', hB'⟩

end Program

end FormulaMachine
