import FormulaMachine.Proofs.Compiler.Bindings
import FormulaMachine.Proofs.Compiler.Requirement
import FormulaMachine.Proofs.Infix.Arity
import FormulaMachine.Proofs.Infix.Pieces
import FormulaMachine.Proofs.Reference.Valuation

namespace FormulaMachine

section Compile

variable {text text' : String} {vs ws : Variables} {code code' : List Postfix.Instruction}

theorem outlined?_congr {o : CompileOptions} (halike : vs.Alike ws)
    (hperm : vs.names.Perm ws.names)
    (hrun : (outline o).run (Outline.start vs) code = (outline o).run (Outline.start vs) code') :
    outlined? o vs code = outlined? o ws code' := by
  have hstart : Outline.start vs = Outline.start ws := by
    unfold Outline.start
    congr 1
    funext x
    rw [halike x]
  unfold outlined?
  rw [hrun, hstart]
  refine congrArg (Option.bind _) (funext fun σ => ?_)
  unfold Unbounded.total?
  rw [Variables.total_perm hperm]
  simp only [hperm.mem_iff]

end Compile

namespace Infix

open Postfix (Interpretation)
open Postfix.Interpretation (Apart)

structure Assignment.Independent (a b : Assignment) : Prop where
  front : a.target ∉ Postfix.names b.code
  back : b.target ∉ Postfix.names a.code

namespace Assignment

def bare (a : Assignment) : String × Expr :=
  (a.target, a.value)

theorem targets_code (a : Assignment) : Postfix.targets a.code = [a.target] := by
  have hvalue : Postfix.targets a.value.code = [] := by
    refine List.flatMap_eq_nil_iff.mpr fun i hi => ?_
    cases i with
    | write x => exact absurd hi (a.value.write_not_mem_code x)
    | _ => rfl
  rw [code, Postfix.targets, List.flatMap_append]
  exact congrArg (· ++ [a.target]) hvalue

variable {a b : Assignment}

theorem Independent.apart (h : a.Independent b) (ha : ∀ c ∈ a.value.calls, c.Fits)
    (hb : ∀ c ∈ b.value.calls, c.Fits) : Apart a.code b.code := by
  refine ⟨a.depthAfter?_code ha, b.depthAfter?_code hb, fun x hx => ?_, fun x hx => ?_⟩
  · rw [targets_code, List.mem_singleton] at hx
    exact hx ▸ h.front
  · rw [targets_code, List.mem_singleton] at hx
    exact hx ▸ h.back

end Assignment

theorem writesAlone_programCode {as : List Assignment} (h : ∀ c ∈ callsOf as, c.Fits) :
    Postfix.WritesAlone 0 (programCode as) := by
  intro before name after hcode
  obtain ⟨done, ⟨rest, rfl⟩, hdone⟩ := exists_prefix_of_write hcode
  rw [callsOf, List.flatMap_append, List.forall_mem_append] at h
  have hzero := depthAfter?_programCode h.1
  rw [← hdone, Postfix.depthAfter?_append] at hzero
  obtain ⟨n, hn, hwrite⟩ := Option.bind_eq_some_iff.mp hzero
  rw [Postfix.depthAfter?_singleton, Postfix.Instruction.depthAfter?,
    Option.ite_none_right_eq_some] at hwrite
  obtain ⟨hpos, hn₀⟩ := hwrite
  have hone : n = 1 := by
    have := Option.some.inj hn₀
    omega
  rw [hn, hone]

section Bare

variable {as bs : List Assignment}

theorem programCode_congr (h : as.map Assignment.bare = bs.map Assignment.bare) :
    programCode as = programCode bs := by
  have hbare (as : List Assignment) :
      programCode as = (as.map Assignment.bare).flatMap fun x => x.2.code ++ [.write x.1] := by
    rw [programCode, List.flatMap_map]
    rfl
  rw [hbare as, hbare bs, h]

theorem callsOf_congr (h : as.map Assignment.bare = bs.map Assignment.bare) :
    callsOf as = callsOf bs := by
  have hbare (as : List Assignment) :
      callsOf as = (as.map Assignment.bare).flatMap fun x => x.2.calls := by
    rw [callsOf, List.flatMap_map]
    rfl
  rw [hbare as, hbare bs, h]

end Bare

theorem instructions_of_fits [Lexicon] {formula code : String} {as : List Assignment}
    (hstatements : statements formula = .ok as) (hcode : toPostfix formula = .ok code)
    (hfits : ∀ c ∈ callsOf as, c.Fits) :
    (Postfix.instructions code).map Prod.snd = (programCode as).map .ok := by
  obtain ⟨as', has', rfl, hwords⟩ := toPostfix_eq_ok hcode
  obtain rfl : as = as' := Except.ok.inj (hstatements.symm.trans has')
  exact Postfix.map_snd_instructions_text
    (plain_of_depthAfter? hwords (depthAfter?_programCode hfits))

section Swap

variable {as bs : List Assignment} {a b : Assignment}

theorem programCode_neighbours (as bs : List Assignment) (a b : Assignment) :
    programCode (as ++ a :: b :: bs) =
      programCode as ++ (a.code ++ (b.code ++ programCode bs)) := by
  simp only [programCode, List.flatMap_append, List.flatMap_cons]

theorem mem_swapped {x : Assignment} :
    x ∈ as ++ b :: a :: bs ↔ x ∈ as ++ a :: b :: bs := by
  simp only [List.mem_append, List.mem_cons]
  tauto

theorem fits_swapped (h : ∀ c ∈ callsOf (as ++ a :: b :: bs), c.Fits) :
    ∀ c ∈ callsOf (as ++ b :: a :: bs), c.Fits := by
  intro c hc
  obtain ⟨x, hx, hc⟩ := List.mem_flatMap.mp hc
  exact h c (List.mem_flatMap.mpr ⟨x, mem_swapped.mp hx, hc⟩)

theorem mem_programCode_swapped (i : Postfix.Instruction) :
    i ∈ programCode (as ++ a :: b :: bs) ↔ i ∈ programCode (as ++ b :: a :: bs) := by
  simp only [programCode, List.mem_flatMap, mem_swapped]

variable (hfits : ∀ c ∈ callsOf (as ++ a :: b :: bs), c.Fits) (h : a.Independent b)

include hfits h

theorem run_swapped {α β M : Type} [AddCommMonoid M] (I : Interpretation α β M)
    {s : Interpretation.State α β M} (hs : s.stack = []) :
    I.run s (programCode (as ++ a :: b :: bs)) = I.run s (programCode (as ++ b :: a :: bs)) := by
  rw [callsOf, List.flatMap_append, List.flatMap_cons, List.flatMap_cons, List.forall_mem_append,
    List.forall_mem_append, List.forall_mem_append] at hfits
  obtain ⟨has, ha, hb, -⟩ := hfits
  rw [programCode_neighbours, programCode_neighbours]
  exact Interpretation.run_swap (h.apart ha hb) (depthAfter?_programCode has) hs

end Swap

theorem programCode_ne_nil (as bs : List Assignment) (a b : Assignment) :
    programCode (as ++ a :: b :: bs) ≠ [] := by
  rw [programCode_neighbours, Assignment.code]
  simp

theorem compile_eq_ok_iff_of_fits {code : String} {as bs : List Assignment} {a b : Assignment}
    {vs : Variables}
    (hread : (Postfix.instructions code).map Prod.snd = (programCode (as ++ a :: b :: bs)).map .ok)
    (hfits : ∀ c ∈ callsOf (as ++ a :: b :: bs), c.Fits) (hvs : vs.Made) (o : CompileOptions) :
    ((∃ p, compile code vs o = .ok p) ↔
        ∃ m, outlined? o vs (programCode (as ++ a :: b :: bs)) = some m ∧ m.1.InBounds) ∧
      ∀ p m, compile code vs o = .ok p →
        outlined? o vs (programCode (as ++ a :: b :: bs)) = some m → Unbounded.Takes p m :=
  compile_eq_ok_iff_outlined hread (programCode_ne_nil as bs a b) (writesAlone_programCode hfits)
    (depthAfter?_programCode hfits) hvs.fresh hvs.nodup_names o

section Programs

variable {code code' : String} {as bs : List Assignment} {a b : Assignment} {vs vs' : Variables}
  (hread : (Postfix.instructions code).map Prod.snd = (programCode (as ++ a :: b :: bs)).map .ok)
  (hread' : (Postfix.instructions code').map Prod.snd =
    (programCode (as ++ b :: a :: bs)).map .ok)
  (hfits : ∀ c ∈ callsOf (as ++ a :: b :: bs), c.Fits) (h : a.Independent b)
  (hvs : vs.Made) (hvs' : vs'.Made) (halike : vs.Alike vs') (o : CompileOptions)

include hread hread' hfits h hvs hvs' halike

theorem compile_swapped :
    ((∃ p, compile code vs o = .ok p) ↔ ∃ p', compile code' vs' o = .ok p') ∧
      ∀ p p', compile code vs o = .ok p → compile code' vs' o = .ok p' →
        p.constants.size = p'.constants.size := by
  have houtlined : outlined? o vs (programCode (as ++ a :: b :: bs)) =
      outlined? o vs' (programCode (as ++ b :: a :: bs)) :=
    outlined?_congr halike (halike.names_perm hvs.nodup_names hvs'.nodup_names)
      (run_swapped hfits h (outline o) rfl)
  obtain ⟨hiff, htakes⟩ := compile_eq_ok_iff_of_fits hread hfits hvs o
  obtain ⟨hiff', htakes'⟩ := compile_eq_ok_iff_of_fits hread' (fits_swapped hfits) hvs' o
  rw [houtlined] at hiff htakes
  refine ⟨hiff.trans hiff'.symm, fun p p' hp hp' => ?_⟩
  obtain ⟨m, hm, -⟩ := hiff.mp ⟨p, hp⟩
  exact (htakes p m hp hm).2.trans (htakes' p' m hp' hm).2.symm

theorem execute_swapped {p p' : Program} (hsep : vs.Separate) (hp : compile code vs o = .ok p)
    (hp' : compile code' vs' o = .ok p') (hsmall : p.constants.size < 2 ^ 32) {m m' : Machine}
    (sink sink' : Option Sink) (hm : m.Reached p) (hm' : m'.Reached p')
    (hsame : p.datum m.store = p'.datum m'.store) :
    ∃ n n', m.execute p .fast sink = (n, none, sink) ∧
      m'.execute p' .fast sink' = (n', none, sink') ∧ p.datum n.store = p'.datum n'.store := by
  have hsmall' : p'.constants.size < 2 ^ 32 :=
    (compile_swapped hread hread' hfits h hvs hvs' halike o).2 p p' hp hp' ▸ hsmall
  obtain ⟨n, σ, hn, hσ, hvars⟩ := Program.execute_fast_means hvs hsep hp hread hsmall hm sink
  obtain ⟨n', σ', hn', hσ', hvars'⟩ :=
    Program.execute_fast_means hvs' (halike.separate hsep) hp' hread' hsmall' hm' sink'
  refine ⟨n, n', hn, hn', ?_⟩
  rw [run_swapped hfits h (Reference.values o false) rfl, hsame] at hσ
  obtain rfl := Option.some.inj (hσ.symm.trans hσ')
  exact hvars.symm.trans hvars'

end Programs

section Formulas

variable {formula code : String} {as bs : List Assignment} {a b : Assignment}

theorem independent_statements_commute [Lexicon] (hcode : toPostfix formula = .ok code)
    (hstatements : statements formula = .ok (as ++ a :: b :: bs))
    (hfits : ∀ c ∈ callsOf (as ++ a :: b :: bs), c.Fits) (h : a.Independent b)
    (ds : List Declaration) (o : CompileOptions) :
    (∃ before front back after, formula = before ++ front ++ back ++ after ∧
      statements front = .ok [a] ∧ statements back = .ok [b] ∧
      statements (before ++ back ++ front ++ after) = .ok (as ++ b :: a :: bs)) ∧
    ∀ formula' as', statements formula' = .ok as' →
      as'.map Assignment.bare = (as ++ b :: a :: bs).map Assignment.bare →
      ∃ code' vs₀ vs₀', toPostfix formula' = .ok code' ∧ Variables.discover code = .ok vs₀ ∧
        Variables.discover code' = .ok vs₀' ∧
        ((∃ vs, vs₀.declare ds = .ok vs) ↔ ∃ vs', vs₀'.declare ds = .ok vs') ∧
        ∀ vs vs', vs₀.declare ds = .ok vs → vs₀'.declare ds = .ok vs' →
          ((∃ p, compile code vs o = .ok p) ↔ ∃ p', compile code' vs' o = .ok p') ∧
          ∀ p p', vs.Separate → compile code vs o = .ok p → compile code' vs' o = .ok p' →
            p.constants.size < 2 ^ 32 → ∀ (m m' : Machine) (sink sink' : Option Sink),
            m.Reached p → m'.Reached p' →
            (∀ name, p.datum m.store name = p'.datum m'.store name) →
            ∃ n n', m.execute p .fast sink = (n, none, sink) ∧
              m'.execute p' .fast sink' = (n', none, sink') ∧
              ∀ name, p.datum n.store name = p'.datum n'.store name ∧
                p.Shows n.store name (p.datum n.store name) ∧
                p'.Shows n'.store name (p.datum n.store name) := by
  refine ⟨exists_texts hstatements, fun formula' as' hstatements' hbare => ?_⟩
  have hcode' := toPostfix_of_statements hstatements'
  have hfits' : ∀ c ∈ callsOf as', c.Fits := callsOf_congr hbare ▸ fits_swapped hfits
  have hread := instructions_of_fits hstatements hcode hfits
  have hread' := (instructions_of_fits hstatements' hcode' hfits').trans
    (congrArg (List.map Except.ok) (programCode_congr hbare))
  obtain ⟨vs₀, vs₀', hvs₀, hvs₀', halike₀⟩ :=
    Variables.alike_of_discover hread hread' mem_programCode_swapped
  refine ⟨_, vs₀, vs₀', hcode', hvs₀, hvs₀', ⟨?_, ?_⟩, ?_⟩
  · rintro ⟨vs, hvs⟩
    obtain ⟨vs', hvs', -⟩ := halike₀.declare hvs
    exact ⟨vs', hvs'⟩
  · rintro ⟨vs', hvs'⟩
    obtain ⟨vs, hvs, -⟩ := halike₀.symm.declare hvs'
    exact ⟨vs, hvs⟩
  intro vs vs' hvs hvs'
  have hmade : vs.Made := ⟨code, vs₀, hvs₀, Variables.bound_of_declare hvs⟩
  have hmade' : vs'.Made := ⟨_, vs₀', hvs₀', Variables.bound_of_declare hvs'⟩
  obtain ⟨ws, hws, halike⟩ := halike₀.declare hvs
  obtain rfl := Except.ok.inj (hws.symm.trans hvs')
  obtain ⟨hiff, hconstants⟩ := compile_swapped hread hread' hfits h hmade hmade' halike o
  refine ⟨hiff, fun p p' hsep hp hp' hsmall m m' sink sink' hm hm' hsame => ?_⟩
  obtain ⟨n, n', hn, hn', hdatum⟩ := execute_swapped hread hread' hfits h hmade hmade' halike o
    hsep hp hp' hsmall sink sink' hm hm' (funext hsame)
  refine ⟨n, n', hn, hn', fun name => ⟨congrFun hdatum name, ?_, ?_⟩⟩
  · exact Program.shows_datum (sound_of_compile hmade.fresh hp hsmall) n.store name
  · rw [congrFun hdatum name]
    exact Program.shows_datum
      (sound_of_compile hmade'.fresh hp' (hconstants p p' hp hp' ▸ hsmall)) n'.store name

theorem independent_statements_commute_square :
    ∃ a b vs vs' p p', ∃ m m' n n' : Machine,
      toPostfix "x = (int8) 1; y = a * a;" =
        .ok "CONST int8 1\nWRITE x\nREAD a\nREAD a\nMUL\nWRITE y\n" ∧
      statements "x = (int8) 1; y = a * a;" = .ok [a, b] ∧
      statements "y = a * a; x = (int8) 1;" = .ok [b, a] ∧
      (∀ c ∈ callsOf [a, b], c.Fits) ∧ a.Independent b ∧ vs.Separate ∧
      compile "CONST int8 1\nWRITE x\nREAD a\nREAD a\nMUL\nWRITE y\n" vs .default = .ok p ∧
      compile "READ a\nREAD a\nMUL\nWRITE y\nCONST int8 1\nWRITE x\n" vs' .default = .ok p' ∧
      p.constants.size < 2 ^ 32 ∧ m.Reached p ∧ m'.Reached p' ∧
      (∀ name, p.datum m.store name = p'.datum m'.store name) ∧
      m.execute p .fast none = (n, none, none) ∧ m'.execute p' .fast none = (n', none, none) ∧
      ∀ name, p.datum n.store name = p'.datum n'.store name := by
  let byte : DataType := .scalar (.int .w8)
  let a : Assignment := ⟨"x", .castNumber "int8" "1", .semicolon⟩
  let b : Assignment := ⟨"y", .binary .times (.name "a") (.name "a"), .semicolon⟩
  let vs : Variables := ⟨[⟨"a", byte, none, none⟩], [.named "x", .named "y"]⟩
  let vs' : Variables := ⟨[⟨"a", byte, none, none⟩], [.named "y", .named "x"]⟩
  let p : Program := {
    vars := ⟨[⟨"a", byte, some (.variable 1), none⟩],
      [⟨"x", byte, some (.variable 0), none⟩, ⟨"y", byte, some (.variable 2), none⟩]⟩
    constants := #[1]
    literals := [(0, ⟨"1", some "int8"⟩)]
    code := #[⟨.loadConstant 0 (.int .w8), 1, [], some byte, none⟩,
      ⟨.storeVariable 0 (.int .w8), 2, [byte], none, none⟩,
      ⟨.loadVariable 1 (.int .w8), 3, [], some byte, none⟩,
      ⟨.loadVariable 1 (.int .w8), 4, [], some byte, none⟩,
      ⟨.scalar (.arithmetic .mul) (.int .w8), 5, [byte, byte], some byte, none⟩,
      ⟨.storeVariable 2 (.int .w8), 6, [byte], none, none⟩]
    matrices := #[]
    bindings := #[]
    sizes := ⟨1, 3, 6, 2⟩ }
  let p' : Program := {
    vars := ⟨[⟨"a", byte, some (.variable 0), none⟩],
      [⟨"y", byte, some (.variable 1), none⟩, ⟨"x", byte, some (.variable 2), none⟩]⟩
    constants := #[1]
    literals := [(0, ⟨"1", some "int8"⟩)]
    code := #[⟨.loadVariable 0 (.int .w8), 1, [], some byte, none⟩,
      ⟨.loadVariable 0 (.int .w8), 2, [], some byte, none⟩,
      ⟨.scalar (.arithmetic .mul) (.int .w8), 3, [byte, byte], some byte, none⟩,
      ⟨.storeVariable 1 (.int .w8), 4, [byte], none, none⟩,
      ⟨.loadConstant 0 (.int .w8), 5, [], some byte, none⟩,
      ⟨.storeVariable 2 (.int .w8), 6, [byte], none, none⟩]
    matrices := #[]
    bindings := #[]
    sizes := ⟨1, 3, 6, 2⟩ }
  let m : Machine := { Machine.new p #[] with store := ⟨⟨#[0, 5, 0], #[]⟩, #[]⟩ }
  let m' : Machine := { Machine.new p' #[] with store := ⟨⟨#[5, 0, 0], #[]⟩, #[]⟩ }
  have hcode : toPostfix "x = (int8) 1; y = a * a;" =
      .ok "CONST int8 1\nWRITE x\nREAD a\nREAD a\nMUL\nWRITE y\n" := by decide +kernel
  have hcode' : toPostfix "y = a * a; x = (int8) 1;" =
      .ok "READ a\nREAD a\nMUL\nWRITE y\nCONST int8 1\nWRITE x\n" := by decide +kernel
  have hstatements : statements "x = (int8) 1; y = a * a;" = .ok ([] ++ a :: b :: []) := by
    decide +kernel
  have hstatements' : statements "y = a * a; x = (int8) 1;" = .ok ([] ++ b :: a :: []) := by
    decide +kernel
  have hfits : ∀ c ∈ callsOf [a, b], c.Fits := fun c hc => absurd hc List.not_mem_nil
  have hindependent : a.Independent b := by
    refine ⟨?_, ?_⟩
    · change "x" ∉ ["a", "a", "y"]
      decide
    · change "y" ∉ ["x"]
      decide
  have hdiscover : Variables.discover "CONST int8 1\nWRITE x\nREAD a\nREAD a\nMUL\nWRITE y\n" =
      .ok ⟨[.named "a"], [.named "x", .named "y"]⟩ := by decide +kernel
  have hdiscover' : Variables.discover "READ a\nREAD a\nMUL\nWRITE y\nCONST int8 1\nWRITE x\n" =
      .ok ⟨[.named "a"], [.named "y", .named "x"]⟩ := by decide +kernel
  have hdeclare : Variables.declare ⟨[.named "a"], [.named "x", .named "y"]⟩ [⟨"a", byte, none⟩] =
      .ok vs := by decide +kernel
  have hdeclare' : Variables.declare ⟨[.named "a"], [.named "y", .named "x"]⟩ [⟨"a", byte, none⟩] =
      .ok vs' := by decide +kernel
  have hsep : vs.Separate := Variables.separate_of_forall (by decide)
  have hp : compile "CONST int8 1\nWRITE x\nREAD a\nREAD a\nMUL\nWRITE y\n" vs .default =
      .ok p := by decide +kernel
  have hp' : compile "READ a\nREAD a\nMUL\nWRITE y\nCONST int8 1\nWRITE x\n" vs' .default =
      .ok p' := by decide +kernel
  have hsmall : p.constants.size < 2 ^ 32 := by decide
  have hset : p.setValue (Machine.new p #[]).store "a" ⟨.int .w8, .ofWord _ 5⟩ =
      .ok m.store := by decide +kernel
  have hset' : p'.setValue (Machine.new p' #[]).store "a" ⟨.int .w8, .ofWord _ 5⟩ =
      .ok m'.store := by decide +kernel
  have hm : m.Reached p := .setValue (.new (by decide)) hset
  have hm' : m'.Reached p' := .setValue (.new (by decide)) hset'
  have hsame (name : String) : p.datum m.store name = p'.datum m'.store name := by
    by_cases ha : name = "a"
    · subst ha
      decide
    by_cases hx : name = "x"
    · subst hx
      decide
    by_cases hy : name = "y"
    · subst hy
      decide
    · simp [Program.datum, Variables.get?, p, p', Ne.symm ha, Ne.symm hx, Ne.symm hy]
  obtain ⟨-, hcommute⟩ := independent_statements_commute hcode hstatements hfits hindependent
    [⟨"a", byte, none⟩] .default
  obtain ⟨code', vs₀, vs₀', hok, hvs₀, hvs₀', -, hall⟩ := hcommute _ _ hstatements' rfl
  obtain rfl := Except.ok.inj (hcode'.symm.trans hok)
  obtain rfl := Except.ok.inj (hdiscover.symm.trans hvs₀)
  obtain rfl := Except.ok.inj (hdiscover'.symm.trans hvs₀')
  obtain ⟨-, hrun⟩ := hall vs vs' hdeclare hdeclare'
  obtain ⟨n, n', hn, hn', hvalues⟩ := hrun p p' hsep hp hp' hsmall m m' none none hm hm' hsame
  exact ⟨a, b, vs, vs', p, p', m, m', n, n', hcode, hstatements, hstatements', hfits, hindependent,
    hsep, hp, hp', hsmall, hm, hm', hsame, hn, hn', fun name => (hvalues name).1⟩

end Formulas

end Infix

end FormulaMachine
