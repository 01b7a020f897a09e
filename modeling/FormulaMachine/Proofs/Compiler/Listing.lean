import FormulaMachine.Proofs.Compiler.Entries
import FormulaMachine.Proofs.Compiler.Lines
import FormulaMachine.Proofs.Compiler.Names
import FormulaMachine.Proofs.Infix.Words

namespace FormulaMachine

namespace Draft

variable {o : CompileOptions} {line : Nat} {d d' : Draft} {p : Program} {hs : List Held}

section Literals

theorem literals_foldl_widen (line : Nat) (ws : List Widening) (d : Draft) :
    (ws.foldl (widen line) d).literals = d.literals ∧
      (ws.foldl (widen line) d).constants = d.constants := by
  induction ws generalizing d with
  | nil => exact ⟨rfl, rfl⟩
  | cons w ws ih => exact ih (widen line d w)

theorem literals_detachSlots {number depth : Nat} {slots slots' : List Slot}
    (h : detachSlots line number depth slots d = .ok (slots', d')) :
    d'.literals = d.literals ∧ d'.constants = d.constants := by
  induction slots generalizing depth slots' d' with
  | nil =>
      obtain ⟨-, rfl⟩ := Prod.mk.inj (Except.ok.inj h)
      exact ⟨rfl, rfl⟩
  | cons s slots ih =>
      obtain ⟨slots₁, d₁, hrest, ⟨-, -, rfl⟩ | ⟨s', -, hs, -⟩⟩ := detachSlots_cons_eq_ok h
      · exact ih hrest
      · obtain ⟨-, -, -, rfl⟩ := detachSlot_eq_ok hs
        obtain ⟨hliterals, hconstants⟩ := ih hrest
        exact ⟨hliterals, hconstants⟩

theorem literals_eq_of_no_const {i : Postfix.Instruction} (h : instruction o line d i = .ok d')
    (hi : ∀ typeName literal, i ≠ .const typeName literal) :
    d'.literals = d.literals ∧ d'.constants = d.constants := by
  cases i with
  | read name =>
      obtain ⟨v, l, y, -, -, -, -, rfl⟩ := read_eq_ok h
      exact ⟨rfl, rfl⟩
  | write name =>
      obtain ⟨s, rest, v, w, l, y, d₁, d₂, -, -, -, -, -, -, hconvert, hdetach, rfl⟩ :=
        write_eq_ok h
      have hd₁ : d₁.literals = d.literals ∧ d₁.constants = d.constants := by
        rcases hconvert with ⟨-, rfl⟩ | ⟨j, k, -, -, rfl⟩ <;> exact ⟨rfl, rfl⟩
      rcases detachTarget_eq_ok hdetach with ⟨-, rfl⟩ | ⟨number, slots, d₃, -, hslots, rfl⟩
      · exact hd₁
      · obtain ⟨hliterals, hconstants⟩ := literals_detachSlots hslots
        exact ⟨hliterals.trans hd₁.1, hconstants.trans hd₁.2⟩
  | const typeName literal => exact absurd rfl (hi typeName literal)
  | cast typeName =>
      obtain ⟨t, s, rest, -, -, -, rfl⟩ := cast_eq_ok h
      exact ⟨rfl, rfl⟩
  | operator name =>
      obtain ⟨kernel, r, opcode, d₁, spelling, -, -, -, hop, rfl⟩ := operator_eq_ok h
      have hwiden := literals_foldl_widen line r.widenings d
      rcases operationOpcode_eq_ok hop with ⟨_, _, -, -, rfl⟩ | ⟨_, -, -, -, rfl⟩ <;>
        exact hwiden

theorem instruction_literals {i : Postfix.Instruction} (h : instruction o line d i = .ok d') :
    (d'.literals = d.literals ∧ d'.constants = d.constants) ∨
      ∃ literal, d'.literals = (d.constants.size % offsetLimit, literal) :: d.literals ∧
        d.constants.size < d'.constants.size := by
  cases i with
  | const typeName literal =>
      obtain ⟨k, x, -, -, rfl⟩ := const_eq_ok h
      refine .inr ⟨⟨literal, typeName⟩, rfl, ?_⟩
      have hpos := k.size_pos
      simp only [Draft.pushed, emit, withConstant, Array.size_append, List.size_toArray,
        x.length_bytes]
      omega
  | _ => exact .inl (literals_eq_of_no_const h (by simp))

structure LiteralsApart (d : Draft) : Prop where
  before : ∀ l ∈ d.literals, l.1 < d.constants.size
  nodup : (d.literals.map Prod.fst).Nodup

theorem literals_suffix {i : Postfix.Instruction} (h : instruction o line d i = .ok d') :
    d.literals <:+ d'.literals := by
  rcases instruction_literals h with ⟨hliterals, -⟩ | ⟨literal, hliterals, -⟩
  · exact hliterals ▸ List.suffix_rfl
  · exact hliterals ▸ List.suffix_cons _ _

theorem LiteralsApart.instruction {i : Postfix.Instruction} (hd : d.LiteralsApart)
    (h : instruction o line d i = .ok d') (hsmall : d.constants.size < 2 ^ 32) :
    d'.LiteralsApart := by
  rcases instruction_literals h with ⟨hliterals, hconstants⟩ | ⟨literal, hliterals, hlt⟩
  · constructor
    · rw [hliterals, hconstants]
      exact hd.before
    · rw [hliterals]
      exact hd.nodup
  · have hoffset : d.constants.size % offsetLimit = d.constants.size :=
      Nat.mod_eq_of_lt (by simp only [offsetLimit]; omega)
    rw [hoffset] at hliterals
    constructor
    · rw [hliterals]
      exact List.forall_mem_cons.mpr ⟨hlt, fun l hl => Nat.lt_trans (hd.before l hl) hlt⟩
    · rw [hliterals, List.map_cons, List.nodup_cons]
      refine ⟨fun hmem => ?_, hd.nodup⟩
      obtain ⟨l, hl, heq⟩ := List.mem_map.mp hmem
      exact Nat.lt_irrefl _ (heq ▸ hd.before l hl)

theorem lines_literals {lines : List (Nat × Except Error Postfix.Instruction)}
    (h : lines.foldlM (Draft.line o) d = .ok d') : d.literals <:+ d'.literals := by
  refine foldlM_invariant (P := fun d₁ => d.literals <:+ d₁.literals) (fun d₁ l d₂ hd hl => ?_)
    List.suffix_rfl h
  obtain ⟨i, -, hi⟩ := line_eq_ok hl
  exact hd.trans (literals_suffix hi)

theorem LiteralsApart.lines {lines : List (Nat × Except Error Postfix.Instruction)}
    (hd : d.LiteralsApart) (h : lines.foldlM (Draft.line o) d = .ok d')
    (hsmall : d'.constants.size < 2 ^ 32) : d'.LiteralsApart := by
  induction lines generalizing d with
  | nil =>
      obtain rfl := Except.ok.inj h
      exact hd
  | cons l lines ih =>
      rw [List.foldlM_cons] at h
      obtain ⟨d₁, hl, h⟩ := bind_eq_ok h
      obtain ⟨i, -, hi⟩ := line_eq_ok hl
      have hle : d.constants.size ≤ d'.constants.size := by
        simpa using ((instruction_extends hi).trans (lines_extend h)).constants.length_le
      exact ih (hd.instruction hi (by omega)) h

theorem lookup_of_suffix {literals all : List (Nat × Literal)} {offset : Nat} {literal : Literal}
    (hall : (all.map Prod.fst).Nodup) (h : (offset, literal) :: literals <:+ all) :
    all.lookup offset = some literal := by
  obtain ⟨later, rfl⟩ := h
  refine List.lookup_eq_some_iff.mpr ⟨later, literals, rfl, fun l hl => ?_⟩
  rw [List.map_append, List.nodup_append] at hall
  have hne := hall.2.2 l.1 (List.mem_map_of_mem hl) offset List.mem_cons_self
  simpa using Ne.symm hne

end Literals

section Entries

def listing (p : Program) (es : List Entry) : String :=
  String.join (es.map (p.listEntry false))

theorem listing_append (p : Program) (es es' : List Entry) :
    listing p (es ++ es') = listing p es ++ listing p es' := by
  rw [listing, List.map_append, String.join_append]
  rfl

theorem listing_inserted {p : Program} {es : List Entry}
    (h : ∀ e ∈ es, Program.isInserted e) : listing p es = "" := by
  induction es with
  | nil => rfl
  | cons e es ih =>
      obtain ⟨he, hes⟩ := List.forall_mem_cons.mp h
      rw [listing, List.map_cons, String.join_cons, Program.listEntry, if_neg Bool.false_ne_true,
        if_pos he]
      exact (String.empty_append).trans (ih hes)

theorem listing_singleton {p : Program} {e : Entry} (h : Program.isInserted e = false) :
    listing p [e] = p.describe e ++ "\n" := by
  simp only [listing, List.map_cons, List.map_nil, String.join_cons, String.join_nil,
    Program.listEntry, h, Bool.false_eq_true, if_false, String.append_empty]
  rfl

theorem describe_load {l : Location} {w : Variable} (hl : p.variableAt? l = some w) (k : Kind)
    (line : Nat) (inputs : List DataType) (output : Option DataType) :
    p.describe ⟨loadOpcode k l, line, inputs, output, none⟩ =
      (Postfix.Instruction.read w.name).text := by
  rcases l with offset | number | number <;>
    simp only [Program.describe, loadOpcode, Opcode.location?, Option.bind_some, hl] <;> rfl

theorem describe_store {l : Location} {w : Variable} (hl : p.variableAt? l = some w) (k : Kind)
    (line : Nat) (inputs : List DataType) (output : Option DataType) :
    p.describe ⟨storeOpcode k l, line, inputs, output, none⟩ =
      (Postfix.Instruction.write w.name).text := by
  rcases l with offset | number | number <;>
    simp only [Program.describe, storeOpcode, Opcode.location?, Option.bind_some, hl] <;> rfl

theorem describe_constant {offset : Nat} {typeName : Option String} {literal : String}
    (h : p.literals.lookup offset = some ⟨literal, typeName⟩) (k : Kind) (line : Nat)
    (inputs : List DataType) (output : Option DataType) :
    p.describe ⟨.loadConstant offset k, line, inputs, output, none⟩ =
      (Postfix.Instruction.const typeName literal).text := by
  cases typeName <;> simp only [Program.describe, h] <;> rfl

theorem describe_cast (j k : Kind) (line : Nat) (inputs : List DataType)
    (output : Option DataType) (typeName : String) :
    p.describe ⟨.cast j k 0 false, line, inputs, output, some typeName⟩ =
      (Postfix.Instruction.cast typeName).text := rfl

theorem describe_operation {kernel : Kernel} {r : Resolution} {xs ys rest : List Held} {x : Held}
    {opcode : Opcode} (h : Applies p kernel r rest xs ys x opcode) {name : String}
    {spelling : Option String} (hname : spelling.getD opcode.name = name) (line : Nat)
    (inputs : List DataType) (output : Option DataType) :
    p.describe ⟨opcode, line, inputs, output, spelling⟩ =
      (Postfix.Instruction.operator name).text ∧
      Program.isInserted ⟨opcode, line, inputs, output, spelling⟩ = false := by
  subst hname
  cases h <;> exact ⟨rfl, rfl⟩

theorem operator_spelling {name : String} (h : operator o line d name = .ok d') :
    ∃ es e, d'.code.toList = es ++ [e] ∧ e.spelling.getD e.opcode.name = name := by
  unfold operator at h
  split at h
  · cases h
  split at h
  · cases h
  obtain ⟨r, -, h⟩ := bind_eq_ok h
  obtain ⟨⟨opcode, d₁⟩, -, h⟩ := bind_eq_ok h
  rw [push_eq_ok h]
  refine ⟨d₁.code.toList, ⟨opcode, line, r.inputs, some r.output,
    if name = opcode.name then none else some name⟩, by simp [Draft.pushed, emit], ?_⟩
  dsimp only
  split
  · rename_i hname
    exact hname.symm
  · rfl

theorem Copies.isInserted {es : List Entry} (h : Copies es) : ∀ e ∈ es, Program.isInserted e := by
  intro e he
  obtain ⟨depth, target, hop⟩ := h e he
  simp only [Program.isInserted, hop]

theorem ConvertEntries.isInserted {x x' : Held} {t : DataType} {es : List Entry}
    (h : ConvertEntries p line x x' t es) : ∀ e ∈ es, Program.isInserted e := by
  rcases h with ⟨-, -, rfl⟩ | ⟨j, k, -, -, -, rfl⟩
  · exact fun e he => by cases he
  · exact List.forall_mem_singleton.mpr rfl

def AddsAt (line : Nat) (d d' : Draft) : Prop :=
  ∃ es, d'.code.toList = d.code.toList ++ es ∧
    ∀ e ∈ es, e.line = line ∧ (Program.isInserted e → e.spelling = none)

theorem instruction_addsAt {i : Postfix.Instruction} (h : instruction o line d i = .ok d') :
    d.AddsAt line d' := by
  obtain ⟨inserted, own, hcode, hinserted, hown⟩ := instruction_adds h
  refine ⟨_, hcode, List.forall_mem_append.mpr ⟨fun e he => ?_, List.forall_mem_singleton.mpr ?_⟩⟩
  · exact ⟨(hinserted e he).line_eq, fun _ => (hinserted e he).spelling_eq⟩
  · refine ⟨hown.line_eq, fun h => ?_⟩
    rw [hown.not_isInserted] at h
    cases h

end Entries

structure Findable (p : Program) : Prop where
  small : p.constants.size < 2 ^ 32
  names : p.vars.names.Nodup
  literals : (p.literals.map Prod.fst).Nodup

def Renders (p : Program) (line : Nat) (i : Postfix.Instruction) (es : List Entry) : Prop :=
  ∃ inserted own, es = inserted ++ [own] ∧ own.line = line ∧ p.describe own = i.text ∧
    Program.isInserted own = false ∧ ∀ e ∈ inserted, e.line = line ∧
      ((∃ j k depth, e.opcode = .cast j k depth true ∧ p.describe e = "CAST " ++ k.name) ∨
        ∃ depth target, e.opcode = .copyMatrix depth target ∧ p.describe e = "COPY")

theorem describe_inserted {e : Entry} (h : Program.isInserted e) (hspelling : e.spelling = none) :
    (∃ j k depth, e.opcode = .cast j k depth true ∧ p.describe e = "CAST " ++ k.name) ∨
      ∃ depth target, e.opcode = .copyMatrix depth target ∧ p.describe e = "COPY" := by
  obtain ⟨opcode, line, inputs, output, spelling⟩ := e
  obtain rfl : spelling = none := hspelling
  cases opcode with
  | cast j k depth implicit =>
      obtain rfl : implicit = true := h
      exact .inl ⟨j, k, depth, rfl, rfl⟩
  | copyMatrix depth target => exact .inr ⟨depth, target, rfl, rfl⟩
  | _ => cases h

theorem Renders.of_addsAt {i : Postfix.Instruction} {inserted : List Entry} {own : Entry}
    (hcode : d'.code.toList = d.code.toList ++ (inserted ++ [own])) (h : AddsAt line d d')
    (hinserted : ∀ e ∈ inserted, Program.isInserted e) (hown : Program.isInserted own = false)
    (htext : p.describe own = i.text) : Renders p line i (inserted ++ [own]) := by
  obtain ⟨es, hes, hlines⟩ := h
  obtain rfl := List.append_cancel_left (hes.symm.trans hcode)
  obtain ⟨hlines, hlast⟩ := List.forall_mem_append.mp hlines
  refine ⟨inserted, own, rfl, (hlast own List.mem_cons_self).1, htext, hown, fun e he => ?_⟩
  obtain ⟨hline, hspelling⟩ := hlines e he
  exact ⟨hline, describe_inserted (hinserted e he) (hspelling (hinserted e he))⟩

theorem Renders.listing_eq {i : Postfix.Instruction} {es : List Entry}
    (h : Renders p line i es) : listing p es = i.text ++ "\n" := by
  obtain ⟨inserted, own, rfl, -, htext, hown, hinserted⟩ := h
  have hnone : listing p inserted = "" := listing_inserted fun e he => by
    rcases (hinserted e he).2 with ⟨j, k, depth, hop, -⟩ | ⟨depth, target, hop, -⟩ <;>
      simp only [Program.isInserted, hop]
  rw [listing_append, hnone, listing_singleton hown, htext, String.empty_append]

theorem instruction_rendered {i : Postfix.Instruction} (hp : Findable p) (hd : d.layout.Sound)
    (hslots : SlotsHold p d.layout d.stack.slots hs) (hdepth : hs.length ≤ d.maxDepth)
    (h : instruction o line d i = .ok d') (hlead : d'.Leads p)
    (hliterals : d'.literals <:+ p.literals) :
    ∃ es hs', d.Emits p d' hs es hs' ∧ Renders p line i es := by
  have hsound : p.layout.Sound :=
    Layout.Grows.sound hlead.layout ((instruction_extends h).layout.sound hd)
  have hadds := instruction_addsAt h
  have hnone (e : Entry) (he : e ∈ []) : Program.isInserted e := by cases he
  cases i with
  | read name =>
      obtain ⟨w, l, hw, hl, hemits⟩ := read_emits hd hslots hdepth h hlead
      obtain rfl := Variables.name_of_get? hw
      exact ⟨_, _, hemits, .of_addsAt hemits.code hadds hnone (Makes.load w.name ..).not_isInserted
        (describe_load (Program.variableAt?_eq_some hsound hp.names hw hl) ..)⟩
  | write name =>
      obtain ⟨w, l, x, x', rest, rest', casts, copies, -, hw, hl, hcasts, hcopies, -, -, hemits⟩ :=
        write_emits hd hslots hdepth h hlead
      obtain rfl := Variables.name_of_get? hw
      exact ⟨_, _, hemits, .of_addsAt hemits.code hadds
        (List.forall_mem_append.mpr ⟨hcasts.isInserted, hcopies.isInserted⟩)
        (Makes.store w.name ..).not_isInserted
        (describe_store (Program.variableAt?_eq_some hsound hp.names hw hl) ..)⟩
  | const typeName literal =>
      obtain ⟨k, x, -, -, -, hemits⟩ := const_emits hslots hdepth h hlead hp.small
      have hlookup : p.literals.lookup d.constants.size = some ⟨literal, typeName⟩ := by
        have hle : d.constants.size ≤ p.constants.size := by
          simpa using ((instruction_extends h).constants.trans hlead.constants).length_le
        have hsmall := hp.small
        have hoffset : d.constants.size % offsetLimit = d.constants.size :=
          Nat.mod_eq_of_lt (by simp only [offsetLimit]; omega)
        obtain ⟨k', x', -, -, rfl⟩ := const_eq_ok h
        have hlookup := lookup_of_suffix hp.literals hliterals
        rwa [hoffset] at hlookup
      exact ⟨_, _, hemits, .of_addsAt hemits.code hadds hnone rfl (describe_constant hlookup ..)⟩
  | cast typeName =>
      obtain ⟨t, x, x', rest, j, k, -, -, hemits, -⟩ := cast_emits hslots hdepth h
      exact ⟨_, _, hemits, .of_addsAt hemits.code hadds hnone rfl (describe_cast ..)⟩
  | operator name =>
      obtain ⟨kernel, r, xs, ys, x, rest, opcode, spelling, -, -, -, happlies, hemits⟩ :=
        operator_emits hd hslots hdepth h hlead
      obtain ⟨es, e, hcode, hname⟩ := operator_spelling h
      have hlast := hemits.code
      rw [hcode, ← List.append_assoc] at hlast
      obtain rfl : e = ⟨opcode, line, r.inputs, some r.output, spelling⟩ := by
        simpa using (List.append_inj_right' hlast rfl)
      obtain ⟨hdescribe, hinserted⟩ :=
        describe_operation happlies hname line r.inputs (some r.output)
      refine ⟨_, _, hemits, .of_addsAt hemits.code hadds (fun e he => ?_) hinserted hdescribe⟩
      obtain ⟨w, -, rfl⟩ := List.mem_map.mp he
      rfl

theorem lines_rendered {lines : List (Nat × Except Error Postfix.Instruction)}
    (hp : Findable p) (hd : Written p d hs) (h : lines.foldlM (Draft.line o) d = .ok d')
    (hlead : d'.Leads p) (hliterals : d'.literals <:+ p.literals) :
    ∃ ess, d'.code.toList = d.code.toList ++ ess.flatten ∧
      List.Forall₂ (fun l es => ∃ i, l.2 = .ok i ∧ Renders p (l.1 % lineLimit) i es) lines ess := by
  induction lines generalizing d hs with
  | nil =>
      obtain rfl := Except.ok.inj h
      exact ⟨[], (List.append_nil _).symm, .nil⟩
  | cons l lines ih =>
      rw [List.foldlM_cons] at h
      obtain ⟨d₁, hl, h⟩ := bind_eq_ok h
      obtain ⟨i, hi, hinstruction⟩ := line_eq_ok hl
      obtain ⟨es, hs₁, hemits, hrenders⟩ := instruction_rendered hp hd.sound hd.slots
        hd.admits.length_end_le hinstruction ((lines_extend h).leads hlead)
        ((lines_literals h).trans hliterals)
      obtain ⟨ess, hcode, hrest⟩ := ih (hd.emits (instruction_extends hinstruction) hemits) h
      refine ⟨es :: ess, ?_, .cons ⟨i, hi, hrenders⟩ hrest⟩
      rw [hcode, hemits.code, List.flatten_cons, List.append_assoc]

theorem listing_rendered {lines : List (Nat × Except Error Postfix.Instruction)}
    {code : List Postfix.Instruction} {ess : List (List Entry)}
    (hlines : lines.map Prod.snd = code.map .ok)
    (h : List.Forall₂ (fun l es => ∃ i, l.2 = .ok i ∧ Renders p (l.1 % lineLimit) i es) lines ess) :
    listing p ess.flatten = Postfix.text code := by
  induction h generalizing code with
  | nil =>
      obtain rfl := List.map_eq_nil_iff.mp hlines.symm
      rfl
  | @cons l es lines ess hl _ ih =>
      obtain ⟨i, code, rfl, hi, hrest⟩ := List.map_eq_cons_iff.mp hlines.symm
      obtain ⟨i', hi', hrenders⟩ := hl
      obtain rfl : i = i' := Except.ok.inj (hi.trans hi')
      rw [List.flatten_cons, listing_append, hrenders.listing_eq, ih hrest.symm, Postfix.text,
        Postfix.text, List.map_cons, String.join_cons]

end Draft

section Compile

variable {text : String} {vs : Variables} {o : CompileOptions} {p : Program}

theorem findable_of_compile (hvs : vs.Made) (h : compile text vs o = .ok p)
    (hsmall : p.constants.size < 2 ^ 32) : Draft.Findable p := by
  have hnames := nodup_names_of_compile hvs h
  obtain ⟨d, hd, hfinish⟩ := bind_eq_ok h
  obtain ⟨-, y, rfl, -⟩ := Draft.finish_eq_ok hfinish
  have hstart : (Draft.start vs).LiteralsApart := ⟨fun l hl => (by cases hl), List.nodup_nil⟩
  exact ⟨hsmall, hnames, (hstart.lines hd hsmall).nodup⟩

theorem rendered_of_compile (hvs : vs.Made) (h : compile text vs o = .ok p)
    (hsmall : p.constants.size < 2 ^ 32) :
    ∃ ess, p.code.toList = ess.flatten ∧ List.Forall₂ (fun l es => ∃ i, l.2 = .ok i ∧
      Draft.Renders p (l.1 % Draft.lineLimit) i es) (Postfix.instructions text) ess := by
  have hfindable := findable_of_compile hvs h hsmall
  obtain ⟨d, hd, -, hlead, hcode, -⟩ := compile_eq_ok h
  have hliterals : d.literals <:+ p.literals := by
    obtain ⟨d', hd', hfinish⟩ := bind_eq_ok h
    obtain rfl : d = d' := Except.ok.inj (hd.symm.trans hd')
    obtain ⟨-, y, rfl, -⟩ := Draft.finish_eq_ok hfinish
    exact List.suffix_rfl
  rw [← hcode]
  exact Draft.lines_rendered hfindable (Draft.written_start hvs.fresh) hd hlead hliterals

theorem decompile_eq_text {code : List Postfix.Instruction} (hvs : vs.Made)
    (hcode : (Postfix.instructions text).map Prod.snd = code.map .ok)
    (h : compile text vs o = .ok p) (hsmall : p.constants.size < 2 ^ 32) :
    p.decompile false = Postfix.text code := by
  obtain ⟨ess, hess, hrendered⟩ := rendered_of_compile hvs h hsmall
  rw [Program.decompile, hess]
  exact Draft.listing_rendered hcode hrendered

theorem decompile_of_compile [Infix.Lexicon] (hvs : vs.Made) (h : compile text vs o = .ok p)
    (hsmall : p.constants.size < 2 ^ 32) :
    p.decompile false = Postfix.normalized text ∧
      (∃ q, compile (p.decompile false) vs o = .ok q ∧ q.unlined = p.unlined) ∧
      ∀ formula, Infix.toPostfix formula = .ok text → p.decompile false = text := by
  obtain ⟨d, hd, -⟩ := compile_eq_ok h
  obtain ⟨code, hcode⟩ := Draft.lines_read hd
  obtain ⟨hnormalized, hplain⟩ := Postfix.normalized_eq_text hcode
  have hlisting := decompile_eq_text hvs hcode h hsmall
  refine ⟨hlisting.trans hnormalized.symm, ?_, fun formula hformula => ?_⟩
  · rw [hlisting]
    exact compile_unlined ((Postfix.map_snd_instructions_text hplain).trans hcode.symm) h
  · obtain ⟨as, -, rfl, hwords⟩ := Infix.toPostfix_eq_ok hformula
    rw [hlisting, ← hnormalized, Postfix.normalized_text hwords]

theorem decompile_add_char :
    ∃ vs p, vs.Made ∧
      compile "  READ\ta\n\nCONST int8 07\r\nADD\n CAST  char\nWRITE y" vs .default = .ok p ∧
      p.constants.size < 2 ^ 32 ∧
      p.decompile false = "READ a\nCONST int8 07\nADD\nCAST char\nWRITE y\n" ∧
      ∃ q, compile (p.decompile false) vs .default = .ok q ∧ q.unlined = p.unlined := by
  let u8 : Kind := .uint .w8
  let i8 : Kind := .int .w8
  let i16 : Kind := .int .w16
  let vs : Variables := ⟨[⟨"a", .scalar u8, none, none⟩], [.named "y"]⟩
  let p : Program := {
    vars := ⟨[⟨"a", .scalar u8, some (.variable 0), none⟩],
      [⟨"y", .scalar u8, some (.variable 1), none⟩]⟩
    constants := #[7]
    literals := [(0, ⟨"07", some "int8"⟩)]
    code := #[⟨.loadVariable 0 u8, 1, [], some (.scalar u8), none⟩,
      ⟨.loadConstant 0 i8, 3, [], some (.scalar i8), none⟩,
      ⟨.cast u8 i16 1 true, 4, [.scalar u8], some (.scalar i16), none⟩,
      ⟨.cast i8 i16 0 true, 4, [.scalar i8], some (.scalar i16), none⟩,
      ⟨.scalar (.arithmetic .sum) i16, 4, [.scalar i16, .scalar i16], some (.scalar i16),
        some "ADD"⟩,
      ⟨.cast i16 u8 0 false, 5, [.scalar i16], some (.scalar u8), some "char"⟩,
      ⟨.storeVariable 1 u8, 6, [.scalar u8], none, none⟩]
    matrices := #[]
    bindings := #[]
    sizes := ⟨1, 2, 7, 2⟩ }
  have hmade : vs.Made := by
    have hdiscover : Variables.discover
        "  READ\ta\n\nCONST int8 07\r\nADD\n CAST  char\nWRITE y" =
          .ok ⟨[.named "a"], [.named "y"]⟩ := by decide +kernel
    have hbind : Variables.bind ⟨[.named "a"], [.named "y"]⟩ "a" (.scalar u8) none = .ok vs := by
      decide +kernel
    exact ⟨_, _, hdiscover, .bind .refl hbind⟩
  have hlines : Postfix.instructions "  READ\ta\n\nCONST int8 07\r\nADD\n CAST  char\nWRITE y" =
      [(1, .ok (.read "a")), (3, .ok (.const (some "int8") "07")), (4, .ok (.operator "ADD")),
        (5, .ok (.cast "char")), (6, .ok (.write "y"))] := by decide +kernel
  have hcompile : compile "  READ\ta\n\nCONST int8 07\r\nADD\n CAST  char\nWRITE y" vs .default =
      .ok p := by
    rw [compile, hlines]
    rfl
  have hsmall : p.constants.size < 2 ^ 32 := by decide
  obtain ⟨htext, hagain, -⟩ := decompile_of_compile hmade hcompile hsmall
  have hplain : Postfix.normalized
      "  READ\ta\n\nCONST int8 07\r\nADD\n CAST  char\nWRITE y" =
        "READ a\nCONST int8 07\nADD\nCAST char\nWRITE y\n" := by decide +kernel
  exact ⟨vs, p, hmade, hcompile, hsmall, htext.trans hplain, hagain⟩

end Compile

end FormulaMachine
