import FormulaMachine.Proofs.Compiler.Origins
import FormulaMachine.Proofs.Compiler.Unbounded

namespace FormulaMachine

namespace Variables

variable {vs ws : Variables} {name : String} {t : DataType} {external : Option External}

def Given (vs : Variables) (name : String) (t : DataType) (external : Option External) : Prop :=
  ∃ ws ws' : Variables, ws.Made ∧ ws.bind name t external = .ok ws' ∧ ws'.Bound vs

theorem get?_bind (h : vs.bind name t external = .ok ws) :
    ∃ v, vs.get? name = some v ∧ v.type = .void ∧ t.isValid ∧ ∀ other, ws.get? other =
      if other = name then some ⟨name, t, v.location, external⟩ else vs.get? other := by
  obtain ⟨v, w, hv, hw, rfl⟩ := bind_eq_ok h
  obtain ⟨hvoid, hvalid, rfl, -⟩ := Variable.bind_eq_ok hw
  obtain rfl := name_of_get? hv
  exact ⟨v, hv, hvoid, hvalid, get?_set (v := ⟨v.name, t, v.location, external⟩) hv⟩

theorem Bound.get? (h : vs.Bound ws) {v : Variable} (hv : vs.get? name = some v)
    (ht : v.type ≠ .void) : ws.get? name = some v := by
  induction h with
  | refl => exact hv
  | @bind us us' other t external _ hbind ih =>
      obtain ⟨u, hu, hvoid, -, hget⟩ := get?_bind hbind
      rw [hget, if_neg, ih]
      rintro rfl
      obtain rfl := Option.some.inj (ih.symm.trans hu)
      exact ht hvoid

theorem Given.get? (h : vs.Given name t external) :
    ∃ v, vs.get? name = some v ∧ v.type = t ∧ v.external = external ∧ t ≠ .void := by
  obtain ⟨us, us', -, hbind, hbound⟩ := h
  obtain ⟨v, -, -, hvalid, hget⟩ := get?_bind hbind
  have ht : t ≠ .void := by
    rintro rfl
    cases hvalid
  exact ⟨_, hbound.get? ((hget name).trans (if_pos rfl)) ht, rfl, rfl, ht⟩

theorem Made.given (h : vs.Made) {v : Variable} (hv : vs.get? name = some v)
    (ht : v.type ≠ .void) : vs.Given name v.type v.external := by
  obtain ⟨text, vs₀, hdiscover, hbound⟩ := h
  induction hbound generalizing v with
  | refl =>
      have hnamed := unbound_discover hdiscover v (List.mem_of_find?_eq_some hv)
      rw [hnamed] at ht
      exact absurd rfl ht
  | @bind us us' other t external hus hbind ih =>
      obtain ⟨u, -, -, -, hget⟩ := get?_bind hbind
      rw [hget] at hv
      split at hv
      · rename_i hname
        subst hname
        obtain rfl := Option.some.inj hv
        exact ⟨us, us', ⟨text, vs₀, hdiscover, hus⟩, hbind, .refl⟩
      · obtain ⟨ws, ws', hmade, hws, hlater⟩ := ih hv ht
        exact ⟨ws, ws', hmade, hws, hlater.bind hbind⟩

end Variables

def Variable.Occupies (v : Variable) (b : Nat) : Prop :=
  ∃ offset k, v.location = some (.variable offset) ∧ v.type = .scalar k ∧
    offset ≤ b ∧ b < offset + k.size

namespace Layout

variable {y y' : Layout}

def Tiled (y : Layout) : Prop :=
  ∀ b < y.variablesSize, ∃ name v, y.vars.get? name = some v ∧ v.Occupies b

theorem Move.tiled (h : y.Move y') (ht : y.Tiled) : y'.Tiled := by
  intro b hb
  by_cases hold : b < y.variablesSize
  · obtain ⟨name, v, hv, offset, k, hl, htype, hb⟩ := ht b hold
    obtain ⟨w, hw, hbecomes⟩ := h.get?_after hv
    have hvoid : v.type ≠ .void := by simp [htype]
    exact ⟨name, w, hw, offset, k, hbecomes.placed _ hl, (hbecomes.typed hvoid).1.trans htype, hb⟩
  · cases h with
    | @scalar v k hget _ htype _ _ =>
        exact ⟨v.name, v.housed (.variable y.variablesSize), Variables.get?_set_self hget,
          y.variablesSize, k, rfl, htype, Nat.not_lt.mp hold, hb⟩
    | _ => exact absurd hb hold

theorem Grows.tiled (h : y.Grows y') (ht : y.Tiled) : y'.Tiled := by
  induction h with
  | refl => exact ht
  | tail _ hmove ih => exact hmove.tiled ih

end Layout

def Opcode.target? : Opcode → Option Nat
  | .matrix _ target | .copyMatrix _ target => some target
  | .loadConstant .. | .loadVariable .. | .loadExternal .. | .loadMatrix _ | .storeVariable .. |
    .storeExternal .. | .storeMatrix _ | .cast .. | .scalar .. => none

def makers (number : Nat) (es : List Entry) : Nat :=
  es.countP fun e => e.opcode.target? = some number

theorem makers_append (number : Nat) (es es' : List Entry) :
    makers number (es ++ es') = makers number es + makers number es' :=
  List.countP_append

theorem makers_eq_zero {es : List Entry} (h : ∀ e ∈ es, e.opcode.target? = none) (number : Nat) :
    makers number es = 0 := by
  refine List.countP_eq_zero.mpr fun e he => ?_
  simp [h e he]

namespace Layout

structure Settled (y : Layout) (es : List Entry) : Prop where
  once : ∀ number < y.matrices.size, ¬ y.Names number → makers number es = 1
  named : ∀ number, y.Names number → makers number es = 0
  later : ∀ number, y.matrices.size ≤ number → makers number es = 0

namespace Settled

variable {y y' : Layout} {es es' : List Entry}

theorem append (h : y.Settled es) (hes' : ∀ e ∈ es', e.opcode.target? = none) :
    y.Settled (es ++ es') := by
  have hsame (number : Nat) : makers number (es ++ es') = makers number es := by
    rw [makers_append, makers_eq_zero hes', Nat.add_zero]
  exact ⟨fun n hlt hn => (hsame n).trans (h.once n hlt hn),
    fun n hn => (hsame n).trans (h.named n hn), fun n hle => (hsame n).trans (h.later n hle)⟩

theorem assigns (h : y.Settled es) (hassigns : y.Assigns y') : y'.Settled es := by
  have hsize := hassigns.grows.matrices_size_le
  refine ⟨fun n hlt hn => ?_, fun n hn => ?_, fun n hle => h.later n (Nat.le_trans hsize hle)⟩
  · by_cases hold : n < y.matrices.size
    · exact h.once n hold fun hnames => hn ((hassigns.grows.names_iff hold).mpr hnames)
    · exact absurd (hassigns.named n (Nat.not_lt.mp hold) hlt) hn
  · by_cases hold : n < y.matrices.size
    · exact h.named n ((hassigns.grows.names_iff hold).mp hn)
    · exact h.later n (Nat.not_lt.mp hold)

theorem makes (h : y.Settled es) (hy : y.Sound) {e : Entry} (t : DataType)
    (he : e.opcode.target? = some y.matrices.size) :
    Layout.Settled { y with matrices := y.matrices.push ⟨t, none⟩ } (es ++ [e]) := by
  have hsize : (y.matrices.push ⟨t, none⟩).size = y.matrices.size + 1 := Array.size_push _
  have hother {number : Nat} (hne : number ≠ y.matrices.size) :
      makers number (es ++ [e]) = makers number es := by
    have hnone : makers number [e] = 0 := by simp [makers, he, hne.symm]
    rw [makers_append, hnone, Nat.add_zero]
  refine ⟨fun n hlt hn => ?_, fun n hn => ?_, fun n hle => ?_⟩
  · by_cases hold : n < y.matrices.size
    · exact (hother (Nat.ne_of_lt hold)).trans (h.once n hold hn)
    · obtain rfl : n = y.matrices.size := by
        have hlt : n < (y.matrices.push ⟨t, none⟩).size := hlt
        omega
      have hone : makers y.matrices.size [e] = 1 := by simp [makers, he]
      rw [makers_append, h.later _ (Nat.le_refl _), hone]
  · have hlt : n < y.matrices.size := hy.lt_of_names hn
    exact (hother (Nat.ne_of_lt hlt)).trans (h.named n hn)
  · have hle : (y.matrices.push ⟨t, none⟩).size ≤ n := hle
    have hlt : y.matrices.size < n := by omega
    exact (hother (Nat.ne_of_gt hlt)).trans (h.later n (Nat.le_of_lt hlt))

end Settled

end Layout

namespace Draft

variable {o : CompileOptions} {line : Nat} {d d' : Draft}

abbrev Settled (d : Draft) : Prop :=
  d.layout.Settled d.code.toList

theorem target?_loadOpcode (k : Kind) (l : Location) : (loadOpcode k l).target? = none := by
  cases l <;> rfl

theorem target?_storeOpcode (k : Kind) (l : Location) : (storeOpcode k l).target? = none := by
  cases l <;> rfl

theorem Settled.emit {opcode : Opcode} {inputs : List DataType} {output : Option DataType}
    {spelling : Option String} (h : d.Settled) (hop : opcode.target? = none) :
    (d.emit line opcode inputs output spelling).Settled := by
  have happend := h.append (List.forall_mem_singleton.mpr hop :
    ∀ e ∈ [(⟨opcode, line, inputs, output, spelling⟩ : Entry)], e.opcode.target? = none)
  rwa [← Array.toList_push] at happend

theorem Settled.make {opcode : Opcode} {inputs : List DataType} {output : Option DataType}
    {spelling : Option String} {t : DataType} (h : d.Settled) (hd : d.layout.Sound)
    (hop : opcode.target? = some d.matrices.size) :
    (({ d with matrices := d.matrices.push ⟨t, none⟩ } : Draft).emit line opcode inputs output
      spelling).Settled := by
  have hmakes := h.makes hd t (e := ⟨opcode, line, inputs, output, spelling⟩) hop
  rwa [← Array.toList_push] at hmakes

theorem detachSlots_settled {number depth : Nat} {slots slots' : List Slot} (hs : d.Settled)
    (hd : d.layout.Sound) (h : detachSlots line number depth slots d = .ok (slots', d')) :
    d'.Settled := by
  induction slots generalizing depth slots' d' with
  | nil =>
      obtain ⟨-, rfl⟩ := Prod.mk.inj (Except.ok.inj h)
      exact hs
  | cons s slots ih =>
      obtain ⟨slots₁, d₁, hrest, ⟨-, -, rfl⟩ | ⟨s', -, hslot, -⟩⟩ := detachSlots_cons_eq_ok h
      · exact ih hrest
      · obtain ⟨-, -, -, rfl⟩ := detachSlot_eq_ok hslot
        exact (ih hrest).make ((detachSlots_extends hrest).layout.sound hd) rfl

theorem Converts.settled {s t : DataType} (h : Converts line s t d d') (hs : d.Settled) :
    d'.Settled := by
  rcases h with ⟨-, rfl⟩ | ⟨j, k, -, -, rfl⟩
  · exact hs
  · exact hs.emit rfl

theorem write_settled {name : String} (hs : d.Settled) (hd : d.layout.Sound)
    (h : write line d name = .ok d') : d'.Settled := by
  obtain ⟨s, rest, v, w, l, y, d₁, d₂, -, -, -, -, hassigns, -, hconvert, hdetach, rfl⟩ :=
    write_eq_ok h
  have hstart : ((d.withStack (d.stack.drop 1)).withLayout y).Settled := hs.assigns hassigns
  have hs₁ : d₁.Settled := hconvert.settled hstart
  have hd₁ : d₁.layout.Sound := hconvert.extends.layout.sound (hassigns.grows.sound hd)
  refine Settled.emit ?_ (target?_storeOpcode _ l)
  rcases detachTarget_eq_ok hdetach with ⟨-, rfl⟩ | ⟨number, slots, d₃, -, hslots, rfl⟩
  · exact hs₁
  · have hs₃ : d₃.Settled := detachSlots_settled hs₁ hd₁ hslots
    exact hs₃

theorem operator_settled {name : String} (hs : d.Settled) (hd : d.layout.Sound)
    (h : operator o line d name = .ok d') : d'.Settled := by
  obtain ⟨kernel, r, opcode, d₁, spelling, -, -, -, hop, rfl⟩ := operator_eq_ok h
  obtain ⟨hcode, hlayout, -⟩ := foldl_widen line r.widenings d
  have hwidened : (r.widenings.foldl (widen line) d).Settled := by
    rw [Settled, hlayout, hcode]
    refine hs.append fun e he => ?_
    obtain ⟨w, -, rfl⟩ := List.mem_map.mp he
    rfl
  rcases operationOpcode_eq_ok hop with ⟨_, _, -, rfl, rfl⟩ | ⟨_, -, rfl, -, rfl⟩
  · exact hwidened.emit rfl
  · exact hwidened.make (hlayout ▸ hd) rfl

theorem instruction_settled {i : Postfix.Instruction} (hs : d.Settled) (hd : d.layout.Sound)
    (h : instruction o line d i = .ok d') : d'.Settled := by
  cases i with
  | read name =>
      obtain ⟨v, l, y, -, -, hassigns, -, rfl⟩ := read_eq_ok h
      have hy : (d.withLayout y).Settled := hs.assigns hassigns
      exact hy.emit (target?_loadOpcode _ l)
  | write name => exact write_settled hs hd h
  | const typeName literal =>
      obtain ⟨k, x, -, -, rfl⟩ := const_eq_ok h
      exact hs.emit rfl
  | cast typeName =>
      obtain ⟨t, s, rest, -, -, -, rfl⟩ := cast_eq_ok h
      exact hs.emit rfl
  | operator name => exact operator_settled hs hd h

theorem lines_settled {lines : List (Nat × Except Error Postfix.Instruction)} (hs : d.Settled)
    (hd : d.layout.Sound) (h : lines.foldlM (Draft.line o) d = .ok d') :
    d'.Settled ∧ d'.layout.Sound := by
  refine foldlM_invariant (P := fun d => d.Settled ∧ d.layout.Sound) (fun d₁ l d₂ hd₁ hl => ?_)
    ⟨hs, hd⟩ h
  obtain ⟨i, -, hi⟩ := line_eq_ok hl
  exact ⟨instruction_settled hd₁.1 hd₁.2 hi, (instruction_extends hi).layout.sound hd₁.2⟩

theorem settled_start (vs : Variables) : (start vs).Settled where
  once number hlt := absurd hlt (Nat.not_lt_zero number)
  named _ _ := rfl
  later _ _ := rfl

end Draft

def Opcode.Fits : Opcode → Prop
  | .loadVariable offset _ | .storeVariable offset _ => offset < 2 ^ 32
  | .loadExternal number _ | .storeExternal number _ | .loadMatrix number | .storeMatrix number |
    .matrix _ number | .copyMatrix _ number => number < 2 ^ 16
  | .loadConstant .. | .cast .. | .scalar .. => True

namespace Program

variable {p : Program} {hs hs' : List Held} {e : Entry} {text : String} {vs : Variables}
  {o : CompileOptions}

theorem Admits.target_eq {number : Nat} (h : p.Admits hs e hs')
    (ht : e.opcode.target? = some number) :
    p.Temporary number ∧ e.output = some (p.matrixType number) ∧ number < p.matrices.size := by
  cases h with
  | copyMatrix _ _ htarget htemp =>
      obtain rfl := Option.some.inj ht
      exact ⟨htemp, congrArg some htarget.symm, lt_of_matrixType htarget⟩
  | matrix hc htemp =>
      obtain rfl := Option.some.inj ht
      obtain ⟨k, rows, cols, -, htype⟩ := hc.target_type
      exact ⟨htemp, rfl, lt_of_matrixType htype⟩
  | _ => cases ht

theorem Admits.fits (hp : p.layout.Sound) (h : p.Admits hs e hs') : e.opcode.Fits := by
  have hmatrix {number : Nat} (hlt : number < p.matrices.size) : number < 2 ^ 16 :=
    Nat.lt_of_lt_of_le hlt hp.matricesFew
  have hbinding {number : Nat} (hlt : number < p.bindings.size) : number < 2 ^ 16 :=
    Nat.lt_of_lt_of_le hlt hp.bindingsFew
  have hvariable {offset : Nat} {k : Kind} (hle : offset + k.size ≤ p.sizes.variableBytes) :
      offset < 2 ^ 32 :=
    Nat.lt_of_le_of_lt (Nat.le_trans (Nat.le_add_right _ _) hle) hp.variablesSmall
  cases h with
  | loadVariable hle => exact hvariable hle
  | storeVariable hle => exact hvariable hle
  | loadExternal hlt => exact hbinding hlt
  | storeExternal hlt => exact hbinding hlt
  | loadMatrix ht => exact hmatrix (lt_of_matrixType ht)
  | storeMatrix _ ht => exact hmatrix (lt_of_matrixType ht)
  | copyMatrix _ _ ht => exact hmatrix (lt_of_matrixType ht)
  | matrix hc _ _ =>
      obtain ⟨k, rows, cols, -, ht⟩ := hc.target_type
      exact hmatrix (lt_of_matrixType ht)
  | _ => trivial

structure LaidOut (p : Program) (text : String) (vs : Variables) : Prop where
  names : vs.SameNames p.vars
  given : ∀ name t external, vs.Given name t external →
    ∃ v, p.vars.get? name = some v ∧ v.type = t ∧ v.external = external
  bound : ∀ v ∈ p.vars.outputs ++ p.vars.inputs, ∀ x, v.external = some x →
    vs.Given v.name v.type (some x)
  placed : ∀ v ∈ p.vars.outputs ++ p.vars.inputs, ∃ l, v.location = some l ∧ p.layout.Keeps v l
  apart : (p.vars.outputs ++ p.vars.inputs).Pairwise Variable.Apart
  tiled : ∀ b, b < p.sizes.variableBytes ↔ ∃ v ∈ p.vars.outputs ++ p.vars.inputs, v.Occupies b
  owned : ∀ number slot, p.matrices[number]? = some slot →
    (∀ v ∈ p.vars.outputs ++ p.vars.inputs, v.location ≠ some (.matrix number)) →
    slot.external = none ∧ makers number p.code.toList = 1
  accesses : p.Accesses p.code.toList (Postfix.accesses (Postfix.instructions text))
  targets : ∀ e ∈ p.code.toList, ∀ number, e.opcode.target? = some number →
    p.Temporary number ∧ e.output = some (p.matrixType number) ∧ number < p.matrices.size
  fits : ∀ e ∈ p.code.toList, e.opcode.Fits

theorem settled_of_compile (hvs : vs.Fresh) (h : compile text vs o = .ok p) :
    p.layout.Settled p.code.toList := by
  obtain ⟨d, hd, hfinish⟩ := bind_eq_ok h
  obtain ⟨-, y, rfl, hassigns, -⟩ := Draft.finish_eq_ok hfinish
  have hs := (Draft.lines_settled (Draft.settled_start vs) (Layout.sound_start hvs) hd).1
  exact hs.assigns hassigns

theorem given_of_compile (h : compile text vs o = .ok p) {name : String} {t : DataType}
    {external : Option External} (hgiven : vs.Given name t external) :
    ∃ v, p.vars.get? name = some v ∧ v.type = t ∧ v.external = external := by
  obtain ⟨v, hv, rfl, rfl, ht⟩ := hgiven.get?
  obtain ⟨w, hw, hbecomes⟩ := (grows_of_compile h).get?_after hv
  exact ⟨w, hw, hbecomes.typed ht⟩

theorem external_of_compile (hvs : vs.Made) (h : compile text vs o = .ok p) {name : String}
    {v : Variable} (hv : p.vars.get? name = some v) {x : External} (hx : v.external = some x) :
    vs.Given name v.type (some x) := by
  obtain ⟨u, hu, hbecomes⟩ := (grows_of_compile h).becomes_before hv
  obtain ⟨hux, htype⟩ := hbecomes.bound x hx
  have ht : u.type ≠ .void := by
    intro hvoid
    rw [(hvs.fresh _ u hu).void hvoid] at hux
    cases hux
  have hgiven := hvs.given hu ht
  rwa [hux, ← htype] at hgiven

section Sound

variable (hp : p.layout.Sound) (hnames : p.vars.names.Nodup)

include hp hnames

theorem pairwise_apart : (p.vars.outputs ++ p.vars.inputs).Pairwise Variable.Apart := by
  have hne : (p.vars.outputs ++ p.vars.inputs).Pairwise fun v w => v.name ≠ w.name :=
    List.pairwise_map.mp hnames
  refine hne.imp_of_mem fun {v w} hv hw hvw => ?_
  exact hp.apart v.name w.name v w hvw (Variables.get?_of_mem hnames hv)
    (Variables.get?_of_mem hnames hw)

theorem lt_variableBytes_iff (ht : p.layout.Tiled) (b : Nat) :
    b < p.sizes.variableBytes ↔ ∃ v ∈ p.vars.outputs ++ p.vars.inputs, v.Occupies b := by
  constructor
  · intro hb
    obtain ⟨name, v, hv, hbyte⟩ := ht b hb
    exact ⟨v, List.mem_of_find?_eq_some hv, hbyte⟩
  · rintro ⟨v, hv, offset, k, hl, htype, -, hb⟩
    obtain ⟨j, hj, -, hsize⟩ := (hp.houses _ v (Variables.get?_of_mem hnames hv)).keeps _ hl
    obtain rfl := DataType.scalar.inj (htype.symm.trans hj)
    exact Nat.lt_of_lt_of_le hb hsize

end Sound

theorem owned_of_unnamed (hp : p.layout.Sound) (hsettled : p.layout.Settled p.code.toList)
    {number : Nat} {slot : MatrixSlot} (hslot : p.matrices[number]? = some slot)
    (hnot : ∀ v ∈ p.vars.outputs ++ p.vars.inputs, v.location ≠ some (.matrix number)) :
    slot.external = none ∧ makers number p.code.toList = 1 := by
  have hunnamed : ¬ p.layout.Names number := by
    rintro ⟨name, v, hv, hl⟩
    exact hnot v (List.mem_of_find?_eq_some hv) hl
  refine ⟨?_, hsettled.once number (Array.getElem?_eq_some_iff.mp hslot).1 hunnamed⟩
  cases hx : slot.external with
  | none => rfl
  | some x => exact absurd (hp.matrixOwner number slot x hslot hx) hunnamed

theorem laidOut_of_compile (hvs : vs.Made) (h : compile text vs o = .ok p) :
    p.LaidOut text vs := by
  have hp := compile_sound hvs.fresh h
  have hgrows := grows_of_compile h
  have hnames := nodup_names_of_compile hvs h
  have htiled : p.layout.Tiled := hgrows.tiled fun b hb => absurd hb (Nat.not_lt_zero b)
  exact {
    names := hgrows.sameNames
    given := fun _ _ _ hgiven => given_of_compile h hgiven
    bound := fun v hv _ hx => external_of_compile hvs h (Variables.get?_of_mem hnames hv) hx
    placed := fun v hv => by
      have hget := Variables.get?_of_mem hnames hv
      obtain ⟨-, l, hl⟩ := hp.homes _ v hget
      exact ⟨l, hl, (hp.layout.houses _ v hget).keeps l hl⟩
    apart := pairwise_apart hp.layout hnames
    tiled := lt_variableBytes_iff hp.layout hnames htiled
    owned := fun _ _ hslot hnot =>
      owned_of_unnamed hp.layout (settled_of_compile hvs.fresh h) hslot hnot
    accesses := accesses_of_compile hvs.fresh h
    targets := fun e he number ht => by
      obtain ⟨hs₁, hs₂, hadmits⟩ := hp.admits.admits_of_mem he
      exact hadmits.target_eq ht
    fits := fun e he => by
      obtain ⟨hs₁, hs₂, hadmits⟩ := hp.admits.admits_of_mem he
      exact hadmits.fits hp.layout }

theorem compile_lays_out (hvs : vs.Made) (text : String) (o : CompileOptions) :
    (∀ p, compile text vs o = .ok p → p.LaidOut text vs) ∧
      (∀ p, compile text vs o = .ok p ↔
        Unbounded.compile text vs o = .ok p ∧ p.demand.InBounds) ∧
      ∀ p, Unbounded.compile text vs o = .ok p → ¬ p.demand.InBounds →
        ∃ e, compile text vs o = .error e ∧ e.code = "allocation_failed" := by
  have hlimits := compile_limits text vs o
  have hstart := inBounds_start vs
  refine ⟨fun p h => ?_, fun p => ?_, fun p h hbeyond => ?_⟩
  · exact laidOut_of_compile hvs h
  · exact hlimits.eq_ok_iff hstart p
  · exact hlimits.eq_error hstart h hbeyond

theorem compile_lays_out_copies :
    ∃ vs p, vs.Made ∧
      compile "READ B\nREAD A\nWRITE B\nREAD A\nSUM\nWRITE C\nREAD x\nWRITE y\n" vs .default =
        .ok p ∧
      p.LaidOut "READ B\nREAD A\nWRITE B\nREAD A\nSUM\nWRITE C\nREAD x\nWRITE y\n" vs ∧
      p.demand.InBounds ∧ p.demand = ⟨5, 1, 1⟩ := by
  let row : DataType := .matrix .float64 1 2
  let x : External := ⟨⟨0, 3⟩, 0⟩
  let x' : External := ⟨⟨0, 3⟩, 2⟩
  let i8 : Kind := .int .w8
  let vs : Variables := ⟨[⟨"A", row, none, some x⟩, ⟨"x", .scalar i8, none, some x'⟩],
    [⟨"B", row, none, none⟩, .named "C", .named "y"]⟩
  let p : Program := {
    vars := ⟨[⟨"A", row, some (.matrix 1), some x⟩, ⟨"x", .scalar i8, some (.external 0), some x'⟩],
      [⟨"B", row, some (.matrix 0), none⟩, ⟨"C", row, some (.matrix 4), none⟩,
        ⟨"y", .scalar i8, some (.variable 0), none⟩]⟩
    constants := #[]
    literals := []
    code := #[⟨.loadMatrix 0, 1, [], some row, none⟩, ⟨.loadMatrix 1, 2, [], some row, none⟩,
      ⟨.copyMatrix 1 2, 3, [row], some row, none⟩, ⟨.storeMatrix 0, 3, [row], none, none⟩,
      ⟨.loadMatrix 1, 4, [], some row, none⟩, ⟨.matrix .sum 3, 5, [row, row], some row, none⟩,
      ⟨.storeMatrix 4, 6, [row], none, none⟩,
      ⟨.loadExternal 0 i8, 7, [], some (.scalar i8), none⟩,
      ⟨.storeVariable 0 i8, 8, [.scalar i8], none, none⟩]
    matrices := #[⟨row, none⟩, ⟨row, some x⟩, ⟨row, none⟩, ⟨row, none⟩, ⟨row, none⟩]
    bindings := #[x']
    sizes := ⟨0, 1, 9, 2⟩ }
  have hmade : vs.Made := by
    have hdiscover : Variables.discover
        "READ B\nREAD A\nWRITE B\nREAD A\nSUM\nWRITE C\nREAD x\nWRITE y\n" =
        .ok ⟨[.named "A", .named "x"], [.named "B", .named "C", .named "y"]⟩ := by decide +kernel
    have hA : Variables.bind ⟨[.named "A", .named "x"], [.named "B", .named "C", .named "y"]⟩ "A"
        row (some x) = .ok ⟨[⟨"A", row, none, some x⟩, .named "x"],
          [.named "B", .named "C", .named "y"]⟩ := by decide +kernel
    have hB : Variables.bind ⟨[⟨"A", row, none, some x⟩, .named "x"],
        [.named "B", .named "C", .named "y"]⟩ "B" row none =
          .ok ⟨[⟨"A", row, none, some x⟩, .named "x"],
            [⟨"B", row, none, none⟩, .named "C", .named "y"]⟩ := by decide +kernel
    have hx : Variables.bind ⟨[⟨"A", row, none, some x⟩, .named "x"],
        [⟨"B", row, none, none⟩, .named "C", .named "y"]⟩ "x" (.scalar i8) (some x') =
          .ok vs := by decide +kernel
    exact ⟨_, _, hdiscover, .bind (.bind (.bind .refl hA) hB) hx⟩
  have hcompile : compile "READ B\nREAD A\nWRITE B\nREAD A\nSUM\nWRITE C\nREAD x\nWRITE y\n" vs
      .default = .ok p := by decide +kernel
  obtain ⟨hlaid, hbounds, -⟩ := compile_lays_out hmade
    "READ B\nREAD A\nWRITE B\nREAD A\nSUM\nWRITE C\nREAD x\nWRITE y\n" .default
  exact ⟨vs, p, hmade, hcompile, hlaid p hcompile, ((hbounds p).mp hcompile).2, rfl⟩

end Program

end FormulaMachine
