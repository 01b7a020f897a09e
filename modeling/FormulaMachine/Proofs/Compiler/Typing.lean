import FormulaMachine.Proofs.Compiler.Growth
import FormulaMachine.Proofs.Compiler.Resolution
import FormulaMachine.Proofs.Machine.Memory
import FormulaMachine.Proofs.Program.Typing
import Mathlib.Data.List.Forall2

namespace FormulaMachine

structure Draft.Leads (d : Draft) (p : Program) : Prop where
  code : d.code.toList <+: p.code.toList
  constants : d.constants.toList <+: p.constants.toList
  layout : d.layout.Grows p.layout
  maxDepth : d.maxDepth ≤ p.sizes.maxStackDepth

theorem Draft.Extends.leads {d d' : Draft} {p : Program} (h : d.Extends d') (hp : d'.Leads p) :
    d.Leads p :=
  ⟨h.code.trans hp.code, h.constants.trans hp.constants, h.layout.trans hp.layout,
    Nat.le_trans h.maxDepth hp.maxDepth⟩

inductive SlotHolds (p : Program) (y : Layout) : Slot → Held → Prop
  | scalar (k : Kind) : SlotHolds p y ⟨.scalar k, none⟩ (.scalar k)
  | named {number k rows cols} (ht : p.matrixType number = .matrix k rows cols)
      (hnames : y.Names number) (hlt : number < y.matrices.size) :
      SlotHolds p y ⟨.matrix k rows cols, some number⟩ (.matrix number)
  | temporary {number k rows cols} (ht : p.matrixType number = .matrix k rows cols)
      (hnames : ¬ y.Names number) (hlt : number < y.matrices.size) :
      SlotHolds p y ⟨.matrix k rows cols, none⟩ (.matrix number)

namespace SlotHolds

variable {p : Program} {y y' : Layout} {s : Slot} {h : Held}

theorem grows (hs : SlotHolds p y s h) (hy : y.Grows y') : SlotHolds p y' s h := by
  cases hs with
  | scalar k => exact .scalar k
  | named ht hnames hlt =>
      exact .named ht ((hy.names_iff hlt).mpr hnames)
        (Nat.lt_of_lt_of_le hlt hy.matrices_size_le)
  | temporary ht hnames hlt =>
      exact .temporary ht (fun hn => hnames ((hy.names_iff hlt).mp hn))
        (Nat.lt_of_lt_of_le hlt hy.matrices_size_le)

theorem type_eq (hs : SlotHolds p y s h) : s.type = p.heldType h := by
  cases hs with
  | scalar k => rfl
  | named ht => exact ht.symm
  | temporary ht => exact ht.symm

theorem number_lt {number : Nat} (hs : SlotHolds p y s (.matrix number)) :
    number < y.matrices.size := by
  cases hs <;> assumption

theorem eq_scalar {k : Kind} (hs : SlotHolds p y s h) (ht : s.type = .scalar k) :
    s = ⟨.scalar k, none⟩ ∧ h = .scalar k := by
  cases hs with
  | scalar j =>
      obtain rfl : j = k := DataType.scalar.inj ht
      exact ⟨rfl, rfl⟩
  | named => cases ht
  | temporary => cases ht

theorem eq_matrix {k : Kind} {rows cols : Nat} (hs : SlotHolds p y s h)
    (ht : s.type = .matrix k rows cols) :
    ∃ number, h = .matrix number ∧ p.matrixType number = .matrix k rows cols := by
  cases hs with
  | scalar => cases ht
  | named hm => exact ⟨_, rfl, hm.trans ht⟩
  | temporary hm => exact ⟨_, rfl, hm.trans ht⟩

end SlotHolds

abbrev SlotsHold (p : Program) (y : Layout) : List Slot → List Held → Prop :=
  List.Forall₂ (SlotHolds p y)

namespace SlotsHold

variable {p : Program} {y y' : Layout} {slots : List Slot} {hs : List Held}

theorem grows (h : SlotsHold p y slots hs) (hy : y.Grows y') : SlotsHold p y' slots hs :=
  h.imp fun _ _ hs => hs.grows hy

theorem number_lt (h : SlotsHold p y slots hs) {number : Nat} (hmem : .matrix number ∈ hs) :
    number < y.matrices.size := by
  induction h with
  | nil => cases hmem
  | cons hs _ ih =>
      rcases List.mem_cons.mp hmem with rfl | hmem
      · exact hs.number_lt
      · exact ih hmem

end SlotsHold

namespace Layout

variable {y : Layout} {p : Program}

theorem Grows.matrixType_eq (h : y.Grows p.layout) {number : Nat} {slot : MatrixSlot}
    (hslot : y.matrices[number]? = some slot) : p.matrixType number = slot.type := by
  have hp : p.matrices[number]? = some slot := h.matrices_getElem? hslot
  rw [Program.matrixType, hp, Option.map_some, Option.getD_some]

theorem Keeps.eq_matrix {v : Variable} {number : Nat} (h : y.Keeps v (.matrix number))
    (hy : y.Grows p.layout) : ∃ k rows cols, v.type = .matrix k rows cols ∧
      p.matrixType number = .matrix k rows cols := by
  obtain ⟨k, rows, cols, ht⟩ := DataType.eq_matrix_of_isMatrix h.1
  exact ⟨k, rows, cols, ht, (hy.matrixType_eq h.2).trans ht⟩

theorem Sound.temporary (hy : y.Sound) {t : DataType}
    (h : Grows { y with matrices := y.matrices.push ⟨t, none⟩ } p.layout) :
    p.Temporary y.matrices.size ∧ p.matrixType y.matrices.size = t := by
  have hslot : (y.matrices.push ⟨t, none⟩)[y.matrices.size]? = some ⟨t, none⟩ :=
    Array.getElem?_push_size
  have hp : p.matrices[y.matrices.size]? = some ⟨t, none⟩ := h.matrices_getElem? hslot
  refine ⟨⟨by rw [Program.matrixExternal?, hp]; rfl, fun name w hw hloc => ?_⟩,
    h.matrixType_eq hslot⟩
  have hlt : y.matrices.size < (y.matrices.push ⟨t, none⟩).size := by simp
  obtain ⟨v, hv, hl⟩ := h.get?_before hw hloc hlt
  exact Nat.lt_irrefl _ (hy.lt_of_names ⟨name, v, hv, hl⟩)

end Layout

def Held.HasType (p : Program) : Held → DataType → Prop
  | .scalar k, t => t = .scalar k
  | .matrix number, t => p.matrixType number = t ∧ t.isMatrix

namespace Held.HasType

variable {p : Program} {x : Held}

theorem eq_scalar {k : Kind} (h : x.HasType p (.scalar k)) : x = .scalar k := by
  cases x with
  | scalar j =>
      obtain rfl : k = j := DataType.scalar.inj h
      rfl
  | matrix number => cases h.2

theorem eq_matrix {k : Kind} {rows cols : Nat} (h : x.HasType p (.matrix k rows cols)) :
    ∃ number, x = .matrix number ∧ p.matrixType number = .matrix k rows cols := by
  cases x with
  | scalar j => cases h
  | matrix number => exact ⟨number, rfl, h.1⟩

end Held.HasType

theorem SlotHolds.hasType {p : Program} {y : Layout} {s : Slot} {h : Held}
    (hs : SlotHolds p y s h) : h.HasType p s.type := by
  cases hs with
  | scalar k => rfl
  | named ht => exact ⟨ht, rfl⟩
  | temporary ht => exact ⟨ht, rfl⟩

def Location.held (t : DataType) : Location → Held
  | .matrix number => .matrix number
  | .variable _ | .external _ => .scalar (Draft.elementKind t)

section Storage

variable {p : Program} (hp : p.layout.Sound) {name : String} {w : Variable} {l : Location}
  (hw : p.vars.get? name = some w) (hl : w.location = some l)

include hp hw hl

theorem load_admits (hs : List Held) (line : Nat) (spelling : Option String) :
    p.Admits hs ⟨Draft.loadOpcode (Draft.elementKind w.type) l, line, [], some w.type, spelling⟩
      (l.held w.type :: hs) := by
  have hkeeps := (hp.houses name w hw).keeps l hl
  rcases l with offset | number | number
  · obtain ⟨k, ht, -, hsize⟩ := hkeeps
    rw [ht]
    exact .loadVariable hsize
  · obtain ⟨k, x, ht, -, hx⟩ := hkeeps
    rw [ht]
    exact .loadExternal (Array.getElem?_eq_some_iff.mp hx).1
  · obtain ⟨k, rows, cols, ht, hm⟩ := hkeeps.eq_matrix (p := p) .refl
    rw [ht]
    exact .loadMatrix hm

theorem store_admits {h : Held} {hs : List Held} (hh : h.HasType p w.type)
    (hfree : ∀ number, l = .matrix number → .matrix number ∉ hs) (line : Nat)
    (spelling : Option String) :
    p.Admits (h :: hs) ⟨Draft.storeOpcode (Draft.elementKind w.type) l, line, [w.type], none,
      spelling⟩ hs := by
  have hkeeps := (hp.houses name w hw).keeps l hl
  rcases l with offset | number | number
  · obtain ⟨k, ht, -, hsize⟩ := hkeeps
    rw [ht] at hh ⊢
    obtain rfl := hh.eq_scalar
    exact .storeVariable hsize
  · obtain ⟨k, x, ht, -, hx⟩ := hkeeps
    rw [ht] at hh ⊢
    obtain rfl := hh.eq_scalar
    exact .storeExternal (Array.getElem?_eq_some_iff.mp hx).1
  · obtain ⟨k, rows, cols, ht, hm⟩ := hkeeps.eq_matrix (p := p) .refl
    rw [ht] at hh ⊢
    obtain ⟨source, rfl, hsource⟩ := hh.eq_matrix
    exact .storeMatrix hsource hm (hfree number rfl)

end Storage

namespace Draft

structure Emits (p : Program) (d d' : Draft) (hs : List Held) (es : List Entry)
    (hs' : List Held) : Prop where
  code : d'.code.toList = d.code.toList ++ es
  admits : p.AdmitsAll d'.maxDepth hs es hs'
  slots : SlotsHold p d'.layout d'.stack.slots hs'
  depth : d'.maxDepth = d.maxDepth ∨ d'.maxDepth = hs'.length

variable {o : CompileOptions} {line : Nat} {d d' : Draft} {p : Program} {hs : List Held}

theorem Emits.pushed (d₁ : Draft) (stack : Stack Slot) {hs₀ hs₁ : List Held} {es : List Entry}
    {opcode : Opcode} {inputs : List DataType} {output : Option DataType}
    {spelling : Option String} {s : Slot} {h : Held}
    (hcode : d₁.code.toList = d.code.toList ++ es) (hmax : d₁.maxDepth = d.maxDepth)
    (hes : p.AdmitsAll d.maxDepth hs es hs₁)
    (he : p.Admits hs₁ ⟨opcode, line, inputs, output, spelling⟩ (h :: hs₀))
    (hstack : SlotsHold p d₁.layout stack.slots hs₀) (hslot : SlotHolds p d₁.layout s h) :
    d.Emits p (((d₁.emit line opcode inputs output spelling).withStack stack).pushed s)
      hs (es ++ [⟨opcode, line, inputs, output, spelling⟩]) (h :: hs₀) := by
  have hlen : stack.depth = hs₀.length := by rw [stack.depth_eq, hstack.length_eq]
  refine ⟨by simp [Draft.pushed, emit, withStack, hcode], ?_, .cons hslot hstack, ?_⟩
  · have hle : d.maxDepth ≤ max d₁.maxDepth (stack.depth + 1) := by omega
    refine (hes.mono hle).append (.single he (Nat.le_trans hes.length_end_le hle) ?_)
    rw [List.length_cons, ← hlen]
    exact Nat.le_max_right _ _
  · rw [List.length_cons, ← hlen, ← hmax]
    exact (Nat.le_total (stack.depth + 1) d₁.maxDepth).imp Nat.max_eq_left Nat.max_eq_right

theorem slotHolds_housed {y : Layout} (hy : y.Sound) (hlead : y.Grows p.layout) {name : String}
    {v : Variable} {l : Location} (hv : y.vars.get? name = some v) (hl : v.location = some l) :
    SlotHolds p y ⟨v.type, matrixNumber? l⟩ (l.held v.type) := by
  have hkeeps := (hy.houses name v hv).keeps l hl
  rcases l with offset | number | number
  · obtain ⟨k, ht, -, -⟩ := hkeeps
    rw [ht]
    exact .scalar k
  · obtain ⟨k, x, ht, -, -⟩ := hkeeps
    rw [ht]
    exact .scalar k
  · obtain ⟨k, rows, cols, ht, hm⟩ := hkeeps.eq_matrix hlead
    have hnames : y.Names number := ⟨name, v, hv, hl⟩
    rw [ht]
    exact .named hm hnames (hy.lt_of_names hnames)

theorem read_emits {name : String} (hd : d.layout.Sound)
    (hslots : SlotsHold p d.layout d.stack.slots hs) (hdepth : hs.length ≤ d.maxDepth)
    (h : read o line d name = .ok d') (hlead : d'.Leads p) :
    ∃ w l, p.vars.get? name = some w ∧ w.location = some l ∧
      d.Emits p d' hs [⟨loadOpcode (elementKind w.type) l, line, [], some w.type, none⟩]
        (l.held w.type :: hs) := by
  obtain ⟨v, l, y, hv, ht, ⟨hgrows, -⟩, hy, rfl⟩ := read_eq_ok h
  have hyp : y.Grows p.layout := hlead.layout
  obtain ⟨w, hw, hbecomes⟩ := hyp.get?_after hy
  obtain htype : w.type = v.type := (hbecomes.typed ht).1
  have hloc : w.location = some l := hbecomes.placed l rfl
  have hadmits := load_admits (hyp.sound (hgrows.sound hd)) hw hloc hs line none
  refine ⟨w, l, hw, hloc, ?_⟩
  rw [htype] at hadmits ⊢
  have hslot : SlotHolds p y ⟨v.type, matrixNumber? l⟩ (l.held v.type) :=
    slotHolds_housed (v := v.housed l) (hgrows.sound hd) hyp hy rfl
  exact Emits.pushed (d := d) (d.withLayout y) d.stack (List.append_nil _).symm rfl (.nil hdepth)
    hadmits (hslots.grows hgrows) hslot

theorem readBytes_append {xs : List Byte} {area : Array Byte} {offset : Nat}
    (h : xs <+: area.toList.drop offset) : readBytes area offset xs.length = xs := by
  induction xs generalizing offset with
  | nil => rfl
  | cons b xs ih =>
      obtain ⟨rest, hrest⟩ := h
      have hat : area.getD offset 0 = b := by
        have hget : area.toList[offset]? = some b := by
          rw [← Nat.add_zero offset, ← List.getElem?_drop, ← hrest]
          rfl
        rw [Array.getD_eq_getD_getElem?, ← Array.getElem?_toList, hget, Option.getD_some]
      have htail : xs <+: area.toList.drop (offset + 1) := by
        refine ⟨rest, ?_⟩
        rw [← List.drop_drop, ← hrest]
        rfl
      rw [List.length_cons, readBytes, hat, ih htail]

theorem const_emits_at {typeName : Option String} {literal : String}
    (hslots : SlotsHold p d.layout d.stack.slots hs) (hdepth : hs.length ≤ d.maxDepth)
    (h : const o line d typeName literal = .ok d') (hlead : d'.Leads p) :
    ∃ k x, literalKind o line typeName = .ok k ∧ Scalar.read? k literal.toList = some x ∧
      d.constants.toList ++ x.bytes <+: p.constants.toList ∧
      d.Emits p d' hs
        [⟨.loadConstant (d.constants.size % offsetLimit) k, line, [], some (.scalar k), none⟩]
        (.scalar k :: hs) := by
  obtain ⟨k, x, hk, hx, rfl⟩ := const_eq_ok h
  have hprefix : d.constants.toList ++ x.bytes <+: p.constants.toList := by
    simpa [Draft.pushed, emit, withConstant] using hlead.constants
  have hsize : d.constants.size + k.size ≤ p.constants.size := by
    simpa [x.length_bytes] using hprefix.length_le
  -- in a pool too large for its offsets the place is another, but it is one of the pool
  have hoffset : d.constants.size % offsetLimit ≤ d.constants.size := Nat.mod_le _ _
  exact ⟨k, x, hk, hx, hprefix, Emits.pushed (d := d) (d.withConstant x ⟨literal, typeName⟩)
    d.stack (List.append_nil _).symm rfl (.nil hdepth) (.loadConstant (by omega)) hslots
    (.scalar k)⟩

theorem const_emits {typeName : Option String} {literal : String}
    (hslots : SlotsHold p d.layout d.stack.slots hs) (hdepth : hs.length ≤ d.maxDepth)
    (h : const o line d typeName literal = .ok d') (hlead : d'.Leads p)
    (hsmall : p.constants.size < 2 ^ 32) :
    ∃ k x, literalKind o line typeName = .ok k ∧ Scalar.read? k literal.toList = some x ∧
      readBytes p.constants d.constants.size k.size = x.bytes ∧
      d.Emits p d' hs [⟨.loadConstant d.constants.size k, line, [], some (.scalar k), none⟩]
        (.scalar k :: hs) := by
  obtain ⟨k, x, hk, hx, hprefix, hemits⟩ := const_emits_at hslots hdepth h hlead
  have hsize : d.constants.size + k.size ≤ p.constants.size := by
    simpa [x.length_bytes] using hprefix.length_le
  have hoffset : d.constants.size % offsetLimit = d.constants.size :=
    Nat.mod_eq_of_lt (by simp only [offsetLimit]; omega)
  have hread : readBytes p.constants d.constants.size k.size = x.bytes := by
    obtain ⟨rest, hrest⟩ := hprefix
    rw [← x.length_bytes]
    refine readBytes_append ⟨rest, ?_⟩
    rw [← hrest, List.append_assoc, ← Array.length_toList, List.drop_left]
  rw [hoffset] at hemits
  exact ⟨k, x, hk, hx, hread, hemits⟩

theorem cast_emits {typeName : String} (hslots : SlotsHold p d.layout d.stack.slots hs)
    (hdepth : hs.length ≤ d.maxDepth) (h : cast o line d typeName = .ok d') :
    ∃ t x x' rest j k, DataType.read typeName = .ok t ∧ hs = x :: rest ∧
      d.Emits p d' hs [⟨.cast j k 0 false, line, [p.heldType x], some t, some typeName⟩]
        (x' :: rest) ∧
      ((x = .scalar j ∧ x' = .scalar k ∧ t = .scalar k) ∨
        ∃ number, x = .matrix number ∧ x' = x ∧ p.matrixType number = t ∧ j = k) := by
  obtain ⟨t, s, slots, ht, hs, hconverts, rfl⟩ := cast_eq_ok h
  rw [hs] at hslots
  cases hslots with
  | @cons _ x _ rest hx hrest =>
      have hstack : SlotsHold p d.layout (d.stack.drop 1).slots rest := by
        rw [Stack.slots_drop, hs]
        exact hrest
      have hcode : (d.withStack (d.stack.drop 1)).code.toList = d.code.toList ++ [] :=
        (List.append_nil _).symm
      have htype := hx.type_eq
      cases hx with
      | scalar j =>
          cases t with
          | void => cases hconverts
          | matrix => cases hconverts
          | scalar k =>
              refine ⟨_, _, .scalar k, rest, j, k, ht, rfl, ?_, .inl ⟨rfl, rfl, rfl⟩⟩
              exact Emits.pushed _ (d.stack.drop 1) hcode rfl (.nil hdepth) (.cast rfl) hstack
                (.scalar k)
      | @named number k rows cols hm hnames hlt =>
          obtain rfl : t = .matrix k rows cols := by simpa [DataType.convertsTo] using hconverts
          refine ⟨_, _, .matrix number, rest, k, k, ht, rfl, ?_, .inr ⟨number, rfl, rfl, hm, rfl⟩⟩
          rw [← htype]
          exact Emits.pushed _ (d.stack.drop 1) hcode rfl (.nil hdepth) (.keep hm) hstack
            (.named hm hnames hlt)
      | @temporary number k rows cols hm hnames hlt =>
          obtain rfl : t = .matrix k rows cols := by simpa [DataType.convertsTo] using hconverts
          refine ⟨_, _, .matrix number, rest, k, k, ht, rfl, ?_, .inr ⟨number, rfl, rfl, hm, rfl⟩⟩
          rw [← htype]
          exact Emits.pushed _ (d.stack.drop 1) hcode rfl (.nil hdepth) (.keep hm) hstack
            (.temporary hm hnames hlt)

end Draft

end FormulaMachine
