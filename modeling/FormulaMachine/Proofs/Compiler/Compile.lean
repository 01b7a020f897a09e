import FormulaMachine.Proofs.Compiler.Operators
import FormulaMachine.Proofs.Machine.Safety

namespace FormulaMachine

namespace Draft

variable {o : CompileOptions} {line : Nat} {d d' : Draft} {p : Program} {hs : List Held}

theorem instruction_emits {i : Postfix.Instruction} (hd : d.layout.Sound)
    (hslots : SlotsHold p d.layout d.stack.slots hs) (hdepth : hs.length ≤ d.maxDepth)
    (h : instruction o line d i = .ok d') (hlead : d'.Leads p) :
    ∃ es hs', d.Emits p d' hs es hs' := by
  cases i with
  | read name =>
      obtain ⟨w, l, -, -, hemits⟩ := read_emits hd hslots hdepth h hlead
      exact ⟨_, _, hemits⟩
  | write name =>
      obtain ⟨w, l, x, x', rest, rest', casts, copies, -, -, -, -, -, -, -, hemits⟩ :=
        write_emits hd hslots hdepth h hlead
      exact ⟨_, _, hemits⟩
  | const typeName literal =>
      obtain ⟨k, x, -, -, -, hemits⟩ := const_emits_at hslots hdepth h hlead
      exact ⟨_, _, hemits⟩
  | cast typeName =>
      obtain ⟨t, x, x', rest, j, k, -, -, hemits, -⟩ := cast_emits hslots hdepth h
      exact ⟨_, _, hemits⟩
  | operator name =>
      obtain ⟨kernel, r, xs, ys, x, rest, opcode, spelling, -, -, -, -, hemits⟩ :=
        operator_emits hd hslots hdepth h hlead
      exact ⟨_, _, hemits⟩

structure Written (p : Program) (d : Draft) (hs : List Held) : Prop where
  sound : d.layout.Sound
  admits : p.AdmitsAll d.maxDepth [] d.code.toList hs
  slots : SlotsHold p d.layout d.stack.slots hs
  reached : ∃ es₁ es₂ hs₁, d.code.toList = es₁ ++ es₂ ∧ p.AdmitsAll d.maxDepth [] es₁ hs₁ ∧
    hs₁.length = d.maxDepth

theorem written_start {vs : Variables} (hvs : vs.Fresh) : Written p (start vs) [] where
  sound := Layout.sound_start hvs
  admits := .nil (Nat.le_refl _)
  slots := .nil
  reached := ⟨[], [], [], rfl, .nil (Nat.le_refl _), rfl⟩

theorem Written.held_eq_nil (h : Written p d hs) (hslots : d.stack.slots = []) : hs = [] := by
  have hheld := h.slots
  rw [hslots] at hheld
  cases hheld
  rfl

theorem Written.emits {es : List Entry} {hs' : List Held} (h : Written p d hs)
    (hext : d.Extends d') (hemits : d.Emits p d' hs es hs') : Written p d' hs' := by
  have hadmits : p.AdmitsAll d'.maxDepth [] d'.code.toList hs' := by
    rw [hemits.code]
    exact (h.admits.mono hext.maxDepth).append hemits.admits
  refine ⟨hext.layout.sound h.sound, hadmits, hemits.slots, ?_⟩
  rcases hemits.depth with hsame | hend
  · obtain ⟨es₁, es₂, hs₁, hcode, hpre, hlen⟩ := h.reached
    refine ⟨es₁, es₂ ++ es, hs₁, ?_, hpre.mono hext.maxDepth, hlen.trans hsame.symm⟩
    rw [hemits.code, hcode, List.append_assoc]
  · exact ⟨_, [], hs', (List.append_nil _).symm, hadmits, hend.symm⟩

theorem line_eq_ok {l : Nat × Except Error Postfix.Instruction} (h : Draft.line o d l = .ok d') :
    ∃ i, l.2 = .ok i ∧ instruction o (l.1 % lineLimit) d i = .ok d' := by
  unfold Draft.line at h
  split at h
  · cases h
  · rename_i i hi
    exact ⟨i, hi, h⟩

theorem lines_extend {lines : List (Nat × Except Error Postfix.Instruction)}
    (h : lines.foldlM (Draft.line o) d = .ok d') : d.Extends d' := by
  refine foldlM_invariant (P := d.Extends) (fun d₁ l d₂ hd hl => ?_) (.refl d) h
  obtain ⟨i, -, hi⟩ := line_eq_ok hl
  exact hd.trans (instruction_extends hi)

theorem lines_read {lines : List (Nat × Except Error Postfix.Instruction)}
    (h : lines.foldlM (Draft.line o) d = .ok d') :
    ∃ code : List Postfix.Instruction, lines.map Prod.snd = code.map .ok := by
  induction lines generalizing d with
  | nil => exact ⟨[], rfl⟩
  | cons l lines ih =>
      rw [List.foldlM_cons] at h
      obtain ⟨d₁, hl, h⟩ := bind_eq_ok h
      obtain ⟨i, hi, -⟩ := line_eq_ok hl
      obtain ⟨code, hcode⟩ := ih h
      exact ⟨i :: code, by rw [List.map_cons, List.map_cons, hi, hcode]⟩

theorem Written.lines {lines : List (Nat × Except Error Postfix.Instruction)}
    (hd : Written p d hs) (h : lines.foldlM (Draft.line o) d = .ok d') (hlead : d'.Leads p) :
    ∃ hs', Written p d' hs' := by
  induction lines generalizing d hs with
  | nil =>
      obtain rfl : d = d' := Except.ok.inj h
      exact ⟨hs, hd⟩
  | cons l lines ih =>
      rw [List.foldlM_cons] at h
      obtain ⟨d₁, hl, h⟩ := bind_eq_ok h
      obtain ⟨i, -, hi⟩ := line_eq_ok hl
      obtain ⟨es, hs₁, hemits⟩ := instruction_emits hd.sound hd.slots hd.admits.length_end_le hi
        ((lines_extend h).leads hlead)
      exact ih (hd.emits (instruction_extends hi) hemits) h

theorem allocateUnused_eq_ok {name : String} (h : allocateUnused d name = .ok d') :
    ∃ y, d' = d.withLayout y ∧ d.layout.Assigns y ∧ ∀ v, d.vars.get? name = some v →
      v.type ≠ .void ∧ ∃ l, y.vars.get? name = some (v.housed l) := by
  unfold allocateUnused at h
  split at h
  · rename_i hnone
    obtain rfl := Except.ok.inj h
    exact ⟨d.layout, rfl, .refl _, fun v hv => by rw [hnone] at hv; cases hv⟩
  · rename_i v hv
    obtain rfl := Variables.name_of_get? hv
    split at h
    · cases h
    rename_i ht
    cases halloc : d.allocate v with
    | error e => simp [halloc, Except.map] at h
    | ok result =>
        obtain ⟨l, d₁⟩ := result
        rw [halloc] at h
        obtain rfl : d₁ = d' := Except.ok.inj h
        obtain ⟨y, rfl, hassigns, hy⟩ := allocate_eq_ok hv ht halloc
        refine ⟨y, rfl, hassigns, fun w hw => ?_⟩
        obtain rfl := Option.some.inj (hv.symm.trans hw)
        exact ⟨ht, l, hy⟩

theorem allocateUnused_all {xs : List String} (h : xs.foldlM allocateUnused d = .ok d') :
    ∃ y, d' = d.withLayout y ∧ d.layout.Assigns y ∧ ∀ name ∈ xs, ∀ w, y.vars.get? name = some w →
      w.type ≠ .void ∧ ∃ l, w.location = some l := by
  induction xs generalizing d with
  | nil =>
      obtain rfl : d = d' := Except.ok.inj h
      exact ⟨d.layout, rfl, .refl _, fun name hname => absurd hname List.not_mem_nil⟩
  | cons x xs ih =>
      rw [List.foldlM_cons] at h
      obtain ⟨d₁, hx, h⟩ := bind_eq_ok h
      obtain ⟨y₁, rfl, hassigns₁, hhome⟩ := allocateUnused_eq_ok hx
      obtain ⟨y, rfl, hassigns, hrest⟩ := ih h
      refine ⟨y, rfl, hassigns₁.trans hassigns, fun name hname w hw => ?_⟩
      rcases List.mem_cons.mp hname with rfl | hname
      · obtain ⟨v, hv, -⟩ := (hassigns₁.trans hassigns).grows.becomes_before hw
        obtain ⟨ht, l, hl⟩ := hhome v hv
        obtain ⟨u, hu, hbecomes⟩ := hassigns.grows.get?_after hl
        obtain rfl := Option.some.inj (hu.symm.trans hw)
        have htype : u.type = v.type := (hbecomes.typed ht).1
        exact ⟨htype ▸ ht, l, hbecomes.placed l rfl⟩
      · exact hrest name hname w hw

def program (d : Draft) : Program :=
  ⟨d.vars, d.constants, d.literals, d.code, d.matrices, d.bindings, d.sizes⟩

theorem mem_names {vs : Variables} {name : String} {v : Variable}
    (h : vs.get? name = some v) : name ∈ names vs := by
  have hmem := List.mem_of_find?_eq_some h
  refine List.mem_map.mpr ⟨v, ?_, Variables.name_of_get? h⟩
  simpa [or_comm] using hmem

theorem finish_eq_ok (h : d.finish = .ok p) :
    d.stack.slots = [] ∧ ∃ y, p = (d.withLayout y).program ∧ d.layout.Assigns y ∧
      ∀ name w, y.vars.get? name = some w → w.type ≠ .void ∧ ∃ l, w.location = some l := by
  unfold finish at h
  split at h
  · cases h
  split at h
  · cases h
  rename_i hslots
  cases hall : (names d.vars).foldlM allocateUnused d with
  | error e => simp [hall, Except.map] at h
  | ok d₁ =>
      rw [hall] at h
      obtain ⟨y, rfl, hassigns, hhomes⟩ := allocateUnused_all hall
      refine ⟨Decidable.not_not.mp hslots, y, (Except.ok.inj h).symm, hassigns, fun name w hw => ?_⟩
      obtain ⟨v, hv, -⟩ := hassigns.grows.becomes_before hw
      exact hhomes name (mem_names hv) w hw

end Draft

theorem Layout.Sound.inRange {p : Program} (hp : p.layout.Sound) : p.InRange where
  few := hp.matricesFew
  bindings x hx := by
    obtain ⟨number, hlt, hget⟩ := Array.mem_iff_getElem.mp hx
    have hnumber : p.bindings[number]? = some x := Array.getElem?_eq_some_iff.mpr ⟨hlt, hget⟩
    obtain ⟨name, v, hv, hloc⟩ := hp.bindingOwner number x hnumber
    have hhouses := hp.houses name v hv
    obtain ⟨k, x', ht, hx', hget'⟩ := hhouses.keeps _ hloc
    obtain rfl := Option.some.inj (hget'.symm.trans hnumber)
    have hrange := hhouses.range _ hx'
    rw [ht, DataType.length] at hrange
    omega
  matrices slot hslot x hx := by
    obtain ⟨number, hlt, hget⟩ := Array.mem_iff_getElem.mp hslot
    have hnumber : p.matrices[number]? = some slot :=
      Array.getElem?_eq_some_iff.mpr ⟨hlt, hget⟩
    obtain ⟨name, v, hv, hloc⟩ := hp.matrixOwner number slot x hnumber hx
    have hhouses := hp.houses name v hv
    have hkeeps := hhouses.keeps _ hloc
    obtain rfl := Option.some.inj (hkeeps.2.symm.trans hnumber)
    exact hhouses.range x hx

structure Program.Sound (p : Program) : Prop where
  layout : p.layout.Sound
  homes : ∀ name w, p.vars.get? name = some w → w.type ≠ .void ∧ ∃ l, w.location = some l
  admits : p.AdmitsAll p.sizes.maxStackDepth [] p.code.toList []
  reached : ∃ es₁ es₂ hs, p.code.toList = es₁ ++ es₂ ∧
    p.AdmitsAll p.sizes.maxStackDepth [] es₁ hs ∧ hs.length = p.sizes.maxStackDepth

section Compile

variable {text : String} {vs : Variables} {o : CompileOptions} {p : Program}

theorem compile_eq_ok (h : compile text vs o = .ok p) :
    ∃ d, (Postfix.instructions text).foldlM (Draft.line o) (Draft.start vs) = .ok d ∧
      d.stack.slots = [] ∧ d.Leads p ∧ d.code = p.code ∧ d.maxDepth = p.sizes.maxStackDepth ∧
      ∀ name w, p.vars.get? name = some w → w.type ≠ .void ∧ ∃ l, w.location = some l := by
  obtain ⟨d, hd, hfinish⟩ := bind_eq_ok h
  obtain ⟨hslots, y, rfl, ⟨hgrows, -⟩, hhomes⟩ := Draft.finish_eq_ok hfinish
  exact ⟨d, hd, hslots, ⟨List.prefix_rfl, List.prefix_rfl, hgrows, Nat.le_refl _⟩, rfl, rfl,
    hhomes⟩

theorem grows_of_compile (h : compile text vs o = .ok p) :
    (Draft.start vs).layout.Grows p.layout := by
  obtain ⟨d, hd, -, hlead, -⟩ := compile_eq_ok h
  exact ((Draft.lines_extend hd).leads hlead).layout

theorem compile_sound (hvs : vs.Fresh) (h : compile text vs o = .ok p) : p.Sound := by
  obtain ⟨d, hd, hslots, hlead, hcode, hmax, hhomes⟩ := compile_eq_ok h
  obtain ⟨hs, hw⟩ := (Draft.written_start hvs).lines hd hlead
  obtain rfl := hw.held_eq_nil hslots
  refine ⟨hlead.layout.sound hw.sound, hhomes, ?_, ?_⟩
  · rw [← hcode, ← hmax]
    exact hw.admits
  · rw [← hcode, ← hmax]
    exact hw.reached

theorem sound_of_compile (hvs : vs.Fresh) (h : compile text vs o = .ok p)
    (_ : p.constants.size < 2 ^ 32) : p.Sound :=
  compile_sound hvs h

theorem written_of_prefix (hvs : vs.Fresh) (h : compile text vs o = .ok p)
    {lines : List (Nat × Except Error Postfix.Instruction)}
    (hlines : lines <+: Postfix.instructions text) :
    ∃ d hs, lines.foldlM (Draft.line o) (Draft.start vs) = .ok d ∧ d.Leads p ∧
      Draft.Written p d hs := by
  obtain ⟨d, hd, -, hlead, -⟩ := compile_eq_ok h
  obtain ⟨rest, hrest⟩ := hlines
  rw [← hrest, List.foldlM_append] at hd
  obtain ⟨d₁, hd₁, hd⟩ := bind_eq_ok hd
  have hlead₁ := (Draft.lines_extend hd).leads hlead
  obtain ⟨hs, hw⟩ := (Draft.written_start hvs).lines hd₁ hlead₁
  exact ⟨d₁, hs, hd₁, hlead₁, hw⟩

theorem written_of_compile (hvs : vs.Fresh) (h : compile text vs o = .ok p)
    (_ : p.constants.size < 2 ^ 32) {lines : List (Nat × Except Error Postfix.Instruction)}
    (hlines : lines <+: Postfix.instructions text) :
    ∃ d hs, lines.foldlM (Draft.line o) (Draft.start vs) = .ok d ∧ d.Leads p ∧
      Draft.Written p d hs :=
  written_of_prefix hvs h hlines

end Compile

end FormulaMachine
