import FormulaMachine.Proofs.Compiler.Compile

namespace FormulaMachine

def Entry.unlined (e : Entry) : Entry :=
  { e with line := 0 }

def Relined (c c' : Array Entry) : Prop :=
  c.map Entry.unlined = c'.map Entry.unlined

namespace Relined

variable {c c' : Array Entry}

theorem push (h : Relined c c') (line line' : Nat) (opcode : Opcode) (inputs : List DataType)
    (output : Option DataType) (spelling : Option String) :
    Relined (c.push ⟨opcode, line, inputs, output, spelling⟩)
      (c'.push ⟨opcode, line', inputs, output, spelling⟩) := by
  rw [Relined, Array.map_push, Array.map_push, h]
  rfl

theorem size_eq (h : Relined c c') : c.size = c'.size := by
  simpa using congrArg Array.size h

end Relined

def Program.unlined (p : Program) : Program :=
  { p with code := p.code.map Entry.unlined }

namespace Draft

def withCode (d : Draft) (c : Array Entry) : Draft :=
  { d with code := c }

def Alike (d₁ d : Draft) : Prop :=
  ∃ c, Relined c d.code ∧ d₁ = d.withCode c

variable {o : CompileOptions} {line : Nat} {d d' d₁ : Draft}

theorem Alike.emit (h : d₁.Alike d) (line' line : Nat) (opcode : Opcode) (inputs : List DataType)
    (output : Option DataType) (spelling : Option String) :
    (d₁.emit line' opcode inputs output spelling).Alike
      (d.emit line opcode inputs output spelling) := by
  obtain ⟨c, hc, rfl⟩ := h
  exact ⟨_, hc.push line' line opcode inputs output spelling, rfl⟩

theorem push_alike (h : d₁.Alike d) {limit : Option Nat} {s : Slot}
    (hpush : d.push limit line s = .ok d') (line' : Nat) :
    ∃ d₁', d₁.push limit line' s = .ok d₁' ∧ d₁'.Alike d' := by
  obtain ⟨c, hc, rfl⟩ := h
  refine ⟨d'.withCode c, ?_, c, by rw [push_eq_ok hpush]; exact hc, rfl⟩
  unfold push at hpush ⊢
  dsimp only at hpush ⊢
  split at hpush
  · obtain rfl := Except.ok.inj hpush
    rfl
  · split at hpush
    · cases hpush
    · rename_i hlimit
      obtain rfl := Except.ok.inj hpush
      exact if_neg hlimit

theorem addMatrix_alike (h : d₁.Alike d) {t : DataType} {external : Option External}
    {number : Nat} (hadd : d.addMatrix t external = .ok (number, d')) :
    ∃ d₁', d₁.addMatrix t external = .ok (number, d₁') ∧ d₁'.Alike d' := by
  obtain ⟨c, hc, rfl⟩ := h
  obtain ⟨rfl, hroom, rfl⟩ := addMatrix_eq_ok hadd
  exact ⟨_, if_pos hroom, c, hc, rfl⟩

theorem allocate_alike (h : d₁.Alike d) {v : Variable} {l : Location}
    (halloc : d.allocate v = .ok (l, d')) :
    ∃ d₁', d₁.allocate v = .ok (l, d₁') ∧ d₁'.Alike d' := by
  have hdrafts := h
  obtain ⟨c, hc, rfl⟩ := h
  unfold allocate at halloc ⊢
  split at halloc
  · obtain ⟨rfl, rfl⟩ := Prod.mk.inj (Except.ok.inj halloc)
    exact ⟨_, rfl, hdrafts⟩
  split at halloc
  · rename_i hmatrix
    rw [if_pos hmatrix]
    split at halloc
    · cases halloc
    · rename_i hadd
      obtain ⟨rfl, rfl⟩ := Prod.mk.inj (Except.ok.inj halloc)
      obtain ⟨d₁', hadd', c', hc', rfl⟩ := addMatrix_alike hdrafts hadd
      rw [hadd']
      exact ⟨_, rfl, c', hc', rfl⟩
  · rename_i hmatrix
    rw [if_neg hmatrix]
    split at halloc
    · split at halloc
      · rename_i hroom
        obtain ⟨rfl, rfl⟩ := Prod.mk.inj (Except.ok.inj halloc)
        exact ⟨_, if_pos hroom, c, hc, rfl⟩
      · cases halloc
    · split at halloc
      · rename_i hroom
        obtain ⟨rfl, rfl⟩ := Prod.mk.inj (Except.ok.inj halloc)
        exact ⟨_, if_pos hroom, c, hc, rfl⟩
      · cases halloc

theorem read_alike (h : d₁.Alike d) {name : String} (hread : read o line d name = .ok d')
    (line' : Nat) : ∃ d₁', read o line' d₁ name = .ok d₁' ∧ d₁'.Alike d' := by
  unfold read at hread
  split at hread
  · cases hread
  rename_i v hv
  split at hread
  · cases hread
  rename_i ht
  split at hread
  · cases hread
  rename_i l d₂ halloc
  obtain ⟨d₃, halloc', hdrafts⟩ := allocate_alike h halloc
  obtain ⟨c, hc, rfl⟩ := h
  have hget : (d.withCode c).vars.get? name = some v := hv
  obtain ⟨d₁', hpush, hd'⟩ := push_alike (hdrafts.emit line' line _ _ _ _) hread line'
  refine ⟨d₁', ?_, hd'⟩
  unfold read
  simp only [hget, if_neg ht, halloc']
  exact hpush

theorem literalKind_alike {typeName : Option String} {k : Kind}
    (h : literalKind o line typeName = .ok k) (line' : Nat) :
    literalKind o line' typeName = .ok k := by
  unfold literalKind at h ⊢
  split at h
  · exact h
  · split at h
    · exact h
    · cases h

theorem const_alike (h : d₁.Alike d) {typeName : Option String} {literal : String}
    (hconst : const o line d typeName literal = .ok d') (line' : Nat) :
    ∃ d₁', const o line' d₁ typeName literal = .ok d₁' ∧ d₁'.Alike d' := by
  unfold const at hconst
  split at hconst
  · cases hconst
  rename_i k hk
  split at hconst
  · cases hconst
  rename_i x hx
  obtain ⟨c, hc, rfl⟩ := h
  have hdrafts : ((d.withConstant x ⟨literal, typeName⟩).withCode c).Alike
      (d.withConstant x ⟨literal, typeName⟩) := ⟨c, hc, rfl⟩
  obtain ⟨d₁', hpush, hd'⟩ := push_alike (hdrafts.emit line' line _ _ _ _) hconst line'
  refine ⟨d₁', ?_, hd'⟩
  unfold const
  simp only [literalKind_alike hk line', hx]
  exact hpush

theorem cast_alike (h : d₁.Alike d) {typeName : String} (hcast : cast o line d typeName = .ok d')
    (line' : Nat) : ∃ d₁', cast o line' d₁ typeName = .ok d₁' ∧ d₁'.Alike d' := by
  unfold cast at hcast
  split at hcast
  · cases hcast
  rename_i t ht
  split at hcast
  · cases hcast
  rename_i s rest hslots
  split at hcast
  · rename_i hconverts
    obtain ⟨c, hc, rfl⟩ := h
    have hdrafts : ((d.withStack (d.stack.drop 1)).withCode c).Alike
        (d.withStack (d.stack.drop 1)) := ⟨c, hc, rfl⟩
    obtain ⟨d₁', hpush, hd'⟩ := push_alike (hdrafts.emit line' line _ _ _ _) hcast line'
    refine ⟨d₁', ?_, hd'⟩
    have hslots' : (d.withCode c).stack.slots = s :: rest := hslots
    unfold cast
    simp only [ht, hslots', if_pos hconverts]
    exact hpush
  · cases hcast

theorem detachSlot_alike (h : d₁.Alike d) {depth : Nat} {s s' : Slot}
    (hdetach : detachSlot line depth s d = .ok (s', d')) (line' : Nat) :
    ∃ d₁', detachSlot line' depth s d₁ = .ok (s', d₁') ∧ d₁'.Alike d' := by
  unfold detachSlot at hdetach
  split at hdetach
  · cases hdetach
  rename_i hdepth
  split at hdetach
  · cases hdetach
  rename_i target d₂ hadd
  obtain ⟨rfl, rfl⟩ := Prod.mk.inj (Except.ok.inj hdetach)
  obtain ⟨d₃, hadd', hdrafts⟩ := addMatrix_alike h hadd
  refine ⟨_, ?_, hdrafts.emit line' line _ _ _ _⟩
  unfold detachSlot
  simp only [if_neg hdepth, hadd']

theorem detachSlots_alike (h : d₁.Alike d) {number depth : Nat} {slots slots' : List Slot}
    (hdetach : detachSlots line number depth slots d = .ok (slots', d')) (line' : Nat) :
    ∃ d₁', detachSlots line' number depth slots d₁ = .ok (slots', d₁') ∧ d₁'.Alike d' := by
  induction slots generalizing depth slots' d' with
  | nil =>
      obtain ⟨rfl, rfl⟩ := Prod.mk.inj (Except.ok.inj hdetach)
      exact ⟨d₁, rfl, h⟩
  | cons s slots ih =>
      obtain ⟨slots₂, d₂, hrest, hcase⟩ := detachSlots_cons_eq_ok hdetach
      obtain ⟨d₃, hrest', hdrafts⟩ := ih hrest
      unfold detachSlots
      rw [hrest']
      rcases hcase with ⟨hsource, rfl, rfl⟩ | ⟨s', hsource, hs, rfl⟩
      · exact ⟨d₃, by simp [bind, Except.bind, hsource], hdrafts⟩
      · obtain ⟨d₄, hs', hdrafts'⟩ := detachSlot_alike hdrafts hs line'
        exact ⟨d₄, by simp [bind, Except.bind, hsource, hs'], hdrafts'⟩

theorem detachTarget_alike (h : d₁.Alike d) {l : Location}
    (hdetach : detachTarget line d l = .ok d') (line' : Nat) :
    ∃ d₁', detachTarget line' d₁ l = .ok d₁' ∧ d₁'.Alike d' := by
  rcases detachTarget_eq_ok hdetach with ⟨hl, rfl⟩ | ⟨number, slots, d₂, rfl, hslots, rfl⟩
  · refine ⟨d₁, ?_, h⟩
    unfold detachTarget
    split
    · rename_i number
      exact absurd rfl (hl number)
    · rfl
  · obtain ⟨d₃, hslots', c, hc, rfl⟩ := detachSlots_alike h hslots line'
    refine ⟨(d₂.withCode c).withStack (.ofList slots), ?_, c, hc, rfl⟩
    obtain ⟨c₁, -, rfl⟩ := h
    unfold detachTarget detach
    exact bind_of_ok hslots'

theorem convertForWrite_alike (h : d₁.Alike d) {name : String} {s t : DataType}
    (hconvert : convertForWrite line name s t d = .ok d') (line' : Nat) :
    ∃ d₁', convertForWrite line' name s t d₁ = .ok d₁' ∧ d₁'.Alike d' := by
  unfold convertForWrite at hconvert ⊢
  split at hconvert
  · rename_i hst
    obtain rfl := Except.ok.inj hconvert
    exact ⟨d₁, if_pos hst, h⟩
  · rename_i hst
    rw [if_neg hst]
    split at hconvert
    · obtain rfl := Except.ok.inj hconvert
      exact ⟨_, rfl, h.emit line' line _ _ _ _⟩
    · cases hconvert

theorem write_alike (h : d₁.Alike d) {name : String} (hwrite : write line d name = .ok d')
    (line' : Nat) : ∃ d₁', write line' d₁ name = .ok d₁' ∧ d₁'.Alike d' := by
  obtain ⟨c, hc, rfl⟩ := h
  unfold write at hwrite
  split at hwrite
  · cases hwrite
  rename_i s rest hslots
  dsimp only at hwrite
  split at hwrite
  · cases hwrite
  rename_i v hv
  obtain ⟨w, hw, hwrite⟩ := bind_eq_ok hwrite
  obtain ⟨⟨l, d₂⟩, halloc, hwrite⟩ := bind_eq_ok hwrite
  obtain ⟨d₃, hconvert, hwrite⟩ := bind_eq_ok hwrite
  obtain ⟨d₄, hdetach, hwrite⟩ := bind_eq_ok hwrite
  obtain rfl := Except.ok.inj hwrite
  have hstart : (({ d.withStack (d.stack.drop 1) with vars := d.vars.set w } : Draft).withCode
      c).Alike { d.withStack (d.stack.drop 1) with vars := d.vars.set w } := ⟨c, hc, rfl⟩
  obtain ⟨e₂, halloc', h₂⟩ := allocate_alike hstart halloc
  obtain ⟨e₃, hconvert', h₃⟩ := convertForWrite_alike h₂ hconvert line'
  obtain ⟨e₄, hdetach', h₄⟩ := detachTarget_alike h₃ hdetach line'
  refine ⟨_, ?_, h₄.emit line' line _ _ _ _⟩
  have hslots' : (d.withCode c).stack.slots = s :: rest := hslots
  have hv' : (d.withCode c).vars.get? name = some v := hv
  unfold write
  simp only [hslots', hv']
  refine (bind_of_ok hw).trans ?_
  refine (bind_of_ok halloc').trans ?_
  refine (bind_of_ok hconvert').trans ?_
  exact bind_of_ok hdetach'

theorem foldl_widen_alike (h : d₁.Alike d) (line' line : Nat) (ws : List Widening) :
    (ws.foldl (widen line') d₁).Alike (ws.foldl (widen line) d) := by
  induction ws generalizing d₁ d with
  | nil => exact h
  | cons w ws ih =>
      refine ih ?_
      obtain ⟨c, hc, hd⟩ := h.emit line' line (.cast w.source w.target w.depth true)
        [.scalar w.source] (some (.scalar w.target)) none
      refine ⟨c, hc, ?_⟩
      unfold widen
      rw [hd]
      rfl

theorem operationOpcode_alike (h : d₁.Alike d) {r : Resolution} {opcode : Opcode}
    (hop : d.operationOpcode r = .ok (opcode, d')) :
    ∃ d₁', d₁.operationOpcode r = .ok (opcode, d₁') ∧ d₁'.Alike d' := by
  unfold operationOpcode at hop ⊢
  split at hop
  · obtain ⟨rfl, rfl⟩ := Prod.mk.inj (Except.ok.inj hop)
    exact ⟨d₁, rfl, h⟩
  · split at hop
    · cases hop
    rename_i hadd
    obtain ⟨rfl, rfl⟩ := Prod.mk.inj (Except.ok.inj hop)
    obtain ⟨d₁', hadd', hdrafts⟩ := addMatrix_alike h hadd
    exact ⟨d₁', by rw [hadd'], hdrafts⟩

theorem operator_alike (h : d₁.Alike d) {name : String}
    (hoperator : operator o line d name = .ok d') (line' : Nat) :
    ∃ d₁', operator o line' d₁ name = .ok d₁' ∧ d₁'.Alike d' := by
  obtain ⟨c, hc, rfl⟩ := h
  unfold operator at hoperator
  split at hoperator
  · cases hoperator
  rename_i kernel hkernel
  split at hoperator
  · cases hoperator
  rename_i harity
  obtain ⟨r, hr, hoperator⟩ := bind_eq_ok hoperator
  obtain ⟨⟨opcode, d₂⟩, hop, hoperator⟩ := bind_eq_ok hoperator
  obtain ⟨e₂, hop', h₂⟩ :=
    operationOpcode_alike (foldl_widen_alike ⟨c, hc, rfl⟩ line' line r.widenings) hop
  have hend := h₂.emit line' line opcode r.inputs (some r.output)
    (if name = opcode.name then none else some name)
  have hstack : Alike
      ((e₂.emit line' opcode r.inputs (some r.output)
        (if name = opcode.name then none else some name)).withStack (e₂.stack.drop kernel.arity))
      ((d₂.emit line opcode r.inputs (some r.output)
        (if name = opcode.name then none else some name)).withStack
          (d₂.stack.drop kernel.arity)) := by
    obtain ⟨c₂, hc₂, rfl⟩ := h₂
    exact ⟨_, hc₂.push line' line opcode r.inputs (some r.output) _, rfl⟩
  obtain ⟨d₁', hpush, hd'⟩ := push_alike hstack hoperator line'
  refine ⟨d₁', ?_, hd'⟩
  have harity' : ¬ (d.withCode c).stack.depth < kernel.arity := harity
  unfold operator
  simp only [hkernel, if_neg harity']
  have hr' : (kernel.resolve o.implicitCasts
      (((d.withCode c).stack.slots.take kernel.arity).map Slot.type).reverse) = .ok r :=
    mapError_eq_ok hr
  rw [hr']
  refine (bind_of_ok rfl).trans ?_
  exact (bind_of_ok hop').trans hpush

theorem instruction_alike (h : d₁.Alike d) {i : Postfix.Instruction}
    (hi : instruction o line d i = .ok d') (line' : Nat) :
    ∃ d₁', instruction o line' d₁ i = .ok d₁' ∧ d₁'.Alike d' := by
  cases i with
  | read name => exact read_alike h hi line'
  | write name => exact write_alike h hi line'
  | const typeName literal => exact const_alike h hi line'
  | cast typeName => exact cast_alike h hi line'
  | operator name => exact operator_alike h hi line'

theorem lines_alike {lines lines' : List (Nat × Except Error Postfix.Instruction)}
    (hlines : lines'.map Prod.snd = lines.map Prod.snd) (h : d₁.Alike d)
    (hd : lines.foldlM (Draft.line o) d = .ok d') :
    ∃ d₁', lines'.foldlM (Draft.line o) d₁ = .ok d₁' ∧ d₁'.Alike d' := by
  induction lines generalizing lines' d d₁ with
  | nil =>
      obtain rfl := List.map_eq_nil_iff.mp hlines
      obtain rfl := Except.ok.inj hd
      exact ⟨d₁, rfl, h⟩
  | cons l lines ih =>
      obtain ⟨⟨line', x⟩, lines', rfl, hl', hrest⟩ := List.map_eq_cons_iff.mp hlines
      rw [List.foldlM_cons] at hd
      obtain ⟨d₂, hl, hd⟩ := bind_eq_ok hd
      obtain ⟨i, hi, hinstruction⟩ := line_eq_ok hl
      obtain rfl : x = .ok i := hl'.trans hi
      obtain ⟨e₂, hinstruction', h₂⟩ := instruction_alike h hinstruction (line' % lineLimit)
      obtain ⟨d₁', hd₁', hd'⟩ := ih hrest h₂ hd
      refine ⟨d₁', ?_, hd'⟩
      rw [List.foldlM_cons]
      exact (bind_of_ok hinstruction').trans hd₁'

theorem allocateUnused_alike (h : d₁.Alike d) {name : String}
    (hd : allocateUnused d name = .ok d') :
    ∃ d₁', allocateUnused d₁ name = .ok d₁' ∧ d₁'.Alike d' := by
  have hdrafts := h
  obtain ⟨c, hc, rfl⟩ := h
  unfold allocateUnused at hd
  split at hd
  · rename_i hnone
    obtain rfl := Except.ok.inj hd
    have hnone' : (d.withCode c).vars.get? name = none := hnone
    exact ⟨_, by rw [allocateUnused, hnone'], hdrafts⟩
  · rename_i v hv
    split at hd
    · cases hd
    rename_i ht
    obtain ⟨⟨l, d₂⟩, halloc, rfl⟩ := map_eq_ok hd
    obtain ⟨d₁', halloc', hd'⟩ := allocate_alike hdrafts halloc
    have hv' : (d.withCode c).vars.get? name = some v := hv
    refine ⟨d₁', ?_, hd'⟩
    simp only [allocateUnused, hv', if_neg ht, halloc']
    rfl

theorem allocateUnused_all_alike {names : List String} (h : d₁.Alike d)
    (hd : names.foldlM allocateUnused d = .ok d') :
    ∃ d₁', names.foldlM allocateUnused d₁ = .ok d₁' ∧ d₁'.Alike d' := by
  induction names generalizing d d₁ with
  | nil =>
      obtain rfl := Except.ok.inj hd
      exact ⟨d₁, rfl, h⟩
  | cons name names ih =>
      rw [List.foldlM_cons] at hd
      obtain ⟨d₂, hname, hd⟩ := bind_eq_ok hd
      obtain ⟨e₂, hname', h₂⟩ := allocateUnused_alike h hname
      obtain ⟨d₁', hd₁', hd'⟩ := ih h₂ hd
      refine ⟨d₁', ?_, hd'⟩
      rw [List.foldlM_cons, hname']
      exact hd₁'

theorem finish_alike (h : d₁.Alike d) {p : Program} (hd : d.finish = .ok p) :
    ∃ q, d₁.finish = .ok q ∧ q.unlined = p.unlined := by
  have hdrafts := h
  obtain ⟨c, hc, rfl⟩ := h
  unfold finish at hd
  split at hd
  · cases hd
  rename_i hsize
  split at hd
  · cases hd
  rename_i hslots
  obtain ⟨d₂, hall, rfl⟩ := map_eq_ok hd
  obtain ⟨d₁', hall', c', hc', rfl⟩ := allocateUnused_all_alike hdrafts hall
  have hsize' : (d.withCode c).code.size ≠ 0 := by
    rw [← hc.size_eq] at hsize
    exact hsize
  have hslots' : ¬ (d.withCode c).stack.slots ≠ [] := hslots
  refine ⟨(d₂.withCode c').program, ?_, ?_⟩
  · rw [finish, if_neg hsize', if_neg hslots']
    exact congrArg (·.map Draft.program) hall'
  · simp only [Program.unlined, program, sizes, withCode, hc'.size_eq]
    rw [show c'.map Entry.unlined = d₂.code.map Entry.unlined from hc']

end Draft

theorem compile_unlined {text text' : String} {vs : Variables} {o : CompileOptions} {p : Program}
    (htext : (Postfix.instructions text').map Prod.snd = (Postfix.instructions text).map Prod.snd)
    (h : compile text vs o = .ok p) :
    ∃ q, compile text' vs o = .ok q ∧ q.unlined = p.unlined := by
  obtain ⟨d, hd, hfinish⟩ := bind_eq_ok h
  have hstart : (Draft.start vs).Alike (Draft.start vs) := ⟨#[], rfl, rfl⟩
  obtain ⟨d', hd', hdrafts⟩ := Draft.lines_alike htext hstart hd
  obtain ⟨q, hq, hqp⟩ := Draft.finish_alike hdrafts hfinish
  exact ⟨q, (congrArg (·.bind Draft.finish) hd').trans hq, hqp⟩

end FormulaMachine
