import FormulaMachine.Compiler.Columns
import FormulaMachine.Proofs.Compiler.Depth
import FormulaMachine.Proofs.Program.Bytecode

namespace FormulaMachine

def Program.split (p : Program) : Program × Bytecode :=
  ({ p with code := #[] }, .ofEntries p.code)

namespace Draft

def bare (d : Draft) : Draft :=
  { d with code := #[], stack := .empty }

def split (d : Draft) : SplitDraft :=
  ⟨d.bare, (d.stack.slots.map Slot.type).reverse, (d.stack.slots.map Slot.source).reverse,
    .ofEntries d.code⟩

variable (d : Draft) {o : CompileOptions} (line : Nat)

theorem length_types : d.split.types.length = d.stack.depth := by
  rw [split, List.length_reverse, List.length_map, d.stack.depth_eq]

theorem split_emit (opcode : Opcode) (inputs : List DataType) (output : Option DataType) :
    (d.emit line opcode inputs output none).split = d.split.emit line opcode inputs output := by
  rw [split, emit, Bytecode.ofEntries_push]
  rfl

theorem split_emitSpelled (opcode : Opcode) (inputs : List DataType) (output : Option DataType)
    (spelling : String) : (d.emit line opcode inputs output (some spelling)).split =
      d.split.emitSpelled line opcode inputs output spelling := by
  rw [split, emit, Bytecode.ofEntries_push]
  rfl

theorem split_emitAs (opcode : Opcode) (inputs : List DataType) (output : Option DataType)
    (name : String) :
    (if name = opcode.name then d.split.emit line opcode inputs output
      else d.split.emitSpelled line opcode inputs output name) =
    (d.emit line opcode inputs output (if name = opcode.name then none else some name)).split := by
  split
  · rw [split_emit]
  · rw [split_emitSpelled]

theorem split_push (limit : Option Nat) (s : Slot) :
    d.split.push limit line s.type s.source = (d.push limit line s).map split := by
  have htypes : d.split.types ++ [s.type] = ((s :: d.stack.slots).map Slot.type).reverse :=
    List.reverse_cons.symm
  have hsources : d.split.sources ++ [s.source] = ((s :: d.stack.slots).map Slot.source).reverse :=
    List.reverse_cons.symm
  have hdepth : (d.split.types ++ [s.type]).length = d.stack.depth + 1 := by
    rw [List.length_append, d.length_types]
    rfl
  unfold SplitDraft.push push
  dsimp only
  rw [hdepth, htypes, hsources]
  cases limit with
  | none => rfl
  | some l => exact map_ite_eq rfl rfl

theorem split_pop? : d.split.pop? = d.stack.slots.head?.map fun s =>
    (s.type, s.source, (d.withStack (d.stack.drop 1)).split) := by
  unfold SplitDraft.pop?
  cases hslots : d.stack.slots with
  | nil => simp [split, hslots]
  | cons s slots => simp [split, hslots, withStack, bare]

theorem take_map_reverse {α : Type} (f : Slot → α) (xs : List Slot) (n : Nat) :
    (xs.map f).reverse.take (xs.length - n) = ((xs.drop n).map f).reverse := by
  rw [List.take_reverse, List.length_map, List.map_drop]
  rcases Nat.le_total n xs.length with hle | hle
  · rw [Nat.sub_sub_self hle]
  · have hdrop {m : Nat} (hm : xs.length ≤ m) : (xs.map f).drop m = [] :=
      List.drop_of_length_le (by rwa [List.length_map])
    rw [hdrop hle, hdrop (by omega)]

theorem split_truncate (n : Nat) :
    d.split.truncate (d.stack.depth - n) = (d.withStack (d.stack.drop n)).split := by
  unfold SplitDraft.truncate split
  rw [d.stack.depth_eq, take_map_reverse, take_map_reverse]
  rfl

theorem split_addMatrix (t : DataType) :
    d.split.addMatrix t = (d.addMatrix t none).map fun r => (r.1, r.2.split) := by
  unfold SplitDraft.addMatrix addMatrix
  exact map_ite_map rfl rfl

theorem split_allocate (v : Variable) :
    d.split.allocate v = (d.allocate v).map fun r => (r.1, r.2.split) := by
  unfold SplitDraft.allocate allocate
  cases v.location with
  | some l => rfl
  | none =>
      refine map_ite_map ?_ ?_
      · have hadd : d.split.rest.addMatrix v.type v.external =
            (d.addMatrix v.type v.external).map fun r => (r.1, r.2.bare) := map_ite_eq rfl rfl
        rw [hadd]
        cases h : d.addMatrix v.type v.external with
        | error e => rfl
        | ok r =>
            obtain ⟨number, d'⟩ := r
            obtain ⟨-, -, rfl⟩ := addMatrix_eq_ok h
            rfl
      · cases v.external with
        | some x => exact map_ite_map rfl rfl
        | none => exact map_ite_map rfl rfl

theorem split_read (name : String) :
    d.split.read o line name = (read o line d name).map split := by
  have hvars : d.split.rest.vars = d.vars := rfl
  unfold SplitDraft.read read
  rw [hvars]
  cases d.vars.get? name with
  | none => rfl
  | some v =>
      dsimp only
      by_cases hvoid : v.type = .void
      · rw [if_pos hvoid, if_pos (DataType.isVoid_iff.mpr hvoid)]
        rfl
      rw [if_neg hvoid, if_neg (mt DataType.isVoid_iff.mp hvoid), split_allocate]
      cases d.allocate v with
      | error e => rfl
      | ok r =>
          have hpush := split_push (r.2.emit line (loadOpcode (elementKind v.type) r.1) []
            (some v.type) none) line o.maxStackDepth ⟨v.type, matrixNumber? r.1⟩
          rwa [split_emit] at hpush

theorem split_const (typeName : Option String) (literal : String) :
    d.split.const o line typeName literal = (const o line d typeName literal).map split := by
  unfold SplitDraft.const const
  cases literalKind o line typeName with
  | error e => rfl
  | ok k =>
      dsimp only [bind, Except.bind]
      cases hx : Scalar.read? k literal.toList with
      | none => rfl
      | some x =>
          have hpush := split_push ((d.withConstant x ⟨literal, typeName⟩).emit line
            (.loadConstant (d.constants.size % offsetLimit) k) [] (some (.scalar k)) none)
            line o.maxStackDepth ⟨.scalar k, none⟩
          rwa [split_emit] at hpush

theorem split_convertForWrite (name : String) (s t : DataType) :
    d.split.convertForWrite line name s t = (d.convertForWrite line name s t).map split := by
  refine map_ite_eq rfl ?_
  cases s <;> cases t
  all_goals first | rfl | exact congrArg Except.ok (split_emit d line ..).symm

section Detach

variable {α : Type} (f : Slot → α) (above slots : List Slot) (s s' : Slot) (number : Nat)

theorem getElem?_reverse_middle :
    (((above ++ s :: slots).map f).reverse)[slots.length]? = some (f s) := by
  simp

theorem split_setSource (h : s'.type = s.type) :
    let c := (d.withStack (.ofList (above ++ s :: slots))).split
    { c with sources := c.sources.set slots.length s'.source } =
      (d.withStack (.ofList (above ++ s' :: slots))).split := by
  simp [split, withStack, bare, h]

theorem split_detachSlot :
    (d.withStack (.ofList (above ++ s :: slots))).split.detachPlace line number slots.length =
      if s.source = some number then
        (detachSlot line (above.length + 1) s d).map fun r =>
          (r.2.withStack (.ofList (above ++ r.1 :: slots))).split
      else .ok (d.withStack (.ofList (above ++ s :: slots))).split := by
  have hsource : (d.withStack (.ofList (above ++ s :: slots))).split.sources[slots.length]? =
      some s.source := getElem?_reverse_middle Slot.source above slots s
  have htype : (d.withStack (.ofList (above ++ s :: slots))).split.types.getD slots.length .void =
      s.type := by
    rw [List.getD_eq_getElem?_getD]
    exact congrArg (Option.getD · .void) (getElem?_reverse_middle Slot.type above slots s)
  have hdepth : (d.withStack (.ofList (above ++ s :: slots))).split.types.length - slots.length =
      above.length + 1 := by
    rw [length_types]
    simp [withStack, Stack.ofList]
    omega
  have hadd : (d.withStack (.ofList (above ++ s :: slots))).addMatrix s.type none =
      (d.addMatrix s.type none).map fun r =>
        (r.1, r.2.withStack (.ofList (above ++ s :: slots))) := map_ite_eq rfl rfl
  unfold SplitDraft.detachPlace detachSlot
  dsimp only
  rw [hsource, ite_not, hdepth, htype, split_addMatrix, hadd]
  refine if_congr (by rw [Option.some.injEq]) (map_ite_eq rfl ?_) rfl
  cases d.addMatrix s.type none with
  | error e => rfl
  | ok r =>
      have hcopy := split_emit (r.2.withStack (.ofList (above ++ s :: slots))) line
        (.copyMatrix (above.length + 1) r.1) [s.type] (some s.type)
      dsimp only [Except.map, bind, Except.bind]
      rw [← hcopy]
      exact congrArg Except.ok (split_setSource (r.2.emit line (.copyMatrix (above.length + 1) r.1)
        [s.type] (some s.type) none) above slots s ⟨s.type, none⟩ rfl)

theorem split_detachSlots :
    (List.range slots.length).foldlM (SplitDraft.detachPlace line number)
        (d.withStack (.ofList (above ++ slots))).split =
      (detachSlots line number (above.length + 1) slots d).map fun r =>
        (r.2.withStack (.ofList (above ++ r.1))).split := by
  induction slots generalizing above with
  | nil => rfl
  | cons s slots ih =>
      have hrest := ih (above ++ [s])
      rw [List.append_assoc, List.singleton_append, List.length_append, List.length_singleton]
        at hrest
      rw [List.length_cons, List.range_succ, List.foldlM_append, hrest, detachSlots]
      simp only [List.foldlM_cons, List.foldlM_nil, bind_pure]
      cases hslots : detachSlots line number (above.length + 1 + 1) slots d with
      | error e => rfl
      | ok r =>
          obtain ⟨slots', d'⟩ := r
          rw [← length_detachSlots hslots]
          have hslot := split_detachSlot d' line above slots' s number
          have hassoc (xs : List Slot) : above ++ [s] ++ xs = above ++ s :: xs := by simp
          dsimp only [Except.map, bind, Except.bind] at hslot ⊢
          rw [hassoc, hslot]
          by_cases hsource : s.source = some number
          · rw [if_pos hsource, if_pos hsource]
            cases detachSlot line (above.length + 1) s d' <;> rfl
          · rw [if_neg hsource, if_neg hsource]

theorem split_detach : d.split.detach line number = (d.detach line number).map split := by
  have hslots := split_detachSlots d line [] d.stack.slots number
  have hstack : d.withStack (.ofList ([] ++ d.stack.slots)) = d := by
    rw [List.nil_append, withStack, Stack.eq_of_slots_eq (Stack.slots_ofList _)]
  have hlength : d.split.sources.length = d.stack.slots.length := by
    rw [split, List.length_reverse, List.length_map]
  rw [hstack] at hslots
  unfold SplitDraft.detach detach
  rw [hlength, hslots]
  cases detachSlots line number 1 d.stack.slots d <;> rfl

end Detach

theorem split_detachTarget (l : Location) :
    d.split.detachTarget line l = (d.detachTarget line l).map split := by
  cases l with
  | matrix number => exact split_detach d line number
  | _ => rfl

theorem split_write (name : String) :
    d.split.write line name = (write line d name).map split := by
  unfold SplitDraft.write write
  rw [split_pop?]
  cases d.stack.slots with
  | nil => rfl
  | cons s slots =>
      have hvars : (d.withStack (d.stack.drop 1)).split.rest.vars = d.vars := rfl
      dsimp only [List.head?_cons, Option.map_some]
      rw [hvars]
      cases d.vars.get? name with
      | none => rfl
      | some v =>
          refine map_bind_same fun w => ?_
          refine map_bind_eq (split_allocate { d.withStack (d.stack.drop 1) with
            vars := d.vars.set w } w) fun r => ?_
          refine map_bind_eq (split_convertForWrite r.2 line name s.type w.type) fun d₁ => ?_
          refine map_bind_eq (split_detachTarget d₁ line r.1) fun d₂ => ?_
          exact congrArg Except.ok (split_emit d₂ line ..).symm

theorem split_cast (typeName : String) :
    d.split.cast o line typeName = (cast o line d typeName).map split := by
  unfold SplitDraft.cast cast
  rw [split_pop?]
  cases DataType.read typeName with
  | error e => rfl
  | ok t =>
      cases d.stack.slots with
      | nil => rfl
      | cons s slots =>
          refine map_ite_eq ?_ rfl
          have hpush := split_push ((d.withStack (d.stack.drop 1)).emit line
            (.cast (elementKind s.type) (elementKind t) 0 false) [s.type] (some t)
            (some typeName)) line o.maxStackDepth ⟨t, s.source⟩
          rwa [split_emitSpelled] at hpush

theorem map_modify_type (xs : List Slot) (i : Nat) (t : DataType) :
    (xs.modify i fun s => { s with type := t }).map Slot.type = (xs.map Slot.type).set i t ∧
      (xs.modify i fun s => { s with type := t }).map Slot.source = xs.map Slot.source := by
  induction xs generalizing i with
  | nil => simp
  | cons s xs ih => cases i <;> simp [ih]

theorem reverse_set {α : Type} {xs : List α} {i : Nat} (h : i < xs.length) (x : α) :
    (xs.set i x).reverse = xs.reverse.set (xs.length - 1 - i) x := by
  refine List.ext_getElem (by simp) fun j hj _ => ?_
  have hplace : i = xs.length - 1 - j ↔ xs.length - 1 - i = j := by
    rw [List.length_reverse, List.length_set] at hj
    omega
  simp [List.getElem_set, hplace]

theorem split_widen {w : Widening} (hw : w.depth < d.stack.depth) :
    (widen line d w).split = d.split.widen line w := by
  obtain ⟨htypes, hsources⟩ := map_modify_type d.stack.slots w.depth (.scalar w.target)
  have hlength : w.depth < (d.stack.slots.map Slot.type).length := by
    rwa [List.length_map, ← d.stack.depth_eq]
  have hset : (widen line d w).split.types =
      d.split.types.set (d.split.types.length - 1 - w.depth) (.scalar w.target) := by
    rw [length_types, d.stack.depth_eq, ← List.length_map (f := Slot.type)]
    exact (congrArg List.reverse htypes).trans (reverse_set hlength _)
  have hemit := split_emit d line (.cast w.source w.target w.depth true)
    [.scalar w.source] (some (.scalar w.target))
  unfold SplitDraft.widen
  dsimp only
  rw [← hemit]
  exact congr (congr (congrArg (SplitDraft.mk _) hset) (congrArg List.reverse hsources)) rfl

theorem split_widenAll {ws : List Widening} (hws : ∀ w ∈ ws, w.depth < d.stack.depth) :
    (ws.foldl (widen line) d).split = ws.foldl (SplitDraft.widen line) d.split := by
  induction ws generalizing d with
  | nil => rfl
  | cons w ws ih =>
      obtain ⟨hw, hws⟩ := List.forall_mem_cons.mp hws
      rw [List.foldl_cons, List.foldl_cons, ih (widen line d w) hws, split_widen d line hw]

theorem split_operationOpcode (r : Resolution) :
    d.split.operationOpcode r = (d.operationOpcode r).map fun c => (c.1, c.2.split) := by
  unfold SplitDraft.operationOpcode operationOpcode
  cases r.operation with
  | scalar kernel k => rfl
  | matrix op =>
      dsimp only
      rw [split_addMatrix]
      cases d.addMatrix r.output none <;> rfl

theorem split_operands {arity : Nat} (h : arity ≤ d.stack.depth) :
    d.split.types.drop (d.stack.depth - arity) =
      ((d.stack.slots.take arity).map Slot.type).reverse := by
  rw [split, List.drop_reverse, List.length_map, ← d.stack.depth_eq, Nat.sub_sub_self h,
    List.map_take]

theorem depth_of_operationOpcode {r : Resolution} {c : Opcode × Draft}
    (h : d.operationOpcode r = .ok c) : c.2.stack.depth = d.stack.depth := by
  rcases operationOpcode_eq_ok h with ⟨_, _, -, -, hc⟩ | ⟨_, -, -, -, hc⟩ <;> rw [hc]

theorem split_replace (opcode : Opcode) (r : Resolution) (name : String) (arity : Nat) :
    ((if name = opcode.name then d.split.emit line opcode r.inputs (some r.output)
      else d.split.emitSpelled line opcode r.inputs (some r.output) name).truncate
        (d.stack.depth - arity)).push o.maxStackDepth line r.output none =
      (((d.emit line opcode r.inputs (some r.output)
        (if name = opcode.name then none else some name)).withStack (d.stack.drop arity)).push
          o.maxStackDepth line ⟨r.output, none⟩).map split := by
  have htruncate := split_truncate (d.emit line opcode r.inputs (some r.output)
    (if name = opcode.name then none else some name)) arity
  rw [split_emitAs, show d.stack.depth = (d.emit line opcode r.inputs (some r.output)
    (if name = opcode.name then none else some name)).stack.depth from rfl, htruncate]
  exact split_push _ line o.maxStackDepth ⟨r.output, none⟩

theorem split_operator (name : String) :
    d.split.operator o line name = (operator o line d name).map split := by
  unfold SplitDraft.operator operator
  cases Kernel.ofName? name with
  | none => rfl
  | some kernel =>
      dsimp only
      rw [length_types]
      by_cases harity : d.stack.depth < kernel.arity
      · rw [if_pos harity, if_pos harity]
        rfl
      rw [if_neg harity, if_neg harity, split_operands d (Nat.le_of_not_lt harity)]
      cases hresolve : kernel.resolve o.implicitCasts
          ((d.stack.slots.take kernel.arity).map Slot.type).reverse with
      | error e => rfl
      | ok r =>
          have hwidenings (w : Widening) (hw : w ∈ r.widenings) : w.depth < d.stack.depth := by
            have hlt := (Resolution.shape_of_resolve hresolve).depth_lt hw
            rw [List.length_reverse, List.length_map, List.length_take] at hlt
            omega
          dsimp only [Except.mapError, bind, Except.bind]
          rw [← split_widenAll d line hwidenings, split_operationOpcode]
          cases hopcode : (r.widenings.foldl (widen line) d).operationOpcode r with
          | error e => rfl
          | ok c =>
              have hdepth : c.2.stack.depth = d.stack.depth :=
                (depth_of_operationOpcode _ hopcode).trans (depth_foldl_widen line r.widenings d)
              dsimp only [Except.map]
              rw [← hdepth]
              exact split_replace c.2 line c.1 r name kernel.arity

theorem split_instruction (i : Postfix.Instruction) :
    d.split.instruction o line i = (instruction o line d i).map split := by
  cases i with
  | read name => exact split_read d line name
  | write name => exact split_write d line name
  | const typeName literal => exact split_const d line typeName literal
  | cast typeName => exact split_cast d line typeName
  | operator name => exact split_operator d line name

theorem split_line (l : Nat × Except Error Postfix.Instruction) :
    d.split.line o l = (Draft.line o d l).map split := by
  obtain ⟨number, x⟩ := l
  cases x with
  | error e => rfl
  | ok i => exact split_instruction d _ i

theorem split_allocateUnused (name : String) :
    d.split.allocateUnused name = (allocateUnused d name).map split := by
  have hvars : d.split.rest.vars = d.vars := rfl
  unfold SplitDraft.allocateUnused allocateUnused
  rw [hvars]
  cases d.vars.get? name with
  | none => rfl
  | some v =>
      dsimp only
      by_cases hvoid : v.type = .void
      · rw [if_pos hvoid, if_pos (DataType.isVoid_iff.mpr hvoid)]
        rfl
      rw [if_neg hvoid, if_neg (mt DataType.isVoid_iff.mp hvoid), split_allocate]
      cases d.allocate v <;> rfl

theorem split_finish : d.split.finish = d.finish.map Program.split := by
  have hsize : d.split.bytecode.code.size = d.code.size := Array.size_map
  have htypes : d.split.types ≠ [] ↔ d.stack.slots ≠ [] := by
    simp [split]
  unfold SplitDraft.finish finish
  rw [hsize]
  refine map_ite_eq rfl ?_
  by_cases hslots : d.stack.slots ≠ []
  · rw [if_pos hslots, if_pos (htypes.mpr hslots)]
    rfl
  rw [if_neg hslots, if_neg (mt htypes.mp hslots)]
  have hvars : names d.split.rest.vars = names d.vars := rfl
  rw [hvars, map_foldlM_eq split_allocateUnused]
  cases (names d.vars).foldlM allocateUnused d with
  | error e => rfl
  | ok d' =>
      have hsizes : d'.split.sizes = d'.sizes :=
        congrArg (Sizes.mk _ _ · _) (Array.size_map (f := Entry.opcode))
      dsimp only [Except.map]
      rw [hsizes]
      rfl

end Draft

namespace SplitDraft

variable {o : CompileOptions}

theorem lines_eq (ls : List (Nat × Except Error Postfix.Instruction)) (vs : Variables) :
    ls.foldlM (line o) (start vs) =
      (ls.foldlM (Draft.line o) (Draft.start vs)).map Draft.split := by
  have hstart : start vs = (Draft.start vs).split := by
    simp [start, Draft.split, Draft.start, Draft.bare, Bytecode.ofEntries, Bytecode.empty,
      Bytecode.spellingsFrom]
  rw [hstart, map_foldlM_eq fun d l => Draft.split_line d l]

structure Aligned (d : SplitDraft) : Prop where
  stack : d.sources.length = d.types.length
  code : d.bytecode.signatures.size = d.bytecode.code.size
  spellings : ∀ s ∈ d.bytecode.spellings, s.1 < d.bytecode.code.size

theorem aligned_of_lines {ls : List (Nat × Except Error Postfix.Instruction)} {vs : Variables}
    {d : SplitDraft} (h : ls.foldlM (line o) (start vs) = .ok d) : d.Aligned := by
  rw [lines_eq] at h
  obtain ⟨d, -, rfl⟩ := map_eq_ok h
  refine ⟨by simp [Draft.split], by simp [Draft.split, Bytecode.ofEntries], fun s hs => ?_⟩
  have hlt := Bytecode.lt_of_mem_spellingsFrom hs
  rw [Nat.zero_add] at hlt
  exact hlt.trans_eq (Array.size_map (f := Entry.opcode)).symm

end SplitDraft

theorem compileSplit_eq (text : String) (vs : Variables) (o : CompileOptions) :
    compileSplit text vs o = (compile text vs o).map Program.split := by
  unfold compileSplit compile
  rw [SplitDraft.lines_eq]
  cases (Postfix.instructions text).foldlM (Draft.line o) (Draft.start vs) with
  | error e => rfl
  | ok d => exact d.split_finish

end FormulaMachine
