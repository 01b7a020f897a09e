import FormulaMachine.Proofs.Compiler.Compile

namespace FormulaMachine

namespace Unbounded

open Draft

def addMatrix (d : Draft) (t : DataType) (external : Option External) : Nat × Draft :=
  (d.matrices.size, { d with matrices := d.matrices.push ⟨t, external⟩ })

def allocate (d : Draft) (v : Variable) : Location × Draft :=
  match v.location with
  | some l => (l, d)
  | none =>
      if v.type.isMatrix then
        let (number, d) := addMatrix d v.type v.external
        d.place v (.matrix number)
      else match v.external with
        | some x =>
            { d with bindings := d.bindings.push x }.place v (.external d.bindings.size)
        | none =>
            { d with variablesSize := d.variablesSize + v.type.size }.place v
              (.variable d.variablesSize)

def read (o : CompileOptions) (line : Nat) (d : Draft) (name : String) : Except Error Draft :=
  match d.vars.get? name with
  | none => .error (.unknownVariable name)
  | some v =>
      if v.type = .void then .error (.untypedRead line name)
      else
        let (l, d) := allocate d v
        (d.emit line (loadOpcode (elementKind v.type) l) [] (some v.type) none).push
          o.maxStackDepth line ⟨v.type, matrixNumber? l⟩

def detachSlot (line depth : Nat) (s : Slot) (d : Draft) : Except Error (Slot × Draft) :=
  if numberLimit ≤ depth then .error (.copyOutOfReach line)
  else
    let (target, d) := addMatrix d s.type none
    .ok (⟨s.type, none⟩, d.emit line (.copyMatrix depth target) [s.type] (some s.type) none)

def detachSlots (line number depth : Nat) : List Slot → Draft → Except Error (List Slot × Draft)
  | [], d => .ok ([], d)
  | s :: slots, d => do
      let (slots, d) ← detachSlots line number (depth + 1) slots d
      if s.source = some number then
        let (s, d) ← detachSlot line depth s d
        .ok (s :: slots, d)
      else .ok (s :: slots, d)

def detach (line : Nat) (d : Draft) (number : Nat) : Except Error Draft := do
  let (slots, d) ← detachSlots line number 1 d.stack.slots d
  .ok { d with stack := .ofList slots }

def detachTarget (line : Nat) (d : Draft) : Location → Except Error Draft
  | .matrix number => detach line d number
  | _ => .ok d

def write (line : Nat) (d : Draft) (name : String) : Except Error Draft :=
  match d.stack.slots with
  | [] => .error (.nothingToWrite line name)
  | s :: _ =>
      let d := { d with stack := d.stack.drop 1 }
      match d.vars.get? name with
      | none => .error (.unknownVariable name)
      | some v => do
          let v ← inferType v s.type
          let (l, d) := allocate { d with vars := d.vars.set v } v
          let d ← convertForWrite line name s.type v.type d
          let d ← detachTarget line d l
          .ok (d.emit line (storeOpcode (elementKind v.type) l) [v.type] none none)

def operationOpcode (d : Draft) (r : Resolution) : Opcode × Draft :=
  match r.operation with
  | .scalar kernel k => (.scalar kernel k, d)
  | .matrix op =>
      let (target, d) := addMatrix d r.output none
      (.matrix op target, d)

def operator (o : CompileOptions) (line : Nat) (d : Draft) (name : String) :
    Except Error Draft :=
  match Kernel.ofName? name with
  | none => .error (.unknownOpcode line name)
  | some kernel =>
      if d.stack.depth < kernel.arity then
        .error (.operandsMissing line name kernel.arity d.stack.depth)
      else do
        let operands := ((d.stack.slots.take kernel.arity).map Slot.type).reverse
        let r ← (kernel.resolve o.implicitCasts operands).mapError
          (ofResolveError line name operands)
        let (opcode, d) := operationOpcode (r.widenings.foldl (widen line) d) r
        let spelling := if name = opcode.name then none else some name
        let d := d.emit line opcode r.inputs (some r.output) spelling
        { d with stack := d.stack.drop kernel.arity }.push o.maxStackDepth line ⟨r.output, none⟩

def instruction (o : CompileOptions) (line : Nat) (d : Draft) :
    Postfix.Instruction → Except Error Draft
  | .read name => read o line d name
  | .write name => write line d name
  | .const typeName literal => const o line d typeName literal
  | .cast typeName => cast o line d typeName
  | .operator name => operator o line d name

def allocateUnused (d : Draft) (name : String) : Except Error Draft :=
  match d.vars.get? name with
  | none => .ok d
  | some v => if v.type = .void then .error (.untyped name) else .ok (allocate d v).2

def finish (d : Draft) : Except Error Program :=
  if d.code.size = 0 then .error .emptyProgram
  else if d.stack.slots ≠ [] then
    .error (.valuesLeft (d.stack.slots.map Slot.type).reverse)
  else ((names d.vars).foldlM allocateUnused d).map program

def line (o : CompileOptions) (d : Draft) (l : Nat × Except Error Postfix.Instruction) :
    Except Error Draft :=
  match l.2 with
  | .error e => .error e
  | .ok i => instruction o (l.1 % lineLimit) d i

def compile (text : String) (vs : Variables) (o : CompileOptions) : Except Error Program :=
  ((Postfix.instructions text).foldlM (line o) (start vs)).bind finish

end Unbounded

structure Demand where
  matrices : Nat
  bindings : Nat
  bytes : Nat
  deriving DecidableEq, Repr

def Draft.demand (d : Draft) : Demand :=
  ⟨d.matrices.size, d.bindings.size, d.variablesSize⟩

def Program.demand (p : Program) : Demand :=
  ⟨p.matrices.size, p.bindings.size, p.sizes.variableBytes⟩

namespace Demand

structure InBounds (n : Demand) : Prop where
  matrices : n.matrices ≤ 2 ^ 16
  bindings : n.bindings ≤ 2 ^ 16
  bytes : n.bytes < 2 ^ 32

structure Swells (n n' : Demand) : Prop where
  matrices : n.matrices ≤ n'.matrices
  bindings : n.bindings ≤ n'.bindings
  bytes : n.bytes ≤ n'.bytes

variable {n n' n'' : Demand}

theorem Swells.refl (n : Demand) : n.Swells n :=
  ⟨Nat.le_refl _, Nat.le_refl _, Nat.le_refl _⟩

theorem Swells.trans (h : n.Swells n') (h' : n'.Swells n'') : n.Swells n'' :=
  ⟨Nat.le_trans h.matrices h'.matrices, Nat.le_trans h.bindings h'.bindings,
    Nat.le_trans h.bytes h'.bytes⟩

theorem Swells.inBounds (h : n.Swells n') (hn : n'.InBounds) : n.InBounds :=
  ⟨Nat.le_trans h.matrices hn.matrices, Nat.le_trans h.bindings hn.bindings,
    Nat.lt_of_le_of_lt h.bytes hn.bytes⟩

end Demand

inductive Within {α : Type} (demand : α → Demand) : Except Error α → Except Error α → Prop
  | fits {a : α} (h : (demand a).InBounds) : Within demand (.ok a) (.ok a)
  | overflows {a : α} {e : Error} (he : e.code = "allocation_failed")
      (h : ¬ (demand a).InBounds) : Within demand (.error e) (.ok a)
  | fails {e e' : Error} (h : e = e' ∨ e.code = "allocation_failed") :
      Within demand (.error e) (.error e')

structure Limits {α : Type} (n : Demand) (demand : α → Demand) (x x' : Except Error α) : Prop where
  swells : ∀ a, x' = .ok a → n.Swells (demand a)
  within : n.InBounds → Within demand x x'

namespace Limits

variable {α β : Type} {n : Demand} {demand : α → Demand} {demand' : β → Demand}
  {x x' : Except Error α}

theorem error (e : Error) : Limits n demand (.error e) (.error e) :=
  ⟨fun _ h => (by cases h), fun _ => .fails (.inl rfl)⟩

theorem ok {a : α} (h : demand a = n) : Limits n demand (.ok a) (.ok a) := by
  refine ⟨fun a' ha' => ?_, fun hn => .fits (h ▸ hn)⟩
  obtain rfl := Except.ok.inj ha'
  exact h ▸ .refl _

theorem unlimited (h : ∀ a, x = .ok a → demand a = n) : Limits n demand x x := by
  cases x with
  | error e => exact .error e
  | ok a => exact .ok (h a rfl)

theorem room {room : Prop} [Decidable room] {a : α} {e : Error} (hswells : n.Swells (demand a))
    (hroom : n.InBounds → (room ↔ (demand a).InBounds)) (he : e.code = "allocation_failed") :
    Limits n demand (if room then .ok a else .error e) (.ok a) := by
  refine ⟨fun a' ha' => ?_, fun hn => ?_⟩
  · obtain rfl := Except.ok.inj ha'
    exact hswells
  · split
    · rename_i h
      exact .fits ((hroom hn).mp h)
    · rename_i h
      exact .overflows he ((hroom hn).not.mp h)

theorem bind {f f' : α → Except Error β} (hx : Limits n demand x x')
    (hf : ∀ a, Limits (demand a) demand' (f a) (f' a)) :
    Limits n demand' (x >>= f) (x' >>= f') := by
  refine ⟨fun b hb => ?_, fun hn => ?_⟩
  · obtain ⟨a, ha, hb⟩ := bind_eq_ok hb
    exact (hx.swells a ha).trans ((hf a).swells b hb)
  · cases hx.within hn with
    | @fits a h => exact (hf a).within h
    | @overflows a e he h =>
        -- what comes after an overflow does not bring the demand back within the limits
        change Within demand' (.error e) (f' a)
        cases hb : f' a with
        | error e' => exact .fails (.inr he)
        | ok b => exact .overflows he fun hin => h (((hf a).swells b hb).inBounds hin)
    | fails h => exact .fails h

theorem map (hx : Limits n demand x x') {f : α → β} (hf : ∀ a, demand' (f a) = demand a) :
    Limits n demand' (x.map f) (x'.map f) := by
  have hbind : Limits n demand' (x >>= fun a => .ok (f a)) (x' >>= fun a => .ok (f a)) :=
    hx.bind fun a => .ok (hf a)
  cases x <;> cases x' <;> exact hbind

theorem foldlM {γ : Type} {f f' : α → γ → Except Error α}
    (hf : ∀ a c, Limits (demand a) demand (f a c) (f' a c)) (xs : List γ) (a : α) :
    Limits (demand a) demand (xs.foldlM f a) (xs.foldlM f' a) := by
  induction xs generalizing a with
  | nil => exact .ok rfl
  | cons c xs ih => exact (hf a c).bind ih

theorem eq_ok_iff (h : Limits n demand x x') (hn : n.InBounds) (a : α) :
    x = .ok a ↔ x' = .ok a ∧ (demand a).InBounds := by
  cases h.within hn with
  | @fits b hb =>
      refine ⟨fun heq => ⟨heq, ?_⟩, And.left⟩
      obtain rfl := Except.ok.inj heq
      exact hb
  | @overflows b e he hb =>
      refine ⟨fun heq => (by cases heq), fun ⟨heq, hin⟩ => ?_⟩
      obtain rfl := Except.ok.inj heq
      exact absurd hin hb
  | fails => exact ⟨fun heq => (by cases heq), fun ⟨heq, _⟩ => (by cases heq)⟩

theorem eq_error (h : Limits n demand x x') (hn : n.InBounds) {a : α} (hx' : x' = .ok a)
    (ha : ¬ (demand a).InBounds) : ∃ e, x = .error e ∧ e.code = "allocation_failed" := by
  subst hx'
  cases h.within hn with
  | fits hb => exact absurd hb ha
  | overflows he _ => exact ⟨_, rfl, he⟩

end Limits

namespace Draft

theorem addMatrix_limits (d : Draft) (t : DataType) (external : Option External) :
    Limits d.demand (fun r => r.2.demand) (d.addMatrix t external)
      (.ok (Unbounded.addMatrix d t external)) := by
  have hsize : (d.matrices.push ⟨t, external⟩).size = d.matrices.size + 1 := Array.size_push _
  refine Limits.room ⟨?_, Nat.le_refl _, Nat.le_refl _⟩ (fun hd => ⟨fun h => ?_, fun h => ?_⟩) rfl
  · exact Nat.le_of_lt (Nat.lt_of_lt_of_eq (Nat.lt_succ_self _) hsize.symm)
  · exact ⟨Nat.le_trans (Nat.le_of_eq hsize) h, hd.bindings, hd.bytes⟩
  · exact Nat.le_trans (Nat.le_of_eq hsize.symm) h.matrices

theorem allocate_limits (d : Draft) (v : Variable) :
    Limits d.demand (fun r => r.2.demand) (d.allocate v) (.ok (Unbounded.allocate d v)) := by
  unfold allocate Unbounded.allocate
  cases v.location with
  | some l => exact .ok rfl
  | none =>
  dsimp only
  split
  · have hplace (r : Nat × Draft) : Limits r.2.demand (fun r => r.2.demand)
        (.ok (r.2.place v (.matrix r.1))) (.ok (r.2.place v (.matrix r.1))) := .ok rfl
    have hbind := (addMatrix_limits d v.type v.external).bind hplace
    generalize d.addMatrix v.type v.external = x at hbind
    cases x <;> exact hbind
  cases v.external with
  | some x =>
      have hsize : (d.bindings.push x).size = d.bindings.size + 1 := Array.size_push _
      refine Limits.room ⟨Nat.le_refl _, ?_, Nat.le_refl _⟩
        (fun hd => ⟨fun h => ?_, fun h => ?_⟩) rfl
      · exact Nat.le_of_lt (Nat.lt_of_lt_of_eq (Nat.lt_succ_self _) hsize.symm)
      · exact ⟨hd.matrices, Nat.le_trans (Nat.le_of_eq hsize) h, hd.bytes⟩
      · exact Nat.le_trans (Nat.le_of_eq hsize.symm) h.bindings
  | none =>
      exact Limits.room ⟨Nat.le_refl _, Nat.le_refl _, Nat.le_add_right _ _⟩
        (fun hd => ⟨fun h => ⟨hd.matrices, hd.bindings, h⟩, fun h => h.bytes⟩) rfl

section Instructions

variable (o : CompileOptions) (line : Nat) (d : Draft)

theorem push_limits (limit : Option Nat) (s : Slot) :
    Limits d.demand demand (d.push limit line s) (d.push limit line s) := by
  refine .unlimited fun d' h => ?_
  rw [push_eq_ok h]
  rfl

theorem read_limits (name : String) :
    Limits d.demand demand (read o line d name) (Unbounded.read o line d name) := by
  unfold read Unbounded.read
  cases d.vars.get? name with
  | none => exact .error _
  | some v =>
  dsimp only
  split
  · exact .error _
  · have hbind := (allocate_limits d v).bind fun r => push_limits line
      (r.2.emit line (loadOpcode (elementKind v.type) r.1) [] (some v.type) none) o.maxStackDepth
      ⟨v.type, matrixNumber? r.1⟩
    generalize d.allocate v = x at hbind ⊢
    cases x <;> exact hbind

theorem detachSlot_limits (depth : Nat) (s : Slot) :
    Limits d.demand (fun r => r.2.demand) (detachSlot line depth s d)
      (Unbounded.detachSlot line depth s d) := by
  unfold detachSlot Unbounded.detachSlot
  split
  · exact .error _
  · have hcopy (r : Nat × Draft) : Limits r.2.demand (fun r : Slot × Draft => r.2.demand)
        (.ok (⟨s.type, none⟩, r.2.emit line (.copyMatrix depth r.1) [s.type] (some s.type) none))
        (.ok (⟨s.type, none⟩, r.2.emit line (.copyMatrix depth r.1) [s.type] (some s.type) none)) :=
      .ok rfl
    have hbind := (addMatrix_limits d s.type none).bind hcopy
    generalize d.addMatrix s.type none = x at hbind ⊢
    cases x <;> exact hbind

theorem detachSlots_limits (number depth : Nat) (slots : List Slot) :
    Limits d.demand (fun r => r.2.demand) (detachSlots line number depth slots d)
      (Unbounded.detachSlots line number depth slots d) := by
  induction slots generalizing depth d with
  | nil => exact .ok rfl
  | cons s slots ih =>
      unfold detachSlots Unbounded.detachSlots
      refine (ih d (depth + 1)).bind fun r => ?_
      obtain ⟨slots, d₁⟩ := r
      dsimp only
      split
      · exact (detachSlot_limits line d₁ depth s).bind fun r => .ok rfl
      · exact .ok rfl

theorem detachTarget_limits (l : Location) :
    Limits d.demand demand (detachTarget line d l) (Unbounded.detachTarget line d l) := by
  cases l with
  | matrix number => exact (detachSlots_limits line d number 1 _).bind fun r => .ok rfl
  | _ => exact .ok rfl

theorem write_limits (name : String) :
    Limits d.demand demand (write line d name) (Unbounded.write line d name) := by
  unfold write Unbounded.write
  cases d.stack.slots with
  | nil => exact .error _
  | cons s rest =>
  dsimp only
  cases d.vars.get? name with
  | none => exact .error _
  | some v =>
  have hinfer : Limits d.demand (fun _ => d.demand) (inferType v s.type) (inferType v s.type) :=
    .unlimited fun _ _ => rfl
  refine hinfer.bind fun w => ?_
  have hstore (r : Location × Draft) : Limits r.2.demand demand
      (do
        let d ← convertForWrite line name s.type w.type r.2
        let d ← detachTarget line d r.1
        .ok (d.emit line (storeOpcode (elementKind w.type) r.1) [w.type] none none))
      (do
        let d ← convertForWrite line name s.type w.type r.2
        let d ← Unbounded.detachTarget line d r.1
        .ok (d.emit line (storeOpcode (elementKind w.type) r.1) [w.type] none none)) := by
    have hconvert : Limits r.2.demand demand (convertForWrite line name s.type w.type r.2)
        (convertForWrite line name s.type w.type r.2) := by
      refine .unlimited fun d' h => ?_
      rcases convertForWrite_eq_ok h with ⟨-, rfl⟩ | ⟨j, k, -, -, rfl⟩ <;> rfl
    refine hconvert.bind fun d₁ => ?_
    exact (detachTarget_limits line d₁ r.1).bind fun d₂ => .ok rfl
  exact (allocate_limits { d with vars := d.vars.set w, stack := d.stack.drop 1 } w).bind hstore

theorem operationOpcode_limits (r : Resolution) :
    Limits d.demand (fun r => r.2.demand) (d.operationOpcode r)
      (.ok (Unbounded.operationOpcode d r)) := by
  unfold operationOpcode Unbounded.operationOpcode
  cases r.operation with
  | scalar kernel k => exact .ok rfl
  | matrix op =>
      have hopcode (r : Nat × Draft) : Limits r.2.demand (fun r : Opcode × Draft => r.2.demand)
        (.ok (.matrix op r.1, r.2)) (.ok (.matrix op r.1, r.2)) := .ok rfl
      have hbind := (addMatrix_limits d r.output none).bind hopcode
      dsimp only
      generalize d.addMatrix r.output none = x at hbind ⊢
      cases x <;> exact hbind

theorem demand_widen (ws : List Widening) : (ws.foldl (widen line) d).demand = d.demand := by
  induction ws generalizing d with
  | nil => rfl
  | cons w ws ih => exact ih (widen line d w)

theorem operator_limits (name : String) :
    Limits d.demand demand (operator o line d name) (Unbounded.operator o line d name) := by
  unfold operator Unbounded.operator
  cases Kernel.ofName? name with
  | none => exact .error _
  | some kernel =>
  dsimp only
  split
  · exact .error _
  have hresolve (x : Except Error Resolution) : Limits d.demand (fun _ => d.demand) x x :=
    .unlimited fun _ _ => rfl
  refine (hresolve _).bind fun r => ?_
  have hopcode := operationOpcode_limits (r.widenings.foldl (widen line) d) r
  rw [demand_widen] at hopcode
  exact hopcode.bind fun c => push_limits line
    ((c.2.emit line c.1 r.inputs (some r.output)
      (if name = c.1.name then none else some name)).withStack (c.2.stack.drop kernel.arity))
    o.maxStackDepth ⟨r.output, none⟩

theorem instruction_limits (i : Postfix.Instruction) :
    Limits d.demand demand (instruction o line d i) (Unbounded.instruction o line d i) := by
  cases i with
  | read name => exact read_limits o line d name
  | write name => exact write_limits line d name
  | const typeName literal =>
      refine .unlimited fun d' h => ?_
      obtain ⟨k, x, -, -, rfl⟩ := const_eq_ok h
      rfl
  | cast typeName =>
      refine .unlimited fun d' h => ?_
      obtain ⟨t, s, rest, -, -, -, rfl⟩ := cast_eq_ok h
      rfl
  | operator name => exact operator_limits o line d name

theorem line_limits (l : Nat × Except Error Postfix.Instruction) :
    Limits d.demand demand (Draft.line o d l) (Unbounded.line o d l) := by
  obtain ⟨number, x⟩ := l
  cases x with
  | error e => exact .error e
  | ok i => exact instruction_limits o (number % lineLimit) d i

end Instructions

theorem allocateUnused_limits (d : Draft) (name : String) :
    Limits d.demand demand (allocateUnused d name) (Unbounded.allocateUnused d name) := by
  unfold allocateUnused Unbounded.allocateUnused
  cases d.vars.get? name with
  | none => exact .ok rfl
  | some v =>
  dsimp only
  split
  · exact .error _
  · exact (allocate_limits d v).map fun r => rfl

theorem finish_limits (d : Draft) :
    Limits d.demand Program.demand d.finish (Unbounded.finish d) := by
  unfold finish Unbounded.finish
  split
  · exact .error _
  split
  · exact .error _
  · exact (Limits.foldlM allocateUnused_limits (names d.vars) d).map fun _ => rfl

end Draft

section Compile

variable (text : String) (vs : Variables) (o : CompileOptions)

theorem compile_limits : Limits (Draft.start vs).demand Program.demand (compile text vs o)
    (Unbounded.compile text vs o) :=
  (Limits.foldlM (Draft.line_limits o) _ (Draft.start vs)).bind Draft.finish_limits

theorem inBounds_start : (Draft.start vs).demand.InBounds :=
  ⟨Nat.zero_le _, Nat.zero_le _, show 0 < 2 ^ 32 by decide⟩

end Compile

end FormulaMachine
