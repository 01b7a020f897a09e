import FormulaMachine.Proofs.Compiler.Compile
import FormulaMachine.Proofs.Machine.Locality
import FormulaMachine.Proofs.Machine.Overlap

namespace FormulaMachine

structure Machine where
  store : Store
  slots : Array Word
  top : Nat
  deriving DecidableEq, Repr

namespace Program

def resultCell (p : Program) (checked : Bool) (op : MatrixOp) (k : Kind) (target : DataType)
    (a b : Word) (s : Store) (i : Nat) : Except Fault Word :=
  match op with
  | .sum =>
      (Scalar.arithmetic checked .sum (p.element s k a.toNat i) (p.element s k b.toNat i)).map
        Scalar.toWord
  | .sub =>
      (Scalar.arithmetic checked .sub (p.element s k a.toNat i) (p.element s k b.toNat i)).map
        Scalar.toWord
  | .product =>
      (p.rowTimesColumn checked k (p.matrixType a.toNat).dims.2 target.dims.2 s a.toNat b.toNat
        (i / target.dims.2) (i % target.dims.2)).map Scalar.toWord
  | .scaleLeft =>
      (Scalar.arithmetic checked .mul (p.element s k b.toNat i) (.ofWord k a)).map Scalar.toWord
  | .scaleRight =>
      (Scalar.arithmetic checked .mul (p.element s k a.toNat i) (.ofWord k b)).map Scalar.toWord

def fillCells (p : Program) (number : Nat) (cell : Store → Nat → Except Fault Word) (s : Store) :
    List Nat → Store × Option Fault
  | [] => (s, none)
  | i :: is =>
      match cell s i with
      | .error f => (s, some f)
      | .ok w => p.fillCells number cell (p.setMatrixCell s number i w) is

end Program

namespace Machine

def new (p : Program) (shared : Shared) : Machine :=
  ⟨⟨p.newOwned, shared⟩, Array.replicate p.sizes.maxStackDepth 0, 0⟩

def push (m : Machine) (w : Word) : Machine × Option Fault :=
  if m.top < m.slots.size then
    ({ m with slots := m.slots.setIfInBounds m.top w, top := m.top + 1 }, none)
  else (m, some .stackOverflow)

def pop (m : Machine) (next : Word → Machine → Machine × Option Fault) :
    Machine × Option Fault :=
  match m.top with
  | 0 => (m, some .stackUnderflow)
  | top + 1 => next (m.slots.getD top 0) { m with top := top }

def inPlace (m : Machine) (depth : Nat) (next : Nat → Word → Machine × Option Fault) :
    Machine × Option Fault :=
  if depth < m.top then
    next (m.top - 1 - depth) (m.slots.getD (m.top - 1 - depth) 0)
  else (m, some .stackUnderflow)

def pushResult (m : Machine) : Except Fault Word → Machine × Option Fault
  | .error f => (m, some f)
  | .ok w => m.push w

def combine (p : Program) (checked : Bool) (op : MatrixOp) (k : Kind) (target : Nat)
    (b a : Word) (m : Machine) : Machine × Option Fault :=
  let cell := p.resultCell checked op k (p.matrixType target) a b
  match p.fillCells target cell m.store (List.range (p.matrixType target).length) with
  | (s, some f) => ({ m with store := s }, some f)
  | (s, none) => { m with store := s }.push (Program.matrixWord target)

def matrixStep (p : Program) (checked : Bool) (op : MatrixOp) (target : Nat) (m : Machine) :
    Machine × Option Fault :=
  match (p.matrixType target).kind? with
  | none => (m, some .badOperand)
  | some k => m.pop fun b m => m.pop (combine p checked op k target b)

def step (p : Program) (checked : Bool) (opcode : Opcode) (m : Machine) :
    Machine × Option Fault :=
  match opcode with
  | .loadConstant offset k =>
      m.push (Scalar.ofBytes k (readBytes p.constants offset k.size)).toWord
  | .loadVariable offset k => m.push (m.store.readScalar offset k).toWord
  | .loadExternal number k => m.push (Scalar.ofWord k (p.bindingCell m.store number)).toWord
  | .loadMatrix number => m.push (Program.matrixWord number)
  | .storeVariable offset k =>
      m.pop fun w m => ({ m with store := m.store.writeScalar offset (Scalar.ofWord k w) }, none)
  | .storeExternal number _ =>
      m.pop fun w m => ({ m with store := p.setBindingCell m.store number w }, none)
  | .storeMatrix number =>
      m.pop fun w m => ({ m with store := p.copyMatrix w.toNat number m.store }, none)
  | .copyMatrix depth target =>
      m.inPlace depth fun i w =>
        ({ m with
          store := p.copyMatrix w.toNat target m.store
          slots := m.slots.setIfInBounds i (Program.matrixWord target) }, none)
  | .cast j k depth _ =>
      if j = k then (m, none)
      else m.inPlace depth fun i w =>
        match Scalar.cast checked k (Scalar.ofWord j w) with
        | .error f => (m, some f)
        | .ok x => ({ m with slots := m.slots.setIfInBounds i x.toWord }, none)
  | .scalar (.unary op) k => m.pop fun x m => m.pushResult (Kernel.applyUnary checked op k x)
  | .scalar kernel k =>
      m.pop fun r m => m.pop fun l m => m.pushResult (Kernel.applyBinary checked kernel k l r)
  | .matrix op target => m.matrixStep p checked op target

def runFrom (p : Program) (checked : Bool) (position : Nat) (m : Machine) :
    List Entry → Machine × Option Error
  | [] => (m, none)
  | e :: entries =>
      match m.step p checked e.opcode with
      | (m, some f) => (m, some (Program.faultAt position e f))
      | (m, none) => m.runFrom p checked (position + 1) entries

def state (m : Machine) : State :=
  ⟨m.store, .ofList (m.slots.toList.take m.top).reverse⟩

def traceFrom (p : Program) (position : Nat) (m : Machine) (sink : Sink) :
    List Entry → Machine × Option Error × Sink
  | [] =>
      match sink.write (p.traceEnd m.state) with
      | (sink, false) => (m, some .traceRefused, sink)
      | (sink, true) => (m, none, sink)
  | e :: entries =>
      match sink.write (p.traceBefore position e m.state) with
      | (sink, false) => (m, some .traceRefused, sink)
      | (sink, true) =>
          match m.step p true e.opcode with
          | (m, some f) =>
              match sink.write Program.traceFault with
              | (sink, false) => (m, some .traceRefused, sink)
              | (sink, true) => (m, some (Program.faultAt position e f), sink)
          | (m, none) =>
              match sink.write (p.traceAfter e m.state) with
              | (sink, false) => (m, some .traceRefused, sink)
              | (sink, true) => m.traceFrom p (position + 1) sink entries

def execute (p : Program) (mode : Mode) (m : Machine) (sink : Option Sink) :
    Machine × Option Error × Option Sink :=
  match mode, sink with
  | .fast, sink =>
      let (m, stopped) := { m with top := 0 }.runFrom p false 0 p.code.toList
      (m, stopped, sink)
  | .safe, sink =>
      let (m, stopped) := { m with top := 0 }.runFrom p true 0 p.code.toList
      (m, stopped, sink)
  | .debug, none => (m, some .missingSink, none)
  | .debug, some sink =>
      match sink.write Program.traceHeader with
      | (sink, false) => ({ m with top := 0 }, some .traceRefused, some sink)
      | (sink, true) =>
          let (m, stopped, sink) := { m with top := 0 }.traceFrom p 0 sink p.code.toList
          (m, stopped, some sink)

structure Fits (m : Machine) (p : Program) : Prop where
  store : p.Fits m.store
  size : m.slots.size = p.sizes.maxStackDepth
  top : m.top ≤ m.slots.size

inductive Reached (p : Program) : Machine → Prop
  | new {shared : Shared} (h : Program.Provides shared p) : Reached p (.new p shared)
  | setValue {m : Machine} {s : Store} {name : String} {x : Value} (hm : Reached p m)
      (h : p.setValue m.store name x = .ok s) : Reached p { m with store := s }
  | setMatrix {m : Machine} (name : String) (xs : List (Scalar .float64)) (hm : Reached p m) :
      Reached p { m with store := (p.setMatrix m.store name xs).1 }
  | storeShared {m : Machine} (memory index : Nat) (w : Word) (hm : Reached p m) :
      Reached p { m with store.shared := m.store.shared.store memory index w }
  | execute {m : Machine} (mode : Mode) (sink : Option Sink) (hm : Reached p m) :
      Reached p (m.execute p mode sink).1

end Machine

namespace Program

variable {p : Program}

def temporaries (p : Program) : Set Address :=
  {a | ∃ number i, p.Temporary number ∧ a = .cell (.owned number i)}

theorem Temporary.area_subset {number : Nat} (h : p.Temporary number) :
    p.matrixArea number ⊆ p.temporaries := by
  rintro a ⟨i, -, rfl⟩
  exact ⟨number, i, h, by rw [matrixAt_of_owned h.owned]⟩

end Program

namespace Store.ChangedIn

variable {area area' : Set Address} {s s' s'' : Store}

theorem refl (area : Set Address) (s : Store) : s.ChangedIn area s :=
  ⟨rfl, fun _ _ => rfl⟩

theorem trans (h : s.ChangedIn area s') (h' : s'.ChangedIn area s'') : s.ChangedIn area s'' :=
  ⟨h'.shape.trans h.shape, fun a ha => (h'.content a ha).trans (h.content a ha)⟩

theorem mono (h : s.ChangedIn area s') (hsub : area ⊆ area') : s.ChangedIn area' s' :=
  ⟨h.shape, fun a ha => h.content a fun hmem => ha (hsub hmem)⟩

end Store.ChangedIn

namespace Program

variable {p : Program} {checked : Bool} {number : Nat}

theorem changedIn_setMatrixCell (s : Store) {i : Nat} (hi : i < (p.matrixType number).length)
    (w : Word) : s.ChangedIn (p.matrixArea number) (p.setMatrixCell s number i w) := by
  rw [setMatrixCell_eq]
  refine ⟨s.shape_setCell _ w, fun a ha => Store.content_setCell_of_ne s ?_ w⟩
  rintro rfl
  exact ha (matrixAt_mem_matrixArea hi)

theorem matrixResult_eq_mapM {op : MatrixOp} {k : Kind} {rows cols : Nat} (s : Store)
    (a b : Word) : p.matrixResult checked op (.matrix k rows cols) s a b =
      (List.range (DataType.matrix k rows cols).length).mapM
        (p.resultCell checked op k (.matrix k rows cols) a b s) := by
  cases op <;> rfl

theorem fillCells_eq {cell : Store → Nat → Except Fault Word} {s₀ : Store}
    (hcell : ∀ s i, i < (p.matrixType number).length → s₀.ChangedIn (p.matrixArea number) s →
      cell s i = cell s₀ i) {s : Store} (hs : s₀.ChangedIn (p.matrixArea number) s) (i n : Nat)
    (hn : i + n ≤ (p.matrixType number).length) :
    (∃ ws, (List.range' i n).mapM (cell s₀) = .ok ws ∧
        p.fillCells number cell s (List.range' i n) = (p.setMatrixCells number s i ws, none)) ∨
      ∃ f s', (List.range' i n).mapM (cell s₀) = .error f ∧
        p.fillCells number cell s (List.range' i n) = (s', some f) ∧
        s₀.ChangedIn (p.matrixArea number) s' := by
  induction n generalizing s i with
  | zero => exact .inl ⟨[], rfl, rfl⟩
  | succ n ih =>
      rw [List.range'_succ, List.mapM_cons, fillCells, hcell s i (by omega) hs]
      cases hw : cell s₀ i with
      | error f => exact .inr ⟨f, s, rfl, rfl, hs⟩
      | ok w =>
          have hs' := hs.trans (changedIn_setMatrixCell s (i := i) (by omega) w)
          dsimp only
          rcases ih hs' (i + 1) (by omega) with ⟨ws, hws, hfill⟩ | ⟨f, s', hf, hfill, hchanged⟩
          · refine .inl ⟨w :: ws, ?_, hfill⟩
            rw [hws]
            rfl
          · refine .inr ⟨f, s', ?_, hfill, hchanged⟩
            rw [hf]
            rfl

theorem resultCell_of_changedIn {op : MatrixOp} {target : Nat} {a b : Held} {wa wb : Word}
    {k : Kind} {rows cols : Nat} (hfew : p.matrices.size ≤ 1 <<< 16)
    (hc : p.Combines op target a b) (htarget : p.matrixType target = .matrix k rows cols)
    (ha : a.Matches wa) (hb : b.Matches wb)
    (hdisj : ∀ m, .matrix m ∈ [a, b] → Disjoint (p.matrixArea m) (p.matrixArea target))
    {s s' : Store} (h : s.ChangedIn (p.matrixArea target) s') {i : Nat} (hi : i < rows * cols) :
    p.resultCell checked op k (.matrix k rows cols) wa wb s' i =
      p.resultCell checked op k (.matrix k rows cols) wa wb s i := by
  have htype {k' : Kind} {rows' cols' : Nat} (ht' : p.matrixType target = .matrix k' rows' cols') :
      k' = k ∧ rows' = rows ∧ cols' = cols := by
    rw [htarget] at ht'
    exact DataType.matrix.inj ht'.symm
  have helement {m r c j : Nat} (hm : .matrix m ∈ [a, b]) (ht : p.matrixType m = .matrix k r c)
      (hj : j < r * c) : p.element s' k m j = p.element s k m j := by
    refine congrArg (Scalar.ofWord k) (matrixCell_of_changedIn h (hdisj m hm) ?_)
    rw [ht]
    exact hj
  have hword {m : Nat} {k' : Kind} {r c : Nat} (hm : p.matrixType m = .matrix k' r c) :
      (matrixWord m).toNat = m :=
    toNat_matrixWord hfew (lt_of_matrixType hm)
  cases hc with
  | sum _ ht' hm hn =>
      obtain ⟨rfl, rfl, rfl⟩ := htype ht'
      obtain rfl := ha
      obtain rfl := hb
      simp only [resultCell, hword hm, hword hn]
      rw [helement (by simp) hm hi, helement (by simp) hn hi]
  | sub _ ht' hm hn =>
      obtain ⟨rfl, rfl, rfl⟩ := htype ht'
      obtain rfl := ha
      obtain rfl := hb
      simp only [resultCell, hword hm, hword hn]
      rw [helement (by simp) hm hi, helement (by simp) hn hi]
  | product _ ht' hm hn =>
      obtain ⟨rfl, rfl, rfl⟩ := htype ht'
      obtain rfl := ha
      obtain rfl := hb
      obtain ⟨hrow, hcol⟩ := row_column_lt hi
      simp only [resultCell, hword hm, hword hn, hm, DataType.dims, rowTimesColumn]
      congr 1
      refine foldlM_congr (fun sum t ht => ?_) _
      have hlt := List.mem_range.mp ht
      rw [helement (by simp) hm (rowIndices_lt _ (mem_rowIndices hrow hlt)),
        helement (by simp) hn (columnIndices_lt _ (mem_columnIndices hlt hcol))]
  | scaleLeft _ ht' hn =>
      obtain ⟨rfl, rfl, rfl⟩ := htype ht'
      obtain rfl := hb
      simp only [resultCell, hword hn]
      rw [helement (by simp) hn hi]
  | scaleRight _ ht' hm =>
      obtain ⟨rfl, rfl, rfl⟩ := htype ht'
      obtain rfl := ha
      simp only [resultCell, hword hm]
      rw [helement (by simp) hm hi]

end Program

namespace Machine

variable {p : Program} {m : Machine} {s : Store} {checked : Bool}

inductive Mirrors (p : Program) (s : Store) : Machine × Option Fault → Except Fault State → Prop
  | ok {m : Machine} {st : State} (hm : m.Fits p) (hst : m.state = st) :
      Mirrors p s (m, none) (.ok st)
  | fault {m : Machine} (f : Fault) (hm : m.Fits p) (hs : s.ChangedIn p.temporaries m.store) :
      Mirrors p s (m, some f) (.error f)

theorem slots_state (m : Machine) : m.state.stack.slots = (m.slots.toList.take m.top).reverse :=
  rfl

theorem depth_state (hm : m.Fits p) : m.state.stack.depth = m.top := by
  have htop := hm.top
  rw [Stack.depth_eq, slots_state, List.length_reverse, List.length_take, Array.length_toList]
  omega

theorem push_mirrors (hm : m.Fits p) (hs : s.ChangedIn p.temporaries m.store) (w : Word) :
    Mirrors p s (m.push w) (p.push w m.state) := by
  unfold push Program.push
  rw [depth_state hm, hm.size]
  split
  · rename_i hroom
    have hlt : m.top < m.slots.size := hm.size.symm ▸ hroom
    refine .ok ⟨hm.store, by simpa using hm.size, by simpa using Nat.succ_le_of_lt hlt⟩ ?_
    refine congrArg (State.mk m.store) (Stack.eq_of_slots_eq ?_)
    simp only [state, Stack.slots_push, Stack.slots_ofList, Array.toList_setIfInBounds]
    rw [List.take_succ_eq_append_getElem (by simpa using hlt), List.take_set_of_le (Nat.le_refl _)]
    simp
  · exact .fault _ hm hs

theorem pop_cases (hm : m.Fits p) (next : Word → Machine → Machine × Option Fault) :
    m.state.stack.slots = [] ∧ m.pop next = (m, some .stackUnderflow) ∨
      ∃ w m', m.pop next = next w m' ∧ m'.Fits p ∧ m'.store = m.store ∧
        m.state.stack.slots = w :: m'.state.stack.slots ∧
        m.state.stack.drop 1 = m'.state.stack := by
  have htop := hm.top
  unfold pop
  cases hn : m.top with
  | zero => exact .inl ⟨by rw [slots_state, hn]; rfl, rfl⟩
  | succ n =>
      have hlt : n < m.slots.toList.length := by
        rw [Array.length_toList]
        omega
      have hslots : m.state.stack.slots =
          m.slots.getD n 0 :: (m.slots.toList.take n).reverse := by
        rw [slots_state, hn, List.take_succ_eq_append_getElem hlt]
        simp [Array.getD_eq_getD_getElem?, show n < m.slots.size by omega]
      refine .inr ⟨_, _, rfl, ⟨hm.store, hm.size, Nat.le_of_lt (by simpa using hlt)⟩, rfl, hslots,
        ?_⟩
      refine Stack.eq_of_slots_eq ?_
      rw [Stack.slots_drop, hslots]
      rfl

theorem reverse_set_of_lt {α : Type} {xs : List α} {i : Nat} (h : i < xs.length) (x : α) :
    (xs.set (xs.length - 1 - i) x).reverse = xs.reverse.set i x := by
  refine List.ext_getElem? fun j => ?_
  grind

theorem inPlace_cases (hm : m.Fits p) (depth : Nat)
    (next : Nat → Word → Machine × Option Fault) :
    m.state.stack.slots[depth]? = none ∧ m.inPlace depth next = (m, some .stackUnderflow) ∨
      ∃ i w, m.inPlace depth next = next i w ∧ m.state.stack.slots[depth]? = some w ∧
        ∀ s v, p.Fits s → ({ m with store := s, slots := m.slots.setIfInBounds i v }).Fits p ∧
          { m with store := s, slots := m.slots.setIfInBounds i v }.state =
            ⟨s, m.state.stack.set depth v⟩ := by
  have htop := hm.top
  have hlen : (m.slots.toList.take m.top).length = m.top := by
    rw [List.length_take, Array.length_toList]
    omega
  unfold inPlace
  split
  · rename_i hlt
    have hi : m.top - 1 - depth < m.slots.size := by omega
    refine .inr ⟨_, _, rfl, ?_, fun s v hs => ⟨⟨hs, ?_, ?_⟩, ?_⟩⟩
    · rw [slots_state, List.getElem?_reverse (by rwa [hlen]), hlen,
        List.getElem?_take_of_lt (by omega)]
      simp [Array.getD_eq_getD_getElem?, hi]
    · simpa using hm.size
    · simpa using htop
    · refine congrArg (State.mk s) (Stack.eq_of_slots_eq ?_)
      have hset : ((m.slots.toList.take m.top).set (m.top - 1 - depth) v).reverse =
          (m.slots.toList.take m.top).reverse.set depth v := by
        have hset := reverse_set_of_lt (hlen.symm ▸ hlt) v
        rwa [hlen] at hset
      simp only [state, Stack.slots_set, Stack.slots_ofList, Array.toList_setIfInBounds,
        List.take_set, hset]
  · rename_i hge
    refine .inl ⟨?_, rfl⟩
    rw [slots_state, List.getElem?_eq_none_iff, List.length_reverse, hlen]
    omega

theorem popInto_mirrors (hm : m.Fits p) {keep : Word → Store → Store}
    (hkeep : ∀ w s, (keep w s).shape = s.shape) :
    Mirrors p m.store (m.pop fun w m => ({ m with store := keep w m.store }, none))
      (Program.popInto m.state keep) := by
  unfold Program.popInto
  rcases pop_cases hm fun w m => ({ m with store := keep w m.store }, none) with
    ⟨hslots, hpop⟩ | ⟨w, m', hpop, hm', hstore, hslots, hdrop⟩
  · rw [hslots, hpop]
    exact .fault _ hm (.refl _ _)
  · rw [hslots, hpop]
    refine .ok ⟨hm'.store.of_shape (hkeep w m'.store), hm'.size, hm'.top⟩ ?_
    rw [hdrop, hstore]
    rfl

theorem room_of_slots (hm : m.Fits p) {m' : Machine} {w : Word}
    (h : m.state.stack.slots = w :: m'.state.stack.slots) :
    m'.state.stack.depth < p.sizes.maxStackDepth := by
  have hlen := congrArg List.length h
  rw [List.length_cons, ← Stack.depth_eq, ← Stack.depth_eq, depth_state hm] at hlen
  have htop := hm.top
  rw [hm.size] at htop
  omega

theorem pushResult_mirrors (hm : m.Fits p) (hs : m.store = s)
    (hroom : m.state.stack.depth < p.sizes.maxStackDepth) (r : Except Fault Word) :
    Mirrors p s (m.pushResult r) (r.map fun w => ⟨s, m.state.stack.push w⟩) := by
  subst hs
  cases r with
  | error f => exact .fault f hm (.refl _ _)
  | ok w =>
      have hpush := push_mirrors hm (.refl _ _) w
      rwa [Program.push_eq_ok hroom] at hpush

theorem unary_mirrors (hm : m.Fits p) (op : UnaryOp) (k : Kind) :
    Mirrors p m.store (m.step p checked (.scalar (.unary op) k))
      (p.step checked (.scalar (.unary op) k) m.state) := by
  rw [step, Program.step]
  rcases pop_cases hm _ with ⟨hslots, hpop⟩ | ⟨x, m', hpop, hm', hstore, hslots, hdrop⟩
  · rw [hpop]
    simp only [Kernel.onStack, hslots]
    exact .fault _ hm (.refl _ _)
  · rw [hpop]
    simp only [Kernel.onStack, hslots, map_map_result, hdrop]
    exact pushResult_mirrors hm' hstore (room_of_slots hm hslots) _

theorem pop_pop_cases (hm : m.Fits p) (next : Word → Word → Machine → Machine × Option Fault) :
    (∃ m', m.pop (fun b m => m.pop (next b)) = (m', some .stackUnderflow) ∧ m'.Fits p ∧
        m'.store = m.store ∧ m.state.stack.slots.length < 2) ∨
      ∃ b a m', m.pop (fun b m => m.pop (next b)) = next b a m' ∧ m'.Fits p ∧
        m'.store = m.store ∧ m.state.stack.slots = b :: a :: m'.state.stack.slots ∧
        m.state.stack.drop 2 = m'.state.stack ∧
        m'.state.stack.depth < p.sizes.maxStackDepth := by
  rcases pop_cases hm fun b m => m.pop (next b) with
    ⟨hslots, hpop⟩ | ⟨b, m₁, hpop, hm₁, hstore₁, hslots₁, -⟩
  · exact .inl ⟨m, hpop, hm, rfl, by rw [hslots]; exact Nat.zero_lt_two⟩
  rcases pop_cases hm₁ (next b) with
    ⟨hslots, hpop'⟩ | ⟨a, m₂, hpop', hm₂, hstore₂, hslots₂, -⟩
  · exact .inl ⟨m₁, hpop.trans hpop', hm₁, hstore₁, by rw [hslots₁, hslots]; exact Nat.one_lt_two⟩
  · have hslots : m.state.stack.slots = b :: a :: m₂.state.stack.slots := by
      rw [hslots₁, hslots₂]
    refine .inr ⟨b, a, m₂, hpop.trans hpop', hm₂, hstore₂.trans hstore₁, hslots, ?_,
      room_of_slots hm₁ hslots₂⟩
    refine Stack.eq_of_slots_eq ?_
    rw [Stack.slots_drop, hslots]
    rfl

theorem onStack_of_length_lt {kernel : Kernel} {k : Kind} {stack : Stack Word}
    (hkernel : ∀ op, kernel ≠ .unary op) (h : stack.slots.length < 2) :
    kernel.onStack checked k stack = .error .stackUnderflow := by
  unfold Kernel.onStack
  split
  · exact absurd rfl (hkernel _)
  · rename_i hslots
    rw [hslots] at h
    simp only [List.length_cons] at h
    omega
  · rfl

theorem binary_mirrors (hm : m.Fits p) {kernel : Kernel} (hkernel : ∀ op, kernel ≠ .unary op)
    (k : Kind) :
    Mirrors p m.store (m.step p checked (.scalar kernel k))
      (p.step checked (.scalar kernel k) m.state) := by
  have hstep : m.step p checked (.scalar kernel k) = m.pop fun r m => m.pop fun l m =>
      m.pushResult (Kernel.applyBinary checked kernel k l r) := by
    cases kernel with
    | unary op => exact absurd rfl (hkernel op)
    | _ => rfl
  rw [hstep, Program.step]
  rcases pop_pop_cases hm fun r l m => m.pushResult (Kernel.applyBinary checked kernel k l r) with
    ⟨m', hpop, hm', hstore, hlen⟩ | ⟨r, l, m', hpop, hm', hstore, hslots, hdrop, hroom⟩
  · rw [hpop, onStack_of_length_lt hkernel hlen]
    exact .fault _ hm' (hstore ▸ .refl _ _)
  · have honStack : kernel.onStack checked k m.state.stack =
        (Kernel.applyBinary checked kernel k l r).map m'.state.stack.push := by
      rw [← hdrop]
      cases kernel with
      | unary op => exact absurd rfl (hkernel op)
      | _ => simp only [Kernel.onStack, hslots]
    rw [hpop, honStack, map_map_result]
    exact pushResult_mirrors hm' hstore hroom _

theorem matrixStep_mirrors (hp : p.layout.Sound) (hm : m.Fits p) {hs : List Held} {op : MatrixOp}
    {target : Nat} {a b : Held} (hc : p.Combines op target a b) (htemp : p.Temporary target)
    (hfree : .matrix target ∉ b :: a :: hs)
    (hwords : List.Forall₂ Held.Matches (b :: a :: hs) m.state.stack.slots) :
    Mirrors p m.store (m.matrixStep p checked op target)
      (p.matrixStep checked op target m.state) := by
  obtain ⟨k, rows, cols, -, htarget⟩ := hc.target_type
  obtain ⟨wb, ws, hb, hws, hslots⟩ := List.forall₂_cons_left_iff.mp hwords
  obtain ⟨wa, rest, ha, -, rfl⟩ := List.forall₂_cons_left_iff.mp hws
  have hdisj (n : Nat) (hn : .matrix n ∈ [a, b]) :
      Disjoint (p.matrixArea n) (p.matrixArea target) := by
    refine (Program.matrixArea_disjoint_of_owned htemp.owned ?_).symm
    rintro rfl
    exact hfree (by rcases List.mem_pair.mp hn with rfl | rfl <;> simp)
  unfold matrixStep Program.matrixStep
  rw [htarget, hslots]
  dsimp only [DataType.kind?]
  rcases pop_pop_cases hm (combine p checked op k target) with
    ⟨m', -, -, -, hlen⟩ | ⟨b', a', m', hpop, hm', hstore, hslots', hdrop, hroom⟩
  · rw [hslots] at hlen
    simp only [List.length_cons] at hlen
    omega
  obtain ⟨rfl, htail⟩ := List.cons.inj (hslots.symm.trans hslots')
  obtain ⟨rfl, -⟩ := List.cons.inj htail
  have hcell (s : Store) (i : Nat) (hi : i < (p.matrixType target).length)
      (hs : m'.store.ChangedIn (p.matrixArea target) s) :
      p.resultCell checked op k (.matrix k rows cols) wa wb s i =
        p.resultCell checked op k (.matrix k rows cols) wa wb m'.store i := by
    rw [htarget] at hi
    exact Program.resultCell_of_changedIn hp.matricesFew hc htarget ha hb hdisj hs hi
  have hlen : (p.matrixType target).length = (DataType.matrix k rows cols).length := by
    rw [htarget]
  have hstore' : m.state.store = m'.store := hstore.symm
  rw [hpop, combine, htarget, Program.matrixResult_eq_mapM, hdrop, hstore',
    List.range_eq_range', ← hstore]
  rcases Program.fillCells_eq hcell (.refl _ _) 0 (p.matrixType target).length (by omega) with
    ⟨ws, hws, hfill⟩ | ⟨f, s', hf, hfill, hchanged⟩
  · rw [hlen] at hws hfill
    rw [hfill, hws]
    have hcount : ws.length = (p.matrixType target).length := by
      rw [length_of_mapM hws, List.length_range', hlen]
    have hchanged := (Program.changedIn_setMatrixCells m'.store hcount).mono htemp.area_subset
    let filled : Machine := { m' with store := p.setMatrixCells target m'.store 0 ws }
    have hfilled : filled.Fits p := ⟨hm'.store.of_shape hchanged.shape, hm'.size, hm'.top⟩
    exact push_mirrors hfilled hchanged (Program.matrixWord target)
  · rw [hlen] at hf hfill
    rw [hfill, hf]
    exact .fault f ⟨hm'.store.of_shape hchanged.shape, hm'.size, hm'.top⟩
      (hchanged.mono htemp.area_subset)

theorem step_mirrors (hp : p.layout.Sound) (hm : m.Fits p) {hs hs' : List Held} {e : Entry}
    (he : p.Admits hs e hs') (hwords : List.Forall₂ Held.Matches hs m.state.stack.slots)
    (checked : Bool) :
    Mirrors p m.store (m.step p checked e.opcode) (p.step checked e.opcode m.state) := by
  cases he with
  | loadConstant => exact push_mirrors hm (.refl _ _) _
  | loadVariable => exact push_mirrors hm (.refl _ _) _
  | loadExternal => exact push_mirrors hm (.refl _ _) _
  | loadMatrix => exact push_mirrors hm (.refl _ _) _
  | @storeVariable _ offset k =>
      exact popInto_mirrors hm fun w s => s.shape_writeScalar offset (.ofWord k w)
  | @storeExternal _ number k =>
      exact popInto_mirrors hm fun w s => p.shape_setBindingCell s number w
  | @storeMatrix _ _ number =>
      exact popInto_mirrors hm fun w s => p.shape_copyMatrix w.toNat number s
  | @copyMatrix _ depth source target =>
      rw [step, Program.step]
      rcases inPlace_cases hm depth _ with ⟨hslots, hat⟩ | ⟨i, w, hat, hslots, hset⟩
      · rw [hslots, hat]
        exact .fault _ hm (.refl _ _)
      · rw [hslots, hat]
        obtain ⟨hm', hst⟩ := hset _ (Program.matrixWord target)
          (hm.store.of_shape (p.shape_copyMatrix w.toNat target m.store))
        exact .ok hm' hst
  | @cast _ depth j k implicit =>
      rw [step, Program.step, Program.castStep]
      split
      · exact .ok hm rfl
      · rcases inPlace_cases hm depth _ with ⟨hslots, hat⟩ | ⟨i, w, hat, hslots, hset⟩
        · rw [hslots, hat]
          exact .fault _ hm (.refl _ _)
        · rw [hslots, hat]
          dsimp only
          cases Scalar.cast checked k (Scalar.ofWord j w) with
          | error f => exact .fault f hm (.refl _ _)
          | ok x =>
              obtain ⟨hm', hst⟩ := hset m.store x.toWord hm.store
              exact .ok hm' hst
  | keep =>
      rw [step, Program.step, Program.castStep, if_pos rfl, if_pos rfl]
      exact .ok hm rfl
  | @scalar _ kernel k =>
      cases kernel with
      | unary op => exact unary_mirrors hm op k
      | arithmetic op => exact binary_mirrors hm (by simp) k
      | comparison op => exact binary_mirrors hm (by simp) k
      | connective op => exact binary_mirrors hm (by simp) k
  | matrix hc htemp hfree => exact matrixStep_mirrors hp hm hc htemp hfree hwords

structure Ends (p : Program) (m : Machine) (stopped : Option Error) (r : Outcome) : Prop where
  fits : m.Fits p
  stopped : stopped = r.stopped
  changed : r.store.ChangedIn p.temporaries m.store
  done : r.stopped = none → m.store = r.store

theorem ends_here (hm : m.Fits p) (stopped : Option Error) :
    Ends p m stopped ⟨m.state.store, stopped⟩ :=
  ⟨hm, rfl, .refl _ _, fun _ => rfl⟩

theorem runFrom_ends (hp : p.layout.Sound) {hs hs' : List Held} {es : List Entry} {limit : Nat}
    (hes : p.AdmitsAll limit hs es hs') (hlimit : limit ≤ p.sizes.maxStackDepth) (hm : m.Fits p)
    (hwords : List.Forall₂ Held.Matches hs m.state.stack.slots) (checked : Bool)
    (position : Nat) :
    Ends p (m.runFrom p checked position es).1 (m.runFrom p checked position es).2
      (p.runFrom checked position m.state es) := by
  induction hes generalizing m position with
  | nil => exact ends_here hm none
  | @cons hs hs₁ hs₂ e es hlen he hes ih =>
      have hstep := step_mirrors hp hm he hwords checked
      have hroom := Nat.le_trans hes.length_start_le hlimit
      have hwords' := (he.step_progresses checked hwords hroom).2
      rw [runFrom, Program.runFrom]
      generalize m.step p checked e.opcode = r at hstep
      generalize p.step checked e.opcode m.state = q at hstep hwords'
      cases hstep with
      | ok hm' hst =>
          subst hst
          exact ih hm' (hwords' _ rfl) (position + 1)
      | fault f hm' hs => exact ⟨hm', rfl, hs, fun h => by cases h⟩

theorem traceFrom_ends (hp : p.layout.Sound) {hs hs' : List Held} {es : List Entry} {limit : Nat}
    (hes : p.AdmitsAll limit hs es hs') (hlimit : limit ≤ p.sizes.maxStackDepth) (hm : m.Fits p)
    (hwords : List.Forall₂ Held.Matches hs m.state.stack.slots) (position : Nat) (sink : Sink) :
    Ends p (m.traceFrom p position sink es).1 (m.traceFrom p position sink es).2.1
        (p.traceFrom position m.state sink es).outcome ∧
      (m.traceFrom p position sink es).2.2 = (p.traceFrom position m.state sink es).sink := by
  induction hes generalizing m position sink with
  | nil =>
      rw [traceFrom, Program.traceFrom]
      rcases sink.write (p.traceEnd m.state) with ⟨sink, _ | _⟩
      · exact ⟨ends_here hm _, rfl⟩
      · exact ⟨ends_here hm _, rfl⟩
  | @cons hs hs₁ hs₂ e es hlen he hes ih =>
      have hstep := step_mirrors hp hm he hwords true
      have hroom := Nat.le_trans hes.length_start_le hlimit
      have hwords' := (he.step_progresses true hwords hroom).2
      rw [traceFrom, Program.traceFrom]
      rcases sink.write (p.traceBefore position e m.state) with ⟨sink, _ | _⟩
      · exact ⟨ends_here hm _, rfl⟩
      · dsimp only
        generalize m.step p true e.opcode = r at hstep
        generalize p.step true e.opcode m.state = q at hstep hwords'
        cases hstep with
        | @ok m' _ hm' hst =>
            subst hst
            dsimp only
            rcases sink.write (p.traceAfter e m'.state) with ⟨sink, _ | _⟩
            · exact ⟨ends_here hm' _, rfl⟩
            · exact ih hm' (hwords' _ rfl) (position + 1) _
        | fault f hm' hs =>
            dsimp only
            rcases sink.write Program.traceFault with ⟨sink, _ | _⟩
            · exact ⟨⟨hm', rfl, hs, fun h => by cases h⟩, rfl⟩
            · exact ⟨⟨hm', rfl, hs, fun h => by cases h⟩, rfl⟩

theorem Fits.start (hm : m.Fits p) : ({ m with top := 0 } : Machine).Fits p :=
  ⟨hm.store, hm.size, Nat.zero_le _⟩

theorem execute_ends (hp : p.Sound) (hm : m.Fits p) (mode : Mode) (sink : Option Sink) :
    Ends p (m.execute p mode sink).1 (m.execute p mode sink).2.1
        (p.execute mode m.store sink).1 ∧
      (m.execute p mode sink).2.2 = (p.execute mode m.store sink).2 := by
  have hrun (checked : Bool) :=
    runFrom_ends hp.layout hp.admits (Nat.le_refl _) hm.start .nil checked 0
  cases mode with
  | fast => exact ⟨hrun false, rfl⟩
  | safe => exact ⟨hrun true, rfl⟩
  | debug =>
      cases sink with
      | none => exact ⟨ends_here hm _, rfl⟩
      | some sink =>
          simp only [execute, Program.execute, Program.trace]
          rcases sink.write Program.traceHeader with ⟨sink, _ | _⟩
          · exact ⟨ends_here hm.start _, rfl⟩
          · obtain ⟨hends, hsink⟩ :=
              traceFrom_ends hp.layout hp.admits (Nat.le_refl _) hm.start .nil 0 sink
            exact ⟨hends, congrArg some hsink⟩

theorem execute_of_done (hp : p.Sound) (hm : m.Fits p) {mode : Mode} {s : Store}
    {sink sink' : Option Sink} (h : p.execute mode m.store sink = (⟨s, none⟩, sink')) :
    ∃ m', m.execute p mode sink = (m', none, sink') ∧ m'.store = s := by
  obtain ⟨hends, hsink⟩ := execute_ends hp hm mode sink
  have hstopped := hends.stopped
  have hdone := hends.done
  rw [h] at hstopped hdone hsink
  exact ⟨_, Prod.ext rfl (Prod.ext hstopped hsink), hdone rfl⟩

theorem fits_new {shared : Shared} (h : Program.Provides shared p) : (new p shared).Fits p :=
  ⟨Program.fits_new h, by simp [new], Nat.zero_le _⟩

theorem Reached.fits (hp : p.Sound) (hm : m.Reached p) : m.Fits p := by
  induction hm with
  | new h => exact fits_new h
  | setValue _ h ih => exact ⟨ih.store.of_shape (Program.shape_setValue h), ih.size, ih.top⟩
  | setMatrix name xs _ ih =>
      exact ⟨ih.store.of_shape (Program.shape_setMatrix _ _ _), ih.size, ih.top⟩
  | @storeShared m memory index w _ ih =>
      exact ⟨ih.store.of_shape (m.store.shape_setCell (.shared memory index) w), ih.size, ih.top⟩
  | execute mode sink _ ih => exact (execute_ends hp ih mode sink).1.fits

end Machine

end FormulaMachine
