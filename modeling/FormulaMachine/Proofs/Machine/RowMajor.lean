import FormulaMachine.Proofs.Machine.Agreement
import FormulaMachine.Proofs.Machine.Residue
import FormulaMachine.Proofs.Machine.Soundness

namespace FormulaMachine

structure Elementary (k : Kind) where
  op : Arithmetic
  left : Scalar k
  right : Scalar k

structure Computation (k : Kind) where
  steps : List (Elementary k)
  value : Scalar k

namespace Elementary

variable {k : Kind} {α β : Type} {checked : Bool}

def result (e : Elementary k) : Scalar k :=
  match Scalar.arithmetic false e.op e.left e.right with
  | .ok x => x
  | .error _ => .zero k

def fault? (e : Elementary k) : Option Fault :=
  match Scalar.arithmetic true e.op e.left e.right with
  | .ok _ => none
  | .error f => some f

def after (checked : Bool) (es : List (Elementary k)) (x : α) : Except Fault α :=
  match if checked then es.findSome? fault? else none with
  | some f => .error f
  | none => .ok x

theorem after_nil (x : α) : after checked ([] : List (Elementary k)) x = .ok x := by
  cases checked <;> rfl

theorem map_after (es : List (Elementary k)) (x : α) (f : α → β) :
    (after checked es x).map f = after checked es (f x) := by
  unfold after
  split <;> rfl

theorem after_bind (es : List (Elementary k)) (x : α) (fs : α → List (Elementary k)) (g : α → β) :
    (after checked es x >>= fun y => after checked (fs y) (g y)) =
      after checked (es ++ fs x) (g x) := by
  cases checked with
  | false => rfl
  | true =>
      simp only [after, if_true, List.findSome?_append]
      cases es.findSome? fault? <;> rfl

theorem arithmetic_eq (hk : k.isFloat) (op : Arithmetic) (l r : Scalar k) :
    Scalar.arithmetic checked op l r =
      after checked [(⟨op, l, r⟩ : Elementary k)] (result ⟨op, l, r⟩) := by
  have hplain : Scalar.arithmetic false op l r = .ok (result ⟨op, l, r⟩) := by
    have hprogresses :=
      Scalar.arithmetic_progresses false (Program.mem_kinds_of_isFloat hk op) l r
    unfold result
    cases hx : Scalar.arithmetic false op l r with
    | ok x => rfl
    | error f =>
        rw [hx] at hprogresses
        cases hprogresses with
        | fault hchecked => cases hchecked
  cases checked with
  | false => exact hplain
  | true =>
      simp only [after, if_true, List.findSome?_singleton, fault?]
      cases hx : Scalar.arithmetic true op l r with
      | error f => rfl
      | ok x =>
          have hsame := (Scalar.arithmetic_agrees op l r x hx).symm.trans hplain
          exact hsame

theorem mapM_after (xs : List α) (steps : α → List (Elementary k)) (f : α → β) :
    (xs.mapM fun x => after checked (steps x) (f x)) =
      after checked (xs.flatMap steps) (xs.map f) := by
  induction xs with
  | nil => exact (after_nil _).symm
  | cons x xs ih =>
      have hrest (y : β) : (after checked (xs.flatMap steps) (xs.map f) >>= fun ys =>
          (pure (y :: ys) : Except Fault (List β))) =
            after checked (xs.flatMap steps) (y :: xs.map f) := by
        rw [← map_after _ _ (y :: ·)]
        cases after checked (xs.flatMap steps) (xs.map f) <;> rfl
      rw [List.mapM_cons, ih]
      simp only [hrest]
      exact after_bind (steps x) (f x) (fun _ => xs.flatMap steps) fun y => y :: xs.map f

end Elementary

namespace Computation

variable {k : Kind} {checked : Bool}

def run (checked : Bool) (c : Computation k) : Except Fault (Scalar k) :=
  Elementary.after checked c.steps c.value

def single (op : Arithmetic) (l r : Scalar k) : Computation k :=
  ⟨[⟨op, l, r⟩], Elementary.result ⟨op, l, r⟩⟩

def dot (a b : Nat → Scalar k) : Nat → Computation k
  | 0 => ⟨[], .zero k⟩
  | t + 1 =>
      let product : Elementary k := ⟨.mul, a t, b t⟩
      let sum : Elementary k := ⟨.sum, (dot a b t).value, product.result⟩
      ⟨(dot a b t).steps ++ [product, sum], sum.result⟩

theorem run_dot (hk : k.isFloat) (a b : Nat → Scalar k) (n : Nat) :
    (List.range n).foldlM (fun sum t => do
      let x ← Scalar.arithmetic checked .mul (a t) (b t)
      Scalar.arithmetic checked .sum sum x) (Scalar.zero k) = (dot a b n).run checked := by
  induction n with
  | zero => exact (Elementary.after_nil _).symm
  | succ n ih =>
      have hplace (sum : Scalar k) : (do
          let x ← Scalar.arithmetic checked .mul (a n) (b n)
          Scalar.arithmetic checked .sum sum x) =
            Elementary.after checked
              ([⟨.mul, a n, b n⟩] ++ [⟨.sum, sum, Elementary.result ⟨.mul, a n, b n⟩⟩])
              (Elementary.result ⟨.sum, sum, Elementary.result ⟨.mul, a n, b n⟩⟩) := by
        simp only [Elementary.arithmetic_eq hk]
        exact Elementary.after_bind _ _ (fun x => [⟨.sum, sum, x⟩]) fun x =>
          Elementary.result ⟨.sum, sum, x⟩
      rw [List.range_succ, List.foldlM_append, ih, run]
      simp only [List.foldlM_cons, List.foldlM_nil, bind_pure, hplace]
      exact Elementary.after_bind _ _ (fun sum => [⟨.mul, a n, b n⟩, ⟨.sum, sum, _⟩])
        fun sum => Elementary.result ⟨.sum, sum, _⟩

def inOrder (rows cols : Nat) (c : Nat → Nat → Computation k) : List (Elementary k) :=
  (List.range rows).flatMap fun i => (List.range cols).flatMap fun j => (c i j).steps

def words (rows cols : Nat) (c : Nat → Nat → Computation k) : List Word :=
  (List.range (rows * cols)).map fun n => (c (n / cols) (n % cols)).value.toWord

theorem length_words (rows cols : Nat) (c : Nat → Nat → Computation k) :
    (words rows cols c).length = rows * cols := by
  rw [words, List.length_map, List.length_range]

theorem div_mod_of_lt {i j cols : Nat} (hj : j < cols) :
    (i * cols + j) / cols = i ∧ (i * cols + j) % cols = j := by
  have hcols : 0 < cols := Nat.zero_lt_of_lt hj
  rw [Nat.mul_comm, Nat.mul_add_div hcols, Nat.mul_add_mod, Nat.div_eq_of_lt hj,
    Nat.mod_eq_of_lt hj]
  exact ⟨Nat.add_zero i, rfl⟩

theorem getElem?_words {rows cols i j : Nat} (hi : i < rows) (hj : j < cols)
    (c : Nat → Nat → Computation k) :
    (words rows cols c)[i * cols + j]? = some (c i j).value.toWord := by
  have hlt : i * cols + j < rows * cols := by
    calc i * cols + j < i * cols + cols := by omega
      _ = (i + 1) * cols := by rw [Nat.succ_mul]
      _ ≤ rows * cols := Nat.mul_le_mul_right cols hi
  obtain ⟨hdiv, hmod⟩ := div_mod_of_lt (i := i) hj
  rw [words, List.getElem?_map, List.getElem?_range hlt, Option.map_some, hdiv, hmod]

theorem flatMap_range (rows cols : Nat) (c : Nat → Nat → Computation k) :
    (List.range (rows * cols)).flatMap (fun n => (c (n / cols) (n % cols)).steps) =
      inOrder rows cols c := by
  induction rows with
  | zero => simp [inOrder]
  | succ rows ih =>
      rw [Nat.succ_mul, List.range_add, List.flatMap_append, ih, inOrder, inOrder,
        List.range_succ, List.flatMap_append, List.flatMap_singleton, List.flatMap_map]
      congr 1
      refine List.flatMap_congr fun j hj => ?_
      obtain ⟨hdiv, hmod⟩ := div_mod_of_lt (i := rows) (List.mem_range.mp hj)
      rw [hdiv, hmod]

end Computation

namespace Program

variable {p : Program} {checked : Bool}

def grid (p : Program) (s : Store) (k : Kind) (number cols : Nat) (i j : Nat) : Scalar k :=
  p.element s k number (i * cols + j)

inductive Operates (p : Program) (s : Store) (k : Kind) (rows cols : Nat) :
    MatrixOp → Word → Word → List Nat → (Nat → Nat → Computation k) → Prop
  | sum {m n} (hm : p.matrixType m = .matrix k rows cols)
      (hn : p.matrixType n = .matrix k rows cols) :
      Operates p s k rows cols .sum (matrixWord m) (matrixWord n) [m, n] fun i j =>
        .single .sum (p.grid s k m cols i j) (p.grid s k n cols i j)
  | sub {m n} (hm : p.matrixType m = .matrix k rows cols)
      (hn : p.matrixType n = .matrix k rows cols) :
      Operates p s k rows cols .sub (matrixWord m) (matrixWord n) [m, n] fun i j =>
        .single .sub (p.grid s k m cols i j) (p.grid s k n cols i j)
  | product {m n inner} (hm : p.matrixType m = .matrix k rows inner)
      (hn : p.matrixType n = .matrix k inner cols) :
      Operates p s k rows cols .product (matrixWord m) (matrixWord n) [m, n] fun i j =>
        .dot (p.grid s k m inner i) (fun t => p.grid s k n cols t j) inner
  | scaleLeft {n} (x : Scalar k) (hn : p.matrixType n = .matrix k rows cols) :
      Operates p s k rows cols .scaleLeft x.toWord (matrixWord n) [n] fun i j =>
        .single .mul (p.grid s k n cols i j) x
  | scaleRight {m} (x : Scalar k) (hm : p.matrixType m = .matrix k rows cols) :
      Operates p s k rows cols .scaleRight (matrixWord m) x.toWord [m] fun i j =>
        .single .mul (p.grid s k m cols i j) x

theorem grid_div_mod (s : Store) (k : Kind) (number cols n : Nat) :
    p.grid s k number cols (n / cols) (n % cols) = p.element s k number n := by
  rw [grid, Nat.div_add_mod']

theorem Combines.operates {op : MatrixOp} {target : Nat} {a b : Held} {wa wb : Word} {k : Kind}
    {rows cols : Nat} (h : p.Combines op target a b)
    (ht : p.matrixType target = .matrix k rows cols) (ha : a.Matches wa) (hb : b.Matches wb)
    (s : Store) :
    ∃ ms c, p.Operates s k rows cols op wa wb ms c ∧ ∀ m ∈ ms, .matrix m ∈ [b, a] := by
  have htype {k' : Kind} {rows' cols' : Nat} (ht' : p.matrixType target = .matrix k' rows' cols') :
      k' = k ∧ rows' = rows ∧ cols' = cols := by
    rw [ht] at ht'
    exact DataType.matrix.inj ht'.symm
  cases h with
  | sum _ ht' hm hn =>
      obtain ⟨rfl, rfl, rfl⟩ := htype ht'
      obtain rfl := ha
      obtain rfl := hb
      exact ⟨_, _, .sum hm hn, by simp⟩
  | sub _ ht' hm hn =>
      obtain ⟨rfl, rfl, rfl⟩ := htype ht'
      obtain rfl := ha
      obtain rfl := hb
      exact ⟨_, _, .sub hm hn, by simp⟩
  | product _ ht' hm hn =>
      obtain ⟨rfl, rfl, rfl⟩ := htype ht'
      obtain rfl := ha
      obtain rfl := hb
      exact ⟨_, _, .product hm hn, by simp⟩
  | scaleLeft _ ht' hn =>
      obtain ⟨rfl, rfl, rfl⟩ := htype ht'
      obtain ⟨x, rfl⟩ := ha
      obtain rfl := hb
      exact ⟨_, _, .scaleLeft x hn, by simp⟩
  | scaleRight _ ht' hm =>
      obtain ⟨rfl, rfl, rfl⟩ := htype ht'
      obtain rfl := ha
      obtain ⟨x, rfl⟩ := hb
      exact ⟨_, _, .scaleRight x hm, by simp⟩

section Result

variable {op : MatrixOp} {k : Kind} {rows cols : Nat} {wa wb : Word} {ms : List Nat}
  {c : Nat → Nat → Computation k} {s : Store}

theorem resultCell_eq (hfew : p.matrices.size ≤ 1 <<< 16) (hk : k.isFloat)
    (h : p.Operates s k rows cols op wa wb ms c) (n : Nat) :
    p.resultCell checked op k (.matrix k rows cols) wa wb s n =
      ((c (n / cols) (n % cols)).run checked).map Scalar.toWord := by
  have hword {m r t : Nat} {k' : Kind} (hm : p.matrixType m = .matrix k' r t) :
      (matrixWord m).toNat = m :=
    toNat_matrixWord hfew (lt_of_matrixType hm)
  cases h with
  | sum hm hn =>
      simp only [resultCell, hword hm, hword hn, grid_div_mod, Elementary.arithmetic_eq hk]
      rfl
  | sub hm hn =>
      simp only [resultCell, hword hm, hword hn, grid_div_mod, Elementary.arithmetic_eq hk]
      rfl
  | product hm hn =>
      simp only [resultCell, hword hm, hword hn, hm, DataType.dims, ← Computation.run_dot hk]
      rfl
  | scaleLeft x hn =>
      simp only [resultCell, hword hn, grid_div_mod, Elementary.arithmetic_eq hk,
        Scalar.ofWord_toWord]
      rfl
  | scaleRight x hm =>
      simp only [resultCell, hword hm, grid_div_mod, Elementary.arithmetic_eq hk,
        Scalar.ofWord_toWord]
      rfl

theorem matrixResult_eq_after (hfew : p.matrices.size ≤ 1 <<< 16) (hk : k.isFloat)
    (h : p.Operates s k rows cols op wa wb ms c) :
    p.matrixResult checked op (.matrix k rows cols) s wa wb =
      Elementary.after checked (Computation.inOrder rows cols c)
        (Computation.words rows cols c) := by
  rw [matrixResult_eq_mapM, ← Computation.flatMap_range, Computation.words,
    ← Elementary.mapM_after]
  refine mapM_congr fun n _ => ?_
  rw [resultCell_eq hfew hk h, Computation.run, Elementary.map_after]

end Result

structure Fills (p : Program) (target : Nat) {k : Kind} (rows cols : Nat) (rest : List Word)
    (ms : List Nat) (c : Nat → Nat → Computation k) (st st' : State) : Prop where
  stack : st'.stack.slots = matrixWord target :: rest
  cells : ∀ i < rows, ∀ j < cols,
    p.matrixCell st'.store target (i * cols + j) = (c i j).value.toWord
  operands : ∀ m ∈ ms, ∀ i < (p.matrixType m).length,
    p.matrixCell st'.store m i = p.matrixCell st.store m i
  changed : st.store.ChangedIn (p.matrixArea target) st'.store

theorem fills (hp : p.InRange) {target : Nat} {k : Kind} {rows cols : Nat} {rest : List Word}
    {ms : List Nat} {c : Nat → Nat → Computation k} {st : State} (hfit : p.Fits st.store)
    (htarget : p.matrixType target = .matrix k rows cols)
    (hdisj : ∀ m ∈ ms, Disjoint (p.matrixArea m) (p.matrixArea target))
    (hrest : (st.stack.drop 2).slots = rest) :
    p.Fills target rows cols rest ms c st
      ⟨p.setMatrixCells target st.store 0 (Computation.words rows cols c),
        (st.stack.drop 2).push (matrixWord target)⟩ := by
  have hlen : (Computation.words rows cols c).length = (p.matrixType target).length := by
    rw [Computation.length_words, htarget, DataType.length]
  have hchanged := changedIn_setMatrixCells st.store hlen
  refine ⟨by rw [Stack.slots_push, hrest], fun i hi j hj => ?_,
    fun m hm i hi => matrixCell_of_changedIn hchanged (hdisj m hm) hi, hchanged⟩
  obtain ⟨hlt, hword⟩ := List.getElem?_eq_some_iff.mp (Computation.getElem?_words hi hj c)
  rw [← hword]
  exact matrixCell_setMatrixCells (fun n hn => has_matrixAt hp hfit (hlen ▸ hn)) hlt

variable {text : String} {vs : Variables} {o : CompileOptions}

theorem matrix_instructions_row_major (hvs : vs.Made) (h : compile text vs o = .ok p)
    {m : Machine} (hm : m.Reached p) {pc : Nat} {st : State} {e : Entry} {op : MatrixOp}
    {target : Nat} (hvisits : p.Visits checked m.store pc st) (he : p.code[pc]? = some e)
    (hop : e.opcode = .matrix op target) :
    ∃ k rows cols wa wb rest ms, ∃ c : Nat → Nat → Computation k, ∃ st',
      p.matrixType target = .matrix k rows cols ∧ st.stack.slots = wb :: wa :: rest ∧
      p.Operates st.store k rows cols op wa wb ms c ∧
      p.Fills target rows cols rest ms c st st' ∧ p.step false e.opcode st = .ok st' ∧
      p.step true e.opcode st =
        (match (Computation.inOrder rows cols c).findSome? Elementary.fault? with
        | some f => .error f
        | none => .ok st') ∧
      ∀ n : Machine, n.Fits p → n.state = st → ∀ mode,
        Machine.Mirrors p st.store (n.step p mode e.opcode) (p.step mode e.opcode st) := by
  have hp := compile_sound hvs.fresh h
  obtain ⟨hs, hs₁, -, hadmits, hroom, hst, hshape⟩ := hvisits.entry hp he
  have hmirrors (n : Machine) (hn : n.Fits p) (hstate : n.state = st) (mode : Bool) :
      Machine.Mirrors p st.store (n.step p mode e.opcode) (p.step mode e.opcode st) := by
    subst hstate
    exact Machine.step_mirrors hp.layout hn hadmits hst mode
  cases hadmits with
  | @matrix _ _ _ a b _ _ hc htemp hfree =>
      obtain ⟨rfl, rfl⟩ := Opcode.matrix.inj hop.symm
      obtain ⟨k, rows, cols, hk, htarget⟩ := hc.target_type
      obtain ⟨wb, ws, hb, hws, hslots⟩ := List.forall₂_cons_left_iff.mp hst
      obtain ⟨wa, rest, ha, hrest, rfl⟩ := List.forall₂_cons_left_iff.mp hws
      obtain ⟨ms, c, hoperates, hms⟩ := hc.operates htarget ha hb st.store
      have hlen : rest.length < p.sizes.maxStackDepth := by
        rw [← hrest.length_eq]
        exact hroom
      have hdisj (n : Nat) (hn : n ∈ ms) : Disjoint (p.matrixArea n) (p.matrixArea target) := by
        refine (matrixArea_disjoint_of_owned htemp.owned ?_).symm
        rintro rfl
        exact hfree (List.mem_append_left _ (hms _ hn))
      have hstep (mode : Bool) : p.step mode (.matrix op target) st =
          Elementary.after mode (Computation.inOrder rows cols c)
            ⟨p.setMatrixCells target st.store 0 (Computation.words rows cols c),
              (st.stack.drop 2).push (matrixWord target)⟩ := by
        rw [step, matrixStep_eq hslots hlen, htarget,
          matrixResult_eq_after hp.layout.inRange.few hk hoperates, Elementary.map_after]
      have hfit := (hm.fits hp).store.of_shape hshape
      have hdrop : (st.stack.drop 2).slots = rest := by
        rw [Stack.slots_drop, hslots]
        rfl
      exact ⟨k, rows, cols, wa, wb, rest, ms, c, _, htarget, hslots, hoperates,
        fills hp.layout.inRange hfit htarget hdisj hdrop, hstep false, hstep true, hmirrors⟩
  | _ => cases hop

theorem matrix_instructions_row_major_product :
    ∃ vs p, ∃ m : Machine, ∃ st e st', vs.Made ∧
      compile "READ A\nREAD B\nMUL\nWRITE C\n" vs .default = .ok p ∧ m.Reached p ∧
      p.Visits true m.store 2 st ∧ p.code[2]? = some e ∧ e.opcode = .matrix .product 2 ∧
      p.step false e.opcode st = .ok st' ∧ st'.stack.slots = [matrixWord 2] ∧
      p.matrixCell st'.store 2 0 = 0x402A000000000000 ∧
      st.store.ChangedIn (p.matrixArea 2) st'.store := by
  let row : DataType := .matrix .float64 1 2
  let square : DataType := .matrix .float64 2 2
  let x : External := ⟨⟨0, 6⟩, 0⟩
  let y : External := ⟨⟨0, 6⟩, 2⟩
  let vs : Variables := ⟨[⟨"A", row, none, some x⟩, ⟨"B", square, none, some y⟩], [.named "C"]⟩
  let p : Program := {
    vars := ⟨[⟨"A", row, some (.matrix 0), some x⟩, ⟨"B", square, some (.matrix 1), some y⟩],
      [⟨"C", row, some (.matrix 3), none⟩]⟩
    constants := #[]
    literals := []
    code := #[⟨.loadMatrix 0, 1, [], some row, none⟩, ⟨.loadMatrix 1, 2, [], some square, none⟩,
      ⟨.matrix .product 2, 3, [row, square], some row, none⟩,
      ⟨.storeMatrix 3, 4, [row], none, none⟩]
    matrices := #[⟨row, some x⟩, ⟨square, some y⟩, ⟨row, none⟩, ⟨row, none⟩]
    bindings := #[]
    sizes := ⟨0, 0, 4, 2⟩ }
  -- one and two, times three to six
  let m : Machine := .new p #[#[0x3FF0000000000000, 0x4000000000000000, 0x4008000000000000,
    0x4010000000000000, 0x4014000000000000, 0x4018000000000000]]
  have hmade : vs.Made := by
    have hdiscover : Variables.discover "READ A\nREAD B\nMUL\nWRITE C\n" =
        .ok ⟨[.named "A", .named "B"], [.named "C"]⟩ := by decide +kernel
    have ha : Variables.bind ⟨[.named "A", .named "B"], [.named "C"]⟩ "A" row (some x) =
        .ok ⟨[⟨"A", row, none, some x⟩, .named "B"], [.named "C"]⟩ := by decide +kernel
    have hb : Variables.bind ⟨[⟨"A", row, none, some x⟩, .named "B"], [.named "C"]⟩ "B" square
        (some y) = .ok vs := by decide +kernel
    exact ⟨_, _, hdiscover, .bind (.bind .refl ha) hb⟩
  have hcompile : compile "READ A\nREAD B\nMUL\nWRITE C\n" vs .default = .ok p := by decide +kernel
  have hreached : m.Reached p := .new (by decide)
  have hread : p.Visits true m.store 1 _ :=
    .next (e := ⟨.loadMatrix 0, 1, [], some row, none⟩) .start rfl rfl
  have hvisits : p.Visits true m.store 2 _ :=
    .next (e := ⟨.loadMatrix 1, 2, [], some square, none⟩) hread rfl rfl
  have hcell : (p.step false (.matrix .product 2)
      ⟨m.store, (Stack.empty.push (matrixWord 0)).push (matrixWord 1)⟩).map
        (fun st' => p.matrixCell st'.store 2 0) = .ok 0x402A000000000000 := by decide +kernel
  obtain ⟨k, rows, cols, wa, wb, rest, ms, c, st', -, hslots, -, hfills, hstep, -, -⟩ :=
    matrix_instructions_row_major hmade hcompile hreached hvisits rfl rfl
  obtain ⟨-, htail⟩ := List.cons.inj hslots
  obtain ⟨-, rfl⟩ := List.cons.inj htail
  refine ⟨vs, p, m, _, _, st', hmade, hcompile, hreached, hvisits, rfl, rfl, hstep,
    hfills.stack, ?_, hfills.changed⟩
  have hsame := congrArg (Except.map fun st' => p.matrixCell st'.store 2 0) hstep
  exact Except.ok.inj (hsame.symm.trans hcell)

end Program

end FormulaMachine
