import FormulaMachine.Proofs.Compiler.Typing

namespace FormulaMachine

namespace Draft

variable {o : CompileOptions} {line : Nat} {d d' : Draft} {p : Program} {hs : List Held}

def Copies (es : List Entry) : Prop :=
  ∀ e ∈ es, ∃ depth target, e.opcode = .copyMatrix depth target

theorem copy_admits (line : Nat) {y : Layout} {number depth limit : Nat} {k : Kind}
    {rows cols : Nat} {pre hs : List Held} (hy : y.Sound)
    (hlead : Layout.Grows { y with
      matrices := y.matrices.push ⟨.matrix k rows cols, none⟩ } p.layout)
    (ht : p.matrixType number = .matrix k rows cols) (hdepth : pre.length = depth)
    (hbound : ∀ m, .matrix m ∈ pre ++ .matrix number :: hs → m < y.matrices.size)
    (hlimit : (pre ++ .matrix number :: hs).length ≤ limit) :
    p.AdmitsAll limit (pre ++ .matrix number :: hs)
      [⟨.copyMatrix depth y.matrices.size, line, [.matrix k rows cols],
        some (.matrix k rows cols), none⟩] (pre ++ .matrix y.matrices.size :: hs) := by
  obtain ⟨htemp, htype⟩ := hy.temporary hlead
  have hat : (pre ++ .matrix number :: hs)[depth]? = some (.matrix number) := by
    rw [← hdepth, List.getElem?_append_right (Nat.le_refl _), Nat.sub_self]
    rfl
  have hset : (pre ++ .matrix number :: hs).set depth (.matrix y.matrices.size) =
      pre ++ .matrix y.matrices.size :: hs := by
    rw [← hdepth, List.set_append_right _ _ (Nat.le_refl _), Nat.sub_self]
    rfl
  have hfree : .matrix y.matrices.size ∉ pre ++ .matrix number :: hs :=
    fun hmem => Nat.lt_irrefl _ (hbound _ hmem)
  have hcopy : p.Admits (pre ++ .matrix number :: hs) ⟨.copyMatrix depth y.matrices.size, line,
      [.matrix k rows cols], some (.matrix k rows cols), none⟩ _ :=
    .copyMatrix hat ht htype htemp hfree
  rw [hset] at hcopy
  refine .single hcopy hlimit ?_
  simpa using hlimit

theorem detachSlots_emits {number depth limit : Nat} {slots slots' : List Slot}
    {pre hs : List Held} (hd : d.layout.Sound) (hnames : d.layout.Names number)
    (hdepth : pre.length = depth) (hpre : ∀ m, .matrix m ∈ pre → m < d.layout.matrices.size)
    (hslots : SlotsHold p d.layout slots hs) (hlimit : (pre ++ hs).length ≤ limit)
    (h : detachSlots line number depth slots d = .ok (slots', d'))
    (hlead : d'.layout.Grows p.layout) :
    ∃ copies hs', d'.code.toList = d.code.toList ++ copies ∧ Copies copies ∧
      p.AdmitsAll limit (pre ++ hs) copies (pre ++ hs') ∧ SlotsHold p d'.layout slots' hs' ∧
      .matrix number ∉ hs' ∧ d'.maxDepth = d.maxDepth := by
  -- from the bottom of the stack up: when a slot gets its copy, those below it have theirs
  induction slots generalizing depth slots' d' pre hs with
  | nil =>
      obtain ⟨rfl, rfl⟩ := Prod.mk.inj (Except.ok.inj h)
      cases hslots
      exact ⟨[], [], (List.append_nil _).symm, fun e he => (by cases he), .nil hlimit, .nil,
        List.not_mem_nil, rfl⟩
  | cons s slots ih =>
      cases hslots with
      | @cons _ x _ hs₀ hx hrest =>
      obtain ⟨slots₁, d₁, hcall, hcase⟩ := detachSlots_cons_eq_ok h
      have hext := detachSlots_extends hcall
      have hsize : d.layout.matrices.size ≤ d₁.layout.matrices.size :=
        hext.layout.matrices_size_le
      have hpre' (m : Nat) (hm : .matrix m ∈ pre ++ [x]) : m < d.layout.matrices.size := by
        rcases List.mem_append.mp hm with hm | hm
        · exact hpre m hm
        · obtain rfl := List.mem_singleton.mp hm
          exact hx.number_lt
      have hlead₁ : d₁.layout.Grows p.layout := by
        rcases hcase with ⟨-, -, rfl⟩ | ⟨s', -, hs, -⟩
        · exact hlead
        · obtain ⟨-, hroom, -, rfl⟩ := detachSlot_eq_ok hs
          exact (Extends.addMatrix hroom).layout.trans hlead
      have hassoc (ys : List Held) : pre ++ [x] ++ ys = pre ++ x :: ys := by simp
      obtain ⟨copies, hs₁, hcode, hcopies, hadmits, hslots₁, hfree, hmax⟩ :=
        ih (by rw [List.length_append, hdepth]; rfl) hpre' hrest (by rwa [hassoc]) hcall hlead₁
      rw [hassoc, hassoc] at hadmits
      rcases hcase with ⟨hsource, rfl, rfl⟩ | ⟨s', hsource, hs, rfl⟩
      · have hne : .matrix number ≠ x := by
          rintro rfl
          cases hx with
          | named => exact hsource rfl
          | temporary _ hnot => exact hnot hnames
        exact ⟨copies, x :: hs₁, hcode, hcopies, hadmits, .cons (hx.grows hext.layout) hslots₁,
          List.not_mem_cons_of_ne_of_not_mem hne hfree, hmax⟩
      · obtain ⟨-, hroom, rfl, rfl⟩ := detachSlot_eq_ok hs
        cases hx with
        | scalar => cases hsource
        | temporary => cases hsource
        | @named n k rows cols ht hn hlt =>
        obtain rfl : n = number := Option.some.inj hsource
        have hd₁ := hext.layout.sound hd
        have hbound (m : Nat) (hm : .matrix m ∈ pre ++ .matrix n :: hs₁) :
            m < d₁.layout.matrices.size := by
          rw [← hassoc] at hm
          rcases List.mem_append.mp hm with hm | hm
          · exact Nat.lt_of_lt_of_le (hpre' m hm) hsize
          · exact hslots₁.number_lt hm
        have hcopy := copy_admits line hd₁ hlead ht hdepth hbound hadmits.length_end_le
        have hne : .matrix n ≠ Held.matrix d₁.layout.matrices.size := by
          intro heq
          have := Held.matrix.inj heq
          omega
        have hnew : ¬ Layout.Names { d₁.layout with
            matrices := d₁.layout.matrices.push ⟨.matrix k rows cols, none⟩ }
            d₁.layout.matrices.size :=
          fun hnames => Nat.lt_irrefl _ (hd₁.lt_of_names hnames)
        refine ⟨copies ++ [_], .matrix d₁.layout.matrices.size :: hs₁, ?_, ?_,
          hadmits.append hcopy, .cons (.temporary (hd₁.temporary hlead).2 hnew ?_)
            (hslots₁.grows (Extends.addMatrix hroom).layout),
          List.not_mem_cons_of_ne_of_not_mem hne hfree, hmax⟩
        · simp [emit, hcode, Draft.layout]
        · intro e he
          rcases List.mem_append.mp he with he | he
          · exact hcopies e he
          · obtain rfl := List.mem_singleton.mp he
            exact ⟨_, _, rfl⟩
        · simp [emit, Draft.layout]

def ConvertEntries (p : Program) (line : Nat) (x x' : Held) (t : DataType) (es : List Entry) :
    Prop :=
  (x.HasType p t ∧ x' = x ∧ es = []) ∨ ∃ j k, x = .scalar j ∧ x' = .scalar k ∧ t = .scalar k ∧
    es = [⟨.cast j k 0 true, line, [.scalar j], some (.scalar k), none⟩]

theorem ConvertEntries.hasType {x x' : Held} {t : DataType} {es : List Entry}
    (h : ConvertEntries p line x x' t es) : x'.HasType p t := by
  rcases h with ⟨hx, rfl, -⟩ | ⟨j, k, -, rfl, rfl, -⟩
  · exact hx
  · rfl

theorem ConvertEntries.admits {x x' : Held} {t : DataType} {es : List Entry} {limit : Nat}
    (h : ConvertEntries p line x x' t es) (hlimit : (x :: hs).length ≤ limit) :
    p.AdmitsAll limit (x :: hs) es (x' :: hs) := by
  rcases h with ⟨-, rfl, rfl⟩ | ⟨j, k, rfl, rfl, -, rfl⟩
  · exact .nil hlimit
  · exact .single (.cast rfl) hlimit hlimit

theorem Converts.entries {s : Slot} {x : Held} {t : DataType} {y : Layout}
    (hx : SlotHolds p y s x) (h : Converts line s.type t d d') :
    ∃ x' es, ConvertEntries p line x x' t es ∧ d'.code.toList = d.code.toList ++ es ∧
      d'.layout = d.layout ∧ d'.stack = d.stack ∧ d'.maxDepth = d.maxDepth ∧
      ∀ m, x' = .matrix m → x = .matrix m := by
  rcases h with ⟨rfl, rfl⟩ | ⟨j, k, hs, rfl, rfl⟩
  · exact ⟨x, [], .inl ⟨hx.hasType, rfl, rfl⟩, (List.append_nil _).symm, rfl, rfl, rfl,
      fun _ h => h⟩
  · obtain ⟨-, rfl⟩ := hx.eq_scalar hs
    exact ⟨.scalar k, _, .inr ⟨j, k, rfl, rfl, rfl, rfl⟩, by simp [emit], rfl, rfl, rfl,
      fun m hm => (by cases hm)⟩

theorem detachTarget_emits {l : Location} {x : Held} (hd : d.layout.Sound)
    (hnames : ∀ number, l = .matrix number → d.layout.Names number)
    (hx : ∀ m, x = .matrix m → m < d.layout.matrices.size)
    (hslots : SlotsHold p d.layout d.stack.slots hs) (hdepth : (x :: hs).length ≤ d.maxDepth)
    (h : detachTarget line d l = .ok d') (hlead : d'.layout.Grows p.layout) :
    ∃ copies hs', d'.code.toList = d.code.toList ++ copies ∧ Copies copies ∧
      p.AdmitsAll d.maxDepth (x :: hs) copies (x :: hs') ∧
      SlotsHold p d'.layout d'.stack.slots hs' ∧
      (∀ number, l = .matrix number → .matrix number ∉ hs') ∧ d'.maxDepth = d.maxDepth := by
  rcases detachTarget_eq_ok h with ⟨hl, rfl⟩ | ⟨number, slots, d₁, rfl, hcall, rfl⟩
  · exact ⟨[], hs, (List.append_nil _).symm, fun e he => (by cases he), .nil hdepth, hslots,
      fun number hn => absurd hn (hl number), rfl⟩
  · have hpre (m : Nat) (hm : .matrix m ∈ [x]) : m < d.layout.matrices.size :=
      hx m (List.mem_singleton.mp hm).symm
    obtain ⟨copies, hs', hcode, hcopies, hadmits, hslots', hfree, hmax⟩ :=
      detachSlots_emits hd (hnames number rfl) rfl hpre hslots hdepth hcall hlead
    refine ⟨copies, hs', hcode, hcopies, hadmits, hslots', fun n hn => ?_, hmax⟩
    obtain rfl := Location.matrix.inj hn
    exact hfree

theorem write_emits {name : String} (hd : d.layout.Sound)
    (hslots : SlotsHold p d.layout d.stack.slots hs) (hdepth : hs.length ≤ d.maxDepth)
    (h : write line d name = .ok d') (hlead : d'.Leads p) :
    ∃ w l x x' rest rest' casts copies, hs = x :: rest ∧ p.vars.get? name = some w ∧
      w.location = some l ∧ ConvertEntries p line x x' w.type casts ∧ Copies copies ∧
      p.AdmitsAll d'.maxDepth (x' :: rest) copies (x' :: rest') ∧
      (∀ number, l = .matrix number → .matrix number ∉ rest') ∧
      d.Emits p d' hs
        (casts ++ copies ++ [⟨storeOpcode (elementKind w.type) l, line, [w.type], none, none⟩])
        rest' := by
  obtain ⟨s, slots, v, w, l, y, d₁, d₂, hs, hv, ht, -, ⟨hgrows, -⟩, hy, hconvert, hdetach, rfl⟩ :=
    write_eq_ok h
  rw [hs] at hslots
  cases hslots with
  | @cons _ x _ rest hx hrest =>
  have hext : d₁.Extends d₂ := by
    rcases detachTarget_eq_ok hdetach with ⟨-, rfl⟩ | ⟨number, slots', d₃, -, hcall, rfl⟩
    · exact .refl _
    · exact (detachSlots_extends hcall).trans (.withStack _ _)
  obtain ⟨x', casts, hcasts, hcode₁, hlayout, hstack, hmax₁, hx'⟩ := hconvert.entries hx
  have hlead₂ : d₂.layout.Grows p.layout := hlead.layout
  have hyp : y.Grows p.layout := by
    have hgrow := hext.layout.trans hlead₂
    rwa [hlayout] at hgrow
  obtain ⟨u, hu, hbecomes⟩ := hyp.get?_after hy
  obtain htype : u.type = w.type := (hbecomes.typed ht).1
  have hloc : u.location = some l := hbecomes.placed l rfl
  have hyd : d₁.layout = y := hlayout
  have hy₁ : y.Sound := hgrows.sound hd
  have hbound (m : Nat) (hm : x' = .matrix m) : m < d₁.layout.matrices.size := by
    obtain rfl := hx' m hm
    rw [hyd]
    exact Nat.lt_of_lt_of_le hx.number_lt hgrows.matrices_size_le
  have hnames (number : Nat) (hn : l = .matrix number) : d₁.layout.Names number := by
    rw [hyd]
    exact ⟨name, _, hy, congrArg some hn⟩
  have hrest₁ : SlotsHold p d₁.layout d₁.stack.slots rest := by
    rw [hyd, hstack]
    have hdrop : (d.stack.drop 1).slots = slots := by rw [Stack.slots_drop, hs]; rfl
    exact hdrop ▸ SlotsHold.grows hrest hgrows
  have hdepth₁ : (x :: rest).length ≤ d₁.maxDepth := by
    rw [hmax₁]
    exact hdepth
  obtain ⟨copies, rest', hcode₂, hcopies, hadmits, hslots₂, hfree, hmax₂⟩ :=
    detachTarget_emits (hyd ▸ hy₁) hnames hbound hrest₁ hdepth₁ hdetach hlead₂
  have hmax : d₂.maxDepth = d.maxDepth := hmax₂.trans hmax₁
  rw [← htype] at hcasts
  have hstore := store_admits (hyp.sound hy₁) hu hloc hcasts.hasType hfree line none
  have hall : p.AdmitsAll d₂.maxDepth (x :: rest)
      (casts ++ copies ++ [⟨storeOpcode (elementKind u.type) l, line, [u.type], none, none⟩])
      rest' := by
    rw [hmax₂]
    have hend := hadmits.length_end_le
    exact ((hcasts.admits hdepth₁).append hadmits).append
      (.single hstore hend (Nat.le_trans (Nat.le_succ _) hend))
  refine ⟨u, l, x, x', rest, rest', casts, copies, rfl, hu, hloc, hcasts, hcopies, ?_, hfree, ?_⟩
  · rw [← hmax₂] at hadmits
    exact hadmits
  · refine ⟨?_, hall, hslots₂, .inl hmax⟩
    rw [← htype]
    simp only [emit, Array.toList_push, hcode₂, hcode₁, List.append_assoc]
    rfl

inductive Widens : List Widening → List Held → List Held → Prop
  | nil {hs : List Held} : Widens [] hs hs
  | cons {w : Widening} {ws : List Widening} {hs hs' : List Held}
      (hat : hs[w.depth]? = some (.scalar w.source))
      (hrest : Widens ws (hs.set w.depth (.scalar w.target)) hs') : Widens (w :: ws) hs hs'

def widenEntry (line : Nat) (w : Widening) : Entry :=
  ⟨.cast w.source w.target w.depth true, line, [.scalar w.source], some (.scalar w.target), none⟩

theorem forall₂_modify {α β : Type} {R : α → β → Prop} {xs : List α} {ys : List β} {i : Nat}
    {f : α → α} {y : β} (h : List.Forall₂ R xs ys)
    (hf : ∀ x y', ys[i]? = some y' → R x y' → R (f x) y) :
    List.Forall₂ R (xs.modify i f) (ys.set i y) := by
  induction h generalizing i with
  | nil =>
      rw [List.modify_nil]
      exact .nil
  | @cons x y' xs ys hr hrest ih =>
      cases i with
      | zero => exact .cons (hf x y' rfl hr) hrest
      | succ i => exact .cons hr (ih fun x y' hy hr => hf x y' (by simpa using hy) hr)

namespace Widens

variable {ws : List Widening} {hs' : List Held}

theorem admits (h : Widens ws hs hs') {limit : Nat} (hlimit : hs.length ≤ limit) :
    p.AdmitsAll limit hs (ws.map (widenEntry line)) hs' := by
  induction h with
  | nil => exact .nil hlimit
  | cons hat _ ih => exact .cons hlimit (.cast hat) (ih (by rwa [List.length_set]))

theorem slots (line : Nat) {y : Layout} (h : Widens ws hs hs')
    (hslots : SlotsHold p y d.stack.slots hs) :
    SlotsHold p y (ws.foldl (widen line) d).stack.slots hs' := by
  induction h generalizing d with
  | nil => exact hslots
  | cons hat _ ih =>
      refine ih ?_
      simp only [widen, Stack.slots_modify]
      refine forall₂_modify hslots fun s x hx hs => ?_
      obtain rfl := Option.some.inj (hat.symm.trans hx)
      cases hs
      exact .scalar _

end Widens

theorem getElem?_under {α : Type} (xs : List α) (y : α) (ys : List α) :
    (xs.reverse ++ y :: ys)[xs.length]? = some y := by
  rw [List.getElem?_append_right (by simp), List.length_reverse, Nat.sub_self]
  rfl

theorem set_under {α : Type} (xs : List α) (y z : α) (ys : List α) :
    (xs.reverse ++ y :: ys).set xs.length z = xs.reverse ++ z :: ys := by
  rw [List.set_append_right _ _ (by simp), List.length_reverse, Nat.sub_self]
  rfl

inductive Brings : List Widening → List Held → List Held → Prop
  | nil : Brings [] [] []
  | same {ws : List Widening} {xs ys : List Held} (x : Held) (h : Brings ws xs ys) :
      Brings ws (x :: xs) (x :: ys)
  | widen {ws : List Widening} {xs ys : List Held} (j k : Kind) (h : Brings ws xs ys) :
      Brings (⟨xs.length, j, k⟩ :: ws) (.scalar j :: xs) (.scalar k :: ys)

namespace Brings

variable {ws : List Widening} {xs ys : List Held}

theorem widens (h : Brings ws xs ys) (rest : List Held) :
    Widens ws (xs.reverse ++ rest) (ys.reverse ++ rest) := by
  -- from the deepest operand up, so those above the one at hand are as they were
  induction h generalizing rest with
  | nil => exact .nil
  | same x _ ih =>
      rw [List.reverse_cons, List.reverse_cons, List.append_assoc, List.append_assoc]
      exact ih (x :: rest)
  | @widen ws xs ys j k _ ih =>
      rw [List.reverse_cons, List.reverse_cons, List.append_assoc, List.append_assoc]
      refine .cons (getElem?_under xs _ rest) ?_
      have hset := set_under xs (.scalar j) (.scalar k) rest
      exact hset ▸ ih (.scalar k :: rest)

theorem to_kind (k : Kind) (ks : List Kind) :
    Brings (Resolution.wideningsTo k ks) (ks.map .scalar) (ks.map fun _ => .scalar k) := by
  induction ks with
  | nil => exact .nil
  | cons j ks ih =>
      rw [Resolution.wideningsTo]
      split
      · rename_i hjk
        rw [hjk]
        exact .same _ ih
      · have hlen : ks.length = (ks.map Held.scalar).length := by rw [List.length_map]
        rw [hlen]
        exact .widen j k ih

theorem one (s k : Kind) (xs : List Held) :
    Brings (Resolution.widenAt xs.length s k) (.scalar s :: xs) (.scalar k :: xs) := by
  have hxs : Brings [] xs xs := by
    induction xs with
    | nil => exact .nil
    | cons x xs ih => exact .same x ih
  unfold Resolution.widenAt
  split
  · rename_i hsk
    rw [hsk]
    exact .same _ hxs
  · exact .widen s k hxs

end Brings

theorem foldl_widen (line : Nat) (ws : List Widening) (d : Draft) :
    (ws.foldl (widen line) d).code.toList = d.code.toList ++ ws.map (widenEntry line) ∧
      (ws.foldl (widen line) d).layout = d.layout ∧
      (ws.foldl (widen line) d).maxDepth = d.maxDepth := by
  induction ws generalizing d with
  | nil => exact ⟨(List.append_nil _).symm, rfl, rfl⟩
  | cons w ws ih =>
      obtain ⟨hcode, hlayout, hmax⟩ := ih (widen line d w)
      refine ⟨?_, hlayout, hmax⟩
      rw [List.foldl_cons, hcode]
      simp [widen, emit, widenEntry]

end Draft

end FormulaMachine
