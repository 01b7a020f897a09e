import FormulaMachine.Proofs.Compiler.Compile

namespace FormulaMachine

namespace Draft

variable {o o' : CompileOptions} {line : Nat} {d d' : Draft}

def Screened (Passes : Draft → Prop) (x y : Except Error Draft) : Prop :=
  ∀ d', x = .ok d' ↔ y = .ok d' ∧ Passes d'

namespace Screened

variable {Passes : Draft → Prop}

theorem error (e : Error) : Screened Passes (.error e) (.error e) :=
  fun _ => ⟨fun h => (by cases h), fun h => (by cases h.1)⟩

theorem refl {x : Except Error Draft} (h : ∀ d', x = .ok d' → Passes d') : Screened Passes x x :=
  fun d' => ⟨fun hd' => ⟨hd', h d' hd'⟩, And.left⟩

theorem bind {α : Type} {x : Except Error α} {f g : α → Except Error Draft}
    (h : ∀ a, x = .ok a → Screened Passes (f a) (g a)) : Screened Passes (x >>= f) (x >>= g) := by
  cases x with
  | error e => exact error e
  | ok a => exact h a rfl

end Screened

structure Filters (o o' : CompileOptions) (Holds Passes : Draft → Prop) : Prop where
  keeps : ∀ {line d d' i}, Holds d → instruction o' line d i = .ok d' → Holds d'
  screened : ∀ {line d i}, Holds d → Passes d →
    Screened Passes (instruction o line d i) (instruction o' line d i)
  passes_before : ∀ {d d' : Draft}, d.Extends d' → Passes d' → Passes d

namespace Filters

variable {Holds Passes : Draft → Prop}

theorem screened_line (h : Filters o o' Holds Passes) {l : Nat × Except Error Postfix.Instruction}
    (hd : Holds d) (hpasses : Passes d) :
    Screened Passes (Draft.line o d l) (Draft.line o' d l) := by
  obtain ⟨line, i⟩ := l
  cases i with
  | error e => exact .error e
  | ok i => exact h.screened hd hpasses

theorem screened_lines (h : Filters o o' Holds Passes)
    {lines : List (Nat × Except Error Postfix.Instruction)} (hd : Holds d) (hpasses : Passes d) :
    Screened Passes (lines.foldlM (Draft.line o) d) (lines.foldlM (Draft.line o') d) := by
  induction lines generalizing d with
  | nil => exact .refl fun d' hd' => Except.ok.inj hd' ▸ hpasses
  | cons l lines ih =>
      intro d'
      rw [List.foldlM_cons, List.foldlM_cons]
      constructor
      · intro hlines
        obtain ⟨d₁, hl, hrest⟩ := bind_eq_ok hlines
        obtain ⟨hl', hpasses₁⟩ := (h.screened_line hd hpasses d₁).mp hl
        obtain ⟨i, -, hi⟩ := line_eq_ok hl'
        obtain ⟨hrest', hpasses'⟩ := (ih (h.keeps hd hi) hpasses₁ d').mp hrest
        exact ⟨(bind_of_ok hl').trans hrest', hpasses'⟩
      · rintro ⟨hlines, hpasses'⟩
        obtain ⟨d₁, hl', hrest'⟩ := bind_eq_ok hlines
        obtain ⟨i, -, hi⟩ := line_eq_ok hl'
        -- the lines that follow cannot make good a test that fails here
        have hpasses₁ := h.passes_before (lines_extend hrest') hpasses'
        have hl := (h.screened_line hd hpasses d₁).mpr ⟨hl', hpasses₁⟩
        exact (bind_of_ok hl).trans ((ih (h.keeps hd hi) hpasses₁ d').mpr ⟨hrest', hpasses'⟩)

theorem compile_iff (h : Filters o o' Holds Passes) {text : String} {vs : Variables}
    {p : Program} {Suits : Prop} (hstart : Holds (start vs)) (hpasses : Passes (start vs))
    (hsuits : ∀ d, finish d = .ok p → (Suits ↔ Passes d)) :
    compile text vs o = .ok p ↔ compile text vs o' = .ok p ∧ Suits := by
  constructor
  · intro hp
    obtain ⟨d, hd, hfinish⟩ := bind_eq_ok hp
    obtain ⟨hd', hpasses'⟩ := (h.screened_lines hstart hpasses d).mp hd
    exact ⟨(bind_of_ok hd').trans hfinish, (hsuits d hfinish).mpr hpasses'⟩
  · rintro ⟨hp, hp'⟩
    obtain ⟨d, hd', hfinish⟩ := bind_eq_ok hp
    have hd := (h.screened_lines hstart hpasses d).mpr ⟨hd', (hsuits d hfinish).mp hp'⟩
    exact (bind_of_ok hd).trans hfinish

end Filters

section Depth

def Within (l : Nat) (d : Draft) : Prop :=
  d.maxDepth ≤ l

variable {l : Nat}

theorem push_screened (hd : d.Within l) (line : Nat) (s : Slot) :
    Screened (Within l) (d.push (some l) line s) (d.push none line s) := by
  intro d'
  have hmax : (d.pushed s).maxDepth = max d.maxDepth (d.stack.depth + 1) := rfl
  have hfree : d.push none line s = .ok (d.pushed s) := rfl
  have hlimited : d.push (some l) line s =
      if l < d.stack.depth + 1 then .error (.depthExceeded line (d.stack.depth + 1) l)
      else .ok (d.pushed s) := rfl
  unfold Within at hd
  rw [hfree, hlimited, Within]
  split
  · refine ⟨fun h => (by cases h), ?_⟩
    rintro ⟨h, hd'⟩
    obtain rfl := Except.ok.inj h
    omega
  · refine ⟨fun h => ⟨h, ?_⟩, And.left⟩
    obtain rfl := Except.ok.inj h
    omega

theorem read_screened (hd : d.Within l) (name : String) :
    Screened (Within l) (read { o with maxStackDepth := some l } line d name)
      (read { o with maxStackDepth := none } line d name) := by
  unfold read
  cases hv : d.vars.get? name with
  | none => exact .error _
  | some v =>
      obtain rfl := Variables.name_of_get? hv
      dsimp only
      split
      · exact .error _
      rename_i ht
      cases halloc : d.allocate v with
      | error e => exact .error e
      | ok result =>
          obtain ⟨y, hy, -⟩ := allocate_eq_ok hv ht halloc
          refine push_screened ?_ line _
          rw [hy]
          exact hd

theorem const_screened (hd : d.Within l) (typeName : Option String) (literal : String) :
    Screened (Within l) (const { o with maxStackDepth := some l } line d typeName literal)
      (const { o with maxStackDepth := none } line d typeName literal) := by
  have hkind : literalKind { o with maxStackDepth := some l } line typeName =
      literalKind { o with maxStackDepth := none } line typeName := rfl
  unfold const
  rw [hkind]
  cases literalKind { o with maxStackDepth := none } line typeName with
  | error e => exact .error e
  | ok k =>
      dsimp only
      split
      · exact .error _
      · refine push_screened ?_ line _
        exact hd

theorem cast_screened (hd : d.Within l) (typeName : String) :
    Screened (Within l) (cast { o with maxStackDepth := some l } line d typeName)
      (cast { o with maxStackDepth := none } line d typeName) := by
  unfold cast
  cases DataType.read typeName with
  | error e => exact .error _
  | ok t =>
      cases d.stack.slots with
      | nil => exact .error _
      | cons s rest =>
          dsimp only
          split
          · refine push_screened ?_ line _
            exact hd
          · exact .error _

theorem maxDepth_detachSlots {number depth : Nat} {slots slots' : List Slot}
    (h : detachSlots line number depth slots d = .ok (slots', d')) : d'.maxDepth = d.maxDepth := by
  induction slots generalizing depth slots' d' with
  | nil =>
      obtain ⟨-, rfl⟩ := Prod.mk.inj (Except.ok.inj h)
      rfl
  | cons s slots ih =>
      obtain ⟨slots₁, d₁, hrest, ⟨-, -, rfl⟩ | ⟨s', -, hs, -⟩⟩ := detachSlots_cons_eq_ok h
      · exact ih hrest
      · obtain ⟨-, -, -, rfl⟩ := detachSlot_eq_ok hs
        have hmax : d₁.maxDepth = d.maxDepth := ih hrest
        exact hmax

theorem maxDepth_write {name : String} (h : write line d name = .ok d') :
    d'.maxDepth = d.maxDepth := by
  obtain ⟨s, rest, v, w, l, y, d₁, d₂, -, -, -, -, -, -, hconvert, hdetach, rfl⟩ := write_eq_ok h
  have hconverted : d₁.maxDepth = d.maxDepth := by
    rcases hconvert with ⟨-, rfl⟩ | ⟨j, k, -, -, rfl⟩ <;> rfl
  have hdetached : d₂.maxDepth = d₁.maxDepth := by
    rcases detachTarget_eq_ok hdetach with ⟨-, rfl⟩ | ⟨number, slots, d₃, -, hslots, rfl⟩
    · rfl
    · have hmax : d₃.maxDepth = d₁.maxDepth := maxDepth_detachSlots hslots
      exact hmax
  exact hdetached.trans hconverted

theorem maxDepth_operationOpcode {r : Resolution} {opcode : Opcode}
    (h : d.operationOpcode r = .ok (opcode, d')) : d'.maxDepth = d.maxDepth := by
  rcases operationOpcode_eq_ok h with ⟨_, _, -, -, rfl⟩ | ⟨_, -, -, -, rfl⟩ <;> rfl

theorem operator_screened (hd : d.Within l) (name : String) :
    Screened (Within l) (operator { o with maxStackDepth := some l } line d name)
      (operator { o with maxStackDepth := none } line d name) := by
  unfold operator
  cases Kernel.ofName? name with
  | none => exact .error _
  | some kernel =>
      dsimp only
      split
      · exact .error _
      refine .bind fun r _ => .bind fun ⟨opcode, d₁⟩ hop => ?_
      refine push_screened ?_ line _
      have hmax : d₁.maxDepth = d.maxDepth :=
        (maxDepth_operationOpcode hop).trans (foldl_widen line r.widenings d).2.2
      exact hmax.trans_le hd

theorem instruction_screened (hd : d.Within l) (i : Postfix.Instruction) :
    Screened (Within l) (instruction { o with maxStackDepth := some l } line d i)
      (instruction { o with maxStackDepth := none } line d i) := by
  cases i with
  | read name => exact read_screened hd name
  | write name => exact .refl fun d' h => (maxDepth_write h).trans_le hd
  | const typeName literal => exact const_screened hd typeName literal
  | cast typeName => exact cast_screened hd typeName
  | operator name => exact operator_screened hd name

theorem limit_filters (o : CompileOptions) (l : Nat) :
    Filters { o with maxStackDepth := some l } { o with maxStackDepth := none } (fun _ => True)
      (Within l) where
  keeps _ _ := trivial
  screened _ hd := instruction_screened hd _
  passes_before h hd' := h.maxDepth.trans hd'

end Depth

end Draft

theorem compile_limited_iff (text : String) (vs : Variables) (o : CompileOptions) (l : Nat)
    (p : Program) :
    compile text vs { o with maxStackDepth := some l } = .ok p ↔
      compile text vs { o with maxStackDepth := none } = .ok p ∧ p.sizes.maxStackDepth ≤ l := by
  refine (Draft.limit_filters o l).compile_iff trivial (Nat.zero_le l) fun d hfinish => ?_
  obtain ⟨-, y, rfl, -⟩ := Draft.finish_eq_ok hfinish
  exact Iff.rfl

end FormulaMachine
