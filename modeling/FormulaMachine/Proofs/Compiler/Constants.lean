import FormulaMachine.Proofs.Compiler.Refusal
import FormulaMachine.Proofs.Scalar.Floats

namespace FormulaMachine

open Numeral (Decimal)

variable {text literal : String} {vs : Variables} {o : CompileOptions} {p : Program} {line : Nat}
  {typeName : Option String} {k : Kind} {x : Scalar k}

namespace Draft

theorem push_cases (limit : Option Nat) (line : Nat) (d : Draft) (s : Slot) :
    d.push limit line s = .ok (d.pushed s) ∨
      ∃ depth l, d.push limit line s = .error (.depthExceeded line depth l) := by
  cases hpush : d.push limit line s with
  | ok d' => exact .inl (congrArg _ (push_eq_ok hpush))
  | error e =>
      unfold push at hpush
      dsimp only at hpush
      split at hpush
      · cases hpush
      · split at hpush
        · exact .inr ⟨_, _, hpush.symm⟩
        · cases hpush

theorem literalKind_of_line (h : literalKind o line typeName = .ok k) (line' : Nat) :
    literalKind o line' typeName = .ok k := by
  cases typeName with
  | none => exact h
  | some typeName =>
      unfold literalKind at h ⊢
      dsimp only at h ⊢
      split at h
      · exact h
      · cases h

theorem const_eq (hk : literalKind o line typeName = .ok k)
    (hx : Scalar.read? k literal.toList = some x) (d : Draft) : const o line d typeName literal =
      ((d.withConstant x ⟨literal, typeName⟩).emit line
        (.loadConstant (d.constants.size % offsetLimit) k) [] (some (.scalar k)) none).push
          o.maxStackDepth line ⟨.scalar k, none⟩ := by
  rw [const, hk]
  dsimp only
  rw [hx]
  rfl

theorem const_stores (hk : literalKind o line typeName = .ok k)
    (hx : Scalar.read? k literal.toList = some x) (d : Draft) :
    (∃ d', const o line d typeName literal = .ok d' ∧
      d'.constants = d.constants ++ x.bytes.toArray) ∨
      ∃ depth limit,
        const o line d typeName literal = .error (.depthExceeded line depth limit) := by
  rw [const_eq hk hx]
  exact (push_cases ..).imp_left fun hpush => ⟨_, hpush, rfl⟩

end Draft

section Compile

variable (h : compile text vs o = .ok p)

include h

theorem line_of_compile {l : Nat × Except Error Postfix.Instruction}
    (hl : l ∈ Postfix.instructions text) :
    ∃ d d', Draft.line o d l = .ok d' ∧ d'.Leads p := by
  obtain ⟨last, hlast, -, hlead, -⟩ := compile_eq_ok h
  obtain ⟨before, after, hlines⟩ := List.append_of_mem hl
  rw [hlines, List.foldlM_append] at hlast
  obtain ⟨d, -, hlast⟩ := bind_eq_ok hlast
  rw [List.foldlM_cons] at hlast
  obtain ⟨d', hline, hlast⟩ := bind_eq_ok hlast
  exact ⟨d, d', hline, (Draft.lines_extend hlast).leads hlead⟩

theorem constant_of_compile (hl : (line, .ok (.const typeName literal)) ∈ Postfix.instructions text)
    (hk : Draft.literalKind o line typeName = .ok k)
    (hx : Scalar.read? k literal.toList = some x) :
    ∃ before after, p.constants.toList = before ++ x.bytes ++ after ∧
      ⟨.loadConstant (before.length % Draft.offsetLimit) k, line % Draft.lineLimit, [],
        some (.scalar k), none⟩ ∈ p.code.toList := by
  obtain ⟨d, d', hline, hlead⟩ := line_of_compile h hl
  obtain ⟨j, y, hj, hy, rfl⟩ := Draft.const_eq_ok hline
  obtain rfl := Except.ok.inj ((Draft.literalKind_of_line hk _).symm.trans hj)
  obtain rfl := Option.some.inj (hx.symm.trans hy)
  obtain ⟨after, hafter⟩ := hlead.constants
  refine ⟨d.constants.toList, after, ?_, hlead.code.subset ?_⟩
  · rw [← hafter]
    simp [Draft.pushed, Draft.emit, Draft.withConstant]
  · simp [Draft.pushed, Draft.emit]

end Compile

theorem decimals_stored {f : Format} {d : Decimal}
    (hl : (line, .ok (.const typeName literal)) ∈ Postfix.instructions text)
    (hk : Draft.literalKind o line typeName = .ok k) (hf : k.format? = some f)
    (hd : Text.trim literal.toList = d.text) :
    ∃ x : Scalar k,
      (x.isFinite ↔ d.coefficient * 10 ^ d.seenExponent < f.overflow) ∧
      (d.IsModerate → (x.isFinite ↔ |d.value| < f.overflow)) ∧
      (∀ draft, (∃ draft', Draft.line o draft (line, .ok (.const typeName literal)) = .ok draft' ∧
          draft'.constants = draft.constants ++ x.bytes.toArray) ∨
        ∃ depth limit, Draft.line o draft (line, .ok (.const typeName literal)) =
          .error (.depthExceeded (line % Draft.lineLimit) depth limit)) ∧
      ∀ vs p, compile text vs o = .ok p → ∃ before after,
        p.constants.toList = before ++ x.bytes ++ after ∧
        ⟨.loadConstant (before.length % Draft.offsetLimit) k, line % Draft.lineLimit, [],
          some (.scalar k), none⟩ ∈ p.code.toList := by
  obtain ⟨x, hx, hseen, hvalue⟩ := Scalar.exists_read?_decimal hf hd
  exact ⟨x, hseen, hvalue, Draft.const_stores (Draft.literalKind_of_line hk _) hx,
    fun vs p hp => constant_of_compile hp hl hk hx⟩

theorem decimals_stored_beyond_float32 :
    let d : Decimal := ⟨.missing, ['1'], none,
      some ⟨'e', .missing, ['3', '9'], rfl, rfl, by decide⟩, rfl, rfl, by decide⟩
    let text := "CONST float32 1e39\nWRITE y\n"
    (1, .ok (.const (some "float32") "1e39")) ∈ Postfix.instructions text ∧
      Draft.literalKind .default 1 (some "float32") = .ok .float32 ∧
      Kind.float32.format? = some .single ∧ Text.trim "1e39".toList = d.text ∧
      ∃ x : Scalar .float32, ¬ x.isFinite ∧ ∀ vs p, compile text vs .default = .ok p →
        ∃ before after, p.constants.toList = before ++ x.bytes ++ after := by
  intro d text
  have hlines : Postfix.instructions text =
      [(1, .ok (.const (some "float32") "1e39")), (2, .ok (.write "y"))] := by decide +kernel
  have hl : (1, .ok (.const (some "float32") "1e39")) ∈ Postfix.instructions text := by
    rw [hlines]
    exact List.mem_cons_self
  have hd : Text.trim "1e39".toList = d.text := by decide +kernel
  refine ⟨hl, rfl, rfl, hd, ?_⟩
  obtain ⟨x, -, hfinite, -, hstored⟩ :=
    decimals_stored (o := .default) (k := .float32) hl rfl rfl hd
  have hvalue : |d.value| = 10 ^ 39 := by
    have hcoefficient : d.coefficient = 1 := by decide
    have hexponent : d.exponent = 39 := by decide
    rw [d.abs_value, Decimal.magnitude, hcoefficient, hexponent, Nat.cast_one, one_mul]
    norm_cast
  have hlarge : Format.single.overflow ≤ 10 ^ 39 := by
    have hscale : Format.single.scale = 149 := rfl
    have htop : Format.single.topExponent = 253 := rfl
    rw [Format.overflow, hscale, htop]
    norm_num [Format.single]
  refine ⟨x, ?_, fun vs p hp => ?_⟩
  · rw [hfinite (.inr (by decide)), hvalue]
    exact not_lt.mpr hlarge
  · obtain ⟨before, after, hconstants, -⟩ := hstored vs p hp
    exact ⟨before, after, hconstants⟩

theorem infinite_constant :
    ∃ vs p, Variables.discover "CONST 1e400\nWRITE y\n" = .ok vs ∧
      compile "CONST 1e400\nWRITE y\n" vs .default = .ok p ∧
      (Scalar.ofBytes .float64 p.constants.toList).isFinite = false := by
  have hlines : Postfix.instructions "CONST 1e400\nWRITE y\n" =
      [(1, .ok (.const none "1e400")), (2, .ok (.write "y"))] := by decide +kernel
  let p : Program :=
    ⟨⟨[], [⟨"y", .scalar .float64, some (.variable 0), none⟩]⟩, #[0, 0, 0, 0, 0, 0, 0xf0, 0x7f],
      [(0, ⟨"1e400", none⟩)],
      #[⟨.loadConstant 0 .float64, 1, [], some (.scalar .float64), none⟩,
        ⟨.storeVariable 0 .float64, 2, [.scalar .float64], none, none⟩],
      #[], #[], ⟨8, 8, 2, 1⟩⟩
  refine ⟨⟨[], [.named "y"]⟩, p, by decide +kernel, ?_, by decide +kernel⟩
  rw [compile, hlines]
  decide +kernel

end FormulaMachine
