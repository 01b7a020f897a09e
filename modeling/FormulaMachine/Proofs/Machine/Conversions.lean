import FormulaMachine.Proofs.Compiler.Listing
import FormulaMachine.Proofs.Machine.Soundness
import FormulaMachine.Proofs.Scalar.Widening

namespace FormulaMachine

namespace Draft

variable {o : CompileOptions} {line : Nat} {d d' : Draft}

def Resolves (o : CompileOptions) (name : String) (w : Widening) : Prop :=
  ∃ kernel operands r, Kernel.ofName? name = some kernel ∧
    kernel.resolve o.implicitCasts operands = .ok r ∧ w ∈ r.widenings

def ConvertsFor (o : CompileOptions) (name : String) (e : Entry) : Prop :=
  ∀ (w : Widening) (implicit : Bool), e.opcode = .cast w.source w.target w.depth implicit →
    Resolves o name w

theorem operator_converts {name : String} (h : operator o line d name = .ok d') :
    ∃ es, d'.code.toList = d.code.toList ++ es ∧ ∀ e ∈ es, ConvertsFor o name e := by
  obtain ⟨kernel, r, own, hname, hresolve, hcode, hown⟩ := operator_adds h
  refine ⟨_, hcode, List.forall_mem_append.mpr ⟨?_, List.forall_mem_singleton.mpr ?_⟩⟩
  · rintro e he ⟨depth, j, k⟩ implicit hw
    obtain ⟨w, hmem, rfl⟩ := List.mem_map.mp he
    obtain ⟨rfl, rfl, rfl, -⟩ := Opcode.cast.inj hw
    exact ⟨kernel, _, r, hname, hresolve, hmem⟩
  · intro w implicit hw
    cases hown <;> cases hw

end Draft

def CompiledFrom (text : String) (vs : Variables) (o : CompileOptions)
    (l : Nat × Except Error Postfix.Instruction) (pc : Nat) : Prop :=
  ∃ before after d d', Postfix.instructions text = before ++ l :: after ∧
    before.foldlM (Draft.line o) (.start vs) = .ok d ∧ Draft.line o d l = .ok d' ∧
    d.code.size ≤ pc ∧ pc < d'.code.size

section Compile

variable {text : String} {vs : Variables} {o : CompileOptions} {p : Program} {pc n : Nat}
  {e : Entry} {name : String}

theorem CompiledFrom.converts (hl : CompiledFrom text vs o (n, .ok (.operator name)) pc)
    (h : compile text vs o = .ok p) (he : p.code[pc]? = some e) :
    Draft.ConvertsFor o name e := by
  obtain ⟨before, after, d, d', hlines, hbefore, hline, hle, hlt⟩ := hl
  obtain ⟨last, hlast, -, -, hcode, -⟩ := compile_eq_ok h
  rw [hlines, List.foldlM_append] at hlast
  obtain ⟨d₁, hd₁, hlast⟩ := bind_eq_ok hlast
  obtain rfl := Except.ok.inj (hbefore.symm.trans hd₁)
  rw [List.foldlM_cons] at hlast
  obtain ⟨d₂, hd₂, hlast⟩ := bind_eq_ok hlast
  obtain rfl := Except.ok.inj (hline.symm.trans hd₂)
  obtain ⟨i, hi, hinstruction⟩ := Draft.line_eq_ok hline
  obtain rfl := Except.ok.inj hi
  obtain ⟨es, hadded, hconverts⟩ := Draft.operator_converts hinstruction
  obtain ⟨rest, hrest⟩ := (Draft.lines_extend hlast).code
  rw [← Array.length_toList] at hle hlt
  rw [← hcode, ← Array.getElem?_toList, ← hrest, List.getElem?_append_left hlt, hadded,
    List.getElem?_append_right hle] at he
  exact hconverts e (List.mem_of_getElem? he)

end Compile

namespace Program

variable {p : Program} {s : Store} {pc : Nat} {st : State} {e : Entry}

def ConvertsOperand (p : Program) (st : State) (e : Entry) (w : Widening) : Prop :=
  ∃ x : Scalar w.source, st.stack.slots[w.depth]? = some x.toWord ∧
    ((w.source = .float32 → x.isFinite) → ∃ y, w.Keeps x y ∧
      p.step true e.opcode st = .ok { st with stack := st.stack.set w.depth y.toWord })

theorem Visits.convertsOperand (hp : p.Sound) (h : p.Visits true s pc st)
    (he : p.code[pc]? = some e) {o : CompileOptions} {name : String} {w : Widening}
    {implicit : Bool} (hw : Draft.Resolves o name w)
    (hop : e.opcode = .cast w.source w.target w.depth implicit) : p.ConvertsOperand st e w := by
  obtain ⟨kernel, operands, r, -, hresolve, hmem⟩ := hw
  obtain ⟨hs, hs₁, -, hadmits, -, hst, -⟩ := h.entry hp he
  have hat : hs[w.depth]? = some (.scalar w.source) := by
    cases hadmits with
    | cast hat =>
        obtain ⟨rfl, rfl, rfl, -⟩ := Opcode.cast.inj hop
        exact hat
    | keep =>
        obtain ⟨hsource, htarget, -⟩ := Opcode.cast.inj hop
        obtain ⟨hne, -⟩ := Resolution.wideningCost?_of_resolve hresolve hmem
        exact absurd (hsource.symm.trans htarget) hne
    | _ => cases hop
  obtain ⟨_, hword, x, rfl⟩ := forall₂_getElem?_left hst hat
  refine ⟨x, hword, fun hx => ?_⟩
  obtain ⟨y, hcast, hkeeps⟩ := Widening.exists_keeps hresolve hmem x hx
  refine ⟨y, hkeeps, ?_⟩
  rw [hop, step, castStep_eq hword, hcast]
  rfl

end Program

theorem widenings_keep_values :
    (∀ (kernel : Kernel) (operands : List DataType) (r : Resolution),
      kernel.resolve true operands = .ok r → ∀ w ∈ r.widenings, ∀ x : Scalar w.source,
        (w.source = .float32 → x.isFinite) →
          ∃ y, Scalar.cast true w.target x = .ok y ∧ w.Keeps x y) ∧
    (∀ (text : String) (vs : Variables) (o : CompileOptions) (p : Program), vs.Made →
      compile text vs o = .ok p → ∀ (s : Store) (pc : Nat) (st : State) (e : Entry) (n : Nat)
        (name : String) (w : Widening) (implicit : Bool), p.Visits true s pc st →
        p.code[pc]? = some e → CompiledFrom text vs o (n, .ok (.operator name)) pc →
        e.opcode = .cast w.source w.target w.depth implicit → p.ConvertsOperand st e w) ∧
    ∀ j k : Kind, j.isInteger → k.isInteger →
      (j.widensTo k ↔ ∀ (x : Scalar j) (n : Int), x.toInt? = some n → Scalar.inRange k n) := by
  refine ⟨fun kernel operands r h w hw x hx => Widening.exists_keeps h hw x hx, ?_,
    fun j k hj hk => Scalar.widensTo_iff_inRange hj hk⟩
  intro text vs o p hvs h s pc st e n name w implicit hvisits he hline hop
  exact hvisits.convertsOperand (compile_sound hvs.fresh h) he (hline.converts h he w implicit hop)
    hop

theorem widenings_keep_values_floats :
    ∃ vs p s st e, vs.Made ∧ compile "READ a\nREAD b\nADD\nWRITE y\n" vs .default = .ok p ∧
      p.Visits true s 2 st ∧ p.code[2]? = some e ∧
      CompiledFrom "READ a\nREAD b\nADD\nWRITE y\n" vs .default (3, .ok (.operator "ADD")) 2 ∧
      p.ConvertsOperand st e ⟨1, .float32, .float64⟩ ∧
      (∃ y, Scalar.cast true .float32 (⟨65535⟩ : Scalar (.uint .w16)) = .ok y ∧
        Widening.Keeps ⟨1, .uint .w16, .float32⟩ ⟨65535⟩ y) ∧
      ∀ (x : Scalar (.uint .w8)) (n : Int), x.toInt? = some n →
        Scalar.inRange (.int .w16) n := by
  let vs : Variables :=
    ⟨[⟨"a", .scalar .float32, none, none⟩, ⟨"b", .scalar .float64, none, none⟩], [.named "y"]⟩
  let p : Program := {
    vars := ⟨[⟨"a", .scalar .float32, some (.variable 0), none⟩,
      ⟨"b", .scalar .float64, some (.variable 4), none⟩],
      [⟨"y", .scalar .float64, some (.variable 12), none⟩]⟩
    constants := #[]
    literals := []
    code := #[⟨.loadVariable 0 .float32, 1, [], some (.scalar .float32), none⟩,
      ⟨.loadVariable 4 .float64, 2, [], some (.scalar .float64), none⟩,
      ⟨.cast .float32 .float64 1 true, 3, [.scalar .float32], some (.scalar .float64), none⟩,
      ⟨.scalar (.arithmetic .sum) .float64, 3, [.scalar .float64, .scalar .float64],
        some (.scalar .float64), some "ADD"⟩,
      ⟨.storeVariable 12 .float64, 4, [.scalar .float64], none, none⟩]
    matrices := #[]
    bindings := #[]
    sizes := ⟨0, 20, 5, 2⟩ }
  have hmade : vs.Made := by
    have hdiscover : Variables.discover "READ a\nREAD b\nADD\nWRITE y\n" =
        .ok ⟨[.named "a", .named "b"], [.named "y"]⟩ := by decide +kernel
    have ha : Variables.bind ⟨[.named "a", .named "b"], [.named "y"]⟩ "a" (.scalar .float32) none =
        .ok ⟨[⟨"a", .scalar .float32, none, none⟩, .named "b"], [.named "y"]⟩ := by decide +kernel
    have hb : Variables.bind ⟨[⟨"a", .scalar .float32, none, none⟩, .named "b"], [.named "y"]⟩ "b"
        (.scalar .float64) none = .ok vs := by decide +kernel
    exact ⟨_, _, hdiscover, .bind (.bind .refl ha) hb⟩
  have hcompile : compile "READ a\nREAD b\nADD\nWRITE y\n" vs .default = .ok p := by decide +kernel
  have hlines : Postfix.instructions "READ a\nREAD b\nADD\nWRITE y\n" =
      [(1, .ok (.read "a")), (2, .ok (.read "b")), (3, .ok (.operator "ADD")),
        (4, .ok (.write "y"))] := by decide +kernel
  have hread : p.Visits true ⟨p.newOwned, #[]⟩ 1 _ :=
    .next (e := ⟨.loadVariable 0 .float32, 1, [], some (.scalar .float32), none⟩) .start rfl rfl
  have hvisits : p.Visits true ⟨p.newOwned, #[]⟩ 2 _ :=
    .next (e := ⟨.loadVariable 4 .float64, 2, [], some (.scalar .float64), none⟩) hread rfl rfl
  have hline : CompiledFrom "READ a\nREAD b\nADD\nWRITE y\n" vs .default
      (3, .ok (.operator "ADD")) 2 :=
    ⟨[(1, .ok (.read "a")), (2, .ok (.read "b"))], [(4, .ok (.write "y"))], _, _, hlines, rfl, rfl,
      by decide, by decide⟩
  obtain ⟨hkeeps, hruns, hwidens⟩ := widenings_keep_values
  refine ⟨vs, p, _, _, _, hmade, hcompile, hvisits, rfl, hline, ?_, ?_, ?_⟩
  · exact hruns _ vs .default p hmade hcompile _ 2 _ _ 3 "ADD" ⟨1, .float32, .float64⟩ true hvisits
      rfl hline rfl
  · exact hkeeps (.arithmetic .sum) [.scalar (.uint .w16), .scalar .float32] _ rfl
      ⟨1, .uint .w16, .float32⟩ (by decide) ⟨65535⟩ (by rintro ⟨⟩)
  · exact (hwidens (.uint .w8) (.int .w16) rfl rfl).mp rfl

end FormulaMachine
