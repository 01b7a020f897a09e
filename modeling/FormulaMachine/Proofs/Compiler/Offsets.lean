import FormulaMachine.Proofs.Compiler.Constants
import FormulaMachine.Proofs.Compiler.Discovery
import FormulaMachine.Proofs.Compiler.Listing
import FormulaMachine.Proofs.Compiler.Unbounded

namespace FormulaMachine

namespace Postfix

def Instruction.literal? : Instruction → Option Literal
  | .const typeName literal => some ⟨literal, typeName⟩
  | _ => none

def literals (lines : List (Nat × Except Error Instruction)) : List (Nat × Literal) :=
  lines.filterMap fun l => (l.2.toOption.bind Instruction.literal?).map (l.1, ·)

theorem literals_append (lines lines' : List (Nat × Except Error Instruction)) :
    literals (lines ++ lines') = literals lines ++ literals lines' :=
  List.filterMap_append ..

theorem mem_literals {lines : List (Nat × Except Error Instruction)} {n : Nat} {literal : Literal}
    (h : (n, literal) ∈ literals lines) :
    (n, .ok (.const literal.typeName literal.text)) ∈ lines := by
  obtain ⟨⟨m, x⟩, hx, h⟩ := List.mem_filterMap.mp h
  obtain ⟨literal', hliteral, heq⟩ := Option.map_eq_some_iff.mp h
  obtain ⟨rfl, rfl⟩ := Prod.mk.inj heq
  obtain ⟨i, hi, hliteral⟩ := Option.bind_eq_some_iff.mp hliteral
  obtain rfl := toOption_eq_some hi
  cases i with
  | const typeName text =>
      obtain rfl := Option.some.inj hliteral
      exact hx
  | _ => cases hliteral

theorem map_snd_literals {lines : List (Nat × Except Error Instruction)} {code : List Instruction}
    (h : lines.map Prod.snd = code.map .ok) :
    (literals lines).map Prod.snd = code.filterMap Instruction.literal? := by
  have hlines : code.filterMap Instruction.literal? =
      (lines.map Prod.snd).filterMap fun x => x.toOption.bind Instruction.literal? := by
    rw [h, List.filterMap_map]
    rfl
  rw [hlines, List.filterMap_map, literals, List.map_filterMap]
  refine congrArg (List.filterMap · lines) (funext fun l => ?_)
  rw [Option.map_map]
  exact Option.map_id'

end Postfix

def Opcode.isConstant : Opcode → Bool
  | .loadConstant .. => true
  | _ => false

structure Constant where
  line : Nat
  literal : Literal
  start : Nat
  kind : Kind
  value : Scalar kind

namespace Constant

def source (c : Constant) : Nat × Literal :=
  (c.line, c.literal)

def bytes (c : Constant) : List Byte :=
  c.value.bytes

def stop (c : Constant) : Nat :=
  c.start + c.kind.size

def offset (c : Constant) : Nat :=
  c.start % Draft.offsetLimit

def load (c : Constant) : Entry :=
  ⟨.loadConstant c.offset c.kind, c.line % Draft.lineLimit, [], some (.scalar c.kind), none⟩

def IsRead (o : CompileOptions) (c : Constant) : Prop :=
  Draft.literalKind o c.line c.literal.typeName = .ok c.kind ∧
    Scalar.read? c.kind c.literal.text.toList = some c.value

def Apart (place : Constant → Nat) (c c' : Constant) : Prop :=
  place c + c.kind.size ≤ place c' ∨ place c' + c'.kind.size ≤ place c

def Contiguous (n : Nat) : List Constant → Prop
  | [] => True
  | c :: cs => c.start = n ∧ Contiguous c.stop cs

variable {n : Nat} {c : Constant} {cs cs' : List Constant}

theorem length_bytes (c : Constant) : c.bytes.length = c.kind.size :=
  c.value.length_bytes

theorem offset_eq_start_iff : c.offset = c.start ↔ c.start < Draft.offsetLimit :=
  Nat.mod_eq_iff_lt (by decide)

theorem contiguous_append : Contiguous n (cs ++ cs') ↔
    Contiguous n cs ∧ Contiguous (n + (cs.flatMap bytes).length) cs' := by
  induction cs generalizing n with
  | nil => simp [Contiguous]
  | cons c cs ih =>
      rw [List.cons_append, Contiguous, Contiguous, ih, List.flatMap_cons, List.length_append,
        length_bytes, and_assoc, ← Nat.add_assoc]
      refine and_congr_right fun hstart => ?_
      rw [stop, hstart]

namespace Contiguous

theorem start_eq {before after : List Constant} (h : Contiguous n (before ++ c :: after)) :
    c.start = n + (before.flatMap bytes).length :=
  (contiguous_append.mp h).2.1

theorem le_start (h : Contiguous n cs) : ∀ c ∈ cs, n ≤ c.start := by
  intro c hc
  obtain ⟨before, after, rfl⟩ := List.append_of_mem hc
  rw [h.start_eq]
  exact Nat.le_add_right _ _

theorem pairwise (h : Contiguous n cs) : cs.Pairwise fun c c' => c.stop ≤ c'.start := by
  induction cs generalizing n with
  | nil => exact .nil
  | cons c cs ih => exact .cons h.2.le_start (ih h.2)

theorem exists_mem (h : Contiguous n cs) {b : Nat} (hn : n ≤ b)
    (hb : b < n + (cs.flatMap bytes).length) : ∃ c ∈ cs, c.start ≤ b ∧ b < c.stop := by
  induction cs generalizing n with
  | nil => exact absurd hb (Nat.not_lt.mpr hn)
  | cons c cs ih =>
      obtain ⟨hstart, hcs⟩ := h
      by_cases hstop : b < c.stop
      · exact ⟨c, List.mem_cons_self, hstart ▸ hn, hstop⟩
      · have hbytes : b < c.stop + (cs.flatMap bytes).length := by
          rw [List.flatMap_cons, List.length_append, length_bytes] at hb
          rw [stop, hstart]
          omega
        obtain ⟨c', hc', hrange⟩ := ih hcs (Nat.le_of_not_lt hstop) hbytes
        exact ⟨c', List.mem_cons_of_mem _ hc', hrange⟩

theorem readBytes_eq (h : Contiguous 0 cs) {pool : Array Byte}
    (hpool : pool.toList = cs.flatMap bytes) (hc : c ∈ cs) :
    readBytes pool c.start c.kind.size = c.bytes := by
  obtain ⟨before, after, rfl⟩ := List.append_of_mem hc
  have hstart := h.start_eq
  rw [Nat.zero_add] at hstart
  rw [← c.length_bytes]
  refine Draft.readBytes_append ⟨after.flatMap bytes, ?_⟩
  rw [hpool, List.flatMap_append, hstart, List.drop_left, List.flatMap_cons]

theorem apart_offset_iff (h : Contiguous 0 cs) :
    cs.Pairwise (Apart offset) ↔ ∀ c ∈ cs, c.start < Draft.offsetLimit := by
  constructor
  · intro hapart c hc
    by_contra hbeyond
    obtain ⟨before, after, rfl⟩ := List.append_of_mem hc
    have hoffset : c.offset < Draft.offsetLimit := Nat.mod_lt _ (by decide)
    have hbefore := (contiguous_append.mp h).1
    -- the offset is below the place of `c`, so it belongs to one of those before `c`
    obtain ⟨c', hc', hle, hlt⟩ := hbefore.exists_mem (Nat.zero_le c.offset) (by
      rw [← h.start_eq]
      omega)
    have hexact : c'.offset = c'.start := offset_eq_start_iff.mpr (by omega)
    have hpos := c.kind.size_pos
    have hne := (List.pairwise_append.mp hapart).2.2 c' hc' c List.mem_cons_self
    rw [Apart, hexact] at hne
    rw [stop] at hlt
    omega
  · intro hsmall
    refine h.pairwise.imp_of_mem fun {c c'} hc hc' hle => .inl ?_
    rw [offset_eq_start_iff.mpr (hsmall c hc), offset_eq_start_iff.mpr (hsmall c' hc')]
    exact hle

end Contiguous

structure Kept (pool : Array Byte) (literals : List (Nat × Literal)) (code : Array Entry)
    (cs : List Constant) : Prop where
  contiguous : Contiguous 0 cs
  bytes : pool.toList = cs.flatMap Constant.bytes
  literals : literals = (cs.map fun c => (c.offset, c.literal)).reverse
  loads : code.toList.filter (·.opcode.isConstant) = cs.map load

theorem Kept.stop_le {pool : Array Byte} {literals : List (Nat × Literal)} {code : Array Entry}
    (h : Kept pool literals code cs) (hc : c ∈ cs) : c.stop ≤ pool.size := by
  have hsize : pool.size = (cs.flatMap Constant.bytes).length := by
    rw [← h.bytes, Array.length_toList]
  have hcontiguous := h.contiguous
  obtain ⟨before, after, rfl⟩ := List.append_of_mem hc
  rw [hsize, stop, hcontiguous.start_eq, List.flatMap_append, List.flatMap_cons,
    List.length_append, List.length_append, length_bytes]
  omega

end Constant

namespace Draft

variable {o : CompileOptions} {line : Nat} {d d' : Draft} {cs : List Constant}

section Entries

variable {i : Postfix.Instruction} {e : Entry}

theorem Inserts.not_isConstant (h : Inserts line i e) : e.opcode.isConstant = false := by
  cases h <;> rfl

theorem Makes.not_isConstant (h : Makes line i e)
    (hi : ∀ typeName literal, i ≠ .const typeName literal) : e.opcode.isConstant = false := by
  cases h with
  | load name k l | store name k l => cases l <;> rfl
  | constant typeName literal => exact absurd rfl (hi typeName literal)
  | _ => rfl

end Entries

def Keeps (d : Draft) (cs : List Constant) : Prop :=
  Constant.Kept d.constants d.literals d.code cs

theorem keeps_start (vs : Variables) : (start vs).Keeps [] :=
  ⟨trivial, rfl, rfl, rfl⟩

theorem Keeps.of_no_const {i : Postfix.Instruction} (hd : d.Keeps cs)
    (h : instruction o line d i = .ok d') (hi : ∀ typeName literal, i ≠ .const typeName literal) :
    d'.Keeps cs := by
  obtain ⟨hliterals, hconstants⟩ := literals_eq_of_no_const h hi
  obtain ⟨inserted, own, hcode, hinserted, hown⟩ := instruction_adds h
  refine ⟨hd.contiguous, hconstants ▸ hd.bytes, hliterals ▸ hd.literals, ?_⟩
  have hnone : inserted.filter (·.opcode.isConstant) = [] :=
    List.filter_eq_nil_iff.mpr fun e he => by simp [(hinserted e he).not_isConstant]
  rw [hcode, List.filter_append, List.filter_append, hnone, hd.loads,
    List.filter_cons_of_neg (by simp [hown.not_isConstant hi])]
  simp

theorem Keeps.const {typeName : Option String} {literal : String} (hd : d.Keeps cs)
    (h : const o (line % lineLimit) d typeName literal = .ok d') :
    ∃ c : Constant, c.source = (line, ⟨literal, typeName⟩) ∧ c.IsRead o ∧ d'.Keeps (cs ++ [c]) := by
  obtain ⟨k, x, hk, hx, rfl⟩ := const_eq_ok h
  let c : Constant := ⟨line, ⟨literal, typeName⟩, d.constants.size, k, x⟩
  have hsize : d.constants.size = (cs.flatMap Constant.bytes).length := by
    rw [← hd.bytes, Array.length_toList]
  refine ⟨c, rfl, ⟨literalKind_of_line hk line, hx⟩,
    Constant.contiguous_append.mpr ⟨hd.contiguous, ?_, trivial⟩, ?_, ?_, ?_⟩
  · rw [Nat.zero_add]
    exact hsize
  · rw [List.flatMap_append, ← hd.bytes]
    simp [pushed, emit, withConstant, c, Constant.bytes]
  · rw [List.map_append, List.reverse_append, ← hd.literals]
    rfl
  · rw [List.map_append, ← hd.loads, pushed, toList_emit, List.filter_append]
    rfl

theorem Keeps.step {l : Nat × Except Error Postfix.Instruction} (hd : d.Keeps cs)
    (h : Draft.line o d l = .ok d') :
    ∃ new : List Constant, Postfix.literals [l] = new.map Constant.source ∧
      (∀ c ∈ new, c.IsRead o) ∧ d'.Keeps (cs ++ new) := by
  obtain ⟨i, hi, hinstruction⟩ := line_eq_ok h
  obtain ⟨number, x⟩ := l
  obtain rfl : x = .ok i := hi
  have hnone (hi : ∀ typeName literal, i ≠ .const typeName literal)
      (hliteral : i.literal? = none) : ∃ new : List Constant,
      Postfix.literals [(number, .ok i)] = new.map Constant.source ∧
        (∀ c ∈ new, c.IsRead o) ∧ d'.Keeps (cs ++ new) := by
    refine ⟨[], ?_, fun c hc => absurd hc List.not_mem_nil, ?_⟩
    · simp [Postfix.literals, Except.toOption, hliteral]
    · rw [List.append_nil]
      exact hd.of_no_const hinstruction hi
  cases i with
  | const typeName literal =>
      obtain ⟨c, hsource, hread, hkeeps⟩ := hd.const hinstruction
      exact ⟨[c], congrArg (List.cons · []) hsource.symm, List.forall_mem_singleton.mpr hread,
        hkeeps⟩
  | _ => exact hnone (fun _ _ => nofun) rfl

theorem Keeps.run {lines : List (Nat × Except Error Postfix.Instruction)} (hd : d.Keeps cs)
    (h : lines.foldlM (Draft.line o) d = .ok d') :
    ∃ new : List Constant, Postfix.literals lines = new.map Constant.source ∧
      (∀ c ∈ new, c.IsRead o) ∧ d'.Keeps (cs ++ new) := by
  induction lines generalizing d cs with
  | nil =>
      obtain rfl := Except.ok.inj h
      exact ⟨[], rfl, fun c hc => absurd hc List.not_mem_nil, (List.append_nil cs).symm ▸ hd⟩
  | cons l lines ih =>
      rw [List.foldlM_cons] at h
      obtain ⟨d₁, hl, h⟩ := bind_eq_ok h
      obtain ⟨new, hliterals, hread, hd₁⟩ := hd.step hl
      obtain ⟨later, hliterals', hread', hd'⟩ := ih hd₁ h
      refine ⟨new ++ later, ?_, List.forall_mem_append.mpr ⟨hread, hread'⟩, ?_⟩
      · rw [List.map_append, ← hliterals, ← hliterals', ← Postfix.literals_append]
        rfl
      · rwa [← List.append_assoc]

theorem const_error {typeName : Option String} {literal : String} {e : Error}
    (h : const o line d typeName literal = .error e) :
    e.code ∈ ["bad_type", "bad_literal", "stack_too_deep"] := by
  unfold const at h
  split at h
  · rename_i hk
    obtain rfl := Except.error.inj h
    unfold literalKind at hk
    split at hk
    · cases hk
    · split at hk
      · cases hk
      · obtain rfl := Except.error.inj hk
        simp [Error.code]
  · split at h
    · obtain rfl := Except.error.inj h
      simp [Error.code]
    · rw [push_error h]
      decide

end Draft

section Compile

variable {text : String} {vs : Variables} {o : CompileOptions} {p : Program}

theorem constantBytes_of_compile (h : compile text vs o = .ok p) :
    p.sizes.constantBytes = p.constants.size := by
  obtain ⟨d, -, hfinish⟩ := bind_eq_ok h
  obtain ⟨-, y, rfl, -⟩ := Draft.finish_eq_ok hfinish
  rfl

theorem kept_of_compile (h : compile text vs o = .ok p) :
    ∃ cs : List Constant,
      Postfix.literals (Postfix.instructions text) = cs.map Constant.source ∧
      (∀ c ∈ cs, c.IsRead o) ∧ Constant.Kept p.constants p.literals p.code cs := by
  obtain ⟨d, hd, hfinish⟩ := bind_eq_ok h
  obtain ⟨-, y, rfl, -⟩ := Draft.finish_eq_ok hfinish
  obtain ⟨cs, hliterals, hread, hkept⟩ := (Draft.keeps_start vs).run hd
  exact ⟨cs, hliterals, hread, hkept⟩

end Compile

structure Program.PlacesConstants (p : Program) (o : CompileOptions) (text : String)
    (cs : List Constant) : Prop where
  lines : Postfix.literals (Postfix.instructions text) = cs.map Constant.source
  read : ∀ c ∈ cs, c.IsRead o
  kept : Constant.Kept p.constants p.literals p.code cs
  held : ∀ c ∈ cs, readBytes p.constants c.start c.kind.size = c.bytes
  apart : cs.Pairwise (Constant.Apart Constant.start)
  apart_offset_iff : cs.Pairwise (Constant.Apart Constant.offset) ↔
    ∀ c ∈ cs, c.offset = c.start

theorem constant_offsets (text : String) (vs : Variables) (o : CompileOptions) :
    (∀ p, compile text vs o = .ok p → ∃ cs, p.PlacesConstants o text cs ∧
      (∀ c ∈ cs, c.offset = c.start ↔ c.start < 2 ^ 32) ∧
      (p.sizes.constantBytes ≤ 2 ^ 32 → ∀ c ∈ cs, c.offset = c.start)) ∧
    (∀ p, Unbounded.compile text vs o = .ok p →
      (compile text vs o = .ok p ↔ p.demand.InBounds)) ∧
    ∀ d line typeName literal e,
      Draft.line o d (line, .ok (.const typeName literal)) = .error e →
        e.code ≠ "allocation_failed" := by
  refine ⟨fun p h => ?_, fun p h => ?_, fun d line typeName literal e h hcode => ?_⟩
  · obtain ⟨cs, hlines, hread, hkept⟩ := kept_of_compile h
    have hsmall (hsize : p.sizes.constantBytes ≤ 2 ^ 32) (c : Constant) (hc : c ∈ cs) :
        c.start < 2 ^ 32 := by
      have hstop := hkept.stop_le hc
      have hpos := c.kind.size_pos
      rw [constantBytes_of_compile h] at hsize
      rw [Constant.stop] at hstop
      omega
    refine ⟨cs, ⟨hlines, hread, hkept, fun c hc => hkept.contiguous.readBytes_eq hkept.bytes hc,
      hkept.contiguous.pairwise.imp .inl, ?_⟩, fun c _ => Constant.offset_eq_start_iff,
      fun hsize c hc => Constant.offset_eq_start_iff.mpr (hsmall hsize c hc)⟩
    rw [hkept.contiguous.apart_offset_iff]
    exact forall₂_congr fun c _ => Constant.offset_eq_start_iff.symm
  · rw [(compile_limits text vs o).eq_ok_iff (inBounds_start vs)]
    exact and_iff_right h
  · have herror := Draft.const_error h
    rw [hcode] at herror
    exact absurd herror (by decide)

theorem constant_offsets_two_sizes :
    let text := "CONST int8 5\nWRITE x\nCONST 2.5\nWRITE y\n"
    ∃ vs p cs, Variables.discover text = .ok vs ∧ compile text vs .default = .ok p ∧
      p.PlacesConstants .default text cs ∧ p.sizes.constantBytes = 9 ∧
      cs.map Constant.load =
        [⟨.loadConstant 0 (.int .w8), 1, [], some (.scalar (.int .w8)), none⟩,
          ⟨.loadConstant 1 .float64, 3, [], some (.scalar .float64), none⟩] ∧
      (∀ c ∈ cs, c.offset = c.start) ∧
      Unbounded.compile text vs .default = .ok p ∧ p.demand.InBounds ∧
      ∃ e, Draft.line .default (.start vs) (1, .ok (.const (some "int8") "300")) = .error e ∧
        e.code ≠ "allocation_failed" := by
  intro text
  let i8 : Kind := .int .w8
  let vs : Variables := ⟨[], [.named "x", .named "y"]⟩
  let p : Program := {
    vars := ⟨[], [⟨"x", .scalar i8, some (.variable 0), none⟩,
      ⟨"y", .scalar .float64, some (.variable 1), none⟩]⟩
    constants := #[5, 0, 0, 0, 0, 0, 0, 0x04, 0x40]
    literals := [(1, ⟨"2.5", none⟩), (0, ⟨"5", some "int8"⟩)]
    code := #[⟨.loadConstant 0 i8, 1, [], some (.scalar i8), none⟩,
      ⟨.storeVariable 0 i8, 2, [.scalar i8], none, none⟩,
      ⟨.loadConstant 1 .float64, 3, [], some (.scalar .float64), none⟩,
      ⟨.storeVariable 1 .float64, 4, [.scalar .float64], none, none⟩]
    matrices := #[]
    bindings := #[]
    sizes := ⟨9, 9, 4, 1⟩ }
  have hdiscover : Variables.discover text = .ok vs := by decide +kernel
  have hlines : Postfix.instructions text =
      [(1, .ok (.const (some "int8") "5")), (2, .ok (.write "x")), (3, .ok (.const none "2.5")),
        (4, .ok (.write "y"))] := by decide +kernel
  have hcompile : compile text vs .default = .ok p := by
    rw [compile, hlines]
    decide +kernel
  have hunbounded : Unbounded.compile text vs .default = .ok p := by
    rw [Unbounded.compile, hlines]
    decide +kernel
  have hrefused : Draft.line .default (.start vs) (1, .ok (.const (some "int8") "300")) =
      .error (.badLiteral 1 "300" i8) := by decide +kernel
  obtain ⟨hplaces, hbounds, herror⟩ := constant_offsets text vs .default
  obtain ⟨cs, hcs, -, hexact⟩ := hplaces p hcompile
  exact ⟨vs, p, cs, hdiscover, hcompile, hcs, rfl, hcs.kept.loads.symm, hexact (by decide),
    hunbounded, (hbounds p hunbounded).mp hcompile, _, hrefused, herror _ _ _ _ _ hrefused⟩

namespace Postfix

def writing (literals : List String) : List Instruction :=
  literals.flatMap fun literal => [.const none literal, .write "y"]

theorem writing_cons (literal : String) (literals : List String) :
    writing (literal :: literals) = .const none literal :: .write "y" :: writing literals :=
  rfl

theorem filterMap_literal_writing (literals : List String) :
    (writing literals).filterMap Instruction.literal? = literals.map (⟨·, none⟩) := by
  induction literals with
  | nil => rfl
  | cons literal literals ih =>
      rw [writing_cons, List.map_cons, ← ih]
      rfl

theorem plain_writing {literals : List String} (h : ∀ l ∈ literals, Text.IsWord l.toList) :
    ∀ i ∈ writing literals, i.Plain := by
  intro i hi
  obtain ⟨literal, hliteral, hi⟩ := List.mem_flatMap.mp hi
  have hconst : Text.IsWord "CONST".toList := by decide
  have hwrite : Text.IsWord "WRITE".toList := by decide
  have hy : Text.IsWord "y".toList := by decide
  rcases List.mem_cons.mp hi with rfl | hi
  · refine ⟨?_, fun name => nofun⟩
    exact List.forall_mem_cons.mpr ⟨hconst, List.forall_mem_singleton.mpr (h literal hliteral)⟩
  · obtain rfl := List.mem_singleton.mp hi
    refine ⟨?_, fun name => nofun⟩
    exact List.forall_mem_cons.mpr ⟨hwrite, List.forall_mem_singleton.mpr hy⟩

theorem exists_lines_of_writing {literal : String} {literals : List String}
    {lines : List (Nat × Except Error Instruction)}
    (h : lines.map Prod.snd = (writing (literal :: literals)).map .ok) :
    ∃ n m rest, lines = [(n, .ok (.const none literal)), (m, .ok (.write "y"))] ++ rest ∧
      rest.map Prod.snd = (writing literals).map .ok := by
  obtain ⟨⟨n, _⟩, lines, rfl, rfl, hwrite⟩ := List.map_eq_cons_iff.mp h
  obtain ⟨⟨m, _⟩, rest, rfl, rfl, hrest⟩ := List.map_eq_cons_iff.mp hwrite
  exact ⟨n, m, rest, rfl, hrest⟩

end Postfix

theorem Variables.notes_writing (literal : String) (literals : List String) :
    (Postfix.writing (literal :: literals)).foldl note empty = ⟨[], [.named "y"]⟩ := by
  have hwritten (literals : List String) : (Postfix.writing literals).foldl note
      ⟨[], [.named "y"]⟩ = ⟨[], [.named "y"]⟩ := by
    induction literals with
    | nil => rfl
    | cons literal literals ih => exact ih
  exact hwritten literals

namespace Draft

structure HasWritten (d : Draft) : Prop where
  stack : d.stack = .empty
  vars : d.vars = ⟨[], [⟨"y", .scalar .float64, some (.variable 0), none⟩]⟩
  code : 0 < d.code.size

theorem hasWritten_of_write {d : Draft} {literal : String} {x : Scalar .float64} (n m : Nat)
    (hstack : d.stack = .empty)
    (hvars : (d.vars = ⟨[], [.named "y"]⟩ ∧ d.variablesSize = 0) ∨ d.HasWritten)
    (hx : Scalar.read? .float64 literal.toList = some x) :
    ∃ d', [(n, .ok (.const none literal)), (m, .ok (.write "y"))].foldlM (Draft.line .default) d =
      .ok d' ∧ d'.HasWritten := by
  have hkind : literalKind .default (n % lineLimit) none = .ok .float64 := rfl
  have hconst : Draft.line .default d (n, .ok (.const none literal)) =
      .ok (((d.withConstant x ⟨literal, none⟩).emit (n % lineLimit)
        (.loadConstant (d.constants.size % offsetLimit) .float64) [] (some (.scalar .float64))
          none).pushed ⟨.scalar .float64, none⟩) := const_eq hkind hx d
  rw [List.foldlM_cons, bind_of_ok hconst]
  obtain ⟨vars, size, constants, literals, code, matrices, bindings, stack, depth⟩ := d
  obtain rfl : stack = .empty := hstack
  have hcode (code : Array Entry) (e : Entry) : 0 < (code.push e).size := by simp
  rcases hvars with ⟨rfl, rfl⟩ | hd
  · refine ⟨_, rfl, rfl, rfl, ?_⟩
    exact hcode _ _
  · obtain rfl : vars = _ := hd.vars
    refine ⟨_, rfl, rfl, rfl, ?_⟩
    exact hcode _ _

theorem HasWritten.lines {d : Draft} (hd : d.HasWritten) {literals : List String}
    {lines : List (Nat × Except Error Postfix.Instruction)}
    (hlines : lines.map Prod.snd = (Postfix.writing literals).map .ok)
    (hread : ∀ l ∈ literals, ∃ x, Scalar.read? .float64 l.toList = some x) :
    ∃ d', lines.foldlM (Draft.line .default) d = .ok d' ∧ d'.HasWritten := by
  induction literals generalizing d lines with
  | nil =>
      obtain rfl := List.map_eq_nil_iff.mp hlines
      exact ⟨d, rfl, hd⟩
  | cons literal literals ih =>
      obtain ⟨n, m, rest, rfl, hrest⟩ := Postfix.exists_lines_of_writing hlines
      obtain ⟨⟨x, hx⟩, hlast⟩ := List.forall_mem_cons.mp hread
      obtain ⟨d₁, hfirst, hd₁⟩ := hasWritten_of_write n m hd.stack (.inr hd) hx
      obtain ⟨d₂, hlater, hd₂⟩ := ih hd₁ hrest hlast
      rw [List.foldlM_append]
      exact ⟨d₂, (bind_of_ok hfirst).trans hlater, hd₂⟩

theorem HasWritten.finish {d : Draft} (hd : d.HasWritten) : ∃ p, d.finish = .ok p := by
  obtain ⟨vars, size, constants, literals, code, matrices, bindings, stack, depth⟩ := d
  obtain ⟨rfl, rfl, hcode⟩ := hd
  exact ⟨_, (if_neg hcode.ne').trans rfl⟩

end Draft

theorem exists_compile_writing {literal : String} {literals : List String}
    (hword : ∀ l ∈ literal :: literals, Text.IsWord l.toList)
    (hread : ∀ l ∈ literal :: literals, ∃ x, Scalar.read? .float64 l.toList = some x) :
    ∃ vs p, Variables.discover (Postfix.text (Postfix.writing (literal :: literals))) = .ok vs ∧
      compile (Postfix.text (Postfix.writing (literal :: literals))) vs .default = .ok p := by
  have hlines := Postfix.map_snd_instructions_text (Postfix.plain_writing hword)
  have hdiscover := Variables.discover_eq hlines
  rw [Variables.notes_writing] at hdiscover
  obtain ⟨n, m, rest, htext, hrest⟩ := Postfix.exists_lines_of_writing hlines
  obtain ⟨⟨x, hx⟩, hlast⟩ := List.forall_mem_cons.mp hread
  obtain ⟨d₁, hfirst, hd₁⟩ := Draft.hasWritten_of_write (d := .start ⟨[], [.named "y"]⟩) n m rfl
    (.inl ⟨rfl, rfl⟩) hx
  obtain ⟨d₂, hlater, hd₂⟩ := hd₁.lines hrest hlast
  obtain ⟨p, hfinish⟩ := hd₂.finish
  refine ⟨_, p, hdiscover, ?_⟩
  rw [compile, htext, List.foldlM_append]
  exact (bind_of_ok ((bind_of_ok hfirst).trans hlater)).trans hfinish

theorem constants_of_writing {literals : List String} {vs : Variables} {p : Program}
    (hword : ∀ l ∈ literals, Text.IsWord l.toList)
    (h : compile (Postfix.text (Postfix.writing literals)) vs .default = .ok p) :
    ∃ cs : List Constant, cs.map Constant.literal = literals.map (⟨·, none⟩) ∧
      (∀ c ∈ cs, c.kind = .float64) ∧
      Postfix.literals (Postfix.instructions (Postfix.text (Postfix.writing literals))) =
        cs.map Constant.source ∧
      (∀ c ∈ cs, c.IsRead .default) ∧ Constant.Kept p.constants p.literals p.code cs := by
  obtain ⟨cs, hliterals, hread, hkept⟩ := kept_of_compile h
  have hlines := Postfix.map_snd_instructions_text (Postfix.plain_writing hword)
  have hmap : cs.map Constant.literal = literals.map (⟨·, none⟩) := by
    rw [← Postfix.filterMap_literal_writing, ← Postfix.map_snd_literals hlines, hliterals,
      List.map_map]
    rfl
  refine ⟨cs, hmap, fun c hc => ?_, hliterals, hread, hkept⟩
  obtain ⟨literal, -, hliteral⟩ := List.mem_map.mp (hmap ▸ List.mem_map_of_mem hc)
  have hkind := (hread c hc).1
  rw [← hliteral] at hkind
  exact (Except.ok.inj hkind).symm

theorem Constant.length_flatMap_bytes {cs : List Constant} (h : ∀ c ∈ cs, c.kind = .float64) :
    (cs.flatMap Constant.bytes).length = 8 * cs.length := by
  induction cs with
  | nil => rfl
  | cons c cs ih =>
      obtain ⟨hc, hcs⟩ := List.forall_mem_cons.mp h
      rw [List.flatMap_cons, List.length_append, ih hcs, length_bytes, hc, List.length_cons]
      simp only [Kind.size]
      omega

theorem Constant.bytes_of_isRead {o : CompileOptions} {c : Constant} {k : Kind} {x : Scalar k}
    (h : c.IsRead o) (hk : c.kind = k) (hx : Scalar.read? k c.literal.text.toList = some x) :
    c.bytes = x.bytes := by
  obtain ⟨line, literal, start, kind, value⟩ := c
  obtain rfl : kind = k := hk
  exact congrArg Scalar.bytes (Option.some.inj (h.2.symm.trans hx))

theorem place_of_writing (before after : List String) {literal : String} {x : Scalar .float64}
    {vs : Variables} {p : Program}
    (hword : ∀ l ∈ before ++ literal :: after, Text.IsWord l.toList)
    (hx : Scalar.read? .float64 literal.toList = some x)
    (h : compile (Postfix.text (Postfix.writing (before ++ literal :: after))) vs .default =
      .ok p) :
    p.constants.size = 8 * (before ++ literal :: after).length ∧ ∃ line,
      (line, .ok (.const none literal)) ∈
        Postfix.instructions (Postfix.text (Postfix.writing (before ++ literal :: after))) ∧
      ⟨.loadConstant (8 * before.length % Draft.offsetLimit) .float64, line % Draft.lineLimit, [],
        some (.scalar .float64), none⟩ ∈ p.code.toList ∧
      readBytes p.constants (8 * before.length) 8 = x.bytes := by
  obtain ⟨cs, hmap, hkind, hlines, hread, hkept⟩ := constants_of_writing hword h
  have hcount := congrArg List.length hmap
  rw [List.length_map, List.length_map] at hcount
  have hsize : p.constants.size = 8 * (before ++ literal :: after).length := by
    rw [← Array.length_toList, hkept.bytes, Constant.length_flatMap_bytes hkind, hcount]
  rw [List.map_append, List.map_cons] at hmap
  obtain ⟨cs₁, cs₂, rfl, hbefore, hmap⟩ := List.map_eq_append_iff.mp hmap
  obtain ⟨c, cs₂, rfl, hc, -⟩ := List.map_eq_cons_iff.mp hmap
  have hmem : c ∈ cs₁ ++ c :: cs₂ := List.mem_append_right _ List.mem_cons_self
  have hlength := congrArg List.length hbefore
  rw [List.length_map, List.length_map] at hlength
  have hstart : c.start = 8 * before.length := by
    rw [hkept.contiguous.start_eq, Nat.zero_add, Constant.length_flatMap_bytes
      fun c' hc' => hkind c' (List.mem_append_left _ hc'), hlength]
  have hload : c.load ∈ p.code.toList := by
    have hloaded : c.load ∈ p.code.toList.filter (·.opcode.isConstant) :=
      hkept.loads ▸ List.mem_map_of_mem hmem
    exact (List.mem_filter.mp hloaded).1
  have hbytes := hkept.contiguous.readBytes_eq hkept.bytes hmem
  rw [Constant.bytes_of_isRead (hread c hmem) (hkind c hmem) (by rw [hc]; exact hx)] at hbytes
  refine ⟨hsize, c.line, ?_, ?_, ?_⟩
  · have hsource : (c.line, (⟨literal, none⟩ : Literal)) ∈ (cs₁ ++ c :: cs₂).map Constant.source :=
      hc ▸ List.mem_map_of_mem hmem
    exact Postfix.mem_literals (hlines ▸ hsource)
  · rw [Constant.load, hkind c hmem, Constant.offset, hstart] at hload
    exact hload
  · rw [hstart, hkind c hmem] at hbytes
    exact hbytes

theorem wrapped_offset :
    let text := Postfix.text
      (Postfix.writing ("7" :: List.replicate (2 ^ 29 - 1) "1" ++ ["2"]))
    ∃ vs p first last, Variables.discover text = .ok vs ∧ compile text vs .default = .ok p ∧
      p.sizes.constantBytes = 2 ^ 32 + 8 ∧
      (first, .ok (.const none "7")) ∈ Postfix.instructions text ∧
      (last, .ok (.const none "2")) ∈ Postfix.instructions text ∧
      ⟨.loadConstant 0 .float64, first % Draft.lineLimit, [], some (.scalar .float64), none⟩ ∈
        p.code.toList ∧
      ⟨.loadConstant 0 .float64, last % Draft.lineLimit, [], some (.scalar .float64), none⟩ ∈
        p.code.toList ∧
      readBytes p.constants 0 8 = (⟨0x401c000000000000⟩ : Scalar .float64).bytes ∧
      readBytes p.constants (2 ^ 32) 8 = (⟨0x4000000000000000⟩ : Scalar .float64).bytes := by
  generalize hones : List.replicate (2 ^ 29 - 1) "1" = ones
  have hlength : ones.length = 2 ^ 29 - 1 := by rw [← hones, List.length_replicate]
  have hone (l : String) (hl : l ∈ ones) : l = "1" := List.eq_of_mem_replicate (hones ▸ hl)
  clear hones
  have hseven : Scalar.read? .float64 "7".toList = some ⟨0x401c000000000000⟩ := by decide +kernel
  have htwo : Scalar.read? .float64 "2".toList = some ⟨0x4000000000000000⟩ := by decide +kernel
  have hread_one : ∃ x, Scalar.read? .float64 "1".toList = some x :=
    Option.isSome_iff_exists.mp (by decide +kernel)
  have hword : ∀ l ∈ "7" :: (ones ++ ["2"]), Text.IsWord l.toList := by
    refine List.forall_mem_cons.mpr ⟨by decide, List.forall_mem_append.mpr ⟨fun l hl => ?_, ?_⟩⟩
    · rw [hone l hl]
      decide
    · exact List.forall_mem_singleton.mpr (by decide)
  have hread : ∀ l ∈ "7" :: (ones ++ ["2"]), ∃ x, Scalar.read? .float64 l.toList = some x := by
    refine List.forall_mem_cons.mpr ⟨⟨_, hseven⟩, List.forall_mem_append.mpr ⟨fun l hl => ?_, ?_⟩⟩
    · rw [hone l hl]
      exact hread_one
    · exact List.forall_mem_singleton.mpr ⟨_, htwo⟩
  obtain ⟨vs, p, hdiscover, hcompile⟩ := exists_compile_writing hword hread
  obtain ⟨-, first, hfirst, hload, hbytes⟩ :=
    place_of_writing [] (ones ++ ["2"]) hword hseven hcompile
  -- the ones fill the pool up to the end of the range
  obtain ⟨hsize, last, hlast, hload', hbytes'⟩ :=
    place_of_writing ("7" :: ones) [] hword htwo hcompile
  have hplace : 8 * ("7" :: ones).length = 2 ^ 32 := by
    rw [List.length_cons, hlength]
    rfl
  rw [List.length_append, Nat.mul_add, hplace] at hsize
  rw [hplace] at hload' hbytes'
  exact ⟨vs, p, first, last, hdiscover, hcompile, (constantBytes_of_compile hcompile).trans hsize,
    hfirst, hlast, hload, hload', hbytes, hbytes'⟩

end FormulaMachine
