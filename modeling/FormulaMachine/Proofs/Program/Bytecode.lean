import FormulaMachine.Program.Bytecode

namespace FormulaMachine

def Entry.signature (e : Entry) : Signature :=
  ⟨e.line, e.inputs, e.output⟩

namespace Bytecode

def spellingsFrom (pc : Nat) : List Entry → List (Nat × String)
  | [] => []
  | e :: es => spellingsFrom (pc + 1) es ++ (e.spelling.map (pc, ·)).toList

def ofEntries (es : Array Entry) : Bytecode :=
  ⟨es.map Entry.opcode, es.map Entry.signature, spellingsFrom 0 es.toList⟩

variable {p : Program} {code : Array Entry} {e : Entry} {pc : Nat}

theorem spellingsFrom_append (pc : Nat) (es : List Entry) (e : Entry) :
    spellingsFrom pc (es ++ [e]) =
      (e.spelling.map (pc + es.length, ·)).toList ++ spellingsFrom pc es := by
  induction es generalizing pc with
  | nil => simp [spellingsFrom]
  | cons e' es ih =>
      have hplace : pc + 1 + es.length = pc + (es.length + 1) := by omega
      rw [List.cons_append, spellingsFrom, spellingsFrom, ih, List.length_cons, List.append_assoc,
        hplace]

theorem lookup_spellingsFrom (pc : Nat) (es : List Entry) (i : Nat) :
    (spellingsFrom pc es).lookup (pc + i) = es[i]?.bind Entry.spelling ∧
      (i < pc → (spellingsFrom pc es).lookup i = none) := by
  induction es generalizing pc i with
  | nil => simp [spellingsFrom]
  | cons e es ih =>
      obtain ⟨hat, -⟩ := ih (pc + 1) (i - 1)
      have hother {j : Nat} (hj : j ≠ pc) : ((e.spelling.map (pc, ·)).toList).lookup j = none := by
        cases e.spelling with
        | none => rfl
        | some spelling =>
            exact List.lookup_eq_none_iff.mpr <| by
              simpa using hj
      have hbefore {j : Nat} (hj : j < pc + 1) : (spellingsFrom (pc + 1) es).lookup j = none :=
        (ih (pc + 1) j).2 hj
      rw [spellingsFrom, List.lookup_append, List.lookup_append]
      refine ⟨?_, fun hi => by rw [hbefore (by omega), hother (by omega)]; rfl⟩
      cases i with
      | zero =>
          rw [Nat.add_zero, hbefore (Nat.lt_succ_self pc), Option.none_or]
          cases hs : e.spelling <;> simp [hs]
      | succ i =>
          rw [Nat.succ_sub_one, show pc + 1 + i = pc + (i + 1) by omega] at hat
          rw [hat, hother (by omega), Option.or_none, List.getElem?_cons_succ]

theorem lt_of_mem_spellingsFrom {es : List Entry} {s : Nat × String}
    (h : s ∈ spellingsFrom pc es) : s.1 < pc + es.length := by
  induction es generalizing pc with
  | nil => cases h
  | cons e es ih =>
      rw [List.length_cons]
      rcases List.mem_append.mp h with h | h
      · have := ih h
        omega
      · obtain ⟨spelling, -, rfl⟩ := Option.map_eq_some_iff.mp (Option.mem_toList.mp h)
        dsimp only
        omega

theorem ofEntries_push (code : Array Entry) (e : Entry) : ofEntries (code.push e) =
    match e.spelling with
    | none => (ofEntries code).push e.opcode e.signature
    | some spelling => (ofEntries code).pushSpelled e.opcode e.signature spelling := by
  have hspellings := spellingsFrom_append 0 code.toList e
  rw [Nat.zero_add, ← Array.toList_push] at hspellings
  rw [ofEntries, Array.map_push, Array.map_push, hspellings]
  cases e.spelling with
  | none => rfl
  | some spelling => simp [push, pushSpelled, ofEntries]

theorem lookup_ofEntries (h : code[pc]? = some e) :
    (ofEntries code).spellings.lookup pc = e.spelling := by
  have hlookup := (lookup_spellingsFrom 0 code.toList pc).1
  rw [Nat.zero_add, Array.getElem?_toList, h] at hlookup
  exact hlookup

theorem getElem?_ofEntries : code[pc]? = some e ↔
    (ofEntries code).code[pc]? = some e.opcode ∧
      (ofEntries code).signatures[pc]? = some e.signature ∧
      (ofEntries code).spellings.lookup pc = e.spelling := by
  have hcode : (ofEntries code).code[pc]? = code[pc]?.map Entry.opcode := Array.getElem?_map ..
  have hsignatures : (ofEntries code).signatures[pc]? = code[pc]?.map Entry.signature :=
    Array.getElem?_map ..
  constructor
  · intro h
    rw [hcode, hsignatures, h]
    exact ⟨rfl, rfl, lookup_ofEntries h⟩
  · rintro ⟨hopcode, hsignature, hspelling⟩
    cases he : code[pc]? with
    | none =>
        rw [hcode, he] at hopcode
        cases hopcode
    | some e' =>
        rw [lookup_ofEntries he] at hspelling
        rw [hcode, he] at hopcode
        rw [hsignatures, he] at hsignature
        obtain ⟨opcode, line, inputs, output, spelling⟩ := e
        obtain rfl := Option.some.inj hopcode
        obtain ⟨rfl, rfl, rfl⟩ := Signature.mk.inj (Option.some.inj hsignature)
        obtain rfl := hspelling
        rfl

theorem describe_ofEntries (h : code[pc]? = some e) :
    (ofEntries code).describe p pc e.opcode = p.describe e := by
  calc (ofEntries code).describe p pc e.opcode
      = p.describe { e with spelling := (ofEntries code).spellings.lookup pc } := rfl
    _ = p.describe e := by rw [lookup_ofEntries h]

theorem list_ofEntries (showTypes : Bool) (h : code[pc]? = some e) :
    (ofEntries code).list p showTypes e.opcode pc = p.listEntry showTypes e := by
  have hsignature := (getElem?_ofEntries.mp h).2.1
  have hinserted : isInserted e.opcode = Program.isInserted e := rfl
  rw [list, Program.listEntry, describe_ofEntries h, listTypes, hsignature, hinserted]
  cases showTypes with
  | true =>
      simp only [Bool.not_true, Bool.and_false, Bool.false_eq_true, if_false, if_true,
        String.append_assoc]
      rfl
  | false =>
      simp only [Bool.not_false, Bool.and_true, Bool.false_eq_true, if_false, String.append_empty]
      rfl

theorem decompile_ofEntries (p : Program) (showTypes : Bool) :
    (ofEntries p.code).decompile p showTypes = p.decompile showTypes := by
  rw [decompile, Program.decompile]
  congr 1
  refine List.ext_getElem? fun pc => ?_
  have hcode : (ofEntries p.code).code.toList = p.code.toList.map Entry.opcode := Array.toList_map
  rw [hcode, List.getElem?_map, List.getElem?_map, List.getElem?_zipIdx, List.getElem?_map,
    Array.getElem?_toList]
  cases he : p.code[pc]? with
  | none => rfl
  | some e =>
      rw [Option.map_some, Option.map_some, Option.map_some, Option.map_some, Nat.zero_add]
      exact congrArg some (list_ofEntries showTypes he)

end Bytecode

end FormulaMachine
