import FormulaMachine.DataType
import FormulaMachine.Proofs.Results
import FormulaMachine.Proofs.Scalar.Numerals
import Mathlib.Algebra.Group.Nat.Defs
import Mathlib.Data.List.Forall2

namespace FormulaMachine

namespace Text

variable {cs outer : List Char}

def Padded (cs outer : List Char) : Prop :=
  ∃ front back, outer = front ++ cs ++ back ∧ (∀ c ∈ front, isBlank c) ∧ ∀ c ∈ back, isBlank c

def IsNumeral (n : Nat) (cs : List Char) : Prop :=
  ∃ sign digits, cs = sign ++ digits ∧ (sign = [] ∨ sign = ['+']) ∧ digits ≠ [] ∧
    (∀ c ∈ digits, c.isDigit) ∧ Nat.ofDigitChars 10 digits 0 = n

theorem padded_self (cs : List Char) : Padded cs cs :=
  ⟨[], [], by simp, by simp, by simp⟩

theorem padded_trim (outer : List Char) : Padded (trim outer) outer := by
  obtain ⟨inner, hinner⟩ : ∃ inner, outer.dropWhile isBlank = inner := ⟨_, rfl⟩
  refine ⟨outer.takeWhile isBlank, (inner.reverse.takeWhile isBlank).reverse, ?_, ?_, ?_⟩
  · rw [trim, hinner, trimEnd, List.append_assoc, ← List.reverse_append,
      List.takeWhile_append_dropWhile, List.reverse_reverse, ← hinner,
      List.takeWhile_append_dropWhile]
  · exact fun c hc => List.mem_takeWhile_imp hc
  · exact fun c hc => List.mem_takeWhile_imp (List.mem_reverse.mp hc)

theorem dropWhile_isBlank_append {front : List Char} (hfront : ∀ c ∈ front, isBlank c)
    (h : ∀ c ∈ cs.head?, isBlank c = false) : (front ++ cs).dropWhile isBlank = cs := by
  rw [List.dropWhile_append_of_pos hfront]
  cases cs with
  | nil => rfl
  | cons c cs => rw [List.dropWhile_cons_of_neg (by simp [h c rfl])]

theorem Padded.trim_eq (h : Padded cs outer) (hhead : ∀ c ∈ cs.head?, isBlank c = false)
    (hlast : ∀ c ∈ cs.getLast?, isBlank c = false) : trim outer = cs := by
  obtain ⟨front, back, rfl, hfront, hback⟩ := h
  cases cs with
  | nil =>
      have hblank : ∀ c ∈ front ++ back, isBlank c := List.forall_mem_append.mpr ⟨hfront, hback⟩
      have hdrop : (front ++ back ++ []).dropWhile isBlank = [] :=
        dropWhile_isBlank_append hblank (by simp)
      rw [List.append_nil] at hdrop
      rw [List.append_nil, trim, hdrop]
      rfl
  | cons c cs =>
      have hdrop : (front ++ (c :: cs ++ back)).dropWhile isBlank = c :: cs ++ back :=
        dropWhile_isBlank_append hfront (by simpa using hhead)
      have hend : (back.reverse ++ (c :: cs).reverse).dropWhile isBlank = (c :: cs).reverse :=
        dropWhile_isBlank_append (fun d hd => hback d (List.mem_reverse.mp hd))
          (by rwa [List.head?_reverse])
      rw [List.append_assoc, trim, hdrop, trimEnd, List.reverse_append, hend, List.reverse_reverse]

theorem natural?_eq_some_iff {n : Nat} : natural? cs = some n ↔
    cs ≠ [] ∧ (∀ c ∈ cs, c.isDigit) ∧ Nat.ofDigitChars 10 cs 0 = n := by
  rw [natural?, Option.ite_none_right_eq_some, List.all_eq_true, digitsValue_eq, Option.some.injEq,
    and_assoc]

theorem unsigned?_eq_some_iff {n : Nat} : unsigned? cs = some n ↔ IsNumeral n cs := by
  constructor
  · intro h
    unfold unsigned? at h
    split at h
    · exact ⟨['+'], _, rfl, .inr rfl, natural?_eq_some_iff.mp h⟩
    · exact ⟨[], _, rfl, .inl rfl, natural?_eq_some_iff.mp h⟩
  · rintro ⟨sign, digits, rfl, hsign, hne, hdigits, hvalue⟩
    have hnatural := natural?_eq_some_iff.mpr ⟨hne, hdigits, hvalue⟩
    rcases hsign with rfl | rfl
    · rw [List.nil_append]
      cases digits with
      | nil => exact absurd rfl hne
      | cons c digits =>
          have hplus : c ≠ '+' := by
            rintro rfl
            exact absurd (hdigits '+' List.mem_cons_self) (by decide)
          unfold unsigned?
          split
          · rename_i heq
            exact absurd (List.cons.inj heq).1 hplus
          · exact hnatural
    · exact hnatural

theorem IsNumeral.not_isBlank {n : Nat} (h : IsNumeral n cs) : ∀ c ∈ cs, isBlank c = false := by
  obtain ⟨sign, digits, rfl, hsign, -, hdigits, -⟩ := h
  refine List.forall_mem_append.mpr ⟨fun c hc => ?_, fun c hc => ?_⟩
  · rcases hsign with rfl | rfl
    · cases hc
    · obtain rfl := List.mem_singleton.mp hc
      decide
  · exact not_isBlank_of_isDigit (hdigits c hc)

theorem isNumeral_toString (n : Nat) : IsNumeral n (toString n).toList := by
  have hdigits : (toString n).toList = Nat.toDigits 10 n := by simp [Nat.repr]
  rw [hdigits, ← unsigned?_eq_some_iff]
  have hnatural := natural?_toDigits n
  exact unsigned?_eq_some_iff.mpr ⟨[], _, rfl, .inl rfl, natural?_eq_some_iff.mp hnatural⟩

section Pieces

variable {sep : Char}

theorem pieces_flatMap {ps : List (List Char)} (h : ∀ p ∈ ps, sep ∉ p) :
    pieces sep (ps.flatMap (· ++ [sep])) = ps.map (·, true) := by
  induction ps with
  | nil => rfl
  | cons p ps ih =>
      obtain ⟨hp, hps⟩ := List.forall_mem_cons.mp h
      rw [List.flatMap_cons, List.append_assoc, List.singleton_append, pieces,
        piecesFrom_append hp]
      exact congrArg ((p, true) :: ·) (ih hps)

theorem exists_pieces (h : cs.getLast? = some sep) :
    ∃ p ps, cs = (p :: ps).flatMap (· ++ [sep]) ∧ ∀ q ∈ p :: ps, sep ∉ q := by
  induction cs with
  | nil => cases h
  | cons c cs ih =>
      cases cs with
      | nil =>
          obtain rfl : c = sep := by simpa using h
          exact ⟨[], [], rfl, by simp⟩
      | cons d cs =>
          obtain ⟨p, ps, hcs, hps⟩ := ih (by simpa using h)
          rw [hcs]
          by_cases hc : c = sep
          · subst hc
            exact ⟨[], p :: ps, rfl, List.forall_mem_cons.mpr ⟨by simp, hps⟩⟩
          · obtain ⟨hp, hps⟩ := List.forall_mem_cons.mp hps
            refine ⟨c :: p, ps, rfl, List.forall_mem_cons.mpr ⟨?_, hps⟩⟩
            exact List.not_mem_cons_of_ne_of_not_mem (Ne.symm hc) hp

end Pieces

end Text

def Kind.HasName (k : Kind) (cs : List Char) : Prop :=
  String.ofList cs = k.name ∨ (String.ofList cs, k) ∈ aliases

theorem Kind.ofName?_eq_some_iff {cs : List Char} {k : Kind} :
    ofName? (String.ofList cs) = some k ↔ k.HasName cs := by
  constructor
  · intro h
    unfold ofName? at h
    split at h
    · rename_i j hj
      obtain rfl := Option.some.inj h
      have hname := List.find?_some (p := fun x : Kind => x.name == String.ofList cs) hj
      exact .inl (beq_iff_eq.mp hname).symm
    · obtain ⟨before, after, haliases, -⟩ := List.lookup_eq_some_iff.mp h
      rw [HasName, haliases]
      exact .inr (List.mem_append_right _ List.mem_cons_self)
  · rintro (hname | halias)
    · rw [hname, ofName?_name]
    · have hall : ∀ a ∈ aliases, ofName? a.1 = some a.2 := by decide
      exact hall _ halias

theorem Kind.HasName.letters {k : Kind} {cs : List Char} (h : k.HasName cs) :
    cs ≠ [] ∧ cs ≠ "void".toList ∧ ∀ c ∈ cs, Text.isBlank c = false ∧ c ≠ '[' := by
  -- the letters are gone through by a test on the list: there are too many characters to try all
  have hcheck : ∀ name ∈ all.map Kind.name ++ aliases.map Prod.fst, name.toList ≠ [] ∧
      name.toList ≠ "void".toList ∧
      name.toList.all (fun c => !Text.isBlank c && c != '[') = true := by
    decide
  have hmem : String.ofList cs ∈ all.map Kind.name ++ aliases.map Prod.fst := by
    rcases h with h | h
    · rw [h]
      exact List.mem_append_left _ (List.mem_map_of_mem (mem_all k))
    · exact List.mem_append_right _ (List.mem_map_of_mem h)
  have hletters := hcheck _ hmem
  rw [String.toList_ofList] at hletters
  obtain ⟨hne, hvoid, htest⟩ := hletters
  refine ⟨hne, hvoid, fun c hc => ?_⟩
  simpa using List.all_eq_true.mp htest c hc

theorem mapM_eq_some_iff {α β : Type} {f : α → Option β} {xs : List α} {ys : List β} :
    xs.mapM f = some ys ↔ List.Forall₂ (fun x y => f x = some y) xs ys := by
  induction xs generalizing ys with
  | nil =>
      rw [List.mapM_nil, List.forall₂_nil_left_iff]
      exact ⟨fun h => (Option.some.inj h).symm, fun h => congrArg some h.symm⟩
  | cons x xs ih =>
      rw [List.mapM_cons, List.forall₂_cons_left_iff]
      constructor
      · intro h
        obtain ⟨y, hy, h⟩ := Option.bind_eq_some_iff.mp h
        obtain ⟨zs, hzs, h⟩ := Option.bind_eq_some_iff.mp h
        exact ⟨y, zs, hy, ih.mp hzs, (Option.some.inj h).symm⟩
      · rintro ⟨y, zs, hy, hzs, rfl⟩
        rw [hy, ih.mpr hzs]
        rfl

namespace DataType

def IsGroup (n : Nat) (cs : List Char) : Prop :=
  0 < n ∧ n < 2 ^ 32 ∧ ∃ numeral inner, cs = '[' :: inner ++ [']'] ∧ Text.Padded numeral inner ∧
    Text.IsNumeral n numeral

inductive Spells : DataType → List Char → Prop
  | void : Spells .void "void".toList
  | scalar {k : Kind} {name : List Char} (hk : k.HasName name) : Spells (.scalar k) name
  | row {k : Kind} {cols : Nat} {name g : List Char} (hk : k.HasName name)
      (hcols : IsGroup cols g) : Spells (.matrix k 1 cols) (name ++ g)
  | matrix {k : Kind} {rows cols : Nat} {name g g' : List Char} (hk : k.HasName name)
      (hrows : IsGroup rows g) (hcols : IsGroup cols g') :
      Spells (.matrix k rows cols) (name ++ (g ++ g'))

def InBounds : DataType → Prop
  | .void | .scalar _ => True
  | .matrix _ rows cols => (0 < rows ∧ rows < 2 ^ 32) ∧ 0 < cols ∧ cols < 2 ^ 32

section Dimensions

variable {n : Nat} {p g : List Char}

theorem dimension?_eq_some_iff : dimension? p = some n ↔
    n < 2 ^ 32 ∧ ∃ numeral inner, p = '[' :: inner ∧ Text.Padded numeral inner ∧
      Text.IsNumeral n numeral := by
  have hlimit : (1 <<< 32 : Nat) = 2 ^ 32 := rfl
  constructor
  · intro h
    unfold dimension? at h
    split at h
    · rename_i inner
      obtain ⟨m, hm, hbound⟩ := Option.bind_eq_some_iff.mp h
      obtain ⟨hlt, heq⟩ := Option.ite_none_right_eq_some.mp hbound
      obtain rfl := Option.some.inj heq
      exact ⟨hlt, _, inner, rfl, Text.padded_trim inner, Text.unsigned?_eq_some_iff.mp hm⟩
    · cases h
  · rintro ⟨hlt, numeral, inner, rfl, hpadded, hnumeral⟩
    have hblank := hnumeral.not_isBlank
    have htrim := hpadded.trim_eq (fun c hc => hblank c (List.mem_of_head? hc))
      fun c hc => hblank c (List.mem_of_getLast? hc)
    rw [dimension?, htrim, Text.unsigned?_eq_some_iff.mpr hnumeral, Option.bind_some,
      if_pos (hlimit ▸ hlt)]

theorem not_mem_of_dimension? (h : dimension? p = some n) : ']' ∉ p := by
  obtain ⟨-, numeral, inner, rfl, ⟨front, back, rfl, hfront, hback⟩, sign, digits, rfl, hsign, -,
    hdigits, -⟩ := dimension?_eq_some_iff.mp h
  have hopen : (']' : Char) ∉ ['['] := by decide
  have hfront' : ']' ∉ front := fun hc => absurd (hfront _ hc) (by decide)
  have hback' : ']' ∉ back := fun hc => absurd (hback _ hc) (by decide)
  have hdigits' : ']' ∉ digits := fun hc => absurd (hdigits _ hc) (by decide)
  have hsign' : ']' ∉ sign := by rcases hsign with rfl | rfl <;> decide
  simp [hfront', hback', hdigits', hsign']

theorem isGroup_iff : IsGroup n g ↔ 0 < n ∧ ∃ p, g = p ++ [']'] ∧ dimension? p = some n := by
  constructor
  · rintro ⟨hpos, hlt, numeral, inner, rfl, hpadded, hnumeral⟩
    exact ⟨hpos, _, rfl, dimension?_eq_some_iff.mpr ⟨hlt, numeral, inner, rfl, hpadded, hnumeral⟩⟩
  · rintro ⟨hpos, p, rfl, hp⟩
    obtain ⟨hlt, numeral, inner, rfl, hpadded, hnumeral⟩ := dimension?_eq_some_iff.mp hp
    exact ⟨hpos, hlt, numeral, inner, rfl, hpadded, hnumeral⟩

theorem dimensions?_flatMap {ps : List (List Char)} (hne : ps ≠ []) (h : ∀ p ∈ ps, ']' ∉ p) :
    dimensions? (ps.flatMap (· ++ [']'])) = ps.mapM dimension? := by
  have hlast : (ps.flatMap (· ++ [']'])).getLast? = some ']' := by
    obtain ⟨qs, q, rfl⟩ := List.eq_nil_or_concat ps |>.resolve_left hne
    simp [List.flatMap_append]
  rw [dimensions?, if_pos hlast, Text.pieces_flatMap h, List.mapM_map]
  rfl

theorem dimensions?_eq_some_iff {cs : List Char} {ns : List Nat} : dimensions? cs = some ns ↔
    ∃ ps, ps ≠ [] ∧ cs = ps.flatMap (· ++ [']']) ∧
      List.Forall₂ (fun p n => dimension? p = some n) ps ns := by
  constructor
  · intro h
    by_cases hlast : cs.getLast? = some ']'
    · obtain ⟨p, ps, rfl, hps⟩ := Text.exists_pieces hlast
      have hne : p :: ps ≠ [] := List.cons_ne_nil p ps
      rw [dimensions?_flatMap hne hps] at h
      exact ⟨p :: ps, hne, rfl, mapM_eq_some_iff.mp h⟩
    · rw [dimensions?, if_neg hlast] at h
      cases h
  · rintro ⟨ps, hne, rfl, hps⟩
    have hbrackets : ∀ p ∈ ps, ']' ∉ p := ((List.forall₂_and_left ps ns).mp
      (hps.imp fun _ _ hn => ⟨not_mem_of_dimension? hn, hn⟩)).1
    rw [dimensions?_flatMap hne hbrackets, mapM_eq_some_iff]
    exact hps

theorem matrix?_eq_some_iff {cs : List Char} {k : Kind} {t : DataType} :
    (dimensions? cs).bind (matrix? k) = some t ↔
      (∃ cols, IsGroup cols cs ∧ t = .matrix k 1 cols) ∨
        ∃ rows cols g g', cs = g ++ g' ∧ IsGroup rows g ∧ IsGroup cols g' ∧
          t = .matrix k rows cols := by
  constructor
  · intro h
    obtain ⟨ns, hns, ht⟩ := Option.bind_eq_some_iff.mp h
    obtain ⟨ps, -, rfl, hps⟩ := dimensions?_eq_some_iff.mp hns
    unfold matrix? at ht
    split at ht
    · rename_i cols
      obtain ⟨hpos, heq⟩ := Option.ite_none_right_eq_some.mp ht
      obtain rfl := Option.some.inj heq
      obtain ⟨p, ps, hp, hnil, rfl⟩ := List.forall₂_cons_right_iff.mp hps
      cases hnil
      exact .inl ⟨cols, isGroup_iff.mpr ⟨hpos, p, by simp, hp⟩, rfl⟩
    · rename_i rows cols
      obtain ⟨⟨hrows, hcols⟩, heq⟩ := Option.ite_none_right_eq_some.mp ht
      obtain rfl := Option.some.inj heq
      obtain ⟨p, ps, hp, hrest, rfl⟩ := List.forall₂_cons_right_iff.mp hps
      obtain ⟨q, ps, hq, hnil, rfl⟩ := List.forall₂_cons_right_iff.mp hrest
      cases hnil
      exact .inr ⟨rows, cols, p ++ [']'], q ++ [']'], by simp,
        isGroup_iff.mpr ⟨hrows, p, rfl, hp⟩, isGroup_iff.mpr ⟨hcols, q, rfl, hq⟩, rfl⟩
    · cases ht
  · rintro (⟨cols, hcols, rfl⟩ | ⟨rows, cols, g, g', rfl, hrows, hcols, rfl⟩)
    · obtain ⟨hpos, p, rfl, hp⟩ := isGroup_iff.mp hcols
      have hdims : dimensions? (p ++ [']']) = some [cols] :=
        dimensions?_eq_some_iff.mpr ⟨[p], by simp, by simp, .cons hp .nil⟩
      rw [hdims, Option.bind_some, matrix?, if_pos hpos]
    · obtain ⟨hrowsPos, p, rfl, hp⟩ := isGroup_iff.mp hrows
      obtain ⟨hcolsPos, q, rfl, hq⟩ := isGroup_iff.mp hcols
      have hdims : dimensions? (p ++ [']'] ++ (q ++ [']'])) = some [rows, cols] :=
        dimensions?_eq_some_iff.mpr ⟨[p, q], by simp, by simp, .cons hp (.cons hq .nil)⟩
      rw [hdims, Option.bind_some, matrix?, if_pos ⟨hrowsPos, hcolsPos⟩]

end Dimensions

section Read

variable {cs g g' name : List Char} {k : Kind} {n : Nat} {t : DataType} {text : String}

theorem IsGroup.head? (h : IsGroup n g) (cs : List Char) : (g ++ cs).head? = some '[' := by
  obtain ⟨-, -, -, inner, rfl, -⟩ := h
  rfl

theorem IsGroup.getLast? (h : IsGroup n g) (cs : List Char) :
    (cs ++ g).getLast? = some ']' := by
  obtain ⟨-, -, -, inner, rfl, -⟩ := h
  rw [← List.append_assoc, List.getLast?_append]
  rfl

theorem kindNamed_eq_ok_iff : kindNamed cs = .ok k ↔ k.HasName cs := by
  rw [← Kind.ofName?_eq_some_iff, kindNamed]
  cases Kind.ofName? (String.ofList cs) with
  | none => simp
  | some j => simp

theorem Spells.not_isBlank (h : Spells t cs) : (∀ c ∈ cs.head?, Text.isBlank c = false) ∧
    ∀ c ∈ cs.getLast?, Text.isBlank c = false := by
  have hname {k : Kind} {name : List Char} (hk : k.HasName name) :
      ∀ c ∈ name, Text.isBlank c = false := fun c hc => (hk.letters.2.2 c hc).1
  have hhead {k : Kind} {name : List Char} (hk : k.HasName name) (g : List Char) :
      ∀ c ∈ (name ++ g).head?, Text.isBlank c = false := by
    intro c hc
    rw [List.head?_append_of_ne_nil _ hk.letters.1] at hc
    exact hname hk c (List.mem_of_head? hc)
  have hclosing : Text.isBlank ']' = false := by decide
  cases h with
  | void =>
      exact ⟨fun c hc => by obtain rfl := Option.some.inj hc; decide,
        fun c hc => by obtain rfl := Option.some.inj hc; decide⟩
  | scalar hk =>
      exact ⟨fun c hc => hname hk c (List.mem_of_head? hc),
        fun c hc => hname hk c (List.mem_of_getLast? hc)⟩
  | row hk hcols =>
      refine ⟨hhead hk _, fun c hc => ?_⟩
      obtain rfl := Option.some.inj ((hcols.getLast? _).symm.trans hc)
      exact hclosing
  | matrix hk hrows hcols =>
      refine ⟨hhead hk _, fun c hc => ?_⟩
      rw [← List.append_assoc] at hc
      obtain rfl := Option.some.inj ((hcols.getLast? _).symm.trans hc)
      exact hclosing

theorem read_of_bracket (hk : k.HasName name) (hg : g.head? = some '[')
    (htext : Text.trim text.toList = name ++ g) (ht : (dimensions? g).bind (matrix? k) = some t) :
    read text = .ok t := by
  -- the first bracket is where the name ends
  have hname : ∀ c ∈ name, (c != '[') = true := fun c hc => by simpa using (hk.letters.2.2 c hc).2
  obtain ⟨inner, rfl⟩ : ∃ inner, g = '[' :: inner := by
    cases g with
    | nil => cases hg
    | cons c inner => exact ⟨inner, by rw [Option.some.inj hg]⟩
  have hbracket : '[' ∈ name ++ '[' :: inner := by simp
  have hvoid : name ++ '[' :: inner ≠ "void".toList := by
    intro heq
    rw [heq] at hbracket
    exact absurd hbracket (by decide)
  have htake : (name ++ '[' :: inner).takeWhile (· != '[') = name := by
    rw [List.takeWhile_append_of_pos hname]
    simp
  have hdrop : (name ++ '[' :: inner).dropWhile (· != '[') = '[' :: inner := by
    rw [List.dropWhile_append_of_pos hname]
    simp
  simp only [read, htext, if_neg hvoid, List.contains_iff_mem, if_pos hbracket, htake, hdrop,
    kindNamed_eq_ok_iff.mpr hk, ht]

theorem spells_trim_of_read (h : read text = .ok t) : Spells t (Text.trim text.toList) := by
  unfold read at h
  dsimp only at h
  split at h
  · rename_i hvoid
    obtain rfl := Except.ok.inj h
    rw [hvoid]
    exact .void
  split at h
  · split at h
    · cases h
    rename_i k hk
    split at h
    · rename_i t' ht
      obtain rfl := Except.ok.inj h
      have hname := kindNamed_eq_ok_iff.mp hk
      have htext := List.takeWhile_append_dropWhile (p := (· != '['))
        (l := Text.trim text.toList)
      rw [← htext]
      rcases matrix?_eq_some_iff.mp ht with ⟨cols, hcols, rfl⟩ |
        ⟨rows, cols, g, g', hg, hrows, hcols, rfl⟩
      · exact .row hname hcols
      · rw [hg]
        exact .matrix hname hrows hcols
    · cases h
  · obtain ⟨k, hk, rfl⟩ := map_eq_ok h
    exact .scalar (kindNamed_eq_ok_iff.mp hk)

theorem read_of_spells_trim (h : Spells t (Text.trim text.toList)) : read text = .ok t := by
  generalize htext : Text.trim text.toList = cs at h
  cases h with
  | void => simp only [read, htext, if_true]
  | scalar hk =>
      have hbracket : '[' ∉ cs := fun hc => (hk.letters.2.2 _ hc).2 rfl
      simp only [read, htext, if_neg hk.letters.2.1, List.contains_iff_mem, if_neg hbracket,
        kindNamed_eq_ok_iff.mpr hk]
      rfl
  | @row k cols name g hk hcols =>
      have hg := hcols.head? []
      rw [List.append_nil] at hg
      exact read_of_bracket hk hg htext (matrix?_eq_some_iff.mpr (.inl ⟨cols, hcols, rfl⟩))
  | @matrix k rows cols name g g' hk hrows hcols =>
      exact read_of_bracket hk (hrows.head? g') htext
        (matrix?_eq_some_iff.mpr (.inr ⟨rows, cols, g, g', rfl, hrows, hcols, rfl⟩))

theorem read_eq_ok_iff_spells :
    read text = .ok t ↔ ∃ cs, Text.Padded cs text.toList ∧ Spells t cs := by
  constructor
  · exact fun h => ⟨_, Text.padded_trim _, spells_trim_of_read h⟩
  · rintro ⟨cs, hpadded, hspells⟩
    obtain ⟨hhead, hlast⟩ := hspells.not_isBlank
    rw [← hpadded.trim_eq hhead hlast] at hspells
    exact read_of_spells_trim hspells

end Read

theorem Spells.inBounds {t : DataType} {cs : List Char} (h : Spells t cs) : t.InBounds := by
  cases h with
  | void => trivial
  | scalar => trivial
  | row _ hcols => exact ⟨by decide, hcols.1, hcols.2.1⟩
  | matrix _ hrows hcols => exact ⟨⟨hrows.1, hrows.2.1⟩, hcols.1, hcols.2.1⟩

theorem isGroup_toString {n : Nat} (hpos : 0 < n) (hlt : n < 2 ^ 32) :
    IsGroup n ('[' :: (toString n).toList ++ [']']) :=
  ⟨hpos, hlt, _, _, rfl, Text.padded_self _, Text.isNumeral_toString n⟩

theorem spells_text {t : DataType} (h : t.InBounds) : Spells t t.text.toList := by
  have hname (k : Kind) : k.HasName k.name.toList := .inl String.ofList_toList
  cases t with
  | void => exact .void
  | scalar k => exact .scalar (hname k)
  | matrix k rows cols =>
      obtain ⟨⟨hrows, hrows'⟩, hcols, hcols'⟩ := h
      have htext : (text (.matrix k rows cols)).toList =
          k.name.toList ++ (('[' :: (toString rows).toList ++ [']']) ++
            ('[' :: (toString cols).toList ++ [']'])) := by
        simp [text]
      rw [htext]
      exact .matrix (hname k) (isGroup_toString hrows hrows') (isGroup_toString hcols hcols')

theorem reads_exactly_what_is_spelled :
    (∀ t : DataType, read t.text = .ok t ↔ t.InBounds) ∧
      ∀ text t, read text = .ok t ↔ ∃ cs, Text.Padded cs text.toList ∧ Spells t cs := by
  refine ⟨fun t => ⟨fun h => ?_, fun h => ?_⟩, fun text t => read_eq_ok_iff_spells⟩
  · obtain ⟨cs, -, hspells⟩ := read_eq_ok_iff_spells.mp h
    exact hspells.inBounds
  · exact read_eq_ok_iff_spells.mpr ⟨_, Text.padded_self _, spells_text h⟩

example : read " double[ +2 ][003]" = .ok (.matrix .float64 2 3) := by decide +kernel

example : read "int8[[2]]" = .error (.malformed "int8[[2]]") := by decide +kernel

end DataType

end FormulaMachine
