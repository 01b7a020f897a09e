import FormulaMachine.Proofs.Infix.Concatenation
import FormulaMachine.Proofs.Infix.Lexemes

namespace FormulaMachine.Infix

def Token.spellings : Token → List String
  | .assign => ["="]
  | .eq => ["=="]
  | .neq => ["!="]
  | .not => ["!"]
  | .lt => ["<"]
  | .lte => ["<="]
  | .gt => [">"]
  | .gte => [">="]
  | .and => ["&", "&&"]
  | .or => ["|", "||"]
  | .xor => ["^"]
  | .plus => ["+"]
  | .minus => ["-"]
  | .times => ["*"]
  | .divide => ["/"]
  | .openParen => ["("]
  | .closeParen => [")"]
  | .comma => [","]
  | .semicolon => [";"]
  | .ident name => [name, "\"" ++ name ++ "\""]
  | .number text => [text]

inductive Layout (rest : List Char) : List Char → Prop
  | nil : Layout rest []
  | blank {b : Char} {cs : List Char} (hb : Text.isBlank b) (h : Layout rest cs) :
      Layout rest (b :: cs)
  | line {body cs : List Char} (hbody : '\n' ∉ body) (hend : ∀ c ∈ (cs ++ rest).head?, c = '\n')
      (h : Layout rest cs) : Layout rest ('/' :: '/' :: body ++ cs)
  | block {body cs : List Char} (hbody : ¬ ['*', '/'] <:+: body) (h : Layout rest cs) :
      Layout rest ('/' :: '*' :: body ++ '*' :: '/' :: cs)

def slice (text : String) (start stop : Nat) : List Char :=
  (String.Pos.Raw.extract text ⟨start⟩ ⟨stop⟩).toList

def gapsFrom (pos stop : Nat) : List Located → List (Nat × Nat)
  | [] => [(pos, stop)]
  | t :: ts => (pos, t.start) :: gapsFrom t.stop stop ts

structure Covered (text : String) (ts : List Located) : Prop where
  nonempty : ∀ t ∈ ts, t.start < t.stop
  apart : ts.Pairwise fun t u => t.stop ≤ u.start
  bounded : ∀ t ∈ ts,
    String.Pos.Raw.IsValid text ⟨t.start⟩ ∧ String.Pos.Raw.IsValid text ⟨t.stop⟩
  spelled : ∀ t ∈ ts, t.lexeme text ∈ t.token.spellings
  unquoted : ∀ t ∈ ts, ∀ name, t.token = .ident name → '"' ∉ name.toList
  layout : ∀ g ∈ gapsFrom 0 text.utf8ByteSize ts,
    Layout (slice text g.2 text.utf8ByteSize) (slice text g.1 g.2)

def Stretch (cs piece : List Char) (start stop : Nat) : Prop :=
  ∃ front back, cs = front ++ piece ++ back ∧ start = byteLength front ∧
    stop = byteLength front + byteLength piece

section Stretch

variable {cs piece : List Char} {start stop : Nat}

theorem byteLength_pos (h : cs ≠ []) : 0 < byteLength cs := by
  obtain ⟨c, cs, rfl⟩ := List.exists_cons_of_ne_nil h
  have hc := c.utf8Size_pos
  rw [byteLength]
  omega

theorem isValid_byteLength {text : String} {front back : List Char}
    (h : text.toList = front ++ back) : String.Pos.Raw.IsValid text ⟨byteLength front⟩ := by
  refine String.Pos.Raw.isValid_iff_exists_append.mpr
    ⟨String.ofList front, String.ofList back, ?_, ?_⟩
  · rw [← String.ofList_append, ← h, String.ofList_toList]
  · rw [byteLength_ofList]
    rfl

theorem Stretch.lt (h : Stretch cs piece start stop) (hne : piece ≠ []) : start < stop := by
  obtain ⟨front, back, -, rfl, rfl⟩ := h
  have hpos := byteLength_pos hne
  omega

theorem Stretch.behind (h : Stretch cs piece start stop) (front : List Char) :
    Stretch (front ++ cs) piece (byteLength front + start) (byteLength front + stop) := by
  obtain ⟨before, back, rfl, rfl, rfl⟩ := h
  refine ⟨front ++ before, back, by simp, (byteLength_append _ _).symm, ?_⟩
  rw [byteLength_append, Nat.add_assoc]

variable {text : String}

theorem Stretch.isValid (h : Stretch text.toList piece start stop) :
    String.Pos.Raw.IsValid text ⟨start⟩ ∧ String.Pos.Raw.IsValid text ⟨stop⟩ := by
  obtain ⟨front, back, htext, rfl, rfl⟩ := h
  rw [← byteLength_append]
  exact ⟨isValid_byteLength (by rw [htext, List.append_assoc]), isValid_byteLength htext⟩

theorem Stretch.slice_eq (h : Stretch text.toList piece start stop) :
    slice text start stop = piece := by
  obtain ⟨front, back, htext, hstart, hstop⟩ := h
  rw [slice, extract_eq htext hstart hstop, String.toList_ofList]

theorem Stretch.lexeme_eq {t : Located} (h : Stretch text.toList piece t.start t.stop) :
    t.lexeme text = String.ofList piece := by
  obtain ⟨front, back, htext, hstart, hstop⟩ := h
  exact extract_eq htext hstart hstop

end Stretch

section Spellings

variable {c : Char} {cs : List Char} {t : Token}

theorem eq_of_oneOrTwo_length {second : Char} {two one : Token}
    (h : Scan.oneOrTwo second two one cs = .token t cs.length) :
    (t = two ∧ cs = [second]) ∨ (t = one ∧ cs = []) := by
  unfold Scan.oneOrTwo at h
  split at h
  · rename_i d cs
    split at h
    · rename_i hd
      obtain ⟨rfl, hlength⟩ := Scan.token.inj h
      obtain rfl : cs = [] := List.length_eq_zero_iff.mp (by simpa using hlength.symm)
      exact .inl ⟨rfl, by rw [hd]⟩
    · obtain ⟨-, hlength⟩ := Scan.token.inj h
      simp at hlength
  · exact .inr ⟨(Scan.token.inj h).1.symm, rfl⟩

theorem mem_spellings_of_oneOrTwo {second : Char} {two one : Token}
    (h : Scan.oneOrTwo second two one cs = .token t cs.length)
    (htwo : String.ofList [c, second] ∈ two.spellings) (hone : String.ofList [c] ∈ one.spellings) :
    String.ofList (c :: cs) ∈ t.spellings := by
  rcases eq_of_oneOrTwo_length h with ⟨rfl, rfl⟩ | ⟨rfl, rfl⟩
  · exact htwo
  · exact hone

theorem eq_of_slash_length (h : Scan.slash cs = .token t cs.length) : t = .divide ∧ cs = [] := by
  unfold Scan.slash at h
  split at h
  · cases h
  · split at h <;> cases h
  · obtain ⟨rfl, hlength⟩ := Scan.token.inj h
    exact ⟨rfl, List.length_eq_zero_iff.mp hlength.symm⟩

theorem exists_name_of_quoted {n : Nat} (h : Scan.quoted cs = .token t n) (hn : n = cs.length) :
    ∃ name : List Char, t = .ident (String.ofList name) ∧ cs = name ++ ['"'] ∧ '"' ∉ name := by
  unfold Scan.quoted at h
  dsimp only at h
  split at h
  · cases h
  rename_i hclosed
  split at h
  · cases h
  split at h
  · obtain ⟨rfl, rfl⟩ := Scan.token.inj h
    obtain ⟨d, rest, hcs, hd⟩ := Scan.exists_takeWhile_append hclosed
    obtain rfl : d = '"' := by simpa using hd
    have hlength := congrArg List.length hcs
    rw [List.length_append, List.length_cons] at hlength
    obtain rfl : rest = [] := List.length_eq_zero_iff.mp (by omega)
    refine ⟨_, rfl, hcs, fun hmem => ?_⟩
    have hquote := List.mem_takeWhile_imp hmem
    simp at hquote
  · cases h

variable [Lexicon]

theorem exists_name_of_identifier {n : Nat} (h : Scan.identifier c cs = .token t n)
    (hc : Scan.startsIdentifier c) (hn : n = cs.length) :
    ∃ name : List Char, t = .ident (String.ofList name) ∧ c :: cs = name ∧ '"' ∉ name := by
  obtain ⟨rfl, rfl⟩ := Scan.token.inj h
  have hall : cs.takeWhile Scan.continuesIdentifier = cs :=
    (List.takeWhile_prefix _).eq_of_length hn
  refine ⟨c :: cs, by rw [hall], rfl, fun hmem => ?_⟩
  rcases List.mem_cons.mp hmem with rfl | hmem
  · simp [Scan.startsIdentifier, Text.isXidStart_of_ascii] at hc
  · rw [← hall] at hmem
    have hquote := List.mem_takeWhile_imp hmem
    simp [Scan.continuesIdentifier, Text.isXidContinue_of_ascii] at hquote

theorem eq_of_number_length {n : Nat} (h : Scan.number (c :: cs) = .token t n)
    (hn : n = cs.length) : t = .number (String.ofList (c :: cs)) := by
  unfold Scan.number at h
  rw [Lexicon.matchLength_eq] at h
  dsimp only at h
  split at h
  · rename_i hdigit
    obtain ⟨rfl, rfl⟩ := Scan.token.inj h
    obtain ⟨d, hd, -⟩ := List.any_eq_true.mp hdigit
    have hpos := List.length_pos_of_mem hd
    have hall : (c :: cs).take (Scan.numberLength (c :: cs)) = c :: cs :=
      (List.take_prefix _ _).eq_of_length (by rw [List.length_cons]; omega)
    rw [hall]
  · cases h

theorem Token.IsLexeme.mem_spellings (h : t.IsLexeme cs) :
    String.ofList cs ∈ t.spellings ∧ ∀ name, t = .ident name → '"' ∉ name.toList := by
  obtain ⟨c, cs, rfl, h⟩ := h
  unfold Scan.ofChars at h
  split at h
  case h_1 =>
    obtain ⟨rfl, rfl⟩ := eq_of_slash_length h
    exact ⟨by decide, nofun⟩
  case h_2 | h_3 | h_4 | h_5 | h_6 | h_7 =>
    refine ⟨mem_spellings_of_oneOrTwo h (by decide) (by decide), ?_⟩
    rcases Scan.eq_of_oneOrTwo h with rfl | rfl <;> exact nofun
  case h_16 =>
    obtain ⟨name, rfl, rfl, hquote⟩ := exists_name_of_quoted h rfl
    refine ⟨by simp [spellings, String.append_assoc], ?_⟩
    rintro _ ⟨⟩
    rwa [String.toList_ofList]
  case h_17 =>
    split at h
    · rename_i hc
      obtain ⟨name, rfl, rfl, hquote⟩ := exists_name_of_identifier h hc rfl
      refine ⟨List.mem_cons_self, ?_⟩
      rintro _ ⟨⟩
      rwa [String.toList_ofList]
    split at h
    · obtain rfl := eq_of_number_length h rfl
      exact ⟨List.mem_singleton.mpr rfl, nofun⟩
    split at h <;> cases h
  all_goals
    obtain ⟨rfl, hlength⟩ := Scan.token.inj h
    obtain rfl := List.length_eq_zero_iff.mp hlength.symm
    exact ⟨by decide, nofun⟩

theorem Token.IsLexeme.ne_nil (h : t.IsLexeme cs) : cs ≠ [] := by
  obtain ⟨c, cs, rfl, -⟩ := h
  exact List.cons_ne_nil _ _

end Spellings

section Skips

variable {c : Char} {cs gap rest : List Char} {n : Nat}

theorem exists_body_of_commentLengthFrom? {m : Nat} (h : Scan.commentLengthFrom? m cs = some n) :
    ∃ body back, cs = body ++ '*' :: '/' :: back ∧ n = m + body.length + 2 ∧
      ¬ ['*', '/'] <:+: body := by
  fun_induction Scan.commentLengthFrom? m cs with
  | case1 m back =>
      obtain rfl := Option.some.inj h
      exact ⟨[], back, rfl, rfl, by simp⟩
  | case2 m c cs hend ih =>
      obtain ⟨body, back, rfl, rfl, hbody⟩ := ih h
      refine ⟨c :: body, back, rfl, by rw [List.length_cons]; omega, fun hmark => ?_⟩
      rcases List.infix_cons_iff.mp hmark with hfirst | hlater
      · obtain ⟨hc, hslash⟩ := List.cons_prefix_cons.mp hfirst
        obtain ⟨tail, rfl⟩ := hslash
        exact hend _ hc.symm rfl
      · exact hbody hlater
  | case3 => cases h

theorem exists_of_slash (h : Scan.slash cs = .skip n) : ∃ piece back, cs = piece ++ back ∧
    n = piece.length ∧ ∀ gap rest, back = gap ++ rest → Layout rest gap →
      Layout rest ('/' :: piece ++ gap) := by
  unfold Scan.slash at h
  split at h
  · rename_i cs
    obtain rfl := Scan.skip.inj h
    refine ⟨'/' :: cs.takeWhile (· != '\n'), cs.dropWhile (· != '\n'), ?_, Nat.add_comm _ _, ?_⟩
    · rw [List.cons_append, List.takeWhile_append_dropWhile]
    intro gap rest hback hgap
    refine .line (fun hmem => ?_) (fun c hc => ?_) hgap
    · have hfeed := List.mem_takeWhile_imp hmem
      simp at hfeed
    · have hhead := List.head?_dropWhile_not (· != '\n') cs
      rw [hback, Option.mem_def.mp hc] at hhead
      simpa using hhead
  · rename_i cs
    split at h
    · rename_i m hlength
      obtain rfl := Scan.skip.inj h
      obtain ⟨body, back, rfl, rfl, hbody⟩ := exists_body_of_commentLengthFrom? hlength
      refine ⟨'*' :: body ++ ['*', '/'], back, by simp, ?_, fun gap rest _ hgap => ?_⟩
      · rw [List.length_append, List.length_cons, Nat.add_comm 1]
        rfl
      · have hblock := Layout.block hbody hgap
        simpa using hblock
    · cases h
  · cases h

theorem Layout.of_slash (h : Scan.slash cs = .skip n) (hdrop : cs.drop n = gap ++ rest)
    (hgap : Layout rest gap) : Layout rest ('/' :: cs.take n ++ gap) := by
  obtain ⟨piece, back, rfl, rfl, hpiece⟩ := exists_of_slash h
  rw [List.drop_left] at hdrop
  rw [List.take_left]
  exact hpiece gap rest hdrop hgap

theorem Layout.of_skip [Lexicon] (h : Scan.ofChars c cs = .skip n) (hdrop : cs.drop n = gap ++ rest)
    (hgap : Layout rest gap) : Layout rest (c :: cs.take n ++ gap) := by
  rcases Scan.ofChars_eq_skip h with ⟨rfl, hslash⟩ | ⟨hb, rfl⟩
  · exact .of_slash hslash hdrop hgap
  · exact .blank hb hgap

end Skips

section Faults

variable {c : Char} {cs : List Char} {a b : Nat} {cause : SyntaxCause}

theorem stretch_all (cs : List Char) : Stretch cs cs 0 (byteLength cs) :=
  ⟨[], [], by simp, rfl, (Nat.zero_add _).symm⟩

theorem stretch_first (c : Char) (cs : List Char) : Stretch (c :: cs) [c] 0 c.utf8Size :=
  ⟨[], cs, rfl, rfl, (Nat.zero_add _).symm⟩

theorem oneOrTwo_ne_fault (second : Char) (two one : Token) (cs : List Char) :
    Scan.oneOrTwo second two one cs ≠ .fault a b cause := by
  intro h
  unfold Scan.oneOrTwo at h
  split at h
  · split at h <;> cases h
  · cases h

theorem stretch_of_slash_fault (h : Scan.slash cs = .fault a b cause) :
    Stretch ('/' :: cs) ('/' :: cs) a b := by
  unfold Scan.slash at h
  split at h
  · cases h
  · rename_i cs
    split at h
    · cases h
    · obtain ⟨rfl, rfl, -⟩ := Scan.fault.inj h
      have hlength : byteLength ('/' :: '*' :: cs) = 2 + byteLength cs :=
        (Nat.add_assoc 1 1 _).symm
      rw [← hlength]
      exact stretch_all _
  · cases h

theorem stretch_of_quoted_fault (h : Scan.quoted cs = .fault a b cause) :
    ∃ piece, piece ≠ [] ∧ Stretch ('"' :: cs) piece a b := by
  unfold Scan.quoted at h
  dsimp only at h
  split at h
  · obtain ⟨rfl, rfl, -⟩ := Scan.fault.inj h
    exact ⟨_, List.cons_ne_nil _ _, stretch_all _⟩
  rename_i hclosed
  obtain ⟨d, rest, hcs, hd⟩ := Scan.exists_takeWhile_append hclosed
  obtain rfl : d = '"' := by simpa using hd
  split at h
  · rename_i hempty
    obtain ⟨rfl, rfl, -⟩ := Scan.fault.inj h
    rw [hempty, List.nil_append] at hcs
    rw [hcs]
    exact ⟨['"', '"'], List.cons_ne_nil _ _, [], rest, rfl, rfl, rfl⟩
  split at h
  · cases h
  · rename_i c behind hblank
    obtain ⟨rfl, rfl, -⟩ := Scan.fault.inj h
    generalize cs.takeWhile (· != '"') = name at hcs hblank ⊢
    have hname := List.takeWhile_append_dropWhile (p := fun c => !Text.isBlank c) (l := name)
    rw [hblank] at hname
    generalize name.takeWhile (fun c => !Text.isBlank c) = before at hname ⊢
    refine ⟨[c], List.cons_ne_nil _ _, '"' :: before, behind ++ '"' :: rest, ?_, rfl, rfl⟩
    rw [hcs, ← hname]
    simp

end Faults

section Lexicon

variable [Lexicon]

inductive Laid : (front cs : List Char) → List Located → Prop
  | last {front gap : List Char} (hgap : Layout [] gap) : Laid front gap []
  | token {front gap lexeme rest : List Char} {t : Located} {ts : List Located}
      (hgap : Layout (lexeme ++ rest) gap) (hlexeme : t.token.IsLexeme lexeme)
      (hstart : t.start = byteLength (front ++ gap))
      (hstop : t.stop = byteLength (front ++ gap ++ lexeme))
      (h : Laid (front ++ gap ++ lexeme) rest ts) : Laid front (gap ++ lexeme ++ rest) (t :: ts)

namespace Laid

variable {front cs : List Char} {ts : List Located} {text : String}

theorem skip {c : Char} {n : Nat} (hscan : Scan.ofChars c cs = .skip n)
    (h : Laid (front ++ c :: cs.take n) (cs.drop n) ts) : Laid front (c :: cs) ts := by
  have hcs : c :: cs = c :: cs.take n ++ cs.drop n := by
    rw [List.cons_append, List.take_append_drop]
  rw [hcs]
  generalize hrest : cs.drop n = rest at h ⊢
  cases h with
  | last hgap => exact .last (hgap.of_skip hscan (by rw [hrest, List.append_nil]))
  | @token _ gap lexeme rest t ts hgap hlexeme hstart hstop h =>
      rw [List.append_assoc] at hrest
      have hgap' := hgap.of_skip hscan hrest
      rw [← List.append_assoc, ← List.append_assoc]
      rw [List.append_assoc front] at hstart hstop h
      exact .token hgap' hlexeme hstart hstop h

theorem of_lexFrom {seen : List Located} {pos : Nat} (hpos : pos = byteLength front)
    (h : lexFrom seen pos cs = .ok ts) : ∃ us, ts = seen.reverse ++ us ∧ Laid front cs us := by
  fun_induction lexFrom seen pos cs generalizing front with
  | case1 seen pos =>
      obtain rfl := Except.ok.inj h
      exact ⟨[], (List.append_nil _).symm, .last .nil⟩
  | case2 seen pos c cs n hscan ih =>
      obtain ⟨us, rfl, hus⟩ := ih (by rw [hpos, byteLength_append]) h
      exact ⟨us, rfl, hus.skip hscan⟩
  | case3 seen pos c cs t n hscan stop =>
      rename_i ih
      have hstop : stop = byteLength (front ++ c :: cs.take n) := by rw [byteLength_append, ← hpos]
      obtain ⟨us, rfl, hus⟩ := ih hstop h
      refine ⟨⟨t, pos, stop⟩ :: us, by rw [List.reverse_cons, List.append_assoc]; rfl, ?_⟩
      have hcs : c :: cs = [] ++ (c :: cs.take n) ++ cs.drop n := by
        rw [List.nil_append, List.cons_append, List.take_append_drop]
      rw [hcs]
      refine .token .nil (isLexeme_of_ofChars hscan) ?_ ?_ ?_
      · rw [List.append_nil]
        exact hpos
      · rw [List.append_nil]
        exact hstop
      · rwa [List.append_nil]
  | case4 => cases h

theorem exists_stretch (h : Laid front cs ts) : ∀ t ∈ ts, ∃ lexeme, t.token.IsLexeme lexeme ∧
    Stretch (front ++ cs) lexeme t.start t.stop := by
  induction h with
  | last => exact fun _ ht => absurd ht List.not_mem_nil
  | @token front gap lexeme rest t ts _ hlexeme hstart hstop _ ih =>
      rw [← List.append_assoc, ← List.append_assoc]
      refine List.forall_mem_cons.mpr ⟨⟨lexeme, hlexeme, front ++ gap, rest, rfl, hstart, ?_⟩, ih⟩
      rw [hstop, byteLength_append]

theorem le_start (h : Laid front cs ts) : ∀ t ∈ ts, byteLength front ≤ t.start := by
  induction h with
  | last => exact fun _ ht => absurd ht List.not_mem_nil
  | token _ _ hstart _ _ ih =>
      refine List.forall_mem_cons.mpr ⟨?_, fun t ht => ?_⟩
      · rw [hstart, byteLength_append]
        exact Nat.le_add_right _ _
      · have hle := ih t ht
        rw [byteLength_append, byteLength_append] at hle
        omega

theorem pairwise (h : Laid front cs ts) : ts.Pairwise fun t u => t.stop ≤ u.start := by
  induction h with
  | last => exact .nil
  | token _ _ _ hstop h ih => exact .cons (fun u hu => hstop.trans_le (h.le_start u hu)) ih

theorem layout (h : Laid front cs ts) (htext : text.toList = front ++ cs) :
    ∀ g ∈ gapsFrom (byteLength front) text.utf8ByteSize ts,
      Layout (slice text g.2 text.utf8ByteSize) (slice text g.1 g.2) := by
  have hsize : text.utf8ByteSize = byteLength text.toList := by
    rw [byteLength_ofList, String.ofList_toList]
  induction h with
  | @last front gap hgap =>
      have hbehind : Stretch text.toList [] text.utf8ByteSize text.utf8ByteSize :=
        ⟨text.toList, [], by simp, hsize, hsize⟩
      have hpiece : Stretch text.toList gap (byteLength front) text.utf8ByteSize :=
        ⟨front, [], by simpa using htext, rfl, by rw [hsize, htext, byteLength_append]⟩
      refine List.forall_mem_singleton.mpr ?_
      rw [hbehind.slice_eq, hpiece.slice_eq]
      exact hgap
  | @token front gap lexeme rest t ts hgap _ hstart hstop h ih =>
      rw [← List.append_assoc, ← List.append_assoc] at htext
      have hbehind : Stretch text.toList (lexeme ++ rest) t.start text.utf8ByteSize := by
        refine ⟨front ++ gap, [], by simpa using htext, hstart, ?_⟩
        rw [hsize, htext, ← byteLength_append, List.append_assoc (front ++ gap)]
      have hpiece : Stretch text.toList gap (byteLength front) t.start :=
        ⟨front, lexeme ++ rest, by simpa using htext, rfl, by rw [hstart, byteLength_append]⟩
      refine List.forall_mem_cons.mpr ⟨?_, ?_⟩
      · rw [hbehind.slice_eq, hpiece.slice_eq]
        exact hgap
      · rw [hstop]
        exact ih htext

theorem covered (h : Laid [] text.toList ts) : Covered text ts where
  nonempty := fun t ht => by
    obtain ⟨_, hlexeme, hstretch⟩ := h.exists_stretch t ht
    exact hstretch.lt hlexeme.ne_nil
  apart := h.pairwise
  bounded := fun t ht => by
    obtain ⟨_, -, hstretch⟩ := h.exists_stretch t ht
    exact hstretch.isValid
  spelled := fun t ht => by
    obtain ⟨_, hlexeme, hstretch⟩ := h.exists_stretch t ht
    rw [hstretch.lexeme_eq]
    exact hlexeme.mem_spellings.1
  unquoted := fun t ht => by
    obtain ⟨_, hlexeme, -⟩ := h.exists_stretch t ht
    exact hlexeme.mem_spellings.2
  layout := h.layout rfl

end Laid

section Stretches

variable {c : Char} {cs : List Char} {a b : Nat} {cause : SyntaxCause}

theorem stretch_of_number_fault (hc : Scan.startsNumber c)
    (h : Scan.number (c :: cs) = .fault a b cause) : Stretch (c :: cs) [c] a b := by
  unfold Scan.number at h
  rw [Lexicon.matchLength_eq] at h
  dsimp only at h
  split at h
  · cases h
  rename_i hnone
  obtain ⟨rfl, rfl, -⟩ := Scan.fault.inj h
  rcases Bool.or_eq_true_iff.mp hc with hdigit | hpoint
  · have hpos : 0 < Scan.numberLength (c :: cs) := by
      have hcount : 0 < Scan.countWhile Text.isDecimalDigit (c :: cs) := by
        rw [Scan.countWhile, List.takeWhile_cons_of_pos (Text.isDecimalDigit_of_isDigit hdigit)]
        exact Nat.succ_pos _
      unfold Scan.numberLength
      dsimp only
      omega
    obtain ⟨m, hm⟩ := Nat.exists_eq_succ_of_ne_zero hpos.ne'
    rw [hm, List.take_succ_cons, List.any_cons, hdigit] at hnone
    exact absurd rfl hnone
  · obtain rfl := beq_iff_eq.mp hpoint
    exact stretch_first _ _

theorem stretch_of_fault (h : Scan.ofChars c cs = .fault a b cause) :
    ∃ piece, piece ≠ [] ∧ Stretch (c :: cs) piece a b := by
  unfold Scan.ofChars at h
  split at h
  case h_1 => exact ⟨_, List.cons_ne_nil _ _, stretch_of_slash_fault h⟩
  case h_2 | h_3 | h_4 | h_5 | h_6 | h_7 => exact absurd h (oneOrTwo_ne_fault _ _ _ _)
  case h_16 => exact stretch_of_quoted_fault h
  case h_17 =>
    split at h
    · cases h
    split at h
    · rename_i hc
      exact ⟨_, List.cons_ne_nil _ _, stretch_of_number_fault hc h⟩
    split at h
    · cases h
    · obtain ⟨rfl, rfl, -⟩ := Scan.fault.inj h
      exact ⟨_, List.cons_ne_nil _ _, stretch_first _ _⟩
  all_goals cases h

theorem stretch_of_lexFrom_error {seen : List Located} {pos : Nat} {front : List Char}
    {e : SyntaxError} (hpos : pos = byteLength front) (h : lexFrom seen pos cs = .error e) :
    ∃ piece start stop cause, piece ≠ [] ∧ Stretch (front ++ cs) piece start stop ∧
      e = .between start stop cause := by
  fun_induction lexFrom seen pos cs generalizing front with
  | case1 => cases h
  | case2 seen pos c cs n hscan ih =>
      have hpos' : pos + byteLength (c :: cs.take n) = byteLength (front ++ c :: cs.take n) := by
        rw [hpos, byteLength_append]
      obtain ⟨piece, start, stop, cause, hne, hpiece, rfl⟩ := ih hpos' h
      rw [List.append_assoc, List.cons_append, List.take_append_drop] at hpiece
      exact ⟨piece, start, stop, cause, hne, hpiece, rfl⟩
  | case3 seen pos c cs t n hscan stop =>
      rename_i ih
      have hstop : stop = byteLength (front ++ c :: cs.take n) := by rw [byteLength_append, ← hpos]
      obtain ⟨piece, start, stop, cause, hne, hpiece, rfl⟩ := ih hstop h
      rw [List.append_assoc, List.cons_append, List.take_append_drop] at hpiece
      exact ⟨piece, start, stop, cause, hne, hpiece, rfl⟩
  | case4 seen pos c cs a b cause hscan =>
      obtain ⟨piece, hne, hpiece⟩ := stretch_of_fault hscan
      obtain rfl := Except.error.inj h
      rw [hpos]
      exact ⟨piece, _, _, cause, hne, hpiece.behind front, rfl⟩

end Stretches

section Lex

variable {text : String}

theorem covered_of_lex {ts : List Located} (h : lex text = .ok ts) : Covered text ts := by
  have hpos : 0 = byteLength [] := rfl
  obtain ⟨us, rfl, hlaid⟩ := Laid.of_lexFrom hpos h
  exact hlaid.covered

theorem lex_error_stretch {e : SyntaxError} (hsize : text.utf8ByteSize < 2 ^ 16)
    (h : lex text = .error e) : e.start.toNat < e.stop.toNat ∧
      String.Pos.Raw.IsValid text ⟨e.start.toNat⟩ ∧ String.Pos.Raw.IsValid text ⟨e.stop.toNat⟩ := by
  have hpos : 0 = byteLength [] := rfl
  obtain ⟨piece, start, stop, cause, hne, hpiece, rfl⟩ := stretch_of_lexFrom_error hpos h
  have hlt := hpiece.lt hne
  have hle : stop ≤ text.utf8ByteSize := hpiece.isValid.2.le_utf8ByteSize
  have hspans : (SyntaxError.between start stop cause).Spans start stop :=
    SyntaxError.spans_between (by omega) (by omega)
  rw [hspans.1, hspans.2]
  exact ⟨hlt, hpiece.isValid⟩

end Lex

theorem lex_covers_text (text : String) :
    (∀ ts, lex text = .ok ts → Covered text ts) ∧
    (text.utf8ByteSize < 2 ^ 16 → ∀ e, lex text = .error e →
      e.start.toNat < e.stop.toNat ∧ String.Pos.Raw.IsValid text ⟨e.start.toNat⟩ ∧
        String.Pos.Raw.IsValid text ⟨e.stop.toNat⟩) :=
  ⟨fun _ => covered_of_lex, fun hsize _ => lex_error_stretch hsize⟩

end Lexicon

theorem lex_covers_text_two_bytes :
    (∃ ts, lex "x =\"a+b\"/*ü*/&&.5//" = .ok ts ∧
      gapsFrom 0 20 ts = [(0, 0), (1, 2), (3, 3), (8, 14), (16, 16), (18, 20)] ∧
      Covered "x =\"a+b\"/*ü*/&&.5//" ts) ∧
    "y=\"ü\u00a0b\"".utf8ByteSize < 2 ^ 16 ∧
    ∃ e, lex "y=\"ü\u00a0b\"" = .error e ∧ e = .between 5 7 .invalidToken ∧
      e.start.toNat < e.stop.toNat ∧
      String.Pos.Raw.IsValid "y=\"ü\u00a0b\"" ⟨e.start.toNat⟩ ∧
      String.Pos.Raw.IsValid "y=\"ü\u00a0b\"" ⟨e.stop.toNat⟩ := by
  have hok : lex "x =\"a+b\"/*ü*/&&.5//" = .ok [⟨.ident "x", 0, 1⟩, ⟨.assign, 2, 3⟩,
      ⟨.ident "a+b", 3, 8⟩, ⟨.and, 14, 16⟩, ⟨.number ".5", 16, 18⟩] := by decide +kernel
  have hsize : "y=\"ü\u00a0b\"".utf8ByteSize < 2 ^ 16 := by decide
  have herror : lex "y=\"ü\u00a0b\"" = .error (.between 5 7 .invalidToken) := by decide +kernel
  exact ⟨⟨_, hok, by decide, (lex_covers_text _).1 _ hok⟩, hsize, _, herror, rfl,
    (lex_covers_text _).2 hsize _ herror⟩

end FormulaMachine.Infix
