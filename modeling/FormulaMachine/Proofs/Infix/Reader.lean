import FormulaMachine.Proofs.Infix.Soundness

namespace FormulaMachine.Infix

inductive Expects where
  | target
  | assign
  | operand (signed cast bracketed : Bool)
  | behindName (bracketed : Bool)
  | behindOperand (cast : Bool)
  deriving DecidableEq, Repr

inductive Bracket where
  | group
  | call
  deriving DecidableEq, Repr

structure Reader where
  expects : Expects
  brackets : List Bracket
  deriving DecidableEq, Repr

namespace Reader

def start : Reader := ⟨.target, []⟩

def stepOperand (signed cast bracketed : Bool) (bs : List Bracket) : Token → Option Reader
  | .ident _ => some ⟨.behindName bracketed, bs⟩
  | .number _ => some ⟨.behindOperand false, bs⟩
  | .openParen => some ⟨.operand true true cast, .group :: bs⟩
  | .plus | .minus | .not => if signed then some ⟨.operand false true false, bs⟩ else none
  | _ => none

def stepClosing (named : Bool) : List Bracket → Token → Option Reader
  | .group :: bs, .closeParen => some ⟨.behindOperand named, bs⟩
  | .call :: bs, .closeParen => some ⟨.behindOperand false, bs⟩
  | .call :: bs, .comma => some ⟨.operand true true false, .call :: bs⟩
  | [], .comma | [], .semicolon => some start
  | _, _ => none

def stepBehind (named : Bool) (bs : List Bracket) (t : Token) : Option Reader :=
  match BinaryOp.ofToken? t with
  | some _ => some ⟨.operand true true false, bs⟩
  | none => stepClosing named bs t

def step (s : Reader) (t : Token) : Option Reader :=
  match s.expects, t with
  | .target, .ident _ => some ⟨.assign, s.brackets⟩
  | .assign, .assign => some ⟨.operand true true false, s.brackets⟩
  | .target, _ | .assign, _ => none
  | .operand signed cast bracketed, t => stepOperand signed cast bracketed s.brackets t
  | .behindName _, .openParen => some ⟨.operand true true false, .call :: s.brackets⟩
  | .behindName bracketed, t => stepBehind bracketed s.brackets t
  | .behindOperand cast, t =>
      if cast && t.startsOperand then stepOperand false false false s.brackets t
      else stepBehind false s.brackets t

section Step

variable {t : Token} {bs : List Bracket} {named signed cast bracketed : Bool}

theorem stepOperand_eq_none (hop : t.startsOperand = false)
    (hsign : signed = true → Sign.ofToken? t = none) :
    stepOperand signed cast bracketed bs t = none := by
  cases t with
  | plus | minus | not =>
      cases signed with
      | false => rfl
      | true => cases hsign rfl
  | ident | number | openParen => cases hop
  | _ => rfl

theorem stepClosing_of_startsOperand (ht : t.startsOperand = true) :
    stepClosing named bs t = none := by
  cases t with
  | ident | number | openParen => rcases bs with _ | ⟨_ | _, _⟩ <;> rfl
  | _ => cases ht

theorem stepBehind_of_startsOperand (ht : t.startsOperand = true) :
    stepBehind named bs t = none := by
  have hop : BinaryOp.ofToken? t = none := by
    cases t with
    | ident | number | openParen => rfl
    | _ => cases ht
  rw [stepBehind, hop]
  exact stepClosing_of_startsOperand ht

theorem stepClosing_group (ht : t ≠ .closeParen) : stepClosing named (.group :: bs) t = none := by
  cases t with
  | closeParen => exact absurd rfl ht
  | _ => rfl

theorem stepClosing_call (ht : t ≠ .closeParen) (ht' : t ≠ .comma) :
    stepClosing named (.call :: bs) t = none := by
  cases t with
  | closeParen => exact absurd rfl ht
  | comma => exact absurd rfl ht'
  | _ => rfl

theorem stepClosing_nil (ht : t ≠ .comma) (ht' : t ≠ .semicolon) :
    stepClosing named [] t = none := by
  cases t with
  | comma => exact absurd rfl ht
  | semicolon => exact absurd rfl ht'
  | _ => rfl

end Step

def run (s : Reader) (ts : List Token) : Option Reader :=
  ts.foldlM step s

theorem run_cons (s : Reader) (t : Token) (ts : List Token) :
    s.run (t :: ts) = (s.step t).bind (·.run ts) := rfl

theorem run_append (s : Reader) (ts us : List Token) :
    s.run (ts ++ us) = (s.run ts).bind (·.run us) :=
  List.foldlM_append

inductive Takes : Reader → List Located → Reader → List Located → Prop
  | refl (s : Reader) (ts : List Located) : Takes s ts s ts
  | step {s s' s'' : Reader} {t : Located} {ts rest : List Located} (h : s.step t.token = some s')
      (hrest : Takes s' ts s'' rest) : Takes s (t :: ts) s'' rest

section Takes

variable {s s' s'' : Reader} {ts us rest : List Located}

theorem Takes.trans (h : Takes s ts s' us) (h' : Takes s' us s'' rest) : Takes s ts s'' rest := by
  induction h with
  | refl => exact h'
  | step hstep _ ih => exact .step hstep (ih h')

theorem Takes.exists_run (h : Takes s ts s' rest) :
    ∃ front, ts = front ++ rest ∧ s.run (tokensOf front) = some s' := by
  induction h with
  | refl s ts => exact ⟨[], rfl, rfl⟩
  | @step s s' s'' t ts rest hstep _ ih =>
      obtain ⟨front, rfl, hrun⟩ := ih
      refine ⟨t :: front, rfl, ?_⟩
      rw [tokensOf_cons, run_cons, hstep, Option.bind_some, hrun]

end Takes

inductive Stuck (s : Reader) (ts : List Located) : Failure → Prop
  | unexpected {s' : Reader} {rest : List Located} (takes : Takes s ts s' rest)
      (head : ∀ t ∈ rest.head?, s'.step t.token = none ∧ s'.step .semicolon = none)
      (last : rest = [] → s' ≠ start) : Stuck s ts (.unexpected rest)
  | extra {s' : Reader} {t : Located} {rest : List Located} (takes : Takes s ts s' (t :: rest))
      (semicolon : s'.step .semicolon = some start) (head : s'.step t.token = none) :
      Stuck s ts (.extra (t :: rest))

theorem Stuck.after {s s' : Reader} {ts rest : List Located} {f : Failure}
    (h : Stuck s' rest f) (htakes : Takes s ts s' rest) : Stuck s ts f := by
  cases h with
  | unexpected takes head last => exact .unexpected (htakes.trans takes) head last
  | extra takes semicolon head => exact .extra (htakes.trans takes) semicolon head

def Follows {α : Type} {n : Nat} (s : Reader) (ts : List Located) (done : List Located → Prop) :
    Except Failure (Parsed α n) → Prop
  | .ok p => done p.rest
  | .error f => Stuck s ts f

theorem Follows.andThen {α β : Type} {n m : Nat} {s s' : Reader} {ts us : List Located}
    {done done' : List Located → Prop} {r : Except Failure (Parsed α n)}
    {r' : Except Failure (Parsed β m)} (h : Follows s' us done r) (htakes : Takes s ts s' us)
    (herror : ∀ f, r = .error f → r' = .error f)
    (hok : ∀ p, r = .ok p → done p.rest → Follows s ts done' r') : Follows s ts done' r' := by
  cases r with
  | error f =>
      rw [herror f rfl]
      exact Stuck.after h htakes
  | ok p => exact hok p rfl h

end Reader

namespace Expects

open Reader

def Behind : Expects → Prop
  | .behindName _ | .behindOperand _ => True
  | _ => False

def named : Expects → Bool
  | .behindName bracketed => bracketed
  | _ => false

structure Complete (e : Expects) (ls : List Level) (rest : List Located) : Prop where
  behind : e.Behind
  operand : ∀ t ∈ rest.head?, t.token.startsOperand = true →
    ∀ bs, Reader.step ⟨e, bs⟩ t.token = none
  operator : ∀ t ∈ rest.head?, ∀ l ∈ ls, binaryAt? l t = none

variable {e : Expects} {bs : List Bracket} {t : Token} {l : Level} {ls : List Level}
  {u : Located} {rest : List Located}

theorem Behind.step_eq (h : e.Behind) (ht : t.startsOperand = false) :
    Reader.step ⟨e, bs⟩ t = stepBehind e.named bs t := by
  cases e with
  | behindName => cases t <;> first | rfl | cases ht
  | behindOperand cast => simp [Reader.step, ht, Expects.named]
  | target | assign | operand => exact h.elim

theorem Behind.ne_start (h : e.Behind) : (⟨e, bs⟩ : Reader) ≠ start := by
  rintro heq
  cases heq
  exact h

theorem ofToken?_eq_none (h : ∀ l ∈ Level.all, binaryAt? l u = none) :
    BinaryOp.ofToken? u.token = none := by
  cases hop : BinaryOp.ofToken? u.token with
  | none => rfl
  | some op =>
      have hl := h op.level (by cases op <;> decide)
      simp [binaryAt?, hop] at hl

theorem Complete.step_eq (h : e.Complete Level.all rest) (hu : u ∈ rest.head?) :
    Reader.step ⟨e, bs⟩ u.token = stepClosing e.named bs u.token := by
  cases hop : u.token.startsOperand with
  | true => rw [h.operand u hu hop, stepClosing_of_startsOperand hop]
  | false => rw [h.behind.step_eq hop, stepBehind, ofToken?_eq_none (h.operator u hu)]

theorem complete_behindOperand (rest : List Located) : (behindOperand false).Complete [] rest :=
  ⟨trivial, fun _ _ ht _ => stepBehind_of_startsOperand ht, by simp⟩

theorem Behind.step_operator (h : e.Behind) {op : BinaryOp} (hop : binaryAt? l u = some op) :
    Reader.step ⟨e, bs⟩ u.token = some ⟨.operand true true false, bs⟩ := by
  obtain ⟨-, htoken⟩ := binaryAt?_eq_some hop
  rw [htoken]
  cases op <;> exact h.step_eq rfl

end Expects

namespace Reader

open Expects

def TakesOperand (s : Reader) (alone : List Located → Prop) (ls : List Level)
    (ts rest : List Located) : Prop :=
  ∃ e : Expects, Takes s ts ⟨e, s.brackets⟩ rest ∧ e.Complete ls rest ∧
    (e.named = true → alone rest)

def IsNamed (bracketed : Bool) (ts rest : List Located) : Prop :=
  bracketed = true ∧ ∃ x i j, ts = ⟨.ident x, i, j⟩ :: rest

end Reader

theorem castTarget?_eq_none {x : String} {i j i' j' i'' j'' : Nat} {rest : List Located}
    (h : castTarget? (⟨.openParen, i, j⟩ :: ⟨.ident x, i', j'⟩ :: ⟨.closeParen, i'', j''⟩ :: rest) =
      none) : ∀ t ∈ rest.head?, t.token.startsOperand = false := by
  intro t ht
  obtain ⟨tl, rfl⟩ := List.head?_eq_some_iff.mp ht
  cases hop : t.token.startsOperand with
  | false => rfl
  | true => simp [castTarget?, hop] at h

namespace Reader

open Expects

mutual

theorem follows_parseLevels (ls : List Level) (bracketed : Bool) (bs : List Bracket)
    (ts : List Located) :
    Follows ⟨.operand true true bracketed, bs⟩ ts
      (TakesOperand ⟨.operand true true bracketed, bs⟩ (IsNamed bracketed ts) ls ts)
      (parseLevels ls ts) := by
  match ls with
  | [] =>
      rw [parseLevels]
      exact follows_parseOperand bracketed bs ts
  | l :: ls =>
      rw [parseLevels]
      refine (follows_parseLevels ls bracketed bs ts).andThen (.refl _ _) (fun f hf => by rw [hf])
        fun p hp hdone => ?_
      obtain ⟨e, htakes, hcomplete, hnamed⟩ := hdone
      have hs := p.shorter
      rw [hp]
      dsimp only
      refine (follows_parseChain l ls e bs p.value p.rest hcomplete).andThen htakes
        (fun f hf => by rw [hf]) fun q hq hdone' => ?_
      obtain ⟨e', htakes', hcomplete', hnamed'⟩ := hdone'
      rw [hq]
      refine ⟨e', htakes.trans htakes', hcomplete', fun h => ?_⟩
      obtain ⟨he, hrest⟩ := hnamed' h
      rw [Parsed.rest_within, hrest]
      exact hnamed he
termination_by (ts.length, ls.length + 3)

theorem follows_parseChain (l : Level) (ls : List Level) (e : Expects) (bs : List Bracket)
    (left : Expr) (ts : List Located) (he : e.Complete ls ts) :
    Follows ⟨e, bs⟩ ts
      (TakesOperand ⟨e, bs⟩ (fun rest => e.named = true ∧ rest = ts) (l :: ls) ts)
      (parseChain l ls left ts) := by
  match ts with
  | [] =>
      rw [parseChain]
      exact ⟨e, .refl _ _, ⟨he.behind, by simp, by simp⟩, fun h => ⟨h, rfl⟩⟩
  | t :: ts =>
      rw [parseChain]
      cases hop : binaryAt? l t with
      | none =>
          refine ⟨e, .refl _ _, ⟨he.behind, he.operand, ?_⟩, fun h => ⟨h, rfl⟩⟩
          intro u hu m hm
          rcases List.mem_cons.mp hm with rfl | hm
          · obtain rfl : t = u := by simpa using hu
            exact hop
          · exact he.operator u hu m hm
      | some op =>
          have hstep : Reader.step ⟨e, bs⟩ t.token = some ⟨.operand true true false, bs⟩ :=
            he.behind.step_operator hop
          dsimp only
          refine (follows_parseLevels ls false bs ts).andThen (.step hstep (.refl _ _))
            (fun f hf => by rw [hf]) fun p hp hdone => ?_
          obtain ⟨e', htakes, hcomplete, hnamed⟩ := hdone
          have hs := p.shorter
          rw [hp]
          dsimp only
          refine (follows_parseChain l ls e' bs (.binary op left p.value) p.rest hcomplete).andThen
            (.step hstep htakes) (fun f hf => by rw [hf]) fun q hq hdone' => ?_
          obtain ⟨e'', htakes', hcomplete', hnamed'⟩ := hdone'
          rw [hq]
          refine ⟨e'', .step hstep (htakes.trans htakes'), hcomplete', fun h => ?_⟩
          -- behind an operator there is no bracket that may be that of a cast
          obtain ⟨hfalse, -⟩ := hnamed (hnamed' h).1
          cases hfalse
termination_by (ts.length, 0)

theorem follows_parseOperand (bracketed : Bool) (bs : List Bracket) (ts : List Located) :
    Follows ⟨.operand true true bracketed, bs⟩ ts
      (TakesOperand ⟨.operand true true bracketed, bs⟩ (IsNamed bracketed ts) [] ts)
      (parseOperand ts) := by
  match ts with
  | [] =>
      rw [parseOperand]
      exact .unexpected (.refl _ _) (by simp) (by rintro - ⟨⟩)
  | t :: ts =>
      rw [parseOperand]
      cases hsign : Sign.ofToken? t.token with
      | none =>
          refine follows_parseCast true bracketed bs (t :: ts) fun _ u hu => ?_
          obtain rfl : t = u := by simpa using hu
          exact hsign
      | some s =>
          have hstep : Reader.step ⟨.operand true true bracketed, bs⟩ t.token =
              some ⟨.operand false true false, bs⟩ := by
            rw [Sign.token_of_ofToken? hsign]
            cases s <;> rfl
          dsimp only
          refine (follows_parseCast false false bs ts (by rintro ⟨⟩)).andThen
            (.step hstep (.refl _ _)) (fun f hf => by rw [hf]) fun p hp hdone => ?_
          obtain ⟨e, htakes, hcomplete, hnamed⟩ := hdone
          rw [hp]
          refine ⟨e, .step hstep htakes, hcomplete, fun h => ?_⟩
          obtain ⟨hfalse, -⟩ := hnamed h
          cases hfalse
termination_by (ts.length, 2)

theorem follows_parseCast (signed bracketed : Bool) (bs : List Bracket) (ts : List Located)
    (hsign : signed = true → ∀ t ∈ ts.head?, Sign.ofToken? t.token = none) :
    Follows ⟨.operand signed true bracketed, bs⟩ ts
      (TakesOperand ⟨.operand signed true bracketed, bs⟩ (IsNamed bracketed ts) [] ts)
      (parseCast ts) := by
  rw [parseCast]
  split
  · rename_i typeName rest hc
    have hlen := length_lt_of_castTarget? hc
    obtain ⟨a, b, c, d, tl, hts, hrest, ha, hb, hclose, hd⟩ := exists_of_castTarget? hc
    have htakes : Takes ⟨.operand signed true bracketed, bs⟩ ts ⟨.behindOperand true, bs⟩ rest := by
      rw [hts]
      exact .step (by rw [ha]; rfl) (.step (by rw [hb]; rfl) (.step (by rw [hclose]; rfl)
        (.refl _ _)))
    dsimp only
    split
    · exact ⟨.behindOperand false, htakes.trans (.step rfl (.refl _ _)),
        complete_behindOperand _, by rintro ⟨⟩⟩
    · rename_i hnumber
      -- an operand follows the type, and it is no number, so it is read as one that is not cast
      have hoperand : ¬ ∀ t ∈ rest.head?, t.token ≠ .openParen ∧ ∀ x, t.token ≠ .ident x := by
        intro hother
        subst hrest
        obtain ⟨hparen, hident⟩ := hother d rfl
        obtain ⟨token, i, j⟩ := d
        cases token with
        | ident x => exact hident x rfl
        | openParen => exact hparen rfl
        | number literal => exact hnumber _ _ _ _ hc hlen rfl HEq.rfl HEq.rfl
        | _ => cases hd
      have ih := follows_parsePrimary ⟨.behindOperand true, bs⟩ false false rest (fun _ => rfl) rfl
        (fun hother => absurd hother hoperand) (by rintro ⟨⟩)
      refine ih.andThen htakes (fun f hf => by rw [hf]) fun p hp hdone => ?_
      obtain ⟨e, htakes', hcomplete, hnamed⟩ := hdone
      rw [hp]
      refine ⟨e, htakes.trans htakes', hcomplete, fun h => ?_⟩
      obtain ⟨hfalse, -⟩ := hnamed h
      cases hfalse
  · rename_i hc
    split
    · exact ⟨.behindOperand false, .step rfl (.refl _ _), complete_behindOperand _, by rintro ⟨⟩⟩
    · rename_i hnumber
      refine follows_parsePrimary ⟨.operand signed true bracketed, bs⟩ true bracketed ts
        (fun _ => rfl) rfl (fun hother => ?_) (fun _ => hc)
      refine .unexpected (.refl _ _) (fun t ht => ⟨?_, rfl⟩) (by rintro - ⟨⟩)
      obtain ⟨hparen, hident⟩ := hother t ht
      refine stepOperand_eq_none ?_ fun hsigned => hsign hsigned t ht
      obtain ⟨tl, rfl⟩ := List.head?_eq_some_iff.mp ht
      obtain ⟨token, i, j⟩ := t
      cases token with
      | ident x => exact absurd rfl (hident x)
      | openParen => exact absurd rfl hparen
      | number literal => exact (hnumber _ _ _ _ hc rfl HEq.rfl).elim
      | _ => rfl
termination_by (ts.length, 1)

theorem follows_parsePrimary (s : Reader) (cast bracketed : Bool) (ts : List Located)
    (hname : ∀ x, s.step (.ident x) = some ⟨.behindName bracketed, s.brackets⟩)
    (hbracket : s.step .openParen = some ⟨.operand true true cast, .group :: s.brackets⟩)
    (hother : (∀ t ∈ ts.head?, t.token ≠ .openParen ∧ ∀ x, t.token ≠ .ident x) →
      Stuck s ts (.unexpected ts))
    (hcast : cast = true → castTarget? ts = none) :
    Follows s ts (TakesOperand s (IsNamed bracketed ts) [] ts) (parsePrimary ts) := by
  rw [parsePrimary.eq_def]
  split
  · rename_i f i j i' j' ts
    have hopen : Takes s (⟨.ident f, i, j⟩ :: ⟨.openParen, i', j'⟩ :: ts)
        ⟨.operand true true false, .call :: s.brackets⟩ ts :=
      .step (hname f) (.step rfl (.refl _ _))
    refine (follows_parseArgs s.brackets ts).andThen hopen (fun f hf => by rw [hf])
      fun p hp hdone => ?_
    rw [hp]
    exact ⟨.behindOperand false, hopen.trans hdone, complete_behindOperand _, by rintro ⟨⟩⟩
  · rename_i x i j ts hcall
    refine ⟨.behindName bracketed, .step (hname x) (.refl _ _), ⟨trivial, ?_, by simp⟩,
      fun h => ⟨h, x, i, j, rfl⟩⟩
    intro t ht hop bs
    obtain ⟨tl, rfl⟩ := List.head?_eq_some_iff.mp ht
    obtain ⟨token, k, l⟩ := t
    cases token with
    | openParen => exact (hcall _ _ _ rfl).elim
    | ident | number => exact stepBehind_of_startsOperand hop
    | _ => cases hop
  · rename_i i j ts
    have ih := follows_parseLevels Level.all cast (.group :: s.brackets) ts
    have hopen : Takes s (⟨.openParen, i, j⟩ :: ts)
        ⟨.operand true true cast, .group :: s.brackets⟩ ts := .step hbracket (.refl _ _)
    split
    · rename_i f hp
      rw [hp] at ih
      exact ih.after hopen
    · rename_i hp
      rw [hp] at ih
      obtain ⟨e, htakes, hcomplete, hnamed⟩ := ih
      refine ⟨.behindOperand e.named,
        hopen.trans (htakes.trans (.step (hcomplete.step_eq rfl) (.refl _ _))),
        ⟨trivial, fun t ht hop bs => ?_, by simp⟩, by rintro ⟨⟩⟩
      cases hn : e.named with
      | false => exact stepBehind_of_startsOperand hop
      | true =>
          -- a name in brackets is no group where an operand follows
          obtain ⟨rfl, x, k, l, hts⟩ := hnamed hn
          have hgroup := hcast rfl
          rw [hts] at hgroup
          have hfalse := castTarget?_eq_none hgroup t ht
          rw [hop] at hfalse
          cases hfalse
    · rename_i p hclose hp
      rw [hp] at ih
      obtain ⟨e, htakes, hcomplete, -⟩ := ih
      refine .unexpected (hopen.trans htakes)
        (fun t ht => ⟨?_, hcomplete.behind.step_eq rfl⟩) fun _ => hcomplete.behind.ne_start
      rw [hcomplete.step_eq ht]
      refine stepClosing_group fun hparen => ?_
      obtain ⟨value, rest, shorter⟩ := p
      obtain ⟨tl, rfl⟩ := List.head?_eq_some_iff.mp ht
      obtain ⟨token, k, l⟩ := t
      subst hparen
      exact hclose _ _ _ _ _ rfl
  · rename_i hcall hident hparen
    refine hother fun t ht => ?_
    obtain ⟨tl, rfl⟩ := List.head?_eq_some_iff.mp ht
    obtain ⟨token, i, j⟩ := t
    refine ⟨?_, fun x => ?_⟩
    · rintro rfl
      exact hparen _ _ _ rfl
    · rintro rfl
      exact hident _ _ _ _ rfl
termination_by (ts.length, 0)

theorem follows_parseArgs (bs : List Bracket) (ts : List Located) :
    Follows ⟨.operand true true false, .call :: bs⟩ ts
      (fun rest => Takes ⟨.operand true true false, .call :: bs⟩ ts ⟨.behindOperand false, bs⟩ rest)
      (parseArgs ts) := by
  have ih := follows_parseLevels Level.all false (.call :: bs) ts
  rw [parseArgs]
  split
  · rename_i f hp
    rw [hp] at ih
    exact ih
  · rename_i e i j rest shorter hp
    rw [hp] at ih
    obtain ⟨e, htakes, hcomplete, -⟩ := ih
    exact htakes.trans (.step (hcomplete.step_eq rfl) (.refl _ _))
  · rename_i e i j rest shorter hp
    rw [hp] at ih
    obtain ⟨e, htakes, hcomplete, -⟩ := ih
    have hcomma := htakes.trans (.step (hcomplete.step_eq rfl) (.refl _ _))
    have hs : rest.length < ts.length := Nat.lt_of_succ_lt shorter
    refine (follows_parseArgs bs rest).andThen hcomma (fun f hf => by rw [hf])
      fun q hq hdone => ?_
    rw [hq]
    exact hcomma.trans hdone
  · rename_i p hclose hcomma hp
    rw [hp] at ih
    obtain ⟨e, htakes, hcomplete, -⟩ := ih
    refine .unexpected htakes (fun t ht => ⟨?_, hcomplete.behind.step_eq rfl⟩)
      fun _ => hcomplete.behind.ne_start
    rw [hcomplete.step_eq ht]
    obtain ⟨value, rest, shorter⟩ := p
    obtain ⟨tl, rfl⟩ := List.head?_eq_some_iff.mp ht
    obtain ⟨token, k, l⟩ := t
    refine stepClosing_call ?_ ?_
    · rintro rfl
      exact hclose _ _ _ _ _ rfl
    · rintro rfl
      exact hcomma _ _ _ _ _ rfl
termination_by (ts.length, 8)
decreasing_by
  · exact Prod.Lex.right _ (by decide)
  · exact Prod.Lex.left _ _ (by assumption)

end

theorem follows_parseAssignment {ts : List Located} (hne : ts ≠ []) :
    Follows start ts (fun rest => Takes start ts start rest) (parseAssignment ts) := by
  unfold parseAssignment
  split
  · rename_i target i j i' j' ts
    have hopen : Takes start (⟨.ident target, i, j⟩ :: ⟨.assign, i', j'⟩ :: ts)
        ⟨.operand true true false, []⟩ ts := .step rfl (.step rfl (.refl _ _))
    have ih := follows_parseLevels Level.all false [] ts
    split
    · rename_i f hp
      rw [hp] at ih
      exact ih.after hopen
    · rename_i hp
      rw [hp] at ih
      obtain ⟨e, htakes, hcomplete, -⟩ := ih
      exact hopen.trans (htakes.trans (.step (hcomplete.step_eq rfl) (.refl _ _)))
    · rename_i hp
      rw [hp] at ih
      obtain ⟨e, htakes, hcomplete, -⟩ := ih
      exact hopen.trans (htakes.trans (.step (hcomplete.step_eq rfl) (.refl _ _)))
    · rename_i hp
      rw [hp] at ih
      obtain ⟨e, htakes, hcomplete, -⟩ := ih
      exact .unexpected (hopen.trans htakes) (by simp) fun _ => hcomplete.behind.ne_start
    · rename_i p hsemicolon hcomma hend hp
      rw [hp] at ih
      obtain ⟨e, htakes, hcomplete, -⟩ := ih
      obtain ⟨value, rest, shorter⟩ := p
      cases rest with
      | nil => exact (hend _ _ rfl).elim
      | cons t rest =>
          refine .extra (hopen.trans htakes) (hcomplete.behind.step_eq rfl) ?_
          rw [hcomplete.step_eq rfl]
          obtain ⟨token, k, l⟩ := t
          refine stepClosing_nil ?_ ?_
          · rintro rfl
            exact hcomma _ _ _ _ _ rfl
          · rintro rfl
            exact hsemicolon _ _ _ _ _ rfl
  · rename_i x i j ts hassign
    have htarget : Takes start (⟨.ident x, i, j⟩ :: ts) ⟨.assign, []⟩ ts := .step rfl (.refl _ _)
    refine .unexpected htarget (fun t ht => ⟨?_, rfl⟩) (by rintro - ⟨⟩)
    obtain ⟨tl, rfl⟩ := List.head?_eq_some_iff.mp ht
    obtain ⟨token, k, l⟩ := t
    cases token with
    | assign => exact (hassign _ _ _ rfl).elim
    | _ => rfl
  · rename_i hassign hident
    refine .unexpected (.refl _ _) (fun t ht => ⟨?_, rfl⟩) fun h => absurd h hne
    obtain ⟨tl, rfl⟩ := List.head?_eq_some_iff.mp ht
    obtain ⟨token, k, l⟩ := t
    cases token with
    | ident x => exact (hident _ _ _ _ rfl).elim
    | _ => rfl

theorem follows_parseFrom (seen : List Assignment) (ts : List Located) :
    (∀ as, parseFrom seen ts = .ok as → Takes start ts start []) ∧
      ∀ f, parseFrom seen ts = .error f → Stuck start ts f := by
  fun_induction parseFrom seen ts with
  | case1 seen => exact ⟨fun _ _ => .refl _ _, by rintro f ⟨⟩⟩
  | case2 seen ts hne f hp =>
      have hstuck := follows_parseAssignment hne
      rw [hp] at hstuck
      refine ⟨by rintro as ⟨⟩, fun f' hf => ?_⟩
      obtain rfl := Except.error.inj hf
      exact hstuck
  | case3 seen ts hne p hp ih =>
      have htakes := follows_parseAssignment hne
      rw [hp] at htakes
      exact ⟨fun as h => htakes.trans (ih.1 as h), fun f h => (ih.2 f h).after htakes⟩

end Reader

end FormulaMachine.Infix
