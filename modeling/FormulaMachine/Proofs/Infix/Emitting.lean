import FormulaMachine.Proofs.Infix.Parser
import FormulaMachine.Proofs.Results

namespace FormulaMachine

namespace Postfix

@[simp] theorem text_nil : text [] = "" := rfl

theorem text_append (code code' : List Instruction) :
    text (code ++ code') = text code ++ text code' := by
  simp [text]

theorem text_singleton (i : Instruction) : text [i] = i.text ++ "\n" := by
  simp [text]

end Postfix

namespace Infix

mutual

def Expr.actions : Expr → List Action
  | .name x => [.addOperand (.ident x)]
  | .number literal => [.addOperand (.number literal)]
  | .castNumber typeName literal => [.pushTypecast typeName, .addOperandTypecast literal]
  | .cast typeName e => .pushTypecast typeName :: (e.actions ++ [.popTypecast])
  | .signed s e => .pushOperator (.sign s) :: (e.actions ++ [.popOperatorAlternate])
  | .binary op l r =>
      l.actions ++ .pushOperator (.binary op.opcode) :: (r.actions ++ [.popOperator])
  | .group e => e.actions
  | .call f args => .pushOperator (.function f) :: (args.actions ++ [.popOperator])

def Args.actions : Args → List Action
  | .last e => e.actions
  | .more e rest => e.actions ++ rest.actions

end

def Assignment.actions (a : Assignment) : List Action :=
  .storeAssignment a.target :: (a.value.actions ++ [.popAssignment])

namespace Emitter

variable (e : Emitter)

def run (actions : List Action) : Emitter :=
  actions.foldl execute e

@[simp] theorem run_nil : e.run [] = e := rfl

@[simp] theorem run_cons (a : Action) (as : List Action) :
    e.run (a :: as) = (e.execute a).run as := rfl

@[simp] theorem run_append (as bs : List Action) : e.run (as ++ bs) = (e.run as).run bs :=
  List.foldl_append

def write (code : List Postfix.Instruction) : Emitter :=
  { e with output := e.output ++ Postfix.text code }

@[simp] theorem write_nil : e.write [] = e := by
  simp [write]

@[simp] theorem write_append (code code' : List Postfix.Instruction) :
    e.write (code ++ code') = (e.write code).write code' := by
  simp [write, Postfix.text_append, String.append_assoc]

theorem line_words (i : Postfix.Instruction) : e.line i.words = e.write [i] := by
  rw [line, write, Postfix.text_singleton, Postfix.Instruction.text]

section Operators

variable (code : List Postfix.Instruction) {e' : Emitter} {op : PendingOp}

theorem execute_popOperator_binary (opcode : String) :
    ((e.execute (.pushOperator (.binary opcode))).write code).execute .popOperator =
      (e.write code).write [.operator opcode] :=
  line_words (e.write code) (.operator opcode)

theorem execute_popOperator_function (name : String) :
    ((e.execute (.pushOperator (.function name))).write code).execute .popOperator =
      (e.write code).write [.operator (Text.uppercase name)] :=
  line_words (e.write code) (.operator (Text.uppercase name))

theorem execute_popOperatorAlternate_sign (s : Sign) :
    ((e.execute (.pushOperator (.sign s))).write code).execute .popOperatorAlternate =
      (e.write code).write s.code := by
  cases s with
  | plus => exact ((e.write code).write_nil).symm
  | minus => exact line_words (e.write code) (.operator "NEG")
  | not => exact line_words (e.write code) (.operator "NOT")

theorem execute_popTypecast (typeName : String) :
    ((e.execute (.pushTypecast typeName)).write code).execute .popTypecast =
      (e.write code).write [.cast typeName] :=
  line_words (e.write code) (.cast typeName)

theorem execute_addOperandTypecast (typeName literal : String) :
    (e.execute (.pushTypecast typeName)).execute (.addOperandTypecast literal) =
      e.write [.const (some typeName) literal] :=
  line_words e (.const (some typeName) literal)

theorem execute_popAssignment (target : String) :
    ((e.execute (.storeAssignment target)).write code).execute .popAssignment =
      { (e.write code).write [.write target] with target := none } :=
  line_words { e.write code with target := none } (.write target)

end Operators

end Emitter

open Emitter

mutual

theorem Expr.run_actions (e : Emitter) (x : Expr) : e.run x.actions = e.write x.code := by
  cases x with
  | name x => exact line_words e (.read x)
  | number literal => exact line_words e (.const none literal)
  | castNumber typeName literal => exact execute_addOperandTypecast e typeName literal
  | cast typeName x =>
      simp only [Expr.actions, Expr.code, run_cons, run_append, run_nil, Expr.run_actions _ x,
        execute_popTypecast, write_append]
  | signed s x =>
      simp only [Expr.actions, Expr.code, run_cons, run_append, run_nil, Expr.run_actions _ x,
        execute_popOperatorAlternate_sign, write_append]
  | binary op l r =>
      simp only [Expr.actions, Expr.code, run_cons, run_append, run_nil, Expr.run_actions _ l,
        Expr.run_actions _ r, execute_popOperator_binary, write_append]
  | group x => exact Expr.run_actions e x
  | call f args =>
      simp only [Expr.actions, Expr.code, run_cons, run_append, run_nil, Args.run_actions _ args,
        execute_popOperator_function, write_append]

theorem Args.run_actions (e : Emitter) (args : Args) : e.run args.actions = e.write args.code := by
  cases args with
  | last x => exact Expr.run_actions e x
  | more x rest =>
      simp only [Args.actions, Args.code, run_append, Expr.run_actions _ x,
        Args.run_actions _ rest, write_append]

end

theorem Assignment.run_actions (e : Emitter) (a : Assignment) :
    e.run a.actions = { e.write a.code with target := none } := by
  simp only [Assignment.actions, Assignment.code, run_cons, run_append, run_nil,
    a.value.run_actions, execute_popAssignment, write_append]

theorem run_statements {e : Emitter} (h : e.target = none) (as : List Assignment) :
    e.run (as.flatMap Assignment.actions) = e.write (programCode as) := by
  induction as generalizing e with
  | nil => exact e.write_nil.symm
  | cons a as ih =>
      have hclosed : { e.write a.code with target := none } = e.write a.code := by
        rw [write, h]
      rw [List.flatMap_cons, run_append, a.run_actions, hclosed, ih (e := e.write a.code) h,
        ← write_append]
      rfl

mutual

theorem emitLevels_eq (ls : List Level) (e : Emitter) (ts : List Located) :
    emitLevels ls e ts = (parseLevels ls ts).map (.map fun x => e.run x.actions) := by
  match ls with
  | [] => rw [emitLevels, parseLevels, emitOperand_eq]
  | l :: ls =>
      rw [emitLevels, parseLevels, emitLevels_eq ls e ts]
      cases parseLevels ls ts with
      | error f => rfl
      | ok p =>
          have hshorter := p.shorter
          simp only [Except.map, Parsed.value_map, Parsed.rest_map]
          rw [emitChain_eq l ls e p.value p.rest]
          cases parseChain l ls p.value p.rest <;> rfl
termination_by (ts.length, ls.length + 3)

theorem emitChain_eq (l : Level) (ls : List Level) (e : Emitter) (left : Expr)
    (ts : List Located) :
    emitChain l ls (e.run left.actions) ts =
      (parseChain l ls left ts).map (.map fun x => e.run x.actions) := by
  match ts with
  | [] => rw [emitChain, parseChain]; rfl
  | t :: ts =>
      rw [emitChain, parseChain]
      cases binaryAt? l t with
      | none => rfl
      | some op =>
          simp only [emitLevels_eq ls _ ts]
          cases parseLevels ls ts with
          | error f => rfl
          | ok p =>
              have hshorter := p.shorter
              have hrun : (((e.run left.actions).execute (.pushOperator (.binary op.opcode))).run
                  p.value.actions).execute .popOperator =
                  e.run (Expr.binary op left p.value).actions := by
                simp [Expr.actions]
              simp only [Except.map, Parsed.value_map, Parsed.rest_map]
              rw [hrun, emitChain_eq l ls e _ p.rest]
              cases parseChain l ls (.binary op left p.value) p.rest <;> rfl
termination_by (ts.length, 0)

theorem emitOperand_eq (e : Emitter) (ts : List Located) :
    emitOperand e ts = (parseOperand ts).map (.map fun x => e.run x.actions) := by
  match ts with
  | [] => rw [emitOperand, parseOperand]; rfl
  | t :: ts =>
      rw [emitOperand, parseOperand]
      cases Sign.ofToken? t.token with
      | none => exact emitCast_eq e (t :: ts)
      | some s =>
          simp only [emitCast_eq _ ts]
          cases parseCast ts with
          | error f => rfl
          | ok p => simp [Except.map, Parsed.map, Parsed.within, Expr.actions]
termination_by (ts.length, 2)

theorem emitCast_eq (e : Emitter) (ts : List Located) :
    emitCast e ts = (parseCast ts).map (.map fun x => e.run x.actions) := by
  rw [emitCast]
  split
  · rename_i typeName rest hc
    have hlen := length_lt_of_castTarget? hc
    rw [parseCast]
    split
    · rename_i typeName' rest' hc'
      obtain ⟨rfl, rfl⟩ : typeName = typeName' ∧ rest = rest' := by simpa using hc.symm.trans hc'
      dsimp only
      split
      · rfl
      · simp only [emitPrimary_eq _ rest]
        cases parsePrimary rest with
        | error f => rfl
        | ok p => simp [Except.map, Parsed.map, Parsed.within, Expr.actions]
    · rename_i hc'
      exact absurd (hc.symm.trans hc') (by simp)
  · rename_i hnone
    split
    · rw [parseCast_number hnone]
      rfl
    · rename_i hnumber
      have hparse : parseCast ts = parsePrimary ts :=
        parseCast_eq_parsePrimary hnone <| by
          rintro n i j tl rfl
          exact hnumber n i j tl hnone rfl .rfl
      rw [hparse]
      exact emitPrimary_eq e ts
termination_by (ts.length, 1)

theorem emitPrimary_eq (e : Emitter) (ts : List Located) :
    emitPrimary e ts = (parsePrimary ts).map (.map fun x => e.run x.actions) := by
  rw [emitPrimary.eq_def]
  split
  · rename_i f _ _ _ _ rest
    rw [parsePrimary, emitArgs_eq _ rest]
    cases parseArgs rest with
    | error f => rfl
    | ok p => simp [Except.map, Parsed.map, Parsed.within, Expr.actions]
  · rename_i hcall
    rw [parsePrimary]
    · rfl
    · exact hcall
  · rename_i rest
    rw [parsePrimary, emitLevels_eq _ _ rest]
    cases parseLevels Level.all rest with
    | error f => rfl
    | ok p =>
        obtain ⟨x, _ | ⟨⟨t, _, _⟩, us⟩, shorter⟩ := p
        · rfl
        · cases t <;> rfl
  · rename_i hcall hname hgroup
    rw [parsePrimary]
    · rfl
    · exact hcall
    · exact hname
    · exact hgroup
termination_by (ts.length, 0)

theorem emitArgs_eq (e : Emitter) (ts : List Located) :
    emitArgs e ts = (parseArgs ts).map (.map fun args => e.run args.actions) := by
  rw [emitArgs, parseArgs, emitLevels_eq]
  cases parseLevels Level.all ts with
  | error f => rfl
  | ok p =>
      obtain ⟨x, _ | ⟨⟨t, _, _⟩, us⟩, shorter⟩ := p
      · rfl
      · have hshorter : us.length < ts.length := Nat.lt_of_succ_lt shorter
        cases t
        case comma =>
          simp only [Except.map, Parsed.map]
          rw [emitArgs_eq _ us]
          cases parseArgs us with
          | error f => rfl
          | ok q => simp [Except.map, Parsed.map, Parsed.within, Args.actions]
        all_goals rfl
termination_by (ts.length, 8)
decreasing_by
  · exact Prod.Lex.right _ (by decide)
  · exact Prod.Lex.left _ _ hshorter

end

theorem emitAssignment_eq (e : Emitter) (ts : List Located) :
    emitAssignment e ts = (parseAssignment ts).map (.map fun a => e.run a.actions) := by
  unfold emitAssignment
  split
  · rename_i rest
    rw [parseAssignment, emitLevels_eq]
    cases parseLevels Level.all rest with
    | error f => rfl
    | ok p =>
        obtain ⟨x, _ | ⟨⟨t, _, _⟩, us⟩, shorter⟩ := p
        · rfl
        · cases t
          case semicolon | comma => simp [Except.map, Parsed.map, Parsed.within, Assignment.actions]
          all_goals rfl
  · rename_i hassign
    rw [parseAssignment]
    · rfl
    · exact hassign
  · rename_i hassign htarget
    rw [parseAssignment]
    · rfl
    · exact hassign
    · exact htarget

theorem emitProgram_eq (e : Emitter) (seen : List Assignment) (ts : List Located) :
    emitProgram (e.run (seen.reverse.flatMap Assignment.actions)) ts =
      (parseFrom seen ts).map fun as => e.run (as.flatMap Assignment.actions) := by
  fun_induction parseFrom seen ts with
  | case1 seen => rw [emitProgram]; rfl
  | case2 seen ts hne f hf => rw [emitProgram, if_neg hne, emitAssignment_eq, hf]; rfl
  | case3 seen ts hne p hp ih =>
      rw [emitProgram, if_neg hne, emitAssignment_eq, hp, ← ih]
      simp [Except.map]

theorem emit_eq (ts : List Located) :
    emit ts = (parse ts).map fun as => ⟨Postfix.text (programCode as), [], [], none⟩ := by
  unfold emit parse
  split
  · rfl
  · have hrun := emitProgram_eq .new [] ts
    simp only [run_statements (e := .new) rfl] at hrun
    rw [show emitProgram .new ts = _ from hrun]
    cases parseFrom [] ts with
    | error f => rfl
    | ok as =>
        have hwrite : Emitter.new.write (programCode as) =
            ⟨Postfix.text (programCode as), [], [], none⟩ := by
          simp [write, new]
        exact congrArg Except.ok hwrite

variable [Lexicon]

theorem emitText_of_lex {text : String} {ts : List Located} (h : lex text = .ok ts) :
    emitText text = (parse ts).map fun as => ⟨Postfix.text (programCode as), [], [], none⟩ := by
  rw [emitText, h]
  exact emit_eq ts

theorem toPostfix_of_lex {text : String} {ts : List Located} (h : lex text = .ok ts) :
    toPostfix text = (parse ts).map fun as => Postfix.text (programCode as) := by
  rw [toPostfix, emitText_of_lex h]
  cases parse ts <;> rfl

theorem lex_of_emitText {text : String} {e : Emitter} (h : emitText text = .ok e) :
    ∃ ts, lex text = .ok ts := by
  unfold emitText at h
  split at h
  · cases h
  · exact ⟨_, ‹_›⟩

end Infix

end FormulaMachine
