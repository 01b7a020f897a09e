import FormulaMachine.Infix.Token
import FormulaMachine.Text.Unicode

namespace FormulaMachine.Infix

def byteLength : List Char → Nat
  | [] => 0
  | c :: cs => c.utf8Size + byteLength cs

theorem byteLength_append (cs ds : List Char) :
    byteLength (cs ++ ds) = byteLength cs + byteLength ds := by
  induction cs with
  | nil => simp [byteLength]
  | cons c cs ih => simp [byteLength, ih, Nat.add_assoc]

inductive Scan where
  | skip (more : Nat)
  | token (t : Token) (more : Nat)
  | fault (start stop : Nat) (cause : SyntaxCause)
  deriving DecidableEq, Repr

namespace Scan

section Characters

variable [Text.Characters]

def startsIdentifier (c : Char) : Bool :=
  Text.isXidStart c || c == '_'

def continuesIdentifier (c : Char) : Bool :=
  Text.isXidContinue c || c == '.'

def startsNumber (c : Char) : Bool :=
  c.isDigit || c == '.'

def countWhile (p : Char → Bool) (cs : List Char) : Nat :=
  (cs.takeWhile p).length

def fractionLength : List Char → Nat
  | '.' :: cs => 1 + countWhile Text.isDecimalDigit cs
  | _ => 0

def exponentDigits (before : Nat) (cs : List Char) : Nat :=
  match countWhile Text.isDecimalDigit cs with
  | 0 => 0
  | n => before + n

def exponentLength : List Char → Nat
  | c :: '+' :: cs => if c = 'e' ∨ c = 'E' then exponentDigits 2 cs else 0
  | c :: '-' :: cs => if c = 'e' ∨ c = 'E' then exponentDigits 2 cs else 0
  | c :: cs => if c = 'e' ∨ c = 'E' then exponentDigits 1 cs else 0
  | [] => 0

def numberLength (cs : List Char) : Nat :=
  let whole := countWhile Text.isDecimalDigit cs
  let fraction := fractionLength (cs.drop whole)
  whole + fraction + exponentLength (cs.drop (whole + fraction))

end Characters

end Scan

class Lexicon extends Text.Characters where
  matchLength : List Char → Nat
  matchLength_eq (cs : List Char) : matchLength cs = Scan.numberLength cs

instance lexicon : Lexicon where
  toCharacters := Text.unicode
  matchLength := @Scan.numberLength Text.unicode
  matchLength_eq _ := rfl

section Lexicon

variable [Lexicon]

namespace Scan

-- A number has an ASCII digit; a point alone is none.
def number (cs : List Char) : Scan :=
  let lexeme := cs.take (Lexicon.matchLength cs)
  if lexeme.any Char.isDigit then .token (.number (String.ofList lexeme)) (lexeme.length - 1)
  else .fault 0 1 .invalidToken

def identifier (c : Char) (cs : List Char) : Scan :=
  let more := cs.takeWhile continuesIdentifier
  .token (.ident (String.ofList (c :: more))) more.length

def quoted (cs : List Char) : Scan :=
  let name := cs.takeWhile (· != '"')
  if name.length = cs.length then .fault 0 (1 + byteLength cs) .unclosedQuote
  else if name = [] then .fault 0 2 .invalidToken
  else match name.dropWhile (fun c => !Text.isBlank c) with
    | [] => .token (.ident (String.ofList name)) (name.length + 1)
    | c :: _ =>
        let start := 1 + byteLength (name.takeWhile fun c => !Text.isBlank c)
        .fault start (start + c.utf8Size) .invalidToken

def commentLengthFrom? (n : Nat) : List Char → Option Nat
  | '*' :: '/' :: _ => some (n + 2)
  | _ :: cs => commentLengthFrom? (n + 1) cs
  | [] => none

def slash : List Char → Scan
  | '/' :: cs => .skip (1 + countWhile (· != '\n') cs)
  | '*' :: cs => match commentLengthFrom? 1 cs with
    | some n => .skip n
    | none => .fault 0 (2 + byteLength cs) .unclosedComment
  | _ => .token .divide 0

def oneOrTwo (second : Char) (two one : Token) : List Char → Scan
  | c :: _ => if c = second then .token two 1 else .token one 0
  | [] => .token one 0

def ofChars (c : Char) (cs : List Char) : Scan :=
  match c with
  | '/' => slash cs
  | '=' => oneOrTwo '=' .eq .assign cs
  | '!' => oneOrTwo '=' .neq .not cs
  | '<' => oneOrTwo '=' .lte .lt cs
  | '>' => oneOrTwo '=' .gte .gt cs
  | '&' => oneOrTwo '&' .and .and cs
  | '|' => oneOrTwo '|' .or .or cs
  | '^' => .token .xor 0
  | '-' => .token .minus 0
  | '+' => .token .plus 0
  | '*' => .token .times 0
  | '(' => .token .openParen 0
  | ')' => .token .closeParen 0
  | ',' => .token .comma 0
  | ';' => .token .semicolon 0
  | '"' => quoted cs
  | c =>
      if startsIdentifier c then identifier c cs
      else if startsNumber c then number (c :: cs)
      else if Text.isBlank c then .skip 0
      else .fault 0 c.utf8Size .unrecognizedToken

end Scan

def lexFrom (seen : List Located) (pos : Nat) : List Char → Except SyntaxError (List Located)
  | [] => .ok seen.reverse
  | c :: cs =>
      match Scan.ofChars c cs with
      | .skip n => lexFrom seen (pos + byteLength (c :: cs.take n)) (cs.drop n)
      | .token t n =>
          let stop := pos + byteLength (c :: cs.take n)
          lexFrom (⟨t, pos, stop⟩ :: seen) stop (cs.drop n)
      | .fault a b cause => .error (.between (pos + a) (pos + b) cause)
termination_by cs => cs.length
decreasing_by all_goals simp only [List.length_drop, List.length_cons]; omega

def lex (text : String) : Except SyntaxError (List Located) :=
  lexFrom [] 0 text.toList

end Lexicon

end FormulaMachine.Infix
