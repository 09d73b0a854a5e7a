import Reckoner.Operator
import Reckoner.Number.Literal

/-!
# Lexemes

A text is cut into lexemes that together are the text. At each place the longest lexeme is taken: an
unsigned literal, a run of spaces, or else a single character. Lexemes serve the checks only;
evaluation works on the text itself.
-/

namespace Reckoner

/-- What a lexeme is; a character that has no part in expressions is `other`. -/
inductive Lexeme.Kind where
  | number
  | letter
  /-- A point that does not begin a fraction. -/
  | dot
  | operator (op : Operator)
  | leftParen
  | rightParen
  | space
  | other
  deriving DecidableEq, Repr

structure Lexeme where
  kind : Lexeme.Kind
  text : Text
  deriving DecidableEq, Repr

namespace Lexeme

/-- The kind of a lexeme that is one character, no digit and no space. -/
def Kind.ofChar (c : Char) : Kind :=
  match Operator.ofChar? c with
  | some op => operator op
  | none =>
    if c.isAlpha then letter
    else if c == '.' then dot
    else if c == '(' then leftParen
    else if c == ')' then rightParen
    else other

/-- The lexeme at the beginning of `c :: t`. -/
def first (c : Char) (t : Text) : Lexeme :=
  match Literal.unsigned? (c :: t) with
  | some (number, _) => ⟨.number, number⟩
  | none => if c == ' ' then ⟨.space, Text.spaces (c :: t)⟩ else ⟨.ofChar c, [c]⟩

/-- The lexemes of a text whose first `skip` characters belong to the lexeme in front. -/
def listFrom : (skip : Nat) → Text → List Lexeme
  | _, [] => []
  | 0, c :: t => first c t :: listFrom ((first c t).text.length - 1) t
  | skip + 1, _ :: t => listFrom skip t

def list (t : Text) : List Lexeme := listFrom 0 t

theorem listFrom_eq_list_drop (skip : Nat) (t : Text) : listFrom skip t = list (t.drop skip) := by
  induction t generalizing skip with
  | nil => cases skip <;> rfl
  | cons c t ih =>
    cases skip with
    | zero => rfl
    | succ skip => simpa [listFrom] using ih skip

@[simp] theorem list_nil : list [] = [] := rfl

theorem list_cons (c : Char) (t : Text) :
    list (c :: t) = first c t :: list (t.drop ((first c t).text.length - 1)) := by
  rw [list, listFrom, listFrom_eq_list_drop]

def isSpace (l : Lexeme) : Bool := l.kind == .space

def isNumber (l : Lexeme) : Bool := l.kind == .number

def isOperator (l : Lexeme) : Bool :=
  match l.kind with
  | .operator _ => true
  | _ => false

def isBinaryOnly (l : Lexeme) : Bool := l.isOperator && l.kind != .operator .minus

def Kind.isWord : Kind → Bool
  | number | letter | dot => true
  | _ => false

example : (list "2*(a - .5)".toList).map (·.kind) =
    [.number, .operator .times, .leftParen, .letter, .space, .operator .minus, .space, .number,
      .rightParen] := by decide
example : list "1.5.".toList = [⟨.number, "1.5".toList⟩, ⟨.dot, ".".toList⟩] := by decide

end Lexeme

end Reckoner
