import Reckoner.Proofs.Expressions
import Reckoner.Proofs.Lexemes

/-!
# Expressions pass the checks

The lexemes of a tree's text come in order: an operand is expected at the beginning, behind an
opening parenthesis and behind an operator, and anything else but an operand behind one. Lexemes in
order pass the checks.
-/

namespace Reckoner

open Literal

/-- Lexemes in order; `letters` tells whether variables may be among them and `behindOperand` what is
expected first. -/
inductive Orderly (letters : Bool) : (behindOperand : Bool) → List Lexeme → Prop where
  | nil : Orderly letters true []
  | space (n : Nat) {l : List Lexeme} (rest : Orderly letters true l) :
    Orderly letters true (⟨.space, List.replicate (n + 1) ' '⟩ :: l)
  | closing {l : List Lexeme} (rest : Orderly letters true l) :
    Orderly letters true (⟨.rightParen, [')']⟩ :: l)
  | operator (op : Operator) {l : List Lexeme} (rest : Orderly letters false l) :
    Orderly letters true (⟨.operator op, [op.symbol]⟩ :: l)
  | operatorSpace (op : Operator) (n : Nat) {l : List Lexeme} (rest : Orderly letters false l) :
    Orderly letters true
      (⟨.operator op, [op.symbol]⟩ :: ⟨.space, List.replicate (n + 1) ' '⟩ :: l)
  | number {w : Text} {l : List Lexeme} (rest : Orderly letters true l) :
    Orderly letters false (⟨.number, w⟩ :: l)
  | negative {d : Text} {l : List Lexeme} (hd : IsDecimal d) (rest : Orderly letters true l) :
    Orderly letters false (⟨.operator .minus, ['-']⟩ :: ⟨.number, d⟩ :: l)
  | letter {c : Char} {l : List Lexeme} (hl : letters = true) (rest : Orderly letters true l) :
    Orderly letters false (⟨.letter, [c]⟩ :: l)
  | opening {l : List Lexeme} (rest : Orderly letters false l) :
    Orderly letters false (⟨.leftParen, ['(']⟩ :: l)

namespace Orderly

open Check
open Lexeme (Kind)

variable {letters behindOperand : Bool} {l : List Lexeme}

/-- What stands first where an operand is expected. -/
theorem head_of_false (h : Orderly letters false l) : ∃ a r, l = a :: r ∧ a.isSpace = false ∧
    a.kind ≠ .rightParen ∧ a.isBinaryOnly = false ∧ startsWithOperation l = false := by
  cases h with
  | number rest => exact ⟨_, _, rfl, rfl, by simp, rfl, rfl⟩
  | negative hd rest => exact ⟨_, _, rfl, rfl, by simp, rfl, rfl⟩
  | letter hl rest => exact ⟨_, _, rfl, rfl, by simp, rfl, rfl⟩
  | opening rest => exact ⟨_, _, rfl, rfl, by simp, rfl, rfl⟩

/-- What stands first behind an operand. -/
theorem head_of_true (h : Orderly letters true l) : ∀ a ∈ l.head?,
    a.kind.isWord = false ∧ a.text.head? ≠ some '.' := by
  have hsymbol : ∀ op : Operator, op.symbol ≠ '.' := fun op => (symbol_facts op).2.1
  cases h with
  | nil => simp
  | space n rest => simp [Kind.isWord, List.replicate_succ]
  | closing rest => simp [Kind.isWord]
  | operator op rest => simpa [Kind.isWord] using hsymbol op
  | operatorSpace op n rest => simpa [Kind.isWord] using hsymbol op

theorem operandNext_of_true (h : Orderly letters true l) : operandNext l = false := by
  generalize hb : true = b at h
  induction h with
  | nil => rfl
  | space n rest ih => rw [operandNext_space _ _ (by rfl), ih hb]
  | closing rest => rw [operandNext_cons _ _ (by rfl)]; rfl
  | operator op rest => rw [operandNext_cons _ _ (by rfl)]; rfl
  | operatorSpace op n rest => rw [operandNext_cons _ _ (by rfl)]; rfl
  | number => cases hb
  | negative => cases hb
  | letter => cases hb
  | opening => cases hb

theorem any_pairs_cons {α : Type} (p : α × α → Bool) (a : α) (l : List α) :
    (pairs (a :: l)).any p = (l.head?.any (fun b => p (a, b)) || (pairs l).any p) := by
  cases l <;> simp [pairs]

/-- A condition on neighbours that holds for none of the neighbours that lexemes in order can have
holds nowhere in them. -/
theorem any_pairs_eq_false (p : Lexeme × Lexeme → Bool) (h : Orderly letters behindOperand l)
    (hspace : ∀ n b, p (⟨.space, List.replicate (n + 1) ' '⟩, b) = false)
    (hclosing : ∀ b, b.kind.isWord = false → p (⟨.rightParen, [')']⟩, b) = false)
    (hoperator : ∀ op b, b.kind ≠ .rightParen → p (⟨.operator op, [op.symbol]⟩, b) = false)
    (hnumber : ∀ w b, b.kind.isWord = false → b.text.head? ≠ some '.' →
      p (⟨.number, w⟩, b) = false)
    (hletter : ∀ c b, b.kind.isWord = false → p (⟨.letter, [c]⟩, b) = false)
    (hopening : ∀ b, b.isBinaryOnly = false → p (⟨.leftParen, ['(']⟩, b) = false) :
    (pairs l).any p = false := by
  induction h with
  | nil => rfl
  | @space n l rest ih =>
    rw [any_pairs_cons, ih, Bool.or_false]
    cases l.head? <;> simp [hspace]
  | @closing l rest ih =>
    rw [any_pairs_cons, ih, Bool.or_false]
    cases hl : l.head? with
    | none => rfl
    | some b => exact hclosing b (rest.head_of_true b hl).1
  | @operator op l rest ih =>
    obtain ⟨b, r, rfl, -, hb, -⟩ := rest.head_of_false
    rw [any_pairs_cons, ih, Bool.or_false]
    exact hoperator op b hb
  | @operatorSpace op n l rest ih =>
    obtain ⟨b, r, rfl, -⟩ := rest.head_of_false
    rw [any_pairs_cons, any_pairs_cons, ih, Bool.or_false]
    simp [hoperator, hspace]
  | @number w l rest ih =>
    rw [any_pairs_cons, ih, Bool.or_false]
    cases hl : l.head? with
    | none => rfl
    | some b => exact hnumber w b (rest.head_of_true b hl).1 (rest.head_of_true b hl).2
  | @negative d l hd rest ih =>
    rw [any_pairs_cons, any_pairs_cons, ih, Bool.or_false]
    have hminus : p (⟨.operator .minus, ['-']⟩, ⟨.number, d⟩) = false :=
      hoperator .minus _ (by simp)
    cases hl : l.head? with
    | none => simpa using hminus
    | some b =>
      have hb := hnumber d b (rest.head_of_true b hl).1 (rest.head_of_true b hl).2
      simpa [hb] using hminus
  | @letter c l hl rest ih =>
    rw [any_pairs_cons, ih, Bool.or_false]
    cases hl : l.head? with
    | none => rfl
    | some b => exact hletter c b (rest.head_of_true b hl).1
  | @opening l rest ih =>
    obtain ⟨b, r, rfl, -, -, hb, -⟩ := rest.head_of_false
    rw [any_pairs_cons, ih, Bool.or_false]
    exact hopening b hb

/-- No lexeme is foreign to expressions, and there are letters only where there may be. -/
theorem kind_of_mem (h : Orderly letters behindOperand l) :
    ∀ a ∈ l, a.kind ≠ .dot ∧ a.kind ≠ .other ∧ (letters = false → a.kind ≠ .letter) := by
  induction h with
  | nil => simp
  | space n rest ih => simpa using ih
  | closing rest ih => simpa using ih
  | operator op rest ih => simpa using ih
  | operatorSpace op n rest ih => simpa using ih
  | number rest ih => simpa using ih
  | negative hd rest ih => simpa using ih
  | letter hl rest ih => simpa [hl] using ih
  | opening rest ih => simpa using ih

/-- No operator stands at the end. -/
theorem isOperator_getLast (h : Orderly letters behindOperand l) :
    ∀ a ∈ l.getLast?, a.isOperator = false := by
  have hcons : ∀ {a : Lexeme} {l : List Lexeme}, (l = [] → a.isOperator = false) →
      (∀ b ∈ l.getLast?, b.isOperator = false) → ∀ b ∈ (a :: l).getLast?, b.isOperator = false := by
    intro a l ha hl b hb
    cases l with
    | nil =>
      obtain rfl : a = b := by simpa using hb
      exact ha rfl
    | cons c l => exact hl b (by simpa using hb)
  induction h with
  | nil => simp
  | space n rest ih => exact hcons (fun _ => rfl) ih
  | closing rest ih => exact hcons (fun _ => rfl) ih
  | operator op rest ih =>
    obtain ⟨a, r, rfl, -⟩ := rest.head_of_false
    exact hcons (by simp) ih
  | operatorSpace op n rest ih => exact hcons (by simp) (hcons (fun _ => rfl) ih)
  | number rest ih => exact hcons (fun _ => rfl) ih
  | negative hd rest ih => exact hcons (by simp) (hcons (fun _ => rfl) ih)
  | letter hl rest ih => exact hcons (fun _ => rfl) ih
  | opening rest ih => exact hcons (fun _ => rfl) ih

theorem variableNames (h : Orderly letters behindOperand l) : Check.variableNames.fails l = false := by
  apply any_pairs_eq_false _ h
  · simp [Kind.isWord]
  · simp [Kind.isWord]
  · simp [Kind.isWord]
  · intro w b hb
    simp [hb]
  · intro c b hb
    simp [hb]
  · simp [Kind.isWord]

theorem characters (h : Orderly false false l) : Check.characters.fails l = false := by
  obtain ⟨a, r, he, -⟩ := h.head_of_false
  simp only [Check.characters, Bool.or_eq_false_iff, List.any_eq_false, Bool.not_eq_true,
    beq_eq_false_iff_ne]
  refine ⟨by simp [he], fun b hb => ?_⟩
  obtain ⟨-, hother, hletter⟩ := h.kind_of_mem b hb
  exact ⟨hletter rfl, hother⟩

theorem numberFormat (h : Orderly letters behindOperand l) : Check.numberFormat.fails l = false := by
  simp only [Check.numberFormat, Bool.or_eq_false_iff]
  constructor
  · rw [List.any_eq_false]
    intro a ha
    simpa using (h.kind_of_mem a ha).1
  · apply any_pairs_eq_false _ h
    · simp [Lexeme.isNumber]
    · simp [Lexeme.isNumber]
    · simp [Lexeme.isNumber]
    · intro w b _ hb
      simp [hb]
    · simp [Lexeme.isNumber]
    · simp [Lexeme.isNumber]

theorem missingOperators (h : Orderly letters behindOperand l) :
    Check.missingOperators.fails l = false := by
  have hoperand : ∀ {a : Lexeme} {l : List Lexeme}, a.isSpace = false → Orderly letters true l →
      Check.missingOperators.fails l = false → Check.missingOperators.fails (a :: l) = false := by
    intro a l ha hl hm
    rw [missingOperators_cons _ _ ha, hl.operandNext_of_true, hm]
    simp
  have hother : ∀ {a : Lexeme} {l : List Lexeme}, a.isSpace = false → endsOperand a = false →
      Check.missingOperators.fails l = false → Check.missingOperators.fails (a :: l) = false := by
    intro a l ha he hm
    rw [missingOperators_cons _ _ ha, he, hm]
    simp
  induction h with
  | nil => rfl
  | space n rest ih => rw [missingOperators_space _ _ (by rfl), ih]
  | closing rest ih => exact hoperand (by rfl) rest ih
  | operator op rest ih => exact hother (by rfl) (by rfl) ih
  | operatorSpace op n rest ih =>
    exact hother (by rfl) (by rfl) (by rw [missingOperators_space _ _ (by rfl), ih])
  | number rest ih => exact hoperand (by rfl) rest ih
  | negative hd rest ih => exact hother (by rfl) (by rfl) (hoperand (by rfl) rest ih)
  | letter hl rest ih => exact hoperand (by rfl) rest ih
  | opening rest ih => exact hother (by rfl) (by rfl) ih

theorem operatorAdjacency (h : Orderly letters behindOperand l) :
    Check.operatorAdjacency.fails l = false := by
  have hmeet : ∀ {a : Lexeme} {l : List Lexeme}, a.isOperator = false →
      operatorsMeet (a :: l) = operatorsMeet l := by
    intro a l ha
    simp [operatorsMeet, ha]
  rw [Check.operatorAdjacency]
  dsimp only
  induction h with
  | nil => rfl
  | space n rest ih => rw [hmeet (by rfl), ih]
  | closing rest ih => rw [hmeet (by rfl), ih]
  | operator op rest ih =>
    obtain ⟨a, r, rfl, hs, -, -, hstarts⟩ := rest.head_of_false
    rw [operatorsMeet, ih]
    simp [hs, hstarts]
  | operatorSpace op n rest ih =>
    obtain ⟨a, r, rfl, hs, -, -, hstarts⟩ := rest.head_of_false
    have hspace : (⟨.space, List.replicate (n + 1) ' '⟩ : Lexeme).isSpace = true := rfl
    rw [operatorsMeet, hmeet (by rfl), ih]
    simp [hspace, hs, hstarts]
  | number rest ih => rw [hmeet (by rfl), ih]
  | @negative d l hd rest ih =>
    have hnumber : (⟨.number, d⟩ : Lexeme).isSpace = false := rfl
    rw [operatorsMeet, hmeet (by rfl), ih]
    simp [hnumber, startsWithOperation, Lexeme.isOperator]
  | letter hl rest ih => rw [hmeet (by rfl), ih]
  | opening rest ih => rw [hmeet (by rfl), ih]

theorem operatorBoundaries (h : Orderly letters false l) : Check.operatorBoundaries.fails l = false := by
  have hlast : l.getLast?.any (·.isOperator) = false := by
    cases hl : l.getLast? with
    | none => rfl
    | some a => exact h.isOperator_getLast a hl
  have hfirst : l.head?.any (·.isBinaryOnly) = false := by
    obtain ⟨a, r, rfl, -, -, hb, -⟩ := h.head_of_false
    exact hb
  simp only [Check.operatorBoundaries, hlast, hfirst, Bool.or_false, Bool.false_or]
  apply any_pairs_eq_false _ h
  · simp [Lexeme.isOperator]
  · simp [Lexeme.isOperator]
  · intro op b hb
    simp [hb]
  · simp [Lexeme.isOperator]
  · simp [Lexeme.isOperator]
  · intro b hb
    simp [hb, Lexeme.isOperator]

/-- Lexemes in order without letters pass the checks of an expression whose variables have been
replaced. -/
theorem closed (h : Orderly false false l) :
    ∀ check ∈ Check.closed, check.fails l = false := by
  simp only [Check.closed, List.mem_cons, List.not_mem_nil, or_false, forall_eq_or_imp, forall_eq]
  exact ⟨h.characters, h.numberFormat, h.missingOperators, h.operatorAdjacency,
    h.operatorBoundaries⟩

/-- A minus sign may stand in front of lexemes in order. -/
theorem closed_minus (h : Orderly false false l) :
    ∀ check ∈ Check.closed, check.fails (⟨.operator .minus, ['-']⟩ :: l) = false := by
  have hcharacters := h.characters
  have hformat := h.numberFormat
  have hmissing := h.missingOperators
  have hadjacency := h.operatorAdjacency
  have hboundaries := h.operatorBoundaries
  obtain ⟨a, r, rfl, hspace, hparen, hbinary, hstarts⟩ := h.head_of_false
  simp only [Check.closed, List.mem_cons, List.not_mem_nil, or_false, forall_eq_or_imp, forall_eq]
  refine ⟨?_, ?_, ?_, ?_, ?_⟩
  · simpa [Check.characters] using hcharacters
  · simp only [Check.numberFormat, any_pairs_cons] at hformat ⊢
    simpa [Lexeme.isNumber] using hformat
  · rw [missingOperators_cons _ _ (by rfl), hmissing]
    rfl
  · simp only [Check.operatorAdjacency] at hadjacency ⊢
    rw [operatorsMeet, hadjacency]
    simp [hspace, hstarts]
  · simp only [Check.operatorBoundaries, any_pairs_cons] at hboundaries ⊢
    simp only [List.head?_cons, Option.any_some, Bool.or_eq_false_iff] at hboundaries ⊢
    refine ⟨⟨rfl, by simpa using hboundaries.1.2⟩, ?_, hboundaries.2⟩
    simp [hparen, Lexeme.isOperator]

theorem typed_minus {a b : Lexeme} (h : Orderly letters false (a :: b :: l)) :
    ∀ check ∈ Check.typed, check.fails (⟨.operator .minus, ['-']⟩ :: a :: b :: l) = false := by
  have hnames := h.variableNames
  simp only [Check.typed, List.mem_cons, List.not_mem_nil, or_false, forall_eq_or_imp, forall_eq]
  refine ⟨rfl, ?_⟩
  simp only [Check.variableNames] at hnames ⊢
  rw [any_pairs_cons, hnames]
  simp [Kind.isWord]

end Orderly

end Reckoner
