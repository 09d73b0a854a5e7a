import Reckoner.Proofs.Termination

/-!
# Signs

Negative literals are counted from the left. A counted literal has a minus sign and, unless it opens
the text, an operator in front of that, so at most half of the operators can be signs.
-/

namespace Reckoner

open Literal
open Operator (Level)

def operatorsIn (t : Text) : Nat := t.countP isOperatorChar

@[simp] theorem operatorsIn_nil : operatorsIn [] = 0 := rfl

@[simp] theorem operatorsIn_append (s t : Text) :
    operatorsIn (s ++ t) = operatorsIn s + operatorsIn t := by
  simp [operatorsIn]

theorem operatorsIn_symbol_cons (op : Operator) (t : Text) :
    operatorsIn (op.symbol :: t) = operatorsIn t + 1 := by
  simp [operatorsIn]

theorem operatorsIn_eq_zero {t : Text} (h : ∀ c ∈ t, isOperatorChar c = false) :
    operatorsIn t = 0 := by
  rw [operatorsIn, List.countP_eq_zero]
  intro c hc
  simp [h c hc]

theorem operatorsIn_spaces (n : Nat) : operatorsIn (List.replicate n ' ') = 0 :=
  operatorsIn_eq_zero (not_operator_spaces n)

theorem minusLiteral?_spec {t number : Text} (h : minusLiteral? t = some number) :
    ∃ w rest, (IsDecimal w ∨ IsFraction w) ∧ number = '-' :: w ∧ t = number ++ rest := by
  unfold minusLiteral? at h
  split at h
  · next u =>
    obtain ⟨⟨w, rest⟩, hw, rfl⟩ := Option.map_eq_some_iff.1 h
    refine ⟨w, rest, (isLiteral_of_unsigned? hw).1, rfl, ?_⟩
    rw [← append_of_unsigned? hw, List.cons_append]
  · simp at h

theorem operatorMinusLiteral?_spec {t number : Text} (h : operatorMinusLiteral? t = some number) :
    ∃ (op : Operator) (n : Nat) (w rest : Text), (IsDecimal w ∨ IsFraction w) ∧
      number = op.symbol :: (List.replicate n ' ' ++ '-' :: w) ∧ t = number ++ rest := by
  cases t with
  | nil => simp [operatorMinusLiteral?] at h
  | cons c t =>
    simp only [operatorMinusLiteral?] at h
    split at h
    · next hc =>
      obtain ⟨minus, hm, rfl⟩ := Option.map_eq_some_iff.1 h
      obtain ⟨w, rest, hw, rfl, ht⟩ := minusLiteral?_spec hm
      obtain ⟨op, rfl⟩ := exists_symbol hc
      obtain ⟨n, hn⟩ := exists_spaces t
      refine ⟨op, n, w, rest, hw, by rw [hn], ?_⟩
      rw [List.cons_append, List.append_assoc, ← ht, Text.spaces_append_afterSpaces]
    · simp at h

theorem minusLiteral?_append {w rest : Text} (hw : IsDecimal w ∨ IsFraction w)
    (hr : Stops rest) : minusLiteral? ('-' :: (w ++ rest)) = some ('-' :: w) := by
  simp [minusLiteral?, unsigned?_append hw hr]

theorem minusLiteral?_of_not_minus {t : Text} (h : t.head? ≠ some '-') :
    minusLiteral? t = none := by
  unfold minusLiteral?
  split
  · simp at h
  · rfl

theorem negativeCountFrom_drop (skip : Nat) (t : Text) :
    negativeCountFrom false skip t = negativeCountFrom false 0 (t.drop skip) := by
  induction t generalizing skip with
  | nil => simp [negativeCountFrom]
  | cons c t ih =>
    cases skip with
    | zero => rfl
    | succ skip => rw [negativeCountFrom, ih, List.drop_succ_cons]

/-- A counted literal is skipped. -/
theorem negativeCountFrom_of_some {opens : Bool} {number rest : Text}
    (h : negativeLiteral? opens (number ++ rest) = some number) (hn : number ≠ []) :
    negativeCountFrom opens 0 (number ++ rest) = negativeCountFrom false 0 rest + 1 := by
  cases number with
  | nil => exact absurd rfl hn
  | cons c t =>
    rw [List.cons_append] at h ⊢
    simp only [negativeCountFrom, h, List.length_cons, Nat.add_sub_cancel]
    rw [negativeCountFrom_drop, List.drop_left]

theorem negativeCountFrom_of_none {opens : Bool} {c : Char} {t : Text}
    (h : negativeLiteral? opens (c :: t) = none) :
    negativeCountFrom opens 0 (c :: t) = negativeCountFrom false 0 t := by
  simp [negativeCountFrom, h]

theorem negativeLiteral?_of_not_operator (opens : Bool) {c : Char} (h : isOperatorChar c = false)
    (t : Text) : negativeLiteral? opens (c :: t) = none := by
  have hm : minusLiteral? (c :: t) = none := by
    apply minusLiteral?_of_not_minus
    simp only [List.head?_cons, ne_eq, Option.some.injEq]
    rintro rfl
    exact absurd h (by decide)
  simp [negativeLiteral?, operatorMinusLiteral?, hm, h]

/-- No literal is counted where no operator stands. -/
theorem negativeCountFrom_append {s : Text} (h : ∀ c ∈ s, isOperatorChar c = false) (t : Text) :
    negativeCountFrom false 0 (s ++ t) = negativeCountFrom false 0 t := by
  induction s with
  | nil => rfl
  | cons c s ih =>
    rw [List.cons_append,
      negativeCountFrom_of_none (negativeLiteral?_of_not_operator false (h c (by simp)) _),
      ih fun x hx => h x (by simp [hx])]

/-- A literal without a sign in front of the text is not counted. -/
theorem negativeCount_word_append {w : Text} (hw : IsWord w) (rest : Text) :
    negativeCount (w ++ rest) = negativeCountFrom false 0 rest := by
  obtain ⟨c, r, rfl, -, hc⟩ := (show ∃ c r, w = c :: r ∧ True ∧ isOperatorChar c = false by
    cases w with
    | nil => exact absurd rfl hw.ne_nil
    | cons c r => exact ⟨c, r, rfl, trivial, hw.not_operator c (by simp)⟩)
  rw [negativeCount, List.cons_append,
    negativeCountFrom_of_none (negativeLiteral?_of_not_operator true hc _)]
  exact negativeCountFrom_append (fun x hx => hw.not_operator x (by simp [hx])) rest

/-- A negative literal that opens the text is counted. -/
theorem negativeCount_minus_append {w rest : Text} (hw : IsDecimal w ∨ IsFraction w)
    (hr : Stops rest) :
    negativeCount ('-' :: (w ++ rest)) = negativeCountFrom false 0 rest + 1 := by
  have h : negativeLiteral? true ('-' :: w ++ rest) = some ('-' :: w) := by
    simp [negativeLiteral?, minusLiteral?_append hw hr]
  exact negativeCountFrom_of_some h (by simp)

/-- A negative literal behind an operator is counted together with the operator. -/
theorem negativeCountFrom_operator_minus (op : Operator) (n : Nat) {w rest : Text}
    (hw : IsDecimal w ∨ IsFraction w) (hr : Stops rest) :
    negativeCountFrom false 0 (op.symbol :: (List.replicate n ' ' ++ '-' :: (w ++ rest))) =
      negativeCountFrom false 0 rest + 1 := by
  obtain ⟨h1, h2⟩ := spaces_replicate_append n (t := '-' :: (w ++ rest)) (by simp)
  have h : negativeLiteral? false
      ((op.symbol :: (List.replicate n ' ' ++ '-' :: w)) ++ rest) =
        some (op.symbol :: (List.replicate n ' ' ++ '-' :: w)) := by
    simp [negativeLiteral?, operatorMinusLiteral?, h1, h2, minusLiteral?_append hw hr]
  have := negativeCountFrom_of_some h (by simp)
  simpa using this

/-- An operator in front of anything but a minus sign is not counted. -/
theorem negativeCountFrom_operator (op : Operator) {t : Text}
    (h : minusLiteral? (Text.afterSpaces t) = none) :
    negativeCountFrom false 0 (op.symbol :: t) = negativeCountFrom false 0 t := by
  apply negativeCountFrom_of_none
  simp [negativeLiteral?, operatorMinusLiteral?, h]

/-- What is counted is a minus sign and a literal, behind an operator unless it opens the text. -/
theorem negativeLiteral?_spec {opens : Bool} {t number : Text}
    (h : negativeLiteral? opens t = some number) :
    ∃ s w rest, (IsDecimal w ∨ IsFraction w) ∧ number = s ++ '-' :: w ∧ t = number ++ rest ∧
      (s = [] ∧ opens = true ∨ ∃ op n, s = Operator.symbol op :: List.replicate n ' ') := by
  rcases Option.or_eq_some_iff.1 h with hm | ⟨-, hm⟩
  · split at hm
    · next ho =>
      obtain ⟨w, rest, hw, rfl, ht⟩ := minusLiteral?_spec hm
      exact ⟨[], w, rest, hw, rfl, ht, .inl ⟨rfl, ho⟩⟩
    · simp at hm
  · obtain ⟨op, n, w, rest, hw, rfl, ht⟩ := operatorMinusLiteral?_spec hm
    exact ⟨op.symbol :: List.replicate n ' ', w, rest, hw, rfl, ht, .inr ⟨op, n, rfl⟩⟩

/-- Counting goes on behind a literal that is counted. -/
theorem negativeCountFrom_cases (opens : Bool) (c : Char) (t : Text) :
    negativeCountFrom opens 0 (c :: t) = negativeCountFrom false 0 t ∨
      ∃ number rest, negativeLiteral? opens (c :: t) = some number ∧ c :: t = number ++ rest ∧
        negativeCountFrom opens 0 (c :: t) = negativeCountFrom false 0 rest + 1 := by
  cases hn : negativeLiteral? opens (c :: t) with
  | none => exact .inl (negativeCountFrom_of_none hn)
  | some number =>
    obtain ⟨s, w, rest, -, rfl, ht, -⟩ := negativeLiteral?_spec hn
    rw [ht] at hn ⊢
    exact .inr ⟨_, rest, rfl, rfl, negativeCountFrom_of_some hn (by simp)⟩

/-- At most half of the operators are signs, but for one that opens the text. -/
theorem two_mul_negativeCountFrom_le (opens : Bool) (t : Text) :
    2 * negativeCountFrom opens 0 t ≤ operatorsIn t + if opens then 1 else 0 := by
  induction hn : t.length using Nat.strongRecOn generalizing opens t with
  | ind n ih =>
    cases t with
    | nil => simp [negativeCountFrom]
    | cons c t =>
      rcases negativeCountFrom_cases opens c t with he | ⟨number, rest, hnumber, ht, he⟩
      · have := ih t.length (by simp [← hn]) false t rfl
        have hstep : operatorsIn t ≤ operatorsIn (c :: t) := by
          simp [operatorsIn, List.countP_cons]
        simp only [Bool.false_eq_true, if_false] at this
        omega
      · obtain ⟨s, w, -, -, rfl, -, hs⟩ := negativeLiteral?_spec hnumber
        have hlength := congrArg List.length ht
        simp only [List.length_append, List.length_cons] at hlength hn
        have := ih rest.length (by omega) false rest rfl
        have hminus := operatorsIn_symbol_cons .minus w
        rw [show Operator.minus.symbol = '-' from rfl] at hminus
        simp only [Bool.false_eq_true, if_false] at this
        rw [he, ht, operatorsIn_append, operatorsIn_append, hminus]
        rcases hs with ⟨-, rfl⟩ | ⟨op, n, rfl⟩
        · simp only [if_true]
          omega
        · rw [operatorsIn_symbol_cons]
          omega

/-- A text has no more negative literals than minus signs. -/
theorem negativeCountFrom_le {level : Level} (hm : .minus ∈ level) (opens : Bool) (t : Text) :
    negativeCountFrom opens 0 t ≤ operatorCount level t := by
  induction hn : t.length using Nat.strongRecOn generalizing opens t with
  | ind n ih =>
    cases t with
    | nil => simp [negativeCountFrom]
    | cons c t =>
      rcases negativeCountFrom_cases opens c t with he | ⟨number, rest, hnumber, ht, he⟩
      · have := ih t.length (by simp [← hn]) false t rfl
        have hstep : operatorCount level t ≤ operatorCount level (c :: t) := by
          simp [operatorCount, List.countP_cons]
        omega
      · obtain ⟨s, w, -, -, rfl, -, -⟩ := negativeLiteral?_spec hnumber
        have hlength := congrArg List.length ht
        simp only [List.length_append, List.length_cons] at hlength hn
        have := ih rest.length (by omega) false rest rfl
        have hminus := operatorCount_symbol_cons level .minus w
        rw [show Operator.minus.symbol = '-' from rfl, if_pos hm] at hminus
        rw [he, ht, operatorCount_append, operatorCount_append, hminus]
        omega

end Reckoner
