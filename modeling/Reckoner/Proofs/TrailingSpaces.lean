import Reckoner.Proofs.NormalForms
import Reckoner.Proofs.Stages

/-!
# Spaces at the end of a text

No literal reaches into a space, so spaces at the end of a text are carried along by every reader
and every occurrence. A text that is nothing but its double negation is the exception: with a space
behind it, it is no longer the whole text.
-/

namespace Reckoner

open Literal
open Operator (Level)

variable (m : Nat) (t : Text)

namespace Literal

theorem head_spaces {c : Char} (hc : c ≠ ' ') : (List.replicate m ' ').head? ≠ some c := by
  cases m with
  | zero => simp
  | succ m =>
    simp only [List.head?_replicate, Nat.succ_ne_zero, if_false, ne_eq, Option.some.injEq]
    exact fun h => hc h.symm

theorem digits_append_spaces : digits (t ++ List.replicate m ' ') = digits t ∧
    afterDigits (t ++ List.replicate m ' ') = afterDigits t ++ List.replicate m ' ' := by
  have hdigits : ∀ c ∈ digits t, c.isDigit = true :=
    fun c hc => List.all_eq_true.1 List.all_takeWhile c hc
  have hhead : ∀ c ∈ (afterDigits t ++ List.replicate m ' ').head?, c.isDigit = false := by
    cases hr : afterDigits t with
    | nil => simpa using (stops_spaces m stops_nil).digit
    | cons c r => simpa [hr] using afterDigits_head t
  have h := digits_append hdigits hhead
  rwa [← List.append_assoc, digits_append_afterDigits] at h

theorem fraction?_append_spaces : fraction? (t ++ List.replicate m ' ') =
    (fraction? t).map (Prod.map id (· ++ List.replicate m ' ')) := by
  cases t with
  | nil => exact fraction?_of_not_point (head_spaces m (by decide))
  | cons c t =>
    by_cases hc : c = '.'
    · subst hc
      obtain ⟨h1, h2⟩ := digits_append_spaces m t
      simp only [List.cons_append, fraction?, h1, h2]
      cases (digits t).isEmpty <;> rfl
    · rw [fraction?_of_not_point (by simpa using hc), fraction?_of_not_point (by simpa using hc)]
      rfl

theorem decimal?_append_spaces : decimal? (t ++ List.replicate m ' ') =
    (decimal? t).map (Prod.map id (· ++ List.replicate m ' ')) := by
  obtain ⟨h1, h2⟩ := digits_append_spaces m t
  simp only [decimal?, h1, h2, fraction?_append_spaces]
  cases (digits t).isEmpty with
  | true => rfl
  | false => cases fraction? (afterDigits t) <;> rfl

theorem unsigned?_append_spaces : unsigned? (t ++ List.replicate m ' ') =
    (unsigned? t).map (Prod.map id (· ++ List.replicate m ' ')) := by
  simp only [unsigned?, decimal?_append_spaces, fraction?_append_spaces, Option.map_or]

theorem negative?_append_spaces : negative? (t ++ List.replicate m ' ') =
    (negative? t).map (Prod.map id (· ++ List.replicate m ' ')) := by
  cases t with
  | nil => exact negative?_of_not_minus (head_spaces m (by decide))
  | cons c t =>
    by_cases hc : c = '-'
    · subst hc
      simp only [List.cons_append, negative?, decimal?_append_spaces]
      cases decimal? t <;> rfl
    · rw [negative?_of_not_minus (by simpa using hc), negative?_of_not_minus (by simpa using hc)]
      rfl

theorem signed?_append_spaces : signed? (t ++ List.replicate m ' ') =
    (signed? t).map (Prod.map id (· ++ List.replicate m ' ')) := by
  simp only [signed?, negative?_append_spaces, unsigned?_append_spaces, Option.map_or]

end Literal

/-- Spaces behind a text that is not blank are not among the spaces in front. -/
theorem spaces_append_spaces (h : Text.afterSpaces t ≠ []) :
    Text.spaces (t ++ List.replicate m ' ') = Text.spaces t ∧
      Text.afterSpaces (t ++ List.replicate m ' ') =
        Text.afterSpaces t ++ List.replicate m ' ' := by
  obtain ⟨n, hn⟩ := exists_spaces t
  have hhead : (Text.afterSpaces t ++ List.replicate m ' ').head? ≠ some ' ' := by
    have hnot := List.head?_dropWhile_not (· == ' ') t
    rw [← Text.afterSpaces] at hnot
    cases hs : Text.afterSpaces t with
    | nil => exact absurd hs h
    | cons c r =>
      rw [hs] at hnot
      simpa using hnot
  have h := spaces_replicate_append n hhead
  rwa [← List.append_assoc, ← hn, Text.spaces_append_afterSpaces] at h

theorem afterSpaces_append_spaces (h : Text.afterSpaces t = []) :
    Text.afterSpaces (t ++ List.replicate m ' ') = [] := by
  rw [Text.afterSpaces, List.dropWhile_eq_nil_iff] at h ⊢
  intro c hc
  rcases List.mem_append.1 hc with hc | hc
  · exact h c hc
  · simp [(List.mem_replicate.1 hc).2]

namespace Occurrence

def withEnd (m : Nat) (o : Occurrence) : Occurrence :=
  { o with after := o.after ++ List.replicate m ' ' }

theorem contract_withEnd (o : Occurrence) :
    (o.withEnd m).contract = o.contract.map (· ++ List.replicate m ' ') := by
  simp only [contract, withEnd]
  cases resultText o.left o.operator o.right with
  | error fault => rfl
  | ok r => simp [Except.map, replace, List.append_assoc]

theorem trailingOperand?_append_spaces : trailingOperand? (t ++ List.replicate m ' ') =
    (trailingOperand? t).map (Prod.map id (· ++ List.replicate m ' ')) := by
  cases t with
  | nil =>
    cases m with
    | zero => rfl
    | succ m => rfl
  | cons c t =>
    simp only [List.cons_append, trailingOperand?]
    by_cases hc : isOperatorChar c = true
    · rw [if_pos hc, if_pos hc]
      by_cases hs : Text.afterSpaces t = []
      · rw [hs, afterSpaces_append_spaces m t hs]
        rfl
      · obtain ⟨h1, h2⟩ := spaces_append_spaces m t hs
        rw [h1, h2, negative?_append_spaces]
        cases negative? (Text.afterSpaces t) <;> rfl
    · rw [if_neg hc, if_neg hc]
      rfl

theorem leftOperands_append_spaces (seen : Text) :
    leftOperands seen (t ++ List.replicate m ' ') =
      (leftOperands seen t).map (Prod.map id (· ++ List.replicate m ' ')) := by
  have hopening : openingOperand? seen (t ++ List.replicate m ' ') =
      (openingOperand? seen t).map (Prod.map id (· ++ List.replicate m ' ')) := by
    rw [openingOperand?, negative?_append_spaces, openingOperand?]
    cases seen.isEmpty <;> rfl
  simp only [leftOperands, hopening, trailingOperand?_append_spaces, decimal?_append_spaces,
    fraction?_append_spaces, List.map_filterMap]
  cases seen.head?.any Char.isDigit <;> rfl

theorem complete?_append_spaces (level : Level) (seen left rest : Text) :
    complete? level seen left (rest ++ List.replicate m ' ') =
      (complete? level seen left rest).map (withEnd m) := by
  by_cases hs : Text.afterSpaces rest = []
  · simp only [complete?, hs, afterSpaces_append_spaces m rest hs]
    rfl
  obtain ⟨h1, h2⟩ := spaces_append_spaces m rest hs
  simp only [complete?, h1, h2]
  cases hr : Text.afterSpaces rest with
  | nil => exact absurd hr hs
  | cons c u =>
    simp only [List.cons_append]
    cases Operator.ofChar? c with
    | none => rfl
    | some op =>
      simp only
      by_cases hop : op ∈ level
      · rw [if_pos hop, if_pos hop]
        by_cases hu : Text.afterSpaces u = []
        · rw [hu, afterSpaces_append_spaces m u hu]
          rfl
        · obtain ⟨h3, h4⟩ := spaces_append_spaces m u hu
          rw [h3, h4, signed?_append_spaces]
          cases signed? (Text.afterSpaces u) <;> rfl
      · rw [if_neg hop, if_neg hop]
        rfl

theorem findFrom?_append_spaces (level : Level) (seen : Text) :
    findFrom? level seen (t ++ List.replicate m ' ') =
      (findFrom? level seen t).map (withEnd m) := by
  induction t generalizing seen with
  | nil =>
    have h := findFrom?_spaces level seen m []
    rw [List.append_nil] at h
    rw [List.nil_append, h]
    rfl
  | cons c t ih =>
    have hleft := leftOperands_append_spaces m (c :: t) seen
    rw [List.cons_append] at hleft
    rw [List.cons_append, findFrom?, findFrom?, hleft, ih, Option.map_or, List.findSome?_map,
      List.map_findSome?]
    congr 2
    funext p
    exact complete?_append_spaces m level seen p.1 p.2

end Occurrence

theorem minusLiteral?_append_spaces :
    minusLiteral? (t ++ List.replicate m ' ') = minusLiteral? t := by
  cases t with
  | nil => exact minusLiteral?_of_not_minus (head_spaces m (by decide))
  | cons c t =>
    by_cases hc : c = '-'
    · subst hc
      simp only [List.cons_append, minusLiteral?, unsigned?_append_spaces]
      cases unsigned? t <;> rfl
    · rw [minusLiteral?_of_not_minus (by simpa using hc),
        minusLiteral?_of_not_minus (by simpa using hc)]

theorem operatorMinusLiteral?_append_spaces :
    operatorMinusLiteral? (t ++ List.replicate m ' ') = operatorMinusLiteral? t := by
  cases t with
  | nil =>
    cases m with
    | zero => rfl
    | succ m => rfl
  | cons c t =>
    simp only [List.cons_append, operatorMinusLiteral?]
    by_cases hs : Text.afterSpaces t = []
    · rw [hs, afterSpaces_append_spaces m t hs]
      rfl
    · obtain ⟨h1, h2⟩ := spaces_append_spaces m t hs
      rw [h1, h2, minusLiteral?_append_spaces]

theorem negativeCountFrom_append_spaces (opens : Bool) (skip : Nat) :
    negativeCountFrom opens skip (t ++ List.replicate m ' ') = negativeCountFrom opens skip t := by
  induction t generalizing opens skip with
  | nil =>
    rw [negativeCountFrom]
    exact negativeCountFrom_eq_zero (not_operator_spaces m) opens skip
  | cons c t ih =>
    cases skip with
    | succ skip => simp only [List.cons_append, negativeCountFrom, ih]
    | zero =>
      have hnumber : negativeLiteral? opens (c :: (t ++ List.replicate m ' ')) =
          negativeLiteral? opens (c :: t) := by
        have h1 := minusLiteral?_append_spaces m (c :: t)
        have h2 := operatorMinusLiteral?_append_spaces m (c :: t)
        rw [List.cons_append] at h1 h2
        rw [negativeLiteral?, h1, h2, negativeLiteral?]
      simp only [List.cons_append, negativeCountFrom, hnumber, ih]

/-- A double negation holds two operators, one of which may be a sign. -/
theorem not_isSettled_doubleNegated {t w : Text} (h : doubleNegated? t = some w) :
    ¬ IsSettled Operator.additive t := by
  intro hs
  rw [doubleNegated?_of_isNormal (by decide) (isNormal_of_isSettled hs)] at h
  cases h

/-- No operation stands in a double negation, whose operators stand in front of its digits. -/
theorem find?_doubleNegated {t w : Text} {level : Level} (h : doubleNegated? t = some w) :
    Occurrence.find? level t = none := by
  obtain ⟨hliteral, n, rfl⟩ := doubleNegated?_eq_some_iff.1 h
  rw [Option.eq_none_iff_forall_ne_some]
  intro o ho
  obtain ⟨carried, number, hfound⟩ := Occurrence.find?_spec ho
  have htext : ('-' :: (List.replicate n ' ' ++ ['-'])) ++ w =
      (o.before ++ (o.left ++ o.leftGap)) ++
        o.operator.symbol :: (o.rightGap ++ (o.right ++ o.after)) := by
    have := hfound.text
    simpa [Occurrence.text, Occurrence.extent] using this.symm
  rcases List.append_eq_append_iff.1 htext with ⟨s, -, hw⟩ | ⟨s, hfront, -⟩
  · have hmem : o.operator.symbol ∈ w := by simp [hw]
    have hnot := (isWord_of_unsigned hliteral).not_operator _ hmem
    rw [isOperatorChar_symbol] at hnot
    exact absurd hnot (by decide)
  · obtain ⟨c, hc, hcdigit⟩ := hfound.isOperand.exists_digit
    have hmem : c ∈ '-' :: (List.replicate n ' ' ++ ['-']) := by
      rw [hfront, hfound.left]
      simp [hc]
    simp only [List.mem_cons, List.mem_append, List.mem_replicate, List.not_mem_nil, or_false]
      at hmem
    rcases hmem with rfl | ⟨-, rfl⟩ | rfl <;> exact absurd hcdigit (by decide)

/-- Spaces at the end of a text are padding, unless the text is a double negation. -/
theorem padding_trailing : Padding (· ++ List.replicate (m + 1) ' ')
    (fun t => (doubleNegated? t).isSome)
    fun t => ∃ u, (doubleNegated? u).isSome ∧ t = u ++ List.replicate (m + 1) ' ' where
  find level t _ := by
    rw [Occurrence.find?, Occurrence.findFrom?_append_spaces, Occurrence.find?]
    simp only [Option.map_map]
    congr 1
    funext o
    exact Occurrence.contract_withEnd (m + 1) o
  count level t := by
    rw [operatorCount_append, operatorCount_spaces, Nat.add_zero]
  negatives t _ := negativeCountFrom_append_spaces (m + 1) t true 0
  plain t ht := ⟨by simpa using ht, doubleNegated?_append_space t m⟩
  trim t := trim_append_spaces (m + 1) t
  doomed t ht := ⟨t, ht, rfl⟩
  round level t ht := by
    obtain ⟨u, hu, rfl⟩ := ht
    obtain ⟨w, hw⟩ := Option.isSome_iff_exists.1 hu
    have hfind : Occurrence.find? level (u ++ List.replicate (m + 1) ' ') = none := by
      have hnone := @find?_doubleNegated u w level hw
      rw [Occurrence.find?] at hnone
      rw [Occurrence.find?, Occurrence.findFrom?_append_spaces, hnone]
      rfl
    exact .inr ⟨false, _, ⟨u, hu, rfl⟩, round_of_none hfind⟩
  unsettled t ht := by
    obtain ⟨u, hu, rfl⟩ := ht
    obtain ⟨w, hw⟩ := Option.isSome_iff_exists.1 hu
    refine ⟨?_, doubleNegated?_append_space u m⟩
    have hnot := not_isSettled_doubleNegated hw
    rw [IsSettled, negativeCount] at hnot ⊢
    rwa [operatorCount_append, operatorCount_spaces, Nat.add_zero, negativeCountFrom_append_spaces]

end Reckoner
