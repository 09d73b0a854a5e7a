import Reckoner.Proofs.Stages

/-!
# Spaces in front of a text

A minus sign is the sign of the number behind it where it opens the text or follows an operator, so
spaces in front of a text matter in one case: a text that opens with a minus sign. Nothing takes
that sign any more, whatever becomes of the rest.
-/

namespace Reckoner

open Literal
open Operator (Level)

variable (n : Nat) {level : Level} {seen t : Text}

namespace Occurrence

def withFront (n : Nat) (o : Occurrence) : Occurrence :=
  { o with before := List.replicate n ' ' ++ o.before }

theorem contract_withFront (o : Occurrence) :
    (o.withFront n).contract = o.contract.map (List.replicate n ' ' ++ ·) := by
  simp only [contract, withFront]
  cases resultText o.left o.operator o.right with
  | error fault => rfl
  | ok r => simp [Except.map, replace, List.append_assoc]

/-- The spaces in front are neither digits nor the beginning of the text. -/
theorem leftOperands_front (h : seen ≠ [] ∨ t.head? ≠ some '-') :
    leftOperands (seen ++ List.replicate n ' ') t = leftOperands seen t := by
  cases seen with
  | cons a seen => rfl
  | nil =>
    have hneg : negative? t = none := negative?_of_not_minus (by simpa using h)
    cases n with
    | zero => rfl
    | succ n =>
      simp only [leftOperands, openingOperand?, hneg, ite_self]
      rfl

theorem complete?_front (level : Level) (seen left rest : Text) :
    complete? level (seen ++ List.replicate n ' ') left rest =
      (complete? level seen left rest).map (withFront n) := by
  unfold complete?
  cases Text.afterSpaces rest with
  | nil => rfl
  | cons c u =>
    simp only
    cases Operator.ofChar? c with
    | none => rfl
    | some op =>
      simp only
      by_cases hop : op ∈ level
      · rw [if_pos hop, if_pos hop]
        cases signed? (Text.afterSpaces u) with
        | none => rfl
        | some p => simp [withFront, List.reverse_replicate]
      · rw [if_neg hop, if_neg hop]
        rfl

/-- Behind spaces the same occurrence is found, unless the text opens with a minus sign. -/
theorem findFrom?_front (h : seen ≠ [] ∨ t.head? ≠ some '-') :
    findFrom? level (seen ++ List.replicate n ' ') t =
      (findFrom? level seen t).map (withFront n) := by
  induction t generalizing seen with
  | nil => rfl
  | cons c t ih =>
    have hrest := @ih (c :: seen) (.inl (by simp))
    rw [List.cons_append] at hrest
    rw [findFrom?, findFrom?, leftOperands_front n h, hrest, Option.map_or, List.map_findSome?]
    congr 2
    funext p
    exact complete?_front n level seen p.1 p.2

/-- What is found stands behind what has been seen. -/
theorem before_of_findFrom? {o : Occurrence} (h : findFrom? level seen t = some o) :
    ∃ s, o.before = seen.reverse ++ s := by
  induction t generalizing seen with
  | nil => simp [findFrom?] at h
  | cons c t ih =>
    rcases Option.or_eq_some_iff.1 h with h | ⟨-, h⟩
    · obtain ⟨p, -, hc⟩ := List.exists_of_findSome?_eq_some h
      obtain ⟨hbefore, -⟩ := complete?_spec hc
      exact ⟨[], by rw [hbefore, List.append_nil]⟩
    · obtain ⟨s, hs⟩ := ih h
      exact ⟨c :: s, by rw [hs, List.reverse_cons, List.append_assoc, List.singleton_append]⟩

/-- A minus sign that something stands in front of outlives every contraction from it on. -/
theorem contract_minus {o : Occurrence} {u : Text} (hseen : seen ≠ [])
    (h : findFrom? level seen ('-' :: t) = some o) (hu : o.contract = .ok u) :
    ∃ r, u = seen.reverse ++ '-' :: r := by
  rcases Option.or_eq_some_iff.1 h with h | ⟨-, h⟩
  · obtain ⟨⟨left, rest⟩, hmem, hc⟩ := List.exists_of_findSome?_eq_some h
    obtain ⟨hbefore, hleft, -⟩ := complete?_spec hc
    have hopening : openingOperand? seen ('-' :: t) = none := by
      cases seen with
      | nil => exact absurd rfl hseen
      | cons a seen => rfl
    have htrailing : trailingOperand? ('-' :: t) = some (left, rest) := by
      have hsymbol := leftOperands_symbol seen .minus t
      rw [show Operator.minus.symbol = '-' from rfl, hopening, Option.toList_none,
        List.nil_append] at hsymbol
      rw [hsymbol] at hmem
      simpa using hmem
    obtain ⟨op, k, d, rfl, hd, ht⟩ := trailingOperand?_spec htrailing
    obtain ⟨hminus, -⟩ := List.cons.inj ht
    rw [contract, resultText, hleft, splitOperand?_carried op k hd] at hu
    cases hv : calculate ('-' :: d) o.operator o.right with
    | error fault => simp [hv, Except.map] at hu
    | ok v =>
      simp only [hv, Except.map, Except.ok.injEq] at hu
      refine ⟨List.replicate k ' ' ++ (render v ++ o.after), ?_⟩
      rw [← hu, replace, hbefore, ← hminus, List.cons_append, List.cons_append, List.append_assoc]
  · obtain ⟨s, hs⟩ := before_of_findFrom? h
    rw [contract] at hu
    cases hv : resultText o.left o.operator o.right with
    | error fault => simp [hv, Except.map] at hu
    | ok v =>
      simp only [hv, Except.map, Except.ok.injEq] at hu
      refine ⟨s ++ (v ++ o.after), ?_⟩
      rw [← hu, replace, hs, List.reverse_cons]
      simp only [List.append_assoc, List.cons_append, List.nil_append]

end Occurrence

/-- Behind a space nothing opens the text. -/
theorem negativeCount_spaces_append (t : Text) :
    negativeCount (List.replicate (n + 1) ' ' ++ t) = negativeCountFrom false 0 t := by
  have hnot := negativeLiteral?_of_not_operator true (show isOperatorChar ' ' = false by decide)
    (List.replicate n ' ' ++ t)
  rw [negativeCount, List.replicate_succ, List.cons_append, negativeCountFrom_of_none hnot,
    negativeCountFrom_append (not_operator_spaces n)]

theorem negativeCount_of_not_minus (h : t.head? ≠ some '-') :
    negativeCount t = negativeCountFrom false 0 t := by
  cases t with
  | nil => rfl
  | cons c t =>
    have hnumber : negativeLiteral? true (c :: t) = negativeLiteral? false (c :: t) := by
      simp [negativeLiteral?, minusLiteral?_of_not_minus h]
    simp only [negativeCount, negativeCountFrom, hnumber]

theorem doubleNegated?_of_not_minus (h : t.head? ≠ some '-') : doubleNegated? t = none := by
  unfold doubleNegated?
  split
  · simp at h
  · rfl

/-- A minus sign that does not open the text is no sign of its own, so not all of them are. -/
theorem negativeCountFrom_minus_lt (t : Text) :
    negativeCountFrom false 0 ('-' :: t) < operatorCount Operator.additive ('-' :: t) := by
  have hminus : ∀ s, operatorCount Operator.additive ('-' :: s) =
      operatorCount Operator.additive s + 1 :=
    fun s => operatorCount_symbol_cons Operator.additive .minus s
  have hm : Operator.minus ∈ Operator.additive := by decide
  rcases negativeCountFrom_cases false '-' t with he | ⟨number, rest, hnumber, ht, he⟩
  · have := negativeCountFrom_le hm false t
    rw [he, hminus]
    omega
  · obtain ⟨s, w, -, -, rfl, -, ⟨-, hs⟩ | ⟨op, k, rfl⟩⟩ := negativeLiteral?_spec hnumber
    · exact absurd hs (by decide)
    · have := negativeCountFrom_le hm false rest
      obtain ⟨hop, -⟩ := List.cons.inj ht
      rw [he, ht, operatorCount_append, operatorCount_append, ← hop, hminus, hminus]
      omega

/-- Spaces in front of a text are padding, unless the text opens with a minus sign. -/
theorem padding_leading : Padding (List.replicate (n + 1) ' ' ++ ·)
    (fun t => t.head? = some '-') fun t => ∃ r, t = List.replicate (n + 1) ' ' ++ '-' :: r where
  find level t ht := by
    have hfront := @Occurrence.findFrom?_front (n + 1) level [] t (.inr ht)
    rw [List.nil_append] at hfront
    rw [Occurrence.find?, Occurrence.findFrom?_spaces, List.append_nil, hfront, Occurrence.find?]
    simp only [Option.map_map]
    congr 1
    funext o
    exact Occurrence.contract_withFront (n + 1) o
  count level t := by
    rw [operatorCount_append, operatorCount_spaces, Nat.zero_add]
  negatives t ht := by
    rw [negativeCount_spaces_append, negativeCount_of_not_minus ht]
  plain t ht := ⟨doubleNegated?_of_not_minus ht,
    doubleNegated?_of_not_minus (by simp [List.replicate_succ])⟩
  trim t := trim_spaces_append (n + 1) t
  doomed t ht := by
    cases t with
    | nil => simp at ht
    | cons c r =>
      obtain rfl : c = '-' := by simpa using ht
      exact ⟨r, rfl⟩
  round level t ht := by
    obtain ⟨r, rfl⟩ := ht
    have hfind : Occurrence.find? level (List.replicate (n + 1) ' ' ++ '-' :: r) =
        Occurrence.findFrom? level (List.replicate (n + 1) ' ') ('-' :: r) := by
      rw [Occurrence.find?, Occurrence.findFrom?_spaces, List.append_nil]
    cases hf : Occurrence.findFrom? level (List.replicate (n + 1) ' ') ('-' :: r) with
    | none => exact .inr ⟨false, _, ⟨r, rfl⟩, round_of_none (hfind.trans hf)⟩
    | some o =>
      cases hu : o.contract with
      | error fault => exact .inl ⟨fault, round_of_error (hfind.trans hf) hu⟩
      | ok u =>
        obtain ⟨s, hs⟩ := Occurrence.contract_minus (by simp) hf hu
        rw [List.reverse_replicate] at hs
        exact .inr ⟨true, u, ⟨s, hs⟩, round_of_ok (hfind.trans hf) hu⟩
  unsettled t ht := by
    obtain ⟨r, rfl⟩ := ht
    have hlt := negativeCountFrom_minus_lt r
    refine ⟨?_, doubleNegated?_of_not_minus (by simp [List.replicate_succ])⟩
    rw [IsSettled, negativeCount_spaces_append, operatorCount_append, operatorCount_spaces]
    omega

end Reckoner
