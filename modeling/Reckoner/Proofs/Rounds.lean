import Reckoner.Proofs.Signs
import Reckoner.Proofs.Sites

/-!
# Rounds on rows

A round leaves a row a row, so a text without parentheses in which no two words are neighbours never
comes to have any. It brings no operators about but signs, and it fails only by dividing by zero or
because an operator lacks an operand.
-/

namespace Reckoner

open Literal
open Operator (Level)

def IsRow (t : Text) : Prop := ∃ trailing row, Row.Valid false row ∧ t = Row.text trailing row

namespace Row

variable {level : Level} {row : Row} (trailing : Nat)

theorem find?_text (h : Valid false row) :
    Same trailing [] (site? level true row) (Occurrence.find? level (text trailing row)) := by
  exact @findFrom?_text level false row trailing [] h (by simp) (by simp)

/-- A round on the text of a row. -/
theorem round_text (h : Valid false row) :
    round level (text trailing row) = match site? level true row with
      | none => settle level false (text trailing row)
      | some s => match s.outcome with
        | .error fault => .error fault
        | .ok v => settle level true (text trailing (s.replace v)) := by
  have hsame := @find?_text level row trailing h
  unfold round
  generalize site? level true row = site at hsame
  generalize Occurrence.find? level (text trailing row) = found at hsame
  cases hsame with
  | none => rfl
  | @some s o _ contract =>
    simp only [contract, List.reverse_nil, List.nil_append]
    cases s.outcome <;> rfl

/-- A round that does not fail settles the row, or the row with its operation contracted. -/
theorem round_text_eq_ok {outcome : Round} (h : Valid false row)
    (hr : round level (text trailing row) = .ok outcome) :
    ∃ contracted next, Valid false next ∧
      settle level contracted (text trailing next) = .ok outcome ∧
      (next = row ∨ ∃ s v, site? level true row = some s ∧ next = s.replace v) := by
  rw [round_text trailing h] at hr
  cases hs : site? level true row with
  | none => exact ⟨false, row, h, by simpa [hs] using hr, .inl rfl⟩
  | some s =>
    cases hv : s.outcome with
    | error fault => simp [hs, hv] at hr
    | ok v =>
      exact ⟨true, s.replace v, h.replace (by simp) hs v, by simpa [hs, hv] using hr,
        .inr ⟨s, v, rfl, rfl⟩⟩

end Row

theorem isRow_word {w : Text} (h : IsWord w) : IsRow w :=
  ⟨0, [⟨0, .word w⟩], by simp [h], by simp⟩

theorem settle_eq_error {level : Level} {contracted : Bool} {t : Text} {fault : Fault}
    (h : settle level contracted t = .error fault) : fault = .operatorPlacement := by
  by_cases hd : .minus ∈ level ∧ (doubleNegated? t).isSome
  · obtain ⟨w, hw⟩ := Option.isSome_iff_exists.1 hd.2
    rw [settle_of_doubleNegated contracted hd.1 hw] at h
    simp at h
  · rw [settle_of_plain contracted fun hm => by simpa [hm] using hd] at h
    split at h
    · simp at h
    split at h
    · simp at h
    · simpa using h.symm

/-- What a round makes of a row is a row. -/
theorem isRow_of_round {level : Level} {t : Text} {outcome : Round} (ht : IsRow t)
    (h : round level t = .ok outcome) : IsRow outcome.text := by
  obtain ⟨trailing, row, hv, rfl⟩ := ht
  obtain ⟨contracted, next, hn, hs, -⟩ := Row.round_text_eq_ok trailing hv h
  rcases text_of_settle hs with he | hw
  · exact he ▸ ⟨trailing, next, hn, rfl⟩
  · exact isRow_word (isWord_of_unsigned (doubleNegated?_eq_some_iff.1 hw).1)

/-- A level reduces a row to a row that is settled. -/
theorem isRow_of_reduce {level : Level} {t d : Text} (ht : IsRow t)
    (h : reduce level t = .ok d) : IsRow d ∧ IsSettled level d :=
  ⟨reduce_invariant isRow_of_round ht h, isSettled_of_reduce h⟩

theorem operatorCount_render {level : Level} (hm : .minus ∉ level) (v : Float) :
    operatorCount level (render v) = 0 := by
  rcases isSigned_render v with h | ⟨w, he, h⟩
  · exact operatorCount_eq_zero level h.not_operator
  · have := operatorCount_symbol_cons level .minus w
    rw [show Operator.minus.symbol = '-' from rfl, operatorCount_eq_zero level h.not_operator,
      if_neg hm] at this
    rw [he, this]

/-- A contraction brings no operator about but a sign. -/
theorem Occurrence.Found.operatorCount_le {level other : Level} {t r carried number : Text}
    {o : Occurrence} (hm : .minus ∉ other) (h : Found level t o carried number)
    (hr : o.contract = .ok r) : operatorCount other r ≤ operatorCount other t := by
  obtain ⟨v, rfl⟩ := h.contract_ok hr
  rw [← h.text, Occurrence.text, extent, h.left]
  simp only [operatorCount_append, operatorCount_symbol_cons, operatorCount_render hm]
  omega

theorem operatorCount_le_of_settle {level : Level} (other : Level) {contracted : Bool} {t : Text}
    {outcome : Round} (h : settle level contracted t = .ok outcome) :
    operatorCount other outcome.text ≤ operatorCount other t := by
  rcases text_of_settle h with he | hw
  · rw [he]
  · have hliteral := (doubleNegated?_eq_some_iff.1 hw).1
    rw [operatorCount_eq_zero other (isWord_of_unsigned hliteral).not_operator]
    exact Nat.zero_le _

theorem operatorCount_le_of_round {level other : Level} (hm : .minus ∉ other) {t : Text}
    {outcome : Round} (h : round level t = .ok outcome) :
    operatorCount other outcome.text ≤ operatorCount other t := by
  unfold round at h
  split at h
  · exact operatorCount_le_of_settle other h
  · next o ho =>
    split at h
    · cases h
    · next r hr =>
      obtain ⟨carried, number, hfound⟩ := Occurrence.find?_spec ho
      exact Nat.le_trans (operatorCount_le_of_settle other h) (hfound.operatorCount_le hm hr)

theorem operatorCount_le_of_reduce {level other : Level} {t d : Text} (hm : .minus ∉ other)
    (h : reduce level t = .ok d) : operatorCount other d ≤ operatorCount other t :=
  @reduce_invariant level (fun u => operatorCount other u ≤ operatorCount other t)
    (fun hle hr => Nat.le_trans (operatorCount_le_of_round hm hr) hle) t d (Nat.le_refl _) h

/-- Every operator belongs to one of the levels. -/
theorem operatorsIn_eq (t : Text) :
    operatorsIn t = operatorCount Operator.multiplicative t + operatorCount Operator.additive t := by
  induction t with
  | nil => rfl
  | cons c t ih =>
    by_cases hc : isOperatorChar c = true
    · obtain ⟨op, rfl⟩ := exists_symbol hc
      rw [operatorsIn_symbol_cons, operatorCount_symbol_cons, operatorCount_symbol_cons, ih]
      cases op <;> simp [Operator.multiplicative, Operator.additive] <;> omega
    · have hc : isOperatorChar c = false := by simpa using hc
      rw [operatorCount_cons_of_not_operator _ hc, operatorCount_cons_of_not_operator _ hc, ← ih]
      simp [operatorsIn, hc]

theorem reduceAll_eq (t : Text) :
    reduceAll t = match reduce Operator.multiplicative t with
      | .error fault => .error fault
      | .ok s => reduce Operator.additive s := by
  simp only [reduceAll, Operator.levels, List.foldlM_cons, List.foldlM_nil]
  cases reduce Operator.multiplicative t with
  | error fault => rfl
  | ok s =>
    cases h : reduce Operator.additive s <;> simp [bind, Except.bind, pure, Except.pure, h]

/-- A reduction is done after a round that settles the text, and goes on behind any other. -/
theorem reduce_of_settle {level : Level} {contracted : Bool} {t u d : Text}
    (hp : .minus ∈ level → doubleNegated? u = none) (hr : round level t = settle level contracted u)
    (h : reduce level t = .ok d) :
    IsSettled level u ∧ d = u ∨
      ¬ IsSettled level u ∧ round level t = .ok (.ongoing u) ∧ reduce level u = .ok d := by
  rw [settle_of_plain contracted hp] at hr
  rw [reduce_eq, hr] at h
  by_cases hs : IsSettled level u
  · rw [if_pos hs] at h
    exact .inl ⟨hs, by simpa using h.symm⟩
  · rw [if_neg hs] at hr h
    cases contracted with
    | false => simp at h
    | true => exact .inr ⟨hs, hr, h⟩

/-- Two reductions whose rounds settle their texts together are done together, or both go on. -/
theorem reduce_of_settle_pair {level : Level} {contracted : Bool} {t s u w d e : Text}
    (hu : .minus ∈ level → doubleNegated? u = none) (hw : .minus ∈ level → doubleNegated? w = none)
    (hr : round level t = settle level contracted u)
    (hq : round level s = settle level contracted w) (hsame : IsSettled level u ↔ IsSettled level w)
    (hd : reduce level t = .ok d) (he : reduce level s = .ok e) :
    IsSettled level w ∧ d = u ∧ e = w ∨
      round level t = .ok (.ongoing u) ∧ reduce level u = .ok d ∧ reduce level w = .ok e := by
  rcases reduce_of_settle hu hr hd with ⟨hsettled, rfl⟩ | ⟨hsettled, hgo, hd⟩ <;>
    rcases reduce_of_settle hw hq he with ⟨hother, rfl⟩ | ⟨hother, -, he⟩
  · exact .inl ⟨hother, rfl, rfl⟩
  · exact absurd (hsame.1 hsettled) hother
  · exact absurd (hsame.2 hother) hsettled
  · exact .inr ⟨hgo, hd, he⟩

/-- What rounds keep that unwrap no double negation, a reduction keeps. -/
theorem reduce_invariant_of_settle {level : Level} {I : Text → Prop}
    (plain : ∀ {t}, I t → doubleNegated? t = none)
    (step : ∀ {t}, I t → (∃ fault, round level t = .error fault) ∨
      ∃ contracted u, I u ∧ round level t = settle level contracted u) {t d : Text}
    (ht : I t) (h : reduce level t = .ok d) : I d := by
  refine reduce_invariant (fun {t outcome} ht hr => ?_) ht h
  rcases step ht with ⟨fault, he⟩ | ⟨contracted, u, hu, he⟩
  · rw [hr] at he
    cases he
  · rcases text_of_settle (he.symm.trans hr) with hsame | hw
    · exact hsame ▸ hu
    · rw [plain hu] at hw
      cases hw

theorem isSettled_multiplicative (t : Text) :
    IsSettled Operator.multiplicative t ↔ operatorCount Operator.multiplicative t = 0 := by
  have hm : Operator.minus ∉ Operator.multiplicative := by decide
  simp [IsSettled, hm]

/-- No product or quotient is left in a text that is reduced. -/
theorem operatorCount_of_reduce {t d : Text} (h : reduce Operator.multiplicative t = .ok d) :
    operatorCount Operator.multiplicative d = 0 :=
  (isSettled_multiplicative d).1 (isSettled_of_reduce h)

/-- A level fails by dividing by zero or because an operator lacks an operand. -/
theorem reduce_error {level : Level} {t : Text} {fault : Fault}
    (h : reduce level t = .error fault) : fault = .divisionByZero ∨ fault = .operatorPlacement := by
  induction t using round_induction level with
  | step t ih =>
    rw [reduce_eq] at h
    cases hr : round level t with
    | ok outcome =>
      cases outcome with
      | finished d => simp [hr] at h
      | ongoing rest => exact ih rest hr (by simpa [hr] using h)
    | error f =>
      obtain rfl : f = fault := by simpa [hr] using h
      unfold round at hr
      split at hr
      · exact .inr (settle_eq_error hr)
      · next o ho =>
        obtain ⟨carried, number, hfound⟩ := Occurrence.find?_spec ho
        split at hr
        · next f' hc =>
          obtain rfl : f' = f := by simpa using hr
          exact .inl (hfound.contract_error hc).1
        · exact .inr (settle_eq_error hr)

theorem reduceAll_error {t : Text} {fault : Fault} (h : reduceAll t = .error fault) :
    fault = .divisionByZero ∨ fault = .operatorPlacement := by
  rw [reduceAll_eq] at h
  cases hm : reduce Operator.multiplicative t with
  | error f =>
    obtain rfl : f = fault := by simpa [hm] using h
    exact reduce_error hm
  | ok s => exact reduce_error (by simpa [hm] using h)

end Reckoner
