import Reckoner.Proofs.Results

/-!
# How the rounds on a row end

A row is written in one way only, so the ends of a reduction can be read off the row: a level of
sums is done with a row that is empty, a word, or a literal with its sign, and a double negation is
a row of two minus signs and a literal. What the rounds keep and what none of these rows has is true
of no row that has a value.
-/

namespace Reckoner

open Literal
open Operator (Level)

namespace Row

variable {level : Level} {afterWord : Bool} {row : Row}

/-- Behind a word a row goes on with a space or an operator. -/
theorem isWordChar_head_text (trailing : Nat) (h : Valid true row) :
    ∀ c ∈ (text trailing row).head?, isWordChar c = false := by
  match row, h with
  | [], _ =>
    intro c hc
    rw [text_nil, Option.mem_def] at hc
    obtain ⟨-, rfl⟩ := List.mem_replicate.1 (List.mem_of_mem_head? hc)
    decide
  | ⟨0, .operator op⟩ :: row, _ =>
    intro c hc
    obtain rfl : op.symbol = c := by simpa using hc
    cases op <;> decide
  | ⟨gap + 1, .operator op⟩ :: row, _ =>
    intro c hc
    obtain rfl : ' ' = c := by simpa [List.replicate_succ] using hc
    decide
  | ⟨gap, .word w⟩ :: row, h => simp at h

/-- Two words that the same text begins with are the same if no word goes on behind them. -/
theorem word_append_inj {v w s t : Text} (hv : ∀ c ∈ v, isWordChar c = true)
    (hw : ∀ c ∈ w, isWordChar c = true) (hs : ∀ c ∈ s.head?, isWordChar c = false)
    (ht : ∀ c ∈ t.head?, isWordChar c = false) (h : v ++ s = w ++ t) : v = w ∧ s = t := by
  have hshort : ∀ {x y z : Text}, (∀ c ∈ y, isWordChar c = true) →
      (∀ c ∈ x.head?, isWordChar c = false) → x = y ++ z → y = [] := by
    intro x y z hy hx he
    cases y with
    | nil => rfl
    | cons c y =>
      have hc := hx c (by simp [he])
      rw [hy c (by simp)] at hc
      cases hc
  rcases List.append_eq_append_iff.1 h with ⟨u, rfl, he⟩ | ⟨u, rfl, he⟩
  · obtain rfl := hshort (fun c hc => hw c (by simp [hc])) hs he
    exact ⟨by simp, by simpa using he⟩
  · obtain rfl := hshort (fun c hc => hv c (by simp [hc])) ht he
    exact ⟨by simp, by simpa using he.symm⟩

/-- A row with a mark in it is more than spaces. -/
theorem spaces_ne_text {n trailing gap : Nat} {mark : Mark} (h : mark.Fits) (row : Row) :
    List.replicate n ' ' ≠ text trailing (⟨gap, mark⟩ :: row) := by
  intro he
  have hafter := (spaces_text trailing gap h row).2
  have hnil := (spaces_replicate_append n (t := []) (by simp)).2
  rw [List.append_nil] at hnil
  rw [← he, hnil] at hafter
  exact h.text_ne_nil (List.append_eq_nil_iff.1 hafter.symm).1

theorem symbol_cons_ne_word_append {op : Operator} {w s t : Text} (h : IsWord w) :
    op.symbol :: s ≠ w ++ t := by
  intro he
  obtain ⟨c, r, rfl, -, hc⟩ := h.head
  obtain ⟨rfl, -⟩ := List.cons.inj he
  simp at hc

/-- A row's text begins with one mark. -/
theorem mark_append_inj {gap width trailing other : Nat} {mark sign : Mark} {next : Row}
    (hv : Valid afterWord (⟨gap, mark⟩ :: row)) (hn : Valid afterWord (⟨width, sign⟩ :: next))
    (h : mark.text ++ text trailing row = sign.text ++ text other next) :
    mark = sign ∧ text trailing row = text other next := by
  cases mark with
  | operator op =>
    cases sign with
    | operator sign =>
      obtain ⟨hop, hrest⟩ := List.cons.inj h
      obtain rfl : op = sign := by
        have := congrArg Operator.ofChar? hop
        simpa using this
      exact ⟨rfl, hrest⟩
    | word w =>
      exact absurd h (symbol_cons_ne_word_append ((valid_word_cons _ _ _ _).1 hn).2.1)
  | word w =>
    obtain ⟨-, hw, hrow⟩ := (valid_word_cons _ _ _ _).1 hv
    cases sign with
    | operator sign => exact absurd h.symm (symbol_cons_ne_word_append hw)
    | word v =>
      obtain ⟨-, hv', hnext⟩ := (valid_word_cons _ _ _ _).1 hn
      obtain ⟨rfl, hrest⟩ := word_append_inj hw.all_isWordChar hv'.all_isWordChar
        (isWordChar_head_text trailing hrow) (isWordChar_head_text other hnext) h
      exact ⟨rfl, hrest⟩

/-- A text is the text of one row. -/
theorem text_injective {trailing other : Nat} {next : Row} (hv : Valid afterWord row)
    (hn : Valid afterWord next) (h : text trailing row = text other next) :
    trailing = other ∧ row = next := by
  induction row generalizing afterWord next with
  | nil =>
    cases next with
    | nil => exact ⟨by simpa using congrArg List.length h, rfl⟩
    | cons item next => exact absurd h (spaces_ne_text hn.2.1 next)
  | cons item row ih =>
    cases next with
    | nil => exact absurd h.symm (spaces_ne_text hv.2.1 row)
    | cons entry next =>
      obtain ⟨gap, mark⟩ := item
      obtain ⟨width, sign⟩ := entry
      obtain ⟨h1, h2⟩ := spaces_text trailing gap hv.2.1 row
      obtain ⟨h3, h4⟩ := spaces_text other width hn.2.1 next
      rw [h] at h1 h2
      obtain rfl : gap = width := by simpa using congrArg List.length (h1.symm.trans h3)
      obtain ⟨rfl, hrest⟩ := mark_append_inj hv hn (h2.symm.trans h4)
      obtain ⟨rfl, rfl⟩ := ih hv.2.2 hn.2.2 hrest
      exact ⟨rfl, rfl⟩

/-- A row that the sums are done with: empty, a word, or a literal with a minus sign. -/
inductive IsDone : Row → Prop where
  | nil : IsDone []
  | word {gap : Nat} {w : Text} (fits : IsWord w) : IsDone [⟨gap, .word w⟩]
  | literal {w : Text} (fits : IsDecimal w ∨ IsFraction w) :
    IsDone [⟨0, .operator .minus⟩, ⟨0, .word w⟩]

/-- Without products and quotients a row is settled when it is done. -/
theorem isSettled_text_iff {trailing : Nat} (hv : Valid false row)
    (hm : operatorCount Operator.multiplicative (text trailing row) = 0) :
    IsSettled Operator.additive (text trailing row) ↔ row.IsDone := by
  have hops := operatorsIn_eq (text trailing row)
  rw [hm, Nat.zero_add] at hops
  constructor
  · intro hs
    by_cases h0 : operatorsIn (text trailing row) = 0
    · rcases eq_word_of_no_operators hv h0 with rfl | ⟨gap, w, hw, rfl⟩
      · exact .nil
      · exact .word hw
    · have hcount : negativeCount (text trailing row) = operatorsIn (text trailing row) := by
        rcases hs with hzero | ⟨-, hcount⟩
        · omega
        · omega
      obtain ⟨hone, w, rest, hw, htext⟩ := literal_of_negativeCount hcount h0
      obtain ⟨v, hv', rfl⟩ := eq_minus_of_literal hv hw htext hone
      exact .literal hv'
  · intro hdone
    cases hdone with
    | nil => exact .inl (operatorCount_spaces _ _)
    | @word gap w hw =>
      refine .inl (operatorCount_eq_zero _ fun c hc => ?_)
      rw [text_cons, Mark.text_word, text_nil, List.mem_append, List.mem_append] at hc
      rcases hc with hc | hc | hc
      · exact not_operator_spaces _ c hc
      · exact hw.not_operator c hc
      · exact not_operator_spaces _ c hc
    | @literal w hw =>
      have hstops := stops_spaces trailing stops_nil
      rw [List.append_nil] at hstops
      have hcount : negativeCount ('-' :: (w ++ List.replicate trailing ' ')) = 1 := by
        rw [negativeCount_minus_append hw hstops,
          negativeCountFrom_eq_zero (not_operator_spaces trailing)]
      have hone := operatorCount_symbol_cons Operator.additive .minus
        (w ++ List.replicate trailing ' ')
      rw [operatorCount_append, operatorCount_spaces,
        operatorCount_eq_zero _ (isWord_of_unsigned hw).not_operator] at hone
      refine .inr ⟨by decide, ?_⟩
      simpa [Operator.symbol, Operator.additive, hcount] using hone.symm

/-- A row that is nothing but a double negation. -/
theorem doubleNegated?_text_iff {trailing : Nat} {w : Text} (hv : Valid false row) :
    doubleNegated? (text trailing row) = some w ↔ (IsDecimal w ∨ IsFraction w) ∧ trailing = 0 ∧
      ∃ gap, row = [⟨0, .operator .minus⟩, ⟨gap, .operator .minus⟩, ⟨0, .word w⟩] := by
  have hwritten : ∀ gap, text 0 [⟨0, .operator .minus⟩, ⟨gap, .operator .minus⟩, ⟨0, .word w⟩] =
      '-' :: (List.replicate gap ' ' ++ '-' :: w) := by
    intro gap
    simp [Operator.symbol]
  rw [doubleNegated?_eq_some_iff]
  constructor
  · rintro ⟨hw, gap, he⟩
    rw [← hwritten] at he
    obtain ⟨rfl, rfl⟩ := text_injective hv (by simp [isWord_of_unsigned hw]) he
    exact ⟨hw, rfl, gap, rfl⟩
  · rintro ⟨hw, rfl, gap, rfl⟩
    exact ⟨hw, gap, hwritten gap⟩

/-- What contractions keep and what no row has at which a reduction can end. -/
structure Dooms (P : Row → Prop) : Prop where
  replace : ∀ level row s v, Valid false row → P row → site? level true row = some s →
    P (s.replace v)
  not_done : ∀ row, P row → ¬ row.IsDone
  not_doubled : ∀ gap w, ¬ P [⟨0, .operator .minus⟩, ⟨gap, .operator .minus⟩, ⟨0, .word w⟩]

namespace Dooms

variable {P : Row → Prop}

theorem doubleNegated? (h : Dooms P) {trailing : Nat} (hv : Valid false row) (hp : P row) :
    Reckoner.doubleNegated? (text trailing row) = none := by
  rw [Option.eq_none_iff_forall_ne_some]
  intro w hw
  obtain ⟨-, -, gap, rfl⟩ := (doubleNegated?_text_iff hv).1 hw
  exact h.not_doubled gap w hp

/-- A level leaves a doomed row doomed. -/
theorem reduce (h : Dooms P) {trailing : Nat} {d : Text} (hv : Valid false row) (hp : P row)
    (hd : Reckoner.reduce level (text trailing row) = .ok d) :
    ∃ next, Valid false next ∧ P next ∧ d = text trailing next ∧ IsSettled level d := by
  obtain ⟨next, hn, hpn, rfl⟩ := @reduce_invariant level
    (fun t => ∃ row, Valid false row ∧ P row ∧ t = text trailing row)
    (by
      rintro _ outcome ⟨row, hv, hp, rfl⟩ hr
      obtain ⟨contracted, next, hn, hs, hnext⟩ := round_text_eq_ok trailing hv hr
      have hpn : P next := by
        rcases hnext with rfl | ⟨s, v, hsite, rfl⟩
        · exact hp
        · exact h.replace level row s v hv hp hsite
      rcases text_of_settle hs with he | hw
      · exact ⟨next, hn, hpn, he⟩
      · rw [h.doubleNegated? hn hpn] at hw
        cases hw)
    _ _ ⟨row, hv, hp, rfl⟩ hd
  exact ⟨next, hn, hpn, rfl, isSettled_of_reduce hd⟩

/-- A doomed row has no value. -/
theorem evaluateFlat (h : Dooms P) (trailing : Nat) (hv : Valid false row) (hp : P row) :
    ∃ fault, Reckoner.evaluateFlat (text trailing row) = .error fault := by
  cases he : Reckoner.evaluateFlat (text trailing row) with
  | error fault => exact ⟨fault, rfl⟩
  | ok r =>
    obtain ⟨s, d, hs, hd, -⟩ := evaluateFlat_eq_ok he
    obtain ⟨next, hnext, hpnext, rfl, -⟩ := h.reduce hv hp hs
    obtain ⟨last, hlast, hplast, rfl, hsettled⟩ := h.reduce hnext hpnext hd
    have hle := @operatorCount_le_of_reduce _ Operator.multiplicative _ _ (by decide) hd
    have hzero := operatorCount_of_reduce hs
    have hdone := (isSettled_text_iff hlast (by omega)).1 hsettled
    exact absurd hdone (h.not_done last hplast)

end Dooms

end Row

end Reckoner
