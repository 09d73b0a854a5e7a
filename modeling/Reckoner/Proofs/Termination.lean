import Reckoner.Reduction
import Reckoner.Proofs.Operands

/-!
# Rounds end

A contraction uses up a literal, and a double negation that is the whole text is unwrapped once. The
fuel of a reduction therefore never runs out: a reduction is one round and, unless that finishes it,
the reduction of what the round leaves.
-/

namespace Reckoner

open Literal
open Operator (Level)

def goesOn (t : Text) : Bool := t.head?.any fun c => c.isDigit || c == '.'

/-- The number of places in a text at which a literal ends for good. -/
def literalEnds : Text → Nat
  | [] => 0
  | c :: t => (if c.isDigit && !goesOn t then 1 else 0) + literalEnds t

theorem goesOn_eq_false {t : Text} (h : Stops t) : goesOn t = false := by
  cases t with
  | nil => rfl
  | cons c t =>
    obtain ⟨h1, h2⟩ := (stops_cons c t).1 h
    simp [goesOn, h1, h2]

theorem goesOn_of_digit {c : Char} {t : Text} (h : c.isDigit = true) : goesOn (c :: t) = true := by
  simp [goesOn, h]

@[simp] theorem literalEnds_nil : literalEnds [] = 0 := rfl

theorem literalEnds_cons_of_not_digit {c : Char} (h : c.isDigit = false) (t : Text) :
    literalEnds (c :: t) = literalEnds t := by
  simp [literalEnds, h]

theorem literalEnds_le_cons (c : Char) (t : Text) : literalEnds t ≤ literalEnds (c :: t) := by
  simp [literalEnds]

/-- In front of a text that stops it a digit ends a literal. -/
theorem literalEnds_digit_cons {c : Char} {t : Text} (hc : c.isDigit = true) (h : Stops t) :
    literalEnds (c :: t) = literalEnds t + 1 := by
  simp [literalEnds, hc, goesOn_eq_false h, Nat.add_comm]

theorem literalEnds_append_le (s t : Text) :
    literalEnds (s ++ t) ≤ literalEnds s + literalEnds t := by
  induction s with
  | nil => simp
  | cons c s ih =>
    have hg : goesOn s = true → goesOn (s ++ t) = true := by
      cases s with
      | nil => simp [goesOn]
      | cons a s => simp [goesOn]
    rw [List.cons_append, literalEnds, literalEnds]
    cases hs : goesOn s with
    | true =>
      rw [hg hs]
      omega
    | false =>
      cases c.isDigit <;> cases goesOn (s ++ t) <;> simp <;> omega

theorem literalEnds_append_of_not_digit {s : Text} (t : Text)
    (h : ∀ c ∈ s.getLast?, c.isDigit = false) :
    literalEnds (s ++ t) = literalEnds s + literalEnds t := by
  induction s with
  | nil => simp
  | cons c s ih =>
    cases s with
    | nil =>
      have hc : c.isDigit = false := h c (by simp)
      simp [literalEnds_cons_of_not_digit hc]
    | cons a s =>
      have ih := ih (by simpa using h)
      have hg : goesOn (a :: s ++ t) = goesOn (a :: s) := by simp [goesOn]
      rw [List.cons_append, literalEnds, literalEnds, hg, ih]
      omega

theorem literalEnds_append_of_stops (s : Text) {t : Text} (h : Stops t) :
    literalEnds (s ++ t) = literalEnds s + literalEnds t := by
  induction s with
  | nil => simp
  | cons c s ih =>
    have hg : goesOn (s ++ t) = goesOn s := by
      cases s with
      | nil => simpa [goesOn] using goesOn_eq_false h
      | cons a s => simp [goesOn]
    rw [List.cons_append, literalEnds, literalEnds, hg, ih]
    omega

theorem literalEnds_spaces_append (n : Nat) (t : Text) :
    literalEnds (List.replicate n ' ' ++ t) = literalEnds t := by
  induction n with
  | zero => simp
  | succ n ih =>
    rw [List.replicate_succ, List.cons_append, literalEnds_cons_of_not_digit (by decide), ih]

theorem literalEnds_digits_append {ds : Text} (h : IsDigits ds) (t : Text) :
    literalEnds (ds ++ t) = literalEnds ('0' :: t) := by
  obtain ⟨c, ds, rfl, hc⟩ := h.head
  induction ds generalizing c with
  | nil => simp [literalEnds, hc]
  | cons a ds ih =>
    have ha : a.isDigit = true := h.2 a (by simp)
    have hds : IsDigits (a :: ds) := .cons ha fun x hx => h.2 x (by simp [hx])
    rw [← ih a ha hds]
    simp [literalEnds, goesOn_of_digit ha]

/-- A literal ends where a single digit in its place would. -/
theorem literalEnds_literal_append {l : Text} (h : IsDecimal l ∨ IsFraction l) (t : Text) :
    literalEnds (l ++ t) = literalEnds ('0' :: t) := by
  have hf : ∀ ds, IsDigits ds → literalEnds ('.' :: ds ++ t) = literalEnds ('0' :: t) := by
    intro ds hd
    rw [List.cons_append, literalEnds_cons_of_not_digit (by decide), literalEnds_digits_append hd]
  rcases h with (h | ⟨ds, f, hd, ⟨fs, hfs, rfl⟩, rfl⟩) | ⟨fs, hfs, rfl⟩
  · exact literalEnds_digits_append h t
  · have hp : literalEnds ('0' :: ('.' :: fs ++ t)) = literalEnds ('.' :: fs ++ t) := by
      simp [literalEnds, goesOn]
    rw [List.append_assoc, literalEnds_digits_append hd, hp, hf fs hfs]
  · exact hf fs hfs

theorem literalEnds_operand_append {l : Text} (h : IsOperand l) (t : Text) :
    literalEnds (l ++ t) = literalEnds ('0' :: t) := by
  rcases h.unsigned_or_negative with hw | ⟨d, rfl, hd⟩
  · exact literalEnds_literal_append hw t
  · rw [List.cons_append, literalEnds_cons_of_not_digit (by decide),
      literalEnds_literal_append (.inl hd)]

/-- A rendered value has at most one literal. -/
theorem literalEnds_render_append_le (v : Float) (t : Text) :
    literalEnds (render v ++ t) ≤ literalEnds ('0' :: t) := by
  have hw : ∀ w, IsWord w → literalEnds (w ++ t) ≤ literalEnds ('0' :: t) := by
    rintro w (h | h | rfl | rfl)
    · exact Nat.le_of_eq (literalEnds_literal_append (.inl h) t)
    · exact Nat.le_of_eq (literalEnds_literal_append (.inr h) t)
    · have : literalEnds ("Infinity".toList ++ t) = literalEnds t := by simp [literalEnds]
      exact this ▸ literalEnds_le_cons '0' t
    · have : literalEnds ("NaN".toList ++ t) = literalEnds t := by simp [literalEnds]
      exact this ▸ literalEnds_le_cons '0' t
  rcases isSigned_render v with h | ⟨w, he, h⟩
  · exact hw _ h
  · rw [he, List.cons_append, literalEnds_cons_of_not_digit (by decide)]
    exact hw w h

namespace Occurrence

/-- A contraction uses up a literal. -/
theorem Found.literalEnds_lt {level : Level} {t r carried number : Text} {o : Occurrence}
    (h : Found level t o carried number) (hr : o.contract = .ok r) :
    literalEnds r < literalEnds t := by
  obtain ⟨n, hleft⟩ := h.leftGap
  obtain ⟨m, hright⟩ := h.rightGap
  obtain ⟨v, rfl⟩ := h.contract_ok hr
  let tail := List.replicate n ' ' ++ o.operator.symbol ::
    (List.replicate m ' ' ++ (o.right ++ o.after))
  have htext : t = (o.before ++ carried) ++ (number ++ tail) := by
    rw [← h.text, Occurrence.text, extent, h.left, hleft, hright]
    simp [tail]
  have hstops : Stops tail := stops_spaces n (stops_symbol _ _)
  have htail : literalEnds tail = literalEnds ('0' :: o.after) := by
    rw [literalEnds_spaces_append, literalEnds_cons_of_not_digit (symbol_facts _).1,
      literalEnds_spaces_append, literalEnds_operand_append h.right]
  have hnumber : literalEnds (number ++ tail) = literalEnds ('0' :: o.after) + 1 := by
    rw [literalEnds_operand_append h.isOperand, literalEnds_digit_cons (by decide) hstops, htail]
  have hwhole : literalEnds t = literalEnds (o.before ++ carried) + literalEnds (number ++ tail) := by
    rw [htext]
    rcases h.boundary with hb | ⟨rfl, hb⟩
    · obtain ⟨u, rfl⟩ : ∃ u, number = '-' :: u := by
        cases number with
        | nil => simp at hb
        | cons a u => exact ⟨u, by simpa using hb⟩
      exact literalEnds_append_of_stops _ ((stops_cons _ _).2 (by decide))
    · exact literalEnds_append_of_not_digit _ (by simpa using hb)
  have hle : literalEnds ((o.before ++ carried) ++ (render v ++ o.after)) ≤
      literalEnds (o.before ++ carried) + literalEnds ('0' :: o.after) :=
    Nat.le_trans (literalEnds_append_le _ _)
      (Nat.add_le_add_left (literalEnds_render_append_le v o.after) _)
  rw [hwhole, hnumber]
  simp only [List.append_assoc] at hle ⊢
  omega

end Occurrence

@[simp] theorem operatorCount_nil (level : Level) : operatorCount level [] = 0 := rfl

@[simp] theorem operatorCount_append (level : Level) (s t : Text) :
    operatorCount level (s ++ t) = operatorCount level s + operatorCount level t := by
  simp [operatorCount]

theorem operatorCount_cons_of_not_operator (level : Level) {c : Char} (h : isOperatorChar c = false)
    (t : Text) : operatorCount level (c :: t) = operatorCount level t := by
  have hc : Operator.ofChar? c = none := by simpa [isOperatorChar] using h
  simp [operatorCount, hc]

theorem operatorCount_symbol_cons (level : Level) (op : Operator) (t : Text) :
    operatorCount level (op.symbol :: t) =
      operatorCount level t + if op ∈ level then 1 else 0 := by
  simp [operatorCount, List.countP_cons]

theorem operatorCount_eq_zero (level : Level) {t : Text}
    (h : ∀ c ∈ t, isOperatorChar c = false) : operatorCount level t = 0 := by
  induction t with
  | nil => rfl
  | cons c t ih =>
    rw [operatorCount_cons_of_not_operator level (h c (by simp))]
    exact ih fun x hx => h x (by simp [hx])

theorem not_operator_spaces (n : Nat) : ∀ c ∈ List.replicate n ' ', isOperatorChar c = false := by
  intro c hc
  obtain ⟨-, rfl⟩ := List.mem_replicate.1 hc
  decide

theorem operatorCount_spaces (level : Level) (n : Nat) :
    operatorCount level (List.replicate n ' ') = 0 :=
  operatorCount_eq_zero level (not_operator_spaces n)

/-- Every negative literal has an operator. -/
theorem negativeCountFrom_eq_zero {t : Text} (h : ∀ c ∈ t, isOperatorChar c = false)
    (opens : Bool) (skip : Nat) : negativeCountFrom opens skip t = 0 := by
  induction t generalizing opens skip with
  | nil => rw [negativeCountFrom]
  | cons c t ih =>
    have hc := h c (by simp)
    have ih := ih fun x hx => h x (by simp [hx])
    cases skip with
    | succ skip => rw [negativeCountFrom, ih]
    | zero =>
      have hm : minusLiteral? (c :: t) = none := by
        unfold minusLiteral?
        split
        · next he =>
          obtain ⟨rfl, -⟩ := List.cons.inj he
          exact absurd hc (by decide)
        · rfl
      have hn : negativeLiteral? opens (c :: t) = none := by
        simp [negativeLiteral?, operatorMinusLiteral?, hm, hc]
      rw [negativeCountFrom, hn, ih]

theorem isOperatorChar_of_isWordChar {c : Char} (h : isWordChar c = true) :
    isOperatorChar c = false := by
  rw [Bool.eq_false_iff]
  intro ho
  obtain ⟨op, rfl⟩ := exists_symbol ho
  revert h
  cases op <;> decide

theorem IsWord.not_operator {w : Text} (h : IsWord w) : ∀ c ∈ w, isOperatorChar c = false :=
  fun c hc => isOperatorChar_of_isWordChar (h.all_isWordChar c hc)

theorem isWord_of_unsigned {w : Text} (h : IsDecimal w ∨ IsFraction w) : IsWord w := by
  rcases h with h | h
  · exact .inl h
  · exact .inr (.inl h)

/-- A double negation is two minus signs, spaces between them, and a literal. -/
theorem doubleNegated?_eq_some_iff {t w : Text} :
    doubleNegated? t = some w ↔
      (IsDecimal w ∨ IsFraction w) ∧ ∃ n, t = '-' :: (List.replicate n ' ' ++ '-' :: w) := by
  constructor
  · intro h
    unfold doubleNegated? at h
    split at h
    · next u =>
      split at h
      · next v hv =>
        split at h
        · next hw =>
          obtain rfl : v = w := by simpa using h
          obtain ⟨n, hn⟩ := exists_spaces u
          refine ⟨(isUnsigned_iff v).1 hw, n, ?_⟩
          rw [← hn, ← hv, Text.spaces_append_afterSpaces]
        · simp at h
      · simp at h
    · simp at h
  · rintro ⟨hw, n, rfl⟩
    obtain ⟨-, h⟩ := spaces_replicate_append n (t := '-' :: w) (by simp)
    simp [doubleNegated?, h, (isUnsigned_iff w).2 hw]

/-- A space at the end of a text keeps it from being a double negation. -/
theorem doubleNegated?_append_space (t : Text) (m : Nat) :
    doubleNegated? (t ++ List.replicate (m + 1) ' ') = none := by
  rw [Option.eq_none_iff_forall_ne_some]
  intro w hw
  obtain ⟨hliteral, n, he⟩ := doubleNegated?_eq_some_iff.1 hw
  have hword := isWord_of_unsigned hliteral
  have hlast := congrArg List.getLast? he
  rw [List.replicate_succ', ← List.append_assoc, List.getLast?_concat, ← List.cons_append,
    List.append_cons, List.getLast?_append, List.getLast?_eq_some_getLast hword.ne_nil,
    Option.some_or] at hlast
  have hspace := hword.all_isWordChar _ (List.getLast_mem hword.ne_nil)
  rw [← Option.some.inj hlast] at hspace
  exact absurd hspace (by decide)

/-- A text at which the rounds of a level end: its operators of the level are signs. -/
def IsSettled (level : Level) (t : Text) : Prop :=
  operatorCount level t = 0 ∨ .minus ∈ level ∧ negativeCount t = operatorCount level t

instance (level : Level) (t : Text) : Decidable (IsSettled level t) := by
  unfold IsSettled
  infer_instance

theorem operatorCount_of_doubleNegated {level : Level} {t w : Text} (hm : .minus ∈ level)
    (h : doubleNegated? t = some w) : operatorCount level t ≠ 0 := by
  obtain ⟨-, n, rfl⟩ := doubleNegated?_eq_some_iff.1 h
  have := operatorCount_symbol_cons level .minus (List.replicate n ' ' ++ '-' :: w)
  rw [show Operator.minus.symbol = '-' from rfl, if_pos hm] at this
  omega

theorem settle_of_doubleNegated {level : Level} {t w : Text} (contracted : Bool)
    (hm : .minus ∈ level) (h : doubleNegated? t = some w) :
    settle level contracted t = .ok (.ongoing w) := by
  have hr := operatorCount_of_doubleNegated hm h
  have hw := (doubleNegated?_eq_some_iff.1 h).1
  have hn : negativeCount w = 0 :=
    negativeCountFrom_eq_zero (isWord_of_unsigned hw).not_operator true 0
  simp only [settle, hm, if_true, h, Option.getD_some, hr, if_false, hn, true_and,
    Option.isSome_some, Bool.or_true]
  rw [if_neg (Ne.symm hr)]

theorem settle_of_plain {level : Level} {t : Text} (contracted : Bool)
    (h : .minus ∈ level → doubleNegated? t = none) :
    settle level contracted t = if IsSettled level t then .ok (.finished t)
      else if contracted then .ok (.ongoing t) else .error .operatorPlacement := by
  have hp : (if .minus ∈ level then doubleNegated? t else none) = none := by
    split
    · next hm => exact h hm
    · rfl
  simp only [settle, hp, Option.getD_none, Option.isSome_none, Bool.or_false, IsSettled]
  by_cases h0 : operatorCount level t = 0
  · simp [h0]
  · simp [h0]

/-- A round goes on with the text it has contracted or with an unwrapped double negation, and it
finishes only with a text that is settled. -/
theorem settle_eq_ok {level : Level} {contracted : Bool} {t : Text} {outcome : Round}
    (h : settle level contracted t = .ok outcome) :
    contracted = true ∧ outcome = .ongoing t ∨ outcome = .finished t ∧ IsSettled level t ∨
      ∃ w, .minus ∈ level ∧ doubleNegated? t = some w ∧ outcome = .ongoing w := by
  by_cases hd : .minus ∈ level ∧ (doubleNegated? t).isSome
  · obtain ⟨w, hw⟩ := Option.isSome_iff_exists.1 hd.2
    rw [settle_of_doubleNegated contracted hd.1 hw] at h
    exact .inr (.inr ⟨w, hd.1, hw, by simpa using h.symm⟩)
  · rw [settle_of_plain contracted fun hm => by simpa [hm] using hd] at h
    split at h
    · next hs => exact .inr (.inl ⟨by simpa using h.symm, hs⟩)
    split at h
    · next hc => exact .inl ⟨hc, by simpa using h.symm⟩
    · simp at h

theorem Occurrence.Found.operatorCount_ne_zero {level : Level} {t carried number : Text}
    {o : Occurrence} (h : Found level t o carried number) : operatorCount level t ≠ 0 := by
  have ho := operatorCount_symbol_cons level o.operator (o.rightGap ++ o.right)
  rw [if_pos h.mem] at ho
  rw [← h.text, Occurrence.text, Occurrence.extent]
  simp only [operatorCount_append, ho]
  omega

theorem Occurrence.find?_of_operatorCount_eq_zero {level : Level} {t : Text}
    (h : operatorCount level t = 0) : find? level t = none := by
  rw [Option.eq_none_iff_forall_ne_some]
  intro o ho
  obtain ⟨carried, number, hfound⟩ := find?_spec ho
  exact hfound.operatorCount_ne_zero h

/-- A text without operators of the level is finished. -/
theorem round_of_operatorCount_eq_zero {level : Level} {t : Text}
    (h : operatorCount level t = 0) : round level t = .ok (.finished t) := by
  simp [round, Occurrence.find?_of_operatorCount_eq_zero h, settle, h]

/-- How many more rounds a text can take: two for each literal, and one for a minus sign in front,
which may be half of a double negation. -/
def roundsLeft (t : Text) : Nat := 2 * literalEnds t + if t.head? = some '-' then 1 else 0

theorem roundsLeft_le (t : Text) : roundsLeft t ≤ t.length + 1 := by
  have h : 2 * literalEnds t ≤ t.length + 1 ∧ (goesOn t = false → 2 * literalEnds t ≤ t.length) := by
    induction t with
    | nil => simp
    | cons c t ih =>
      simp only [literalEnds, List.length_cons]
      cases hc : c.isDigit with
      | false => simp; omega
      | true =>
        have hg : goesOn (c :: t) = true := goesOn_of_digit hc
        cases ht : goesOn t with
        | true => simp [hg]; omega
        | false =>
          have := ih.2 ht
          simp [hg]
          omega
  unfold roundsLeft
  split
  · next hm =>
    have hg : goesOn t = false := by simp [goesOn, hm]
    have := h.2 hg
    omega
  · omega

theorem literalEnds_of_doubleNegated {t w : Text} (h : doubleNegated? t = some w) :
    literalEnds w = literalEnds t := by
  obtain ⟨-, n, rfl⟩ := doubleNegated?_eq_some_iff.1 h
  rw [literalEnds_cons_of_not_digit (by decide), literalEnds_spaces_append,
    literalEnds_cons_of_not_digit (by decide)]

theorem roundsLeft_lt_of_doubleNegated {t w : Text} (h : doubleNegated? t = some w) :
    roundsLeft w < roundsLeft t := by
  have he := literalEnds_of_doubleNegated h
  obtain ⟨hw, n, rfl⟩ := doubleNegated?_eq_some_iff.1 h
  obtain ⟨c, u, rfl, hc⟩ := unsignedLiteral_head hw
  have hne : c ≠ '-' := by
    rintro rfl
    rcases hc with hc | hc <;> exact absurd hc (by decide)
  simp [roundsLeft, he, hne]

/-- The second half of a round uses up no literal. -/
theorem literalEnds_of_settle {level : Level} {contracted : Bool} {t r : Text}
    (h : settle level contracted t = .ok (.ongoing r)) : literalEnds r = literalEnds t := by
  rcases settle_eq_ok h with ⟨-, h⟩ | ⟨h, -⟩ | ⟨w, -, hw, h⟩
  · rw [Round.ongoing.inj h]
  · cases h
  · rw [Round.ongoing.inj h, literalEnds_of_doubleNegated hw]

/-- An ongoing round leaves fewer rounds to go. -/
theorem roundsLeft_lt {level : Level} {t r : Text} (h : round level t = .ok (.ongoing r)) :
    roundsLeft r < roundsLeft t := by
  unfold round at h
  split at h
  · rcases settle_eq_ok h with ⟨hc, -⟩ | ⟨h, -⟩ | ⟨w, -, hw, h⟩
    · cases hc
    · cases h
    · exact Round.ongoing.inj h ▸ roundsLeft_lt_of_doubleNegated hw
  · next o ho =>
    split at h
    · simp at h
    · next s hs =>
      obtain ⟨carried, number, hfound⟩ := Occurrence.find?_spec ho
      have hlt := hfound.literalEnds_lt hs
      have he := literalEnds_of_settle h
      unfold roundsLeft
      split <;> split <;> omega

theorem exists_rounds {level : Level} {t : Text} {m n : Nat} (hm : roundsLeft t < m)
    (hn : roundsLeft t < n) : ∃ r, rounds level m t = some r ∧ rounds level n t = some r := by
  induction m generalizing n t with
  | zero => omega
  | succ m ih =>
    obtain ⟨n, rfl⟩ : ∃ k, n = k + 1 := ⟨n - 1, by omega⟩
    cases hr : round level t with
    | error fault => exact ⟨.error fault, by simp [rounds, hr], by simp [rounds, hr]⟩
    | ok outcome =>
      cases outcome with
      | finished d => exact ⟨.ok d, by simp [rounds, hr], by simp [rounds, hr]⟩
      | ongoing rest =>
        have hlt := roundsLeft_lt hr
        simpa [rounds, hr] using ih (t := rest) (n := n) (by omega) (by omega)

/-- Fuel does not matter. -/
theorem rounds_eq_reduce {level : Level} {t : Text} {fuel : Nat} (h : roundsLeft t < fuel) :
    rounds level fuel t = some (reduce level t) := by
  have hle := roundsLeft_le t
  have hlt : roundsLeft t < t.length + 2 := by omega
  obtain ⟨r, h1, h2⟩ := @exists_rounds level t fuel (t.length + 2) h hlt
  by_cases h0 : operatorCount level t = 0
  · rw [rounds, round_of_operatorCount_eq_zero h0] at h2
    simpa [reduce, h0, ← h2] using h1
  · simp [reduce, h0, h1, h2]

/-- A reduction is a round and, unless that finishes it, the reduction of what the round leaves. -/
theorem reduce_eq (level : Level) (t : Text) :
    reduce level t = match round level t with
      | .error fault => .error fault
      | .ok (.finished done) => .ok done
      | .ok (.ongoing rest) => reduce level rest := by
  have h := @rounds_eq_reduce level t (roundsLeft t + 1) (Nat.lt_succ_self _)
  apply Option.some.inj
  rw [← h, rounds]
  cases hr : round level t with
  | error fault => rfl
  | ok outcome =>
    cases outcome with
    | finished d => rfl
    | ongoing rest => exact rounds_eq_reduce (roundsLeft_lt hr)

/-- What holds of a text whenever it holds of what a round leaves of it, holds of every text. -/
theorem round_induction (level : Level) {motive : Text → Prop}
    (step : ∀ t, (∀ r, round level t = .ok (.ongoing r) → motive r) → motive t) (t : Text) :
    motive t := by
  induction hn : roundsLeft t using Nat.strongRecOn generalizing t with
  | ind n ih =>
    exact step t fun r hr => ih _ (hn ▸ roundsLeft_lt hr) r rfl

def Round.text : Round → Text
  | finished t => t
  | ongoing t => t

/-- The second half of a round leaves the text, or the literal that the text doubly negates. -/
theorem text_of_settle {level : Level} {contracted : Bool} {t : Text} {outcome : Round}
    (h : settle level contracted t = .ok outcome) :
    outcome.text = t ∨ doubleNegated? t = some outcome.text := by
  rcases settle_eq_ok h with ⟨-, rfl⟩ | ⟨rfl, -⟩ | ⟨w, -, hw, rfl⟩
  · exact .inl rfl
  · exact .inl rfl
  · exact .inr hw

/-- What every round keeps, a reduction keeps. -/
theorem reduce_invariant {level : Level} {I : Text → Prop}
    (step : ∀ {t outcome}, I t → round level t = .ok outcome → I outcome.text) {t d : Text}
    (ht : I t) (h : reduce level t = .ok d) : I d := by
  induction t using round_induction level with
  | step t ih =>
    rw [reduce_eq] at h
    cases hr : round level t with
    | error fault => simp [hr] at h
    | ok outcome =>
      have hleft := step ht hr
      cases outcome with
      | finished done =>
        obtain rfl : done = d := by simpa [hr] using h
        exact hleft
      | ongoing rest => exact ih rest hr hleft (by simpa [hr] using h)

/-- A round ends in a fault or in the second half of a round. -/
theorem exists_settle (level : Level) (t : Text) :
    (∃ fault, round level t = .error fault) ∨
      ∃ contracted u, round level t = settle level contracted u := by
  unfold round
  cases Occurrence.find? level t with
  | none => exact .inr ⟨false, t, rfl⟩
  | some o =>
    dsimp only
    cases o.contract with
    | error fault => exact .inl ⟨fault, rfl⟩
    | ok u => exact .inr ⟨true, u, rfl⟩

/-- A round finishes only with a text that is settled. -/
theorem isSettled_of_round {level : Level} {t d : Text}
    (h : round level t = .ok (.finished d)) : IsSettled level d := by
  rcases exists_settle level t with ⟨fault, hr⟩ | ⟨contracted, u, hr⟩
  · rw [h] at hr
    cases hr
  · rw [h] at hr
    rcases settle_eq_ok hr.symm with ⟨-, he⟩ | ⟨he, hsettled⟩ | ⟨w, -, -, he⟩
    · cases he
    · exact Round.finished.inj he ▸ hsettled
    · cases he

theorem isSettled_of_reduce {level : Level} {t d : Text} (h : reduce level t = .ok d) :
    IsSettled level d := by
  induction t using round_induction level with
  | step t ih =>
    rw [reduce_eq] at h
    cases hr : round level t with
    | error fault => simp [hr] at h
    | ok outcome =>
      cases outcome with
      | finished done =>
        obtain rfl : done = d := by simpa [hr] using h
        exact isSettled_of_round hr
      | ongoing rest => exact ih rest hr (by simpa [hr] using h)

end Reckoner
