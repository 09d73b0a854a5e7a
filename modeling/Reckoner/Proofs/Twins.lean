import Reckoner.Proofs.Endings

/-!
# Rows with the same operations

Two rows are twins when they have the same operators and words of the same value, and a minus sign
that can be a sign is attached to what follows it in both rows or in neither. How wide the other
gaps are plays no part, nor does a zero in front of a point. A round finds the same operation in
twins and leaves twins.
-/

namespace Reckoner

open Literal
open Operator (Level)

/-- Two words are the same, or a fraction and the decimal with a zero in front of it; the latter
only where `zeros` allows for it. -/
inductive Alike (zeros : Bool) : Text → Text → Prop where
  | same (w : Text) : Alike zeros w w
  | zero {w : Text} (allowed : zeros = true) (fits : IsFraction w) : Alike zeros w ('0' :: w)

variable {zeros : Bool}

theorem isDecimal_zero_cons {w : Text} (h : IsFraction w) : IsDecimal ('0' :: w) :=
  isDecimal_cons (by decide) (.inr h)

namespace Alike

theorem isWord {v w : Text} (h : Alike zeros v w) (hv : IsWord v) : IsWord w := by
  cases h with
  | same => exact hv
  | zero _ fits => exact .inl (isDecimal_zero_cons fits)

theorem isUnsigned {v w : Text} (h : Alike zeros v w) : isUnsigned v = isUnsigned w := by
  cases h with
  | same => rfl
  | zero _ fits =>
    rw [(isUnsigned_iff _).2 (.inr fits), (isUnsigned_iff _).2 (.inl (isDecimal_zero_cons fits))]

theorem eq {v w : Text} (h : Alike false v w) : v = w := by
  cases h with
  | same => rfl
  | zero allowed => cases allowed

/-- A zero in front of the point does not change the number. -/
theorem leadingNumber? {v w : Text} (h : Alike zeros v w) :
    Reckoner.leadingNumber? v = Reckoner.leadingNumber? w := by
  cases h with
  | same => rfl
  | zero _ fits =>
    have hdecimal := isDecimal_zero_cons fits
    have hfraction := fits
    obtain ⟨fs, hfs, rfl⟩ := fits
    have h1 := leadingNumber?_of_mantissa? (.inr hfraction) (@mantissa?_point [] fs (by simp) hfs)
    have h2 := leadingNumber?_of_mantissa? (.inl hdecimal)
      (@mantissa?_point ['0'] fs (by simp) hfs)
    have hparts : Decimal.ofParts ['0'] fs = Decimal.ofParts [] fs := by
      simp [Decimal.ofParts, Nat.ofDigitChars]
    rw [h1.1, h2.1, hparts]

theorem operandValue {v w : Text} (h : Alike zeros v w) : operandValue v = operandValue w := by
  cases h with
  | same => rfl
  | zero allowed fits =>
    have hsame := (Alike.zero allowed fits).leadingNumber?
    obtain ⟨d, hd, -⟩ := leadingNumber?_of_literal (.inr fits)
    rw [Reckoner.operandValue, Reckoner.operandValue, ← hsame, hd]

theorem calculate {v w x y : Text} (hl : Alike zeros v w) (hr : Alike zeros x y) (op : Operator) :
    calculate v op x = calculate w op y := by
  rw [Reckoner.calculate, Reckoner.calculate, hl.operandValue, hr.operandValue]

end Alike

theorem Option.Rel.or {α β : Type} {R : α → β → Prop} {a c : Option α} {b d : Option β}
    (h : Option.Rel R a b) (h' : Option.Rel R c d) : Option.Rel R (a.or c) (b.or d) := by
  cases h with
  | none => exact h'
  | some h => exact .some h

theorem Option.Rel.map {α β γ δ : Type} {R : α → β → Prop} {S : γ → δ → Prop} {a : Option α}
    {b : Option β} (f : α → γ) (g : β → δ) (h : Option.Rel R a b)
    (hfg : ∀ x y, a = some x → b = some y → R x y → S (f x) (g y)) :
    Option.Rel S (a.map f) (b.map g) := by
  cases h with
  | none => exact .none
  | some h => exact .some (hfg _ _ rfl rfl h)

namespace Row

variable {level : Level} {opens afterWord : Bool} {row next : Row}

/-- The first items have spaces in front of them both or neither. -/
def SameFront (row next : Row) : Prop :=
  ∀ gap ∈ headGap row, ∀ other ∈ headGap next, gap = 0 ↔ other = 0

/-- What follows a sign is attached to it both times or neither time, and is the same if it is. -/
def SameBehind (row next : Row) : Prop :=
  SameFront row next ∧
    (headGap row = some 0 → row.head?.map Item.mark = next.head?.map Item.mark)

/-- Rows with the same operators, alike words, and the same signs. -/
inductive Twin (zeros : Bool) : (afterWord : Bool) → Row → Row → Prop where
  | nil {afterWord : Bool} : Twin zeros afterWord [] []
  | word {gap other : Nat} {v w : Text} {row next : Row} (alike : Alike zeros v w)
    (rest : Twin zeros true row next) :
    Twin zeros false (⟨gap, .word v⟩ :: row) (⟨other, .word w⟩ :: next)
  | operator {afterWord : Bool} {gap other : Nat} (op : Operator) {row next : Row}
    (behind : afterWord = false → op = .minus → SameBehind row next)
    (rest : Twin zeros false row next) :
    Twin zeros afterWord (⟨gap, .operator op⟩ :: row) (⟨other, .operator op⟩ :: next)

theorem SameFront.of_eq (h : headGap row = headGap next) : SameFront row next := by
  intro gap hgap other hother
  rw [h, hother] at hgap
  rw [Option.some.inj hgap]

theorem SameFront.of_headGap {first second : Row} (h : SameFront row next)
    (hr : headGap first = headGap row) (hn : headGap second = headGap next) :
    SameFront first second := by
  simpa [SameFront, hr, hn] using h

namespace Twin

theorem signedItems_append {t : Text} (ht : IsSigned IsWord t) (gap other : Nat)
    (h : Twin zeros true row next) :
    Twin zeros false (signedItems gap t ++ row) (signedItems other t ++ next) := by
  rcases ht with hw | ⟨w, rfl, -⟩
  · rw [signedItems_word hw, signedItems_word hw]
    exact .word (.same t) h
  · rw [signedItems_minus, signedItems_minus]
    exact .operator .minus (fun _ _ => ⟨by simp [SameFront], by simp⟩) (.word (.same w) h)

def Operands (zeros : Bool) (p q : Operand × Row) : Prop :=
  Alike zeros p.1.text q.1.text ∧ Twin zeros true p.2 q.2

theorem negative? (h : Twin zeros false row next) :
    Option.Rel (Operands zeros) (Row.negative? row) (Row.negative? next) := by
  cases h with
  | nil => exact .none
  | word => exact .none
  | operator op behind rest =>
    cases op with
    | minus =>
      obtain ⟨hfront, hmark⟩ := behind rfl rfl
      cases rest with
      | nil => exact .none
      | operator =>
        simp only [Row.negative?]
        exact .none
      | @word gap other v w row next alike rest =>
        have hgap : gap = 0 ↔ other = 0 := by simpa [SameFront] using hfront
        by_cases h0 : gap = 0
        · obtain rfl : other = 0 := hgap.1 h0
          subst h0
          obtain rfl : v = w := by simpa using hmark rfl
          simp only [Row.negative?]
          split
          · exact .some ⟨.same _, rest⟩
          · exact .none
        · obtain ⟨m, rfl⟩ := Nat.exists_eq_succ_of_ne_zero h0
          obtain ⟨n, rfl⟩ := Nat.exists_eq_succ_of_ne_zero (mt hgap.2 h0)
          exact .none
    | _ => exact .none

theorem unsigned? (h : Twin zeros false row next) :
    Option.Rel (Operands zeros) (Row.unsigned? row) (Row.unsigned? next) := by
  cases h with
  | nil => exact .none
  | operator => exact .none
  | word alike rest =>
    simp only [Row.unsigned?, ← alike.isUnsigned]
    split
    · exact .some ⟨alike, rest⟩
    · exact .none

theorem signed? (h : Twin zeros false row next) :
    Option.Rel (Operands zeros) (Row.signed? row) (Row.signed? next) :=
  Option.Rel.or h.negative? h.unsigned?

def Completions (zeros : Bool) (p q : Nat × Operator × Operand × Row) : Prop :=
  p.2.1 = q.2.1 ∧ Operands zeros p.2.2 q.2.2

theorem completion? (h : Twin zeros true row next) :
    Option.Rel (Completions zeros) (Row.completion? level row) (Row.completion? level next) := by
  cases h with
  | nil => exact .none
  | operator op _ rest =>
    simp only [Row.completion?]
    split
    · exact Option.Rel.map _ _ rest.signed? fun p q _ _ hpq => ⟨rfl, hpq⟩
    · exact .none

/-- Alike left operands, with what twins keep of them when a value takes their place. -/
structure LeftOperands (zeros afterWord : Bool) (row next : Row) (p q : Row × Operand × Row) :
    Prop where
  operands : Operands zeros p.2 q.2
  replace : ∀ {t : Text} {after other : Row}, IsSigned IsWord t → Twin zeros true after other →
    Twin zeros afterWord (p.1 ++ (signedItems p.2.1.gap t ++ after))
      (q.1 ++ (signedItems q.2.1.gap t ++ other))
  gaps : ∀ (t : Text) (after : Row),
    headGap (p.1 ++ (signedItems p.2.1.gap t ++ after)) = headGap row ∧
      headGap (q.1 ++ (signedItems q.2.1.gap t ++ after)) = headGap next
  marks : ∀ (t : Text) (after other : Row),
    (p.1 ++ (signedItems p.2.1.gap t ++ after)).head?.map Item.mark =
      (q.1 ++ (signedItems q.2.1.gap t ++ other)).head?.map Item.mark

theorem mark_signedItems (gap other : Nat) (t : Text) (after behind : Row) :
    (signedItems gap t ++ after).head?.map Item.mark =
      (signedItems other t ++ behind).head?.map Item.mark := by
  unfold signedItems
  split <;> rfl

/-- An operand at the beginning of twins is a left operand of both. -/
theorem leftOperands_of_operands {p q : Operand × Row} (hp : Row.signed? row = some p)
    (hq : Row.signed? next = some q) (h : Operands zeros p q) :
    LeftOperands zeros false row next ([], p) ([], q) where
  operands := h
  replace ht hafter := signedItems_append ht _ _ hafter
  gaps t after := by
    obtain ⟨rfl, -⟩ := signed?_spec hp
    obtain ⟨rfl, -⟩ := signed?_spec hq
    simp
  marks t after other := mark_signedItems _ _ t after other

theorem leftOperand? (h : Twin zeros afterWord row next)
    (ho : opens = true → afterWord = false ∧ SameFront row next) :
    Option.Rel (LeftOperands zeros afterWord row next) (Row.leftOperand? opens row)
      (Row.leftOperand? opens next) := by
  cases h with
  | nil => exact .none
  | word alike rest =>
    refine Option.Rel.map _ _ (Twin.word alike rest).unsigned? fun p q hp hq hpq => ?_
    exact leftOperands_of_operands (Option.or_eq_some_iff.2 (.inr ⟨rfl, hp⟩))
      (Option.or_eq_some_iff.2 (.inr ⟨rfl, hq⟩)) hpq
  | @operator _ gap other op row next behind rest =>
    refine Option.Rel.or ?_ (Option.Rel.map _ _ rest.negative? fun p q hp hq hpq => ?_)
    · cases opens with
      | false => exact .none
      | true =>
        obtain ⟨rfl, hfront⟩ := ho rfl
        have hgap : gap = 0 ↔ other = 0 := by simpa [SameFront] using hfront
        have hsame : (gap == 0) = (other == 0) := by
          rw [Bool.eq_iff_iff, beq_iff_eq, beq_iff_eq, hgap]
        simp only [Bool.true_and, hsame]
        split
        · refine Option.Rel.map _ _ (Twin.operator op behind rest).negative? fun p q hp hq hpq => ?_
          exact leftOperands_of_operands (Option.or_eq_some_iff.2 (.inl hp))
            (Option.or_eq_some_iff.2 (.inl hq)) hpq
        · exact .none
    · obtain ⟨hrow, -⟩ := signed?_spec (Option.or_eq_some_iff.2 (.inl hp))
      obtain ⟨hnext, -⟩ := signed?_spec (Option.or_eq_some_iff.2 (.inl hq))
      refine ⟨hpq, fun {t after behindOther} ht hafter => ?_, fun t after => ⟨rfl, rfl⟩,
        fun t after behindOther => rfl⟩
      have h1 : headGap (signedItems p.1.gap t ++ after) = headGap row := by
        rw [hrow, headGap_signedItems_append, headGap_signedItems_append]
      have h2 : headGap (signedItems q.1.gap t ++ behindOther) = headGap next := by
        rw [hnext, headGap_signedItems_append, headGap_signedItems_append]
      exact .operator op (fun hfalse hminus => ⟨(behind hfalse hminus).1.of_headGap h1 h2,
        fun _ => mark_signedItems _ _ t _ _⟩) (signedItems_append ht _ _ hafter)

/-- The same operation in twins: it has one outcome, and each value leaves twins. -/
structure Sites (zeros afterWord : Bool) (row next : Row) (s u : Site) : Prop where
  outcome : s.outcome = u.outcome
  replace : ∀ v, Twin zeros afterWord (s.replace v) (u.replace v)
  gaps : ∀ v, headGap (s.replace v) = headGap row ∧ headGap (u.replace v) = headGap next
  behind : SameBehind row next → ∀ v, SameBehind (s.replace v) (u.replace v)

theorem siteAt? (h : Twin zeros afterWord row next)
    (ho : opens = true → afterWord = false ∧ SameFront row next) :
    Option.Rel (Sites zeros afterWord row next) (Row.siteAt? level opens row)
      (Row.siteAt? level opens next) := by
  have hleft := h.leftOperand? ho
  unfold Row.siteAt?
  generalize Row.leftOperand? opens row = found at hleft
  generalize Row.leftOperand? opens next = other at hleft
  cases hleft with
  | none => exact .none
  | @some p q hpq =>
    obtain ⟨kept, x, rest⟩ := p
    obtain ⟨same, y, more⟩ := q
    refine Option.Rel.map _ _ hpq.operands.2.completion? ?_
    rintro ⟨gap, op, right, after⟩ ⟨other, sign, operand, behind⟩ - - ⟨hop, halike, hafter⟩
    obtain rfl : op = sign := hop
    exact ⟨hpq.operands.1.calculate halike op, fun v => hpq.replace (isSigned_render v) hafter,
      fun v => ⟨(hpq.gaps _ _).1, (hpq.gaps _ _).2⟩,
      fun hbehind v => ⟨hbehind.1.of_headGap (hpq.gaps _ _).1 (hpq.gaps _ _).2,
        fun _ => hpq.marks _ _ _⟩⟩

/-- The leftmost operation of twins is the same. -/
theorem site? (h : Twin zeros afterWord row next)
    (ho : opens = true → afterWord = false ∧ SameFront row next) :
    Option.Rel (Sites zeros afterWord row next) (Row.site? level opens row)
      (Row.site? level opens next) := by
  induction h generalizing opens with
  | nil => exact .none
  | word alike rest ih =>
    refine Option.Rel.or ((Twin.word alike rest).siteAt? ho)
      (Option.Rel.map _ _ (ih (by simp)) fun s u _ _ hsu => ?_)
    exact ⟨hsu.outcome, fun v => .word alike (hsu.replace v), fun v => ⟨rfl, rfl⟩,
      fun hbehind v => hbehind⟩
  | operator op behind rest ih =>
    refine Option.Rel.or ((Twin.operator op behind rest).siteAt? ho)
      (Option.Rel.map _ _ (ih (by simp)) fun s u _ _ hsu => ?_)
    exact ⟨hsu.outcome,
      fun v => .operator op (fun hf hm => hsu.behind (behind hf hm) v) (hsu.replace v),
      fun v => ⟨rfl, rfl⟩, fun hbehind v => hbehind⟩

theorem operatorCount (trailing other : Nat) (h : Twin zeros afterWord row next)
    (hv : Valid afterWord row) :
    Reckoner.operatorCount level (text trailing row) =
      Reckoner.operatorCount level (text other next) := by
  induction h with
  | nil => rw [text_nil, text_nil, operatorCount_spaces, operatorCount_spaces]
  | @word gap width v w row next alike rest ih =>
    obtain ⟨-, hword, hrow⟩ := (valid_word_cons _ _ _ _).1 hv
    simp only [text_cons, Mark.text_word, operatorCount_append, operatorCount_spaces,
      operatorCount_eq_zero level hword.not_operator,
      operatorCount_eq_zero level (alike.isWord hword).not_operator, ih hrow]
  | operator op behind rest ih =>
    simp only [text_cons, Mark.text_operator, List.singleton_append, operatorCount_append,
      operatorCount_spaces, operatorCount_symbol_cons, ih ((valid_operator_cons _ _ _ _).1 hv)]

/-- A literal that is attached to its sign is the same in twins. -/
theorem literal_iff (h : Twin zeros false row next) (w : Text) :
    (∃ gap, row = [⟨gap, .operator .minus⟩, ⟨0, .word w⟩]) ↔
      ∃ gap, next = [⟨gap, .operator .minus⟩, ⟨0, .word w⟩] := by
  cases h with
  | nil => simp
  | word => simp
  | @operator _ gap other op row next behind rest =>
    by_cases hminus : op = .minus
    · subst hminus
      obtain ⟨hfront, hmark⟩ := behind rfl rfl
      cases rest with
      | nil => simp
      | operator => simp
      | @word width breadth v u row next alike rest =>
        have hgap : width = 0 ↔ breadth = 0 := by simpa [SameFront] using hfront
        have hnil : row = [] ↔ next = [] := by cases rest <;> simp
        constructor
        · rintro ⟨k, he⟩
          obtain ⟨-, ⟨rfl, rfl⟩, hrow⟩ := by simpa using he
          obtain rfl : v = u := by simpa using hmark rfl
          exact ⟨other, by rw [hgap.1 rfl, hnil.1 hrow]⟩
        · rintro ⟨k, he⟩
          obtain ⟨-, ⟨rfl, rfl⟩, hnext⟩ := by simpa using he
          obtain rfl : width = 0 := hgap.2 rfl
          obtain rfl : v = u := by simpa using hmark rfl
          exact ⟨gap, by rw [hnil.2 hnext]⟩
    · simp [hminus]

theorem isDone_iff (h : Twin zeros false row next) (hv : Valid false row)
    (hfront : SameFront row next) : row.IsDone ↔ next.IsDone := by
  constructor
  · intro hdone
    cases hdone with
    | nil =>
      cases h
      exact .nil
    | word fits =>
      cases h with
      | word alike rest =>
        cases rest
        exact .word (alike.isWord fits)
    | @literal w fits =>
      obtain ⟨gap, rfl⟩ := (h.literal_iff w).1 ⟨0, rfl⟩
      obtain rfl : gap = 0 := by simpa [SameFront] using hfront
      exact .literal fits
  · intro hdone
    cases hdone with
    | nil =>
      cases h
      exact .nil
    | word fits =>
      cases h with
      | word alike rest =>
        cases rest
        exact .word ((valid_word_cons _ _ _ _).1 hv).2.1
    | @literal w fits =>
      obtain ⟨gap, rfl⟩ := (h.literal_iff w).2 ⟨0, rfl⟩
      obtain rfl : gap = 0 := by simpa [SameFront] using hfront
      exact .literal fits

theorem doubleNegated? {trailing other : Nat} (h : Twin zeros false row next)
    (hv : Valid false row) (hn : Valid false next) (hfront : SameFront row next)
    (htrailing : trailing = 0 ↔ other = 0) :
    Reckoner.doubleNegated? (text trailing row) = Reckoner.doubleNegated? (text other next) := by
  have hshape : ∀ w, (∃ gap, row = [⟨0, .operator .minus⟩, ⟨gap, .operator .minus⟩, ⟨0, .word w⟩]) ↔
      ∃ gap, next = [⟨0, .operator .minus⟩, ⟨gap, .operator .minus⟩, ⟨0, .word w⟩] := by
    intro w
    cases h with
    | nil => simp
    | word => simp
    | @operator _ gap width op row next behind rest =>
      have hgap : gap = 0 ↔ width = 0 := by simpa [SameFront] using hfront
      have hrest := rest.literal_iff w
      simp only [List.cons.injEq, Item.mk.injEq, Mark.operator.injEq, exists_and_left, hrest, hgap]
  apply Option.ext
  intro w
  rw [doubleNegated?_text_iff hv, doubleNegated?_text_iff hn, htrailing, hshape w]

end Twin

theorem operatorCount_replace_le (trailing : Nat) {other : Level} (hm : .minus ∉ other)
    (s : Site) (v : Float) :
    operatorCount other (text trailing (s.replace v)) ≤
      operatorCount other (text trailing s.row) := by
  have happend : ∀ (before row : Row), operatorCount other (text trailing (before ++ row)) =
      operatorCount other (text 0 before) + operatorCount other (text trailing row) := by
    intro before row
    induction before with
    | nil => simp
    | cons item before ih => simp [text, ih, Nat.add_assoc]
  rw [Site.replace, Site.row, happend s.before, happend s.before]
  simp only [text_signedItems_append, operatorCount_append, operatorCount_render hm, text_cons]
  omega

end Row

/-- How two computations end alike: with related results or with the same fault. -/
inductive Agree {α β : Type} (R : α → β → Prop) : Except Fault α → Except Fault β → Prop where
  | ok {a : α} {b : β} (related : R a b) : Agree R (.ok a) (.ok b)
  | error (fault : Fault) : Agree R (.error fault) (.error fault)

theorem Agree.exists_ok {α β : Type} {R : α → β → Prop} {x : Except Fault α} {y : Except Fault β}
    (h : Agree R x y) {a : α} (hx : x = .ok a) : ∃ b, y = .ok b ∧ R a b := by
  subst hx
  cases h with
  | ok related => exact ⟨_, rfl, related⟩

/-- Texts of twin rows; spaces stand at the end of both or of neither. On a level of sums nothing is
to be multiplied or divided any more. -/
structure Twins (zeros : Bool) (level : Level) (t s : Text) : Prop where
  rows : ∃ trailing other row next, Row.Valid false row ∧ Row.Valid false next ∧
    Row.Twin zeros false row next ∧ Row.SameFront row next ∧ (trailing = 0 ↔ other = 0) ∧
      t = Row.text trailing row ∧ s = Row.text other next
  summed : .minus ∈ level → operatorCount Operator.multiplicative t = 0

inductive Round.Rel (R : Text → Text → Prop) : Round → Round → Prop where
  | finished {t s : Text} (related : R t s) : Rel R (.finished t) (.finished s)
  | ongoing {t s : Text} (related : R t s) : Rel R (.ongoing t) (.ongoing s)

namespace Twins

variable {level : Level} {t s : Text}

theorem word {w : Text} (hw : IsDecimal w ∨ IsFraction w) : Twins zeros level w w where
  rows := by
    have hword := isWord_of_unsigned hw
    exact ⟨0, 0, [⟨0, .word w⟩], [⟨0, .word w⟩], by simp [hword], by simp [hword],
      .word (.same w) .nil, by simp [Row.SameFront], Iff.rfl, by simp, by simp⟩
  summed _ := operatorCount_eq_zero _ (isWord_of_unsigned hw).not_operator

theorem of_rows {trailing other : Nat} {row next : Row} (hv : Row.Valid false row)
    (hn : Row.Valid false next) (htwin : Row.Twin zeros false row next)
    (hfront : Row.SameFront row next) (htrailing : trailing = 0 ↔ other = 0) :
    Twins zeros Operator.multiplicative (Row.text trailing row) (Row.text other next) where
  rows := ⟨trailing, other, row, next, hv, hn, htwin, hfront, htrailing, rfl, rfl⟩
  summed hm := absurd hm (by decide)

theorem settle (h : Twins zeros level t s) (hl : level ∈ Operator.levels) (contracted : Bool) :
    Agree (Round.Rel (Twins zeros level)) (Reckoner.settle level contracted t)
      (Reckoner.settle level contracted s) := by
  have hrelated := h
  obtain ⟨⟨trailing, other, row, next, hv, hn, htwin, hfront, htrailing, rfl, rfl⟩, hsummed⟩ := h
  have hdouble := htwin.doubleNegated? hv hn hfront htrailing
  have hsettled :
      IsSettled level (Row.text trailing row) ↔ IsSettled level (Row.text other next) := by
    have hcount := @Row.Twin.operatorCount _ Operator.multiplicative _ _ _ trailing other htwin hv
    simp only [Operator.levels, List.mem_cons, List.not_mem_nil, or_false] at hl
    rcases hl with rfl | rfl
    · rw [isSettled_multiplicative, isSettled_multiplicative, hcount]
    · have hzero := hsummed (by decide)
      rw [Row.isSettled_text_iff hv hzero, Row.isSettled_text_iff hn (hcount ▸ hzero)]
      exact htwin.isDone_iff hv hfront
  by_cases hd : .minus ∈ level ∧ (doubleNegated? (Row.text trailing row)).isSome
  · obtain ⟨hm, hsome⟩ := hd
    obtain ⟨w, hw⟩ := Option.isSome_iff_exists.1 hsome
    rw [settle_of_doubleNegated contracted hm hw,
      settle_of_doubleNegated contracted hm (hdouble ▸ hw)]
    exact .ok (.ongoing (.word (doubleNegated?_eq_some_iff.1 hw).1))
  · have hnone : .minus ∈ level → doubleNegated? (Row.text trailing row) = none := fun hm => by
      simpa [hm] using hd
    rw [settle_of_plain contracted hnone, settle_of_plain contracted (hdouble ▸ hnone)]
    by_cases hs : IsSettled level (Row.text trailing row)
    · rw [if_pos hs, if_pos (hsettled.1 hs)]
      exact .ok (.finished hrelated)
    · rw [if_neg hs, if_neg (mt hsettled.2 hs)]
      cases contracted with
      | false => exact .error _
      | true => exact .ok (.ongoing hrelated)

/-- A round carries out the same operation on twins. -/
theorem round (h : Twins zeros level t s) (hl : level ∈ Operator.levels) :
    Agree (Round.Rel (Twins zeros level)) (Reckoner.round level t) (Reckoner.round level s) := by
  have hrelated := h
  obtain ⟨⟨trailing, other, row, next, hv, hn, htwin, hfront, htrailing, rfl, rfl⟩, hsummed⟩ := h
  rw [Row.round_text trailing hv, Row.round_text other hn]
  have hsite := @Row.Twin.site? _ level true _ _ _ htwin fun _ => ⟨rfl, hfront⟩
  cases hrow : Row.site? level true row with
  | none =>
    cases hnext : Row.site? level true next with
    | none => exact hrelated.settle hl false
    | some u => rw [hrow, hnext] at hsite; cases hsite
  | some s =>
    cases hnext : Row.site? level true next with
    | none => rw [hrow, hnext] at hsite; cases hsite
    | some u =>
      rw [hrow, hnext] at hsite
      cases hsite with
      | some hsu =>
        simp only [← hsu.outcome]
        cases s.outcome with
        | error fault => exact .error fault
        | ok v =>
          have hvrow := hv.replace (by simp) hrow v
          have hvnext := hn.replace (by simp) hnext v
          refine Twins.settle ⟨⟨trailing, other, _, _, hvrow, hvnext, hsu.replace v, ?_, htrailing,
            rfl, rfl⟩, fun hm => ?_⟩ hl true
          · exact hfront.of_headGap (hsu.gaps v).1 (hsu.gaps v).2
          · have hle := @Row.operatorCount_replace_le trailing Operator.multiplicative
              (by decide) s v
            rw [(Row.site?_spec hv (by simp) hrow).1, hsummed hm] at hle
            omega

/-- A level reduces twins to twins. -/
theorem reduce (h : Twins zeros level t s) (hl : level ∈ Operator.levels) :
    Agree (Twins zeros level) (Reckoner.reduce level t) (Reckoner.reduce level s) := by
  induction t using round_induction level generalizing s with
  | step t ih =>
    have hround := h.round hl
    rw [reduce_eq level t, reduce_eq level s]
    generalize hr : Reckoner.round level t = a at hround
    generalize Reckoner.round level s = b at hround
    cases hround with
    | error fault => exact .error fault
    | ok hrel =>
      cases hrel with
      | finished hdone => exact .ok hdone
      | ongoing hgo => exact ih _ hr hgo

/-- Twins that the sums are done with have alike values. -/
theorem value (h : Twins zeros Operator.additive t s) (hs : IsSettled Operator.additive t) :
    Alike zeros (Text.trim t) (Text.trim s) := by
  obtain ⟨⟨trailing, other, row, next, hv, hn, htwin, hfront, htrailing, rfl, rfl⟩, hsummed⟩ := h
  cases (Row.isSettled_text_iff hv (hsummed (by decide))).1 hs with
  | nil =>
    cases htwin
    rw [Row.text_nil, Row.text_nil, trim_spaces, trim_spaces]
    exact .same []
  | @word gap v fits =>
    cases htwin with
    | @word _ width _ w _ _ alike rest =>
      cases rest
      have h1 := trim_word gap trailing fits
      have h2 := trim_word width other (alike.isWord fits)
      simp only [Row.text_cons, Mark.text_word, Row.text_nil, h1, h2]
      exact alike
  | @literal w fits =>
    obtain ⟨gap, rfl⟩ := (htwin.literal_iff w).1 ⟨0, rfl⟩
    obtain rfl : gap = 0 := by simpa [Row.SameFront] using hfront
    have h1 := trim_minus_word trailing (isWord_of_unsigned fits)
    have h2 := trim_minus_word other (isWord_of_unsigned fits)
    have htext : ∀ n, Row.text n [⟨0, .operator .minus⟩, ⟨0, .word w⟩] =
        '-' :: (w ++ List.replicate n ' ') := fun n => by simp [Operator.symbol]
    rw [htext, htext, h1, h2]
    exact .same _

/-- Twins have alike values or fail alike. -/
theorem evaluateFlat (h : Twins zeros Operator.multiplicative t s) :
    Agree (Alike zeros) (Reckoner.evaluateFlat t) (Reckoner.evaluateFlat s) := by
  have hproducts := h.reduce (by decide)
  unfold Reckoner.evaluateFlat
  rw [reduceAll_eq, reduceAll_eq]
  generalize hr : Reckoner.reduce Operator.multiplicative t = a at hproducts
  generalize Reckoner.reduce Operator.multiplicative s = b at hproducts
  cases hproducts with
  | error fault => exact .error fault
  | @ok u w hrelated =>
    have hsummed : Twins zeros Operator.additive u w :=
      ⟨hrelated.rows, fun _ => operatorCount_of_reduce hr⟩
    have hrow : IsRow u := by
      obtain ⟨trailing, other, row, next, hv, -, -, -, -, rfl, -⟩ := hrelated.rows
      exact ⟨trailing, row, hv, rfl⟩
    have hsums := hsummed.reduce (by decide)
    simp only
    generalize hd : Reckoner.reduce Operator.additive u = c at hsums
    generalize Reckoner.reduce Operator.additive w = d at hsums
    cases hsums with
    | error fault => exact .error fault
    | @ok d e hdone =>
      simp only
      have halike := hdone.value (isRow_of_reduce hrow hd).2
      generalize Text.trim d = x at halike
      generalize Text.trim e = y at halike
      cases halike with
      | same =>
        split
        · exact .ok (.same x)
        · exact .error _
      | zero allowed fits =>
        have h1 := isResult_of_unsigned (.inr fits)
        have h2 := isResult_of_unsigned (.inl (isDecimal_zero_cons fits))
        rw [h1, h2, Bool.or_true, Bool.or_true]
        exact .ok (.zero allowed fits)

end Twins

end Reckoner
