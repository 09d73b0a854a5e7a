import Reckoner.Proofs.Operands

/-!
# What the checks refuse

The checks are conditions on lexemes, some on neighbours and some on what is left without the
spaces. What they refuse can be said of the characters of a text alone. Most rules name what may not
begin anywhere in a text; they are decided one after the other, and the first that is broken decides
the fault.
-/

namespace Reckoner

open Literal

namespace Rules

def Occurs (p : Text → Prop) (t : Text) : Prop := ∃ u, u <:+ t ∧ p u

instance (p : Text → Prop) [DecidablePred p] (t : Text) : Decidable (Occurs p t) :=
  decidable_of_iff (∃ u ∈ t.tails, p u) (by simp [Occurs])

section Occurs

variable {p : Text → Prop} {s t : Text} {c : Char}

theorem occurs_nil (h : ¬ p []) : ¬ Occurs p [] := by
  simpa [Occurs] using h

theorem occurs_cons : Occurs p (c :: t) ↔ p (c :: t) ∨ Occurs p t := by
  simp only [Occurs, List.suffix_cons_iff]
  constructor
  · rintro ⟨u, rfl | hu, hp⟩
    · exact .inl hp
    · exact .inr ⟨u, hu, hp⟩
  · rintro (hp | ⟨u, hu, hp⟩)
    · exact ⟨_, .inl rfl, hp⟩
    · exact ⟨u, .inr hu, hp⟩

theorem Occurs.append (h : Occurs p t) (s : Text) : Occurs p (s ++ t) := by
  obtain ⟨u, hu, hp⟩ := h
  exact ⟨u, hu.trans (List.suffix_append s t), hp⟩

/-- Characters with which nothing of the kind begins make no difference. -/
theorem occurs_append_of_not (h : ∀ c ∈ s, ∀ u, ¬ p (c :: u)) : Occurs p (s ++ t) ↔ Occurs p t := by
  induction s with
  | nil => rfl
  | cons c s ih =>
    rw [List.cons_append, occurs_cons, ih fun a ha => h a (List.mem_cons_of_mem c ha)]
    exact or_iff_right (h c List.mem_cons_self _)

theorem occurs_spaces_append (n : Nat) (h : ∀ u, ¬ p (' ' :: u)) :
    Occurs p (List.replicate n ' ' ++ t) ↔ Occurs p t :=
  occurs_append_of_not fun _ hc u => (List.mem_replicate.1 hc).2 ▸ h u

/-- What never begins in the midst of a literal begins with its last character or behind it. -/
theorem occurs_literal
    (hp : ∀ a b t, isLiteralChar a = true → isLiteralChar b = true → ¬ p (a :: b :: t))
    {v : Text} {d : Char} (hv : ∀ c ∈ v, isLiteralChar c = true) (hd : d.isDigit = true)
    (rest : Text) : Occurs p (v ++ d :: rest) ↔ p (d :: rest) ∨ Occurs p rest := by
  induction v with
  | nil => exact occurs_cons
  | cons c v ih =>
    have hc := hv c List.mem_cons_self
    rw [List.cons_append, occurs_cons, ih fun a ha => hv a (List.mem_cons_of_mem c ha)]
    refine or_iff_right ?_
    cases v with
    | nil => exact hp c d rest hc (isLiteralChar_of_isDigit hd)
    | cons b v => exact hp c b _ hc (hv b (by simp))

end Occurs

def LoneNegative (t : Text) : Prop := ∃ w, (IsDecimal w ∨ IsFraction w) ∧ t = '-' :: w

def LetterTouches (t : Text) : Prop :=
  ∃ a b rest, t = a :: b :: rest ∧ (isWordChar a = true ∧ isWordChar b = true) ∧
    (a.isAlpha = true ∨ b.isAlpha = true)

/-- There is no character, or one that is foreign to expressions without variables. -/
def Foreign (t : Text) : Prop := t = [] ∨ ∃ c ∈ t, c ∉ "()0123456789.+-*/ ".toList

/-- A point has no digit behind it, or digits and then a second point. -/
def PointMisplaced (t : Text) : Prop :=
  ∃ rest, t = '.' :: rest ∧ ((∀ c ∈ rest.head?, c.isDigit = false) ∨
    ∃ ds more, (∀ c ∈ ds, c.isDigit = true) ∧ rest = ds ++ '.' :: more)

/-- An operand begins behind another with no more than spaces between them. A digit and a character
that could go on with its literal count only where there are spaces. -/
def OperandsMeet (t : Text) : Prop :=
  ∃ a n b rest, t = a :: (List.replicate n ' ' ++ b :: rest) ∧
    (a = ')' ∧ (isLiteralChar b = true ∨ b = '(') ∨ a.isDigit = true ∧ b = '(' ∨
      a.isDigit = true ∧ n ≠ 0 ∧ isLiteralChar b = true)

/-- An operator has no more than spaces between itself and another that is not a minus sign right in
front of a digit or a point. -/
def OperatorsMeet (t : Text) : Prop :=
  ∃ a n b rest, t = a :: (List.replicate n ' ' ++ b :: rest) ∧
    (isOperatorChar a = true ∧ isOperatorChar b = true) ∧
    ¬ (b = '-' ∧ ∃ c ∈ rest.head?, isLiteralChar c = true)

/-- An operator other than minus stands right behind an opening parenthesis, or any operator right
in front of a closing one. -/
def GroupBounded (t : Text) : Prop :=
  ∃ a b rest, t = a :: b :: rest ∧
    (a = '(' ∧ b ∈ "*/+".toList ∨ isOperatorChar a = true ∧ b = ')')

def OperatorMisplaced (t : Text) : Prop :=
  Occurs OperatorsMeet t ∨ (∃ c ∈ t.head?, c ∈ "*/+".toList) ∨ Occurs GroupBounded t ∨
    ∃ c ∈ t.getLast?, isOperatorChar c = true

/-- A text is spaces and another character in one way only. -/
theorem eq_spaces_append_iff {t rest : Text} {n : Nat} {b : Char} (hb : b ≠ ' ') :
    t = List.replicate n ' ' ++ b :: rest ↔
      n = (Text.spaces t).length ∧ Text.afterSpaces t = b :: rest := by
  constructor
  · rintro rfl
    obtain ⟨h1, h2⟩ := spaces_replicate_append n (t := b :: rest) (by simpa using hb)
    exact ⟨by rw [h1, List.length_replicate], h2⟩
  · rintro ⟨rfl, h⟩
    obtain ⟨k, hk⟩ := exists_spaces t
    rw [← h, hk, List.length_replicate, ← hk, Text.spaces_append_afterSpaces]

theorem spaces_length_ne_zero_iff (t : Text) :
    (Text.spaces t).length ≠ 0 ↔ t.head? = some ' ' := by
  cases t with
  | nil => simp [Text.spaces]
  | cons c t => by_cases hc : c = ' ' <;> simp [Text.spaces, hc]

theorem letterTouches_cons_cons (a b : Char) (t : Text) : LetterTouches (a :: b :: t) ↔
    (isWordChar a = true ∧ isWordChar b = true) ∧ (a.isAlpha = true ∨ b.isAlpha = true) := by
  simp [LetterTouches]

theorem pointMisplaced_cons (c : Char) (t : Text) : PointMisplaced (c :: t) ↔
    c = '.' ∧ ((∀ d ∈ t.head?, d.isDigit = false) ∨ (afterDigits t).head? = some '.') := by
  have hpoints : (∃ ds more, (∀ d ∈ ds, d.isDigit = true) ∧ t = ds ++ '.' :: more) ↔
      (afterDigits t).head? = some '.' := by
    constructor
    · rintro ⟨ds, more, hd, rfl⟩
      rw [(digits_append hd (by simp)).2]
      rfl
    · intro h
      obtain ⟨more, hmore⟩ := List.head?_eq_some_iff.1 h
      exact ⟨digits t, more, List.all_eq_true.1 List.all_takeWhile,
        by rw [← hmore, digits_append_afterDigits]⟩
  rw [← hpoints]
  constructor
  · rintro ⟨rest, ht, h⟩
    obtain ⟨rfl, rfl⟩ := List.cons.inj ht
    exact ⟨rfl, h⟩
  · rintro ⟨rfl, h⟩
    exact ⟨t, rfl, h⟩

theorem operandsMeet_cons (a : Char) (t : Text) : OperandsMeet (a :: t) ↔
    ∃ b ∈ (Text.afterSpaces t).head?, a = ')' ∧ (isLiteralChar b = true ∨ b = '(') ∨
      a.isDigit = true ∧ b = '(' ∨
      a.isDigit = true ∧ t.head? = some ' ' ∧ isLiteralChar b = true := by
  constructor
  · rintro ⟨x, n, b, rest, ht, h⟩
    obtain ⟨rfl, htail⟩ := List.cons.inj ht
    have hb : b ≠ ' ' := by
      rintro rfl
      simp [isLiteralChar] at h
    obtain ⟨rfl, hrest⟩ := (eq_spaces_append_iff hb).1 htail
    rw [spaces_length_ne_zero_iff] at h
    exact ⟨b, by simp [hrest], h⟩
  · rintro ⟨b, hb, h⟩
    obtain ⟨rest, hrest⟩ := List.head?_eq_some_iff.1 hb
    have hspace : b ≠ ' ' := by
      rintro rfl
      simp [isLiteralChar] at h
    refine ⟨a, _, b, rest, congrArg _ ((eq_spaces_append_iff hspace).2 ⟨rfl, hrest⟩), ?_⟩
    rwa [spaces_length_ne_zero_iff]

theorem operatorsMeet_cons (a : Char) (t : Text) : OperatorsMeet (a :: t) ↔
    isOperatorChar a = true ∧ ∃ b ∈ (Text.afterSpaces t).head?, isOperatorChar b = true ∧
      ¬ (b = '-' ∧ ∃ c ∈ (Text.afterSpaces t).tail.head?, isLiteralChar c = true) := by
  have hspace : ∀ b, isOperatorChar b = true → b ≠ ' ' := by
    rintro b hb rfl
    cases hb
  constructor
  · rintro ⟨x, n, b, rest, ht, ⟨ha, hb⟩, h⟩
    obtain ⟨rfl, htail⟩ := List.cons.inj ht
    obtain ⟨rfl, hrest⟩ := (eq_spaces_append_iff (hspace b hb)).1 htail
    exact ⟨ha, b, by simp [hrest], hb, by simpa [hrest] using h⟩
  · rintro ⟨ha, b, hhead, hb, h⟩
    obtain ⟨rest, hrest⟩ := List.head?_eq_some_iff.1 hhead
    refine ⟨a, _, b, rest, congrArg _ ((eq_spaces_append_iff (hspace b hb)).2 ⟨rfl, hrest⟩),
      ⟨ha, hb⟩, ?_⟩
    rwa [hrest] at h

theorem groupBounded_cons_cons (a b : Char) (t : Text) : GroupBounded (a :: b :: t) ↔
    a = '(' ∧ b ∈ "*/+".toList ∨ isOperatorChar a = true ∧ b = ')' := by
  simp [GroupBounded]

instance : DecidablePred LoneNegative
  | [] => isFalse (by simp [LoneNegative])
  | c :: t => decidable_of_iff (c = '-' ∧ isUnsigned t = true) (by
      rw [isUnsigned_iff]
      constructor
      · rintro ⟨rfl, h⟩
        exact ⟨t, h, rfl⟩
      · rintro ⟨w, h, ht⟩
        obtain ⟨rfl, rfl⟩ := List.cons.inj ht
        exact ⟨rfl, h⟩)

instance : DecidablePred LetterTouches
  | [] => isFalse (by simp [LetterTouches])
  | [_] => isFalse (by simp [LetterTouches])
  | a :: b :: t => decidable_of_iff' _ (letterTouches_cons_cons a b t)

-- The instances for characters at large try every character there is, so those for the members of
-- a list or an option are named.
instance : DecidablePred Foreign := fun t =>
  have : Decidable (∃ c ∈ t, c ∉ "()0123456789.+-*/ ".toList) := List.decidableBEx _ t
  inferInstanceAs (Decidable (_ ∨ _))

instance : DecidablePred PointMisplaced
  | [] => isFalse (by simp [PointMisplaced])
  | c :: t =>
    have : Decidable (∀ d ∈ t.head?, d.isDigit = false) := Option.decidableForallMem _
    decidable_of_iff' _ (pointMisplaced_cons c t)

instance : DecidablePred OperandsMeet
  | [] => isFalse (by simp [OperandsMeet])
  | a :: t => @decidable_of_iff' _ _ (operandsMeet_cons a t) (Option.decidableExistsMem _)

instance : DecidablePred OperatorsMeet
  | [] => isFalse (by simp [OperatorsMeet])
  | a :: t =>
    have : Decidable (∃ c ∈ (Text.afterSpaces t).tail.head?, isLiteralChar c = true) :=
      Option.decidableExistsMem _
    have : Decidable (∃ b ∈ (Text.afterSpaces t).head?, isOperatorChar b = true ∧
        ¬ (b = '-' ∧ ∃ c ∈ (Text.afterSpaces t).tail.head?, isLiteralChar c = true)) :=
      Option.decidableExistsMem _
    decidable_of_iff' _ (operatorsMeet_cons a t)

instance : DecidablePred GroupBounded
  | [] => isFalse (by simp [GroupBounded])
  | [_] => isFalse (by simp [GroupBounded])
  | a :: b :: t => decidable_of_iff' _ (groupBounded_cons_cons a b t)

instance : DecidablePred OperatorMisplaced := fun t =>
  have : Decidable (∃ c ∈ t.head?, c ∈ "*/+".toList) := Option.decidableExistsMem _
  have : Decidable (∃ c ∈ t.getLast?, isOperatorChar c = true) := Option.decidableExistsMem _
  inferInstanceAs (Decidable (_ ∨ _ ∨ _ ∨ _))

example : Occurs OperandsMeet "2 (3)".toList ∧ ¬ Occurs OperandsMeet "2.5".toList := by decide
example : OperatorMisplaced "1 + + 1".toList ∧ ¬ OperatorMisplaced "5 - -1".toList := by decide

end Rules

end Reckoner
