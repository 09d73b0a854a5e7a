import Mathlib
import Reckoner.Number.Leading
import Reckoner.Number.Literal
import Reckoner.Operator

/-!
# The shape of literals

What the readers of literals accept, said without them, and what they do in front of further text:
a literal is read whole whenever the text behind it stops it, that is, begins with neither a digit
nor a point.
-/

namespace Reckoner

/-- A character of two texts joined is one of the first or one of the second. -/
theorem append_eq_append_cons {s t before after : Text} {c : Char}
    (h : s ++ t = before ++ c :: after) :
    (∃ rest, s = before ++ c :: rest) ∨ ∃ front, before = s ++ front ∧ t = front ++ c :: after := by
  rcases List.append_eq_append_iff.1 h with ⟨front, hb, ht⟩ | ⟨u, hs, hu⟩
  · exact .inr ⟨front, hb, ht⟩
  · cases u with
    | nil => exact .inr ⟨[], by simpa using hs.symm, by simpa using hu.symm⟩
    | cons d u =>
      obtain ⟨rfl, -⟩ := List.cons.inj hu
      exact .inl ⟨u, hs⟩

/-- A character that the first of two texts lacks is one of the second. -/
theorem append_eq_append_cons_of_not_mem {s t before after : Text} {c : Char} (hs : c ∉ s)
    (h : s ++ t = before ++ c :: after) : ∃ front, before = s ++ front ∧ t = front ++ c :: after := by
  rcases append_eq_append_cons h with ⟨rest, rfl⟩ | hfront
  · exact absurd (by simp) hs
  · exact hfront

theorem cons_eq_append_cons_of_ne {a c : Char} {t before after : Text} (hne : a ≠ c)
    (h : a :: t = before ++ c :: after) : ∃ front, before = a :: front ∧ t = front ++ c :: after :=
  append_eq_append_cons_of_not_mem (by simpa using hne.symm) (show [a] ++ t = _ from h)

namespace Literal

def IsDigits (t : Text) : Prop := t ≠ [] ∧ ∀ c ∈ t, c.isDigit = true

def IsFraction (t : Text) : Prop := ∃ ds, IsDigits ds ∧ t = '.' :: ds

/-- Digits, or digits and a fraction. -/
def IsDecimal (t : Text) : Prop := IsDigits t ∨ ∃ ds f, IsDigits ds ∧ IsFraction f ∧ t = ds ++ f

def isLiteralChar (c : Char) : Bool := c.isDigit || c == '.'

theorem isLiteralChar_of_isDigit {c : Char} (h : c.isDigit = true) : isLiteralChar c = true := by
  simp [isLiteralChar, h]

/-- A text that no literal in front of it reaches into. -/
def Stops (t : Text) : Prop := ∀ c ∈ t.head?, c.isDigit = false ∧ c ≠ '.'

@[simp] theorem stops_nil : Stops [] := by simp [Stops]

@[simp] theorem stops_cons (c : Char) (t : Text) :
    Stops (c :: t) ↔ c.isDigit = false ∧ c ≠ '.' := by simp [Stops]

theorem takeWhile_append_stop {α : Type} {p : α → Bool} {l r : List α} (hl : ∀ a ∈ l, p a = true)
    (hr : ∀ a ∈ r.head?, p a = false) :
    (l ++ r).takeWhile p = l ∧ (l ++ r).dropWhile p = r := by
  rw [List.takeWhile_append_of_pos hl, List.dropWhile_append_of_pos hl]
  cases r with
  | nil => simp
  | cons a r => simp [hr a rfl]

theorem digits_append {ds rest : Text} (hd : ∀ c ∈ ds, c.isDigit = true)
    (hr : ∀ c ∈ rest.head?, c.isDigit = false) :
    digits (ds ++ rest) = ds ∧ afterDigits (ds ++ rest) = rest :=
  takeWhile_append_stop hd hr

theorem digits_of_stops {rest : Text} (h : ∀ c ∈ rest.head?, c.isDigit = false) :
    digits rest = [] ∧ afterDigits rest = rest := by
  simpa using @digits_append [] rest (by simp) h

theorem afterDigits_head (t : Text) : ∀ c ∈ (afterDigits t).head?, c.isDigit = false := by
  intro c hc
  have := List.head?_dropWhile_not Char.isDigit t
  rw [afterDigits] at hc
  simp only [Option.mem_def] at hc
  rw [hc] at this
  simpa using this

theorem isDigits_digits {t : Text} (h : (digits t).isEmpty = false) : IsDigits (digits t) := by
  refine ⟨by simpa using h, ?_⟩
  exact List.all_eq_true.1 List.all_takeWhile

theorem IsDigits.head {t : Text} (h : IsDigits t) : ∃ c r, t = c :: r ∧ c.isDigit = true := by
  cases t with
  | nil => exact absurd rfl h.1
  | cons c r => exact ⟨c, r, rfl, h.2 c (by simp)⟩

theorem IsDigits.concat {w : Text} (h : IsDigits w) :
    ∃ v d, w = v ++ [d] ∧ d.isDigit = true ∧ ∀ c ∈ v, c.isDigit = true := by
  rcases List.eq_nil_or_concat w with rfl | ⟨v, d, rfl⟩
  · exact absurd rfl h.1
  · rw [List.concat_eq_append] at h ⊢
    exact ⟨v, d, rfl, h.2 d (by simp), fun c hc => h.2 c (by simp [hc])⟩

theorem IsFraction.append_head {f : Text} (h : IsFraction f) (t : Text) :
    ∀ c ∈ (f ++ t).head?, c.isDigit = false := by
  obtain ⟨ds, -, rfl⟩ := h
  simp only [List.cons_append, List.head?_cons, Option.mem_some_iff]
  rintro c rfl
  decide

theorem Stops.digit {t : Text} (h : Stops t) : ∀ c ∈ t.head?, c.isDigit = false :=
  fun c hc => (h c hc).1

theorem IsDecimal.head {t : Text} (h : IsDecimal t) : ∃ c r, t = c :: r ∧ c.isDigit = true := by
  rcases h with h | ⟨ds, f, hd, -, rfl⟩
  · exact h.head
  · obtain ⟨c, r, rfl, hc⟩ := hd.head
    exact ⟨c, r ++ f, rfl, hc⟩

theorem IsDigits.cons {c : Char} {ds : Text} (hc : c.isDigit = true)
    (h : ∀ a ∈ ds, a.isDigit = true) : IsDigits (c :: ds) := by
  refine ⟨by simp, fun a ha => ?_⟩
  rcases List.mem_cons.1 ha with rfl | ha
  · exact hc
  · exact h a ha

/-- A digit in front of a literal makes it a longer one. -/
theorem isDecimal_cons {c : Char} {w : Text} (hc : c.isDigit = true)
    (hw : IsDecimal w ∨ IsFraction w) : IsDecimal (c :: w) := by
  rcases hw with (hw | ⟨ds, f, hds, hf, rfl⟩) | hf
  · exact .inl (.cons hc hw.2)
  · exact .inr ⟨c :: ds, f, .cons hc hds.2, hf, rfl⟩
  · exact .inr ⟨[c], w, .cons hc (by simp), hf, rfl⟩

/-- A literal is digits and points and ends in a digit. -/
theorem concat_of_literal {w : Text} (h : IsDecimal w ∨ IsFraction w) :
    ∃ v d, w = v ++ [d] ∧ d.isDigit = true ∧ ∀ c ∈ v, isLiteralChar c = true := by
  have hfraction : ∀ {f : Text}, IsFraction f →
      ∃ v d, f = v ++ [d] ∧ d.isDigit = true ∧ ∀ c ∈ v, isLiteralChar c = true := by
    rintro f ⟨ds, hds, rfl⟩
    obtain ⟨v, d, rfl, hd, hv⟩ := hds.concat
    refine ⟨'.' :: v, d, rfl, hd, fun c hc => ?_⟩
    rcases List.mem_cons.1 hc with rfl | hc
    · rfl
    · exact isLiteralChar_of_isDigit (hv c hc)
  rcases h with (h | ⟨ds, f, hds, hf, rfl⟩) | h
  · obtain ⟨v, d, rfl, hd, hv⟩ := h.concat
    exact ⟨v, d, rfl, hd, fun c hc => isLiteralChar_of_isDigit (hv c hc)⟩
  · obtain ⟨v, d, rfl, hd, hv⟩ := hfraction hf
    refine ⟨ds ++ v, d, by simp, hd, fun c hc => ?_⟩
    exact (List.mem_append.1 hc).elim (fun hc => isLiteralChar_of_isDigit (hds.2 c hc)) (hv c)
  · exact hfraction h

theorem ne_space_of_isLiteralChar {c : Char} (h : isLiteralChar c = true) : c ≠ ' ' := by
  rintro rfl
  cases h

/-- A fraction is read whole in front of what is no digit. -/
theorem fraction?_append_of_not_digit {f rest : Text} (hf : IsFraction f)
    (hr : ∀ c ∈ rest.head?, c.isDigit = false) : fraction? (f ++ rest) = some (f, rest) := by
  obtain ⟨ds, hd, rfl⟩ := hf
  obtain ⟨h1, h2⟩ := digits_append hd.2 hr
  have hne : ds.isEmpty = false := by simpa using hd.1
  simp [fraction?, h1, h2, hne]

/-- A fraction is read whole. -/
theorem fraction?_append {f rest : Text} (hf : IsFraction f) (hr : Stops rest) :
    fraction? (f ++ rest) = some (f, rest) :=
  fraction?_append_of_not_digit hf hr.digit

theorem fraction?_of_not_point {t : Text} (h : t.head? ≠ some '.') : fraction? t = none := by
  unfold fraction?
  split
  · simp at h
  · rfl

theorem decimal?_of_not_digit {t : Text} (h : ∀ c ∈ t.head?, c.isDigit = false) :
    decimal? t = none := by
  simp [decimal?, (digits_of_stops h).1]

/-- A decimal is read whole. -/
theorem decimal?_append {d rest : Text} (hd : IsDecimal d) (hr : Stops rest) :
    decimal? (d ++ rest) = some (d, rest) := by
  rcases hd with hd | ⟨ds, f, hd, hf, rfl⟩
  · obtain ⟨h1, h2⟩ := digits_append hd.2 hr.digit
    have hne : d.isEmpty = false := by simpa using hd.1
    have hp : fraction? rest = none := by
      apply fraction?_of_not_point
      intro h
      exact (hr '.' h).2 rfl
    simp [decimal?, h1, h2, hne, hp]
  · obtain ⟨h1, h2⟩ := digits_append hd.2 (hf.append_head rest)
    have hne : ds.isEmpty = false := by simpa using hd.1
    simp [decimal?, List.append_assoc, h1, h2, hne, fraction?_append hf hr]

theorem fraction?_none_of_digit {c : Char} {t : Text} (h : c.isDigit = true) :
    fraction? (c :: t) = none := by
  apply fraction?_of_not_point
  rintro he
  obtain rfl : c = '.' := by simpa using he
  exact absurd h (by decide)

/-- No literal can be read both as a decimal and as a fraction. -/
theorem fraction?_decimal_append {d : Text} (hd : IsDecimal d) (t : Text) :
    fraction? (d ++ t) = none := by
  obtain ⟨c, r, rfl, hc⟩ := hd.head
  exact fraction?_none_of_digit hc

theorem decimal?_fraction_append {f : Text} (hf : IsFraction f) (t : Text) :
    decimal? (f ++ t) = none :=
  decimal?_of_not_digit (hf.append_head t)

theorem unsigned?_append {t rest : Text} (ht : IsDecimal t ∨ IsFraction t) (hr : Stops rest) :
    unsigned? (t ++ rest) = some (t, rest) := by
  rcases ht with hd | hf
  · simp [unsigned?, decimal?_append hd hr]
  · simp [unsigned?, decimal?_fraction_append hf, fraction?_append hf hr]

theorem negative?_append {d rest : Text} (hd : IsDecimal d) (hr : Stops rest) :
    negative? ('-' :: (d ++ rest)) = some ('-' :: d, rest) := by
  simp [negative?, decimal?_append hd hr]

theorem negative?_of_not_minus {t : Text} (h : t.head? ≠ some '-') : negative? t = none := by
  unfold negative?
  split
  · simp at h
  · rfl

theorem negative?_unsigned_append {w : Text} (hw : IsDecimal w ∨ IsFraction w) (t : Text) :
    negative? (w ++ t) = none := by
  apply negative?_of_not_minus
  rcases hw with hd | ⟨ds, -, rfl⟩
  · obtain ⟨c, r, rfl, hc⟩ := hd.head
    rintro he
    obtain rfl : c = '-' := by simpa using he
    exact absurd hc (by decide)
  · simp

theorem negative?_cons_of_not_digit (c : Char) {t : Text}
    (h : ∀ a ∈ t.head?, a.isDigit = false) : negative? (c :: t) = none := by
  unfold negative?
  split
  · next he =>
    obtain ⟨-, rfl⟩ := List.cons.inj he
    rw [decimal?_of_not_digit h]
    rfl
  · rfl

/-- No unsigned literal begins with a character that is neither a digit nor a point. -/
theorem unsigned?_of_stops {t : Text} (h : Stops t) : unsigned? t = none := by
  have hd := decimal?_of_not_digit h.digit
  have hf : fraction? t = none := by
    apply fraction?_of_not_point
    intro he
    exact (h '.' he).2 rfl
  simp [unsigned?, hd, hf]

/-- What a reader of fractions takes is a fraction. -/
theorem isFraction_of_fraction? {t f rest : Text} (h : fraction? t = some (f, rest)) :
    IsFraction f ∧ ∀ c ∈ rest.head?, c.isDigit = false := by
  unfold fraction? at h
  split at h
  · next u =>
    split at h
    · simp at h
    · next he =>
      simp only [Option.some.injEq, Prod.mk.injEq] at h
      obtain ⟨rfl, rfl⟩ := h
      exact ⟨⟨digits u, isDigits_digits (by simpa using he), rfl⟩, afterDigits_head u⟩
  · simp at h

/-- What a reader of decimals takes is a decimal. -/
theorem isDecimal_of_decimal? {t d rest : Text} (h : decimal? t = some (d, rest)) :
    IsDecimal d ∧ ∀ c ∈ rest.head?, c.isDigit = false := by
  unfold decimal? at h
  split at h
  · simp at h
  · next he =>
    have hd := isDigits_digits (t := t) (by simpa using he)
    split at h
    · next part r hf =>
      simp only [Option.some.injEq, Prod.mk.injEq] at h
      obtain ⟨rfl, rfl⟩ := h
      obtain ⟨h1, h2⟩ := isFraction_of_fraction? hf
      exact ⟨.inr ⟨_, _, hd, h1, rfl⟩, h2⟩
    · simp only [Option.some.injEq, Prod.mk.injEq] at h
      obtain ⟨rfl, rfl⟩ := h
      exact ⟨.inl hd, afterDigits_head t⟩

theorem isLiteral_of_unsigned? {t l rest : Text} (h : unsigned? t = some (l, rest)) :
    (IsDecimal l ∨ IsFraction l) ∧ ∀ c ∈ rest.head?, c.isDigit = false := by
  rcases Option.or_eq_some_iff.1 h with h | ⟨-, h⟩
  · exact ⟨.inl (isDecimal_of_decimal? h).1, (isDecimal_of_decimal? h).2⟩
  · exact ⟨.inr (isFraction_of_fraction? h).1, (isFraction_of_fraction? h).2⟩

/-- What begins with no digit can only be read as a fraction. -/
theorem unsigned?_cons_of_not_digit {c : Char} (h : c.isDigit = false) (t : Text) :
    unsigned? (c :: t) = fraction? (c :: t) := by
  rw [unsigned?, decimal?_of_not_digit (by simpa using h), Option.none_or]

theorem unsigned?_isSome_of_digit {c : Char} (h : c.isDigit = true) (t : Text) :
    (unsigned? (c :: t)).isSome = true := by
  have hdecimal : (decimal? (c :: t)).isSome = true := by
    simp only [decimal?, digits, List.takeWhile_cons, h, if_true, List.isEmpty_cons,
      Bool.false_eq_true, if_false]
    split <;> rfl
  simp [unsigned?, Option.isSome_or, hdecimal]

theorem unsigned?_cons_isSome_iff (c : Char) (t : Text) :
    (unsigned? (c :: t)).isSome = true ↔
      c.isDigit = true ∨ c = '.' ∧ ∃ d ∈ t.head?, d.isDigit = true := by
  cases hc : c.isDigit with
  | true => simp [unsigned?_isSome_of_digit hc]
  | false =>
    rw [unsigned?_cons_of_not_digit hc]
    by_cases hpoint : c = '.'
    · subst hpoint
      cases t with
      | nil => simp [fraction?, digits]
      | cons d t => cases hd : d.isDigit <;> simp [fraction?, digits, hd]
    · simp [fraction?_of_not_point (t := c :: t) (by simpa using hpoint), hpoint]

theorem unsigned?_cons_eq_none_iff (c : Char) (t : Text) : unsigned? (c :: t) = none ↔
    c.isDigit = false ∧ (c = '.' → ∀ d ∈ t.head?, d.isDigit = false) := by
  rw [← Option.isNone_iff_eq_none, ← Option.not_isSome, Bool.not_eq_true', ← Bool.not_eq_true,
    unsigned?_cons_isSome_iff]
  simp

/-- Digits that are read as a literal of their own have no fraction behind them. -/
theorem fraction?_eq_none_of_digits {w s : Text} (hw : IsDigits w)
    (h : unsigned? (w ++ s) = some (w, s)) : fraction? s = none := by
  obtain ⟨h1, h2⟩ := digits_append hw.2 (isLiteral_of_unsigned? h).2
  have hne : w.isEmpty = false := by simpa using hw.1
  cases hfound : fraction? s with
  | none => rfl
  | some found =>
    obtain ⟨part, rest⟩ := found
    obtain ⟨⟨fs, -, rfl⟩, -⟩ := isFraction_of_fraction? hfound
    simp [unsigned?, decimal?, h1, h2, hne, hfound] at h

/-- A literal is read from every text behind it that neither goes on with it nor begins a fraction
where there was none. -/
theorem unsigned?_append_congr {w s t : Text} (h : unsigned? (w ++ s) = some (w, s))
    (hd : ∀ c ∈ t.head?, c.isDigit = false) (hf : fraction? s = none → fraction? t = none) :
    unsigned? (w ++ t) = some (w, t) := by
  rcases (isLiteral_of_unsigned? h).1 with (hw | ⟨ds, f, hds, hfraction, rfl⟩) | hfraction
  · obtain ⟨h1, h2⟩ := digits_append hw.2 hd
    have hne : w.isEmpty = false := by simpa using hw.1
    simp [unsigned?, decimal?, h1, h2, hne, hf (fraction?_eq_none_of_digits hw h)]
  · obtain ⟨h1, h2⟩ := digits_append hds.2 (hfraction.append_head t)
    have hne : ds.isEmpty = false := by simpa using hds.1
    simp [unsigned?, decimal?, List.append_assoc, h1, h2, hne,
      fraction?_append_of_not_digit hfraction hd]
  · simp [unsigned?, decimal?_fraction_append hfraction,
      fraction?_append_of_not_digit hfraction hd]

theorem isDecimal_of_negative? {t l rest : Text} (h : negative? t = some (l, rest)) :
    ∃ d, l = '-' :: d ∧ IsDecimal d ∧ ∀ c ∈ rest.head?, c.isDigit = false := by
  unfold negative? at h
  split at h
  · next u =>
    obtain ⟨⟨d, r⟩, hd, he⟩ := Option.map_eq_some_iff.1 h
    simp only [Prod.mk.injEq] at he
    obtain ⟨rfl, rfl⟩ := he
    exact ⟨d, rfl, isDecimal_of_decimal? hd⟩
  · simp at h

theorem isUnsigned_iff (t : Text) : isUnsigned t = true ↔ IsDecimal t ∨ IsFraction t := by
  constructor
  · intro h
    unfold isUnsigned covers at h
    split at h
    · next l he =>
      have ha := append_of_unsigned? he
      simp only [List.append_nil] at ha
      exact ha ▸ (isLiteral_of_unsigned? he).1
    · simp at h
  · intro h
    have := @unsigned?_append t [] h stops_nil
    simp only [List.append_nil] at this
    simp [isUnsigned, covers, this]

end Literal

end Reckoner
