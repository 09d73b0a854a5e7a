import Reckoner.Proofs.FirstLexemes

/-!
# The lexemes of replaced variables

A letter stands apart from letters, literals and points, so the value that replaces it does not grow
together with its neighbours: the lexemes of the replaced text are the lexemes of the text, with
those of the value in the place of each letter.
-/

namespace Reckoner

open Literal

namespace Check

open Lexeme (list)

theorem variableNames_cons (a : Lexeme) (l : List Lexeme) :
    variableNames.fails (a :: l) = (l.head?.any (fun b =>
      a.kind.isWord && b.kind.isWord && (a.kind == .letter || b.kind == .letter)) ||
        variableNames.fails l) :=
  Orderly.any_pairs_cons _ a l

theorem variableNames_tail {a : Lexeme} {l : List Lexeme}
    (h : variableNames.fails (a :: l) = false) : variableNames.fails l = false := by
  rw [variableNames_cons, Bool.or_eq_false_iff] at h
  exact h.2

/-- Behind a letter stands nothing that could be a word with its value. -/
theorem stops_of_variableNames {a : Lexeme} {t : Text} (ha : a.kind = .letter)
    (h : variableNames.fails (a :: list t) = false) : Stops t := by
  rw [variableNames_cons, Bool.or_eq_false_iff] at h
  cases t with
  | nil => exact stops_nil
  | cons c t =>
    have hword := h.1
    rw [Lexeme.list_cons, List.head?_cons, Option.any_some, ha] at hword
    have hc : isWordChar c = false := by
      rw [Bool.eq_false_iff]
      intro hc
      rw [Lexeme.first_isWord, hc] at hword
      cases hword
    simp only [isWordChar, Bool.or_eq_false_iff, beq_eq_false_iff_ne] at hc
    exact (stops_cons c t).2 hc.1

/-- Behind a literal or a point stands no letter. -/
theorem not_letter_of_variableNames {a : Lexeme} {t : Text} (ha : a.kind.isWord = true)
    (h : variableNames.fails (a :: list t) = false) : ∀ c ∈ t.head?, c.isAlpha = false := by
  rw [variableNames_cons, Bool.or_eq_false_iff] at h
  cases t with
  | nil => simp
  | cons c t =>
    rintro d hd
    obtain rfl : c = d := by simpa using hd
    rw [Bool.eq_false_iff]
    intro hc
    have hword := h.1
    rw [Lexeme.list_letter_cons hc, List.head?_cons, Option.any_some, ha] at hword
    simp [Lexeme.Kind.isWord] at hword

end Check

namespace Store

open Lexeme (list)

variable {store : Store} {account : Account}

/-- The lexemes that stand for a lexeme once the account's variables are replaced. -/
def valueLexemes (store : Store) (account : Account) (l : Lexeme) : List Lexeme :=
  if l.kind = .letter then list (store.substitute account l.text) else [l]

theorem Sound.substitute_head (hs : Sound store) (account : Account) {t : Text}
    (h : ∀ c ∈ t.head?, c.isAlpha = false) : (store.substitute account t).head? = t.head? := by
  cases t with
  | nil => rw [hs.substitute]; rfl
  | cons c t => rw [hs.substitute_cons (h c rfl)]; rfl

theorem Sound.substitute_of_not_letter (hs : Sound store) (account : Account) {t : Text}
    (h : ∀ c ∈ t, c.isAlpha = false) : store.substitute account t = t := by
  induction t with
  | nil =>
    rw [hs.substitute]
    rfl
  | cons c t ih =>
    rw [hs.substitute_cons (h c (by simp)), ih fun a ha => h a (List.mem_cons_of_mem c ha)]

/-- A character stands for itself, or is a letter and stands for a value. -/
theorem Sound.rendering_cases (hs : Sound store) (account : Account) (c : Char) :
    store.rendering account c = [c] ∨
      c.isAlpha = true ∧ IsSigned IsDecimal (store.rendering account c) := by
  cases hv : store.get? account c with
  | none => exact .inl (by simp [rendering, hv])
  | some v =>
    have hsome : (store.get? account c).isSome = true := by simp [hv]
    exact .inr ⟨hs.isAlpha hsome, hs.isSigned_rendering hsome⟩

theorem Sound.substitute_head_ne_space (hs : Sound store) {t : Text} (h : t.head? ≠ some ' ') :
    (store.substitute account t).head? ≠ some ' ' := by
  rw [hs.substitute]
  cases t with
  | nil => exact h
  | cons c t =>
    rw [List.flatMap_cons]
    rcases hs.rendering_cases account c with hc | ⟨-, hd | ⟨d, hd, -⟩⟩
    · rw [hc]
      exact h
    · obtain ⟨e, r, he, hdigit⟩ := hd.head
      rw [he]
      rintro hspace
      obtain rfl : e = ' ' := by simpa using hspace
      exact absurd hdigit (by decide)
    · simp [hd]

/-- A value and what it does not grow together with are apart as lexemes. -/
theorem list_value_append {w rest : Text} (hw : IsSigned IsDecimal w) (hr : Stops rest) :
    list (w ++ rest) = list w ++ list rest := by
  rcases hw with hd | ⟨d, rfl, hd⟩
  · rw [Lexeme.list_literal_append (.inl hd) hr, Lexeme.list_literal (.inl hd),
      List.singleton_append]
  · rw [List.cons_append, Lexeme.list_minus_cons, Lexeme.list_minus_cons,
      Lexeme.list_literal_append (.inl hd) hr, Lexeme.list_literal (.inl hd)]
    rfl

/-- Replacing variables makes no fraction of a point. -/
theorem Sound.fraction?_substitute (hs : Sound store) (account : Account) {t : Text}
    (h : Check.variableNames.fails (list t) = false) (ht : ∀ c ∈ t.head?, c.isAlpha = false)
    (hnone : fraction? t = none) : fraction? (store.substitute account t) = none := by
  by_cases hpoint : t.head? = some '.'
  · obtain ⟨u, rfl⟩ : ∃ u, t = '.' :: u := by
      cases t with
      | nil => cases hpoint
      | cons c u => exact ⟨u, by rw [Option.some.inj hpoint]⟩
    have hdigit : ∀ c ∈ u.head?, c.isDigit = false := by
      have hdigits : digits u = [] := by simpa [fraction?] using hnone
      have := afterDigits_head u
      rwa [← digits_append_afterDigits u, hdigits, List.nil_append]
    have hlist : list ('.' :: u) = ⟨.dot, ['.']⟩ :: list u := by
      refine Lexeme.list_char_cons ?_ (by decide)
      rw [unsigned?_cons_of_not_digit (by decide), hnone]
    rw [hlist] at h
    have hfront := Check.not_letter_of_variableNames (by rfl) h
    rw [hs.substitute_cons (by decide)]
    have hrest := (digits_of_stops (hs.substitute_head account hfront ▸ hdigit)).1
    simp [fraction?, hrest]
  · exact fraction?_of_not_point (hs.substitute_head account ht ▸ hpoint)

/-- Where letters stand apart, the lexemes of their values take their places. -/
theorem Sound.list_substitute (hs : Sound store) (account : Account) {t : Text}
    (h : Check.variableNames.fails (list t) = false) :
    list (store.substitute account t) = (list t).flatMap (store.valueLexemes account) := by
  induction t using Lexeme.list_induction with
  | nil =>
    rw [hs.substitute]
    rfl
  | number w rest hu ih =>
    rw [Lexeme.list_unsigned_append hu] at h ⊢
    obtain ⟨hw, hdigit⟩ := isLiteral_of_unsigned? hu
    have hkeep := hs.substitute_of_not_letter account (hw.elim (·.not_letter) (·.not_letter))
    have hfront := Check.not_letter_of_variableNames (by rfl) h
    have hrest := Check.variableNames_tail h
    have hsame := unsigned?_append_congr hu
      (hs.substitute_head account hfront ▸ hdigit) (hs.fraction?_substitute account hrest hfront)
    rw [hs.substitute_append, hkeep, Lexeme.list_unsigned_append hsame, ih hrest]
    rfl
  | space n rest hspace ih =>
    rw [Lexeme.list_spaces_append n hspace] at h ⊢
    have hrest := Check.variableNames_tail h
    rw [hs.substitute_spaces_append,
      Lexeme.list_spaces_append n (hs.substitute_head_ne_space hspace), ih hrest]
    rfl
  | char c rest hu hc ih =>
    cases halpha : c.isAlpha with
    | true =>
      rw [Lexeme.list_letter_cons halpha] at h ⊢
      have hstops := Check.stops_of_variableNames (by rfl) h
      have hfront := Check.not_letter_of_variableNames (by rfl) h
      have hhead := hs.substitute_head account hfront
      have hrest := Check.variableNames_tail h
      have hone : store.substitute account [c] = store.rendering account c := by
        rw [hs.substitute, List.flatMap_singleton]
      rw [← List.singleton_append, hs.substitute_append, hone, List.flatMap_cons, valueLexemes,
        if_pos rfl, hone, ← ih hrest]
      rcases hs.rendering_cases account c with hc | ⟨-, hvalue⟩
      · rw [hc, List.singleton_append, Lexeme.list_letter_cons halpha,
          Lexeme.list_letter_cons halpha]
        rfl
      · exact list_value_append hvalue (by simpa [Stops, hhead] using hstops)
    | false =>
      have hpoint := hs.fraction?_substitute account h (by simpa using halpha)
        (Option.or_eq_none_iff.1 hu).2
      rw [hs.substitute_cons halpha] at hpoint ⊢
      have hdigit := ((unsigned?_cons_eq_none_iff c rest).1 hu).1
      have hnone : unsigned? (c :: store.substitute account rest) = none := by
        rw [unsigned?_cons_of_not_digit hdigit, hpoint]
      rw [Lexeme.list_char_cons hu hc] at h ⊢
      have hrest := Check.variableNames_tail h
      rw [Lexeme.list_char_cons hnone hc, ih hrest, List.flatMap_cons, valueLexemes,
        if_neg (Lexeme.ofChar_ne_letter halpha), List.singleton_append]

end Store

end Reckoner
