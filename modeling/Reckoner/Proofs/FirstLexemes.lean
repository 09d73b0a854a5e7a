import Reckoner.Proofs.Meaning

/-!
# The first lexeme of a text

What a lexeme is shows in the character it begins with, apart from a point, which needs a digit
behind it to begin a literal.
-/

namespace Reckoner

open Literal

namespace Lexeme

theorem list_letter_cons {c : Char} (hc : c.isAlpha = true) (t : Text) :
    list (c :: t) = ⟨.letter, [c]⟩ :: list t := by
  obtain ⟨hdigit, hpoint, hspace, hop⟩ := isAlpha_facts hc
  have hstops : Stops (c :: t) := (stops_cons c t).2 ⟨hdigit, hpoint⟩
  rw [list_char_cons (unsigned?_of_stops hstops) hspace]
  simp [Kind.ofChar, hop, hc]

theorem list_literal_append {w rest : Text} (hw : IsDecimal w ∨ IsFraction w) (hr : Stops rest) :
    list (w ++ rest) = ⟨.number, w⟩ :: list rest :=
  list_unsigned_append (unsigned?_append hw hr)

theorem list_literal {w : Text} (hw : IsDecimal w ∨ IsFraction w) : list w = [⟨.number, w⟩] := by
  simpa using list_literal_append hw stops_nil

theorem list_minus_cons (t : Text) : list ('-' :: t) = ⟨.operator .minus, ['-']⟩ :: list t :=
  list_char_cons (unsigned?_of_stops (stops_symbol .minus t)) (by decide)

theorem head_text_first (c : Char) (t : Text) : (first c t).text.head? = some c := by
  unfold first
  cases hu : Literal.unsigned? (c :: t) with
  | some found =>
    obtain ⟨w, rest⟩ := found
    have happend := append_of_unsigned? hu
    cases w with
    | nil => exact absurd rfl (isWord_of_unsigned (isLiteral_of_unsigned? hu).1).ne_nil
    | cons d w => exact congrArg some (List.cons.inj happend).1
  | none =>
    by_cases hc : c = ' '
    · subst hc
      rfl
    · simp [hc]

/-- A lexeme is a letter or has no letter in it. -/
theorem letter_or_of_mem_list {l : Lexeme} {t : Text} (h : l ∈ list t) :
    (∃ c, c.isAlpha = true ∧ l = ⟨.letter, [c]⟩) ∨
      l.kind ≠ .letter ∧ ∀ c ∈ l.text, c.isAlpha = false := by
  induction t using list_induction with
  | nil => simp at h
  | number w rest hu ih =>
    rw [list_unsigned_append hu] at h
    rcases List.mem_cons.1 h with rfl | h
    · exact .inr ⟨by simp, (isLiteral_of_unsigned? hu).1.elim (·.not_letter) (·.not_letter)⟩
    · exact ih h
  | space n rest hs ih =>
    rw [list_spaces_append n hs] at h
    rcases List.mem_cons.1 h with rfl | h
    · refine .inr ⟨by simp, fun c hc => ?_⟩
      obtain ⟨-, rfl⟩ := List.mem_replicate.1 hc
      decide
    · exact ih h
  | char c rest hu hc ih =>
    cases halpha : c.isAlpha with
    | true =>
      rw [list_letter_cons halpha] at h
      rcases List.mem_cons.1 h with rfl | h
      · exact .inl ⟨c, halpha, rfl⟩
      · exact ih h
    | false =>
      rw [list_char_cons hu hc] at h
      rcases List.mem_cons.1 h with rfl | h
      · exact .inr ⟨ofChar_ne_letter halpha, by simpa using halpha⟩
      · exact ih h

theorem ofChar_eq_letter_iff (c : Char) : Kind.ofChar c = .letter ↔ c.isAlpha = true := by
  constructor
  · intro h
    by_contra hc
    exact ofChar_ne_letter (Bool.eq_false_iff.2 hc) h
  · intro h
    simp [Kind.ofChar, (isAlpha_facts h).2.2.2, h]

/-- A text begins with a literal, with a space, or with a character that is a lexeme. -/
theorem first_cases (c : Char) (t : Text) :
    ((unsigned? (c :: t)).isSome = true ∧ isLiteralChar c = true ∧
      ∃ w, first c t = ⟨.number, w⟩) ∨
    (unsigned? (c :: t) = none ∧ c = ' ' ∧ ∃ w, first c t = ⟨.space, w⟩) ∨
    (unsigned? (c :: t) = none ∧ c ≠ ' ' ∧ first c t = ⟨.ofChar c, [c]⟩) := by
  cases hu : unsigned? (c :: t) with
  | some found =>
    have hc := (unsigned?_cons_isSome_iff c t).1 (by rw [hu]; rfl)
    refine .inl ⟨rfl, ?_, found.1, by simp [first, hu]⟩
    rcases hc with hc | ⟨rfl, -⟩
    · exact isLiteralChar_of_isDigit hc
    · rfl
  | none =>
    by_cases hc : c = ' '
    · exact .inr (.inl ⟨rfl, hc, Text.spaces (c :: t), by rw [first, hu, hc]; rfl⟩)
    · exact .inr (.inr ⟨rfl, hc, by simp [first, hu, hc]⟩)

theorem first_char {c : Char} {t : Text} (hu : unsigned? (c :: t) = none) (hc : c ≠ ' ') :
    first c t = ⟨.ofChar c, [c]⟩ := by
  simp [first, hu, hc]

theorem first_isNumber (c : Char) (t : Text) :
    (first c t).isNumber = (unsigned? (c :: t)).isSome := by
  rcases first_cases c t with ⟨h, -, w, he⟩ | ⟨h, -, w, he⟩ | ⟨h, -, he⟩
  · rw [he, h]
    rfl
  · rw [he, h]
    rfl
  · rw [he, h, isNumber_ofChar]
    rfl

theorem first_kind_eq_letter_iff (c : Char) (t : Text) :
    (first c t).kind = .letter ↔ c.isAlpha = true := by
  rcases first_cases c t with ⟨-, h, w, he⟩ | ⟨-, rfl, w, he⟩ | ⟨-, -, he⟩
  · rw [he]
    simp [isAlpha_eq_false_of_isLiteralChar h]
  · rw [he]
    simp
  · rw [he]
    exact ofChar_eq_letter_iff c

/-- The kind of a lexeme that is always one character shows that character. -/
theorem first_kind_eq_iff {d : Char} (hletter : Kind.ofChar d ≠ .letter)
    (hother : Kind.ofChar d ≠ .other) (hpoint : d ≠ '.') (c : Char) (t : Text) :
    (first c t).kind = Kind.ofChar d ↔ c = d := by
  have hplain : isLiteralChar d = false ∧ d ≠ ' ' := by
    rcases ofChar_cases d with ⟨op, rfl, -⟩ | ⟨-, h⟩ | ⟨h, -⟩ | ⟨rfl, -⟩ | ⟨rfl, -⟩ | ⟨-, h⟩
    · cases op <;> decide
    · exact absurd h hletter
    · exact absurd h hpoint
    · decide
    · decide
    · exact absurd h hother
  rcases first_cases c t with ⟨-, h, w, he⟩ | ⟨-, rfl, w, he⟩ | ⟨-, -, he⟩
  · have hne : c ≠ d := by
      rintro rfl
      rw [hplain.1] at h
      cases h
    rw [he]
    exact ⟨fun hk => absurd hk.symm (ofChar_ne d).1, fun hc => absurd hc hne⟩
  · rw [he]
    exact ⟨fun hk => absurd hk.symm (ofChar_ne d).2, fun hc => absurd hc.symm hplain.2⟩
  · rw [he]
    exact ofChar_inj hletter hother

theorem first_isOperator (c : Char) (t : Text) : (first c t).isOperator = isOperatorChar c := by
  have hkind : ∀ op : Operator, (first c t).kind = .operator op ↔ c = op.symbol := by
    intro op
    cases op
    · exact first_kind_eq_iff (d := '+') (by decide) (by decide) (by decide) c t
    · exact first_kind_eq_iff (d := '-') (by decide) (by decide) (by decide) c t
    · exact first_kind_eq_iff (d := '*') (by decide) (by decide) (by decide) c t
    · exact first_kind_eq_iff (d := '/') (by decide) (by decide) (by decide) c t
  rw [Bool.eq_iff_iff]
  constructor
  · intro h
    unfold isOperator at h
    split at h
    · next op hop =>
      rw [(hkind op).1 hop, isOperatorChar_symbol]
    · cases h
  · intro h
    obtain ⟨op, rfl⟩ := exists_symbol h
    rw [isOperator, (hkind op).2 rfl]

theorem first_isBinaryOnly_iff (c : Char) (t : Text) :
    (first c t).isBinaryOnly = true ↔ c ∈ "*/+".toList := by
  have hminus : (first c t).kind = .operator .minus ↔ c = '-' :=
    first_kind_eq_iff (d := '-') (by decide) (by decide) (by decide) c t
  rw [isBinaryOnly, first_isOperator, Bool.and_eq_true, bne_iff_ne, ne_eq, hminus]
  constructor
  · rintro ⟨hop, hc⟩
    obtain ⟨op, rfl⟩ := exists_symbol hop
    cases op <;> first | decide | exact absurd rfl hc
  · intro hc
    have hd : c = '*' ∨ c = '/' ∨ c = '+' := by simpa using hc
    rcases hd with rfl | rfl | rfl <;> decide

theorem first_isWord (c : Char) (t : Text) : (first c t).kind.isWord = isWordChar c := by
  rcases first_cases c t with ⟨-, hc, w, he⟩ | ⟨-, rfl, w, he⟩ | ⟨hu, -, he⟩
  · have hword : isWordChar c = true := by
      rw [isWordChar, Bool.or_eq_true]
      exact .inl hc
    rw [he, hword]
    rfl
  · rw [he]
    rfl
  · have hdigit := ((unsigned?_cons_eq_none_iff c t).1 hu).1
    rw [he]
    rcases ofChar_cases c with ⟨op, rfl, hk⟩ | ⟨hc, hk⟩ | ⟨rfl, hk⟩ | ⟨rfl, hk⟩ | ⟨rfl, hk⟩ |
      ⟨⟨-, halpha, hpoint, -⟩, hk⟩
    · rw [hk]
      cases op <;> rfl
    · simp [hk, Kind.isWord, isWordChar, hc]
    · rfl
    · rfl
    · rfl
    · simp [hk, Kind.isWord, isWordChar, hdigit, halpha, hpoint]

/-- The lexemes behind the spaces are those of the text behind the spaces. -/
theorem dropWhile_isSpace_list (t : Text) :
    (list t).dropWhile (·.isSpace) = list (Text.afterSpaces t) := by
  induction t using list_induction with
  | nil => rfl
  | number w rest hu =>
    obtain ⟨c, r, rfl, hc, -⟩ := (isWord_of_unsigned (isLiteral_of_unsigned? hu).1).head
    rw [List.cons_append, afterSpaces_of_ne hc, ← List.cons_append, list_unsigned_append hu]
    rfl
  | space n rest hs ih =>
    rw [(spaces_replicate_append _ hs).2, list_spaces_append n hs,
      List.dropWhile_cons_of_pos (by rfl), ih, afterSpaces_of_head hs]
  | char c rest hu hc =>
    rw [afterSpaces_of_ne hc, list_char_cons hu hc, List.dropWhile_cons_of_neg]
    simp [isSpace_ofChar]

/-- A text with one lexeme that is a literal is that literal. -/
theorem literal_of_list {t : Text} {l : Lexeme} (h : list t = [l]) (hl : l.isNumber = true) :
    IsDecimal t ∨ IsFraction t := by
  induction t using list_induction with
  | nil => cases h
  | number w rest hu =>
    rw [list_unsigned_append hu] at h
    cases rest with
    | nil => simpa using (isLiteral_of_unsigned? hu).1
    | cons c u =>
      rw [list_cons] at h
      cases (List.cons.inj h).2
  | space n rest hs =>
    rw [list_spaces_append n hs] at h
    rw [← (List.cons.inj h).1] at hl
    cases hl
  | char c rest hu hc =>
    rw [list_char_cons hu hc] at h
    rw [← (List.cons.inj h).1, isNumber_ofChar] at hl
    cases hl

end Lexeme

end Reckoner
