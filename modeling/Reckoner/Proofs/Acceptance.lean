import Reckoner.Proofs.Replacement
import Reckoner.Proofs.Rules

/-!
# The checks decide the rules

Every check fails exactly on the texts that break its rule. A literal ends in a digit, so the last
of its characters stands for it where neighbours matter. Two literals can touch only where a point
is misplaced, and that has been refused before neighbours are looked at.
-/

namespace Reckoner

open Literal Rules

namespace Check

open Lexeme (list first list_induction list_unsigned_append list_spaces_append list_char_cons)

theorem loneNegative_iff (t : Text) : loneNegative.fails (list t) = true ↔ LoneNegative t := by
  constructor
  · intro h
    obtain ⟨sign, number, hl, hsign, hnumber⟩ : ∃ sign number, list t = [sign, number] ∧
        sign.kind = .operator .minus ∧ number.isNumber = true := by
      simp only [loneNegative] at h
      split at h
      · next sign number hl =>
        rw [Bool.and_eq_true, beq_iff_eq] at h
        exact ⟨sign, number, hl, h⟩
      · cases h
    obtain ⟨c, u, rfl⟩ : ∃ c u, t = c :: u := by
      cases t with
      | nil => cases hl
      | cons c u => exact ⟨c, u, rfl⟩
    obtain rfl : c = '-' := by
      rw [Lexeme.list_cons] at hl
      rw [← (List.cons.inj hl).1] at hsign
      exact (Lexeme.first_kind_eq_iff (d := '-') (by decide) (by decide) (by decide) c u).1 hsign
    rw [Lexeme.list_minus_cons] at hl
    exact ⟨u, Lexeme.literal_of_list (List.cons.inj hl).2 hnumber, rfl⟩
  · rintro ⟨w, hw, rfl⟩
    rw [Lexeme.list_minus_cons, Lexeme.list_literal hw]
    rfl

theorem variableNames_iff (t : Text) :
    variableNames.fails (list t) = true ↔ Occurs LetterTouches t := by
  have hnext : ∀ (l : Lexeme) (a : Char) (rest : Text), l.kind.isWord = isWordChar a →
      (l.kind = .letter ↔ a.isAlpha = true) →
      ((list rest).head?.any (fun b =>
        l.kind.isWord && b.kind.isWord && (l.kind == .letter || b.kind == .letter)) = true ↔
          LetterTouches (a :: rest)) := by
    intro l a rest hword hletter
    cases rest with
    | nil => simp [LetterTouches]
    | cons b u =>
      rw [letterTouches_cons_cons, Lexeme.list_cons, List.head?_cons, Option.any_some, hword,
        Bool.and_eq_true, Bool.and_eq_true, Bool.or_eq_true, beq_iff_eq, beq_iff_eq, hletter,
        Lexeme.first_kind_eq_letter_iff, Lexeme.first_isWord]
  have hplain : ∀ a b u, isLiteralChar a = true → isLiteralChar b = true →
      ¬ LetterTouches (a :: b :: u) := by
    intro a b u ha hb h
    rw [letterTouches_cons_cons, isAlpha_eq_false_of_isLiteralChar ha,
      isAlpha_eq_false_of_isLiteralChar hb] at h
    simp at h
  induction t using list_induction with
  | nil =>
    simpa [variableNames, pairs] using occurs_nil (p := LetterTouches) (by simp [LetterTouches])
  | number w rest hu ih =>
    obtain ⟨v, d, rfl, hd, hv⟩ := concat_of_literal (isLiteral_of_unsigned? hu).1
    rw [list_unsigned_append hu, variableNames_cons, Bool.or_eq_true,
      List.append_assoc, List.singleton_append, occurs_literal hplain hv hd]
    exact or_congr (hnext _ d rest (by simp [Lexeme.Kind.isWord, isWordChar, hd])
      (by simp [isAlpha_eq_false_of_isDigit hd])) ih
  | space n rest hs ih =>
    rw [list_spaces_append n hs, variableNames_cons, occurs_spaces_append]
    · simpa [Lexeme.Kind.isWord] using ih
    · simp [LetterTouches, isWordChar]
  | char c rest hu hc ih =>
    rw [list_char_cons hu hc, variableNames_cons, Bool.or_eq_true, occurs_cons,
      ← Lexeme.first_char hu hc]
    exact or_congr
      (hnext _ c rest (Lexeme.first_isWord c rest) (Lexeme.first_kind_eq_letter_iff c rest)) ih

theorem not_foreign_of_isDigit {c : Char} (h : c.isDigit = true) :
    c ∈ "()0123456789.+-*/ ".toList := by
  have hrange : 48 ≤ c.toNat ∧ c.toNat ≤ 57 := by
    simpa [Char.isDigit, UInt32.le_iff_toNat_le] using h
  obtain ⟨n, hn⟩ : ∃ n, c.toNat = n := ⟨_, rfl⟩
  obtain rfl : c = Char.ofNat n := by rw [← hn, Char.ofNat_toNat]
  rw [hn] at hrange
  obtain ⟨hleast, hmost⟩ := hrange
  interval_cases n <;> decide

theorem not_foreign_of_isLiteralChar {c : Char} (h : isLiteralChar c = true) :
    c ∈ "()0123456789.+-*/ ".toList := by
  rw [isLiteralChar, Bool.or_eq_true, beq_iff_eq] at h
  rcases h with h | rfl
  · exact not_foreign_of_isDigit h
  · decide

/-- What is neither a digit nor a space is foreign if it is a letter or has no part in
expressions. -/
theorem ofChar_foreign_iff {c : Char} (hdigit : c.isDigit = false) (hspace : c ≠ ' ') :
    (Lexeme.Kind.ofChar c = .letter ∨ Lexeme.Kind.ofChar c = .other) ↔
      c ∉ "()0123456789.+-*/ ".toList := by
  constructor
  · intro h hc
    have hall : ("()0123456789.+-*/ ".toList.all fun d => d.isDigit || d == ' ' ||
        Lexeme.Kind.ofChar d != .letter && Lexeme.Kind.ofChar d != .other) = true := by decide
    have hin := List.all_eq_true.1 hall c hc
    rcases h with h | h <;> simp [hdigit, hspace, h] at hin
  · intro hc
    rcases Lexeme.ofChar_cases c with ⟨op, rfl, -⟩ | ⟨-, h⟩ | ⟨rfl, -⟩ | ⟨rfl, -⟩ | ⟨rfl, -⟩ |
      ⟨-, h⟩
    · exact absurd (by cases op <;> decide) hc
    · exact .inl h
    · exact absurd (by decide) hc
    · exact absurd (by decide) hc
    · exact absurd (by decide) hc
    · exact .inr h

theorem characters_iff (t : Text) : characters.fails (list t) = true ↔ Foreign t := by
  have hany : (list t).any (fun l => l.kind == .letter || l.kind == .other) = true ↔
      ∃ c ∈ t, c ∉ "()0123456789.+-*/ ".toList := by
    -- No character of a literal or a space is foreign, and every other lexeme is its character.
    have hskip : ∀ {w : Text} (rest : Text), (∀ c ∈ w, c ∈ "()0123456789.+-*/ ".toList) →
        ((∃ c ∈ w ++ rest, c ∉ "()0123456789.+-*/ ".toList) ↔
          ∃ c ∈ rest, c ∉ "()0123456789.+-*/ ".toList) := by
      intro w rest hw
      simp only [List.mem_append, or_and_right, exists_or]
      exact or_iff_right fun ⟨c, hc, hforeign⟩ => hforeign (hw c hc)
    induction t using list_induction with
    | nil => simp
    | number w rest hu ih =>
      obtain ⟨v, d, rfl, hd, hv⟩ := concat_of_literal (isLiteral_of_unsigned? hu).1
      rw [list_unsigned_append hu, List.any_cons, hskip]
      · exact ih
      · intro c hc
        rcases List.mem_append.1 hc with hc | hc
        · exact not_foreign_of_isLiteralChar (hv c hc)
        · obtain rfl := List.mem_singleton.1 hc
          exact not_foreign_of_isLiteralChar (isLiteralChar_of_isDigit hd)
    | space n rest hs ih =>
      rw [list_spaces_append n hs, List.any_cons, hskip]
      · exact ih
      · intro c hc
        obtain ⟨-, rfl⟩ := List.mem_replicate.1 hc
        decide
    | char c rest hu hc ih =>
      have hdigit := (unsigned?_cons_eq_none_iff c rest).1 hu
      rw [list_char_cons hu hc, List.any_cons, Bool.or_eq_true, Bool.or_eq_true, beq_iff_eq,
        beq_iff_eq, ofChar_foreign_iff hdigit.1 hc, List.exists_mem_cons_iff]
      exact or_congr Iff.rfl ih
  cases t with
  | nil => simp [characters, Foreign]
  | cons c t =>
    rw [characters, Bool.or_eq_true, hany, Lexeme.list_cons]
    simp [Foreign]

theorem numberFormat_cons (a : Lexeme) (l : List Lexeme) : numberFormat.fails (a :: l) =
    ((a.kind == .dot || l.head?.any fun b =>
      a.isNumber && a.text.contains '.' && b.text.head? == some '.') || numberFormat.fails l) := by
  simp only [numberFormat, Orderly.any_pairs_cons, List.any_cons]
  ac_rfl

/-- Behind a literal a point is misplaced if the literal has one already. -/
theorem occurs_pointMisplaced_literal {w rest : Text}
    (hu : unsigned? (w ++ rest) = some (w, rest)) : Occurs PointMisplaced (w ++ rest) ↔
      ('.' ∈ w ∧ rest.head? = some '.') ∨ Occurs PointMisplaced rest := by
  have hdigits : ∀ {ds : Text} (u : Text), (∀ c ∈ ds, c.isDigit = true) →
      (Occurs PointMisplaced (ds ++ u) ↔ Occurs PointMisplaced u) := by
    intro ds u hds
    refine occurs_append_of_not fun c hc v h => ?_
    obtain rfl := ((pointMisplaced_cons c v).1 h).1
    exact absurd (hds _ hc) (by decide)
  have hfraction : ∀ {f : Text}, IsFraction f →
      (Occurs PointMisplaced (f ++ rest) ↔ rest.head? = some '.' ∨ Occurs PointMisplaced rest) := by
    rintro f ⟨ds, hds, rfl⟩
    obtain ⟨e, r, rfl, he⟩ := hds.head
    rw [List.cons_append, occurs_cons, hdigits rest hds.2, pointMisplaced_cons,
      (digits_append hds.2 (isLiteral_of_unsigned? hu).2).2]
    simp [he]
  have hpoint : ∀ {ds : Text}, IsDigits ds → '.' ∉ ds := fun hds hm =>
    absurd (hds.2 _ hm) (by decide)
  rcases (isLiteral_of_unsigned? hu).1 with (h | ⟨ds, f, hds, hf, rfl⟩) | h
  · rw [hdigits rest h.2]
    simp [hpoint h]
  · rw [List.append_assoc, hdigits _ hds.2, hfraction hf]
    obtain ⟨fs, -, rfl⟩ := hf
    simp
  · rw [hfraction h]
    obtain ⟨fs, -, rfl⟩ := h
    simp

theorem numberFormat_iff (t : Text) :
    numberFormat.fails (list t) = true ↔ Occurs PointMisplaced t := by
  induction t using list_induction with
  | nil =>
    simpa [numberFormat, pairs] using occurs_nil (p := PointMisplaced) (by simp [PointMisplaced])
  | number w rest hu ih =>
    rw [list_unsigned_append hu, numberFormat_cons, occurs_pointMisplaced_literal hu,
      Bool.or_eq_true]
    refine or_congr ?_ ih
    cases rest with
    | nil => simp
    | cons c u => simp [Lexeme.list_cons, Lexeme.head_text_first, Lexeme.isNumber]
  | space n rest hs ih =>
    rw [list_spaces_append n hs, numberFormat_cons, occurs_spaces_append]
    · simpa [Lexeme.isNumber] using ih
    · simp [PointMisplaced]
  | char c rest hu hc ih =>
    have hdot : Lexeme.Kind.ofChar c = .dot ↔ c = '.' :=
      Lexeme.ofChar_inj (d := '.') (by decide) (by decide)
    rw [list_char_cons hu hc, numberFormat_cons, occurs_cons, Lexeme.isNumber_ofChar,
      Bool.or_eq_true, pointMisplaced_cons]
    refine or_congr ?_ ih
    simp only [Bool.false_and, Option.any_false, Bool.or_false, beq_iff_eq, hdot]
    exact ⟨fun h => ⟨h, .inl (((unsigned?_cons_eq_none_iff c rest).1 hu).2 h)⟩, fun h => h.1⟩

/-- Where no point is misplaced, a literal begins with every digit and every point. -/
theorem begins_of_not_misplaced {c : Char} {t : Text} (h : ¬ Occurs PointMisplaced (c :: t)) :
    (unsigned? (c :: t)).isSome = isLiteralChar c := by
  rw [Bool.eq_iff_iff, unsigned?_cons_isSome_iff, isLiteralChar, Bool.or_eq_true, beq_iff_eq]
  refine or_congr_right ⟨fun hc => hc.1, fun hc => ⟨hc, ?_⟩⟩
  by_contra hnone
  refine h (occurs_cons.2 (.inl ((pointMisplaced_cons c t).2 ⟨hc, .inl fun d hd => ?_⟩)))
  exact Bool.eq_false_iff.2 fun hdigit => hnone ⟨d, hd, hdigit⟩

/-- Where no point is misplaced, nothing behind a literal could go on with it. -/
theorem stops_of_not_misplaced {w rest : Text} (hu : unsigned? (w ++ rest) = some (w, rest))
    (h : ¬ Occurs PointMisplaced (w ++ rest)) : Stops rest := by
  have hrest : ¬ Occurs PointMisplaced rest := fun ho => h (ho.append w)
  obtain ⟨hw, hdigit⟩ := isLiteral_of_unsigned? hu
  cases rest with
  | nil => exact stops_nil
  | cons c u =>
    refine (stops_cons c u).2 ⟨hdigit c rfl, ?_⟩
    rintro rfl
    have hpoint : '.' ∉ w := fun hm =>
      h ((occurs_pointMisplaced_literal hu).2 (.inl ⟨hm, rfl⟩))
    have hdigits : IsDigits w := by
      rcases hw with (hw | ⟨ds, f, -, ⟨fs, -, rfl⟩, rfl⟩) | ⟨fs, -, rfl⟩
      · exact hw
      · simp at hpoint
      · simp at hpoint
    have hsome := begins_of_not_misplaced hrest
    rw [unsigned?_cons_of_not_digit (by decide), fraction?_eq_none_of_digits hdigits hu] at hsome
    cases hsome

/-- An operand comes next if a digit, a point or an opening parenthesis does. -/
theorem operandNext_iff {t : Text} (h : ¬ Occurs PointMisplaced t) :
    operandNext (list t) = true ↔
      ∃ b ∈ (Text.afterSpaces t).head?, isLiteralChar b = true ∨ b = '(' := by
  induction t using list_induction with
  | nil => simp [operandNext, significant, Text.afterSpaces]
  | number w rest hu ih =>
    obtain ⟨c, r, rfl, -⟩ := (isWord_of_unsigned (isLiteral_of_unsigned? hu).1).head
    have hc : isLiteralChar c = true := by
      rw [← begins_of_not_misplaced (t := r ++ rest) h, ← List.cons_append, hu]
      rfl
    rw [list_unsigned_append hu, operandNext_cons _ _ (by rfl), List.cons_append,
      afterSpaces_of_ne (ne_space_of_isLiteralChar hc)]
    simp [beginsOperand, Lexeme.isNumber, hc]
  | space n rest hs ih =>
    rw [list_spaces_append n hs, operandNext_space _ _ (by rfl), (spaces_replicate_append _ hs).2,
      ih fun ho => h (ho.append _), afterSpaces_of_head hs]
  | char c rest hu hc ih =>
    have hparen : Lexeme.Kind.ofChar c = .leftParen ↔ c = '(' :=
      Lexeme.ofChar_inj (d := '(') (by decide) (by decide)
    have hliteral : isLiteralChar c = false := by
      rw [← begins_of_not_misplaced h, hu]
      rfl
    rw [list_char_cons hu hc, operandNext_cons _ _ (Lexeme.isSpace_ofChar c), afterSpaces_of_ne hc]
    simp [beginsOperand, Lexeme.isNumber_ofChar, hparen, hliteral]

/-- Inside a literal no operands meet. -/
theorem not_operandsMeet_literal (a b : Char) (t : Text) (ha : isLiteralChar a = true)
    (hb : isLiteralChar b = true) : ¬ OperandsMeet (a :: b :: t) := by
  intro hm
  rw [operandsMeet_cons, afterSpaces_of_ne (ne_space_of_isLiteralChar hb)] at hm
  obtain ⟨c, hc, hm⟩ := hm
  obtain rfl := Option.some.inj hc
  rcases hm with ⟨rfl, -⟩ | ⟨-, rfl⟩ | ⟨-, hspace, -⟩
  · cases ha
  · cases hb
  · exact ne_space_of_isLiteralChar hb (Option.some.inj hspace)

/-- At the end of a literal operands meet if an operand comes next. -/
theorem operandsMeet_digit_iff {d : Char} {t : Text} (hd : d.isDigit = true) (ht : Stops t)
    (h : ¬ Occurs PointMisplaced t) : OperandsMeet (d :: t) ↔ operandNext (list t) = true := by
  rw [operandsMeet_cons, operandNext_iff h]
  refine exists_congr fun b => and_congr_right fun hb => ?_
  have hclosing : d ≠ ')' := by
    rintro rfl
    cases hd
  have hgap : isLiteralChar b = true → t.head? = some ' ' := by
    intro hliteral
    by_contra hs
    rw [afterSpaces_of_head hs] at hb
    obtain ⟨hdigit, hpoint⟩ := ht b hb
    simp [isLiteralChar, hdigit, hpoint] at hliteral
  constructor
  · rintro (⟨hc, -⟩ | ⟨-, hparen⟩ | ⟨-, -, hliteral⟩)
    · exact absurd hc hclosing
    · exact .inr hparen
    · exact .inl hliteral
  · rintro (hliteral | hparen)
    · exact .inr (.inr ⟨hd, hgap hliteral, hliteral⟩)
    · exact .inr (.inl ⟨hd, hparen⟩)

theorem missingOperators_iff {t : Text} (h : ¬ Occurs PointMisplaced t) :
    missingOperators.fails (list t) = true ↔ Occurs OperandsMeet t := by
  induction t using list_induction with
  | nil =>
    simpa [missingOperators, significant, pairs] using
      occurs_nil (p := OperandsMeet) (by simp [OperandsMeet])
  | number w rest hu ih =>
    have hstops := stops_of_not_misplaced hu h
    have hrest : ¬ Occurs PointMisplaced rest := fun ho => h (ho.append w)
    obtain ⟨v, d, rfl, hd, hv⟩ := concat_of_literal (isLiteral_of_unsigned? hu).1
    have hends : endsOperand ⟨.number, v ++ [d]⟩ = true := rfl
    rw [list_unsigned_append hu, missingOperators_cons _ _ (by rfl), Bool.or_eq_true,
      List.append_assoc, List.singleton_append, occurs_literal not_operandsMeet_literal hv hd,
      operandsMeet_digit_iff hd hstops hrest, hends, Bool.true_and]
    exact or_congr_right (ih hrest)
  | space n rest hs ih =>
    rw [list_spaces_append n hs, missingOperators_space _ _ (by rfl), occurs_spaces_append]
    · exact ih fun ho => h (ho.append _)
    · simp [operandsMeet_cons]
  | char c rest hu hc ih =>
    have hparen : Lexeme.Kind.ofChar c = .rightParen ↔ c = ')' :=
      Lexeme.ofChar_inj (d := ')') (by decide) (by decide)
    have hrest : ¬ Occurs PointMisplaced rest := fun ho => h (ho.append [c])
    have hends : endsOperand ⟨.ofChar c, [c]⟩ = true ↔ c = ')' := by
      simp [endsOperand, Lexeme.isNumber_ofChar, hparen]
    rw [list_char_cons hu hc, missingOperators_cons _ _ (Lexeme.isSpace_ofChar c), Bool.or_eq_true,
      occurs_cons, Bool.and_eq_true, hends, operandNext_iff hrest, operandsMeet_cons,
      ((unsigned?_cons_eq_none_iff c rest).1 hu).1]
    refine or_congr ?_ (ih hrest)
    simp only [Bool.false_eq_true, false_and, or_false]
    constructor
    · rintro ⟨hc, b, hb, hnext⟩
      exact ⟨b, hb, hc, hnext⟩
    · rintro ⟨b, hb, hc, hnext⟩
      exact ⟨hc, b, hb, hnext⟩

/-- A text starts with an operation if it starts with an operator that is not a minus sign right in
front of a digit or a point. -/
theorem startsWithOperation_iff {t : Text} (h : ¬ Occurs PointMisplaced t) :
    startsWithOperation (list t) = true ↔ ∃ b ∈ t.head?, isOperatorChar b = true ∧
      ¬ (b = '-' ∧ ∃ c ∈ t.tail.head?, isLiteralChar c = true) := by
  cases t with
  | nil => simp [startsWithOperation]
  | cons b u =>
    by_cases hb : b = '-'
    · subst hb
      rw [Lexeme.list_minus_cons]
      have hnext : (list u).head?.any (·.isNumber) = true ↔
          ∃ c ∈ u.head?, isLiteralChar c = true := by
        cases u with
        | nil => simp
        | cons c u =>
          have hrest : ¬ Occurs PointMisplaced (c :: u) := fun ho => h (ho.append ['-'])
          rw [Lexeme.list_cons, List.head?_cons, Option.any_some, Lexeme.first_isNumber,
            begins_of_not_misplaced hrest]
          simp
      have hminus : isOperatorChar '-' = true := rfl
      have hfails : startsWithOperation (⟨.operator .minus, ['-']⟩ :: list u) =
          !(list u).head?.any (·.isNumber) := rfl
      rw [hfails, Bool.not_eq_true', ← Bool.not_eq_true, hnext]
      simp [hminus]
    · have hkind : (first b u).kind ≠ .operator .minus := fun hk => hb
        ((Lexeme.first_kind_eq_iff (d := '-') (by decide) (by decide) (by decide) b u).1 hk)
      rw [Lexeme.list_cons, startsWithOperation, Lexeme.first_isOperator]
      simp [hkind, hb]

theorem operatorAdjacency_iff {t : Text} (h : ¬ Occurs PointMisplaced t) :
    operatorAdjacency.fails (list t) = true ↔ Occurs OperatorsMeet t := by
  change operatorsMeet (list t) = true ↔ _
  induction t using list_induction with
  | nil => simpa [operatorsMeet] using occurs_nil (p := OperatorsMeet) (by simp [OperatorsMeet])
  | number w rest hu ih =>
    have hw := isWord_of_unsigned (isLiteral_of_unsigned? hu).1
    rw [list_unsigned_append hu, operatorsMeet, occurs_append_of_not]
    · exact ih fun ho => h (ho.append w)
    · intro c hc u hm
      have hop := ((operatorsMeet_cons c u).1 hm).1
      rw [isOperatorChar_of_isWordChar (hw.all_isWordChar c hc)] at hop
      cases hop
  | space n rest hs ih =>
    rw [list_spaces_append n hs, operatorsMeet, occurs_spaces_append]
    · exact ih fun ho => h (ho.append _)
    · intro u hm
      cases ((operatorsMeet_cons _ u).1 hm).1
  | char c rest hu hc ih =>
    have hrest : ¬ Occurs PointMisplaced rest := fun ho => h (ho.append [c])
    have hbehind : ¬ Occurs PointMisplaced (Text.afterSpaces rest) := fun ho => hrest (by
      rw [← Text.spaces_append_afterSpaces rest]
      exact ho.append _)
    rw [list_char_cons hu hc, operatorsMeet, Bool.or_eq_true, Bool.and_eq_true, occurs_cons,
      operatorsMeet_cons, ← Lexeme.first_char hu hc, Lexeme.first_isOperator,
      Lexeme.dropWhile_isSpace_list, startsWithOperation_iff hbehind]
    exact or_congr Iff.rfl (ih hrest)

theorem getLast_isOperator_iff (t : Text) : (list t).getLast?.any (·.isOperator) = true ↔
    ∃ c ∈ t.getLast?, isOperatorChar c = true := by
  -- A lexeme is an operator just when its characters are, so only the last character counts.
  have hlast : ∀ {l : Lexeme} {w rest : Text}, w ≠ [] →
      (∀ c ∈ w, isOperatorChar c = l.isOperator) →
      ((list rest).getLast?.any (·.isOperator) = true ↔
        ∃ c ∈ rest.getLast?, isOperatorChar c = true) →
      ((l :: list rest).getLast?.any (·.isOperator) = true ↔
        ∃ c ∈ (w ++ rest).getLast?, isOperatorChar c = true) := by
    intro l w rest hw hl hrest
    cases rest with
    | nil =>
      rw [List.append_nil, List.getLast?_eq_some_getLast hw]
      simp [hl _ (List.getLast_mem hw)]
    | cons c u =>
      rw [List.getLast?_append_of_ne_nil _ (by simp), ← hrest, Lexeme.list_cons,
        List.getLast?_cons_cons]
  induction t using list_induction with
  | nil => simp
  | number w rest hu ih =>
    have hw := isWord_of_unsigned (isLiteral_of_unsigned? hu).1
    rw [list_unsigned_append hu]
    exact hlast hw.ne_nil (fun c hc => isOperatorChar_of_isWordChar (hw.all_isWordChar c hc)) ih
  | space n rest hs ih =>
    rw [list_spaces_append n hs]
    refine hlast (by simp) (fun c hc => ?_) ih
    obtain ⟨-, rfl⟩ := List.mem_replicate.1 hc
    rfl
  | char c rest hu hc ih =>
    rw [list_char_cons hu hc, ← List.singleton_append (l := rest), ← Lexeme.first_char hu hc]
    exact hlast (by simp) (by simp [Lexeme.first_isOperator]) ih

theorem groupBounds_iff (t : Text) : ((pairs (list t)).any fun (a, b) =>
    (a.kind == .leftParen && b.isBinaryOnly) || (a.isOperator && b.kind == .rightParen)) = true ↔
      Occurs GroupBounded t := by
  have hskip : ∀ {c : Char} {u : Text}, isOperatorChar c = false → c ≠ '(' →
      ¬ GroupBounded (c :: u) := by
    rintro c u hop hc ⟨a, b, rest, hu, h⟩
    obtain ⟨rfl, -⟩ := List.cons.inj hu
    rcases h with ⟨h, -⟩ | ⟨h, -⟩
    · exact hc h
    · rw [hop] at h
      cases h
  induction t using list_induction with
  | nil => simpa [pairs] using occurs_nil (p := GroupBounded) (by simp [GroupBounded])
  | number w rest hu ih =>
    have hw := isWord_of_unsigned (isLiteral_of_unsigned? hu).1
    rw [list_unsigned_append hu, Orderly.any_pairs_cons, occurs_append_of_not]
    · refine Iff.trans ?_ ih
      cases (list rest).head? <;> simp [Lexeme.isOperator]
    · intro c hc u
      have hchar := hw.all_isWordChar c hc
      refine hskip (isOperatorChar_of_isWordChar hchar) ?_
      rintro rfl
      cases hchar
  | space n rest hs ih =>
    rw [list_spaces_append n hs, Orderly.any_pairs_cons, occurs_spaces_append]
    · refine Iff.trans ?_ ih
      cases (list rest).head? <;> simp [Lexeme.isOperator]
    · exact fun u => hskip rfl (by decide)
  | char c rest hu hc ih =>
    rw [list_char_cons hu hc, Orderly.any_pairs_cons, Bool.or_eq_true, occurs_cons,
      ← Lexeme.first_char hu hc]
    refine or_congr ?_ ih
    cases rest with
    | nil => simp [GroupBounded]
    | cons b u =>
      have hopening : (first c (b :: u)).kind = .leftParen ↔ c = '(' :=
        Lexeme.first_kind_eq_iff (d := '(') (by decide) (by decide) (by decide) c (b :: u)
      have hclosing : (first b u).kind = .rightParen ↔ b = ')' :=
        Lexeme.first_kind_eq_iff (d := ')') (by decide) (by decide) (by decide) b u
      rw [groupBounded_cons_cons, Lexeme.list_cons, List.head?_cons, Option.any_some,
        Bool.or_eq_true, Bool.and_eq_true, Bool.and_eq_true, beq_iff_eq, beq_iff_eq, hopening,
        hclosing, Lexeme.first_isBinaryOnly_iff, Lexeme.first_isOperator]

theorem operatorBoundaries_iff (t : Text) : operatorBoundaries.fails (list t) = true ↔
    (∃ c ∈ t.head?, c ∈ "*/+".toList) ∨ Occurs GroupBounded t ∨
      ∃ c ∈ t.getLast?, isOperatorChar c = true := by
  have hhead : (list t).head?.any (·.isBinaryOnly) = true ↔ ∃ c ∈ t.head?, c ∈ "*/+".toList := by
    cases t with
    | nil => simp
    | cons c t =>
      rw [Lexeme.list_cons, List.head?_cons, Option.any_some, Lexeme.first_isBinaryOnly_iff]
      simp
  rw [operatorBoundaries, Bool.or_eq_true, Bool.or_eq_true, hhead, getLast_isOperator_iff,
    groupBounds_iff, or_assoc, or_comm (a := ∃ c ∈ t.getLast?, isOperatorChar c = true)]

/-- The checks of an expression refuse exactly what breaks a rule, with the fault of the first rule
that is broken. -/
theorem runAll_eq_rules (t : Text) :
    (runAll typed t =
      if LoneNegative t then .error .missingOperator
      else if Occurs LetterTouches t then .error .variableName
      else .ok ()) ∧
    (runAll closed t =
      if Foreign t then .error .character
      else if Occurs PointMisplaced t then .error .numberFormat
      else if Occurs OperandsMeet t then .error .missingOperator
      else if OperatorMisplaced t then .error .operatorPlacement
      else .ok ()) := by
  have hrun : ∀ (check : Check) (checks : List Check), runAll (check :: checks) t =
      if check.fails (list t) = true then .error check.fault else runAll checks t := by
    intro check checks
    unfold runAll firstFault?
    cases h : check.fails (list t) <;> simp [h]
  constructor
  · simp only [typed, hrun, loneNegative_iff, variableNames_iff]
    rfl
  · simp only [closed, hrun, characters_iff, numberFormat_iff]
    by_cases hpoint : Occurs PointMisplaced t
    · rw [if_pos hpoint, if_pos hpoint]
      rfl
    · simp only [if_neg hpoint, missingOperators_iff hpoint, operatorAdjacency_iff hpoint,
        operatorBoundaries_iff, OperatorMisplaced]
      refine if_congr Iff.rfl rfl ?_
      by_cases hmeet : Occurs OperatorsMeet t
      · simp only [hmeet, if_true, true_or]
        rfl
      · simp only [hmeet, if_false, false_or]
        rfl

end Check

end Reckoner
