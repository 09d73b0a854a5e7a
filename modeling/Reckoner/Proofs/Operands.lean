import Reckoner.Occurrence
import Reckoner.Proofs.Rendering

/-!
# Operands

An operand is a decimal with or without a minus sign, or a fraction. The occurrence that is found in
a text consists of the text's own characters and has operands that are read to their end, so the
arithmetic on it never lacks a number: it fails only where it would divide by zero.
-/

namespace Reckoner

open Literal

namespace Literal

def IsOperand (t : Text) : Prop := IsSigned IsDecimal t ∨ IsFraction t

/-- An operand is an unsigned literal, or a decimal behind a minus sign. -/
theorem IsOperand.unsigned_or_negative {t : Text} (h : IsOperand t) :
    (IsDecimal t ∨ IsFraction t) ∨ ∃ d, t = '-' :: d ∧ IsDecimal d := by
  rcases h with (h | h) | h
  · exact .inl (.inl h)
  · exact .inr h
  · exact .inl (.inr h)

theorem signed?_append {t rest : Text} (ht : IsOperand t) (hr : Stops rest) :
    signed? (t ++ rest) = some (t, rest) := by
  rcases ht.unsigned_or_negative with hw | ⟨d, rfl, hd⟩
  · simp [signed?, negative?_unsigned_append hw, unsigned?_append hw hr]
  · simp [signed?, negative?_append hd hr]

theorem isOperand_of_signed? {t l rest : Text} (h : signed? t = some (l, rest)) :
    IsOperand l ∧ ∀ c ∈ rest.head?, c.isDigit = false := by
  rcases Option.or_eq_some_iff.1 h with h | ⟨-, h⟩
  · obtain ⟨d, rfl, hd, hr⟩ := isDecimal_of_negative? h
    exact ⟨.inl (.inr ⟨d, rfl, hd⟩), hr⟩
  · obtain ⟨hl | hl, hr⟩ := isLiteral_of_unsigned? h
    · exact ⟨.inl (.inl hl), hr⟩
    · exact ⟨.inr hl, hr⟩

/-- An operand ends in a digit. -/
theorem IsOperand.concat {t : Text} (h : IsOperand t) : ∃ v d, t = v ++ [d] ∧ d.isDigit = true := by
  rcases h.unsigned_or_negative with hw | ⟨w, rfl, hw⟩
  · obtain ⟨v, d, rfl, hd, -⟩ := concat_of_literal hw
    exact ⟨v, d, rfl, hd⟩
  · obtain ⟨v, d, rfl, hd, -⟩ := concat_of_literal (.inl hw)
    exact ⟨'-' :: v, d, rfl, hd⟩

/-- Whether a text is an operand can be computed. -/
theorem covers_signed?_iff (t : Text) : covers signed? t = true ↔ IsOperand t := by
  constructor
  · intro h
    unfold covers at h
    split at h
    · next l he =>
      have ha := append_of_signed? he
      rw [List.append_nil] at ha
      exact ha ▸ (isOperand_of_signed? he).1
    · simp at h
  · intro h
    have := @signed?_append t [] h stops_nil
    rw [List.append_nil] at this
    simp [covers, this]

theorem IsOperand.not_letter {t : Text} (h : IsOperand t) : ∀ c ∈ t, c.isAlpha = false := by
  rcases h with (h | ⟨d, rfl, h⟩) | h
  · exact h.not_letter
  · intro c hc
    rcases List.mem_cons.1 hc with rfl | hc
    · decide
    · exact h.not_letter c hc
  · exact h.not_letter

theorem IsOperand.exists_digit {t : Text} (h : IsOperand t) : ∃ c ∈ t, c.isDigit = true := by
  obtain ⟨v, d, rfl, hd⟩ := h.concat
  exact ⟨d, by simp, hd⟩

end Literal

theorem isBlank_eq_false_of_isDigit {c : Char} (h : c.isDigit = true) :
    Text.isBlank c = false := by
  have h48 : 48 ≤ c.toNat ∧ c.toNat ≤ 57 := by
    simp only [Char.isDigit, Bool.and_eq_true, decide_eq_true_eq, ge_iff_le,
      UInt32.le_iff_toNat_le] at h
    exact h
  simp only [Text.isBlank, Text.blankRanges, List.any_cons, List.any_nil, Bool.or_false,
    Bool.or_eq_false_iff, Bool.and_eq_false_iff, decide_eq_false_iff_not]
  omega

/-- The first character of an unsigned literal is no blank, no sign and no letter. -/
theorem unsignedLiteral_head {t : Text} (h : IsDecimal t ∨ IsFraction t) :
    ∃ c r, t = c :: r ∧ (c.isDigit = true ∨ c = '.') := by
  rcases h with h | ⟨ds, -, rfl⟩
  · obtain ⟨c, r, rfl, hc⟩ := h.head
    exact ⟨c, r, rfl, .inl hc⟩
  · exact ⟨'.', ds, rfl, .inr rfl⟩

theorem trimStart_of_literal {t : Text} (h : IsDecimal t ∨ IsFraction t) :
    Text.trimStart t = t := by
  obtain ⟨c, r, rfl, hc⟩ := unsignedLiteral_head h
  have hb : Text.isBlank c = false := by
    rcases hc with hc | rfl
    · exact isBlank_eq_false_of_isDigit hc
    · decide
  simp [Text.trimStart, hb]

theorem sign_of_literal {t : Text} (h : IsDecimal t ∨ IsFraction t) :
    Decimal.sign t = (false, t) := by
  obtain ⟨c, r, rfl, hc⟩ := unsignedLiteral_head h
  unfold Decimal.sign
  split
  · next he =>
    obtain ⟨rfl, -⟩ := List.cons.inj he
    rcases hc with hc | hc <;> exact absurd hc (by decide)
  · next he =>
    obtain ⟨rfl, -⟩ := List.cons.inj he
    rcases hc with hc | hc <;> exact absurd hc (by decide)
  · rfl

theorem infinity_not_isPrefixOf {t : Text} (h : IsDecimal t ∨ IsFraction t) :
    "Infinity".toList.isPrefixOf t = false := by
  obtain ⟨c, r, rfl, hc⟩ := unsignedLiteral_head h
  rw [Bool.eq_false_iff]
  intro hp
  obtain ⟨u, hu⟩ := List.isPrefixOf_iff_prefix.1 hp
  obtain ⟨rfl, -⟩ : 'I' = c ∧ _ := by simpa using hu
  rcases hc with hc | hc <;> exact absurd hc (by decide)

theorem takeWhile_digits {ds : Text} (h : ∀ c ∈ ds, c.isDigit = true) :
    ds.takeWhile Char.isDigit = ds ∧ ds.dropWhile Char.isDigit = [] := by
  simpa [digits, afterDigits] using @digits_append ds [] h (by simp)

theorem mantissa?_digits {ds : Text} (h : IsDigits ds) :
    Decimal.mantissa? ds = some (Decimal.ofParts ds [], []) := by
  obtain ⟨h1, h2⟩ := takeWhile_digits h.2
  have hne : ds.isEmpty = false := by simpa using h.1
  simp [Decimal.mantissa?, h1, h2, hne]

theorem mantissa?_point {ds fs : Text} (hd : ∀ c ∈ ds, c.isDigit = true) (hf : IsDigits fs) :
    Decimal.mantissa? (ds ++ '.' :: fs) = some (Decimal.ofParts ds fs, []) := by
  obtain ⟨h1, h2⟩ := @digits_append ds ('.' :: fs) hd (by simp)
  obtain ⟨h3, h4⟩ := takeWhile_digits hf.2
  have hne : fs.isEmpty = false := by simpa using hf.1
  rw [digits] at h1
  rw [afterDigits] at h2
  simp [Decimal.mantissa?, h1, h2, h3, h4, hne]

/-- The decimal that digits write, all of them, with a point among or in front of them or none. -/
inductive Writes : Text → Decimal → Prop where
  | digits {whole : Text} (h : IsDigits whole) : Writes whole (.ofParts whole [])
  | point {whole fraction : Text} (hw : ∀ c ∈ whole, c.isDigit = true) (hf : IsDigits fraction) :
      Writes (whole ++ '.' :: fraction) (.ofParts whole fraction)

theorem Writes.mantissa? {t : Text} {d : Decimal} (h : Writes t d) :
    Decimal.mantissa? t = some (d, []) := by
  cases h with
  | digits h => exact mantissa?_digits h
  | point hw hf => exact mantissa?_point hw hf

theorem exists_writes {t : Text} (h : IsDecimal t ∨ IsFraction t) : ∃ d, Writes t d := by
  rcases h with (h | ⟨whole, f, hw, ⟨fraction, hf, rfl⟩, rfl⟩) | ⟨fraction, hf, rfl⟩
  · exact ⟨_, .digits h⟩
  · exact ⟨_, .point hw.2 hf⟩
  · exact ⟨_, @Writes.point [] fraction (by simp) hf⟩

/-- A literal is read whole, and its sign decides nothing but the sign of the value. -/
theorem leadingNumber?_of_mantissa? {t : Text} {d : Decimal} (h : IsDecimal t ∨ IsFraction t)
    (hd : Decimal.mantissa? t = some (d, [])) :
    leadingNumber? t = some (Binary64.ofMagnitude false d.nearest) ∧
      leadingNumber? ('-' :: t) = some (Binary64.ofMagnitude true d.nearest) := by
  have hl : Decimal.leading? t = some d := by
    simp [Decimal.leading?, hd, Decimal.exponentPart]
  have hm : Text.trimStart ('-' :: t) = '-' :: t := by
    simp [Text.trimStart, show Text.isBlank '-' = false by decide]
  constructor
  · simp only [leadingNumber?, trimStart_of_literal h, sign_of_literal h,
      infinity_not_isPrefixOf h, hl, Bool.false_eq_true, if_false, Option.map_some]
  · simp only [leadingNumber?, hm, Decimal.sign, infinity_not_isPrefixOf h, hl,
      Bool.false_eq_true, if_false, Option.map_some]

theorem leadingNumber?_of_literal {t : Text} (h : IsDecimal t ∨ IsFraction t) :
    ∃ d : Decimal, leadingNumber? t = some (Binary64.ofMagnitude false d.nearest) ∧
      leadingNumber? ('-' :: t) = some (Binary64.ofMagnitude true d.nearest) := by
  obtain ⟨d, hd⟩ := exists_writes h
  exact ⟨d, leadingNumber?_of_mantissa? h hd.mantissa?⟩

/-- The sign of a literal is the sign of its value, which is finite or infinite. -/
theorem operandValue_of_literal {t : Text} (h : IsDecimal t ∨ IsFraction t) :
    ∃ m, m ≤ Binary64.infinity ∧ operandValue t = .ok (Binary64.ofMagnitude false m) ∧
      operandValue ('-' :: t) = .ok (Binary64.ofMagnitude true m) := by
  obtain ⟨d, h1, h2⟩ := leadingNumber?_of_literal h
  exact ⟨d.nearest, d.nearest_le_infinity, by rw [operandValue, h1], by rw [operandValue, h2]⟩

theorem exists_operandValue {t : Text} (h : IsOperand t) :
    ∃ negative m, m ≤ Binary64.infinity ∧
      operandValue t = .ok (Binary64.ofMagnitude negative m) := by
  rcases h.unsigned_or_negative with hw | ⟨d, rfl, hd⟩
  · obtain ⟨m, hm, hv, -⟩ := operandValue_of_literal hw
    exact ⟨false, m, hm, hv⟩
  · obtain ⟨m, hm, -, hv⟩ := operandValue_of_literal (.inl hd)
    exact ⟨true, m, hm, hv⟩

theorem Operator.apply_error {op : Operator} {left right : Float} {fault : Fault}
    (h : op.apply left right = .error fault) : fault = .divisionByZero ∧ op = .divide := by
  cases op with
  | divide =>
    simp only [Operator.apply] at h
    split at h
    · exact ⟨(Except.error.inj h).symm, rfl⟩
    · cases h
  | _ => cases h

/-- On operands, arithmetic fails only by dividing by zero. -/
theorem calculate_error {left right : Text} {op : Operator} {fault : Fault} (hl : IsOperand left)
    (hr : IsOperand right) (h : calculate left op right = .error fault) :
    fault = .divisionByZero ∧ op = .divide := by
  obtain ⟨_, _, _, hl⟩ := exists_operandValue hl
  obtain ⟨_, _, _, hr⟩ := exists_operandValue hr
  simp only [calculate, hl, hr] at h
  exact Operator.apply_error h

theorem exists_spaces (t : Text) : ∃ n, Text.spaces t = List.replicate n ' ' := by
  refine ⟨(Text.spaces t).length, List.eq_replicate_iff.2 ⟨rfl, ?_⟩⟩
  intro c hc
  simpa using List.all_eq_true.1 List.all_takeWhile c hc

@[simp] theorem spaces_replicate_append (n : Nat) {t : Text} (h : t.head? ≠ some ' ') :
    Text.spaces (List.replicate n ' ' ++ t) = List.replicate n ' ' ∧
      Text.afterSpaces (List.replicate n ' ' ++ t) = t := by
  refine takeWhile_append_stop (by simp) ?_
  intro c hc
  rw [beq_eq_false_iff_ne]
  rintro rfl
  exact h hc

theorem afterSpaces_of_head {t : Text} (h : t.head? ≠ some ' ') : Text.afterSpaces t = t :=
  (spaces_replicate_append 0 h).2

theorem afterSpaces_of_ne {c : Char} (h : c ≠ ' ') (t : Text) :
    Text.afterSpaces (c :: t) = c :: t :=
  afterSpaces_of_head (by simpa using h)

@[simp] theorem isOperatorChar_symbol (op : Operator) : isOperatorChar op.symbol = true := by
  simp [isOperatorChar]

theorem exists_symbol {c : Char} (h : isOperatorChar c = true) :
    ∃ op : Operator, c = op.symbol := by
  obtain ⟨op, ho⟩ := Option.isSome_iff_exists.1 h
  exact ⟨op, (Operator.symbol_of_ofChar? ho).symm⟩

/-- No operator begins a literal or is a space. -/
theorem symbol_facts (op : Operator) :
    op.symbol.isDigit = false ∧ op.symbol ≠ '.' ∧ op.symbol ≠ ' ' := by
  cases op <;> decide

theorem stops_symbol (op : Operator) (t : Text) : Stops (op.symbol :: t) :=
  (stops_cons _ _).2 ⟨(symbol_facts op).1, (symbol_facts op).2.1⟩

theorem stops_space (t : Text) : Stops (' ' :: t) := (stops_cons _ _).2 (by decide)

theorem stops_spaces (n : Nat) {t : Text} (h : Stops t) : Stops (List.replicate n ' ' ++ t) := by
  cases n with
  | zero => simpa using h
  | succ n => exact stops_space _

/-- No literal begins a text that stops literals. -/
theorem not_stops_literal_append {w : Text} (h : IsDecimal w ∨ IsFraction w) (rest : Text) :
    ¬ Stops (w ++ rest) := by
  intro hstops
  obtain ⟨c, r, rfl, hc⟩ := unsignedLiteral_head h
  obtain ⟨hdigit, hpoint⟩ := (stops_cons _ _).1 hstops
  cases hc with
  | inl hc =>
    rw [hdigit] at hc
    cases hc
  | inr hc => exact hpoint hc

namespace Occurrence

/-- What a left operand has in front of its number: nothing, or an operator and spaces. -/
def IsCarried (t : Text) : Prop :=
  t = [] ∨ ∃ (op : Operator) (n : Nat), t = op.symbol :: List.replicate n ' '

theorem splitOperand?_of_isOperand {t : Text} (h : IsOperand t) :
    splitOperand? t = some ([], t) := by
  have hs := @signed?_append t [] h stops_nil
  rw [List.append_nil] at hs
  cases t with
  | nil => simp [signed?, negative?, unsigned?, decimal?, fraction?, digits] at hs
  | cons c t => simp [splitOperand?, hs]

/-- Behind an operator, spaces and a minus sign the number is found, and the operator is kept. -/
theorem splitOperand?_carried (op : Operator) (n : Nat) {d : Text} (h : IsDecimal d) :
    splitOperand? (op.symbol :: (List.replicate n ' ' ++ '-' :: d)) =
      some (op.symbol :: List.replicate n ' ', '-' :: d) := by
  have hstop : Stops (List.replicate n ' ' ++ '-' :: d) :=
    stops_spaces n (by rw [stops_cons]; decide)
  have hneg : negative? (op.symbol :: (List.replicate n ' ' ++ '-' :: d)) = none :=
    negative?_cons_of_not_digit _ hstop.digit
  have hsig : signed? (op.symbol :: (List.replicate n ' ' ++ '-' :: d)) = none := by
    simp [signed?, hneg, unsigned?_of_stops (stops_symbol op _)]
  obtain ⟨hsp, haf⟩ := spaces_replicate_append n (t := '-' :: d) (by simp)
  have hnum := @signed?_append ('-' :: d) [] (.inl (.inr ⟨d, rfl, h⟩)) stops_nil
  rw [List.append_nil] at hnum
  simp [splitOperand?, hsig, carried?, hsp, haf, hnum]

theorem trailingOperand?_spec {t left rest : Text} (h : trailingOperand? t = some (left, rest)) :
    ∃ (op : Operator) (n : Nat) (d : Text),
      left = op.symbol :: (List.replicate n ' ' ++ '-' :: d) ∧ IsDecimal d ∧ t = left ++ rest := by
  cases t with
  | nil => simp [trailingOperand?] at h
  | cons c t =>
    simp only [trailingOperand?] at h
    split at h
    · next hop =>
      obtain ⟨⟨number, r⟩, hn, he⟩ := Option.map_eq_some_iff.1 h
      simp only [Prod.mk.injEq] at he
      obtain ⟨rfl, rfl⟩ := he
      obtain ⟨d, rfl, hd, -⟩ := isDecimal_of_negative? hn
      obtain ⟨op, rfl⟩ := exists_symbol hop
      obtain ⟨n, hsp⟩ := exists_spaces t
      refine ⟨op, n, d, by rw [hsp], hd, ?_⟩
      rw [List.cons_append, List.append_assoc, append_of_negative? hn,
        Text.spaces_append_afterSpaces]
    · simp at h

/-- The readers of the left operands that are tried at a place. -/
theorem mem_leftOperands {seen t left rest : Text} (h : (left, rest) ∈ leftOperands seen t) :
    openingOperand? seen t = some (left, rest) ∨ trailingOperand? t = some (left, rest) ∨
      (∀ c ∈ seen.head?, c.isDigit = false) ∧ unsigned? t = some (left, rest) ∨
      (∀ c ∈ seen.head?, c.isDigit = false) ∧ fraction? t = some (left, rest) := by
  simp only [leftOperands, List.mem_filterMap, id, exists_eq_right] at h
  by_cases hd : seen.head?.any Char.isDigit = true
  · simp only [hd, if_true, List.mem_cons, List.not_mem_nil, or_false] at h
    rcases h with h | h
    · exact .inl h.symm
    · exact .inr (.inl h.symm)
  · have hs : ∀ c ∈ seen.head?, c.isDigit = false := by
      intro c hc
      rw [Option.mem_def] at hc
      simpa [hc] using hd
    simp only [hd, Bool.false_eq_true, if_false, List.mem_cons, List.not_mem_nil, or_false] at h
    rcases h with h | h | h | h
    · exact .inl h.symm
    · exact .inr (.inl h.symm)
    · exact .inr (.inr (.inl ⟨hs, by simp [unsigned?, ← h]⟩))
    · exact .inr (.inr (.inr ⟨hs, h.symm⟩))

/-- The left operands that are tried at a place, said without the readers. -/
theorem leftOperand_cases {seen t left rest : Text} (h : (left, rest) ∈ leftOperands seen t) :
    ∃ carried number, left = carried ++ number ∧ t = left ++ rest ∧ IsCarried carried ∧
      IsOperand number ∧ splitOperand? left = some (carried, number) ∧
      (number.head? = some '-' ∨ carried = [] ∧ ∀ c ∈ seen.head?, c.isDigit = false) := by
  rcases mem_leftOperands h with h | h | ⟨hs, h⟩ | ⟨hs, h⟩
  · unfold openingOperand? at h
    split at h
    · obtain ⟨d, rfl, hd, -⟩ := isDecimal_of_negative? h
      have ho : IsOperand ('-' :: d) := .inl (.inr ⟨d, rfl, hd⟩)
      exact ⟨[], _, rfl, (append_of_negative? h).symm, .inl rfl, ho, splitOperand?_of_isOperand ho,
        .inl rfl⟩
    · simp at h
  · obtain ⟨op, n, d, rfl, hd, ht⟩ := trailingOperand?_spec h
    refine ⟨op.symbol :: List.replicate n ' ', '-' :: d, rfl, ht, .inr ⟨op, n, rfl⟩,
      .inl (.inr ⟨d, rfl, hd⟩), splitOperand?_carried op n hd, .inl rfl⟩
  · have ho : IsOperand left := by
      rcases (isLiteral_of_unsigned? h).1 with hd | hf
      · exact .inl (.inl hd)
      · exact .inr hf
    exact ⟨[], left, rfl, (append_of_unsigned? h).symm, .inl rfl, ho,
      splitOperand?_of_isOperand ho, .inr ⟨rfl, hs⟩⟩
  · have ho : IsOperand left := .inr (isFraction_of_fraction? h).1
    exact ⟨[], left, rfl, (append_of_fraction? h).symm, .inl rfl, ho,
      splitOperand?_of_isOperand ho, .inr ⟨rfl, hs⟩⟩

structure Found (level : Operator.Level) (t : Text) (o : Occurrence) (carried number : Text) :
    Prop where
  text : o.text = t
  left : o.left = carried ++ number
  isCarried : IsCarried carried
  isOperand : IsOperand number
  split : splitOperand? o.left = some (carried, number)
  boundary : number.head? = some '-' ∨ carried = [] ∧ ∀ c ∈ o.before.getLast?, c.isDigit = false
  mem : o.operator ∈ level
  leftGap : ∃ n, o.leftGap = List.replicate n ' '
  rightGap : ∃ n, o.rightGap = List.replicate n ' '
  right : IsOperand o.right

theorem complete?_spec {level : Operator.Level} {seen left rest : Text} {o : Occurrence}
    (h : complete? level seen left rest = some o) :
    o.before = seen.reverse ∧ o.left = left ∧ o.operator ∈ level ∧ IsOperand o.right ∧
      (∃ n, o.leftGap = List.replicate n ' ') ∧ (∃ n, o.rightGap = List.replicate n ' ') ∧
      rest = o.leftGap ++ o.operator.symbol :: (o.rightGap ++ (o.right ++ o.after)) := by
  have hrest := Text.spaces_append_afterSpaces rest
  unfold complete? at h
  split at h
  · simp at h
  next c t hc =>
  split at h
  · simp at h
  next op hop =>
  split at h
  · next hmem =>
    obtain ⟨⟨right, after⟩, hr, rfl⟩ := Option.map_eq_some_iff.1 h
    refine ⟨rfl, rfl, hmem, (isOperand_of_signed? hr).1, exists_spaces rest, exists_spaces t, ?_⟩
    rw [append_of_signed? hr, Text.spaces_append_afterSpaces, Operator.symbol_of_ofChar? hop, ← hc,
      hrest]
  · simp at h

theorem findFrom?_spec {level : Operator.Level} {seen t : Text} {o : Occurrence}
    (h : findFrom? level seen t = some o) :
    ∃ carried number, Found level (seen.reverse ++ t) o carried number := by
  induction t generalizing seen with
  | nil => simp [findFrom?] at h
  | cons c t ih =>
    rcases Option.or_eq_some_iff.1 h with h | ⟨-, h⟩
    · obtain ⟨⟨left, rest⟩, hmem, hc⟩ := List.exists_of_findSome?_eq_some h
      obtain ⟨carried, number, hl, ht, hcar, hop, hsplit, hb⟩ := leftOperand_cases hmem
      obtain ⟨h1, rfl, h3, h4, h5, h6, h7⟩ := complete?_spec hc
      refine ⟨carried, number, ?_, hl, hcar, hop, hsplit, ?_, h3, h5, h6, h4⟩
      · rw [ht, h7]
        simp [Occurrence.text, extent, h1]
      · simpa [h1] using hb
    · simpa using ih h

/-- An occurrence that is found is made of the text and has operands that can be read. -/
theorem find?_spec {level : Operator.Level} {t : Text} {o : Occurrence}
    (h : find? level t = some o) : ∃ carried number, Found level t o carried number := by
  simpa using findFrom?_spec h

/-- The contraction of an occurrence puts the result between what stood around its number and its
right operand. -/
theorem Found.contract {level : Operator.Level} {t carried number : Text} {o : Occurrence}
    (h : Found level t o carried number) :
    o.contract = (calculate number o.operator o.right).map fun v =>
      o.before ++ (carried ++ render v ++ o.after) := by
  simp only [Occurrence.contract, resultText, h.split]
  cases calculate number o.operator o.right <;> rfl

theorem Found.contract_ok {level : Operator.Level} {t r carried number : Text} {o : Occurrence}
    (h : Found level t o carried number) (hr : o.contract = .ok r) :
    ∃ v, r = o.before ++ (carried ++ render v ++ o.after) := by
  rw [h.contract] at hr
  cases hc : calculate number o.operator o.right with
  | error f => simp [hc, Except.map] at hr
  | ok v => exact ⟨v, by simpa [hc, Except.map] using hr.symm⟩

theorem Found.contract_error {level : Operator.Level} {t carried number : Text} {o : Occurrence}
    {fault : Fault} (h : Found level t o carried number) (he : o.contract = .error fault) :
    fault = .divisionByZero ∧ o.operator = .divide := by
  rw [h.contract] at he
  cases hc : calculate number o.operator o.right with
  | ok v => simp [hc, Except.map] at he
  | error f =>
    simp only [hc, Except.map, Except.error.injEq] at he
    exact he ▸ calculate_error h.isOperand h.right hc

end Occurrence

end Reckoner
