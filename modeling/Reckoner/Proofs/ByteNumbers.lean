import Reckoner.Proofs.ByteReaders
import Reckoner.Proofs.Numerals
import Reckoner.Proofs.Reentry

/-!
# Numbers at bytes

The number in front of a text can be looked for at bytes, which gives the byte at which it ends;
the text is cut there and only the numeral is given a value. A negative literal is recognised by
cutting off one fraction after the other. Both cut behind ASCII characters, so that no cut fails.
-/

namespace Reckoner

open Literal

namespace Bytes

def signEnd (bs : List UInt8) (i : Nat) : Nat :=
  if testAt (fun c => c == '+' || c == '-') bs i then i + 1 else i

/-- The place behind digits that begin at a place, with at most one point and at least one digit
among them; a point that stands behind the digits belongs to them. -/
def mantissaEnd? (bs : List UInt8) (i : Nat) : Option Nat :=
  let whole := skipDigits bs i
  let stop := if testAt (· == '.') bs whole then skipDigits bs (whole + 1) else whole
  if whole = i ∧ stop ≤ i + 1 then none else some stop

def exponentEnd (bs : List UInt8) (i : Nat) : Nat :=
  if testAt (fun c => c == 'e' || c == 'E') bs i then
    let power := signEnd bs (i + 1)
    if power < skipDigits bs power then skipDigits bs power else i
  else i

def parse? (numeral : Text) : Option Float :=
  let (negative, amount) := Decimal.sign numeral
  (Decimal.leading? amount).map fun d => Binary64.ofMagnitude negative d.nearest

/-- The number in front of a text; `none` if the text cannot be cut where the number begins or
ends. -/
def leadingNumber? (t : Text) : Option (Option Float) := do
  let trimmed := t.trimStart
  let start := signEnd trimmed.utf8 0
  let amount ← trimmed.cut? start trimmed.utf8Size
  if "Infinity".toList.isPrefixOf amount then
    return some (Binary64.ofMagnitude (testAt (· == '-') trimmed.utf8 0) Binary64.infinity)
  else
    match mantissaEnd? trimmed.utf8 start with
    | none => return none
    | some stop => do
      let numeral ← trimmed.cut? 0 (exponentEnd trimmed.utf8 stop)
      return parse? numeral

/-- Whether a text is fractions and nothing else, each being cut off in its turn; `none` if a cut
fails or there are more than `fuel` of them. -/
def onlyFractions? : (fuel : Nat) → Text → Option Bool
  | _, [] => some true
  | 0, _ :: _ => none
  | fuel + 1, c :: t =>
    match fractionEnd? (Text.utf8 (c :: t)) 0 with
    | none => some false
    | some stop => (Text.cut? (c :: t) stop (Text.utf8Size (c :: t))).bind (onlyFractions? fuel)

def isNegative? : Text → Option Bool
  | '-' :: t =>
    if fractionEnd? (Text.utf8 t) 0 = some (Text.utf8Size t) then some true
    else if Text.utf8Size (afterDigits t) = Text.utf8Size t then some false
    else onlyFractions? t.length (afterDigits t)
  | _ => some false

/-! ### Signs, digits and exponents -/

theorem isAscii_or {p q : Char → Bool} (hp : IsAscii p) (hq : IsAscii q) :
    IsAscii fun c => p c || q c := by
  intro c hc
  rcases Bool.or_eq_true_iff.1 hc with hc | hc
  · exact hp c hc
  · exact hq c hc

/-- A sign is passed over. -/
theorem signEnd_append (s t : Text) : ∃ w, IsLeadingSign w (Decimal.sign t).1 ∧
    t = w ++ (Decimal.sign t).2 ∧ signEnd (s ++ t).utf8 s.utf8Size = Text.utf8Size (s ++ w) := by
  have hascii := isAscii_or (isAscii_beq (c := '+') (by decide))
    (isAscii_beq (c := '-') (by decide))
  rw [signEnd, testAt_append hascii]
  unfold Decimal.sign
  split
  · exact ⟨['-'], .minus, rfl, (utf8Size_concat (by decide) s).symm⟩
  · exact ⟨['+'], .plus, rfl, (utf8Size_concat (by decide) s).symm⟩
  · next hminus hplus =>
    refine ⟨[], .none, rfl, ?_⟩
    rw [List.append_nil, if_neg]
    cases t with
    | nil => simp
    | cons c t =>
      rw [List.head?_cons, Option.any_some, Bool.or_eq_true, beq_iff_eq, beq_iff_eq]
      rintro (rfl | rfl)
      · exact hplus t rfl
      · exact hminus t rfl

theorem mantissa?_of_point {t rest : Text} (h : afterDigits t = '.' :: rest) :
    Decimal.mantissa? t = if (digits t).isEmpty && (digits rest).isEmpty then none
      else some (.ofParts (digits t) (digits rest), afterDigits rest) := by
  rw [Decimal.mantissa?, ← digits, ← afterDigits, h]
  rfl

theorem mantissa?_of_not_point {t : Text} (h : (afterDigits t).head? ≠ some '.') :
    Decimal.mantissa? t = if (digits t).isEmpty then none
      else some (.ofParts (digits t) [], afterDigits t) := by
  rw [Decimal.mantissa?, ← digits, ← afterDigits]
  dsimp only
  split
  · next rest hrest => exact absurd (congrArg List.head? hrest) h
  · rfl

theorem utf8Size_append_eq_iff (s t : Text) : Text.utf8Size (s ++ t) = s.utf8Size ↔ t = [] := by
  rw [Text.utf8Size_append, Nat.add_eq_left, Text.utf8Size_eq_zero_iff]

theorem mantissaEnd?_of_point (s : Text) {t rest : Text} (h : afterDigits t = '.' :: rest) :
    mantissaEnd? (s ++ t).utf8 s.utf8Size =
      if (digits t).isEmpty && (digits rest).isEmpty then none
      else some (Text.utf8Size (s ++ digits t ++ ['.'] ++ digits rest)) := by
  have hsplit : s ++ digits t ++ afterDigits t = s ++ t := by simp
  have hpoint := testAt_beq_append (c := '.') (by decide) (s ++ digits t) (afterDigits t)
  have hbehind : s ++ digits t ++ ['.'] ++ rest = s ++ t := by
    rw [← hsplit, h]
    simp
  have hdigits := skipDigits_append (s ++ digits t ++ ['.']) rest
  rw [hsplit, decide_eq_true (by rw [h]; rfl)] at hpoint
  rw [hbehind, utf8Size_concat (by decide)] at hdigits
  have hempty : (Text.utf8Size (s ++ digits t) = s.utf8Size ∧
      Text.utf8Size (s ++ digits t ++ ['.'] ++ digits rest) ≤ s.utf8Size + 1) ↔
      ((digits t).isEmpty && (digits rest).isEmpty) = true := by
    rw [utf8Size_append_eq_iff, Bool.and_eq_true, List.isEmpty_iff, List.isEmpty_iff]
    refine and_congr_right fun hnil => ?_
    rw [hnil, List.append_nil, Text.utf8Size_append, utf8Size_concat (by decide),
      ← Text.utf8Size_eq_zero_iff]
    omega
  rw [mantissaEnd?, skipDigits_append, hpoint, if_pos rfl, hdigits]
  simp only [hempty]

theorem mantissaEnd?_of_not_point (s : Text) {t : Text} (h : (afterDigits t).head? ≠ some '.') :
    mantissaEnd? (s ++ t).utf8 s.utf8Size =
      if (digits t).isEmpty then none else some (Text.utf8Size (s ++ digits t)) := by
  have hsplit : s ++ digits t ++ afterDigits t = s ++ t := by simp
  have hpoint := testAt_beq_append (c := '.') (by decide) (s ++ digits t) (afterDigits t)
  rw [hsplit, decide_eq_false h] at hpoint
  have hempty : (Text.utf8Size (s ++ digits t) = s.utf8Size ∧
      Text.utf8Size (s ++ digits t) ≤ s.utf8Size + 1) ↔ (digits t).isEmpty = true := by
    rw [List.isEmpty_iff, ← utf8Size_append_eq_iff s]
    omega
  rw [mantissaEnd?, skipDigits_append, hpoint, if_neg Bool.false_ne_true]
  simp only [hempty]

/-- Digits, a point and digits end in front of what the mantissa leaves. -/
theorem mantissaEnd?_append (s t : Text) : mantissaEnd? (s ++ t).utf8 s.utf8Size =
    (Decimal.mantissa? t).map fun found => Text.utf8Size (s ++ t) - Text.utf8Size found.2 := by
  by_cases hhead : (afterDigits t).head? = some '.'
  · obtain ⟨rest, hrest⟩ := List.head?_eq_some_iff.1 hhead
    have hstop : s ++ digits t ++ ['.'] ++ digits rest ++ afterDigits rest = s ++ t := by
      rw [List.append_assoc, digits_append_afterDigits, List.append_assoc, List.append_assoc,
        List.singleton_append, ← hrest, digits_append_afterDigits]
    rw [mantissaEnd?_of_point s hrest, mantissa?_of_point hrest]
    split
    · rfl
    · rw [Option.map_some, ← hstop, Text.utf8Size_append _ (afterDigits rest), Nat.add_sub_cancel]
  · have hstop : s ++ digits t ++ afterDigits t = s ++ t := by simp
    rw [mantissaEnd?_of_not_point s hhead, mantissa?_of_not_point hhead]
    split
    · rfl
    · rw [Option.map_some, ← hstop, Text.utf8Size_append _ (afterDigits t), Nat.add_sub_cancel]

/-- Behind a mark and a sign there are to be digits. -/
theorem exponentEnd_of_mark {c : Char} (hc : c = 'e' ∨ c = 'E') (s u : Text) :
    ∃ w, IsLeadingSign w (Decimal.sign u).1 ∧ u = w ++ (Decimal.sign u).2 ∧
      exponentEnd (s ++ c :: u).utf8 s.utf8Size =
        if (digits (Decimal.sign u).2).isEmpty then s.utf8Size
        else Text.utf8Size (s ++ [c] ++ w ++ digits (Decimal.sign u).2) := by
  have hascii := isAscii_or (isAscii_beq (c := 'e') (by decide))
    (isAscii_beq (c := 'E') (by decide))
  have hmark : (c == 'e' || c == 'E') = true := by simpa using hc
  obtain ⟨w, hw, hu, hsign⟩ := signEnd_append (s ++ [c]) u
  have hdigits := skipDigits_append (s ++ [c] ++ w) (Decimal.sign u).2
  have htext : s ++ [c] ++ w ++ (Decimal.sign u).2 = s ++ c :: u := by
    rw [List.append_assoc, ← hu, List.append_assoc, List.singleton_append]
  rw [List.append_assoc, List.singleton_append, utf8Size_concat (hascii c hmark)] at hsign
  rw [htext] at hdigits
  refine ⟨w, hw, hu, ?_⟩
  rw [exponentEnd, testAt_append hascii, List.head?_cons, Option.any_some, if_pos hmark, hsign]
  dsimp only
  rw [hdigits]
  by_cases hempty : (digits (Decimal.sign u).2).isEmpty = true
  · rw [if_pos hempty, List.isEmpty_iff.1 hempty, List.append_nil, if_neg (Nat.lt_irrefl _)]
  · have hpos := Text.utf8Size_pos (t := digits (Decimal.sign u).2) (by simpa using hempty)
    rw [if_neg hempty, Text.utf8Size_append _ (digits _), if_pos (Nat.lt_add_of_pos_right hpos)]

theorem exponentEnd_of_not_mark (s : Text) {t : Text}
    (h : t.head?.any (fun c => c == 'e' || c == 'E') = false) :
    exponentEnd (s ++ t).utf8 s.utf8Size = s.utf8Size := by
  have hascii := isAscii_or (isAscii_beq (c := 'e') (by decide))
    (isAscii_beq (c := 'E') (by decide))
  rw [exponentEnd, testAt_append hascii, h, if_neg Bool.false_ne_true]

/-- An exponent is passed over if it has digits. -/
theorem exponentEnd_append (s t : Text) : ∃ power rest, t = power ++ rest ∧
    IsExponent power (Decimal.exponentPart t) ∧
    exponentEnd (s ++ t).utf8 s.utf8Size = Text.utf8Size (s ++ power) := by
  cases t with
  | nil => exact ⟨[], [], rfl, .none, by rw [exponentEnd_of_not_mark s rfl, List.append_nil]⟩
  | cons c u =>
    by_cases hc : c = 'e' ∨ c = 'E'
    · obtain ⟨w, hw, hu, hend⟩ := exponentEnd_of_mark hc s u
      rw [hend]
      by_cases hempty : (digits (Decimal.sign u).2).isEmpty = true
      · have hzero := exponentPart_of_digits_nil hc (List.isEmpty_iff.1 hempty)
        exact ⟨[], c :: u, rfl, hzero ▸ .none, by rw [if_pos hempty, List.append_nil]⟩
      · refine ⟨c :: (w ++ digits (Decimal.sign u).2), afterDigits (Decimal.sign u).2, ?_, ?_, ?_⟩
        · rw [List.cons_append, List.append_assoc, digits_append_afterDigits, ← hu]
        · rw [exponentPart_of_mark hc]
          exact .power hc hw (isDigits_digits (Bool.eq_false_iff.2 hempty))
        · rw [if_neg hempty]
          simp
    · refine ⟨[], c :: u, rfl, ?_, ?_⟩
      · rw [Decimal.exponentPart, if_neg hc]
        exact .none
      · rw [exponentEnd_of_not_mark s (by simpa using hc), List.append_nil]

/-! ### Numbers -/

theorem sign_fst (t : Text) : (Decimal.sign t).1 = decide (t.head? = some '-') := by
  unfold Decimal.sign
  split
  · rfl
  · rfl
  · next hminus _ =>
    rw [eq_comm, decide_eq_false_iff_not, List.head?_eq_some_iff]
    rintro ⟨u, rfl⟩
    exact hminus u rfl

theorem parse?_append {s amount : Text} {negative : Bool} {d : Decimal}
    (hs : IsLeadingSign s negative) (ha : IsAmount amount (some d.value)) :
    parse? (s ++ amount) = some (Binary64.ofMagnitude negative d.nearest) := by
  obtain ⟨e, hvalue, hread, -⟩ := leading?_of_isAmount ha
  rw [parse?, ha.isPlain.sign_append hs]
  dsimp only
  rw [hread, Option.map_some, Decimal.nearest_congr hvalue]

/-- Behind a sign, a mantissa and its exponent are cut out together with the sign. -/
theorem cut?_numeral (w : Text) {u r : Text} {d : Decimal}
    (h : Decimal.mantissa? u = some (d, r)) : ∃ amount,
    IsAmount amount (some (Decimal.value ⟨d.digits, d.exponent + Decimal.exponentPart r⟩)) ∧
      (w ++ u).cut? 0 (exponentEnd (w ++ u).utf8 (Text.utf8Size (w ++ u) - Text.utf8Size r)) =
        some (w ++ amount) := by
  obtain ⟨body, hbody, rfl, -⟩ := mantissa?_spec h
  obtain ⟨power, rest, rfl, hpower, hend⟩ := exponentEnd_append (w ++ body) r
  have hstop : Text.utf8Size (w ++ (body ++ (power ++ rest))) - Text.utf8Size (power ++ rest) =
      Text.utf8Size (w ++ body) := by
    rw [← List.append_assoc, Text.utf8Size_append _ (power ++ rest), Nat.add_sub_cancel]
  have hcut := Text.cut?_append [] (w ++ (body ++ power)) rest
  simp only [List.append_assoc, List.nil_append, Text.utf8Size_nil] at hcut hend
  refine ⟨body ++ power, d.value_scaled _ ▸ .decimal hbody hpower, ?_⟩
  rw [hstop, hend, hcut]

/-- A number is found, byte by byte, where it is found character by character. -/
theorem leadingNumber?_eq (t : Text) : leadingNumber? t = some (Reckoner.leadingNumber? t) := by
  obtain ⟨w, hw, ht, hsign⟩ := signEnd_append [] t.trimStart
  rw [List.nil_append, List.nil_append, Text.utf8Size_nil] at hsign
  have hminus := testAt_beq_append (c := '-') (by decide) [] t.trimStart
  rw [List.nil_append, Text.utf8Size_nil] at hminus
  have hbehind := Text.cut?_end w (Decimal.sign t.trimStart).2
  rw [← ht] at hbehind
  rw [leadingNumber?, Reckoner.leadingNumber?]
  dsimp only
  rw [hsign, hbehind, hminus, ← sign_fst]
  dsimp only [Option.bind_eq_bind, Option.bind_some]
  split
  · rfl
  · have hmantissa := mantissaEnd?_append w (Decimal.sign t.trimStart).2
    rw [← ht] at hmantissa
    rw [hmantissa, Decimal.leading?]
    cases hread : Decimal.mantissa? (Decimal.sign t.trimStart).2 with
    | none => rfl
    | some found =>
      obtain ⟨amount, hamount, hcut⟩ := cut?_numeral w hread
      rw [← ht] at hcut
      simp only [Option.map_some]
      rw [hcut, Option.bind_some, parse?_append hw hamount]
      rfl

/-! ### Negative literals -/

/-- Where a digit is asked for there is to be one. -/
theorem isDotted_of_digits_nil {t : Text} (h : digits t = []) : isDotted true t = false := by
  cases t with
  | nil => rfl
  | cons c t =>
    have hc : c.isDigit = false := by
      by_contra hc
      simp [digits, hc] at h
    simp [isDotted, hc]

theorem isDotted_afterDigits {t : Text} (h : digits t ≠ []) :
    isDotted true t = isDotted false (afterDigits t) := by
  have hfirst := isDotted_digits_first (isDigits_digits (by simpa using h)) (afterDigits t)
  rwa [digits_append_afterDigits] at hfirst

/-- Behind a fraction the same is asked of what follows, and where there is no digit and no
fraction, there is to be nothing. -/
theorem isDotted_of_fraction? {c : Char} {t : Text} (hc : c.isDigit = false) :
    isDotted false (c :: t) = (fraction? (c :: t)).any fun found => isDotted false found.2 := by
  rw [isDotted, hc, if_neg Bool.false_ne_true]
  by_cases hpoint : c = '.'
  · subst hpoint
    rw [fraction?]
    by_cases hd : (digits t).isEmpty = true
    · simp [hd, isDotted_of_digits_nil (List.isEmpty_iff.1 hd)]
    · simp [hd, isDotted_afterDigits (by simpa using hd)]
  · rw [fraction?_of_not_point (by simpa using hpoint)]
    simp [hpoint]

/-- One fraction after the other is cut off, and at the end nothing or something else is left. -/
theorem onlyFractions?_eq {fuel : Nat} {t : Text} (hfuel : t.length ≤ fuel)
    (ht : ∀ c ∈ t.head?, c.isDigit = false) : onlyFractions? fuel t = some (isDotted false t) := by
  induction fuel generalizing t with
  | zero =>
    obtain rfl := List.length_eq_zero_iff.1 (Nat.le_zero.1 hfuel)
    rfl
  | succ fuel ih =>
    cases t with
    | nil => rfl
    | cons c t =>
      rw [onlyFractions?, endsAs_fraction.front, isDotted_of_fraction? (ht c rfl)]
      cases hread : fraction? (c :: t) with
      | none => rfl
      | some found =>
        obtain ⟨f, rest⟩ := found
        have hcut := Text.cut?_end f rest
        have hlength := congrArg List.length (append_of_fraction? hread)
        obtain ⟨⟨ds, -, rfl⟩, hhead⟩ := isFraction_of_fraction? hread
        rw [append_of_fraction? hread] at hcut
        rw [List.length_append, List.length_cons] at hlength
        rw [Option.map_some]
        dsimp only
        rw [hcut, Option.bind_some, ih (by omega) hhead, Option.any_some]

theorem fractionEnd?_eq_size_iff (t : Text) :
    fractionEnd? t.utf8 0 = some t.utf8Size ↔ covers fraction? t = true := by
  rw [endsAs_fraction.front, covers]
  cases hread : fraction? t with
  | none => simp
  | some found =>
    obtain ⟨f, rest⟩ := found
    obtain rfl := append_of_fraction? hread
    have hrest : Text.utf8Size f = Text.utf8Size (f ++ rest) ↔ rest = [] := by
      rw [eq_comm, utf8Size_append_eq_iff]
    rw [Option.map_some, Option.some.injEq, hrest]
    cases rest <;> simp

/-- A literal behind a minus sign is recognised, byte by byte, as it is character by character. -/
theorem isNegative?_minus (t : Text) :
    isNegative? ('-' :: t) = some (covers fraction? t || isDotted true t) := by
  have hsize := Text.utf8Size_append (digits t) (afterDigits t)
  rw [digits_append_afterDigits] at hsize
  have hdigits : Text.utf8Size (afterDigits t) = Text.utf8Size t ↔ digits t = [] := by
    rw [hsize, eq_comm, Nat.add_eq_right, Text.utf8Size_eq_zero_iff]
  simp only [isNegative?, fractionEnd?_eq_size_iff, hdigits]
  split
  · next hcovers => simp [hcovers]
  · next hcovers =>
    split
    · next hnil => simp [hcovers, isDotted_of_digits_nil hnil]
    · next hnil =>
      have hlength : (afterDigits t).length ≤ t.length := List.length_dropWhile_le Char.isDigit t
      rw [onlyFractions?_eq hlength (afterDigits_head t), isDotted_afterDigits hnil]
      simp [hcovers]

theorem isNegative?_eq (t : Text) : isNegative? t = some (isNegative t) := by
  by_cases h : t.head? = some '-'
  · obtain ⟨u, rfl⟩ := List.head?_eq_some_iff.1 h
    exact isNegative?_minus u
  · have hbytes : isNegative? t = some false := by
      unfold isNegative?
      split
      · exact absurd rfl h
      · rfl
    have hchars : isNegative t = false := by
      unfold isNegative
      split
      · exact absurd rfl h
      · rfl
    rw [hbytes, hchars]

end Bytes

end Reckoner
