import Reckoner.Proofs.ByteReaders

/-!
# Searching at bytes

A search can try every byte of a text as a beginning, those inside characters too. Where it finds
nothing inside characters, it is a search through the characters. The left operands of operations
are searched for in this way, and no byte is asked for that is not there.
-/

namespace Reckoner

open Literal
open Operator (Level)

namespace Bytes

def digitBefore? (bs : List UInt8) (start : Nat) : Option Bool :=
  if start = 0 then some false else test? Char.isDigit bs (start - 1)

/-- The place behind a minus sign that opens the text and what a reader takes behind it; `none` if
a byte is asked for that is not there. -/
def opening? (read : List UInt8 → Nat → Option Nat) (bs : List UInt8) (start : Nat) :
    Option (Option Nat) := do
  let minus ← if start = 0 then test? (· == '-') bs 0 else some false
  return if minus then read bs 1 else none

def trailing? (read : List UInt8 → Nat → Option Nat) (bs : List UInt8) (start : Nat) :
    Option (Option Nat) := do
  let operator ← test? isOperatorChar bs start
  return if operator then minusEnd? read bs (skipSpaces bs (start + 1)) else none

/-- The places at which a left operand that begins at a byte can end, in the order in which they
are tried; `none` if a byte is asked for that is not there. -/
def leftEnds? (bs : List UInt8) (start : Nat) : Option (List Nat) := do
  let behindDigit ← digitBefore? bs start
  let opening ← opening? decimalEnd? bs start
  let trailing ← trailing? decimalEnd? bs start
  let unsigned := if behindDigit then [] else [decimalEnd? bs start, fractionEnd? bs start]
  return (opening :: trailing :: unsigned).filterMap id

/-! ### Every byte and every character -/

section Scans

variable {β γ : Type} {t : Text}

/-- What is found at the first place of a text at which anything is found; `seen` is the text in
front, last character first. -/
def scanFrom? (place : Text → Text → Option β) : (seen : Text) → Text → Option β
  | _, [] => none
  | seen, c :: t => (place seen (c :: t)).or (scanFrom? place (c :: seen) t)

theorem findSomeM?_of_none {α : Type} {f : α → Option (Option β)} {l : List α}
    (h : ∀ a ∈ l, f a = some none) (l' : List α) :
    (l ++ l').findSomeM? f = l'.findSomeM? f := by
  induction l with
  | nil => rfl
  | cons a l ih =>
    rw [List.cons_append, List.findSomeM?_cons, h a (by simp)]
    exact ih fun b hb => h b (by simp [hb])

/-- The bytes of a text from a character on: its first one, its other ones and those behind it. -/
theorem range'_char (s : Text) (c : Char) (u : Text) :
    List.range' s.utf8Size (Text.utf8Size (c :: u)) =
      s.utf8Size :: (List.range' (s.utf8Size + 1) (c.utf8Size - 1) ++
        List.range' (Text.utf8Size (s ++ [c])) (Text.utf8Size u)) := by
  have hpos := c.utf8Size_pos
  have hsize : Text.utf8Size (c :: u) = c.utf8Size - 1 + Text.utf8Size u + 1 := by
    rw [Text.utf8Size_cons]
    omega
  have hnext : Text.utf8Size (s ++ [c]) = s.utf8Size + 1 + (c.utf8Size - 1) := by
    rw [Text.utf8Size_append, Text.utf8Size_cons, Text.utf8Size_nil]
    omega
  rw [hsize, hnext, List.range'_succ, ← List.range'_append_1]

/-- A search over the bytes of a text that finds nothing inside characters is a search over its
characters. -/
theorem findSomeM?_bytes {f : Nat → Option (Option γ)} {place : Text → Text → Option β} {g : β → γ}
    (hinside : ∀ i < t.utf8Size, t.afterBytes? i = none → f i = some none)
    (hbetween : ∀ (s : Text) (c : Char) (u : Text), t = s ++ c :: u →
      f s.utf8Size = some ((place s.reverse (c :: u)).map g)) :
    (List.range t.utf8.length).findSomeM? f = some ((scanFrom? place [] t).map g) := by
  have hfrom : ∀ u s : Text, t = s ++ u → (List.range' s.utf8Size u.utf8Size).findSomeM? f =
      some ((scanFrom? place s.reverse u).map g) := by
    intro u
    induction u with
    | nil => intro s _; rfl
    | cons c u ih =>
      intro s hs
      have hrest := ih (s ++ [c]) (by simpa using hs)
      have hbytes : ∀ i ∈ List.range' (s.utf8Size + 1) (c.utf8Size - 1), f i = some none := by
        intro i hi
        obtain ⟨hlow, hhigh⟩ := List.mem_range'_1.1 hi
        obtain ⟨k, rfl⟩ := Nat.exists_eq_add_of_le (Nat.le_of_lt hlow)
        refine hinside _ ?_ ?_
        · rw [hs, Text.utf8Size_append, Text.utf8Size_cons]
          omega
        · rw [hs, Text.afterBytes?_append_inside (by omega) (by omega)]
      rw [range'_char, List.findSomeM?_cons, hbetween s c u hs, findSomeM?_of_none hbytes, hrest,
        scanFrom?, List.reverse_append, List.reverse_singleton, List.singleton_append]
      cases place s.reverse (c :: u) <;> rfl
  have := hfrom t [] rfl
  rwa [List.reverse_nil, Text.utf8Size_nil, ← List.range_eq_range', ← length_utf8] at this

end Scans

/-! ### Left operands -/

section LeftOperands

variable {t : Text} {i : Nat} {readBytes : List UInt8 → Nat → Option Nat}
  {read : Text → Option (Text × Text)}

def carriedEnd? (read : List UInt8 → Nat → Option Nat) (bs : List UInt8) (i : Nat) : Option Nat :=
  if testAt isOperatorChar bs i then minusEnd? read bs (skipSpaces bs (i + 1)) else none

def carriedMinus? (read : Text → Option (Text × Text)) : Text → Option (Text × Text)
  | [] => none
  | c :: t =>
    if isOperatorChar c then
      (minus? read (Text.afterSpaces t)).map fun (number, rest) =>
        (c :: (Text.spaces t ++ number), rest)
    else none

/-- Behind an operator, spaces are skipped alike. -/
theorem skipSpaces_behind {c : Char} (hc : c.toNat < 128) (s t : Text) :
    skipSpaces (s ++ c :: t).utf8 (s.utf8Size + 1) =
      Text.utf8Size (s ++ c :: Text.spaces t) := by
  have happ : ∀ u : Text, s ++ c :: u = (s ++ [c]) ++ u := by simp
  rw [happ t, happ (Text.spaces t), ← utf8Size_concat hc, skipSpaces_append]

theorem EndsAs.carried (h : EndsAs readBytes read) :
    EndsAs (carriedEnd? readBytes) (carriedMinus? read) := by
  refine endsAs_of (fun t i hi => ?_) fun s t => ?_
  · rw [carriedEnd?, testAt_of_none hi, if_neg Bool.false_ne_true]
  · rw [carriedEnd?, testAt_append isAscii_isOperatorChar]
    cases t with
    | nil => rfl
    | cons c t =>
      rw [List.head?_cons, Option.any_some, carriedMinus?]
      by_cases hc : isOperatorChar c = true
      · have happ : s ++ c :: t = (s ++ c :: Text.spaces t) ++ Text.afterSpaces t := by simp
        rw [if_pos hc, if_pos hc, skipSpaces_behind (isAscii_isOperatorChar c hc)]
        conv_lhs => rw [happ]
        rw [h.minus.append]
        cases minus? read (Text.afterSpaces t) <;> simp
      · rw [if_neg hc, if_neg hc]
        rfl

theorem endsAs_trailing : EndsAs (carriedEnd? decimalEnd?) Occurrence.trailingOperand? := by
  have htrailing : Occurrence.trailingOperand? = carriedMinus? decimal? := by
    funext t
    cases t <;> rfl
  rw [htrailing]
  exact endsAs_decimal.carried

/-- In front of a boundary stands a digit exactly if the text in front of it ends in one. -/
theorem testAt_isDigit_before {s : Text} (hs : s ≠ []) (t : Text) :
    testAt Char.isDigit (s ++ t).utf8 (s.utf8Size - 1) = s.getLast?.any Char.isDigit := by
  obtain ⟨s, d, rfl⟩ := List.eq_nil_or_concat s |>.resolve_left hs
  rw [List.concat_eq_append, List.append_assoc, List.singleton_append, List.getLast?_concat,
    Option.any_some, Text.utf8Size_append, Text.utf8Size_cons, Text.utf8Size_nil, Nat.add_zero]
  by_cases hd : d.toNat < 128
  · rw [utf8Size_of_ascii hd, Nat.add_sub_cancel, testAt_append isAscii_isDigit]
    rfl
  · have hsize : 1 < d.utf8Size := by
      have hpos := d.utf8Size_pos
      have hne : d.utf8Size ≠ 1 := fun h => hd (Nat.lt_succ_of_le
        (UInt32.le_iff_toNat_le.1 (Char.utf8Size_eq_one_iff.1 h)))
      omega
    rw [Nat.add_sub_assoc d.utf8Size_pos, testAt_of_none, eq_comm, Bool.eq_false_iff]
    · exact fun h => hd (isAscii_isDigit d h)
    · exact Text.afterBytes?_append_inside (by omega) (by omega) s t

theorem opening?_eq {bs : List UInt8} (h : i < bs.length) :
    opening? readBytes bs i = some (if i = 0 then minusEnd? readBytes bs 0 else none) := by
  rw [opening?]
  by_cases h0 : i = 0
  · subst h0
    rw [if_pos rfl, if_pos rfl, test?_eq h]
    rfl
  · rw [if_neg h0, if_neg h0]
    rfl

theorem trailing?_eq {bs : List UInt8} (h : i < bs.length) :
    trailing? readBytes bs i = some (carriedEnd? readBytes bs i) := by
  rw [trailing?, test?_eq h]
  rfl

/-- Only at the beginning of a text stands what opens it. -/
theorem EndsAs.opening (h : EndsAs readBytes read) (s t : Text) :
    (if s.utf8Size = 0 then minusEnd? readBytes (s ++ t).utf8 0 else none) =
      (if s.isEmpty then minus? read t else none).map fun found =>
        Text.utf8Size (s ++ found.1) := by
  cases s with
  | nil => exact h.minus.append [] t
  | cons d s =>
    rw [if_neg (Nat.ne_of_gt (Text.utf8Size_pos (by simp)))]
    rfl

/-- Where there is a byte, no other is asked for in vain. -/
theorem leftEnds?_eq {bs : List UInt8} (h : i < bs.length) : leftEnds? bs i =
    some (((if i = 0 then minusEnd? decimalEnd? bs 0 else none) :: carriedEnd? decimalEnd? bs i ::
      if i ≠ 0 ∧ testAt Char.isDigit bs (i - 1) = true then []
      else [decimalEnd? bs i, fractionEnd? bs i]).filterMap id) := by
  have hdigit : digitBefore? bs i =
      some (decide (i ≠ 0 ∧ testAt Char.isDigit bs (i - 1) = true)) := by
    rw [digitBefore?]
    by_cases h0 : i = 0
    · simp [h0]
    · rw [if_neg h0, test?_eq (by omega)]
      simp [h0]
  rw [leftEnds?, hdigit, opening?_eq h, trailing?_eq h]
  simp

/-- There is a byte where a character begins. -/
theorem utf8Size_lt_length (s : Text) (c : Char) (u : Text) :
    s.utf8Size < (s ++ c :: u).utf8.length := by
  rw [length_utf8, Text.utf8Size_append, Text.utf8Size_cons]
  have := c.utf8Size_pos
  omega

/-- At a boundary the left operands end where they end in the text. -/
theorem leftEnds?_append (s : Text) (c : Char) (u : Text) :
    leftEnds? (s ++ c :: u).utf8 s.utf8Size =
      some ((Occurrence.leftOperands s.reverse (c :: u)).map fun found =>
        Text.utf8Size (s ++ found.1)) := by
  have hopening : Occurrence.openingOperand? s.reverse (c :: u) =
      if s.isEmpty then minus? decimal? (c :: u) else none := by
    rw [Occurrence.openingOperand?, List.isEmpty_reverse]
    rfl
  have hdigit : (s.utf8Size ≠ 0 ∧ testAt Char.isDigit (s ++ c :: u).utf8 (s.utf8Size - 1) = true) ↔
      s.reverse.head?.any Char.isDigit = true := by
    rw [List.head?_reverse]
    cases s with
    | nil => simp
    | cons d s =>
      have hne : Text.utf8Size (d :: s) ≠ 0 := Nat.ne_of_gt (Text.utf8Size_pos (by simp))
      rw [testAt_isDigit_before (by simp), and_iff_right hne]
  have hmap : ∀ l : List (Option (Text × Text)),
      (l.map (Option.map fun found => Text.utf8Size (s ++ found.1))).filterMap id =
        (l.filterMap id).map fun found => Text.utf8Size (s ++ found.1) := by
    intro l
    rw [List.filterMap_map, List.map_filterMap]
    rfl
  rw [leftEnds?_eq (utf8Size_lt_length s c u), endsAs_decimal.opening, endsAs_trailing.append,
    endsAs_decimal.append, endsAs_fraction.append, Occurrence.leftOperands, hopening, ← hmap]
  simp only [hdigit]
  cases s.reverse.head?.any Char.isDigit <;> rfl

/-- Inside a character no left operand begins. -/
theorem leftEnds?_inside (hlt : i < t.utf8Size) (hi : t.afterBytes? i = none) :
    leftEnds? t.utf8 i = some [] := by
  have h0 : i ≠ 0 := by
    rintro rfl
    rw [Text.afterBytes?_zero] at hi
    cases hi
  rw [leftEnds?_eq (by rwa [length_utf8]), if_neg h0, endsAs_trailing.of_none hi,
    endsAs_decimal.of_none hi, endsAs_fraction.of_none hi]
  split <;> rfl

end LeftOperands

end Bytes

end Reckoner
