import Reckoner.Proofs.Boundaries
import Reckoner.Proofs.LongestMatch

/-!
# Reading at bytes

The readers of literals can work on the bytes of a text and from any of its bytes, with nothing
known of where a character begins. All they look for are ASCII characters. Those are single bytes,
and no byte of a longer character is one of them. So a reader that begins inside a character reads
nothing, and one that begins between characters ends behind the literal that stands there.
-/

namespace Reckoner

open Literal

namespace Bytes

/-- The character that a byte is by itself; the bytes of longer characters are none. -/
def ascii? (b : UInt8) : Option Char :=
  if b.toNat < 128 then some (Char.ofNat b.toNat) else none

def charAt? (bs : List UInt8) (i : Nat) : Option Char := bs[i]?.bind ascii?

def testAt (q : Char → Bool) (bs : List UInt8) (i : Nat) : Bool := (charAt? bs i).any q

/-- Whether the byte at a place is a character with a property; `none` if there is no such byte. -/
def test? (q : Char → Bool) (bs : List UInt8) (i : Nat) : Option Bool :=
  bs[i]?.map fun b => (ascii? b).any q

theorem lt_of_testAt {q : Char → Bool} {bs : List UInt8} {i : Nat} (h : testAt q bs i = true) :
    i < bs.length := by
  by_contra hle
  rw [testAt, charAt?, List.getElem?_eq_none (Nat.le_of_not_lt hle)] at h
  cases h

/-- The first place from `i` on where no character with a property stands. -/
def runEnd (q : Char → Bool) (bs : List UInt8) (i : Nat) : Nat :=
  if h : testAt q bs i = true then runEnd q bs (i + 1) else i
termination_by bs.length - i
decreasing_by
  have := lt_of_testAt h
  omega

def skipSpaces (bs : List UInt8) (i : Nat) : Nat := runEnd (· == ' ') bs i

def skipDigits (bs : List UInt8) (i : Nat) : Nat := runEnd Char.isDigit bs i

def fractionEnd? (bs : List UInt8) (i : Nat) : Option Nat :=
  if testAt (· == '.') bs i && testAt Char.isDigit bs (i + 1) then some (skipDigits bs (i + 1))
  else none

def decimalEnd? (bs : List UInt8) (i : Nat) : Option Nat :=
  if skipDigits bs i = i then none
  else some ((fractionEnd? bs (skipDigits bs i)).getD (skipDigits bs i))

def unsignedEnd? (bs : List UInt8) (i : Nat) : Option Nat :=
  (decimalEnd? bs i).or (fractionEnd? bs i)

def minusEnd? (read : List UInt8 → Nat → Option Nat) (bs : List UInt8) (i : Nat) : Option Nat :=
  if testAt (· == '-') bs i then read bs (i + 1) else none

def signedEnd? (bs : List UInt8) (i : Nat) : Option Nat :=
  (minusEnd? decimalEnd? bs i).or (unsignedEnd? bs i)

/-! ### Tests -/

section Bounds

variable {p q : Char → Bool} {bs : List UInt8} {i : Nat}

theorem test?_isSome_iff : (test? q bs i).isSome = true ↔ i < bs.length := by
  simp [test?]

theorem test?_eq (h : i < bs.length) : test? q bs i = some (testAt q bs i) := by
  rw [test?, testAt, charAt?, List.getElem?_eq_getElem h]
  rfl

/-- A byte that is asked for behind a look at the length is there. -/
theorem test?_guarded : (if i < bs.length then test? q bs i else some false) =
    some (testAt q bs i) := by
  split
  · next h => exact test?_eq h
  · next h => rw [Bool.eq_false_iff.2 fun htest => h (lt_of_testAt htest)]

/-- Two bytes are there if the second one is. -/
theorem test?_guarded_pair :
    (if i + 1 < bs.length then do return (← test? p bs i) && (← test? q bs (i + 1))
      else some false) = some (testAt p bs i && testAt q bs (i + 1)) := by
  split
  · next h =>
    rw [test?_eq h, test?_eq (Nat.lt_of_succ_lt h)]
    rfl
  · next h => rw [Bool.eq_false_iff.2 fun htest => h (lt_of_testAt htest), Bool.and_false]

end Bounds

/-! ### Bytes and characters -/

def IsAscii (q : Char → Bool) : Prop := ∀ c, q c = true → c.toNat < 128

theorem isAscii_isDigit : IsAscii Char.isDigit := by
  intro c hc
  simp only [Char.isDigit, Bool.and_eq_true, decide_eq_true_eq, ge_iff_le] at hc
  exact Nat.lt_of_le_of_lt (UInt32.le_iff_toNat_le.1 hc.2) (by decide)

theorem isAscii_beq {c : Char} (h : c.toNat < 128) : IsAscii (· == c) := by
  intro d hd
  rwa [eq_of_beq hd]

theorem isAscii_isOperatorChar : IsAscii isOperatorChar := by
  intro c hc
  obtain ⟨op, rfl⟩ := exists_symbol hc
  cases op <;> decide

theorem utf8Size_of_ascii {c : Char} (h : c.toNat < 128) : c.utf8Size = 1 :=
  Char.utf8Size_eq_one_iff.2 (UInt32.le_iff_toNat_le.2 (Nat.le_of_lt_succ h))

/-- An ASCII character ends at the next byte. -/
theorem utf8Size_concat {c : Char} (h : c.toNat < 128) (s : Text) :
    Text.utf8Size (s ++ [c]) = s.utf8Size + 1 := by
  rw [Text.utf8Size_append, Text.utf8Size_cons, utf8Size_of_ascii h]
  rfl

/-- An ASCII character is one byte, and the byte is the character. -/
theorem utf8EncodeChar_of_ascii {c : Char} (h : c.toNat < 128) :
    ∃ b, String.utf8EncodeChar c = [b] ∧ ascii? b = some c := by
  have hb : c.val.toUInt8.toNat = c.toNat := by
    rw [UInt32.toNat_toUInt8]
    exact Nat.mod_eq_of_lt (Nat.lt_trans h (by decide))
  refine ⟨_, String.utf8EncodeChar_eq_singleton (utf8Size_of_ascii h), ?_⟩
  rw [ascii?, hb, if_pos h, Char.ofNat_toNat]

/-- No byte of another character is a character by itself. -/
theorem ascii?_of_mem {c : Char} (h : ¬ c.toNat < 128) {b : UInt8}
    (hb : b ∈ String.utf8EncodeChar c) : ascii? b = none := by
  rw [ascii?, if_neg]
  intro hlt
  exact h (Text.toNat_of_mem_utf8EncodeChar hb hlt ▸ hlt)

@[simp] theorem length_utf8 (t : Text) : t.utf8.length = t.utf8Size := by
  induction t with
  | nil => rfl
  | cons c t ih =>
    rw [Text.utf8_cons, List.length_append, String.length_utf8EncodeChar, ih, Text.utf8Size_cons]

/-- At a byte an ASCII character stands exactly if a text that begins there begins with it. -/
theorem charAt?_utf8 (t : Text) (i : Nat) : charAt? t.utf8 i =
    (t.afterBytes? i).bind fun u => u.head?.filter fun c => c.toNat < 128 := by
  induction t generalizing i with
  | nil => cases i <;> rfl
  | cons c t ih =>
    by_cases hc : c.toNat < 128
    · obtain ⟨b, hb, hascii⟩ := utf8EncodeChar_of_ascii hc
      rw [charAt?, Text.utf8_cons, hb]
      cases i with
      | zero => simp [hascii, Option.filter, hc]
      | succ i =>
        rw [Text.afterBytes?_cons (by rw [utf8Size_of_ascii hc]; omega), utf8Size_of_ascii hc,
          Nat.add_sub_cancel, ← ih i]
        rfl
    · have hlength := String.length_utf8EncodeChar c
      by_cases hi : i < c.utf8Size
      · -- The byte belongs to `c`, and at its first one no other character begins.
        have hget : (String.utf8EncodeChar c ++ Text.utf8 t)[i]?.bind ascii? = none := by
          rw [List.getElem?_append_left (by omega), List.getElem?_eq_getElem (by omega),
            Option.bind_some]
          exact ascii?_of_mem hc (List.getElem_mem _)
        rw [charAt?, Text.utf8_cons, hget]
        rcases Nat.eq_zero_or_pos i with rfl | h0
        · simp [Option.filter, hc]
        · rw [Text.afterBytes?_inside h0 hi, Option.bind_none]
      · rw [Text.afterBytes?_cons (by omega), ← ih, charAt?, Text.utf8_cons,
          List.getElem?_append_right (by omega), hlength, charAt?]

section Tests

variable {q : Char → Bool} {s t u : Text} {i : Nat}

theorem testAt_append (hq : IsAscii q) (s t : Text) :
    testAt q (s ++ t).utf8 s.utf8Size = t.head?.any q := by
  rw [testAt, charAt?_utf8, Text.afterBytes?_append, Option.bind_some]
  cases t with
  | nil => rfl
  | cons c t =>
    by_cases hc : c.toNat < 128
    · simp [hc]
    · have hnot : q c = false := Bool.eq_false_iff.2 fun h => hc (hq c h)
      simp [hc, hnot]

theorem testAt_beq_append {c : Char} (hc : c.toNat < 128) (s t : Text) :
    testAt (· == c) (s ++ t).utf8 s.utf8Size = decide (t.head? = some c) := by
  rw [testAt_append (isAscii_beq hc)]
  cases t <;> simp [Bool.beq_eq_decide_eq]

/-- Inside a character and behind the end there is nothing to be found. -/
theorem testAt_of_none (h : t.afterBytes? i = none) : testAt q t.utf8 i = false := by
  rw [testAt, charAt?_utf8, h]
  rfl

theorem runEnd_of_false {bs : List UInt8} (h : testAt q bs i = false) : runEnd q bs i = i := by
  rw [runEnd, dif_neg (by simp [h])]

/-- A run of characters with a property ends where it ends in the text. -/
theorem runEnd_append (hq : IsAscii q) (s t : Text) :
    runEnd q (s ++ t).utf8 s.utf8Size = s.utf8Size + Text.utf8Size (t.takeWhile q) := by
  induction t generalizing s with
  | nil => exact runEnd_of_false (testAt_append hq s [])
  | cons c t ih =>
    have htest := testAt_append hq s (c :: t)
    rw [List.head?_cons, Option.any_some] at htest
    by_cases hc : q c = true
    · have hnext := ih (s ++ [c])
      rw [List.append_assoc, List.singleton_append, utf8Size_concat (hq c hc)] at hnext
      rw [runEnd, dif_pos (htest.trans hc), hnext, List.takeWhile_cons, if_pos hc,
        Text.utf8Size_cons, utf8Size_of_ascii (hq c hc)]
      omega
    · rw [runEnd_of_false (htest.trans (Bool.eq_false_iff.2 hc)), List.takeWhile_cons, if_neg hc]
      rfl

theorem skipSpaces_append (s t : Text) : skipSpaces (s ++ t).utf8 s.utf8Size =
    Text.utf8Size (s ++ Text.spaces t) := by
  rw [skipSpaces, runEnd_append (isAscii_beq (by decide)), Text.utf8Size_append]
  rfl

theorem skipDigits_append (s t : Text) : skipDigits (s ++ t).utf8 s.utf8Size =
    Text.utf8Size (s ++ digits t) := by
  rw [skipDigits, runEnd_append isAscii_isDigit, Text.utf8Size_append]
  rfl

end Tests

/-! ### Readers -/

section Readers

variable {t : Text} {i : Nat}

/-- A reader of bytes ends where a reader of texts ends, from whatever byte. -/
def EndsAs (readBytes : List UInt8 → Nat → Option Nat) (read : Text → Option (Text × Text)) :
    Prop :=
  ∀ t i, readBytes t.utf8 i = endAt? read t i

variable {readBytes : List UInt8 → Nat → Option Nat} {read : Text → Option (Text × Text)}

theorem EndsAs.append (h : EndsAs readBytes read) (s t : Text) :
    readBytes (s ++ t).utf8 s.utf8Size =
      (read t).map fun found => Text.utf8Size (s ++ found.1) := by
  rw [h, endAt?_append]
  simp only [Text.utf8Size_append]

theorem EndsAs.front (h : EndsAs readBytes read) (t : Text) :
    readBytes t.utf8 0 = (read t).map fun found => Text.utf8Size found.1 :=
  h.append [] t

theorem EndsAs.of_none (h : EndsAs readBytes read) (hi : t.afterBytes? i = none) :
    readBytes t.utf8 i = none := by
  rw [h, endAt?, hi]
  rfl

/-- It is enough that a reader of bytes reads nothing inside characters and what is to be read
between them. -/
theorem endsAs_of (hinside : ∀ t i, Text.afterBytes? t i = none → readBytes t.utf8 i = none)
    (hbetween : ∀ s t : Text, readBytes (s ++ t).utf8 s.utf8Size =
      (read t).map fun found => Text.utf8Size (s ++ found.1)) : EndsAs readBytes read := by
  intro t i
  cases hu : t.afterBytes? i with
  | none =>
    rw [hinside t i hu, endAt?, hu]
    rfl
  | some u =>
    obtain ⟨s, rfl, rfl⟩ := Text.afterBytes?_eq_some_iff.1 hu
    rw [hbetween, endAt?_append]
    simp only [Text.utf8Size_append]

theorem any_isDigit_head (t : Text) : t.head?.any Char.isDigit = !(digits t).isEmpty := by
  cases t with
  | nil => rfl
  | cons c t => cases hc : c.isDigit <;> simp [digits, hc]

theorem endsAs_fraction : EndsAs fractionEnd? fraction? := by
  refine endsAs_of (fun t i hi => ?_) fun s t => ?_
  · rw [fractionEnd?, testAt_of_none hi, Bool.false_and, if_neg Bool.false_ne_true]
  · rw [fractionEnd?, testAt_beq_append (by decide)]
    by_cases ht : t.head? = some '.'
    · obtain ⟨u, rfl⟩ := List.head?_eq_some_iff.1 ht
      have happ : s ++ '.' :: u = (s ++ ['.']) ++ u := by simp
      rw [happ, ← utf8Size_concat (c := '.') (by decide), testAt_append isAscii_isDigit,
        skipDigits_append, any_isDigit_head]
      by_cases hd : (digits u).isEmpty = true
      · simp [fraction?, hd]
      · simp [fraction?, hd]
    · rw [decide_eq_false ht, Bool.false_and, if_neg Bool.false_ne_true,
        fraction?_of_not_point ht]
      rfl

theorem endsAs_decimal : EndsAs decimalEnd? decimal? := by
  refine endsAs_of (fun t i hi => ?_) fun s t => ?_
  · rw [decimalEnd?, skipDigits, runEnd_of_false (testAt_of_none hi), if_pos rfl]
  · have hsplit : s ++ t = (s ++ digits t) ++ afterDigits t := by simp
    have hread := endsAs_fraction.append (s ++ digits t) (afterDigits t)
    rw [← hsplit] at hread
    rw [decimalEnd?, skipDigits_append, hread, decimal?]
    by_cases hd : (digits t).isEmpty = true
    · rw [if_pos hd, List.isEmpty_iff.1 hd, List.append_nil, if_pos rfl]
      rfl
    · have hne : Text.utf8Size (s ++ digits t) ≠ s.utf8Size := by
        rw [Text.utf8Size_append]
        have := Text.utf8Size_pos (t := digits t) (by simpa using hd)
        omega
      rw [if_neg hd, if_neg hne]
      cases fraction? (afterDigits t) with
      | none => rfl
      | some found => simp

theorem EndsAs.or {readBytes' : List UInt8 → Nat → Option Nat}
    {read' : Text → Option (Text × Text)} (h : EndsAs readBytes read)
    (h' : EndsAs readBytes' read') :
    EndsAs (fun bs i => (readBytes bs i).or (readBytes' bs i)) fun t => (read t).or (read' t) := by
  intro t i
  dsimp only
  rw [h, h', endAt?, endAt?, endAt?, ← Option.map_or]
  cases t.afterBytes? i <;> rfl

theorem endsAs_unsigned : EndsAs unsignedEnd? unsigned? := endsAs_decimal.or endsAs_fraction

def minus? (read : Text → Option (Text × Text)) : Text → Option (Text × Text)
  | '-' :: t => (read t).map fun (number, rest) => ('-' :: number, rest)
  | _ => none

theorem minus?_of_not_minus (h : t.head? ≠ some '-') : minus? read t = none := by
  unfold minus?
  split
  · simp at h
  · rfl

theorem EndsAs.minus (h : EndsAs readBytes read) : EndsAs (minusEnd? readBytes) (minus? read) := by
  refine endsAs_of (fun t i hi => ?_) fun s t => ?_
  · rw [minusEnd?, testAt_of_none hi, if_neg Bool.false_ne_true]
  · rw [minusEnd?, testAt_beq_append (by decide)]
    by_cases ht : t.head? = some '-'
    · obtain ⟨u, rfl⟩ := List.head?_eq_some_iff.1 ht
      have happ : s ++ '-' :: u = (s ++ ['-']) ++ u := by simp
      rw [if_pos (by simp), happ, ← utf8Size_concat (c := '-') (by decide), h.append, minus?]
      cases read u <;> simp
    · rw [minus?_of_not_minus ht, if_neg (by simpa using ht)]
      rfl

theorem endsAs_negative : EndsAs (minusEnd? decimalEnd?) negative? := endsAs_decimal.minus

theorem endsAs_signed : EndsAs signedEnd? signed? := endsAs_negative.or endsAs_unsigned

end Readers

end Bytes

end Reckoner
