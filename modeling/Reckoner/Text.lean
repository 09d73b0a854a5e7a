/-!
# Text

Everything the calculator reads or writes is a list of characters. Blank characters are those with
the Unicode White_Space property; trimming removes them at the ends of a text and nowhere else.
-/

namespace Reckoner

abbrev Text := List Char

namespace Text

/-- The code points with the White_Space property, as closed ranges. -/
def blankRanges : List (Nat × Nat) :=
  [(0x0009, 0x000D), (0x0020, 0x0020), (0x0085, 0x0085), (0x00A0, 0x00A0), (0x1680, 0x1680),
   (0x2000, 0x200A), (0x2028, 0x2029), (0x202F, 0x202F), (0x205F, 0x205F), (0x3000, 0x3000)]

def isBlank (c : Char) : Bool :=
  blankRanges.any fun range => range.1 ≤ c.toNat && c.toNat ≤ range.2

/-- The table extends the ASCII blanks. -/
theorem isBlank_of_isWhitespace {c : Char} (h : c.isWhitespace = true) : isBlank c = true := by
  simp only [Char.isWhitespace, Bool.or_eq_true, decide_eq_true_eq] at h
  rcases h with ((h | h) | h) | h <;> subst h <;> decide

def trimStart (t : Text) : Text := t.dropWhile isBlank

def trimEnd (t : Text) : Text := (t.reverse.dropWhile isBlank).reverse

def trim (t : Text) : Text := trimEnd (trimStart t)

@[simp] theorem trimStart_nil : trimStart [] = [] := rfl
@[simp] theorem trimEnd_nil : trimEnd [] = [] := rfl
@[simp] theorem trim_nil : trim [] = [] := rfl

/-- The run of spaces in front; no other blank belongs to it. -/
def spaces (t : Text) : Text := t.takeWhile (· == ' ')

def afterSpaces (t : Text) : Text := t.dropWhile (· == ' ')

@[simp] theorem spaces_append_afterSpaces (t : Text) : spaces t ++ afterSpaces t = t :=
  List.takeWhile_append_dropWhile

/-- The text with its ASCII capitals made small. -/
def lower (t : Text) : Text := t.map Char.toLower

def utf8Size : Text → Nat
  | [] => 0
  | c :: t => c.utf8Size + utf8Size t

@[simp] theorem utf8Size_nil : utf8Size [] = 0 := rfl
@[simp] theorem utf8Size_cons (c : Char) (t : Text) :
    utf8Size (c :: t) = c.utf8Size + utf8Size t := rfl
@[simp] theorem utf8Size_append (s t : Text) : utf8Size (s ++ t) = utf8Size s + utf8Size t := by
  induction s with
  | nil => simp
  | cons c s ih => simp [ih, Nat.add_assoc]

/-- What follows the first `n` bytes of a text; `none` where the cut falls inside a character or
beyond the end. -/
def afterBytes? : Text → Nat → Option Text
  | t, 0 => some t
  | [], _ + 1 => none
  | c :: t, n + 1 => if c.utf8Size ≤ n + 1 then afterBytes? t (n + 1 - c.utf8Size) else none

@[simp] theorem afterBytes?_zero (t : Text) : afterBytes? t 0 = some t := by
  cases t <;> rfl

/-- Behind the bytes of a beginning stands what follows it. -/
@[simp] theorem afterBytes?_append (s t : Text) : afterBytes? (s ++ t) (utf8Size s) = some t := by
  induction s with
  | nil => simp
  | cons c s ih =>
    obtain ⟨n, hn⟩ := Nat.exists_eq_add_one.2 (Nat.add_pos_left c.utf8Size_pos (utf8Size s))
    have hle : c.utf8Size ≤ n + 1 := by omega
    have hsub : n + 1 - c.utf8Size = utf8Size s := by omega
    rw [utf8Size_cons, hn, List.cons_append, afterBytes?, if_pos hle, hsub, ih]

def spacesEnd (t : Text) (start : Nat) : Nat :=
  match afterBytes? t start with
  | some rest => start + utf8Size (spaces rest)
  | none => start

end Text

end Reckoner
