import Mathlib
import Reckoner.CommandLine

/-!
# The lines of an input

Input is cut into lines byte by byte and each line is decoded by itself. In UTF-8 no character but
the line feed has its byte in it, and no other but the carriage return has that of the carriage
return. So the lines of the bytes of a text are the lines of the text.
-/

namespace Reckoner

namespace Text

def utf8 (t : Text) : List UInt8 := t.flatMap String.utf8EncodeChar

def withoutReturn (line : Text) : Text := if line.getLast? = some '\r' then line.dropLast else line

/-- The lines of a text. Each ends in a line feed, with or without a carriage return in front of it,
but for the last one, which is a line if there is anything behind the last line feed. -/
def lines (t : Text) : List Text :=
  (t.splitOn '\n').dropLast.map withoutReturn ++ (t.splitOn '\n').getLast?.toList.filter (· ≠ [])

@[simp] theorem utf8_nil : utf8 [] = [] := rfl

@[simp] theorem utf8_cons (c : Char) (t : Text) :
    utf8 (c :: t) = String.utf8EncodeChar c ++ utf8 t := rfl

@[simp] theorem utf8_append (s t : Text) : utf8 (s ++ t) = utf8 s ++ utf8 t :=
  List.flatMap_append

/-- A byte below 128 belongs to the character with its code and to no other. -/
theorem toNat_of_mem_utf8EncodeChar {c : Char} {b : UInt8} (h : b ∈ String.utf8EncodeChar c)
    (hb : b.toNat < 128) : c.toNat = b.toNat := by
  have hc : c.toNat = c.val.toNat := rfl
  simp only [String.utf8EncodeChar] at h
  rw [hc]
  generalize c.val.toNat = n at h ⊢
  by_cases h1 : n ≤ 127
  · rw [if_pos h1, List.mem_singleton] at h
    subst h
    simp only [UInt8.toNat_ofNat']
    omega
  -- All bytes of a longer code are 128 or more.
  have hhigh : ∀ k, 128 ≤ k → k < 256 → b ≠ UInt8.ofNat k := by
    rintro k hk hlt rfl
    simp only [UInt8.toNat_ofNat'] at hb
    omega
  rw [if_neg h1] at h
  by_cases h2 : n ≤ 2047
  · simp only [if_pos h2, List.mem_cons, List.not_mem_nil, or_false] at h
    rcases h with h | h <;> exact absurd h (hhigh _ (by omega) (by omega))
  rw [if_neg h2] at h
  by_cases h3 : n ≤ 65535
  · simp only [if_pos h3, List.mem_cons, List.not_mem_nil, or_false] at h
    rcases h with h | h | h <;> exact absurd h (hhigh _ (by omega) (by omega))
  · simp only [if_neg h3, List.mem_cons, List.not_mem_nil, or_false] at h
    rcases h with h | h | h | h <;> exact absurd h (hhigh _ (by omega) (by omega))

/-- Only the line feed has the byte of a line feed in it. -/
theorem lineFeed_not_mem {c : Char} (h : c ≠ '\n') : 10 ∉ String.utf8EncodeChar c := by
  intro hmem
  exact h (Char.toNat_inj.1 (toNat_of_mem_utf8EncodeChar hmem (by decide)))

theorem lines_of_not_mem {w : Text} (h : '\n' ∉ w) : lines w = if w = [] then [] else [w] := by
  rw [lines, List.splitOn_eq_singleton h]
  by_cases hw : w = [] <;> simp [hw]

theorem lines_append_cons {w : Text} (h : '\n' ∉ w) (t : Text) :
    lines (w ++ '\n' :: t) = withoutReturn w :: lines t := by
  have hne := List.splitOn_ne_nil '\n' t
  rw [lines, List.splitOn_append_cons_self, List.splitOn_eq_singleton h, List.singleton_append,
    List.dropLast_cons_of_ne_nil hne, List.getLast?_cons_of_ne_nil hne]
  rfl

theorem utf8_eq_nil_iff {t : Text} : utf8 t = [] ↔ t = [] := by
  cases t with
  | nil => simp
  | cons c t => simp

end Text

namespace CommandLine

open Text (utf8)

theorem decode?_utf8 (t : Text) : decode? (utf8 t) = some t := by
  have hbytes : (⟨(utf8 t).toArray⟩ : ByteArray) = t.utf8Encode := by
    apply ByteArray.ext
    simp [List.utf8Encode, utf8]
  have hvalid : t.utf8Encode.IsValidUTF8 := ⟨t, rfl⟩
  rw [decode?, hbytes, String.fromUTF8?, dif_pos hvalid]
  exact congrArg some (String.toList_ofList (l := t))

/-- At a line feed the line in front of it is complete. -/
theorem ended_utf8 (w : Text) : ended (utf8 w).reverse = utf8 (Text.withoutReturn w) := by
  rcases List.eq_nil_or_concat' w with rfl | ⟨u, c, rfl⟩
  · rfl
  by_cases hc : c = '\r'
  · subst hc
    have hbyte : String.utf8EncodeChar '\r' = [13] := by decide
    simp [Text.withoutReturn, hbyte, ended]
  · obtain ⟨front, b, hsplit⟩ :=
      (List.eq_nil_or_concat' _).resolve_left (String.utf8EncodeChar_ne_nil (c := c))
    have hb : b ≠ 13 := by
      rintro rfl
      have hmem : (13 : UInt8) ∈ String.utf8EncodeChar c := by simp [hsplit]
      exact hc (Char.toNat_inj.1 (Text.toNat_of_mem_utf8EncodeChar hmem (by decide)))
    have hreturn : Text.withoutReturn (u ++ [c]) = u ++ [c] := by
      simp [Text.withoutReturn, hc]
    have hreverse : (utf8 (u ++ [c])).reverse = b :: (utf8 u ++ front).reverse := by
      simp [hsplit]
    rw [hreturn, hreverse]
    unfold ended
    split
    · next he => exact absurd (List.cons.inj he).1 hb
    · rw [← hreverse, List.reverse_reverse]

theorem linesFrom_append {bytes : List UInt8} (h : 10 ∉ bytes) (line rest : List UInt8) :
    linesFrom line (bytes ++ rest) = linesFrom (bytes.reverse ++ line) rest := by
  induction bytes generalizing line with
  | nil => rfl
  | cons b bytes ih =>
    simp only [List.mem_cons, not_or] at h
    rw [List.cons_append, linesFrom, if_neg (Ne.symm h.1), ih h.2]
    simp

/-- Cutting the bytes of a text into lines, with an unfinished line in hand, is cutting the text. -/
theorem linesFrom_utf8 {w : Text} (hw : '\n' ∉ w) (t : Text) :
    linesFrom (utf8 w).reverse (utf8 t) = (Text.lines (w ++ t)).map utf8 := by
  induction t generalizing w with
  | nil =>
    rw [List.append_nil, Text.lines_of_not_mem hw]
    by_cases hnil : w = [] <;> simp [linesFrom, hnil, Text.utf8_eq_nil_iff]
  | cons c t ih =>
    by_cases hc : c = '\n'
    · subst hc
      have hbyte : String.utf8EncodeChar '\n' = [10] := by decide
      have hrest := ih List.not_mem_nil
      rw [Text.utf8_nil, List.reverse_nil, List.nil_append] at hrest
      rw [Text.lines_append_cons hw, Text.utf8_cons, hbyte, List.singleton_append, linesFrom,
        if_pos rfl, ended_utf8, hrest, List.map_cons]
    · have hmem : '\n' ∉ w ++ [c] := by simpa [hw] using Ne.symm hc
      have hrest := ih hmem
      rw [Text.utf8_append, List.reverse_append, List.append_assoc, List.singleton_append] at hrest
      rw [Text.utf8_cons, linesFrom_append (Text.lineFeed_not_mem hc), ← hrest]
      simp

/-- The lines of an input in UTF-8 are those of its text, and each of them can be read. -/
theorem lines_utf8 (t : Text) : lines (utf8 t) = (Text.lines t).map some := by
  have h := linesFrom_utf8 List.not_mem_nil t
  rw [Text.utf8_nil, List.reverse_nil, List.nil_append] at h
  rw [lines, h, List.map_map]
  exact List.map_congr_left fun line _ => decode?_utf8 line

example : (lines (Text.utf8 "1\r\n\r2".toList)).map (·.map String.ofList) =
    [some "1", some "\r2"] := by
  rw [lines_utf8]
  decide

end CommandLine

end Reckoner
