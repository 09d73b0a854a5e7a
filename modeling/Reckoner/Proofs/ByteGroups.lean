import Reckoner.Proofs.ByteRounds
import Reckoner.Proofs.Groups

/-!
# Groups at bytes

A group can be found by the last opening parenthesis of a text and the first closing one behind it.
The text between their bytes is cut out, and its value is put in the place of the bytes from the one
to the other. The parentheses are single bytes, so no cut fails, and the groups are those that
closing the text from its end comes upon, in the same order.
-/

namespace Reckoner

open Literal
open Reckoner.Group

namespace Bytes

/-! ### Definitions -/

def firstOffset? (c : Char) : Text → Option Nat
  | [] => none
  | d :: t => if d = c then some 0 else (firstOffset? c t).map (d.utf8Size + ·)

def lastOffset? (c : Char) : Text → Option Nat
  | [] => none
  | d :: t => ((lastOffset? c t).map (d.utf8Size + ·)).or (if d = c then some 0 else none)

/-- Replaces the groups of a text by their values, the one that opens last first; `none` if a cut
fails or there are more than `fuel` of them. -/
def closeGroups? : (fuel : Nat) → Text → Option (Except Fault Text)
  | 0, _ => none
  | fuel + 1, t =>
    match lastOffset? '(' t with
    | none => some (if t.contains ')' then .error .parentheses else .ok t)
    | some opening => do
      let tail ← t.cut? opening t.utf8Size
      match firstOffset? ')' tail with
      | none => return .error .parentheses
      | some offset =>
        let closing := opening + offset
        let inner ← t.cut? (opening + 1) closing
        match ← evaluateFlat? inner with
        | .error fault => return .error fault
        | .ok value => do
          let rest ← t.splice? opening (closing + 1) value
          closeGroups? fuel rest

def resolveGroups? (t : Text) : Option (Except Fault Text) := closeGroups? (t.length + 1) t

/-! ### Offsets -/

section Offsets

variable {c : Char} {t : Text} {i : Nat}

theorem firstOffset?_eq_none_iff : firstOffset? c t = none ↔ c ∉ t := by
  induction t with
  | nil => simp [firstOffset?]
  | cons d t ih =>
    rw [firstOffset?]
    by_cases hd : d = c
    · simp [hd]
    · simp [hd, ih, Ne.symm hd]

theorem lastOffset?_eq_none_iff : lastOffset? c t = none ↔ c ∉ t := by
  induction t with
  | nil => simp [lastOffset?]
  | cons d t ih =>
    by_cases hd : d = c
    · simp [lastOffset?, hd]
    · simp [lastOffset?, hd, ih, Ne.symm hd]

theorem exists_of_firstOffset? (h : firstOffset? c t = some i) :
    ∃ s u, t = s ++ c :: u ∧ c ∉ s ∧ i = Text.utf8Size s := by
  induction t generalizing i with
  | nil => cases h
  | cons d t ih =>
    rw [firstOffset?] at h
    by_cases hd : d = c
    · rw [if_pos hd] at h
      exact ⟨[], t, by rw [hd]; rfl, by simp, (Option.some.inj h).symm⟩
    · rw [if_neg hd] at h
      obtain ⟨j, hj, rfl⟩ := Option.map_eq_some_iff.1 h
      obtain ⟨s, u, rfl, hs, rfl⟩ := ih hj
      exact ⟨d :: s, u, rfl, by simpa [Ne.symm hd] using hs, rfl⟩

theorem exists_of_lastOffset? (h : lastOffset? c t = some i) :
    ∃ s u, t = s ++ c :: u ∧ c ∉ u ∧ i = Text.utf8Size s := by
  induction t generalizing i with
  | nil => cases h
  | cons d t ih =>
    rw [lastOffset?] at h
    cases hlast : lastOffset? c t with
    | some j =>
      obtain ⟨s, u, rfl, hu, rfl⟩ := ih hlast
      rw [hlast] at h
      exact ⟨d :: s, u, rfl, hu, (Option.some.inj h).symm⟩
    | none =>
      rw [hlast, Option.map_none, Option.none_or] at h
      obtain ⟨hd, hi⟩ := Option.ite_none_right_eq_some.1 h
      exact ⟨[], t, by rw [hd]; rfl, lastOffset?_eq_none_iff.1 hlast, (Option.some.inj hi).symm⟩

end Offsets

/-! ### Groups -/

/-- The parts of a text around its last group, with the bytes at which its parentheses stand. -/
structure LastGroup (t : Text) (opening offset : Nat) (front inner back : Text) : Prop where
  text : t = front ++ '(' :: (inner ++ ')' :: back)
  not_opening : '(' ∉ inner ++ ')' :: back
  not_closing : ')' ∉ inner
  opening : opening = front.utf8Size
  offset : offset = inner.utf8Size + 1

/-- The text from the last opening parenthesis on can be cut off. -/
theorem cut?_lastOffset? {t : Text} {opening : Nat} (h : lastOffset? '(' t = some opening) :
    ∃ front tail, t = front ++ '(' :: tail ∧ '(' ∉ tail ∧ opening = Text.utf8Size front ∧
      t.cut? opening t.utf8Size = some ('(' :: tail) := by
  obtain ⟨front, tail, rfl, htail, rfl⟩ := exists_of_lastOffset? h
  exact ⟨front, tail, rfl, htail, rfl, Text.cut?_end front ('(' :: tail)⟩

theorem exists_lastGroup {t tail : Text} {opening offset : Nat}
    (hopening : lastOffset? '(' t = some opening) (htail : t.cut? opening t.utf8Size = some tail)
    (hoffset : firstOffset? ')' tail = some offset) :
    ∃ front inner back, LastGroup t opening offset front inner back := by
  obtain ⟨front, behind, rfl, hbehind, rfl, hcut⟩ := cut?_lastOffset? hopening
  obtain rfl := Option.some.inj (hcut.symm.trans htail)
  obtain ⟨s, back, hs, hclosing, rfl⟩ := exists_of_firstOffset? hoffset
  cases s with
  | nil => cases hs
  | cons d inner =>
    obtain ⟨rfl, rfl⟩ := List.cons.inj hs
    exact ⟨front, inner, back, rfl, hbehind, fun hm => hclosing (List.mem_cons_of_mem _ hm), rfl,
      Nat.add_comm _ _⟩

section Parts

variable {t front inner back : Text} {opening offset : Nat}

/-- The bytes of the parentheses and those behind them are in order, and the text can be cut at
each. -/
theorem LastGroup.cuts (h : LastGroup t opening offset front inner back) :
    t.Cuts [opening, opening + 1, opening + offset, opening + offset + 1] := by
  obtain ⟨rfl, -, -, rfl, rfl⟩ := h
  have hcuts := Text.cuts_append front ['('] inner [')'] back
  simpa [Nat.add_assoc, Nat.add_comm, Nat.add_left_comm, utf8Size_of_ascii] using hcuts

theorem LastGroup.cut?_inner (h : LastGroup t opening offset front inner back) :
    t.cut? (opening + 1) (opening + offset) = some inner := by
  obtain ⟨rfl, -, -, rfl, rfl⟩ := h
  have hcut := Text.cut?_append (front ++ ['(']) inner (')' :: back)
  simpa [Nat.add_assoc, Nat.add_comm, Nat.add_left_comm, utf8Size_of_ascii] using hcut

theorem LastGroup.splice?_value (h : LastGroup t opening offset front inner back) (value : Text) :
    t.splice? opening (opening + offset + 1) value = some (front ++ (value ++ back)) := by
  obtain ⟨rfl, -, -, rfl, rfl⟩ := h
  have hsplice := Text.splice?_append front ('(' :: (inner ++ [')'])) back value
  simpa [Nat.add_assoc, Nat.add_comm, Nat.add_left_comm, utf8Size_of_ascii] using hsplice

/-- The last group is closed first. -/
theorem LastGroup.closeAll_eq (h : LastGroup t opening offset front inner back) :
    closeAll t = (evaluateFlat inner).bind fun value => closeAll (front ++ (value ++ back)) := by
  rw [h.text, closeAll_append, closeAll_cons, closeAll_of_not_mem h.not_opening]
  simp only [Except.bind, extend_opening h.not_closing]
  cases hvalue : evaluateFlat inner with
  | error fault => rfl
  | ok value =>
    have hback : '(' ∉ value ++ back := by
      have hbehind := h.not_opening
      have hnot := not_mem_value hvalue (c := '(') (by decide) (by decide)
      simp only [List.mem_append, List.mem_cons, not_or] at hbehind ⊢
      exact ⟨hnot, hbehind.2.2⟩
    simp only [Except.map]
    rw [closeAll_append, closeAll_of_not_mem hback]
    rfl

theorem LastGroup.count_lt (h : LastGroup t opening offset front inner back) {value : Text}
    (hvalue : evaluateFlat inner = .ok value) :
    (front ++ (value ++ back)).count '(' < t.count '(' := by
  have hnot := not_mem_value hvalue (c := '(') (by decide) (by decide)
  rw [h.text]
  simp [List.count_eq_zero.2 hnot]

end Parts

/-- Group by group, the groups are replaced as closing the text from its end replaces them. -/
theorem closeGroups?_eq {fuel : Nat} {t : Text} (h : t.count '(' < fuel) :
    closeGroups? fuel t = some (resolveGroups t) := by
  induction fuel generalizing t with
  | zero => exact absurd h (Nat.not_lt_zero _)
  | succ fuel ih =>
    rw [closeGroups?, resolveGroups]
    cases hopening : lastOffset? '(' t with
    | none => rw [closeAll_of_not_mem (lastOffset?_eq_none_iff.1 hopening)]
    | some opening =>
      obtain ⟨front, tail, rfl, htail, rfl, hcut⟩ := cut?_lastOffset? hopening
      simp only [hcut, Option.bind_eq_bind, Option.bind_some]
      cases hoffset : firstOffset? ')' ('(' :: tail) with
      | none =>
        have hclosing := firstOffset?_eq_none_iff.1 hoffset
        rw [List.mem_cons, not_or] at hclosing
        rw [closeAll_append, closeAll_cons, closeAll_of_not_mem htail]
        simp only [Except.bind, extend_opening_of_not_mem hclosing.2]
        rfl
      | some offset =>
        obtain ⟨before, inner, back, hgroup⟩ := exists_lastGroup hopening hcut hoffset
        rw [hgroup.closeAll_eq]
        simp only [hgroup.cut?_inner, evaluateFlat?_eq, Option.bind_some]
        cases hvalue : evaluateFlat inner with
        | error fault => rfl
        | ok value =>
          have hcount := hgroup.count_lt hvalue
          simp only [hgroup.splice?_value, Option.bind_some]
          exact ih (by omega)

theorem resolveGroups?_eq (t : Text) : resolveGroups? t = some (resolveGroups t) :=
  closeGroups?_eq (Nat.lt_succ_of_le List.count_le_length)

end Bytes

end Reckoner
