import Reckoner.Proofs.InputLines

/-!
# Cutting a text at bytes

A text takes one to four bytes for a character, and it can be cut in front of a character, behind
one and nowhere else. What a cut gives is a part of the text; a cut that falls inside a character,
behind the end or in front of where it begins gives nothing.
-/

namespace Reckoner.Text

/-- A byte at which a text can be cut: a valid position of it as a string. -/
def IsBoundary (t : Text) (i : Nat) : Prop := String.Pos.Raw.IsValid (String.ofList t) ⟨i⟩

/-- Bytes in the order of a text, at each of which it can be cut. -/
structure Cuts (t : Text) (places : List Nat) : Prop where
  ordered : places.Pairwise (· ≤ ·)
  boundary : ∀ i ∈ places, IsBoundary t i

def beforeBytes? : Text → Nat → Option Text
  | _, 0 => some []
  | [], _ + 1 => none
  | c :: t, n + 1 =>
    if c.utf8Size ≤ n + 1 then (beforeBytes? t (n + 1 - c.utf8Size)).map (c :: ·) else none

def cut? (t : Text) (i j : Nat) : Option Text :=
  if i ≤ j then (afterBytes? t i).bind fun rest => beforeBytes? rest (j - i) else none

def splice? (t : Text) (i j : Nat) (new : Text) : Option Text := do
  let front ← beforeBytes? t i
  let _ ← cut? t i j
  let back ← afterBytes? t j
  return front ++ (new ++ back)

variable {s t u : Text} {i j : Nat}

@[simp] theorem beforeBytes?_zero (t : Text) : beforeBytes? t 0 = some [] := by
  cases t <;> rfl

theorem utf8Size_eq_zero_iff : utf8Size t = 0 ↔ t = [] := by
  cases t with
  | nil => simp
  | cons c t => simpa using Nat.ne_of_gt (Nat.add_pos_left c.utf8Size_pos _)

theorem afterBytes?_cons {c : Char} (h : c.utf8Size ≤ i) (t : Text) :
    afterBytes? (c :: t) i = afterBytes? t (i - c.utf8Size) := by
  obtain ⟨n, rfl⟩ := Nat.exists_eq_add_one.2 (Nat.lt_of_lt_of_le c.utf8Size_pos h)
  rw [afterBytes?, if_pos h]

theorem beforeBytes?_cons {c : Char} (h : c.utf8Size ≤ i) (t : Text) :
    beforeBytes? (c :: t) i = (beforeBytes? t (i - c.utf8Size)).map (c :: ·) := by
  obtain ⟨n, rfl⟩ := Nat.exists_eq_add_one.2 (Nat.lt_of_lt_of_le c.utf8Size_pos h)
  rw [beforeBytes?, if_pos h]

theorem afterBytes?_inside {c : Char} (h0 : 0 < i) (h : i < c.utf8Size) (t : Text) :
    afterBytes? (c :: t) i = none := by
  obtain ⟨n, rfl⟩ := Nat.exists_eq_add_one.2 h0
  rw [afterBytes?, if_neg (by omega)]

theorem afterBytes?_append_add (s t : Text) (i : Nat) :
    afterBytes? (s ++ t) (utf8Size s + i) = afterBytes? t i := by
  induction s with
  | nil => rw [utf8Size_nil, Nat.zero_add, List.nil_append]
  | cons c s ih =>
    have hsub : utf8Size (c :: s) + i - c.utf8Size = utf8Size s + i := by
      rw [utf8Size_cons]
      omega
    rw [List.cons_append, afterBytes?_cons (by rw [utf8Size_cons]; omega), hsub, ih]

/-- Behind a byte inside a character nothing begins. -/
theorem afterBytes?_append_inside {c : Char} (h0 : 0 < i) (h : i < c.utf8Size) (s t : Text) :
    afterBytes? (s ++ c :: t) (utf8Size s + i) = none := by
  rw [afterBytes?_append_add, afterBytes?_inside h0 h]

theorem beforeBytes?_append (s t : Text) : beforeBytes? (s ++ t) (utf8Size s) = some s := by
  induction s with
  | nil => simp
  | cons c s ih =>
    have hsub : utf8Size (c :: s) - c.utf8Size = utf8Size s := by
      rw [utf8Size_cons]
      omega
    rw [List.cons_append, beforeBytes?_cons (by rw [utf8Size_cons]; omega), hsub, ih]
    rfl

/-- What follows some bytes follows a beginning of that size. -/
theorem afterBytes?_eq_some_iff :
    afterBytes? t i = some u ↔ ∃ s, t = s ++ u ∧ i = utf8Size s := by
  constructor
  · intro h
    induction t generalizing i with
    | nil =>
      cases i with
      | zero => exact ⟨[], Option.some.inj h, rfl⟩
      | succ n => cases h
    | cons c t ih =>
      rcases Nat.eq_zero_or_pos i with rfl | h0
      · exact ⟨[], Option.some.inj h, rfl⟩
      · by_cases hle : c.utf8Size ≤ i
        · rw [afterBytes?_cons hle] at h
          obtain ⟨s, rfl, hs⟩ := ih h
          exact ⟨c :: s, rfl, by rw [utf8Size_cons]; omega⟩
        · rw [afterBytes?_inside h0 (by omega)] at h
          cases h
  · rintro ⟨s, rfl, rfl⟩
    exact afterBytes?_append s u

theorem beforeBytes?_eq_some_iff :
    beforeBytes? t i = some s ↔ ∃ u, t = s ++ u ∧ i = utf8Size s := by
  constructor
  · intro h
    induction t generalizing i s with
    | nil =>
      cases i with
      | zero =>
        obtain rfl := Option.some.inj h
        exact ⟨[], rfl, rfl⟩
      | succ n => cases h
    | cons c t ih =>
      rcases Nat.eq_zero_or_pos i with rfl | h0
      · obtain rfl := Option.some.inj h
        exact ⟨c :: t, rfl, rfl⟩
      · by_cases hle : c.utf8Size ≤ i
        · rw [beforeBytes?_cons hle] at h
          obtain ⟨s, hs, rfl⟩ := Option.map_eq_some_iff.1 h
          obtain ⟨u, rfl, hu⟩ := ih hs
          exact ⟨u, rfl, by rw [utf8Size_cons]; omega⟩
        · obtain ⟨n, rfl⟩ := Nat.exists_eq_add_one.2 h0
          rw [beforeBytes?, if_neg hle] at h
          cases h
  · rintro ⟨u, rfl, rfl⟩
    exact beforeBytes?_append s u

theorem rawEndPos_ofList (s : Text) : (String.ofList s).rawEndPos = ⟨utf8Size s⟩ := by
  rw [String.rawEndPos_ofList]
  congr 1
  induction s with
  | nil => rfl
  | cons c s ih => rw [String.utf8Len_cons, ih, utf8Size_cons, Nat.add_comm]

/-- A text can be cut behind each of its beginnings and nowhere else. -/
theorem isBoundary_iff : IsBoundary t i ↔ ∃ s u, t = s ++ u ∧ i = utf8Size s := by
  rw [IsBoundary, String.Pos.Raw.isValid_iff_exists_append]
  constructor
  · rintro ⟨s, u, h, hi⟩
    refine ⟨s.toList, u.toList, ?_, ?_⟩
    · rw [← String.toList_append, ← h, String.toList_ofList]
    · rw [← String.ofList_toList (s := s), rawEndPos_ofList] at hi
      exact congrArg String.Pos.Raw.byteIdx hi
  · rintro ⟨s, u, rfl, rfl⟩
    exact ⟨String.ofList s, String.ofList u, String.ofList_append, (rawEndPos_ofList s).symm⟩

theorem isBoundary_append (s t : Text) : IsBoundary (s ++ t) (utf8Size s) :=
  isBoundary_iff.2 ⟨s, t, rfl, rfl⟩

/-- A part of a text is what stands between two of its bytes. -/
theorem cut?_eq_some_iff : cut? t i j = some s ↔
    ∃ front back, t = front ++ (s ++ back) ∧ i = utf8Size front ∧
      j = utf8Size front + utf8Size s := by
  unfold cut?
  constructor
  · intro h
    split at h
    · next hle =>
      obtain ⟨rest, hrest, hs⟩ := Option.bind_eq_some_iff.1 h
      obtain ⟨front, rfl, rfl⟩ := afterBytes?_eq_some_iff.1 hrest
      obtain ⟨back, rfl, hj⟩ := beforeBytes?_eq_some_iff.1 hs
      exact ⟨front, back, rfl, rfl, by omega⟩
    · cases h
  · rintro ⟨front, back, rfl, rfl, rfl⟩
    rw [if_pos (Nat.le_add_right _ _), afterBytes?_append, Option.bind_some,
      Nat.add_sub_cancel_left, beforeBytes?_append]

theorem cut?_append (front s back : Text) :
    cut? (front ++ (s ++ back)) (utf8Size front) (utf8Size (front ++ s)) = some s :=
  cut?_eq_some_iff.2 ⟨front, back, rfl, rfl, utf8Size_append front s⟩

/-- The part behind a byte up to the end. -/
theorem cut?_end (front s : Text) :
    cut? (front ++ s) (utf8Size front) (utf8Size (front ++ s)) = some s := by
  have := cut?_append front s []
  rwa [List.append_nil] at this

/-- A cut is made exactly if its ends are in order and each is a boundary. -/
theorem cut?_isSome_iff :
    (cut? t i j).isSome = true ↔ i ≤ j ∧ IsBoundary t i ∧ IsBoundary t j := by
  rw [Option.isSome_iff_exists]
  constructor
  · rintro ⟨s, hs⟩
    obtain ⟨front, back, rfl, rfl, rfl⟩ := cut?_eq_some_iff.1 hs
    refine ⟨Nat.le_add_right _ _, isBoundary_append front _, ?_⟩
    rw [← List.append_assoc, ← utf8Size_append]
    exact isBoundary_append (front ++ s) back
  · rintro ⟨hle, hi, hj⟩
    obtain ⟨front, u, rfl, rfl⟩ := isBoundary_iff.1 hi
    obtain ⟨whole, back, hwhole, rfl⟩ := isBoundary_iff.1 hj
    -- Of two beginnings of a text, the one that takes no fewer bytes begins with the other.
    obtain ⟨s, rfl⟩ | ⟨s, hs, rfl⟩ : front <+: whole ∨ ∃ s, front = whole ++ s ∧ back = s ++ u := by
      rcases List.append_eq_append_iff.1 hwhole with ⟨s, rfl, -⟩ | ⟨s, rfl, rfl⟩
      · exact .inl (List.prefix_append _ _)
      · exact .inr ⟨s, rfl, rfl⟩
    · rw [List.append_assoc, List.append_cancel_left_eq] at hwhole
      rw [hwhole]
      exact ⟨s, cut?_append front s back⟩
    · obtain rfl : s = [] := by
        rw [hs, utf8Size_append] at hle
        exact utf8Size_eq_zero_iff.1 (by omega)
      rw [List.append_nil] at hs
      rw [hs]
      exact ⟨[], by simpa using cut?_append whole [] u⟩

/-- Parts that stand one behind the other in a text begin and end in order. -/
theorem cuts_append (front s gap u back : Text) : Cuts (front ++ (s ++ (gap ++ (u ++ back))))
    [utf8Size front, utf8Size (front ++ s), utf8Size (front ++ (s ++ gap)),
      utf8Size (front ++ (s ++ (gap ++ u)))] where
  ordered := by
    simp only [utf8Size_append, List.pairwise_cons, List.mem_cons, List.not_mem_nil, or_false]
    grind
  boundary := by
    have hparts := isBoundary_append
    intro i hi
    simp only [List.mem_cons, List.not_mem_nil, or_false] at hi
    obtain rfl | rfl | rfl | rfl := hi
    · exact hparts front (s ++ (gap ++ (u ++ back)))
    · simpa using hparts (front ++ s) (gap ++ (u ++ back))
    · simpa using hparts (front ++ (s ++ gap)) (u ++ back)
    · simpa using hparts (front ++ (s ++ (gap ++ u))) back

theorem splice?_append (front s back new : Text) :
    splice? (front ++ (s ++ back)) (utf8Size front) (utf8Size (front ++ s)) new =
      some (front ++ (new ++ back)) := by
  have hback : afterBytes? (front ++ (s ++ back)) (utf8Size (front ++ s)) = some back := by
    rw [← List.append_assoc, afterBytes?_append]
  rw [splice?, beforeBytes?_append, cut?_append, hback]
  rfl

/-- A part is replaced exactly if it can be cut out. -/
theorem splice?_isSome_iff (t new : Text) (i j : Nat) :
    (splice? t i j new).isSome = true ↔ i ≤ j ∧ IsBoundary t i ∧ IsBoundary t j := by
  rw [← cut?_isSome_iff]
  cases hcut : cut? t i j with
  | none =>
    rw [splice?, hcut]
    cases beforeBytes? t i <;> simp
  | some s =>
    obtain ⟨front, back, rfl, rfl, rfl⟩ := cut?_eq_some_iff.1 hcut
    rw [← utf8Size_append, splice?_append]
    rfl

end Reckoner.Text
