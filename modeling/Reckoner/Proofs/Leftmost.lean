import Reckoner.Proofs.Sites

/-!
# The leftmost match

A match is any way to cut an operation out of a text, whether or not its literals are read to their
end. The scan reads each literal as far as it goes, tries four readers at a place and passes over
the places inside a run of digits. None of this loses a match: in front of an operator only one left
operand can be read at a place, and what begins inside a run of digits is the end of a match that
begins earlier.
-/

namespace Reckoner

open Literal
open Operator (Level)

namespace Text

theorem utf8Size_pos {t : Text} (h : t ≠ []) : 0 < utf8Size t := by
  cases t with
  | nil => exact absurd rfl h
  | cons c t => exact Nat.add_pos_left c.utf8Size_pos _

/-- Of two beginnings of a text, the shorter one takes fewer bytes. -/
theorem utf8Size_lt_of_length_lt {s t u v : Text} (h : s ++ u = t ++ v)
    (hlt : s.length < t.length) : utf8Size s < utf8Size t := by
  obtain ⟨w, rfl⟩ : s <+: t :=
    List.prefix_of_prefix_length_le (List.prefix_append s u) (h ▸ List.prefix_append t v)
      (Nat.le_of_lt hlt)
  have hw : w ≠ [] := by
    rintro rfl
    simp at hlt
  rw [utf8Size_append]
  exact Nat.lt_add_of_pos_right (utf8Size_pos hw)

end Text

namespace Literal

theorem digits_append_of_isDigits {ds : Text} (h : IsDigits ds) (t : Text) :
    digits (ds ++ t) = ds ++ digits t ∧ afterDigits (ds ++ t) = afterDigits t :=
  ⟨List.takeWhile_append_of_pos h.2, List.dropWhile_append_of_pos h.2⟩

/-- A fraction that a text begins with is read, and perhaps more. -/
theorem exists_fraction? {f : Text} (hf : IsFraction f) (t : Text) :
    ∃ more rest, fraction? (f ++ t) = some (f ++ more, rest) := by
  obtain ⟨ds, hd, rfl⟩ := hf
  obtain ⟨h1, h2⟩ := digits_append_of_isDigits hd t
  refine ⟨digits t, afterDigits t, ?_⟩
  simp [fraction?, h1, h2, hd.1]

theorem exists_decimal? {d : Text} (hd : IsDecimal d) (t : Text) :
    ∃ more rest, decimal? (d ++ t) = some (d ++ more, rest) := by
  rcases hd with hd | ⟨ds, f, hd, hf, rfl⟩
  · obtain ⟨h1, h2⟩ := digits_append_of_isDigits hd t
    cases hpart : fraction? (afterDigits t) with
    | none => exact ⟨digits t, afterDigits t, by simp [decimal?, h1, h2, hd.1, hpart]⟩
    | some found =>
      obtain ⟨part, rest⟩ := found
      exact ⟨digits t ++ part, rest, by simp [decimal?, h1, h2, hd.1, hpart]⟩
  · obtain ⟨h1, h2⟩ := digits_append hd.2 (hf.append_head t)
    obtain ⟨more, rest, hpart⟩ := exists_fraction? hf t
    exact ⟨more, rest, by simp [decimal?, List.append_assoc, h1, h2, hd.1, hpart]⟩

/-- An operand that a text begins with is read, and perhaps more. -/
theorem exists_signed? {w : Text} (hw : IsOperand w) (t : Text) :
    ∃ more rest, signed? (w ++ t) = some (w ++ more, rest) := by
  rcases hw with (hd | ⟨d, rfl, hd⟩) | hf
  · obtain ⟨more, rest, h⟩ := exists_decimal? hd t
    exact ⟨more, rest, by simp [signed?, unsigned?, negative?_unsigned_append (.inl hd), h]⟩
  · obtain ⟨more, rest, h⟩ := exists_decimal? hd t
    exact ⟨more, rest, by simp [signed?, negative?, h]⟩
  · obtain ⟨more, rest, h⟩ := exists_fraction? hf t
    have hneg := negative?_unsigned_append (.inr hf) t
    exact ⟨more, rest, by simp [signed?, unsigned?, hneg, decimal?_fraction_append hf, h]⟩

theorem IsOperand.head_ne_space {w : Text} (h : IsOperand w) (t : Text) :
    (w ++ t).head? ≠ some ' ' := by
  rcases h with (h | ⟨d, rfl, -⟩) | ⟨ds, -, rfl⟩
  · obtain ⟨c, r, rfl, hc⟩ := h.head
    rintro he
    obtain rfl : c = ' ' := by simpa using he
    cases hc
  · simp
  · simp

end Literal

namespace Occurrence

/-- What can stand to the left of an operator, with `before` in front of it. -/
inductive IsLeftOperand (before : Text) : Text → Prop where
  | unsigned {w : Text} (h : IsDecimal w ∨ IsFraction w) : IsLeftOperand before w
  | opening {d : Text} (hb : before = []) (h : IsDecimal d) : IsLeftOperand before ('-' :: d)
  | trailing (op : Operator) (n : Nat) {d : Text} (h : IsDecimal d) :
      IsLeftOperand before (op.symbol :: (List.replicate n ' ' ++ '-' :: d))

/-- A way to cut an operation of a level out of a text. -/
structure Matches (level : Level) (t : Text) (o : Occurrence) : Prop where
  text : o.text = t
  left : IsLeftOperand o.before o.left
  leftGap : ∃ n, o.leftGap = List.replicate n ' '
  mem : o.operator ∈ level
  rightGap : ∃ n, o.rightGap = List.replicate n ' '
  right : IsOperand o.right

/-- Two ways to cut out the same operation, the first with the longer right operand. -/
structure Prolongs (o m : Occurrence) : Prop where
  before : m.before = o.before
  left : m.left = o.left
  leftGap : m.leftGap = o.leftGap
  operator : m.operator = o.operator
  rightGap : m.rightGap = o.rightGap
  right : m.right <+: o.right

/-- The match that begins first, with the longest right operand; nothing else about it can be
chosen. -/
structure IsLeftmost (level : Level) (t : Text) (o : Occurrence) : Prop
    extends Matches level t o where
  least : ∀ m, Matches level t m → o.start ≤ m.start
  prolongs : ∀ m, Matches level t m → m.start = o.start → o.Prolongs m

/-- What all four readers of left operands read at a place, also inside a run of digits. -/
def everyLeftOperand (seen t : Text) : List (Text × Text) :=
  [openingOperand? seen t, trailingOperand? t, decimal? t, fraction? t].filterMap id

def place? (level : Level) (seen t : Text) : Option Occurrence :=
  (everyLeftOperand seen t).findSome? fun (left, rest) => complete? level seen left rest

def searchFrom? (level : Level) : (seen : Text) → Text → Option Occurrence
  | _, [] => none
  | seen, c :: t => (place? level seen (c :: t)).or (searchFrom? level (c :: seen) t)

def search? (level : Level) (t : Text) : Option Occurrence := searchFrom? level [] t

variable {level : Level} {seen t left rest : Text} {o m : Occurrence}

theorem mem_everyLeftOperand : (left, rest) ∈ everyLeftOperand seen t ↔
    openingOperand? seen t = some (left, rest) ∨ trailingOperand? t = some (left, rest) ∨
      decimal? t = some (left, rest) ∨ fraction? t = some (left, rest) := by
  simp only [everyLeftOperand, List.mem_filterMap, id, exists_eq_right, List.mem_cons,
    List.not_mem_nil, or_false, eq_comm]

/-- What is read at a place is a left operand that the text goes on with. -/
theorem isLeftOperand_of_mem (h : (left, rest) ∈ everyLeftOperand seen t) :
    IsLeftOperand seen.reverse left ∧ left ++ rest = t := by
  rcases mem_everyLeftOperand.1 h with h | h | h | h
  · unfold openingOperand? at h
    split at h
    · next hs =>
      obtain ⟨d, rfl, hd, -⟩ := isDecimal_of_negative? h
      exact ⟨.opening (by simpa using hs) hd, append_of_negative? h⟩
    · simp at h
  · obtain ⟨op, n, d, rfl, hd, ht⟩ := trailingOperand?_spec h
    exact ⟨.trailing op n hd, ht.symm⟩
  · exact ⟨.unsigned (.inl (isDecimal_of_decimal? h).1), append_of_decimal? h⟩
  · exact ⟨.unsigned (.inr (isFraction_of_fraction? h).1), append_of_fraction? h⟩

theorem trailingOperand?_append (op : Operator) (n : Nat) {d : Text} (hd : IsDecimal d)
    (hr : Stops rest) :
    trailingOperand? (op.symbol :: (List.replicate n ' ' ++ '-' :: (d ++ rest))) =
      some (op.symbol :: (List.replicate n ' ' ++ '-' :: d), rest) := by
  obtain ⟨h1, h2⟩ := spaces_replicate_append n (t := '-' :: (d ++ rest)) (by simp)
  simp [trailingOperand?, h1, h2, negative?_append hd hr]

/-- In front of an operator the four readers agree on the left operand: one of them reads it, and
the others read nothing. -/
theorem everyLeftOperand_append (hl : IsLeftOperand seen.reverse left) (hr : Stops rest) :
    everyLeftOperand seen (left ++ rest) = [(left, rest)] := by
  cases hl with
  | unsigned hw =>
    obtain ⟨hopening, htrailing⟩ := signedOperands_unsigned hw seen rest
    rw [everyLeftOperand, hopening, htrailing]
    exact unsignedOperands_unsigned hw hr
  | @opening d hb hd =>
    obtain rfl : seen = [] := by simpa using hb
    obtain ⟨hdec, hfrac⟩ : decimal? ('-' :: (d ++ rest)) = none ∧
        fraction? ('-' :: (d ++ rest)) = none := unsignedOperands_symbol .minus _
    have hopening : openingOperand? [] ('-' :: (d ++ rest)) = some ('-' :: d, rest) :=
      negative?_append hd hr
    -- behind the minus sign stands a digit and not another one
    have htrailing : trailingOperand? ('-' :: (d ++ rest)) = none := by
      have hspaces := afterSpaces_of_head (IsOperand.head_ne_space (.inl (.inl hd)) rest)
      simp [trailingOperand?, hspaces, negative?_unsigned_append (.inl hd)]
    rw [List.cons_append, everyLeftOperand, hopening, htrailing, hdec, hfrac]
    rfl
  | @trailing op n d hd =>
    obtain ⟨hdec, hfrac⟩ := unsignedOperands_symbol op (List.replicate n ' ' ++ '-' :: (d ++ rest))
    have hstop : Stops (List.replicate n ' ' ++ '-' :: (d ++ rest)) :=
      stops_spaces n (by rw [stops_cons]; decide)
    have hopening : openingOperand? seen
        (op.symbol :: (List.replicate n ' ' ++ '-' :: (d ++ rest))) = none := by
      simp only [openingOperand?, negative?_cons_of_not_digit _ hstop.digit, ite_self]
    rw [List.cons_append, List.append_assoc, List.cons_append, everyLeftOperand, hopening,
      trailingOperand?_append op n hd hr, hdec, hfrac]
    rfl

theorem Matches.eq_append (h : Matches level t m) : t = m.before ++ (m.left ++
    (m.leftGap ++ m.operator.symbol :: (m.rightGap ++ (m.right ++ m.after)))) := by
  simp [← h.text, Occurrence.text, extent]

theorem Matches.stops (h : Matches level t m) (u : Text) :
    Stops (m.leftGap ++ m.operator.symbol :: u) := by
  obtain ⟨n, hn⟩ := h.leftGap
  exact hn ▸ stops_spaces n (stops_symbol m.operator u)

/-- A match is found once its left operand is read, and its right operand is read to the end. -/
theorem Matches.complete? (h : Matches level t m) (hb : m.before = seen.reverse) :
    ∃ o, Occurrence.complete? level seen m.left
      (m.leftGap ++ m.operator.symbol :: (m.rightGap ++ (m.right ++ m.after))) = some o ∧
        o.Prolongs m := by
  obtain ⟨k, hk⟩ := h.leftGap
  obtain ⟨n, hn⟩ := h.rightGap
  obtain ⟨more, after, hsigned⟩ := exists_signed? h.right m.after
  obtain ⟨h1, h2⟩ := spaces_replicate_append k
    (t := m.operator.symbol :: (m.rightGap ++ (m.right ++ m.after)))
    (by simpa using (symbol_facts m.operator).2.2)
  obtain ⟨h3, h4⟩ := spaces_replicate_append n (h.right.head_ne_space m.after)
  refine ⟨⟨seen.reverse, m.left, m.leftGap, m.operator, m.rightGap, m.right ++ more, after⟩, ?_,
    hb, rfl, rfl, rfl, rfl, List.prefix_append _ _⟩
  rw [← hk] at h1 h2
  rw [← hn] at h3 h4
  simp [Occurrence.complete?, h1, h2, h3, h4, h.mem, hsigned]

/-- Where a match begins, it is found up to a longer right operand. -/
theorem Matches.place? (h : Matches level (seen.reverse ++ t) m) (hb : m.before = seen.reverse) :
    ∃ o, Occurrence.place? level seen t = some o ∧ o.Prolongs m := by
  obtain rfl := List.append_cancel_left (hb ▸ h.eq_append)
  obtain ⟨o, ho, hprolongs⟩ := h.complete? hb
  refine ⟨o, ?_, hprolongs⟩
  rw [Occurrence.place?, everyLeftOperand_append (hb ▸ h.left) (h.stops _),
    List.findSome?_singleton]
  exact ho

/-- What is completed behind a left operand is a match. -/
theorem matches_of_complete? (hl : IsLeftOperand seen.reverse left)
    (h : complete? level seen left rest = some o) :
    Matches level (seen.reverse ++ (left ++ rest)) o ∧ o.before = seen.reverse ∧ o.left = left := by
  obtain ⟨hb, rfl, hmem, hright, hleftGap, hrightGap, rfl⟩ := complete?_spec h
  refine ⟨⟨?_, hb ▸ hl, hleftGap, hmem, hrightGap, hright⟩, hb, rfl⟩
  simp [Occurrence.text, extent, hb]

theorem matches_of_place? (h : place? level seen t = some o) :
    Matches level (seen.reverse ++ t) o ∧ o.before = seen.reverse := by
  obtain ⟨⟨left, rest⟩, hmem, hc⟩ := List.exists_of_findSome?_eq_some h
  obtain ⟨hl, rfl⟩ := isLeftOperand_of_mem hmem
  obtain ⟨hmatches, hb, -⟩ := matches_of_complete? hl hc
  exact ⟨hmatches, hb⟩

theorem matches_of_searchFrom? (h : searchFrom? level seen t = some o) :
    Matches level (seen.reverse ++ t) o := by
  induction t generalizing seen with
  | nil => simp [searchFrom?] at h
  | cons c t ih =>
    rcases Option.or_eq_some_iff.1 h with h | ⟨-, h⟩
    · exact (matches_of_place? h).1
    · simpa using ih h

/-- Every match behind `seen` has a found occurrence in front of it, or is found up to a longer
right operand. -/
theorem Matches.searchFrom? (h : Matches level (seen.reverse ++ t) m)
    (hlen : seen.length ≤ m.before.length) : ∃ o, Occurrence.searchFrom? level seen t = some o ∧
      (o.before.length < m.before.length ∨ o.Prolongs m) := by
  induction t generalizing seen with
  | nil =>
    have hlength := congrArg List.length h.eq_append
    simp only [List.length_append, List.length_cons, List.length_reverse,
      List.length_nil] at hlength
    omega
  | cons c t ih =>
    have hbegins : seen.reverse <+: m.before :=
      List.prefix_of_prefix_length_le ⟨_, rfl⟩ ⟨_, h.eq_append.symm⟩ (by simpa using hlen)
    rcases Nat.eq_or_lt_of_le hlen with heq | hlt
    · obtain ⟨o, ho, hprolongs⟩ := h.place? (hbegins.eq_of_length (by simpa using heq)).symm
      exact ⟨o, by rw [Occurrence.searchFrom?, ho, Option.some_or], .inr hprolongs⟩
    · cases hplace : Occurrence.place? level seen (c :: t) with
      | some o =>
        have hb := (matches_of_place? hplace).2
        refine ⟨o, by rw [Occurrence.searchFrom?, hplace, Option.some_or], .inl ?_⟩
        simpa [hb] using hlt
      | none =>
        obtain ⟨o, ho, hfirst⟩ := @ih (c :: seen) (by simpa using h) hlt
        exact ⟨o, by rw [Occurrence.searchFrom?, hplace, Option.none_or, ho], hfirst⟩

/-- A match that begins with a literal behind a digit is the end of a longer one. -/
theorem Matches.back {front : Text} {d : Char} (h : Matches level t m)
    (hb : m.before = front ++ [d]) (hd : d.isDigit = true)
    (hl : IsDecimal m.left ∨ IsFraction m.left) :
    Matches level t { m with before := front, left := d :: m.left } := by
  refine ⟨?_, .unsigned (.inl (isDecimal_cons hd hl)), h.leftGap, h.mem, h.rightGap, h.right⟩
  rw [h.eq_append, hb]
  simp [Occurrence.text, extent]

/-- If `seen` ends in a digit, no match begins behind it with a literal. -/
def Skippable (level : Level) (seen t : Text) : Prop :=
  seen.head?.any Char.isDigit = true → ∀ m, Matches level (seen.reverse ++ t) m →
    m.before = seen.reverse → ¬ (IsDecimal m.left ∨ IsFraction m.left)

/-- Where nothing has been found, no match begins one place further inside a run of digits. -/
theorem skippable_of_place? {c : Char} (h : place? level seen (c :: t) = none) :
    Skippable level (c :: seen) t := by
  intro hc m hm hb hl
  have hearlier := hm.back (by simpa using hb) (by simpa using hc) hl
  rw [List.reverse_cons, List.append_assoc, List.singleton_append] at hearlier
  obtain ⟨o, ho, -⟩ := hearlier.place? rfl
  rw [h] at ho
  cases ho

/-- Where literals can be skipped, the readers that skip them lose nothing. -/
theorem Skippable.findSome? (h : Skippable level seen t) :
    ((leftOperands seen t).findSome? fun (left, rest) => complete? level seen left rest) =
      place? level seen t := by
  cases hd : seen.head?.any Char.isDigit with
  | false => simp [leftOperands, place?, everyLeftOperand, hd]
  | true =>
    have hsplit : everyLeftOperand seen t =
        leftOperands seen t ++ [decimal? t, fraction? t].filterMap id := by
      simp only [everyLeftOperand, leftOperands, hd, if_true, ← List.filterMap_append]
      rfl
    have hnone : ([decimal? t, fraction? t].filterMap id).findSome?
        (fun (left, rest) => complete? level seen left rest) = none := by
      rw [List.findSome?_eq_none_iff]
      rintro ⟨left, rest⟩ hmem
      have hunsigned : (IsDecimal left ∨ IsFraction left) ∧ left ++ rest = t := by
        simp only [List.mem_filterMap, id, exists_eq_right, List.mem_cons, List.not_mem_nil,
          or_false] at hmem
        rcases hmem with he | he
        · exact ⟨.inl (isDecimal_of_decimal? he.symm).1, append_of_decimal? he.symm⟩
        · exact ⟨.inr (isFraction_of_fraction? he.symm).1, append_of_fraction? he.symm⟩
      obtain ⟨hl, rfl⟩ := hunsigned
      rw [Option.eq_none_iff_forall_ne_some]
      intro o ho
      obtain ⟨hmatches, hb, rfl⟩ := matches_of_complete? (.unsigned hl) ho
      exact h hd o hmatches hb hl
    rw [place?, hsplit, List.findSome?_append, hnone, Option.or_none]

theorem Skippable.findFrom? (h : Skippable level seen t) :
    Occurrence.findFrom? level seen t = Occurrence.searchFrom? level seen t := by
  induction t generalizing seen with
  | nil => rfl
  | cons c t ih =>
    rw [Occurrence.findFrom?, h.findSome?, Occurrence.searchFrom?]
    cases hplace : Occurrence.place? level seen (c :: t) with
    | some o => rfl
    | none => rw [Option.none_or, Option.none_or, ih (skippable_of_place? hplace)]

theorem find?_eq_search? (level : Level) (t : Text) : find? level t = search? level t := by
  have hstart : Skippable level [] t := by simp [Skippable]
  exact hstart.findFrom?

theorem Matches.start_lt (ho : Matches level t o) (hm : Matches level t m)
    (h : o.before.length < m.before.length) : o.start < m.start :=
  Text.utf8Size_lt_of_length_lt (ho.eq_append.symm.trans hm.eq_append) h

theorem isLeftmost_of_search? (h : search? level t = some o) : IsLeftmost level t o := by
  have ho : Matches level t o := matches_of_searchFrom? h
  have hfirst : ∀ m, Matches level t m → o.start < m.start ∨ o.Prolongs m := by
    intro m hm
    obtain ⟨o', ho', hcases⟩ := @Matches.searchFrom? level [] t m hm (Nat.zero_le _)
    obtain rfl : o' = o := Option.some.inj (ho'.symm.trans h)
    exact hcases.imp_left (ho.start_lt hm)
  refine ⟨ho, fun m hm => ?_, fun m hm hs => ?_⟩
  · rcases hfirst m hm with hlt | hprolongs
    · exact Nat.le_of_lt hlt
    · exact Nat.le_of_eq (congrArg Text.utf8Size hprolongs.before.symm)
  · exact (hfirst m hm).resolve_left (by omega)

theorem IsLeftmost.unique {p : Occurrence} (ho : IsLeftmost level t o)
    (hp : IsLeftmost level t p) : o = p := by
  have hstart : o.start = p.start :=
    Nat.le_antisymm (ho.least p hp.toMatches) (hp.least o ho.toMatches)
  have h := hp.prolongs o ho.toMatches hstart
  have hright : o.right = p.right :=
    h.right.eq_of_length_le (ho.prolongs p hp.toMatches hstart.symm).right.length_le
  have hafter : o.after = p.after := by
    have he := ho.toMatches.eq_append.symm.trans hp.toMatches.eq_append
    simpa [h.before, h.left, h.leftGap, h.operator, h.rightGap, hright] using he
  cases o
  cases p
  simp only [mk.injEq]
  exact ⟨h.before, h.left, h.leftGap, h.operator, h.rightGap, hright, hafter⟩

/-- The scan finds an occurrence where there is a match, and it is the leftmost one, though places
inside a run of digits are not tried. -/
theorem find?_leftmost (level : Level) (t : Text) :
    ((find? level t).isSome = true ↔ ∃ m, Matches level t m) ∧
      (∀ o, find? level t = some o ↔ IsLeftmost level t o) ∧ find? level t = search? level t := by
  rw [find?_eq_search? level t]
  have hsome : ∀ {m}, Matches level t m → ∃ o, search? level t = some o := by
    intro m hm
    obtain ⟨o, ho, -⟩ := @Matches.searchFrom? level [] t m hm (Nat.zero_le _)
    exact ⟨o, ho⟩
  refine ⟨?_, fun o => ⟨isLeftmost_of_search?, fun ho => ?_⟩, rfl⟩
  · rw [Option.isSome_iff_exists]
    constructor
    · rintro ⟨o, ho⟩
      exact ⟨o, matches_of_searchFrom? ho⟩
    · rintro ⟨m, hm⟩
      exact hsome hm
  · obtain ⟨p, hp⟩ := hsome ho.toMatches
    rw [hp, ho.unique (isLeftmost_of_search? hp)]

example : (find? Operator.additive "1.2.3 + 45".toList).map (fun o => (o.start, o.left, o.right)) =
    some (2, "2.3".toList, "45".toList) := by decide

end Occurrence

end Reckoner
