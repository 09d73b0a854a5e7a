import Reckoner.Proofs.FirstLexemes
import Reckoner.Proofs.Leftmost
import Reckoner.Proofs.Spacing

/-!
# The longest match

Every kind of lexeme has its words. A text is cut by the longest match when at each place the
longest word of any kind is taken, and a character that begins no word is passed over alone. The
lexemes of a text are the one such cut. They begin and end where the reader of literals, which is
given the text and a byte and knows of no cut, begins and ends to read.
-/

namespace Reckoner

open Literal

namespace Literal

/-- A literal that a text begins with is read, and perhaps more. -/
theorem exists_unsigned? {w : Text} (hw : IsDecimal w ∨ IsFraction w) (t : Text) :
    ∃ more rest, unsigned? (w ++ t) = some (w ++ more, rest) := by
  rcases hw with hd | hf
  · obtain ⟨more, rest, h⟩ := exists_decimal? hd t
    exact ⟨more, rest, by simp [unsigned?, h]⟩
  · obtain ⟨more, rest, h⟩ := exists_fraction? hf t
    exact ⟨more, rest, by simp [unsigned?, decimal?_fraction_append hf, h]⟩

/-- Behind the bytes of a beginning a reader reads what follows it. -/
theorem endAt?_append (read : Text → Option (Text × Text)) (s t : Text) :
    endAt? read (s ++ t) s.utf8Size =
      (read t).map fun found => s.utf8Size + found.1.utf8Size := by
  simp [endAt?]

end Literal

namespace Lexeme

/-- The words of a kind. No word belongs to the characters that have no part in expressions. -/
def Kind.Spells : Kind → Text → Prop
  | number, w => IsDecimal w ∨ IsFraction w
  | letter, w => ∃ c, c.isAlpha = true ∧ w = [c]
  | dot, w => w = ['.']
  | operator op, w => w = [op.symbol]
  | leftParen, w => w = ['(']
  | rightParen, w => w = [')']
  | space, w => w ≠ [] ∧ ∀ c ∈ w, c = ' '
  | other, _ => False

/-- A cut of a text by the longest match. -/
inductive LongestCut : Text → List Lexeme → Prop
  | nil : LongestCut [] []
  | word {kind : Kind} {w rest : Text} {ls : List Lexeme} (spells : kind.Spells w)
      (longest : ∀ k v, Kind.Spells k v → v <+: w ++ rest → v.length ≤ w.length)
      (cut : LongestCut rest ls) : LongestCut (w ++ rest) (⟨kind, w⟩ :: ls)
  | foreign {c : Char} {rest : Text} {ls : List Lexeme}
      (wordless : ∀ k v, Kind.Spells k v → ¬ v <+: c :: rest)
      (cut : LongestCut rest ls) : LongestCut (c :: rest) (⟨.other, [c]⟩ :: ls)

/-- A word is a literal, a run of spaces or a character with a kind of its own. -/
theorem Kind.Spells.cases {k : Kind} {w : Text} (h : k.Spells w) :
    (k = .number ∧ (IsDecimal w ∨ IsFraction w)) ∨
      (k = .space ∧ ∃ n, w = List.replicate (n + 1) ' ') ∨
      ∃ c, w = [c] ∧ k = .ofChar c ∧ k ≠ .other := by
  cases k with
  | number => exact .inl ⟨rfl, h⟩
  | letter =>
    obtain ⟨c, hc, rfl⟩ := h
    exact .inr (.inr ⟨c, rfl, ((ofChar_eq_letter_iff c).2 hc).symm, by simp⟩)
  | dot => exact .inr (.inr ⟨'.', h, rfl, by simp⟩)
  | operator op => exact .inr (.inr ⟨op.symbol, h, by cases op <;> rfl, by simp⟩)
  | leftParen => exact .inr (.inr ⟨'(', h, rfl, by simp⟩)
  | rightParen => exact .inr (.inr ⟨')', h, rfl, by simp⟩)
  | space =>
    obtain ⟨n, hn⟩ := Nat.exists_eq_add_one.2 (List.length_pos_iff.2 h.1)
    exact .inr (.inl ⟨rfl, n, List.eq_replicate_iff.2 ⟨hn, h.2⟩⟩)
  | other => exact h.elim

theorem spells_ofChar {c : Char} (h : Kind.ofChar c ≠ .other) : (Kind.ofChar c).Spells [c] := by
  rcases ofChar_cases c with ⟨op, rfl, hk⟩ | ⟨hc, hk⟩ | ⟨rfl, hk⟩ | ⟨rfl, hk⟩ | ⟨rfl, hk⟩ |
    ⟨-, hk⟩
  · rw [hk]
    rfl
  · rw [hk]
    exact ⟨c, hc, rfl⟩
  · rfl
  · rfl
  · rfl
  · exact absurd hk h

theorem spells_spaces (n : Nat) : Kind.space.Spells (List.replicate (n + 1) ' ') :=
  ⟨by simp, fun _ hc => (List.mem_replicate.1 hc).2⟩

theorem ofChar_of_isDigit {c : Char} (hc : c.isDigit = true) : Kind.ofChar c = .other := by
  rcases ofChar_cases c with ⟨op, rfl, -⟩ | ⟨h, -⟩ | ⟨rfl, -⟩ | ⟨rfl, -⟩ | ⟨rfl, -⟩ | ⟨-, h⟩
  · cases op <;> cases hc
  · rw [isAlpha_eq_false_of_isDigit hc] at h
    cases h
  · cases hc
  · cases hc
  · cases hc
  · exact h

section Longest

variable {w rest : Text} {k : Kind} {v : Text}

/-- No word in front of a text is longer than the literal that is read from it. -/
theorem length_le_of_unsigned? (hu : unsigned? (w ++ rest) = some (w, rest)) (hv : k.Spells v)
    (hpre : v <+: w ++ rest) : v.length ≤ w.length := by
  obtain ⟨s, hs⟩ := hpre
  have hw := isWord_of_unsigned (isLiteral_of_unsigned? hu).1
  rcases hv.cases with ⟨-, hv⟩ | ⟨-, n, rfl⟩ | ⟨c, rfl, -⟩
  · obtain ⟨more, r, h⟩ := exists_unsigned? hv s
    rw [hs, hu, Option.some.injEq, Prod.mk.injEq] at h
    simp [h.1]
  · obtain ⟨d, r, rfl, hd, -⟩ := hw.head
    rw [List.replicate_succ, List.cons_append, List.cons_append] at hs
    exact absurd (List.cons.inj hs).1.symm hd
  · exact List.length_pos_iff.2 hw.ne_nil

theorem length_le_of_spaces {n : Nat} (hrest : rest.head? ≠ some ' ') (hv : k.Spells v)
    (hpre : v <+: List.replicate (n + 1) ' ' ++ rest) : v.length ≤ n + 1 := by
  obtain ⟨s, hs⟩ := hpre
  rcases hv.cases with ⟨-, hv⟩ | ⟨-, m, rfl⟩ | ⟨c, rfl, -⟩
  · obtain ⟨d, r, rfl, hd, -⟩ := (isWord_of_unsigned hv).head
    rw [List.replicate_succ, List.cons_append, List.cons_append] at hs
    exact absurd (List.cons.inj hs).1 hd
  · have hsp := (spaces_replicate_append (n + 1) hrest).1
    rw [← hs, Text.spaces, List.takeWhile_append_of_pos (by simp)] at hsp
    have hlen := congrArg List.length hsp
    simp only [List.length_append, List.length_replicate] at hlen ⊢
    omega
  · simp

/-- Where no literal and no space begins, a word is the first character and of its kind. -/
theorem eq_of_spells_char {c : Char} (hu : unsigned? (c :: rest) = none) (hc : c ≠ ' ')
    (hv : k.Spells v) (hpre : v <+: c :: rest) : v = [c] ∧ k = .ofChar c ∧ k ≠ .other := by
  obtain ⟨s, hs⟩ := hpre
  rcases hv.cases with ⟨-, hv⟩ | ⟨-, m, rfl⟩ | ⟨d, rfl, hk, hother⟩
  · obtain ⟨more, r, h⟩ := exists_unsigned? hv s
    rw [hs, hu] at h
    cases h
  · rw [List.replicate_succ, List.cons_append] at hs
    exact absurd (List.cons.inj hs).1.symm hc
  · obtain rfl : d = c := (List.cons.inj hs).1
    exact ⟨rfl, hk, hother⟩

end Longest

/-- The lexemes of a text are cut by the longest match. -/
theorem longestCut_list (t : Text) : LongestCut t (list t) := by
  induction t using list_induction with
  | nil => exact .nil
  | number w rest hu ih =>
    rw [list_unsigned_append hu]
    have hspells : Kind.number.Spells w := (isLiteral_of_unsigned? hu).1
    exact .word hspells (fun k v hv hpre => length_le_of_unsigned? hu hv hpre) ih
  | space n rest hs ih =>
    rw [list_spaces_append n hs]
    refine .word (spells_spaces n) (fun k v hv hpre => ?_) ih
    simpa using length_le_of_spaces hs hv hpre
  | char c rest hu hc ih =>
    rw [list_char_cons hu hc]
    by_cases hother : Kind.ofChar c = .other
    · rw [hother]
      refine .foreign (fun k v hv hpre => ?_) ih
      obtain ⟨-, hk, hne⟩ := eq_of_spells_char hu hc hv hpre
      exact hne (hk.trans hother)
    · refine .word (w := [c]) (spells_ofChar hother) (fun k v hv hpre => ?_) ih
      simp [(eq_of_spells_char hu hc hv hpre).1]

/-- A character other than a space is a lexeme where no number begins. -/
theorem list_cons_of_no_number {c : Char} {rest : Text} (hc : c ≠ ' ')
    (h : ∀ w, Kind.number.Spells w → ¬ w <+: c :: rest) :
    list (c :: rest) = ⟨.ofChar c, [c]⟩ :: list rest := by
  refine list_char_cons (Option.eq_none_iff_forall_ne_some.2 fun ⟨w, r⟩ hw => ?_) hc
  exact h w (isLiteral_of_unsigned? hw).1 ⟨r, append_of_unsigned? hw⟩

/-- There is no other cut by the longest match. -/
theorem LongestCut.eq_list {t : Text} {ls : List Lexeme} (h : LongestCut t ls) : ls = list t := by
  induction h with
  | nil => rfl
  | @word kind w rest ls hspells hlongest _ ih =>
    rcases hspells.cases with ⟨rfl, hw⟩ | ⟨rfl, n, rfl⟩ | ⟨c, rfl, rfl, hother⟩
    · obtain ⟨more, r, hu⟩ := exists_unsigned? hw rest
      have happend := append_of_unsigned? hu
      have hlen := hlongest .number (w ++ more) (isLiteral_of_unsigned? hu).1 ⟨r, happend⟩
      obtain rfl : more = [] := by simpa using hlen
      obtain rfl : r = rest := by simpa using happend
      rw [List.append_nil] at hu
      rw [list_unsigned_append hu, ih]
    · have hhead : rest.head? ≠ some ' ' := by
        intro hhead
        obtain ⟨u, rfl⟩ := List.head?_eq_some_iff.1 hhead
        have hlen := hlongest .space _ (spells_spaces (n + 1))
          ⟨u, by simp [List.replicate_succ' (n := n + 1)]⟩
        simp at hlen
      rw [list_spaces_append n hhead, ih]
    · have hnumber : ∀ w, Kind.number.Spells w → ¬ w <+: c :: rest := by
        rintro w hw ⟨r, happend⟩
        have hlen := hlongest .number w hw ⟨r, happend⟩
        obtain ⟨v, d, hv, hd, -⟩ := concat_of_literal hw
        obtain rfl : v = [] := by simpa [hv] using hlen
        obtain ⟨rfl, -⟩ : d = c ∧ r = rest := by simpa [hv] using happend
        exact hother (ofChar_of_isDigit hd)
      have hc : c ≠ ' ' := by
        rintro rfl
        exact hother (by decide)
      rw [List.singleton_append, list_cons_of_no_number hc hnumber, ih]
  | @foreign c rest ls hwordless _ ih =>
    have hc : c ≠ ' ' := by
      rintro rfl
      exact hwordless .space [' '] (spells_spaces 0) ⟨rest, rfl⟩
    have hother : Kind.ofChar c = .other := by
      by_contra hother
      exact hwordless _ [c] (spells_ofChar hother) ⟨rest, rfl⟩
    rw [list_cons_of_no_number hc (hwordless .number), ih, hother]

theorem longestCut_iff (t : Text) (ls : List Lexeme) : LongestCut t ls ↔ ls = list t :=
  ⟨LongestCut.eq_list, fun h => h ▸ longestCut_list t⟩

/-- What a lexeme of the text `t` with `front` before it and `behind` after it shows of `t`, read
from the byte it begins at. -/
structure Agrees (t front : Text) (l : Lexeme) (behind : Text) : Prop where
  cut : t = front ++ (l.text ++ behind)
  nonempty : l.text ≠ []
  number : l.isNumber = true ↔ endAt? unsigned? t front.utf8Size ≠ none
  whole : l.isNumber = true →
    endAt? unsigned? t front.utf8Size = some (front.utf8Size + l.text.utf8Size)
  dot : l.kind = .dot ↔ ∃ rest, Text.afterBytes? t front.utf8Size = some ('.' :: rest) ∧
    ∀ d ∈ rest.head?, d.isDigit = false
  space : l.isSpace = true →
    (∀ c ∈ l.text, c = ' ') ∧ front.getLast? ≠ some ' ' ∧ behind.head? ≠ some ' '
  foreign : l.kind = .other ↔
    ∃ c, l.text = [c] ∧ c.isAlpha = false ∧ c.isDigit = false ∧ c ∉ ".+-*/() ".toList

section Places

variable {t : Text} {l m : Lexeme} {before after : List Lexeme}

/-- Behind the lexemes of a beginning stand the lexemes of what follows it. -/
theorem list_flatMap_text (h : list t = before ++ after) :
    list (after.flatMap (·.text)) = after := by
  induction before generalizing t with
  | nil =>
    rw [List.nil_append] at h
    rw [← h, flatMap_text_list]
  | cons l before ih =>
    cases t with
    | nil => cases h
    | cons c t =>
      rw [list_cons, List.cons_append] at h
      exact ih (List.cons.inj h).2

theorem exists_first (h : list t = l :: after) :
    ∃ c u, l.text ++ after.flatMap (·.text) = c :: u ∧ l = first c u := by
  cases t with
  | nil => cases h
  | cons c u =>
    refine ⟨c, u, ?_, ?_⟩
    · rw [← flatMap_text_list (c :: u), h, List.flatMap_cons]
    · rw [list_cons] at h
      exact (List.cons.inj h).1.symm

theorem text_ne_nil (h : list t = l :: after) : l.text ≠ [] := by
  obtain ⟨c, u, -, rfl⟩ := exists_first h
  intro hnil
  have hhead := head_text_first c u
  rw [hnil] at hhead
  cases hhead

theorem unsigned?_of_list (h : list t = l :: after) (hl : l.isNumber = true) :
    unsigned? (l.text ++ after.flatMap (·.text)) = some (l.text, after.flatMap (·.text)) := by
  obtain ⟨c, u, htext, rfl⟩ := exists_first h
  rw [htext]
  cases hu : unsigned? (c :: u) with
  | none =>
    rw [first_isNumber, hu] at hl
    cases hl
  | some found =>
    obtain ⟨w, rest⟩ := found
    have hfirst : (first c u).text = w := by simp [first, hu]
    have happend := append_of_unsigned? hu
    rw [← htext, hfirst, List.append_cancel_left_eq] at happend
    rw [hfirst, happend]

theorem space_of_mem (h : list t = l :: after) (hl : ' ' ∈ l.text) : l.isSpace = true := by
  obtain ⟨c, u, -, rfl⟩ := exists_first h
  rcases first_cases c u with ⟨hu, -, w, he⟩ | ⟨-, -, w, he⟩ | ⟨-, hc, he⟩
  · have hw := unsigned?_of_list h (by rw [first_isNumber, hu])
    exact absurd hl (isWord_of_unsigned (isLiteral_of_unsigned? hw).1).space_not_mem
  · rw [he]
    rfl
  · rw [he, List.mem_singleton] at hl
    exact absurd hl.symm hc

/-- A lexeme of spaces ends where the spaces end. -/
theorem spaces_of_isSpace (h : list t = l :: after) (hl : l.isSpace = true) :
    (∀ c ∈ l.text, c = ' ') ∧ (after.flatMap (·.text)).head? ≠ some ' ' := by
  obtain ⟨c, u, htext, rfl⟩ := exists_first h
  rcases first_cases c u with ⟨-, -, w, he⟩ | ⟨hu, rfl, -⟩ | ⟨-, -, he⟩
  · rw [he] at hl
    cases hl
  · have hfirst : (first ' ' u).text = Text.spaces (' ' :: u) := by simp [first, hu]
    have hbehind : after.flatMap (·.text) = Text.afterSpaces (' ' :: u) := by
      rw [← Text.spaces_append_afterSpaces (' ' :: u), hfirst] at htext
      exact List.append_cancel_left htext
    constructor
    · intro c hc
      rw [hfirst] at hc
      simpa using List.all_eq_true.1 List.all_takeWhile c hc
    · intro hhead
      have hnot := List.head?_dropWhile_not (· == ' ') (' ' :: u)
      rw [hbehind, Text.afterSpaces] at hhead
      rw [hhead] at hnot
      cases hnot
  · rw [he, isSpace_ofChar] at hl
    cases hl

theorem first_kind_eq_dot_iff (c : Char) (u : Text) :
    (first c u).kind = .dot ↔ c = '.' ∧ ∀ d ∈ u.head?, d.isDigit = false := by
  rcases first_cases c u with ⟨hu, -, w, he⟩ | ⟨-, rfl, w, he⟩ | ⟨hu, -, he⟩
  · rw [he]
    refine ⟨fun hk => (by cases hk), fun ⟨hc, hd⟩ => ?_⟩
    rcases (unsigned?_cons_isSome_iff c u).1 hu with hdigit | ⟨-, d, hd', hdigit⟩
    · rw [hc] at hdigit
      cases hdigit
    · rw [hd d hd'] at hdigit
      cases hdigit
  · rw [he]
    simp
  · rw [he]
    refine ⟨fun hk => ?_, fun hc => by rw [hc.1]; rfl⟩
    obtain rfl : c = '.' := (ofChar_inj (d := '.') (by decide) (by decide)).1 hk
    exact ⟨rfl, ((unsigned?_cons_eq_none_iff _ u).1 hu).2 rfl⟩

theorem first_kind_eq_other_iff (c : Char) (u : Text) : (first c u).kind = .other ↔
    ∃ d, (first c u).text = [d] ∧ d.isAlpha = false ∧ d.isDigit = false ∧
      d ∉ ".+-*/() ".toList := by
  have hhead := head_text_first c u
  constructor
  · intro hk
    rcases first_cases c u with ⟨-, -, w, he⟩ | ⟨-, -, w, he⟩ | ⟨hu, hc, he⟩
    · rw [he] at hk
      cases hk
    · rw [he] at hk
      cases hk
    · rw [he] at hk
      refine ⟨c, by rw [he], ?_, ((unsigned?_cons_eq_none_iff c u).1 hu).1, fun hmem => ?_⟩
      · refine Bool.eq_false_iff.2 fun halpha => ?_
        rw [(ofChar_eq_letter_iff c).2 halpha] at hk
        cases hk
      · have hall : (".+-*/() ".toList.all fun d =>
            d == ' ' || Kind.ofChar d != .other) = true := by decide
        have hin := List.all_eq_true.1 hall c hmem
        exact absurd hk (by simpa [hc] using hin)
  · rintro ⟨d, htext, halpha, hdigit, hmem⟩
    obtain rfl : d = c := by
      rw [htext] at hhead
      exact Option.some.inj hhead
    have hne : ∀ a ∈ ".+-*/() ".toList, d ≠ a := fun a ha he => hmem (he ▸ ha)
    have hu : unsigned? (d :: u) = none :=
      unsigned?_of_stops ((stops_cons d u).2 ⟨hdigit, hne '.' (by decide)⟩)
    rw [first_char hu (hne ' ' (by decide))]
    rcases ofChar_cases d with ⟨op, rfl, -⟩ | ⟨hletter, -⟩ | ⟨rfl, -⟩ | ⟨rfl, -⟩ | ⟨rfl, -⟩ |
      ⟨-, hk⟩
    · exact absurd rfl (hne op.symbol (by cases op <;> decide))
    · rw [halpha] at hletter
      cases hletter
    · exact absurd rfl (hne '.' (by decide))
    · exact absurd rfl (hne '(' (by decide))
    · exact absurd rfl (hne ')' (by decide))
    · exact hk

/-- In front of a lexeme of spaces stands no space. -/
theorem getLast_ne_space (h : list t = before ++ l :: after) (hl : l.isSpace = true) :
    (before.flatMap (·.text)).getLast? ≠ some ' ' := by
  rcases List.eq_nil_or_concat before with rfl | ⟨start, m, rfl⟩
  · simp
  · rw [List.concat_eq_append, List.append_assoc, List.singleton_append] at h
    have hm := list_flatMap_text h
    intro hlast
    rw [List.concat_eq_append, List.flatMap_append, List.flatMap_singleton,
      List.getLast?_append_of_ne_nil _ (text_ne_nil hm)] at hlast
    obtain ⟨-, hbehind⟩ := spaces_of_isSpace hm (space_of_mem hm (List.mem_of_getLast? hlast))
    rw [List.append_cons] at h
    have hsecond := list_flatMap_text h
    obtain ⟨d, w, hw⟩ := List.exists_cons_of_ne_nil (text_ne_nil hsecond)
    obtain rfl : d = ' ' := (spaces_of_isSpace hsecond hl).1 d (by simp [hw])
    exact hbehind (by simp [hw])

theorem agrees_of_list (h : list t = before ++ l :: after) :
    Agrees t (before.flatMap (·.text)) l (after.flatMap (·.text)) := by
  have hl := list_flatMap_text h
  obtain ⟨c, u, htext, hfirst⟩ := exists_first hl
  have hcut : t = before.flatMap (·.text) ++ (l.text ++ after.flatMap (·.text)) := by
    rw [← flatMap_text_list t, h, List.flatMap_append, List.flatMap_cons]
  refine ⟨hcut, text_ne_nil hl, ?_, ?_, ?_, ?_, ?_⟩
  · rw [hcut, endAt?_append, htext, hfirst, first_isNumber]
    cases unsigned? (c :: u) <;> simp
  · intro hnumber
    rw [hcut, endAt?_append, unsigned?_of_list hl hnumber]
    rfl
  · rw [hcut, Text.afterBytes?_append, htext, hfirst, first_kind_eq_dot_iff]
    simp
  · intro hspace
    obtain ⟨hall, hbehind⟩ := spaces_of_isSpace hl hspace
    exact ⟨hall, getLast_ne_space h hspace, hbehind⟩
  · rw [hfirst]
    exact first_kind_eq_other_iff c u

/-- Two literals meet only where the first has a fraction and the second is one. -/
theorem points_of_adjacent (h : list t = before ++ l :: m :: after) (hl : l.isNumber = true)
    (hm : m.isNumber = true) : '.' ∈ l.text ∧ m.text.head? = some '.' := by
  have hfirst := unsigned?_of_list (list_flatMap_text h) hl
  rw [List.flatMap_cons] at hfirst
  rw [List.append_cons] at h
  have hsecond := unsigned?_of_list (list_flatMap_text h) hm
  obtain ⟨hw, hdigit⟩ := isLiteral_of_unsigned? hfirst
  have hfraction : IsFraction m.text := by
    rcases (isLiteral_of_unsigned? hsecond).1 with hd | hf
    · obtain ⟨c, r, hr, hc⟩ := hd.head
      rw [hdigit c (by simp [hr])] at hc
      cases hc
    · exact hf
  constructor
  · rcases hw with (hw | ⟨ds, f, -, ⟨fs, -, rfl⟩, hw⟩) | ⟨fs, -, hw⟩
    · obtain ⟨more, rest, hread⟩ := exists_fraction? hfraction (after.flatMap (·.text))
      rw [fraction?_eq_none_of_digits hw hfirst] at hread
      cases hread
    · simp [hw]
    · simp [hw]
  · obtain ⟨fs, -, hm⟩ := hfraction
    simp [hm]

end Places

/-- The lexer and the reader of literals see the same literals. -/
theorem list_agrees (t : Text) :
    (∀ ls, LongestCut t ls ↔ ls = list t) ∧
    (list t).flatMap (·.text) = t ∧
    (∀ before l after, list t = before ++ l :: after →
      Agrees t (before.flatMap (·.text)) l (after.flatMap (·.text))) ∧
    ∀ before l m after, list t = before ++ l :: m :: after → l.isNumber = true →
      m.isNumber = true → '.' ∈ l.text ∧ m.text.head? = some '.' :=
  ⟨longestCut_iff t, flatMap_text_list t, fun _ _ _ => agrees_of_list,
    fun _ _ _ _ => points_of_adjacent⟩

example : list "1.5.5".toList = [⟨.number, "1.5".toList⟩, ⟨.number, ".5".toList⟩] := by decide

end Lexeme

end Reckoner
