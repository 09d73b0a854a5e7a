import Reckoner.Proofs.BareFractions
import Reckoner.Proofs.Outcomes
import Reckoner.Proofs.Replacement

/-!
# Where literals come from

Evaluation makes no literal but those it writes for values: each literal of a text under evaluation
has been typed, or is the text of some value without its sign. A round keeps it so on a row, closing
the groups keeps it so where operands are separated, and replacing the variables brings in values
only.
-/

namespace Reckoner

open Literal
open Operator (Level)

def numbers (t : Text) : List Text := ((Lexeme.list t).filter (·.isNumber)).map (·.text)

def AllNumbers (p : Text → Prop) (t : Text) : Prop := ∀ w ∈ numbers t, p w

section Numbers

variable {c : Char} {s t w rest : Text}

@[simp] theorem numbers_nil : numbers [] = [] := rfl

theorem numbers_unsigned_append (h : unsigned? (w ++ rest) = some (w, rest)) :
    numbers (w ++ rest) = w :: numbers rest := by
  rw [numbers, Lexeme.list_unsigned_append h, List.filter_cons_of_pos (by rfl), List.map_cons,
    numbers]

theorem numbers_single (h : unsigned? (c :: rest) = none) (hc : c ≠ ' ') :
    numbers (c :: rest) = numbers rest := by
  rw [numbers, Lexeme.list_char_cons h hc,
    List.filter_cons_of_neg (by rw [Lexeme.isNumber_ofChar]; decide), numbers]

theorem numbers_spaces_append (n : Nat) (t : Text) :
    numbers (List.replicate n ' ' ++ t) = numbers t := by
  have hskip : ∀ u, numbers (Text.afterSpaces u) = numbers u := by
    intro u
    rw [numbers, ← Lexeme.dropWhile_isSpace_list, numbers]
    congr 1
    induction Lexeme.list u with
    | nil => rfl
    | cons l ls ih =>
      by_cases hl : l.isSpace = true
      · have hnumber : l.isNumber = false := by
          rw [Lexeme.isSpace, beq_iff_eq] at hl
          rw [Lexeme.isNumber, hl]
          rfl
        rw [List.dropWhile_cons_of_pos hl, ih, List.filter_cons_of_neg (by simp [hnumber])]
      · rw [List.dropWhile_cons_of_neg hl]
  rw [← hskip, Text.afterSpaces, List.dropWhile_append_of_pos (by simp), ← Text.afterSpaces, hskip]

theorem isLiteral_of_mem_numbers (h : w ∈ numbers t) : IsDecimal w ∨ IsFraction w := by
  induction t using Lexeme.list_induction with
  | nil => cases h
  | number v rest hu ih =>
    rw [numbers_unsigned_append hu] at h
    rcases List.mem_cons.1 h with rfl | h
    · exact (isLiteral_of_unsigned? hu).1
    · exact ih h
  | space n rest _ ih =>
    rw [numbers_spaces_append] at h
    exact ih h
  | char c rest hu hc ih =>
    rw [numbers_single hu hc] at h
    exact ih h

/-- What no literal begins or goes on with adds no literal. -/
theorem numbers_cons (h : isLiteralChar c = false) : numbers (c :: t) = numbers t := by
  by_cases hc : c = ' '
  · rw [hc]
    exact numbers_spaces_append 1 t
  · obtain ⟨hdigit, hpoint⟩ : c.isDigit = false ∧ c ≠ '.' := by simpa [isLiteralChar] using h
    exact numbers_single (unsigned?_of_stops ((stops_cons c t).2 ⟨hdigit, hpoint⟩)) hc

theorem numbers_plain_append (h : ∀ c ∈ s, isLiteralChar c = false) :
    numbers (s ++ t) = numbers t := by
  induction s with
  | nil => rfl
  | cons c s ih =>
    rw [List.cons_append, numbers_cons (h c (by simp)), ih fun a ha => h a (by simp [ha])]

theorem numbers_plain (h : ∀ c ∈ s, isLiteralChar c = false) : numbers s = [] := by
  have happ := @numbers_plain_append s [] h
  rwa [List.append_nil] at happ

/-- In front of what no literal goes on with, no fraction comes about. -/
theorem fraction?_append_of_stops (hs : fraction? s = none) (ht : Stops t) :
    fraction? (s ++ t) = none := by
  by_cases hpoint : s.head? = some '.'
  · obtain ⟨u, rfl⟩ := List.head?_eq_some_iff.1 hpoint
    have hu : digits u = [] := by simpa [fraction?] using hs
    have hhead : ∀ c ∈ (u ++ t).head?, c.isDigit = false := by
      have hrest := afterDigits_head u
      rw [← List.nil_append (afterDigits u), ← hu, digits_append_afterDigits] at hrest
      cases u with
      | nil => exact ht.digit
      | cons d u => exact hrest
    simp [fraction?, (digits_of_stops hhead).1]
  · cases s with
    | nil => exact fraction?_of_not_point fun h => (ht '.' h).2 rfl
    | cons c s => exact fraction?_of_not_point hpoint

/-- The literals in front of what no literal goes on with stay what they are. -/
theorem numbers_append (s : Text) (ht : Stops t) :
    numbers (s ++ t) = numbers s ++ numbers t := by
  induction s using Lexeme.list_induction with
  | nil => rfl
  | number w rest hu ih =>
    have hhead : ∀ c ∈ (rest ++ t).head?, c.isDigit = false := by
      cases rest with
      | nil => exact ht.digit
      | cons c rest => exact (isLiteral_of_unsigned? hu).2
    -- The literal does not grow: what follows brings about neither a digit nor a fraction.
    have hsame := unsigned?_append_congr hu hhead fun hf => fraction?_append_of_stops hf ht
    rw [List.append_assoc, numbers_unsigned_append hsame, numbers_unsigned_append hu, ih,
      List.cons_append]
  | space n rest _ ih =>
    rw [List.append_assoc, numbers_spaces_append, numbers_spaces_append, ih]
  | char c rest hu hc ih =>
    have hdigit := ((unsigned?_cons_eq_none_iff c rest).1 hu).1
    have hsame : unsigned? (c :: (rest ++ t)) = none := by
      rw [unsigned?_cons_of_not_digit hdigit] at hu ⊢
      exact fraction?_append_of_stops hu ht
    rw [List.cons_append, numbers_single hsame hc, numbers_single hu hc, ih]

@[simp] theorem numbers_symbol_cons (op : Operator) (t : Text) :
    numbers (op.symbol :: t) = numbers t :=
  numbers_cons (by cases op <;> decide)

theorem numbers_literal (hw : IsDecimal w ∨ IsFraction w) : numbers w = [w] := by
  rw [numbers, Lexeme.list_literal hw]
  rfl

theorem numbers_minus_literal (hw : IsDecimal w ∨ IsFraction w) : numbers ('-' :: w) = [w] :=
  (numbers_symbol_cons .minus w).trans (numbers_literal hw)

/-- Trimming takes no literal away. -/
theorem numbers_trim (t : Text) : numbers (Text.trim t) = numbers t := by
  have hplain : ∀ c, Text.isBlank c = true → isLiteralChar c = false := by
    intro c hc
    rw [Bool.eq_false_iff]
    intro hliteral
    have hword : isWordChar c = true := Bool.or_eq_true_iff.2 (.inl hliteral)
    rw [isBlank_of_isWordChar hword] at hc
    cases hc
  have hstart : ∀ u, numbers (Text.trimStart u) = numbers u := by
    intro u
    have hfront := numbers_plain_append (t := Text.trimStart u) fun c hc =>
      hplain c (List.all_eq_true.1 (@List.all_takeWhile Char Text.isBlank u) c hc)
    rw [Text.trimStart, List.takeWhile_append_dropWhile] at hfront
    exact hfront.symm
  have hend : ∀ u, numbers (Text.trimEnd u) = numbers u := by
    intro u
    have hblank : ∀ c ∈ (u.reverse.takeWhile Text.isBlank).reverse, isLiteralChar c = false :=
      fun c hc => hplain c (List.all_eq_true.1
        (@List.all_takeWhile Char Text.isBlank u.reverse) c (List.mem_reverse.1 hc))
    have hsplit : Text.trimEnd u ++ (u.reverse.takeWhile Text.isBlank).reverse = u := by
      rw [Text.trimEnd, ← List.reverse_append, List.takeWhile_append_dropWhile,
        List.reverse_reverse]
    have hstops : Stops (u.reverse.takeWhile Text.isBlank).reverse := fun c hc => by
      simpa [isLiteralChar] using hblank c (List.mem_of_mem_head? hc)
    rw [← hsplit, numbers_append _ hstops, numbers_plain hblank, List.append_nil, hsplit]
  rw [Text.trim, hend, hstart]

end Numbers

variable {p : Text → Prop} {level : Level} {t u r : Text}

namespace Row

/-- The literals of a row's text are those of its words. -/
theorem numbers_text {afterWord : Bool} {row : Row} (h : Valid afterWord row) (trailing : Nat) :
    numbers (text trailing row) = row.flatMap fun item => numbers item.mark.text := by
  induction row generalizing afterWord with
  | nil => simpa using numbers_spaces_append trailing []
  | cons item row ih =>
    obtain ⟨gap, mark⟩ := item
    rw [text_cons, numbers_spaces_append, List.flatMap_cons, ← ih h.2.2]
    cases mark with
    | operator op =>
      rw [Mark.text_operator, List.singleton_append, numbers_symbol_cons, numbers_symbol_cons,
        numbers_nil, List.nil_append]
    | word w => exact numbers_append w (stops_text trailing h.2.2)

theorem numbers_signedItems (gap : Nat) (t : Text) :
    ((signedItems gap t).flatMap fun item => numbers item.mark.text) = numbers t := by
  unfold signedItems
  split
  · next w =>
    rw [List.flatMap_cons, List.flatMap_singleton, Mark.text_operator, Mark.text_word,
      numbers_symbol_cons, numbers_nil, List.nil_append]
    exact (numbers_symbol_cons .minus w).symm
  · rw [List.flatMap_singleton, Mark.text_word]

/-- The literals of a contracted row are literals of the row or of the value. -/
theorem allNumbers_replace {row : Row} {s : Site} {v : Float} (trailing : Nat)
    (hv : Valid false row) (hs : site? level true row = some s) (hp : AllNumbers p (render v))
    (h : AllNumbers p (text trailing row)) : AllNumbers p (text trailing (s.replace v)) := by
  have hvalid := hv.replace (by simp) hs v
  obtain ⟨rfl, -⟩ := site?_spec hv (by simp) hs
  intro w hw
  rw [numbers_text hvalid, Site.replace, List.flatMap_append, List.flatMap_append,
    numbers_signedItems] at hw
  have hrow : ∀ w ∈ s.row.flatMap fun item => numbers item.mark.text, p w := by
    rw [← numbers_text hv trailing]
    exact h
  simp only [Site.row, List.flatMap_append, List.flatMap_cons, List.mem_append] at hw hrow
  rcases hw with hw | hw | hw
  · exact hrow w (.inl hw)
  · exact hp w hw
  · exact hrow w (.inr (.inr (.inr (.inr hw))))

end Row

/-- The second half of a round brings no literal about. -/
theorem AllNumbers.settle {contracted : Bool} {outcome : Round} (h : AllNumbers p t)
    (hs : settle level contracted t = .ok outcome) : AllNumbers p outcome.text := by
  rcases text_of_settle hs with he | hw
  · exact he ▸ h
  · obtain ⟨-, n, he⟩ := doubleNegated?_eq_some_iff.1 hw
    have hminus := numbers_symbol_cons .minus
    rw [AllNumbers, he, show '-' = Operator.minus.symbol from rfl, hminus, numbers_spaces_append,
      hminus] at h
    exact h

section Values

variable (hp : ∀ v, AllNumbers p (render v))
include hp

/-- A round on a row brings no literals about but those of values. -/
theorem AllNumbers.round {outcome : Round} (ht : IsRow t) (h : AllNumbers p t)
    (hr : round level t = .ok outcome) : AllNumbers p outcome.text := by
  obtain ⟨trailing, row, hv, rfl⟩ := ht
  obtain ⟨contracted, next, -, hs, rfl | ⟨s, v, hsite, rfl⟩⟩ := Row.round_text_eq_ok trailing hv hr
  · exact h.settle hs
  · exact (Row.allNumbers_replace trailing hv hsite (hp v) h).settle hs

theorem AllNumbers.reduce (ht : IsRow t) (h : AllNumbers p t) (hr : reduce level t = .ok r) :
    AllNumbers p r :=
  (@reduce_invariant level (fun t => IsRow t ∧ AllNumbers p t)
    (fun ht hr => ⟨isRow_of_round ht.1 hr, ht.2.round hp ht.1 hr⟩) t r ⟨ht, h⟩ hr).2

theorem AllNumbers.evaluateFlat (ht : IsRow t) (h : AllNumbers p t)
    (hr : evaluateFlat t = .ok r) : AllNumbers p r := by
  obtain ⟨s, d, hs, hd, rfl, -⟩ := evaluateFlat_eq_ok hr
  rw [AllNumbers, numbers_trim]
  exact (h.reduce hp ht hs).reduce hp (isRow_of_reduce ht hs).1 hd

/-- Closing the groups brings no literals about but those of values. -/
theorem Separated.allNumbers_closeAll {afterOperand : Bool} (ht : Separated afterOperand t)
    (h : AllNumbers p t) (hu : Group.closeAll t = .ok u) : AllNumbers p u := by
  induction ht generalizing u with
  | nil =>
    obtain rfl : [] = u := by simpa using hu
    exact h
  | space _ ih =>
    obtain ⟨v, hv, rfl⟩ := Group.closeAll_cons_eq_ok_of_ne (by decide) hu
    rw [AllNumbers, numbers_cons (by decide)] at h ⊢
    exact ih h hv
  | operator op _ ih =>
    obtain ⟨v, hv, rfl⟩ := Group.closeAll_cons_eq_ok_of_ne (by cases op <;> decide) hu
    rw [AllNumbers, numbers_symbol_cons] at h ⊢
    exact ih h hv
  | closing _ ih =>
    obtain ⟨v, hv, rfl⟩ := Group.closeAll_cons_eq_ok_of_ne (by decide) hu
    rw [AllNumbers, numbers_cons (by decide)] at h ⊢
    exact ih h hv
  | word fits rest ih =>
    obtain ⟨v, hv, rfl⟩ := Group.closeAll_append_eq_ok (paren_not_mem_word fits).1 hu
    rw [AllNumbers, numbers_append _ rest.stops, List.forall_mem_append] at h
    rw [AllNumbers, numbers_append _ (rest.closeAll.1 v hv).stops, List.forall_mem_append]
    exact ⟨h.1, ih h.2 hv⟩
  | opening rest ih =>
    obtain ⟨v, hv, hext⟩ := Group.closeAll_cons_eq_ok hu
    obtain ⟨inner, after, value, rfl, hinner, hvalue, rfl⟩ := Group.extend_opening_eq_ok hext
    -- The group's value stands where the group stood, in front of what no literal goes on with.
    have hstops := ((rest.closeAll.1 _ hv).split rfl hinner).2.stops
    rw [AllNumbers, numbers_cons (by decide)] at h
    have hboth := ih h hv
    rw [AllNumbers, numbers_append _ ((stops_cons _ _).2 (by decide)), numbers_cons (by decide),
      List.forall_mem_append] at hboth
    rw [AllNumbers, numbers_append _ hstops, List.forall_mem_append]
    have hrow : IsRow inner := isRow_of_closeAll rest hv hinner
    exact ⟨AllNumbers.evaluateFlat hp hrow hboth.1 hvalue, hboth.2⟩

theorem AllNumbers.resolveGroups (ht : Separated false t) (h : AllNumbers p t)
    (hu : resolveGroups t = .ok u) : AllNumbers p u :=
  ht.allNumbers_closeAll hp h (resolveGroups_eq_ok_iff.1 hu).1

end Values

namespace Store

variable {store : Store} {account : Account} {w : Text}

/-- A literal of a text whose variables are replaced is one of the text or of a value. -/
theorem Sound.numbers_substitute (hs : Sound store)
    (ht : Check.variableNames.fails (Lexeme.list t) = false)
    (hw : w ∈ numbers (store.substitute account t)) :
    w ∈ numbers t ∨ ∃ v, w ∈ numbers (render v) := by
  rw [numbers, hs.list_substitute account ht] at hw
  obtain ⟨l, hl, rfl⟩ := List.mem_map.1 hw
  obtain ⟨hmem, hnumber⟩ := List.mem_filter.1 hl
  obtain ⟨a, ha, hvalue⟩ := List.mem_flatMap.1 hmem
  rcases Lexeme.letter_or_of_mem_list ha with ⟨c, hc, rfl⟩ | ⟨hkind, -⟩
  · rw [valueLexemes, if_pos rfl, hs.substitute, List.flatMap_singleton, rendering] at hvalue
    cases hv : store.get? account c with
    | none =>
      obtain rfl : l = ⟨.letter, [c]⟩ := by
        simpa [hv, Lexeme.list_letter_cons hc] using hvalue
      cases hnumber
    | some v =>
      rw [hv] at hvalue
      exact .inr ⟨v, List.mem_map.2 ⟨l, List.mem_filter.2 ⟨hvalue, hnumber⟩, rfl⟩⟩
  · rw [valueLexemes, if_neg hkind, List.mem_singleton] at hvalue
    exact .inl (List.mem_map.2 ⟨l, List.mem_filter.2 ⟨hvalue ▸ ha, hnumber⟩, rfl⟩)

/-- A literal that an expression is answered with has been typed in it or is written for a value. -/
theorem Sound.numbers_evaluate (hs : Sound store) (h : store.evaluate account t = .ok r) :
    ∀ w ∈ numbers r, w ∈ numbers t ∨ ∃ v, w ∈ numbers (render v) := by
  have hnames := (Check.runAll_eq_ok_iff _ _).1 (typed_of_evaluate h) Check.variableNames
    (by simp [Check.typed])
  have hvalues : ∀ v, AllNumbers (fun w => w ∈ numbers t ∨ ∃ v, w ∈ numbers (render v))
      (render v) := fun v w hw => .inr ⟨v, hw⟩
  obtain ⟨hclosed, flat, hflat, hr⟩ := exists_flat_of_evaluate h
  have hseparated := Check.separated_of_closed hclosed
  have hresolved := AllNumbers.resolveGroups hvalues hseparated
    (fun _ => hs.numbers_substitute hnames) hflat
  exact hresolved.evaluateFlat hvalues (hseparated.resolveGroups.1 flat hflat) hr

end Store

end Reckoner
