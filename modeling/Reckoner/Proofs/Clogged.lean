import Reckoner.Proofs.Endings
import Reckoner.Proofs.Separation

/-!
# Operators that lack an operand

An operator is clogged where nothing behind it can be its right operand: the text or its group ends
there, or another operator stands there that is no sign. No contraction helps it to an operand, and
closing a group does not either, so a text with such an operator has no value.
-/

namespace Reckoner

open Literal
open Operator (Level)

namespace Row

variable {level : Level} {row : Row}

/-- Nothing that the row begins with can be a right operand; a minus sign can only if something is
attached to it. -/
def Blocks : Row → Prop
  | [] => True
  | ⟨_, .word _⟩ :: _ => False
  | ⟨_, .operator op⟩ :: row => op ≠ .minus ∨ ∀ gap ∈ headGap row, gap ≠ 0

/-- Some operator has nothing behind it that could be its right operand. -/
def Clogged : Row → Prop
  | [] => False
  | ⟨_, .word _⟩ :: row => Clogged row
  | ⟨_, .operator _⟩ :: row => Blocks row ∨ Clogged row

def Headless : Row → Prop
  | ⟨_, .operator op⟩ :: _ => op ≠ .minus
  | _ => False

theorem not_blocks_signedItems {t : Text} (h : IsSigned IsWord t) (gap : Nat) (next : Row) :
    ¬ Blocks (signedItems gap t ++ next) := by
  rcases h with h | ⟨w, rfl, -⟩
  · simp [signedItems_word h, Blocks]
  · simp [signedItems_minus, Blocks]

theorem clogged_signedItems_append {t : Text} (h : IsSigned IsWord t) (gap : Nat) (next : Row) :
    Clogged (signedItems gap t ++ next) ↔ Clogged next := by
  rcases h with h | ⟨w, rfl, -⟩
  · simp [signedItems_word h, Clogged]
  · simp [signedItems_minus, Clogged, Blocks]

/-- Which operand stands behind a row and what follows it does not matter to what the row blocks. -/
theorem Blocks.of_append {before next other : Row} {s t : Text} {gap : Nat}
    (hs : IsSigned IsWord s) (h : Blocks (before ++ (signedItems gap s ++ next))) :
    Blocks (before ++ (signedItems gap t ++ other)) := by
  match before with
  | [] => exact absurd h (not_blocks_signedItems hs gap next)
  | ⟨_, .word _⟩ :: _ => exact h
  | [⟨_, .operator op⟩] => simpa [Blocks] using h
  | ⟨_, .operator op⟩ :: item :: before => exact h

theorem Clogged.of_append {before next other : Row} {s t : Text} {gap : Nat}
    (hs : IsSigned IsWord s) (ht : IsSigned IsWord t) (hn : Clogged next → Clogged other)
    (h : Clogged (before ++ (signedItems gap s ++ next))) :
    Clogged (before ++ (signedItems gap t ++ other)) := by
  induction before with
  | nil =>
    exact (clogged_signedItems_append ht gap other).2
      (hn ((clogged_signedItems_append hs gap next).1 h))
  | cons item before ih =>
    obtain ⟨width, mark⟩ := item
    cases mark with
    | word w => exact ih h
    | operator op => exact h.imp (Blocks.of_append hs) ih

theorem dooms_clogged : Dooms Clogged where
  replace level row s v hv hc hs := by
    obtain ⟨rfl, -, hx, hy, -⟩ := site?_spec hv (by simp) hs
    refine Clogged.of_append (isWord_of_isOperand hx) (isSigned_render v) ?_ hc
    rintro (hblocks | hafter)
    · exact absurd hblocks (not_blocks_signedItems (isWord_of_isOperand hy) _ _)
    · exact (clogged_signedItems_append (isWord_of_isOperand hy) _ _).1 hafter
  not_done row hc hdone := by
    cases hdone <;> simp [Clogged, Blocks] at hc
  not_doubled gap w hc := by
    simp [Clogged, Blocks] at hc

theorem dooms_headless : Dooms Headless where
  replace level row s v hv hc hs := by
    obtain ⟨rfl, -, hx, -, -⟩ := site?_spec hv (by simp) hs
    obtain ⟨before, left, gap, op, right, after⟩ := s
    cases before with
    | nil =>
      rcases isWord_of_isOperand hx with hw | ⟨w, he, -⟩
      · simp only at hw
        simp [Site.row, signedItems_word hw, Headless] at hc
      · simp only at he
        simp [Site.row, he, signedItems_minus, Headless] at hc
    | cons item before =>
      obtain ⟨width, mark⟩ := item
      cases mark with
      | word w => exact hc
      | operator op => exact hc
  not_done row hc hdone := by
    cases hdone <;> simp [Headless] at hc
  not_doubled gap w hc := by
    simp [Headless] at hc

end Row

namespace Text

/-- Nothing that the text begins with, spaces aside, can be a right operand: the text or its group
ends, or an operator stands there that is no minus sign with something attached to it. -/
def Blocks (t : Text) : Prop :=
  match afterSpaces t with
  | [] => True
  | c :: r => c = ')' ∨ isOperatorChar c = true ∧ (c = '-' → ∀ d ∈ r.head?, d = ' ')

def Clogged : Text → Prop
  | [] => False
  | c :: t => isOperatorChar c = true ∧ Blocks t ∨ Clogged t

theorem blocks_spaces_append (n : Nat) (t : Text) :
    Blocks (List.replicate n ' ' ++ t) ↔ Blocks t := by
  have hspaces : afterSpaces (List.replicate n ' ' ++ t) = afterSpaces t :=
    List.dropWhile_append_of_pos (by simp)
  simp only [Blocks, hspaces]

theorem clogged_append_of_not_operator {s : Text} (h : ∀ c ∈ s, isOperatorChar c = false)
    (t : Text) : Clogged (s ++ t) ↔ Clogged t := by
  induction s with
  | nil => rfl
  | cons c s ih => simp [Clogged, h c (by simp), ih fun a ha => h a (by simp [ha])]

theorem Clogged.append {t : Text} (h : Clogged t) (s : Text) : Clogged (s ++ t) := by
  induction s with
  | nil => exact h
  | cons c s ih => exact .inr ih

/-- A text is spaces and what does not begin with one. -/
theorem exists_spaces_append (t : Text) :
    ∃ n u, t = List.replicate n ' ' ++ u ∧ u.head? ≠ some ' ' := by
  obtain ⟨n, hn⟩ := exists_spaces t
  refine ⟨n, afterSpaces t, by rw [← hn, spaces_append_afterSpaces], fun he => ?_⟩
  have := List.head?_dropWhile_not (· == ' ') t
  rw [afterSpaces] at he
  simp [he] at this

theorem blocks_cons_iff {c : Char} (h : c ≠ ' ') (t : Text) :
    Blocks (c :: t) ↔ c = ')' ∨ isOperatorChar c = true ∧ (c = '-' → ∀ d ∈ t.head?, d = ' ') := by
  have hkeep : afterSpaces (c :: t) = c :: t := by simp [afterSpaces, h]
  simp only [Blocks, hkeep]

/-- In front of a closing parenthesis nothing is blocked by what stands behind it. -/
theorem Blocks.of_closing {inner rest : Text} (hc : ')' ∉ inner)
    (h : Blocks (inner ++ ')' :: rest)) : Blocks inner := by
  obtain ⟨n, u, rfl, hu⟩ := exists_spaces_append inner
  rw [List.append_assoc, blocks_spaces_append] at h
  rw [blocks_spaces_append]
  match u, hu with
  | [], _ => exact trivial
  | c :: r, hu =>
    have hspace : c ≠ ' ' := by simpa using hu
    rw [List.cons_append, blocks_cons_iff hspace] at h
    rw [blocks_cons_iff hspace]
    refine h.imp id fun ⟨hop, hminus⟩ => ⟨hop, fun he d hd => hminus he d ?_⟩
    cases r with
    | nil => simp at hd
    | cons a r => exact hd

theorem Clogged.of_closing {inner rest : Text} (hc : ')' ∉ inner)
    (h : Clogged (inner ++ ')' :: rest)) : Clogged inner ∨ Clogged rest := by
  induction inner with
  | nil =>
    rcases h with ⟨hop, -⟩ | h
    · exact absurd hop (by decide)
    · exact .inr h
  | cons c inner ih =>
    have hc' : ')' ∉ inner := fun hm => hc (List.mem_cons_of_mem c hm)
    rcases h with ⟨hop, hblocks⟩ | h
    · exact .inl (.inl ⟨hop, hblocks.of_closing hc'⟩)
    · exact (ih hc' h).imp .inr id

end Text

namespace Row

variable {afterWord : Bool} {row : Row}

theorem blocks_text_iff (trailing : Nat) (hv : Valid afterWord row) :
    Text.Blocks (text trailing row) ↔ Blocks row := by
  match row, hv with
  | [], _ =>
    have := Text.blocks_spaces_append trailing []
    rw [List.append_nil] at this
    rw [text_nil, this, Blocks, Text.Blocks, Text.afterSpaces, List.dropWhile_nil]
  | ⟨gap, .word w⟩ :: row, hv =>
    have hw := ((valid_word_cons _ _ _ _).1 hv).2.1
    have hafter := (spaces_text trailing gap ((Mark.fits_word _).2 hw) row).2
    obtain ⟨c, r, rfl, -, hc⟩ := hw.head
    have hparen : c ≠ ')' := by
      rintro rfl
      exact absurd (hw.all_isWordChar ')' (by simp)) (by decide)
    simp only [Mark.text_word, List.cons_append] at hafter
    simp only [Text.Blocks, hafter, hc, hparen, Blocks, Bool.false_eq_true, false_and, or_self]
  | ⟨gap, .operator op⟩ :: row, hv =>
    have hafter := (spaces_text trailing gap (Mark.fits_operator op) row).2
    have hparen : op.symbol ≠ ')' := by cases op <;> decide
    have hminus : op.symbol = '-' ↔ op = .minus := by cases op <;> decide
    have hhead : (∀ d ∈ (text trailing row).head?, d = ' ') ↔ ∀ gap ∈ headGap row, gap ≠ 0 := by
      match row, (valid_operator_cons _ _ _ _).1 hv with
      | [], _ => cases trailing <;> simp [List.replicate_succ]
      | ⟨gap + 1, mark⟩ :: row, _ => simp [List.replicate_succ]
      | ⟨0, .operator op⟩ :: row, _ => cases op <;> simp [Operator.symbol]
      | ⟨0, .word w⟩ :: row, hv =>
        obtain ⟨c, r, rfl, hc, -⟩ := ((valid_word_cons _ _ _ _).1 hv).2.1.head
        simpa using hc
    simp only [Mark.text_operator, List.singleton_append] at hafter
    simp only [Text.Blocks, hafter, hparen, isOperatorChar_symbol, true_and, false_or, hminus,
      hhead, Blocks]
    exact Decidable.imp_iff_not_or

theorem clogged_text_iff (trailing : Nat) (hv : Valid afterWord row) :
    Text.Clogged (text trailing row) ↔ Clogged row := by
  induction row generalizing afterWord with
  | nil =>
    have := Text.clogged_append_of_not_operator (not_operator_spaces trailing) []
    rw [List.append_nil] at this
    rw [text_nil, this, Clogged, Text.Clogged]
  | cons item row ih =>
    obtain ⟨gap, mark⟩ := item
    rw [text_cons, Text.clogged_append_of_not_operator (not_operator_spaces gap)]
    cases mark with
    | word w =>
      obtain ⟨-, hw, hrow⟩ := (valid_word_cons _ _ _ _).1 hv
      rw [Mark.text_word, Text.clogged_append_of_not_operator hw.not_operator, ih hrow, Clogged]
    | operator op =>
      have hrow := (valid_operator_cons _ _ _ _).1 hv
      simp only [Mark.text_operator, List.singleton_append, Text.Clogged, isOperatorChar_symbol,
        true_and, blocks_text_iff trailing hrow, ih hrow, Clogged]

end Row

theorem evaluateFlat_clogged {t : Text} (ht : IsRow t) (h : Text.Clogged t) :
    ∃ fault, evaluateFlat t = .error fault := by
  obtain ⟨trailing, row, hv, rfl⟩ := ht
  exact Row.dooms_clogged.evaluateFlat trailing hv ((Row.clogged_text_iff trailing hv).1 h)

open Reckoner.Group

/-- What blocks a text blocks it with its groups closed. -/
theorem Text.Blocks.closeAll {t u : Text} (hb : Blocks t) (h : closeAll t = .ok u) : Blocks u := by
  obtain ⟨n, s, rfl, hs⟩ := exists_spaces_append t
  have hspaces : '(' ∉ List.replicate n ' ' := by simp
  obtain ⟨v, hv, rfl⟩ := closeAll_append_eq_ok hspaces h
  rw [blocks_spaces_append] at hb ⊢
  match s, hs with
  | [], _ =>
    obtain rfl : [] = v := by simpa using hv
    exact hb
  | c :: r, hs =>
    have hspace : c ≠ ' ' := by simpa using hs
    rw [blocks_cons_iff hspace] at hb
    have hopening : c ≠ '(' := by
      rintro rfl
      rcases hb with hb | hb
      · exact absurd hb (by decide)
      · exact absurd hb.1 (by decide)
    obtain ⟨w, hw, rfl⟩ := closeAll_cons_eq_ok_of_ne hopening hv
    rw [blocks_cons_iff hspace]
    refine hb.imp id fun ⟨hop, hminus⟩ => ⟨hop, fun he d hd => ?_⟩
    match r with
    | [] =>
      obtain rfl : [] = w := by simpa using hw
      simp at hd
    | a :: r =>
      obtain rfl : a = ' ' := hminus he a (by simp)
      obtain ⟨x, -, rfl⟩ := closeAll_cons_eq_ok_of_ne (by decide) hw
      simpa using hd.symm

namespace Separated

/-- Closing its groups does not unclog a text. -/
theorem closeAll_clogged {afterOperand : Bool} {t u : Text} (h : Separated afterOperand t)
    (hc : Text.Clogged t) (hu : Group.closeAll t = .ok u) : Text.Clogged u := by
  induction h generalizing u with
  | nil => cases hc
  | space _ ih =>
    obtain ⟨v, hv, rfl⟩ := closeAll_cons_eq_ok_of_ne (by decide) hu
    exact hc.imp (fun h => absurd h.1 (by decide)) fun h => ih h hv
  | operator op _ ih =>
    obtain ⟨v, hv, rfl⟩ := closeAll_cons_eq_ok_of_ne (by cases op <;> decide) hu
    exact hc.imp (fun h => ⟨h.1, h.2.closeAll hv⟩) fun h => ih h hv
  | @word w t hw _ ih =>
    obtain ⟨v, hv, rfl⟩ := closeAll_append_eq_ok (paren_not_mem_word hw).1 hu
    exact (ih ((Text.clogged_append_of_not_operator hw.not_operator t).1 hc) hv).append w
  | closing _ ih =>
    obtain ⟨v, hv, rfl⟩ := closeAll_cons_eq_ok_of_ne (by decide) hu
    exact hc.imp (fun h => absurd h.1 (by decide)) fun h => ih h hv
  | opening hrest ih =>
    have hc := hc.resolve_left fun h => absurd h.1 (by decide)
    obtain ⟨v, hv, hu⟩ := closeAll_cons_eq_ok hu
    obtain ⟨inner, rest, r, rfl, hi, hr, rfl⟩ := extend_opening_eq_ok hu
    rcases (ih hc hv).of_closing hi with hinner | hafter
    · exact absurd hr (not_ok_of_error
        (evaluateFlat_clogged (hrest.isRow_of_closeAll hv hi) hinner))
    · exact hafter.append r

/-- A separated text with an operator that lacks its right operand has no value. -/
theorem clogged {t u : Text} (h : Separated false t) (hc : Text.Clogged t)
    (hu : Reckoner.resolveGroups t = .ok u) : ∃ fault, evaluateFlat u = .error fault :=
  evaluateFlat_clogged (h.resolveGroups.1 u hu)
    (h.closeAll_clogged hc (resolveGroups_eq_ok_iff.1 hu).1)

end Separated

end Reckoner
