import Reckoner.Proofs.Separation
import Reckoner.Proofs.Twins

/-!
# Texts with the same operators and groups

Two texts are aligned when they have the same operators and parentheses in the same order and alike
words between them, and the second has the spaces of the first or none. Closing the groups keeps
texts aligned, as long as the values of the groups are alike.
-/

namespace Reckoner

open Literal

def spacing (kept : Bool) : Text := if kept then [' '] else []

/-- Texts that differ in alike words and, if spaces are not `kept`, in their spaces. In the first no
operand follows another; `afterOperand` tells whether one stands in front. -/
inductive Aligned (zeros kept : Bool) : (afterOperand : Bool) → Text → Text → Prop where
  | nil {afterOperand : Bool} : Aligned zeros kept afterOperand [] []
  | space {afterOperand : Bool} {t s : Text} (rest : Aligned zeros kept afterOperand t s) :
    Aligned zeros kept afterOperand (' ' :: t) (spacing kept ++ s)
  | operator {afterOperand : Bool} (op : Operator) {t s : Text}
    (rest : Aligned zeros kept false t s) :
    Aligned zeros kept afterOperand (op.symbol :: t) (op.symbol :: s)
  | word {v w t s : Text} (alike : Alike zeros v w) (fits : IsWord v)
    (rest : Aligned zeros kept true t s) : Aligned zeros kept false (v ++ t) (w ++ s)
  | opening {t s : Text} (rest : Aligned zeros kept false t s) :
    Aligned zeros kept false ('(' :: t) ('(' :: s)
  | closing {afterOperand : Bool} {t s : Text} (rest : Aligned zeros kept true t s) :
    Aligned zeros kept afterOperand (')' :: t) (')' :: s)

theorem paren_not_mem_spacing (kept : Bool) : '(' ∉ spacing kept ∧ ')' ∉ spacing kept := by
  cases kept <;> decide

namespace Aligned

variable {zeros kept afterOperand : Bool} {t s : Text}

theorem separated (h : Aligned zeros kept afterOperand t s) : Separated afterOperand t := by
  induction h with
  | nil => exact .nil
  | space _ ih => exact .space ih
  | operator op _ ih => exact .operator op ih
  | word _ fits _ ih => exact .word fits ih
  | opening _ ih => exact .opening ih
  | closing _ ih => exact .closing ih

theorem of_true (h : Aligned zeros kept true t s) : Aligned zeros kept false t s := by
  generalize hb : true = b at h
  induction h with
  | nil => exact .nil
  | space _ ih => exact .space (ih hb)
  | operator op rest => exact .operator op rest
  | word => cases hb
  | opening => cases hb
  | closing rest => exact .closing rest

/-- Alike values of groups may take the groups' places. -/
theorem value {r q : Text} (hr : r = [] ∨ IsSigned IsWord r) (halike : Alike zeros r q)
    (h : Aligned zeros kept true t s) : Aligned zeros kept false (r ++ t) (q ++ s) := by
  rcases hr with rfl | hw | ⟨w, rfl, hw⟩
  · obtain rfl : q = [] := by
      cases halike with
      | same => rfl
      | zero _ fits => obtain ⟨_, -, he⟩ := fits; cases he
    exact h.of_true
  · exact .word halike hw h
  · obtain rfl : q = '-' :: w := by
      cases halike with
      | same => rfl
      | zero _ fits => obtain ⟨_, -, he⟩ := fits; cases he
    exact .operator .minus (.word (.same w) hw h)

theorem closing_not_mem (h : Aligned zeros kept afterOperand t s) (ht : ')' ∉ t) : ')' ∉ s := by
  induction h with
  | nil => exact ht
  | space _ ih =>
    simp only [List.mem_append, not_or]
    exact ⟨(paren_not_mem_spacing kept).2, ih fun hm => ht (List.mem_cons_of_mem _ hm)⟩
  | operator op _ ih =>
    simp only [List.mem_cons, not_or] at ht ⊢
    exact ⟨ht.1, ih ht.2⟩
  | word alike fits _ ih =>
    simp only [List.mem_append, not_or] at ht ⊢
    exact ⟨(Separated.paren_not_mem_word (alike.isWord fits)).2, ih ht.2⟩
  | opening _ ih =>
    simp only [List.mem_cons, not_or] at ht ⊢
    exact ⟨ht.1, ih ht.2⟩
  | closing => exact absurd List.mem_cons_self ht

/-- Aligned texts are aligned in front of their first closing parentheses and behind them. -/
theorem split {inner rest : Text} (h : Aligned zeros kept afterOperand t s)
    (ht : t = inner ++ ')' :: rest) (hi : ')' ∉ inner) :
    ∃ held after, s = held ++ ')' :: after ∧ Aligned zeros kept afterOperand inner held ∧
      Aligned zeros kept true rest after := by
  induction h generalizing inner with
  | nil => simp at ht
  | space _ ih =>
    obtain ⟨u, rfl, rfl⟩ := cons_eq_append_cons_of_ne (by decide) ht
    obtain ⟨held, after, rfl, h1, h2⟩ := ih rfl fun hm => hi (List.mem_cons_of_mem _ hm)
    exact ⟨spacing kept ++ held, after, by simp, .space h1, h2⟩
  | operator op _ ih =>
    obtain ⟨u, rfl, rfl⟩ := cons_eq_append_cons_of_ne (by cases op <;> decide) ht
    obtain ⟨held, after, rfl, h1, h2⟩ := ih rfl fun hm => hi (List.mem_cons_of_mem _ hm)
    exact ⟨op.symbol :: held, after, rfl, .operator op h1, h2⟩
  | @word v w t s alike fits _ ih =>
    obtain ⟨u, rfl, rfl⟩ :=
      append_eq_append_cons_of_not_mem (Separated.paren_not_mem_word fits).2 ht
    obtain ⟨held, after, rfl, h1, h2⟩ := ih rfl fun hm => hi (List.mem_append_right _ hm)
    exact ⟨w ++ held, after, by simp, .word alike fits h1, h2⟩
  | opening _ ih =>
    obtain ⟨u, rfl, rfl⟩ := cons_eq_append_cons_of_ne (by decide) ht
    obtain ⟨held, after, rfl, h1, h2⟩ := ih rfl fun hm => hi (List.mem_cons_of_mem _ hm)
    exact ⟨'(' :: held, after, rfl, .opening h1, h2⟩
  | @closing _ _ s rest =>
    cases inner with
    | nil =>
      obtain ⟨-, rfl⟩ := List.cons.inj ht
      exact ⟨[], s, rfl, .nil, rest⟩
    | cons c inner =>
      obtain ⟨rfl, -⟩ := List.cons.inj ht
      exact absurd List.mem_cons_self hi

/-- Texts without groups have alike values, where the first is one that a group may hold. -/
def Evaluates (zeros kept : Bool) (held : Text → Prop) : Prop :=
  ∀ x y r, held x → '(' ∉ x ∧ ')' ∉ x → Aligned zeros kept false x y → evaluateFlat x = .ok r →
    ∃ q, evaluateFlat y = .ok q ∧ Alike zeros r q

open Reckoner.Group

/-- Closing the groups keeps texts aligned. -/
theorem closeAll (h : Aligned zeros kept afterOperand t s)
    (hflat : Evaluates zeros kept (Within t)) {u : Text} (hu : Group.closeAll t = .ok u) :
    ∃ v, Group.closeAll s = .ok v ∧ Aligned zeros kept afterOperand u v := by
  induction h generalizing u with
  | nil =>
    obtain rfl : [] = u := by simpa using hu
    exact ⟨[], rfl, .nil⟩
  | space _ ih =>
    obtain ⟨v, hv, rfl⟩ := closeAll_cons_eq_ok_of_ne (by decide) hu
    obtain ⟨w, hw, haligned⟩ := ih (fun x y r hx => hflat x y r (hx.cons ' ')) hv
    refine ⟨spacing kept ++ w, ?_, .space haligned⟩
    rw [closeAll_append, hw]
    exact closeOnto_of_not_mem (paren_not_mem_spacing kept).1 w
  | operator op _ ih =>
    have hne : op.symbol ≠ '(' := by cases op <;> decide
    obtain ⟨v, hv, rfl⟩ := closeAll_cons_eq_ok_of_ne hne hu
    obtain ⟨w, hw, haligned⟩ := ih (fun x y r hx => hflat x y r (hx.cons op.symbol)) hv
    refine ⟨op.symbol :: w, ?_, .operator op haligned⟩
    rw [closeAll_cons, hw]
    exact extend_of_ne hne w
  | @word v w t s alike fits _ ih =>
    obtain ⟨x, hx, rfl⟩ := closeAll_append_eq_ok (Separated.paren_not_mem_word fits).1 hu
    obtain ⟨y, hy, haligned⟩ := ih (fun x y r hx => hflat x y r (hx.append v)) hx
    refine ⟨w ++ y, ?_, .word alike fits haligned⟩
    rw [closeAll_append, hy]
    exact closeOnto_of_not_mem (Separated.paren_not_mem_word (alike.isWord fits)).1 y
  | closing _ ih =>
    obtain ⟨v, hv, rfl⟩ := closeAll_cons_eq_ok_of_ne (by decide) hu
    obtain ⟨w, hw, haligned⟩ := ih (fun x y r hx => hflat x y r (hx.cons ')')) hv
    refine ⟨')' :: w, ?_, .closing haligned⟩
    rw [closeAll_cons, hw]
    exact extend_of_ne (by decide) w
  | opening _ ih =>
    obtain ⟨v, hv, hu⟩ := closeAll_cons_eq_ok hu
    obtain ⟨w, hw, haligned⟩ := ih (fun x y r hx => hflat x y r (hx.cons '(')) hv
    obtain ⟨inner, rest, r, rfl, hi, hr, rfl⟩ := extend_opening_eq_ok hu
    obtain ⟨held, after, rfl, hinner, hafter⟩ := haligned.split rfl hi
    have hopening : '(' ∉ inner := fun hm =>
      opening_not_mem_closeAll hv (List.mem_append_left _ hm)
    obtain ⟨q, hq, halike⟩ :=
      hflat inner held r (within_of_closeAll hv hi) ⟨hopening, hi⟩ hinner hr
    refine ⟨q ++ after, ?_, hafter.value (evaluateFlat_value hr) halike⟩
    rw [closeAll_cons, hw]
    simp only [Except.bind, extend_opening (hinner.closing_not_mem hi), hq, Except.map]

/-- Aligned expressions have alike values. -/
theorem evaluate (h : Aligned zeros kept false t s) (hflat : Evaluates zeros kept (Holds t))
    {u r : Text} (hu : resolveGroups t = .ok u) (hr : evaluateFlat u = .ok r) :
    ∃ v q, resolveGroups s = .ok v ∧ evaluateFlat v = .ok q ∧ Alike zeros r q := by
  obtain ⟨hclosed, hclosing⟩ := resolveGroups_eq_ok_iff.1 hu
  obtain ⟨v, hv, haligned⟩ := h.closeAll (fun x y r hx => hflat x y r (.inr hx)) hclosed
  have hparens := And.intro (opening_not_mem_closeAll hclosed) hclosing
  obtain ⟨q, hq, halike⟩ := hflat u v r (.inl hu) hparens haligned hr
  exact ⟨v, q, resolveGroups_eq_ok_iff.2 ⟨hv, haligned.closing_not_mem hclosing⟩, hq, halike⟩

end Aligned

end Reckoner
