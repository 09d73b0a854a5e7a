import Reckoner.Proofs.Groups

/-!
# Separated operands

In a text with parentheses an operand is a word or a group. Where no two operands follow each other
without an operator between them, closing the groups keeps it so, and the text without groups is a
row.
-/

namespace Reckoner

open Literal

/-- No operand follows another with nothing but spaces between them; `afterOperand` tells whether
one stands in front. -/
inductive Separated : (afterOperand : Bool) → Text → Prop where
  | nil {afterOperand : Bool} : Separated afterOperand []
  | space {afterOperand : Bool} {t : Text} (rest : Separated afterOperand t) :
    Separated afterOperand (' ' :: t)
  | operator {afterOperand : Bool} (op : Operator) {t : Text} (rest : Separated false t) :
    Separated afterOperand (op.symbol :: t)
  | word {w t : Text} (fits : IsWord w) (rest : Separated true t) : Separated false (w ++ t)
  | opening {t : Text} (rest : Separated false t) : Separated false ('(' :: t)
  | closing {afterOperand : Bool} {t : Text} (rest : Separated true t) :
    Separated afterOperand (')' :: t)

namespace Separated

theorem of_true {t : Text} (h : Separated true t) : Separated false t := by
  generalize hb : true = b at h
  induction h with
  | nil => exact .nil
  | space _ ih => exact .space (ih hb)
  | operator op rest => exact .operator op rest
  | word => cases hb
  | opening => cases hb
  | closing rest => exact .closing rest

theorem spaces {afterOperand : Bool} {t : Text} (h : Separated afterOperand t) (n : Nat) :
    Separated afterOperand (List.replicate n ' ' ++ t) := by
  induction n with
  | zero => exact h
  | succ n ih => exact .space ih

/-- A signed word separates what is separated behind an operand. -/
theorem signed {w t : Text} (hw : IsSigned IsWord w) (h : Separated true t) :
    Separated false (w ++ t) := by
  cases hw with
  | inl hw => exact .word hw h
  | inr hw =>
    obtain ⟨v, rfl, hv⟩ := hw
    exact .operator .minus (.word hv h)

/-- The value of a group may take the group's place. -/
theorem value {r t : Text} (hr : r = [] ∨ IsSigned IsWord r) (h : Separated true t) :
    Separated false (r ++ t) := by
  cases hr with
  | inl hr =>
    subst hr
    exact h.of_true
  | inr hr => exact signed hr h

theorem paren_not_mem_word {w : Text} (h : IsWord w) : '(' ∉ w ∧ ')' ∉ w := by
  constructor
  · intro hm
    exact absurd (h.all_isWordChar _ hm) (by decide)
  · intro hm
    exact absurd (h.all_isWordChar _ hm) (by decide)

/-- A text is separated in front of a closing parenthesis and behind it. -/
theorem split {afterOperand : Bool} {t inner rest : Text} (h : Separated afterOperand t)
    (ht : t = inner ++ ')' :: rest) (hi : ')' ∉ inner) :
    Separated afterOperand inner ∧ Separated true rest := by
  induction h generalizing inner with
  | nil => simp at ht
  | space _ ih =>
    obtain ⟨u, rfl, rfl⟩ := cons_eq_append_cons_of_ne (by decide) ht
    obtain ⟨h1, h2⟩ := ih rfl fun hm => hi (List.mem_cons_of_mem _ hm)
    exact ⟨.space h1, h2⟩
  | operator op _ ih =>
    obtain ⟨u, rfl, rfl⟩ := cons_eq_append_cons_of_ne (by cases op <;> decide) ht
    obtain ⟨h1, h2⟩ := ih rfl fun hm => hi (List.mem_cons_of_mem _ hm)
    exact ⟨.operator op h1, h2⟩
  | word hw _ ih =>
    obtain ⟨u, rfl, rfl⟩ := append_eq_append_cons_of_not_mem (paren_not_mem_word hw).2 ht
    obtain ⟨h1, h2⟩ := ih rfl fun hm => hi (List.mem_append_right _ hm)
    exact ⟨.word hw h1, h2⟩
  | opening _ ih =>
    obtain ⟨u, rfl, rfl⟩ := cons_eq_append_cons_of_ne (by decide) ht
    obtain ⟨h1, h2⟩ := ih rfl fun hm => hi (List.mem_cons_of_mem _ hm)
    exact ⟨.opening h1, h2⟩
  | closing rest ih =>
    cases inner with
    | nil =>
      obtain ⟨-, rfl⟩ := List.cons.inj ht
      exact ⟨.nil, rest⟩
    | cons c inner =>
      obtain ⟨rfl, -⟩ := List.cons.inj ht
      exact absurd List.mem_cons_self hi

/-- Without parentheses a separated text is a row. -/
theorem exists_row {afterOperand : Bool} {t : Text} (h : Separated afterOperand t)
    (ho : '(' ∉ t) (hc : ')' ∉ t) :
    ∃ trailing row, Row.Valid afterOperand row ∧ t = Row.text trailing row := by
  induction h with
  | nil => exact ⟨0, [], trivial, rfl⟩
  | space _ ih =>
    obtain ⟨trailing, row, hv, rfl⟩ := ih (fun hm => ho (List.mem_cons_of_mem _ hm))
      fun hm => hc (List.mem_cons_of_mem _ hm)
    cases row with
    | nil => exact ⟨trailing + 1, [], trivial, by simp [List.replicate_succ]⟩
    | cons item row =>
      refine ⟨trailing, ⟨item.gap + 1, item.mark⟩ :: row, hv, ?_⟩
      simp [Row.text, List.replicate_succ]
  | operator op _ ih =>
    obtain ⟨trailing, row, hv, rfl⟩ := ih (fun hm => ho (List.mem_cons_of_mem _ hm))
      fun hm => hc (List.mem_cons_of_mem _ hm)
    exact ⟨trailing, ⟨0, .operator op⟩ :: row, by simpa using hv, by simp⟩
  | @word w t hw _ ih =>
    obtain ⟨trailing, row, hv, rfl⟩ := ih (fun hm => ho (List.mem_append_right _ hm))
      fun hm => hc (List.mem_append_right _ hm)
    exact ⟨trailing, ⟨0, .word w⟩ :: row, by simp [hw, hv], by simp⟩
  | opening => exact absurd List.mem_cons_self ho
  | closing => exact absurd List.mem_cons_self hc

theorem isRow {t : Text} (h : Separated false t) (ho : '(' ∉ t) (hc : ')' ∉ t) : IsRow t :=
  h.exists_row ho hc

open Reckoner.Group

/-- Closing the groups keeps operands separated, and fails only as a group does or for want of a
partner. -/
theorem closeAll {afterOperand : Bool} {t : Text} (h : Separated afterOperand t) :
    (∀ u, closeAll t = .ok u → Separated afterOperand u) ∧
      ∀ fault, closeAll t = .error fault → fault = .parentheses ∨ IsFlatFault fault := by
  induction h with
  | nil =>
    refine ⟨?_, by simp⟩
    intro u hu
    obtain rfl : [] = u := by simpa using hu
    exact .nil
  | space _ ih =>
    rw [closeAll_cons]
    cases hc : Group.closeAll _ with
    | error f => simpa [Except.bind] using ih.2 f hc
    | ok u => simpa [Except.bind, extend_of_ne] using Separated.space (ih.1 u hc)
  | operator op _ ih =>
    have hne : op.symbol ≠ '(' := by cases op <;> decide
    rw [closeAll_cons]
    cases hc : Group.closeAll _ with
    | error f => simpa [Except.bind] using ih.2 f hc
    | ok u => simpa [Except.bind, extend_of_ne hne] using Separated.operator op (ih.1 u hc)
  | word hw _ ih =>
    rw [closeAll_append]
    cases hc : Group.closeAll _ with
    | error f => simpa [Except.bind] using ih.2 f hc
    | ok u =>
      simpa [Except.bind, closeOnto_of_not_mem (paren_not_mem_word hw).1] using
        Separated.word hw (ih.1 u hc)
  | closing _ ih =>
    rw [closeAll_cons]
    cases hc : Group.closeAll _ with
    | error f => simpa [Except.bind] using ih.2 f hc
    | ok u => simpa [Except.bind, extend_of_ne] using Separated.closing (ih.1 u hc)
  | opening _ ih =>
    rw [closeAll_cons]
    cases hc : Group.closeAll _ with
    | error f => simpa [Except.bind] using ih.2 f hc
    | ok u =>
      simp only [Except.bind]
      cases hs : split? u with
      | none => simp [extend, hs]
      | some found =>
        obtain ⟨inner, rest⟩ := found
        obtain ⟨rfl, hi⟩ := split?_eq_some hs
        obtain ⟨h1, h2⟩ := (ih.1 _ hc).split rfl hi
        have ho := opening_not_mem_closeAll hc
        have hrow := h1.isRow (fun hm => ho (List.mem_append_left _ hm)) hi
        rw [extend_opening hi]
        cases hr : evaluateFlat inner with
        | error f =>
          have := evaluateFlat_error hrow hr
          simpa [Except.map] using Or.inr this
        | ok r => simpa [Except.map] using Separated.value (evaluateFlat_value hr) h2

/-- The text of a group without groups is a row. -/
theorem isRow_of_closeAll {afterOperand : Bool} {t inner rest : Text}
    (h : Separated afterOperand t) (ht : Group.closeAll t = .ok (inner ++ ')' :: rest))
    (hi : ')' ∉ inner) :
    ∃ trailing row, Row.Valid afterOperand row ∧ inner = Row.text trailing row :=
  ((h.closeAll.1 _ ht).split rfl hi).1.exists_row
    (fun hm => opening_not_mem_closeAll ht (List.mem_append_left _ hm)) hi

/-- Without its groups a separated text is a row. -/
theorem resolveGroups {t : Text} (h : Separated false t) :
    (∀ u, resolveGroups t = .ok u → IsRow u) ∧
      ∀ fault, resolveGroups t = .error fault → fault = .parentheses ∨ IsFlatFault fault := by
  obtain ⟨hok, herror⟩ := h.closeAll
  unfold Reckoner.resolveGroups
  cases hc : Group.closeAll t with
  | error f => simpa using herror f hc
  | ok u =>
    dsimp only
    by_cases hm : ')' ∈ u
    · simp [hm]
    · have hclosed : ')' ∉ u := hm
      simpa [hclosed] using (hok u hc).isRow (opening_not_mem_closeAll hc) hclosed

end Separated

end Reckoner
