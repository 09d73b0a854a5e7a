import Reckoner.Proofs.Groups
import Reckoner.Proofs.LeadingSpaces
import Reckoner.Proofs.TrailingSpaces

/-!
# Spaces inside the parentheses

What stands between a parenthesis and its partner is evaluated as a text of its own, so spaces next
to a parenthesis are padding of that text. They change nothing as long as the text passes no stage
that opens with a minus sign, or, for spaces at its end, that is a double negation.
-/

namespace Reckoner

open Literal

def PassesMinus (t : Text) : Prop := ∃ s, Passes t s ∧ s.head? = some '-'

def PassesDoubleNegation (t : Text) : Prop := ∃ s, Passes t s ∧ (doubleNegated? s).isSome

theorem not_passes_of_not_operator {t : Text} (h : ∀ c ∈ t, isOperatorChar c = false) :
    ¬ PassesMinus t ∧ ¬ PassesDoubleNegation t := by
  have hhead : t.head? ≠ some '-' := fun hm => absurd (h '-' (List.mem_of_mem_head? hm)) (by decide)
  constructor
  · rintro ⟨s, hs, hm⟩
    rw [passes_of_not_operator h hs] at hm
    exact hhead hm
  · rintro ⟨s, hs, hd⟩
    rw [passes_of_not_operator h hs, doubleNegated?_of_not_minus hhead] at hd
    simp at hd

theorem evaluateFlat_spaces_append (n : Nat) {t : Text} (h : n ≠ 0 → ¬ PassesMinus t) :
    evaluateFlat (List.replicate n ' ' ++ t) = evaluateFlat t := by
  cases n with
  | zero => rfl
  | succ n => exact (padding_leading n).evaluateFlat_pad fun s hs hm => h (by omega) ⟨s, hs, hm⟩

theorem evaluateFlat_spaces_append_error {n : Nat} {t : Text} (hn : n ≠ 0) (h : PassesMinus t) :
    ∃ fault, evaluateFlat (List.replicate n ' ' ++ t) = .error fault := by
  cases n with
  | zero => exact absurd rfl hn
  | succ n =>
    obtain ⟨s, hs, hm⟩ := h
    exact (padding_leading n).evaluateFlat_spoilt hs hm

theorem evaluateFlat_append_spaces (m : Nat) {t : Text} (h : m ≠ 0 → ¬ PassesDoubleNegation t) :
    evaluateFlat (t ++ List.replicate m ' ') = evaluateFlat t := by
  cases m with
  | zero => rw [List.replicate_zero, List.append_nil]
  | succ m => exact (padding_trailing m).evaluateFlat_pad fun s hs hd => h (by omega) ⟨s, hs, hd⟩

theorem evaluateFlat_append_spaces_error {m : Nat} {t : Text} (hm : m ≠ 0)
    (h : PassesDoubleNegation t) :
    ∃ fault, evaluateFlat (t ++ List.replicate m ' ') = .error fault := by
  cases m with
  | zero => exact absurd rfl hm
  | succ m =>
    obtain ⟨s, hs, hd⟩ := h
    exact (padding_trailing m).evaluateFlat_spoilt hs hd

namespace Group

/-- `t` stands behind an opening parenthesis whose group holds `x`. -/
def Begins (t x : Text) : Prop :=
  ∃ inner rest, t = inner ++ ')' :: rest ∧ resolveGroups inner = .ok x

/-- `t` stands in front of a closing parenthesis whose group holds `x`. -/
def Ends (t x : Text) : Prop :=
  ∃ before inner, t = before ++ '(' :: inner ∧ resolveGroups inner = .ok x

/-- Behind an opening parenthesis a text fails to close, or closes to what the group holds. -/
theorem Begins.closeAll {t x : Text} (h : Begins t x) : ')' ∉ x ∧
    ((∃ fault, closeAll t = .error fault) ∨ ∃ rest, closeAll t = .ok (x ++ ')' :: rest)) := by
  obtain ⟨inner, after, rfl, hx⟩ := h
  obtain ⟨hinner, hnot⟩ := resolveGroups_eq_ok_iff.1 hx
  refine ⟨hnot, ?_⟩
  rw [closeAll_append, closeAll_cons]
  cases Group.closeAll after with
  | error fault => exact .inl ⟨fault, rfl⟩
  | ok rest =>
    refine .inr ⟨rest, ?_⟩
    simp only [Except.bind, extend_of_ne (show ')' ≠ '(' by decide)]
    exact closeOnto_closed hinner _

/-- What a text leaves of an opening parenthesis in front of it and of the spaces between them. -/
theorem closeAll_opening (before : Text) (n : Nat) (t : Text) :
    closeAll (before ++ '(' :: (List.replicate n ' ' ++ t)) =
      (((closeAll t).map (List.replicate n ' ' ++ ·)).bind (extend '(')).bind
        (closeOnto before) := by
  rw [closeAll_append, closeAll_cons, closeAll_eq_closeOnto, closeOnto_spaces_append,
    closeAll_eq_closeOnto]

theorem resolveGroups_of_error {t : Text} {fault : Fault} (h : closeAll t = .error fault) :
    resolveGroups t = .error fault := by
  rw [resolveGroups, h]

/-- Spaces behind an opening parenthesis change nothing, unless a stage of its group opens with a
minus sign. -/
theorem resolveGroups_opening (before t : Text) {n : Nat}
    (h : n ≠ 0 → ¬ ∃ x, Begins t x ∧ PassesMinus x) :
    resolveGroups (before ++ '(' :: (List.replicate n ' ' ++ t)) =
      resolveGroups (before ++ '(' :: t) := by
  suffices hclose : closeAll (before ++ '(' :: (List.replicate n ' ' ++ t)) =
      closeAll (before ++ '(' :: t) by
    rw [resolveGroups, hclose, resolveGroups]
  have hplain := closeAll_opening before 0 t
  simp only [List.replicate_zero, List.nil_append] at hplain
  rw [closeAll_opening, hplain]
  cases ht : closeAll t with
  | error fault => rfl
  | ok u =>
    simp only [Except.map, Except.bind]
    cases hs : split? u with
    | none =>
      have hu := (split?_eq_none_iff u).1 hs
      rw [extend_opening_of_not_mem hu, extend_opening_of_not_mem]
      simp [hu]
    | some found =>
      obtain ⟨x, rest⟩ := found
      obtain ⟨rfl, hx⟩ := split?_eq_some hs
      have hspaces : ')' ∉ List.replicate n ' ' ++ x := by simp [hx]
      have hflat := evaluateFlat_spaces_append n fun hn hminus => by
        obtain ⟨inner, after, rfl, hinner, -⟩ := exists_closing ht
        exact h hn ⟨x, ⟨inner, after, rfl, resolveGroups_eq_ok_iff.2 ⟨hinner, hx⟩⟩, hminus⟩
      rw [← List.append_assoc, extend_opening hspaces, extend_opening hx, hflat]

theorem resolveGroups_opening_error (before : Text) {n : Nat} {t x : Text} (hn : n ≠ 0)
    (hb : Begins t x) (hx : PassesMinus x) :
    ∃ fault, resolveGroups (before ++ '(' :: (List.replicate n ' ' ++ t)) = .error fault := by
  have hclose := closeAll_opening before n t
  obtain ⟨hnot, ⟨fault, ht⟩ | ⟨rest, ht⟩⟩ := hb.closeAll
  · rw [ht] at hclose
    exact ⟨fault, resolveGroups_of_error hclose⟩
  · obtain ⟨fault, hflat⟩ := evaluateFlat_spaces_append_error hn hx
    have hspaces : ')' ∉ List.replicate n ' ' ++ x := by simp [hnot]
    rw [ht] at hclose
    simp only [Except.map, Except.bind, ← List.append_assoc, extend_opening hspaces, hflat]
      at hclose
    exact ⟨fault, resolveGroups_of_error hclose⟩

/-- In front of whatever follows, a text fails to close, or is closed already, or ends a group. -/
theorem closeOnto_cases (t : Text) : (∃ fault, ∀ closed, closeOnto t closed = .error fault) ∨
    (∃ u, closeAll t = .ok u) ∨ ∃ x, Ends t x := by
  induction t with
  | nil => exact .inr (.inl ⟨[], rfl⟩)
  | cons c t ih =>
    rcases ih with ⟨fault, ht⟩ | ⟨u, ht⟩ | ⟨x, before, inner, rfl, hx⟩
    · refine .inl ⟨fault, fun closed => ?_⟩
      rw [closeOnto_cons, ht]
      rfl
    · cases hu : extend c u with
      | ok v => exact .inr (.inl ⟨v, by rw [closeAll_cons, ht]; exact hu⟩)
      | error fault =>
        by_cases hc : c = '('
        · subst hc
          cases hs : split? u with
          | none =>
            have hnot := (split?_eq_none_iff u).1 hs
            exact .inr (.inr ⟨u, [], t, rfl, resolveGroups_eq_ok_iff.2 ⟨ht, hnot⟩⟩)
          | some found =>
            obtain ⟨inner, rest⟩ := found
            obtain ⟨rfl, hinner⟩ := split?_eq_some hs
            rw [extend_opening hinner] at hu
            refine .inl ⟨fault, fun closed => ?_⟩
            rw [closeOnto_cons, closeOnto_closed ht]
            simp only [Except.bind, List.append_assoc, List.cons_append, extend_opening hinner]
            cases hv : evaluateFlat inner with
            | error f => simpa [hv, Except.map] using hu
            | ok v => simp [hv, Except.map] at hu
        · rw [extend_of_ne hc] at hu
          simp at hu
    · exact .inr (.inr ⟨x, c :: before, inner, rfl, hx⟩)

/-- A run of spaces has no parenthesis in it. -/
theorem paren_not_mem_spaces (m : Nat) :
    '(' ∉ List.replicate m ' ' ∧ ')' ∉ List.replicate m ' ' := by
  simp

/-- Spaces in front of a closing parenthesis change nothing, unless a stage of its group is a double
negation. -/
theorem resolveGroups_closing (t : Text) {m : Nat} (after : Text)
    (h : m ≠ 0 → ¬ ∃ x, Ends t x ∧ PassesDoubleNegation x) :
    resolveGroups (t ++ (List.replicate m ' ' ++ ')' :: after)) =
      resolveGroups (t ++ ')' :: after) := by
  have hspaces := closeAll_closing t (paren_not_mem_spaces m).1 after
  have hplain := closeAll_closing t (paren_not_mem_spaces 0).1 after
  change _ = resolveGroups (t ++ (List.replicate 0 ' ' ++ ')' :: after))
  cases ha : closeAll after with
  | error fault =>
    rw [ha] at hspaces hplain
    rw [resolveGroups_of_error hspaces, resolveGroups_of_error hplain]
  | ok closed =>
    simp only [ha, Except.bind] at hspaces hplain
    rcases closeOnto_cases t with ⟨fault, ht⟩ | ⟨u, ht⟩ | ⟨x, before, inner, rfl, hx⟩
    · rw [ht] at hspaces hplain
      rw [resolveGroups_of_error hspaces, resolveGroups_of_error hplain]
    · rw [closeOnto_closed ht] at hspaces hplain
      rw [resolveGroups, hspaces, resolveGroups, hplain]
      simp
    · have hflat := evaluateFlat_append_spaces m fun hm hd => h hm ⟨x, ⟨before, inner, rfl, hx⟩, hd⟩
      rw [closeOnto_group hx (paren_not_mem_spaces m).2, hflat] at hspaces
      have hnone : x ++ List.replicate 0 ' ' = x := List.append_nil x
      rw [closeOnto_group hx (paren_not_mem_spaces 0).2, hnone] at hplain
      rw [resolveGroups, hspaces, resolveGroups, hplain]

theorem resolveGroups_closing_error {t x : Text} {m : Nat} (after : Text) (hm : m ≠ 0)
    (he : Ends t x) (hx : PassesDoubleNegation x) :
    ∃ fault, resolveGroups (t ++ (List.replicate m ' ' ++ ')' :: after)) = .error fault := by
  obtain ⟨before, inner, rfl, hinner⟩ := he
  have hclose := closeAll_closing (before ++ '(' :: inner) (paren_not_mem_spaces m).1 after
  cases ha : closeAll after with
  | error fault =>
    rw [ha] at hclose
    exact ⟨fault, resolveGroups_of_error hclose⟩
  | ok closed =>
    obtain ⟨fault, hflat⟩ := evaluateFlat_append_spaces_error hm hx
    simp only [ha, Except.bind, closeOnto_group hinner (paren_not_mem_spaces m).2, hflat,
      Except.map] at hclose
    exact ⟨fault, resolveGroups_of_error hclose⟩

/-- Where spaces next to the parentheses are more than padding: those behind the opening one if its
group passes a stage that opens with a minus sign, and those in front of the closing one if its
group passes a double negation. -/
def PaddingSpoils (before inner after : Text) (n m : Nat) : Prop :=
  (n ≠ 0 ∧ ∃ x, Begins (inner ++ ')' :: after) x ∧ PassesMinus x) ∨
    m ≠ 0 ∧ ∃ x, Ends (before ++ '(' :: (List.replicate n ' ' ++ inner)) x ∧ PassesDoubleNegation x

/-- A group without groups inside holds what is written in it. -/
theorem Begins.eq {inner after x : Text} (h : '(' ∉ inner ∧ ')' ∉ inner)
    (hb : Begins (inner ++ ')' :: after) x) : x = inner := by
  obtain ⟨other, rest, htext, hx⟩ := hb
  obtain ⟨front, rfl, hfront⟩ := append_eq_append_cons_of_not_mem h.2 htext
  obtain ⟨u, hu, rfl⟩ := (resolveGroups_append h).1 hx
  cases front with
  | nil =>
    obtain rfl : [] = u := by simpa [resolveGroups] using hu
    exact List.append_nil inner
  | cons c front =>
    obtain ⟨rfl, -⟩ := List.cons.inj hfront
    obtain ⟨hclosed, hnot⟩ := resolveGroups_eq_ok_iff.1 hu
    obtain ⟨v, -, rfl⟩ := closeAll_cons_eq_ok_of_ne (by decide) hclosed
    exact absurd List.mem_cons_self hnot

theorem Ends.eq {before inner x : Text} (h : '(' ∉ inner ∧ ')' ∉ inner)
    (he : Ends (before ++ '(' :: inner) x) : x = inner := by
  obtain ⟨other, held, htext, hx⟩ := he
  rcases append_eq_append_cons htext with ⟨front, rfl⟩ | ⟨front, rfl, hfront⟩
  · obtain rfl : front ++ '(' :: inner = held := by simpa using htext
    obtain ⟨hclosed, -⟩ := resolveGroups_eq_ok_iff.1 hx
    rw [closeAll_append, closeAll_cons, closeAll_of_not_mem h.1] at hclosed
    simp only [Except.bind, extend_opening_of_not_mem h.2] at hclosed
    simp at hclosed
  · cases front with
    | nil =>
      obtain ⟨-, rfl⟩ := List.cons.inj hfront
      rw [resolveGroups_of_not_mem h] at hx
      exact (Except.ok.inj hx).symm
    | cons c front =>
      obtain ⟨-, rfl⟩ := List.cons.inj hfront
      exact absurd (by simp) h.1

/-- A group that holds no operator can be padded. -/
theorem not_paddingSpoils (before : Text) {inner : Text} (after : Text) (n m : Nat)
    (hparens : '(' ∉ inner ∧ ')' ∉ inner) (h : ∀ c ∈ inner, isOperatorChar c = false) :
    ¬ PaddingSpoils before inner after n m := by
  rintro (⟨-, x, hbegins, hx⟩ | ⟨-, x, hends, hx⟩)
  · rw [hbegins.eq hparens] at hx
    exact (not_passes_of_not_operator h).1 hx
  · have hspaces : '(' ∉ List.replicate n ' ' ++ inner ∧ ')' ∉ List.replicate n ' ' ++ inner := by
      simpa using hparens
    have hnot : ∀ c ∈ List.replicate n ' ' ++ inner, isOperatorChar c = false := by
      intro c hc
      rcases List.mem_append.1 hc with hc | hc
      · exact not_operator_spaces n c hc
      · exact h c hc
    rw [hends.eq hspaces] at hx
    exact (not_passes_of_not_operator hnot).2 hx

end Group

open Reckoner.Group

/-- Padding a group changes neither the text nor the error that its expression is resolved to,
unless the padding spoils a stage of its reduction; then the expression cannot be resolved. -/
theorem resolveGroups_padded (before inner after : Text) (n m : Nat) :
    (¬ PaddingSpoils before inner after n m →
      resolveGroups (before ++ '(' :: (List.replicate n ' ' ++
        (inner ++ (List.replicate m ' ' ++ ')' :: after)))) =
          resolveGroups (before ++ '(' :: (inner ++ ')' :: after))) ∧
    (PaddingSpoils before inner after n m →
      ∃ fault, resolveGroups (before ++ '(' :: (List.replicate n ' ' ++
        (inner ++ (List.replicate m ' ' ++ ')' :: after)))) = .error fault) := by
  have hopened : ∀ t, before ++ '(' :: (List.replicate n ' ' ++ (inner ++ t)) =
      (before ++ '(' :: (List.replicate n ' ' ++ inner)) ++ t := by simp
  by_cases hclosing : m ≠ 0 ∧
      ∃ x, Ends (before ++ '(' :: (List.replicate n ' ' ++ inner)) x ∧ PassesDoubleNegation x
  · refine ⟨fun h => absurd (.inr hclosing) h, fun _ => ?_⟩
    obtain ⟨hm, x, hends, hx⟩ := hclosing
    rw [hopened]
    exact resolveGroups_closing_error after hm hends hx
  · have hsame := resolveGroups_closing (m := m)
      (before ++ '(' :: (List.replicate n ' ' ++ inner)) after fun hm hx => hclosing ⟨hm, hx⟩
    rw [hopened, hsame, ← hopened]
    constructor
    · intro h
      exact resolveGroups_opening before _ fun hn hx => h (.inl ⟨hn, hx⟩)
    · rintro (⟨hn, x, hbegins, hx⟩ | hspoils)
      · exact resolveGroups_opening_error before hn hbegins hx
      · exact absurd hspoils hclosing

/-- A number can be padded, but a space in front of a negative number spoils its group. -/
theorem resolveGroups_padded_number :
    (¬ PaddingSpoils "2 * ".toList "7".toList [] 1 2 ∧
      resolveGroups "2 * ( 7  )".toList = resolveGroups "2 * (7)".toList) ∧
    PaddingSpoils [] "-7".toList [] 1 0 ∧
      ∃ fault, resolveGroups "( -7)".toList = .error fault := by
  have hplain : ¬ PaddingSpoils "2 * ".toList "7".toList [] 1 2 :=
    not_paddingSpoils _ [] 1 2 (by simp) (by simpa using (by decide : isOperatorChar '7' = false))
  have hminus : PaddingSpoils [] "-7".toList [] 1 0 := by
    refine .inl ⟨by decide, "-7".toList, ⟨"-7".toList, [], rfl, ?_⟩, "-7".toList, ?_, rfl⟩
    · exact resolveGroups_of_not_mem (by decide)
    · exact .inl (.start _)
  have hsame := (resolveGroups_padded "2 * ".toList "7".toList [] 1 2).1 hplain
  have hspoilt := (resolveGroups_padded [] "-7".toList [] 1 0).2 hminus
  exact ⟨⟨hplain, by simpa [List.replicate] using hsame⟩, hminus,
    by simpa [List.replicate] using hspoilt⟩

/-- A space in front of a difference hides the sign of its value. -/
theorem resolveGroups_padded_difference :
    ¬ ∀ (before inner after : Text) (n m : Nat),
      resolveGroups (before ++ '(' :: (List.replicate n ' ' ++
        (inner ++ (List.replicate m ' ' ++ ')' :: after)))) =
          resolveGroups (before ++ '(' :: (inner ++ ')' :: after)) := by
  intro h
  have hsame := congrArg Except.toOption (h [] "3 - 5".toList [] 1 0)
  have hspace : (resolveGroups "( 3 - 5)".toList).toOption = none := by decide +kernel
  have hplain : (resolveGroups "(3 - 5)".toList).toOption = some "-2".toList := by decide +kernel
  exact absurd (hspace.symm.trans (hsame.trans hplain)) (by simp)

end Reckoner
