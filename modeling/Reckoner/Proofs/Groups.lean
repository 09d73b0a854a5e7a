import Reckoner.Group
import Reckoner.Proofs.Results

/-!
# Closing groups

Groups are closed from the end of a text. What has been closed holds no opening parenthesis, because
the value of a group holds none, so a text is closed in two parts: the part behind first, then the
part in front onto it.
-/

namespace Reckoner

open Literal

namespace Group

def closeOnto (t closed : Text) : Except Fault Text := t.foldrM extend closed

@[simp] theorem closeOnto_nil (closed : Text) : closeOnto [] closed = .ok closed := rfl

theorem closeOnto_cons (c : Char) (t closed : Text) :
    closeOnto (c :: t) closed = (closeOnto t closed).bind (extend c) := by
  simp only [closeOnto, List.foldrM_cons]
  rfl

theorem closeAll_eq_closeOnto (t : Text) : closeAll t = closeOnto t [] := rfl

theorem closeOnto_append (s t closed : Text) :
    closeOnto (s ++ t) closed = (closeOnto t closed).bind (closeOnto s) := by
  simp only [closeOnto, List.foldrM_append]
  rfl

theorem closeAll_append (s t : Text) : closeAll (s ++ t) = (closeAll t).bind (closeOnto s) :=
  closeOnto_append s t []

theorem closeAll_cons (c : Char) (t : Text) : closeAll (c :: t) = (closeAll t).bind (extend c) :=
  closeOnto_cons c t []

theorem extend_of_ne {c : Char} (h : c ≠ '(') (t : Text) : extend c t = .ok (c :: t) := by
  simp [extend, h]

theorem closeAll_cons_eq_ok {c : Char} {t u : Text} (h : closeAll (c :: t) = .ok u) :
    ∃ v, closeAll t = .ok v ∧ extend c v = .ok u := by
  rw [closeAll_cons] at h
  cases ht : closeAll t with
  | error fault => simp [ht, Except.bind] at h
  | ok v => exact ⟨v, rfl, by simpa [ht, Except.bind] using h⟩

theorem closeAll_cons_eq_ok_of_ne {c : Char} {t u : Text} (hc : c ≠ '(')
    (h : closeAll (c :: t) = .ok u) : ∃ v, closeAll t = .ok v ∧ u = c :: v := by
  obtain ⟨v, hv, hu⟩ := closeAll_cons_eq_ok h
  rw [extend_of_ne hc] at hu
  exact ⟨v, hv, (Except.ok.inj hu).symm⟩

/-- A text without opening parentheses is closed already. -/
theorem closeOnto_of_not_mem {s : Text} (h : '(' ∉ s) (t : Text) :
    closeOnto s t = .ok (s ++ t) := by
  induction s with
  | nil => rfl
  | cons c s ih =>
    have hc : c ≠ '(' := fun he => h (he ▸ List.mem_cons_self)
    rw [closeOnto_cons, ih fun hs => h (List.mem_cons_of_mem c hs)]
    exact extend_of_ne hc _

theorem closeAll_of_not_mem {t : Text} (h : '(' ∉ t) : closeAll t = .ok t := by
  have := closeOnto_of_not_mem h []
  rwa [List.append_nil] at this

theorem closeAll_append_eq_ok {s t u : Text} (hs : '(' ∉ s) (h : closeAll (s ++ t) = .ok u) :
    ∃ v, closeAll t = .ok v ∧ u = s ++ v := by
  rw [closeAll_append] at h
  cases ht : closeAll t with
  | error fault => simp [ht, Except.bind] at h
  | ok v =>
    simp only [ht, Except.bind, closeOnto_of_not_mem hs, Except.ok.injEq] at h
    exact ⟨v, rfl, h.symm⟩

theorem closeOnto_spaces_append (n : Nat) (t closed : Text) :
    closeOnto (List.replicate n ' ' ++ t) closed =
      (closeOnto t closed).map (List.replicate n ' ' ++ ·) := by
  have hspaces : '(' ∉ List.replicate n ' ' := fun hm =>
    absurd (List.mem_replicate.1 hm).2 (by decide)
  rw [closeOnto_append]
  cases closeOnto t closed with
  | error fault => rfl
  | ok u => exact closeOnto_of_not_mem hspaces u

/-- What stands behind a closing parenthesis is closed before what stands in front. -/
theorem closeAll_closing (t : Text) {s : Text} (hs : '(' ∉ s) (after : Text) :
    closeAll (t ++ (s ++ ')' :: after)) =
      (closeAll after).bind fun closed => closeOnto t (s ++ ')' :: closed) := by
  have hclosing : '(' ∉ s ++ [')'] := by simpa using hs
  have happ : s ++ ')' :: after = (s ++ [')']) ++ after := by simp
  rw [happ, closeAll_append, closeAll_append]
  cases closeAll after with
  | error fault => rfl
  | ok closed => simp [Except.bind, closeOnto_of_not_mem hclosing]

theorem split?_append {inner : Text} (h : ')' ∉ inner) (rest : Text) :
    split? (inner ++ ')' :: rest) = some (inner, rest) := by
  obtain ⟨h1, h2⟩ := @takeWhile_append_stop Char (· != ')') inner (')' :: rest)
    (fun c hc => by
      rw [bne_iff_ne]
      rintro rfl
      exact h hc)
    (by simp)
  simp [split?, h1, h2]

theorem split?_eq_some {t inner rest : Text} (h : split? t = some (inner, rest)) :
    t = inner ++ ')' :: rest ∧ ')' ∉ inner := by
  have happ := @List.takeWhile_append_dropWhile Char (· != ')') t
  unfold split? at h
  split at h
  · simp at h
  · next c u hd =>
    simp only [Option.some.injEq, Prod.mk.injEq] at h
    obtain ⟨rfl, rfl⟩ := h
    have hc : c = ')' := by
      have := List.head?_dropWhile_not (· != ')') t
      rw [hd] at this
      simpa using this
    subst hc
    refine ⟨by rw [← hd, happ], ?_⟩
    intro hm
    have := List.all_eq_true.1 (@List.all_takeWhile Char (· != ')') t) ')' hm
    simp at this

theorem split?_eq_none_iff (t : Text) : split? t = none ↔ ')' ∉ t := by
  constructor
  · intro h hm
    unfold split? at h
    split at h
    · next hd =>
      have happ := @List.takeWhile_append_dropWhile Char (· != ')') t
      rw [hd, List.append_nil] at happ
      have := List.all_eq_true.1 (@List.all_takeWhile Char (· != ')') t) ')' (by rwa [happ])
      simp at this
    · simp at h
  · intro h
    cases hs : split? t with
    | none => rfl
    | some found =>
      obtain ⟨inner, rest⟩ := found
      obtain ⟨rfl, -⟩ := split?_eq_some hs
      exact absurd (by simp) h

/-- An opening parenthesis takes the text up to the first closing one. -/
theorem extend_opening {inner : Text} (h : ')' ∉ inner) (rest : Text) :
    extend '(' (inner ++ ')' :: rest) = (evaluateFlat inner).map (· ++ rest) := by
  simp [extend, split?_append h]

theorem extend_opening_of_not_mem {t : Text} (h : ')' ∉ t) :
    extend '(' t = .error .parentheses := by
  simp [extend, (split?_eq_none_iff t).2 h]

theorem mem_isSigned {t : Text} (h : IsSigned IsWord t) :
    ∀ c ∈ t, c = '-' ∨ isWordChar c = true := by
  intro c hc
  rcases h with h | ⟨w, rfl, h⟩
  · exact .inr (h.all_isWordChar c hc)
  · rcases List.mem_cons.1 hc with rfl | hc
    · exact .inl rfl
    · exact .inr (h.all_isWordChar c hc)

/-- The value of a group is empty, or a word that may have a minus sign in front. -/
theorem evaluateFlat_value {t r : Text} (h : evaluateFlat t = .ok r) :
    r = [] ∨ IsSigned IsWord r := by
  rcases evaluateFlat_ok h with h | h
  · exact .inl h
  · exact .inr (isSigned_of_isResult h)

theorem not_mem_value {t r : Text} {c : Char} (h : evaluateFlat t = .ok r) (hm : c ≠ '-')
    (hc : isWordChar c = false) : c ∉ r := by
  intro hr
  rcases evaluateFlat_value h with rfl | hs
  · simp at hr
  · rcases mem_isSigned hs c hr with he | he
    · exact hm he
    · rw [hc] at he
      exact absurd he (by decide)

/-- Nothing is left of the opening parentheses. -/
theorem opening_not_mem_extend {c : Char} {t u : Text} (ht : '(' ∉ t) (h : extend c t = .ok u) :
    '(' ∉ u := by
  by_cases hc : c = '('
  · subst hc
    simp only [extend, if_true] at h
    split at h
    · simp at h
    · next inner rest hs =>
      obtain ⟨rfl, -⟩ := split?_eq_some hs
      cases hr : evaluateFlat inner with
      | error f => simp [hr, Except.map] at h
      | ok r =>
        obtain rfl : r ++ rest = u := by simpa [hr, Except.map] using h
        have hr := not_mem_value (c := '(') hr (by decide) (by decide)
        simp only [List.mem_append, List.mem_cons, not_or] at ht ⊢
        exact ⟨hr, ht.2.2⟩
  · rw [extend_of_ne hc] at h
    obtain rfl : c :: t = u := by simpa using h
    simp only [List.mem_cons, not_or]
    exact ⟨fun he => hc he.symm, ht⟩

theorem opening_not_mem_closeOnto {s t u : Text} (ht : '(' ∉ t) (h : closeOnto s t = .ok u) :
    '(' ∉ u := by
  induction s generalizing u with
  | nil =>
    obtain rfl : t = u := by simpa using h
    exact ht
  | cons c s ih =>
    rw [closeOnto_cons] at h
    cases hs : closeOnto s t with
    | error f => simp [hs, Except.bind] at h
    | ok v =>
      simp only [hs, Except.bind] at h
      exact opening_not_mem_extend (ih hs) h

theorem opening_not_mem_closeAll {t u : Text} (h : closeAll t = .ok u) : '(' ∉ u :=
  opening_not_mem_closeOnto (by simp) h

theorem extend_opening_eq_ok {t u : Text} (h : extend '(' t = .ok u) :
    ∃ inner rest value, t = inner ++ ')' :: rest ∧ ')' ∉ inner ∧
      evaluateFlat inner = .ok value ∧ value ++ rest = u := by
  cases hs : split? t with
  | none => simp [extend, hs] at h
  | some found =>
    obtain ⟨inner, rest⟩ := found
    obtain ⟨rfl, hinner⟩ := split?_eq_some hs
    rw [extend_opening hinner] at h
    cases hv : evaluateFlat inner with
    | error fault => simp [hv, Except.map] at h
    | ok value =>
      simp only [hv, Except.map, Except.ok.injEq] at h
      exact ⟨inner, rest, value, rfl, hinner, hv, h⟩

/-- What is closed in front of a text is closed in front of a longer one. -/
theorem extend_append {c : Char} {t u : Text} (h : extend c t = .ok u) (rest : Text) :
    extend c (t ++ rest) = .ok (u ++ rest) := by
  by_cases hc : c = '('
  · subst hc
    obtain ⟨inner, after, value, rfl, hinner, hv, rfl⟩ := extend_opening_eq_ok h
    rw [List.append_assoc, List.cons_append, extend_opening hinner, hv]
    simp only [Except.map, List.append_assoc]
  · rw [extend_of_ne hc] at h ⊢
    rw [← Except.ok.inj h, List.cons_append]

theorem closeOnto_closed {t u : Text} (h : closeAll t = .ok u) (closed : Text) :
    closeOnto t closed = .ok (u ++ closed) := by
  induction t generalizing u with
  | nil =>
    obtain rfl : [] = u := by simpa using h
    rfl
  | cons c t ih =>
    rw [closeAll_cons] at h
    cases ht : closeAll t with
    | error fault => simp [ht, Except.bind] at h
    | ok v =>
      simp only [ht, Except.bind] at h
      rw [closeOnto_cons, ih ht]
      exact extend_append h closed

/-- A closing parenthesis that is left in a closed text parts the text itself. -/
theorem exists_closing {t x rest : Text} (h : closeAll t = .ok (x ++ ')' :: rest)) :
    ∃ inner after, t = inner ++ ')' :: after ∧ closeAll inner = .ok x ∧
      closeAll after = .ok rest := by
  induction t generalizing x with
  | nil => simp at h
  | cons c t ih =>
    rw [closeAll_cons] at h
    cases ht : closeAll t with
    | error fault => simp [ht, Except.bind] at h
    | ok v =>
      simp only [ht, Except.bind] at h
      by_cases hc : c = '('
      · subst hc
        obtain ⟨y, w, r, rfl, hy, hr, hsplit⟩ := extend_opening_eq_ok h
        have hnot : ')' ∉ r := not_mem_value hr (by decide) (by decide)
        obtain ⟨a, rfl, rfl⟩ := append_eq_append_cons_of_not_mem hnot hsplit
        have hv : y ++ ')' :: (a ++ ')' :: rest) = (y ++ ')' :: a) ++ ')' :: rest := by simp
        obtain ⟨inner, after, rfl, hinner, hafter⟩ := ih (hv ▸ ht)
        refine ⟨'(' :: inner, after, rfl, ?_, hafter⟩
        rw [closeAll_cons, hinner]
        simp only [Except.bind, extend_opening hy, hr, Except.map]
      · rw [extend_of_ne hc, Except.ok.injEq] at h
        cases x with
        | nil =>
          obtain ⟨rfl, rfl⟩ := List.cons.inj h
          exact ⟨[], t, rfl, rfl, ht⟩
        | cons a x =>
          obtain ⟨rfl, rfl⟩ := List.cons.inj h
          obtain ⟨inner, after, rfl, hinner, hafter⟩ := ih ht
          refine ⟨c :: inner, after, rfl, ?_, hafter⟩
          rw [closeAll_cons, hinner]
          exact extend_of_ne hc x

/-- A group of the text holds `x`, the groups inside it being replaced by their values. -/
def Within (t x : Text) : Prop :=
  ∃ before inner after, t = before ++ '(' :: (inner ++ ')' :: after) ∧ resolveGroups inner = .ok x

theorem Within.append {t x : Text} (h : Within t x) (s : Text) : Within (s ++ t) x := by
  obtain ⟨before, inner, after, rfl, hx⟩ := h
  exact ⟨s ++ before, inner, after, by simp, hx⟩

theorem Within.cons {t x : Text} (h : Within t x) (c : Char) : Within (c :: t) x := h.append [c]

def Holds (t x : Text) : Prop := resolveGroups t = .ok x ∨ Within t x

end Group

open Reckoner.Group

theorem resolveGroups_eq_ok_iff {t u : Text} :
    resolveGroups t = .ok u ↔ closeAll t = .ok u ∧ ')' ∉ u := by
  unfold resolveGroups
  cases closeAll t with
  | error fault => simp
  | ok v =>
    by_cases hv : ')' ∈ v
    · simp only [List.contains_iff_mem, hv, if_true, Except.ok.injEq, reduceCtorEq, false_iff]
      rintro ⟨rfl, hn⟩
      exact hn hv
    · simp only [List.contains_iff_mem, hv, if_false, Except.ok.injEq]
      refine ⟨?_, And.left⟩
      rintro rfl
      exact ⟨rfl, hv⟩

/-- Behind a text that lacks a character, the character is missing from the whole or from the rest
alike. -/
theorem append_eq_and_not_mem_iff {s w u : Text} {c : Char} (hs : c ∉ s) :
    s ++ w = u ∧ c ∉ u ↔ ∃ v, (w = v ∧ c ∉ v) ∧ u = s ++ v := by
  constructor
  · rintro ⟨rfl, hu⟩
    exact ⟨w, ⟨rfl, fun hm => hu (List.mem_append_right _ hm)⟩, rfl⟩
  · rintro ⟨v, ⟨rfl, hv⟩, rfl⟩
    exact ⟨rfl, fun hm => (List.mem_append.1 hm).elim hs hv⟩

/-- A text without parentheses stands in front of the groups' values as it is. -/
theorem resolveGroups_append {s : Text} (hs : '(' ∉ s ∧ ')' ∉ s) {t u : Text} :
    resolveGroups (s ++ t) = .ok u ↔ ∃ v, resolveGroups t = .ok v ∧ u = s ++ v := by
  simp only [resolveGroups_eq_ok_iff, closeAll_append]
  cases closeAll t with
  | error fault => simp [Except.bind]
  | ok w =>
    simp only [Except.bind, closeOnto_of_not_mem hs.1, Except.ok.injEq]
    exact append_eq_and_not_mem_iff hs.2

/-- A group without groups inside is its value in front of the groups' values. -/
theorem resolveGroups_group {s : Text} (hs : '(' ∉ s ∧ ')' ∉ s) {t u r : Text}
    (hr : evaluateFlat s = .ok r) :
    resolveGroups ('(' :: (s ++ ')' :: t)) = .ok u ↔ ∃ v, resolveGroups t = .ok v ∧ u = r ++ v := by
  have hr' : ')' ∉ r := not_mem_value hr (by decide) (by decide)
  have hs' : '(' ∉ s ++ [')'] := by simpa using hs.1
  have happ : s ++ ')' :: t = (s ++ [')']) ++ t := by simp
  simp only [resolveGroups_eq_ok_iff]
  rw [closeAll_cons, happ, closeAll_append]
  cases closeAll t with
  | error fault => simp [Except.bind]
  | ok w =>
    simp only [Except.bind, closeOnto_of_not_mem hs', List.append_assoc,
      List.singleton_append, extend_opening hs.2, hr, Except.map, Except.ok.injEq]
    exact append_eq_and_not_mem_iff hr'

theorem resolveGroups_of_not_mem {t : Text} (h : '(' ∉ t ∧ ')' ∉ t) : resolveGroups t = .ok t := by
  have := (@resolveGroups_append t h [] t).2 ⟨[], rfl, by simp⟩
  rwa [List.append_nil] at this

namespace Group

/-- What a text that ends a group leaves of the closing parenthesis behind it, with `s` in front of
that parenthesis. -/
theorem closeOnto_group {inner x s : Text} (h : resolveGroups inner = .ok x) (hs : ')' ∉ s)
    (before closed : Text) :
    closeOnto (before ++ '(' :: inner) (s ++ ')' :: closed) =
      ((evaluateFlat (x ++ s)).map (· ++ closed)).bind (closeOnto before) := by
  obtain ⟨hinner, hnot⟩ := resolveGroups_eq_ok_iff.1 h
  have hboth : ')' ∉ x ++ s := by simp [hnot, hs]
  rw [closeOnto_append, closeOnto_cons, closeOnto_closed hinner, ← List.append_assoc]
  simp only [Except.bind, extend_opening hboth]

/-- What an opening parenthesis is closed with is what its group holds. -/
theorem within_of_closeAll {t x rest : Text} (h : closeAll t = .ok (x ++ ')' :: rest))
    (hx : ')' ∉ x) : Within ('(' :: t) x := by
  obtain ⟨inner, after, rfl, hinner, -⟩ := exists_closing h
  exact ⟨[], inner, after, rfl, resolveGroups_eq_ok_iff.2 ⟨hinner, hx⟩⟩

theorem holds_iff_of_not_mem {t x : Text} (h : '(' ∉ t ∧ ')' ∉ t) : Holds t x ↔ x = t := by
  constructor
  · rintro (hx | ⟨before, inner, after, rfl, -⟩)
    · rw [resolveGroups_of_not_mem h] at hx
      exact (Except.ok.inj hx).symm
    · exact absurd (by simp) h.1
  · rintro rfl
    exact .inl (resolveGroups_of_not_mem h)

end Group

end Reckoner
