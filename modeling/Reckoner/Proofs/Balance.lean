import Reckoner.Proofs.Groups

/-!
# Balanced parentheses

Closing the groups of a text never counts how deep they are, and yet it decides whether the
parentheses are balanced: what is closed keeps one closing parenthesis for each that has no partner,
and an opening one without a partner is a fault. So a balanced text can fail only in one of its
groups.
-/

namespace Reckoner

open Reckoner.Group

/-- Every closing parenthesis has its partner in front of it, and every opening one behind it. -/
structure IsBalanced (t : Text) : Prop where
  front : ∀ front, front <+: t → front.count ')' ≤ front.count '('
  whole : t.count '(' = t.count ')'

instance (t : Text) : Decidable (IsBalanced t) :=
  decidable_of_iff ((∀ front ∈ t.inits, front.count ')' ≤ front.count '(') ∧
      t.count '(' = t.count ')')
    ⟨fun h => ⟨fun front hf => h.1 front ((List.mem_inits front t).2 hf), h.2⟩,
      fun h => ⟨fun front hf => h.front front ((List.mem_inits front t).1 hf), h.whole⟩⟩

example : IsBalanced "((1) - (2))".toList ∧ ¬ IsBalanced "1) - (2".toList := by decide

namespace Group

theorem evaluateFlat_ne_parentheses (t : Text) : evaluateFlat t ≠ .error .parentheses := by
  intro h
  unfold evaluateFlat at h
  split at h
  · next fault hr =>
    obtain rfl : fault = .parentheses := by simpa using h
    cases reduceAll_error hr with
    | inl he => cases he
    | inr he => cases he
  · dsimp only at h
    split at h
    · cases h
    · cases h

/-- A group takes one closing parenthesis with it and its value brings none. -/
theorem count_extend {c : Char} {t u : Text} (h : extend c t = .ok u) :
    u.count ')' + [c].count '(' = t.count ')' + [c].count ')' := by
  by_cases hc : c = '('
  · subst hc
    obtain ⟨inner, rest, value, rfl, hinner, hv, rfl⟩ := extend_opening_eq_ok h
    have hvalue : ')' ∉ value := not_mem_value hv (by decide) (by decide)
    simp [List.count_append, List.count_eq_zero_of_not_mem hinner,
      List.count_eq_zero_of_not_mem hvalue]
  · rw [extend_of_ne hc] at h
    obtain rfl : c :: t = u := by simpa using h
    have hopening : [c].count '(' = 0 :=
      List.count_eq_zero_of_not_mem (by simpa using Ne.symm hc)
    rw [← List.singleton_append, List.count_append]
    omega

/-- What is closed keeps the closing parentheses that have no partner. -/
theorem count_closeAll {t u : Text} (h : closeAll t = .ok u) :
    u.count ')' + t.count '(' = t.count ')' := by
  induction t generalizing u with
  | nil =>
    obtain rfl : [] = u := by simpa using h
    rfl
  | cons c t ih =>
    obtain ⟨v, hv, hu⟩ := closeAll_cons_eq_ok h
    have hstep := count_extend hu
    have hrest := ih hv
    rw [← List.singleton_append, List.count_append, List.count_append]
    omega

theorem exists_closeAll_of_append {s t u : Text} (h : closeAll (s ++ t) = .ok u) :
    ∃ v, closeAll t = .ok v := by
  rw [closeAll_append] at h
  cases ht : closeAll t with
  | error fault => simp [ht, Except.bind] at h
  | ok v => exact ⟨v, rfl⟩

/-- Read from its end, a text that is closed never opens more groups than it has closed. -/
theorem count_le_of_closeAll {s t u : Text} (h : closeAll (s ++ t) = .ok u) :
    t.count '(' ≤ t.count ')' := by
  obtain ⟨v, hv⟩ := exists_closeAll_of_append h
  have := count_closeAll hv
  omega

theorem isBalanced_iff_of_closeAll {t u : Text} (h : closeAll t = .ok u) :
    IsBalanced t ↔ ')' ∉ u := by
  have hcount := count_closeAll h
  constructor
  · intro hb
    have hwhole := hb.whole
    exact List.count_eq_zero.1 (by omega)
  · intro hu
    have hzero := List.count_eq_zero_of_not_mem hu
    refine ⟨?_, by omega⟩
    rintro front ⟨rest, rfl⟩
    have hrest := count_le_of_closeAll h
    rw [List.count_append, List.count_append] at hcount
    omega

/-- An opening parenthesis with no closing one left behind it has no partner. -/
theorem not_isBalanced_of_opening {front rest v : Text} (h : closeAll rest = .ok v)
    (hv : ')' ∉ v) : ¬ IsBalanced (front ++ '(' :: rest) := by
  intro hb
  have hcount := count_closeAll h
  have hzero := List.count_eq_zero_of_not_mem hv
  have hwhole := hb.whole
  have hfront := hb.front front (List.prefix_append front _)
  simp only [List.count_append, List.count_cons_self,
    List.count_cons_of_ne (show '(' ≠ ')' by decide)] at hwhole
  omega

/-- The first fault, from the end of the text, is that of an opening parenthesis. -/
theorem closeAll_eq_error {t : Text} {fault : Fault} (h : closeAll t = .error fault) :
    ∃ front rest v, t = front ++ '(' :: rest ∧ closeAll rest = .ok v ∧
      extend '(' v = .error fault := by
  induction t with
  | nil => cases h
  | cons c t ih =>
    rw [closeAll_cons] at h
    cases ht : closeAll t with
    | error f =>
      obtain rfl : f = fault := by simpa [ht, Except.bind] using h
      obtain ⟨front, rest, v, rfl, hrest, hv⟩ := ih ht
      exact ⟨c :: front, rest, v, rfl, hrest, hv⟩
    | ok v =>
      have he : extend c v = .error fault := by simpa [ht, Except.bind] using h
      have hc : c = '(' := by
        by_contra hne
        rw [extend_of_ne hne] at he
        cases he
      subst hc
      exact ⟨[], t, v, rfl, ht, he⟩

/-- Closing fails where a parenthesis has no partner, or with the fault of a group. -/
theorem closeAll_error_cases {t : Text} {fault : Fault} (h : closeAll t = .error fault) :
    (fault = .parentheses ∧ ¬ IsBalanced t) ∨ ∃ x, Within t x ∧ evaluateFlat x = .error fault := by
  obtain ⟨front, rest, v, rfl, hrest, hv⟩ := closeAll_eq_error h
  cases hs : split? v with
  | none =>
    have hnot := (split?_eq_none_iff v).1 hs
    rw [extend_opening_of_not_mem hnot] at hv
    exact .inl ⟨(Except.error.inj hv).symm, not_isBalanced_of_opening hrest hnot⟩
  | some found =>
    obtain ⟨x, after⟩ := found
    obtain ⟨rfl, hx⟩ := split?_eq_some hs
    rw [extend_opening hx] at hv
    refine .inr ⟨x, (within_of_closeAll hrest hx).append front, ?_⟩
    cases he : evaluateFlat x with
    | error f => simpa [he, Except.map] using hv
    | ok value => simp [he, Except.map] at hv

/-- A group that has no value keeps the text from being closed. -/
theorem exists_value_of_within {t x u : Text} (hx : Within t x) (h : closeAll t = .ok u) :
    ∃ value, evaluateFlat x = .ok value := by
  obtain ⟨before, inner, after, rfl, hinner⟩ := hx
  have happ : before ++ '(' :: (inner ++ ')' :: after) =
      (before ++ '(' :: inner) ++ ([] ++ ')' :: after) := by simp
  rw [happ, closeAll_closing _ (by simp)] at h
  cases ha : closeAll after with
  | error fault => simp [ha, Except.bind] at h
  | ok closed =>
    rw [ha] at h
    simp only [Except.bind] at h
    rw [closeOnto_group hinner (by simp), List.append_nil] at h
    cases hv : evaluateFlat x with
    | error fault => simp [hv, Except.map, Except.bind] at h
    | ok value => exact ⟨value, rfl⟩

end Group

/-- Groups are resolved just where the parentheses are balanced and every group has a value. -/
theorem exists_resolveGroups_iff (t : Text) :
    (∃ u, resolveGroups t = .ok u) ↔
      IsBalanced t ∧ ∀ x, Within t x → ∃ value, evaluateFlat x = .ok value := by
  constructor
  · rintro ⟨u, hu⟩
    obtain ⟨hclosed, hclosing⟩ := resolveGroups_eq_ok_iff.1 hu
    exact ⟨(isBalanced_iff_of_closeAll hclosed).2 hclosing,
      fun x hx => exists_value_of_within hx hclosed⟩
  · rintro ⟨hb, hvalues⟩
    cases h : closeAll t with
    | ok u => exact ⟨u, resolveGroups_eq_ok_iff.2 ⟨h, (isBalanced_iff_of_closeAll h).1 hb⟩⟩
    | error fault =>
      cases closeAll_error_cases h with
      | inl hfault => exact absurd hb hfault.2
      | inr hgroup =>
        obtain ⟨x, hx, he⟩ := hgroup
        obtain ⟨value, hv⟩ := hvalues x hx
        rw [he] at hv
        cases hv

/-- A text whose groups cannot be resolved has a parenthesis without a partner or a group without a
value, and the fault tells which. -/
theorem resolveGroups_error_cases {t : Text} {fault : Fault}
    (h : resolveGroups t = .error fault) :
    (fault = .parentheses ∧ ¬ IsBalanced t) ∨
      (fault ≠ .parentheses ∧ ∃ x, Within t x ∧ evaluateFlat x = .error fault) := by
  unfold resolveGroups at h
  cases hc : closeAll t with
  | error f =>
    obtain rfl : f = fault := by simpa [hc] using h
    cases closeAll_error_cases hc with
    | inl hfault => exact .inl hfault
    | inr hgroup =>
      obtain ⟨x, hx, he⟩ := hgroup
      refine .inr ⟨?_, x, hx, he⟩
      rintro rfl
      exact evaluateFlat_ne_parentheses x he
  | ok u =>
    rw [hc] at h
    by_cases hu : ')' ∈ u
    · obtain rfl : Fault.parentheses = fault := by simpa [hu] using h
      exact .inl ⟨rfl, fun hb => (isBalanced_iff_of_closeAll hc).1 hb hu⟩
    · simp [hu] at h

/-- Resolving groups decides balance: a text that is resolved has balanced parentheses and keeps
none, a text without balance is an error, and one with balance fails only with the fault of one of
its groups. -/
theorem resolveGroups_balance (t : Text) :
    (∀ u, resolveGroups t = .ok u → IsBalanced t ∧ '(' ∉ u ∧ ')' ∉ u) ∧
    (resolveGroups t = .error .parentheses → ¬ IsBalanced t) ∧
    (¬ IsBalanced t → ∃ fault, resolveGroups t = .error fault) ∧
    (IsBalanced t → ∀ fault, resolveGroups t = .error fault →
      ∃ x, Within t x ∧ evaluateFlat x = .error fault) := by
  have hok : ∀ u, resolveGroups t = .ok u → IsBalanced t ∧ '(' ∉ u ∧ ')' ∉ u := by
    intro u hu
    obtain ⟨hclosed, hclosing⟩ := resolveGroups_eq_ok_iff.1 hu
    exact ⟨(isBalanced_iff_of_closeAll hclosed).2 hclosing, opening_not_mem_closeAll hclosed,
      hclosing⟩
  refine ⟨hok, fun h => ?_, fun hb => ?_, fun hb fault h => ?_⟩
  · cases resolveGroups_error_cases h with
    | inl hfault => exact hfault.2
    | inr hgroup => exact absurd rfl hgroup.1
  · cases h : resolveGroups t with
    | error fault => exact ⟨fault, rfl⟩
    | ok u => exact absurd (hok u h).1 hb
  · cases resolveGroups_error_cases h with
    | inl hfault => exact absurd hb hfault.2
    | inr hgroup => exact hgroup.2

end Reckoner
