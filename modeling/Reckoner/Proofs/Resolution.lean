import Reckoner.Proofs.Groups

/-!
# Resolving groups in any order

A group may be replaced by its value before anything else is done, whatever stands around it, with
parentheses in balance or not. So groups can be resolved one after the other in any order, as long
as each has no group left inside when its turn comes, and the outcome is always the same.
-/

namespace Reckoner

open Reckoner.Group

/-- One group, without groups inside it, is replaced by its value. -/
inductive Replaces : Text → Text → Prop where
  | group (before : Text) {inner value : Text} (after : Text) (plain : '(' ∉ inner ∧ ')' ∉ inner)
    (evaluated : evaluateFlat inner = .ok value) :
    Replaces (before ++ '(' :: (inner ++ ')' :: after)) (before ++ (value ++ after))

namespace Group

/-- A value is closed already, so it closes as its group does. -/
theorem closeAll_group {inner s value : Text} (hs : resolveGroups inner = .ok s)
    (hv : evaluateFlat s = .ok value) (before after : Text) :
    closeAll (before ++ '(' :: (inner ++ ')' :: after)) =
      closeAll (before ++ (value ++ after)) := by
  have hvalue : '(' ∉ value := not_mem_value hv (by decide) (by decide)
  calc closeAll (before ++ '(' :: (inner ++ ')' :: after))
    _ = closeAll ((before ++ '(' :: inner) ++ ([] ++ ')' :: after)) := by simp
    _ = (closeAll after).bind fun closed =>
          closeOnto (before ++ '(' :: inner) ([] ++ ')' :: closed) :=
        closeAll_closing _ (by simp) after
    _ = (closeAll after).bind fun closed => closeOnto before (value ++ closed) := by
        congr 1
        funext closed
        rw [closeOnto_group hs (by simp), List.append_nil, hv]
        rfl
    _ = closeAll ((before ++ value) ++ after) := by
        rw [closeAll_append]
        congr 1
        funext closed
        rw [closeOnto_append, closeOnto_of_not_mem hvalue]
        rfl
    _ = closeAll (before ++ (value ++ after)) := by rw [List.append_assoc]

theorem resolveGroups_of_closeAll {t u : Text} (h : closeAll t = closeAll u) :
    resolveGroups t = resolveGroups u := by
  rw [resolveGroups, h, resolveGroups]

end Group

open Relation (ReflTransGen)

namespace Replaces

/-- A replacement changes neither the text nor the error that a text is resolved to. -/
theorem resolveGroups {t u : Text} (h : Replaces t u) :
    Reckoner.resolveGroups t = Reckoner.resolveGroups u := by
  obtain ⟨before, after, plain, evaluated⟩ := h
  exact resolveGroups_of_closeAll
    (closeAll_group (resolveGroups_of_not_mem plain) evaluated before after)

theorem run_resolveGroups {t u : Text} (h : ReflTransGen Replaces t u) :
    Reckoner.resolveGroups t = Reckoner.resolveGroups u := by
  induction h with
  | refl => rfl
  | tail _ step ih => rw [ih, step.resolveGroups]

theorem cons {t u : Text} (h : Replaces t u) (c : Char) : Replaces (c :: t) (c :: u) := by
  obtain ⟨before, after, plain, evaluated⟩ := h
  exact .group (c :: before) after plain evaluated

theorem run_cons {t u : Text} (h : ReflTransGen Replaces t u) (c : Char) :
    ReflTransGen Replaces (c :: t) (c :: u) := by
  induction h with
  | refl => exact .refl
  | tail _ step ih => exact ih.tail (step.cons c)

/-- Closing the groups from the end of a text is one of the orders. -/
theorem run_closeAll {t u : Text} (h : closeAll t = .ok u) : ReflTransGen Replaces t u := by
  induction t generalizing u with
  | nil =>
    obtain rfl : [] = u := by simpa using h
    exact .refl
  | cons c t ih =>
    obtain ⟨v, hv, hu⟩ := closeAll_cons_eq_ok h
    have hrun := run_cons (ih hv) c
    by_cases hc : c = '('
    · subst hc
      obtain ⟨inner, rest, value, rfl, hclosing, hvalue, rfl⟩ := extend_opening_eq_ok hu
      have hopening : '(' ∉ inner := fun hm =>
        opening_not_mem_closeAll hv (List.mem_append_left _ hm)
      exact hrun.tail (.group [] rest ⟨hopening, hclosing⟩ hvalue)
    · rw [extend_of_ne hc] at hu
      exact Except.ok.inj hu ▸ hrun

/-- Groups are resolved to what is left when none is left to be replaced. -/
theorem resolveGroups_eq_ok_iff {t u : Text} :
    Reckoner.resolveGroups t = .ok u ↔ ReflTransGen Replaces t u ∧ '(' ∉ u ∧ ')' ∉ u := by
  constructor
  · intro h
    obtain ⟨hclosed, hclosing⟩ := Reckoner.resolveGroups_eq_ok_iff.1 h
    exact ⟨run_closeAll hclosed, opening_not_mem_closeAll hclosed, hclosing⟩
  · rintro ⟨hrun, hplain⟩
    rw [run_resolveGroups hrun, resolveGroups_of_not_mem hplain]

end Replaces

/-- A group may be replaced by its value, whatever stands around it: the text is resolved to the
same text or the same error. So whichever group is replaced next, a text that is resolved at all is
resolved to the only text without parentheses that replacements lead to. -/
theorem resolveGroups_compositional :
    (∀ before inner after s value, resolveGroups inner = .ok s → evaluateFlat s = .ok value →
      resolveGroups (before ++ '(' :: (inner ++ ')' :: after)) =
        resolveGroups (before ++ (value ++ after))) ∧
    (∀ t u, ReflTransGen Replaces t u → resolveGroups t = resolveGroups u) ∧
    ∀ t u, resolveGroups t = .ok u ↔ ReflTransGen Replaces t u ∧ '(' ∉ u ∧ ')' ∉ u := by
  refine ⟨fun before inner after s value hs hv => ?_, fun t u => Replaces.run_resolveGroups,
    fun t u => Replaces.resolveGroups_eq_ok_iff⟩
  exact resolveGroups_of_closeAll (closeAll_group hs hv before after)

/-- A group with a group inside gives way to its value inside another group, and behind a
parenthesis that is never closed. -/
theorem resolveGroups_compositional_nested :
    (resolveGroups "2 * (3 - 5)".toList = .ok "2 * -2".toList ∧
      evaluateFlat "2 * -2".toList = .ok "-4".toList) ∧
    resolveGroups "(1 - (2 * (3 - 5))) * (7)".toList = resolveGroups "(1 - -4) * (7)".toList ∧
    resolveGroups "((2 * (3 - 5))".toList = resolveGroups "(-4".toList ∧
    ReflTransGen Replaces "(1 - -4) * (7)".toList "5 * 7".toList := by
  have hs : resolveGroups "2 * (3 - 5)".toList = .ok "2 * -2".toList := by decide +kernel
  have hv : evaluateFlat "2 * -2".toList = .ok "-4".toList := by decide +kernel
  have hr : resolveGroups "(1 - -4) * (7)".toList = .ok "5 * 7".toList := by decide +kernel
  obtain ⟨hgroup, -, horder⟩ := resolveGroups_compositional
  exact ⟨⟨hs, hv⟩, hgroup "(1 - ".toList _ ") * (7)".toList _ _ hs hv,
    hgroup "(".toList _ [] _ _ hs hv, ((horder _ _).1 hr).1⟩

end Reckoner
