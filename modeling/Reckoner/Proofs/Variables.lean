import Reckoner.Proofs.Changes
import Reckoner.Proofs.Rendering

/-!
# The variables of an account

Requests leave every variable with a letter for its name and a finite value. The text of such a
value holds no letters, so replacing one name after the other is the same as replacing all names at
once.
-/

namespace Reckoner.Store

open Literal

/-- Every variable is named by a letter and has a finite value. -/
def Sound (store : Store) : Prop :=
  ∀ account name v, store.get? account name = some v →
    name.isAlpha = true ∧ Binary64.isFinite v = true

theorem sound_empty : Sound empty := by
  intro account name v h
  simp [get?, empty] at h

theorem get?_insert (store : Store) (account other : Account) (name c : Char) (v : Float) :
    (store.insert account name v).get? other c =
      if account = other ∧ name = c then some v else store.get? other c := by
  by_cases ha : account = other
  · subst ha
    cases hs : store.accounts[account]? with
    | none => simp [get?, insert, hs, Std.TreeMap.getD_eq_getD_getElem?, Std.TreeMap.getElem?_insert]
    | some held =>
      simp [get?, insert, hs, Std.TreeMap.getD_eq_getD_getElem?, Std.TreeMap.getElem?_insert]
  · simp [get?, insert, Std.TreeMap.getElem?_insert, ha]

theorem get?_clear (store : Store) (account other : Account) (c : Char) :
    (store.clear account).get? other c = if account = other then none else store.get? other c := by
  by_cases ha : account = other
  · subst ha
    simp [get?, clear]
  · simp [get?, clear, Std.TreeMap.getElem?_erase, ha]

/-- No request gives a variable another name or value. -/
theorem Sound.respond {store : Store} (h : Sound store) (account : Account) (request : Request) :
    Sound (store.respond account request).1 := by
  rw [respond_fst]
  cases hc : store.change? account request with
  | none => exact h
  | some change =>
    intro other d w hw
    cases change with
    | write written c v =>
      obtain ⟨-, hletter, hfinite⟩ := change?_write hc
      rw [changed_some, Change.apply, get?_insert] at hw
      split at hw
      · next he =>
        obtain rfl := Option.some.inj hw
        exact ⟨he.2 ▸ hletter, hfinite⟩
      · exact h other d w hw
    | clear cleared =>
      rw [changed_some, Change.apply, get?_clear] at hw
      split at hw
      · cases hw
      · exact h other d w hw

theorem Sound.after {store : Store} (h : Sound store) (requests : List (Account × Request)) :
    Sound (store.after requests) := by
  induction requests generalizing store with
  | nil => exact h
  | cons request requests ih => exact ih (h.respond request.1 request.2)

theorem Reachable.sound {store : Store} (h : Reachable store) : Sound store := by
  obtain ⟨requests, rfl⟩ := h
  exact sound_empty.after requests

theorem mem_bindings_iff (store : Store) (account : Account) (c : Char) (v : Float) :
    (c, v) ∈ store.bindings account ↔ store.get? account c = some v := by
  unfold bindings get?
  cases store.accounts[account]? with
  | none => simp
  | some held => exact Std.TreeMap.mem_toList_iff_getElem?_eq_some

/-- The text that stands for a character once the account's variables are replaced. -/
def rendering (store : Store) (account : Account) (c : Char) : Text :=
  match store.get? account c with
  | some v => render v
  | none => [c]

theorem rendering_of_get? {store : Store} {account : Account} {c : Char} {v : Float}
    (h : store.get? account c = some v) : store.rendering account c = render v := by
  simp only [rendering, h]

/-- No letter is written in a finite value. -/
theorem isAlpha_eq_false_of_render {v : Float} (h : Binary64.isFinite v = true) :
    ∀ c ∈ render v, c.isAlpha = false := by
  rcases isSigned_render_of_isFinite h with hd | ⟨d, he, hd⟩
  · exact hd.not_letter
  · rw [he]
    intro c hc
    rcases List.mem_cons.1 hc with rfl | hc
    · decide
    · exact hd.not_letter c hc

def replacement (named : List (Char × Float)) (c : Char) : Text :=
  match named.find? (·.1 == c) with
  | some (_, v) => render v
  | none => [c]

theorem replacement_of_not_letter {named : List (Char × Float)}
    (h : ∀ p ∈ named, p.1.isAlpha = true) {c : Char} (hc : c.isAlpha = false) :
    replacement named c = [c] := by
  have hnone : named.find? (·.1 == c) = none := by
    rw [List.find?_eq_none]
    intro p hp he
    obtain rfl : p.1 = c := by simpa using he
    rw [h p hp] at hc
    exact absurd hc (by decide)
  simp [replacement, hnone]

/-- The text put in the place of a name holds no name that is still to be replaced. -/
theorem foldl_substitute {named : List (Char × Float)}
    (h : ∀ p ∈ named, p.1.isAlpha = true ∧ Binary64.isFinite p.2 = true) (t : Text) :
    named.foldl (fun t (name, v) => Text.substitute name (render v) t) t =
      t.flatMap (replacement named) := by
  induction named generalizing t with
  | nil =>
    have hnil : replacement [] = fun c => [c] := by
      funext c
      rfl
    simp [hnil]
  | cons p named ih =>
    obtain ⟨name, v⟩ := p
    have hrest : ∀ p ∈ named, p.1.isAlpha = true ∧ Binary64.isFinite p.2 = true :=
      fun p hp => h p (List.mem_cons_of_mem _ hp)
    rw [List.foldl_cons, ih hrest]
    simp only [Text.substitute, List.flatMap_assoc]
    congr 1
    funext c
    by_cases hc : c = name
    · subst hc
      have hsame : ∀ u : Text, (∀ a ∈ u, a.isAlpha = false) →
          u.flatMap (replacement named) = u := by
        intro u hu
        induction u with
        | nil => rfl
        | cons a u ihu =>
          rw [List.flatMap_cons,
            replacement_of_not_letter (fun p hp => (hrest p hp).1) (hu a (by simp)),
            ihu fun b hb => hu b (by simp [hb])]
          rfl
      have hrender := hsame (render v) (isAlpha_eq_false_of_render (h (c, v) (by simp)).2)
      simp [replacement, hrender]
    · have hne : name ≠ c := fun he => hc he.symm
      simp [replacement, hc, hne]

/-- Variables are replaced as if all at once, in whatever order they are listed. -/
theorem Sound.foldl_substitute {store : Store} (h : Sound store) {account : Account}
    {named : List (Char × Float)}
    (hnamed : ∀ c v, (c, v) ∈ named ↔ store.get? account c = some v) (t : Text) :
    named.foldl (fun t (name, v) => Text.substitute name (render v) t) t =
      t.flatMap (store.rendering account) := by
  have hsound : ∀ p ∈ named, p.1.isAlpha = true ∧ Binary64.isFinite p.2 = true :=
    fun p hp => h account p.1 p.2 ((hnamed p.1 p.2).1 hp)
  rw [Store.foldl_substitute hsound]
  congr 1
  funext c
  unfold replacement rendering
  cases hf : named.find? (·.1 == c) with
  | some p =>
    obtain ⟨name, v⟩ := p
    obtain rfl : name = c := by simpa using List.find?_some hf
    rw [(hnamed name v).1 (List.mem_of_find?_eq_some hf)]
  | none =>
    cases hv : store.get? account c with
    | none => rfl
    | some v =>
      have := List.find?_eq_none.1 hf _ ((hnamed c v).2 hv)
      simp at this

/-- The variables of an account are replaced as if all at once. -/
theorem Sound.substitute {store : Store} (h : Sound store) (account : Account) (t : Text) :
    store.substitute account t = t.flatMap (store.rendering account) :=
  h.foldl_substitute (mem_bindings_iff store account) t

theorem Sound.isSigned_rendering {store : Store} (h : Sound store) {account : Account} {c : Char}
    (hc : (store.get? account c).isSome = true) :
    IsSigned IsDecimal (store.rendering account c) := by
  obtain ⟨v, hv⟩ := Option.isSome_iff_exists.1 hc
  rw [rendering_of_get? hv]
  exact isSigned_render_of_isFinite (h account c v hv).2

theorem Sound.isAlpha {store : Store} (h : Sound store) {account : Account} {c : Char}
    (hc : (store.get? account c).isSome = true) : c.isAlpha = true := by
  obtain ⟨v, hv⟩ := Option.isSome_iff_exists.1 hc
  exact (h account c v hv).1

theorem Sound.rendering_of_not_letter {store : Store} (h : Sound store) (account : Account)
    (c : Char) (hc : c.isAlpha = false) : store.rendering account c = [c] := by
  cases hv : store.get? account c with
  | none => simp [rendering, hv]
  | some v =>
    rw [(h account c v hv).1] at hc
    exact absurd hc (by decide)

theorem Sound.substitute_append {store : Store} (h : Sound store) {account : Account} (s t : Text) :
    store.substitute account (s ++ t) =
      store.substitute account s ++ store.substitute account t := by
  simp only [h.substitute, List.flatMap_append]

/-- What is no letter stays as it is. -/
theorem Sound.substitute_cons {store : Store} (h : Sound store) {account : Account} {c : Char}
    (hc : c.isAlpha = false) (t : Text) :
    store.substitute account (c :: t) = c :: store.substitute account t := by
  simp only [h.substitute, List.flatMap_cons, h.rendering_of_not_letter account c hc,
    List.singleton_append]

theorem Sound.substitute_spaces_append {store : Store} (h : Sound store) {account : Account}
    (n : Nat) (t : Text) :
    store.substitute account (List.replicate n ' ' ++ t) =
      List.replicate n ' ' ++ store.substitute account t := by
  induction n with
  | zero => rfl
  | succ n ih =>
    rw [List.replicate_succ, List.cons_append, h.substitute_cons (by decide), ih, List.cons_append]

end Reckoner.Store
