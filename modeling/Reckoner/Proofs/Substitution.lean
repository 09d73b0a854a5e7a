import Reckoner.Proofs.Verdicts

/-!
# Replacing variables all at once

Names are replaced one after the other, each in the text that the others have left. The outcome is
that of replacing every character for itself, so it depends neither on the order of the names nor on
variables that do not occur. Where letters stand apart, it has the lexemes of the text, except that
each variable gives way to the literal of its value and the minus sign in front of it.
-/

namespace Reckoner

open Literal

def Lexeme.ofValue (v : Float) : List Lexeme :=
  Check.signed ((render v).head? == some '-') (unsignedPart (render v))

/-- The lexemes of a finite value are those of its text. -/
theorem Lexeme.list_render {v : Float} (h : Binary64.isFinite v = true) :
    list (render v) = ofValue v :=
  (list_isSigned (isSigned_render_of_isFinite h)).2

namespace Store

open Lexeme (list)

variable {store : Store} {account : Account}

/-- The lexemes in the place of a lexeme: those of its value if it is a letter that names a variable
of the account, and else itself. -/
def expansion (store : Store) (account : Account) (l : Lexeme) : List Lexeme :=
  match l.kind, l.text with
  | .letter, [c] =>
    match store.get? account c with
    | some v => Lexeme.ofValue v
    | none => [l]
  | _, _ => [l]

theorem expansion_of_ne_letter {l : Lexeme} (h : l.kind ≠ .letter) :
    store.expansion account l = [l] := by
  obtain ⟨kind, text⟩ := l
  unfold expansion
  split
  · next hkind _ => exact absurd hkind h
  · rfl

theorem expansion_letter (c : Char) :
    store.expansion account ⟨.letter, [c]⟩ = match store.get? account c with
      | some v => Lexeme.ofValue v
      | none => [⟨.letter, [c]⟩] := rfl

/-- What is lexed of a replaced lexeme is what stands in its place. -/
theorem Sound.valueLexemes_eq_expansion (hs : Sound store) (account : Account) {l : Lexeme}
    {t : Text} (h : l ∈ list t) : store.valueLexemes account l = store.expansion account l := by
  rcases Lexeme.letter_or_of_mem_list h with ⟨c, hc, rfl⟩ | ⟨hkind, -⟩
  · rw [valueLexemes, if_pos rfl, hs.substitute, List.flatMap_singleton, rendering,
      expansion_letter]
    cases hv : store.get? account c with
    | none => exact Lexeme.list_letter_cons hc []
    | some v => exact Lexeme.list_render (hs account c v hv).2
  · rw [valueLexemes, if_neg hkind, expansion_of_ne_letter hkind]

theorem Sound.list_substitute_eq_expansion (hs : Sound store) (account : Account) {t : Text}
    (h : Check.variableNames.fails (list t) = false) :
    list (store.substitute account t) = (list t).flatMap (store.expansion account) := by
  rw [hs.list_substitute account h]
  exact List.flatMap_congr fun l hl => hs.valueLexemes_eq_expansion account hl

/-- Two stores replace the letters of a text alike if they agree on these letters. -/
theorem Sound.substitute_congr {other : Store} (hs : Sound store) (ho : Sound other)
    {otherAccount : Account} {t : Text}
    (h : ∀ c ∈ t, c.isAlpha = true → store.get? account c = other.get? otherAccount c) :
    store.substitute account t = other.substitute otherAccount t := by
  rw [hs.substitute, ho.substitute]
  refine List.flatMap_congr fun c hc => ?_
  cases halpha : c.isAlpha with
  | true => rw [rendering, rendering, h c hc halpha]
  | false =>
    rw [hs.rendering_of_not_letter account c halpha, ho.rendering_of_not_letter _ c halpha]

/-- Replacing one name after the other replaces every character for itself. The names may be taken
in any order, and only the values of letters that occur matter. Where letters stand apart, the
lexemes of the values take the places of the variables and no other lexeme changes. -/
theorem substitute_simultaneous (h : Reachable store) (account : Account) (t : Text) :
    store.substitute account t = t.flatMap (store.rendering account) ∧
    (∀ named : List (Char × Float), named.Perm (store.bindings account) →
      named.foldl (fun t (name, v) => Text.substitute name (render v) t) t =
        store.substitute account t) ∧
    (∀ (other : Store) (otherAccount : Account), Reachable other →
      (∀ c ∈ t, c.isAlpha = true → store.get? account c = other.get? otherAccount c) →
        store.substitute account t = other.substitute otherAccount t) ∧
    (Check.variableNames.fails (list t) = false →
      list (store.substitute account t) = (list t).flatMap (store.expansion account)) := by
  refine ⟨h.sound.substitute account t, fun named hperm => ?_,
    fun other otherAccount ho hsame => ?_, h.sound.list_substitute_eq_expansion account⟩
  · have hnamed : ∀ c v, (c, v) ∈ named ↔ store.get? account c = some v := fun c v =>
      hperm.mem_iff.trans (mem_bindings_iff store account c v)
    rw [h.sound.foldl_substitute hnamed, h.sound.substitute]
  · exact h.sound.substitute_congr ho.sound hsame

/-- A negative value of `x` stands behind an operator with a minus sign of its own; `y` is no
variable and stays. -/
theorem substitute_simultaneous_negative :
    Reachable negativeFive ∧ Check.variableNames.fails (list "2*x + y".toList) = false ∧
      negativeFive.substitute "a" "2*x + y".toList = "2*-5 + y".toList ∧
        list (negativeFive.substitute "a" "2*x + y".toList) =
          (list "2*x + y".toList).flatMap (negativeFive.expansion "a") := by
  have hreachable : Reachable negativeFive := ⟨_, rfl⟩
  have happart : Check.variableNames.fails (list "2*x + y".toList) = false := by decide
  obtain ⟨heach, -, -, hlexemes⟩ :=
    substitute_simultaneous hreachable "a" "2*x + y".toList
  exact ⟨hreachable, happart, heach.trans (by decide +kernel), hlexemes happart⟩

end Store

end Reckoner
