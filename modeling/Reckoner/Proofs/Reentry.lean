import Reckoner.Proofs.Commands
import Reckoner.Proofs.History
import Reckoner.Proofs.ReadBack

/-!
# Entering an answer again

The answer to an equation is an equation itself, with a value on its right side that is read as it
stands. Entered again it assigns the same value to the same variable and is answered by itself. Only
a minus sign of zero, which is not written, is lost.
-/

namespace Reckoner

open Literal

def assignmentText (c : Char) (v : Float) : Text := c :: (" = ".toList ++ render v)

/-- The same variables have values in two stores, and the values are equal as numbers. -/
def Store.SameValues (store other : Store) : Prop :=
  ∀ account c, Option.Rel (fun v w => (v == w) = true) (store.get? account c) (other.get? account c)

namespace Literal

theorem isDotted_digits_append {ds : Text} (h : ∀ c ∈ ds, c.isDigit = true) (t : Text) :
    isDotted false (ds ++ t) = isDotted false t := by
  induction ds with
  | nil => rfl
  | cons c ds ih =>
    rw [List.cons_append, isDotted, if_pos (h c (by simp)), ih fun d hd => h d (by simp [hd])]

theorem isDotted_digits_first {ds : Text} (h : IsDigits ds) (t : Text) :
    isDotted true (ds ++ t) = isDotted false t := by
  obtain ⟨c, r, rfl, hc⟩ := h.head
  have hr : ∀ d ∈ r, d.isDigit = true := fun d hd => h.2 d (by simp [hd])
  rw [List.cons_append, isDotted, if_pos hc, isDotted_digits_append hr]

/-- A minus sign and a decimal are a negative literal. -/
theorem isNegative_minus {d : Text} (h : IsDecimal d) : isNegative ('-' :: d) = true := by
  rw [isNegative, Bool.or_eq_true]
  right
  rcases h with h | ⟨ds, f, hds, ⟨fs, hfs, rfl⟩, rfl⟩
  · have := isDotted_digits_first h []
    rwa [List.append_nil] at this
  · have hpoint : isDotted false ('.' :: fs) = isDotted true fs := by
      rw [isDotted, if_neg (by decide)]
      rfl
    have hfraction := isDotted_digits_first hfs []
    rw [List.append_nil] at hfraction
    rw [isDotted_digits_first hds, hpoint, hfraction]
    rfl

end Literal

/-- A value is written without blanks and without an equals sign. -/
theorem render_facts (v : Float) : (∀ c ∈ render v, Text.isBlank c = false) ∧ '=' ∉ render v ∧
    render v ≠ [] := by
  have hword : ∀ {w : Text}, IsWord w → (∀ c ∈ w, Text.isBlank c = false) ∧ '=' ∉ w := by
    intro w hw
    refine ⟨fun c hc => isBlank_of_isWordChar (hw.all_isWordChar c hc), fun hmem => ?_⟩
    exact absurd (hw.all_isWordChar '=' hmem) (by decide)
  rcases isSigned_render v with hw | ⟨w, he, hw⟩
  · exact ⟨(hword hw).1, (hword hw).2, hw.ne_nil⟩
  · rw [he]
    obtain ⟨hblank, hequals⟩ := hword hw
    refine ⟨fun c hc => ?_, by simpa using hequals, by simp⟩
    rcases List.mem_cons.1 hc with rfl | hc
    · decide
    · exact hblank c hc

theorem letter_facts {c : Char} (h : c.isAlpha = true) :
    Text.isBlank c = false ∧ c ≠ '=' ∧ isOperatorChar c = false := by
  have hword : isWordChar c = true := by simp [isWordChar, h]
  refine ⟨isBlank_of_isWordChar hword, ?_, isOperatorChar_of_isWordChar hword⟩
  rintro rfl
  exact absurd h (by decide)

theorem trim_letter {c : Char} (h : c.isAlpha = true) : Text.trim [c] = [c] :=
  trim_of_not_blank (by simpa using (letter_facts h).1)

section

variable {c : Char} {v : Float}

/-- What is answered to an equation is trimmed already. -/
theorem trim_assignmentText (hc : c.isAlpha = true) (v : Float) :
    Text.trim (assignmentText c v) = assignmentText c v := by
  obtain ⟨hblank, -, hne⟩ := render_facts v
  rw [assignmentText, trim_cons (letter_facts hc).1, trimEnd_append hblank hne]

theorem ofText_assignmentText (hc : c.isAlpha = true) (v : Float) :
    Equation.ofText (assignmentText c v) = .ok ⟨[c], render v⟩ := by
  obtain ⟨hblank, hequals, -⟩ := render_facts v
  have hne : (c != '=') = true := by simpa using (letter_facts hc).2.1
  have hname : Text.trim [c, ' '] = [c] := by
    have := trim_append_spaces 1 [c]
    rwa [trim_letter hc] at this
  have hright : Text.trim (' ' :: render v) = render v := by
    have := trim_spaces_append 1 (render v)
    rwa [trim_of_not_blank hblank] at this
  simp [Equation.ofText, assignmentText, hne, hequals, hname, hright]

/-- A finite value on the right side of an equation is read as it stands. -/
theorem isDirect_render (hv : Binary64.isFinite v = true) (name : Text) :
    Equation.isDirect ⟨name, render v⟩ = true := by
  unfold Equation.isDirect
  rw [Bool.or_eq_true]
  rcases isSigned_render_of_isFinite hv with hd | ⟨d, he, hd⟩
  · left
    have hplain : hasOperator (render v) = false :=
      List.any_eq_false.2 fun c hc => by simp [IsWord.not_operator (.inl hd) c hc]
    rw [hplain]
    rfl
  · right
    rw [he]
    exact isNegative_minus hd

end

namespace Store

variable {store next : Store} {account : Account} {c : Char} {v : Float}

theorem value_of_isDirect {e : Equation} (h : e.isDirect = true) : e.value store account =
    .ok ((leadingNumber? e.right).getD Binary64.nan) := by
  rw [Equation.value, Equation.valueText, if_pos h]
  rfl

/-- The answer to an equation, as an equation itself, assigns what it says. -/
theorem exists_solve_assignmentText (hc : c.isAlpha = true) (hv : Binary64.isFinite v = true)
    (store : Store) (account : Account) :
    ∃ w, (v == w) = true ∧ store.solve account (assignmentText c v) =
      .ok (store.insert account c w, assignmentText c v) := by
  obtain ⟨w, hw, hfinite, hrender, heq⟩ := exists_leadingNumber?_render hv
  refine ⟨w, heq, solve_eq_ok_iff.2 ⟨_, c, w, ofText_assignmentText hc v, ?_,
    variableName?_eq_some_iff.2 ⟨rfl, hc⟩, hfinite, rfl, ?_⟩⟩
  · rw [value_of_isDirect (isDirect_render hv [c]), hw]
    rfl
  · rw [Equation.reply, hrender]
    rfl

theorem execute_assignmentText (hc : c.isAlpha = true) (v : Float)
    {outcome : Store × Text} (h : store.solve account (assignmentText c v) = .ok outcome) :
    store.execute account (assignmentText c v) = outcome := by
  have htrim := trim_assignmentText hc v
  have hmem : '=' ∈ assignmentText c v := by simp [assignmentText]
  rw [execute_of_mem (by rwa [htrim]), htrim, h]

/-- A letter alone looks its variable up. -/
theorem ofText_letter (hc : c.isAlpha = true) : Command.ofText [c] = .lookup [c] := by
  obtain ⟨-, hequals, hoperator⟩ := letter_facts hc
  have hkeyword : Keyword.ofText? [c] = none := by
    rw [Keyword.ofText?, List.find?_eq_none]
    intro k _ hname
    have hlength : k.name.length = 1 := by rw [beq_iff_eq.1 hname]; rfl
    cases k <;> exact absurd hlength (by decide)
  have hname : (variableName? [c]).isSome = true := by
    rw [variableName?_eq_some_iff.2 ⟨rfl, hc⟩]
    rfl
  rw [Command.ofText, trim_letter hc, Command.ofTrimmed, hkeyword]
  simp [hasOperator, hequals.symm, hoperator, hname]

theorem execute_letter (hc : c.isAlpha = true) (hv : store.get? account c = some v) :
    store.execute account [c] = (store, render v) := by
  have hlookup : store.lookup account [c] = .ok v :=
    lookup_eq_ok_iff.2 ⟨c, variableName?_eq_some_iff.2 ⟨rfl, hc⟩, hv⟩
  rw [execute, ofText_letter hc, Command.run, hlookup]
  rfl

/-- Giving a variable an equal value changes no number. -/
theorem Sound.sameValues_insert (hs : Sound store) {w : Float}
    (hv : store.get? account c = some v) (h : (v == w) = true) :
    SameValues store (store.insert account c w) := by
  intro other d
  rw [get?_insert]
  split
  · next he =>
    obtain ⟨rfl, rfl⟩ := he
    rw [hv]
    exact .some h
  · cases hu : store.get? other d with
    | none => exact .none
    | some u =>
      obtain ⟨negative, m, hm, rfl⟩ := exists_ofMagnitude (hs other d u hu).2
      exact .some (Binary64.beq_ofMagnitude_self negative (Nat.le_of_lt hm))

/-- The answer to an equation can be entered again. It is its own answer, as an equation and as a
command, and no variable gets another number. The letter alone is answered by the value. -/
theorem solve_reply {store next : Store} {account : Account} {t reply : Text}
    (hs : Reachable store) (h : store.solve account t = .ok (next, reply)) :
    ∃ c value, Text.trim (t.takeWhile (· != '=')) = [c] ∧ reply = c :: (" = ".toList ++ value) ∧
      next.execute account [c] = (next, value) ∧
      ∃ again, next.solve account reply = .ok (again, reply) ∧
        next.execute account reply = (again, reply) ∧ SameValues next again := by
  obtain ⟨e, c, v, he, -, hname, hv, rfl, rfl⟩ := solve_eq_ok_iff.1 h
  obtain ⟨hletter, hc⟩ := variableName?_eq_some_iff.1 hname
  have hreply : e.reply v = assignmentText c v := by
    rw [Equation.reply, hletter]
    rfl
  have hsound : Sound (store.insert account c v) := by
    have hrespond : (store.respond account (.solve t)).1 = store.insert account c v := by
      rw [respond, h]
      rfl
    rw [← hrespond]
    exact hs.sound.respond account (.solve t)
  have hget : (store.insert account c v).get? account c = some v := by simp [get?_insert]
  rw [hreply]
  obtain ⟨w, hw, hagain⟩ := exists_solve_assignmentText hc hv (store.insert account c v) account
  have hleft : Text.trim (t.takeWhile (· != '=')) = [c] := by
    rw [← Equation.of_ofText he, hletter]
  exact ⟨c, render v, hleft, rfl, execute_letter hc hget, _, hagain,
    execute_assignmentText hc v hagain, hsound.sameValues_insert hget hw⟩

/-- The difference `n = 3 - 5` is answered by `n = -2`, which assigns the same when it is entered
again although no expression may be a negative literal alone. -/
theorem solve_reply_negative : ∃ next,
    empty.solve "a" "n = 3 - 5".toList = .ok (next, "n = -2".toList) ∧
      next.execute "a" "n".toList = (next, "-2".toList) ∧
      ∃ again, next.solve "a" "n = -2".toList = .ok (again, "n = -2".toList) ∧
        next.execute "a" "n = -2".toList = (again, "n = -2".toList) ∧ SameValues next again := by
  obtain ⟨next, h⟩ : ∃ next, empty.solve "a" "n = 3 - 5".toList = .ok (next, "n = -2".toList) :=
    exists_solve_eq_ok (by decide +kernel)
  obtain ⟨c, value, -, hshape, hletter, hagain⟩ := solve_reply ⟨[], rfl⟩ h
  obtain ⟨rfl, rfl⟩ : 'n' = c ∧ "-2".toList = value := by simpa using hshape
  exact ⟨next, h, hletter, hagain⟩

end Store

end Reckoner
