import Reckoner.Proofs.Outcomes
import Reckoner.Proofs.Variables

/-!
# Carrying commands out

A command either solves an equation, which writes one variable of its account, or leaves everything
as it is. Whether it was refused can be told from the beginning of its answer, since no other answer
begins like an error message.
-/

namespace Reckoner

open Literal

theorem head_intercalate_empty_cons (line : String) (lines : List String) :
    ("\n".intercalate ("" :: line :: lines)).toList.head? = some '\n' := by
  simp [String.toList_intercalate]

/-- The help begins with an empty line. -/
theorem Keyword.head_reply (k : Keyword) : k.reply.head? ≠ some 'E' := by
  cases k with
  | hello | author => decide
  | help =>
    have hhelp : help.reply.head? = some '\n' := head_intercalate_empty_cons _ _
    rw [hhelp]
    decide

/-- An equals sign makes a text no keyword. -/
theorem Keyword.ofText?_of_mem {t : Text} (h : '=' ∈ t) : Keyword.ofText? t = none := by
  have hlower : '=' ∈ Text.lower t := List.mem_map.2 ⟨'=', h, rfl⟩
  rw [Keyword.ofText?, List.find?_eq_none]
  intro k _ hname
  have hmem : '=' ∈ k.name := by rwa [beq_iff_eq.1 hname]
  cases k <;> exact absurd hmem (by decide)

namespace Command

variable {t : Text}

theorem ofTrimmed_of_mem (h : '=' ∈ t) : ofTrimmed t = equation t := by
  simp [ofTrimmed, Keyword.ofText?_of_mem h, h]

/-- What is executed as an equation has an equals sign. -/
theorem ofTrimmed_eq_equation {u : Text} (h : ofTrimmed t = equation u) : '=' ∈ t ∧ u = t := by
  by_cases hmem : '=' ∈ t
  · rw [ofTrimmed_of_mem hmem] at h
    exact ⟨hmem, (equation.inj h).symm⟩
  · unfold ofTrimmed at h
    cases hk : Keyword.ofText? t with
    | some k => simp [hk] at h
    | none =>
      simp only [hk, List.contains_iff_mem, hmem, if_false] at h
      split at h
      · cases h
      · split at h <;> cases h

theorem refuse_eq_ok_iff {α : Type} {outcome : Except Fault α} {a : α} :
    refuse outcome = .ok a ↔ outcome = .ok a := by
  cases outcome <;> simp [refuse, Except.mapError]

end Command

/-- An equation is what stands on the two sides of its equals sign. -/
theorem Equation.of_ofText {t : Text} {e : Equation} (h : Equation.ofText t = .ok e) :
    e.name = Text.trim (t.takeWhile (· != '=')) := by
  unfold Equation.ofText at h
  split at h
  · cases h
  · split at h
    · cases h
    · obtain rfl := Except.ok.inj h
      rfl

namespace Store

variable {store next : Store} {account : Account} {t reply : Text}

/-- An equation is solved if it has a value that can be stored under its name. -/
theorem solve_eq_ok_iff : store.solve account t = .ok (next, reply) ↔
    ∃ e c v, Equation.ofText t = .ok e ∧ e.value store account = .ok v ∧
      variableName? e.name = some c ∧ Binary64.isFinite v = true ∧
        next = store.insert account c v ∧ reply = e.reply v := by
  rw [solve_eq]
  cases Equation.ofText t with
  | error fault => simp
  | ok e =>
    cases hvalue : e.value store account with
    | error fault => simp [hvalue]
    | ok v =>
      simp only [hvalue]
      constructor
      · intro h
        cases ha : store.assign account e.name v with
        | error fault => simp [ha, Except.map] at h
        | ok next =>
          obtain ⟨c, hc, hv, rfl⟩ := assign_eq_ok_iff.1 ha
          simp only [ha, Except.map, Except.ok.injEq, Prod.mk.injEq] at h
          exact ⟨e, c, v, rfl, hvalue, hc, hv, h.1.symm, h.2.symm⟩
      · rintro ⟨e', c, v', he, hv', hc, hv, rfl, rfl⟩
        obtain rfl := Except.ok.inj he
        obtain rfl := Except.ok.inj (hvalue.symm.trans hv')
        rw [assign_eq_ok_iff.2 ⟨c, hc, hv, rfl⟩]
        rfl

theorem exists_solve_eq_ok (h : (store.solve account t).toOption.map Prod.snd = some reply) :
    ∃ next, store.solve account t = .ok (next, reply) := by
  obtain ⟨⟨next, said⟩, hoption, rfl⟩ := Option.map_eq_some_iff.1 h
  exact ⟨next, eq_ok_of_toOption hoption⟩

/-- A command with an equals sign is answered by solving it. -/
theorem execute_of_mem (h : '=' ∈ Text.trim t) : store.execute account t =
    match store.solve account (Text.trim t) with
    | .ok outcome => outcome
    | .error fault => (store, "Error: ".toList ++ fault.message) := by
  unfold execute Command.ofText
  rw [Command.ofTrimmed_of_mem h, Command.run]
  cases store.solve account (Text.trim t) <;> rfl

/-- What begins otherwise than with an `E` is no error message. -/
theorem not_error_of_head {t : Text} (h : t.head? ≠ some 'E') : ¬ "Error: ".toList <+: t := by
  rintro ⟨rest, rfl⟩
  exact h rfl

theorem not_error_of_isSigned {t : Text} (h : IsSigned IsWord t) : ¬ "Error: ".toList <+: t := by
  apply not_error_of_head
  have hword : ∀ {w : Text}, IsWord w → w.head? ≠ some 'E' := by
    rintro w (hd | hf | rfl | rfl) he
    · obtain ⟨c, r, rfl, hc⟩ := hd.head
      obtain rfl : c = 'E' := by simpa using he
      exact absurd hc (by decide)
    · obtain ⟨ds, -, rfl⟩ := hf
      simp at he
    · simp at he
    · simp at he
  rcases h with h | ⟨w, rfl, -⟩
  · exact hword h
  · simp

/-- The answer to a command that is carried out is no error message. -/
theorem not_error_of_run {command : Command}
    (h : command.run store account = .ok (next, reply)) : ¬ "Error: ".toList <+: reply := by
  cases command with
  | unrecognized => cases h
  | keyword k =>
    obtain ⟨-, rfl⟩ := Prod.mk.inj (Except.ok.inj h)
    exact not_error_of_head (Keyword.head_reply k)
  | equation t =>
    -- The letter in front of the equals sign has a space behind it.
    obtain ⟨e, c, v, -, -, hc, -, -, rfl⟩ := solve_eq_ok_iff.1 (Command.refuse_eq_ok_iff.1 h)
    rw [Equation.reply, (variableName?_eq_some_iff.1 hc).1]
    simp
  | expression t =>
    have h := Command.refuse_eq_ok_iff.1 h
    cases hr : store.evaluate account t with
    | error fault => simp [hr, Except.map] at h
    | ok r =>
      obtain ⟨-, rfl⟩ : store = next ∧ r = reply := by simpa [hr, Except.map] using h
      rcases result_of_evaluate hr with rfl | hresult
      · simp
      · exact not_error_of_isSigned (isSigned_of_isResult hresult)
  | lookup name =>
    have h := Command.refuse_eq_ok_iff.1 h
    cases hv : store.lookup account name with
    | error fault => simp [hv, Except.map] at h
    | ok v =>
      obtain ⟨-, rfl⟩ : store = next ∧ render v = reply := by simpa [hv, Except.map] using h
      exact not_error_of_isSigned (isSigned_render v)

/-- An answer is an error message exactly if the command is refused. -/
theorem error_execute_iff (store : Store) (account : Account) (t : Text) :
    "Error: ".toList <+: (store.execute account t).2 ↔
      ∃ refusal, (Command.ofText t).run store account = .error refusal := by
  unfold execute
  cases h : (Command.ofText t).run store account with
  | error refusal => simp
  | ok outcome => simpa using not_error_of_run h

/-- One variable has been given a finite value, and all others are as they were. -/
structure Assigned (store : Store) (account : Account) (c : Char) (v : Float) (next : Store) :
    Prop where
  finite : Binary64.isFinite v = true
  value : next.get? account c = some v
  frame : ∀ other d, (other, d) ≠ (account, c) → next.get? other d = store.get? other d

theorem assigned_insert {v : Float} (h : Binary64.isFinite v = true) (store : Store)
    (account : Account) (c : Char) : Assigned store account c v (store.insert account c v) where
  finite := h
  value := by simp [get?_insert]
  frame other d hne := by
    rw [get?_insert, if_neg]
    rintro ⟨rfl, rfl⟩
    exact hne rfl

/-- A command is carried out as a whole or not at all. If it is an equation that can be solved, it
assigns one variable and says so. Otherwise nothing changes. An error message is the answer to what
is refused and to nothing else. -/
theorem execute_atomic (store : Store) (account : Account) (t : Text) :
    (∀ next reply, '=' ∈ Text.trim t → store.solve account (Text.trim t) = .ok (next, reply) →
      store.execute account t = (next, reply) ∧
        ∃ c v, Text.trim ((Text.trim t).takeWhile (· != '=')) = [c] ∧
          Assigned store account c v next ∧ reply = c :: (" = ".toList ++ render v)) ∧
    ((¬ ('=' ∈ Text.trim t ∧ ∃ outcome, store.solve account (Text.trim t) = .ok outcome)) →
      (store.execute account t).1 = store) ∧
    ("Error: ".toList <+: (store.execute account t).2 ↔
      ∃ refusal, (Command.ofText t).run store account = .error refusal) := by
  refine ⟨?_, ?_, error_execute_iff store account t⟩
  · intro next reply hmem hsolve
    obtain ⟨e, c, v, he, -, hc, hv, rfl, rfl⟩ := solve_eq_ok_iff.1 hsolve
    obtain ⟨hname, -⟩ := variableName?_eq_some_iff.1 hc
    refine ⟨by rw [execute_of_mem hmem, hsolve], c, v, ?_, assigned_insert hv store account c, ?_⟩
    · rw [← Equation.of_ofText he, hname]
    · rw [Equation.reply, hname, List.singleton_append]
  · intro hnot
    rw [execute_fst]
    cases hc : store.change? account (.execute t) with
    | none => rfl
    | some change =>
      have hsome := (change?_isSome_iff store account (.execute t)).1 (by rw [hc]; rfl)
      obtain ⟨u, outcome, hu, hsolve⟩ := hsome
      obtain ⟨hmem, rfl⟩ := Command.ofTrimmed_eq_equation hu
      exact absurd ⟨hmem, outcome, hsolve⟩ hnot

/-- A difference is assigned to `n`; a quotient that has no value leaves everything as it was. -/
theorem execute_atomic_difference :
    (∃ next v, empty.execute "a" "n = 3 - 5".toList = (next, "n = -2".toList) ∧
      Assigned empty "a" 'n' v next) ∧
    (empty.execute "a" "n = 1 / 0".toList).1 = empty := by
  constructor
  · obtain ⟨next, hsolve⟩ : ∃ next,
        empty.solve "a" (Text.trim "n = 3 - 5".toList) = .ok (next, "n = -2".toList) :=
      exists_solve_eq_ok (by decide +kernel)
    obtain ⟨hexecute, c, v, hname, hassigned, -⟩ :=
      (execute_atomic empty "a" "n = 3 - 5".toList).1 next _ (by decide) hsolve
    have hleft : Text.trim ((Text.trim "n = 3 - 5".toList).takeWhile (· != '=')) = ['n'] := by
      decide
    obtain ⟨rfl, -⟩ := List.cons.inj (hleft.symm.trans hname)
    exact ⟨next, v, hexecute, hassigned⟩
  · refine (execute_atomic empty "a" "n = 1 / 0".toList).2.1 ?_
    rintro ⟨-, outcome, hsolve⟩
    have hnone : (empty.solve "a" (Text.trim "n = 1 / 0".toList)).toOption.isNone = true := by
      decide +kernel
    rw [hsolve] at hnone
    cases hnone

end Store

end Reckoner
