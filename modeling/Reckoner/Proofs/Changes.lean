import Reckoner.Request

/-!
# What requests change

A request changes the variables in one of two ways, if at all: an assignment that succeeds writes
one variable, and a removal takes all variables of an account. Assignments come as such, as
equations and as commands that are equations. Whatever else is asked for, and whatever fails, leaves
the store as it is.
-/

namespace Reckoner

inductive Change where
  | write (account : Account) (name : Char) (v : Float)
  | clear (account : Account)

def Change.apply (store : Store) : Change → Store
  | write account name v => store.insert account name v
  | clear account => store.clear account

/-- The value that an equation assigns: the number in front of the text of its right side. -/
def Equation.value (e : Equation) (store : Store) (account : Account) : Except Fault Float :=
  (e.valueText store account).map fun number => (leadingNumber? number).getD Binary64.nan

namespace Store

def write? (store : Store) (account : Account) (name : Text) (v : Float) : Option Change :=
  match store.assign account name v with
  | .ok _ => (variableName? name).map fun c => .write account c v
  | .error _ => none

def solution? (store : Store) (account : Account) (t : Text) : Option (Text × Float) :=
  match Equation.ofText t with
  | .ok e => (e.value store account).toOption.map fun v => (e.name, v)
  | .error _ => none

def assignment? (store : Store) (account : Account) : Request → Option (Text × Float)
  | .assign name v => some (name, v)
  | .solve t => store.solution? account t
  | .execute t =>
    match Command.ofText t with
    | .equation u => store.solution? account u
    | _ => none
  | _ => none

/-- The change that a request brings about. -/
def change? (store : Store) (account : Account) : Request → Option Change
  | .clear => some (.clear account)
  | request =>
    (store.assignment? account request).bind fun (name, v) => store.write? account name v

/-- The request is a removal, or an assignment or an equation that succeeds. -/
def TakesEffect (store : Store) (account : Account) : Request → Prop
  | .clear => True
  | .assign name v => ∃ next, store.assign account name v = .ok next
  | .solve t => ∃ outcome, store.solve account t = .ok outcome
  | .execute t => ∃ u outcome, Command.ofText t = .equation u ∧ store.solve account u = .ok outcome
  | .evaluate _ | .lookup _ => False

def changed (store : Store) (change? : Option Change) : Store :=
  (change?.map (·.apply store)).getD store

@[simp] theorem changed_none (store : Store) : store.changed none = store := rfl
@[simp] theorem changed_some (store : Store) (change : Change) :
    store.changed (some change) = change.apply store := rfl

variable {store : Store} {account : Account}

/-- A text that names a variable is a letter. -/
theorem variableName?_eq_some_iff {name : Text} {c : Char} :
    variableName? name = some c ↔ name = [c] ∧ c.isAlpha = true := by
  constructor
  · intro h
    unfold variableName? at h
    split at h
    · split at h
      · next halpha =>
        obtain rfl := Option.some.inj h
        exact ⟨rfl, halpha⟩
      · cases h
    · cases h
  · rintro ⟨rfl, halpha⟩
    simp [variableName?, halpha]

/-- An assignment succeeds if it has a name and a finite value, and then it writes that value. -/
theorem assign_eq_ok_iff {name : Text} {v : Float} {next : Store} :
    store.assign account name v = .ok next ↔
      ∃ c, variableName? name = some c ∧ Binary64.isFinite v = true ∧
        next = store.insert account c v := by
  unfold assign
  cases variableName? name with
  | none => simp
  | some c =>
    by_cases hv : Binary64.isFinite v = true
    · simp [hv, eq_comm]
    · simp [hv]

theorem write?_eq_some_iff {name : Text} {v : Float} {change : Change} :
    store.write? account name v = some change ↔
      ∃ c, variableName? name = some c ∧ Binary64.isFinite v = true ∧
        change = .write account c v := by
  unfold write?
  cases ha : store.assign account name v with
  | error fault =>
    simp only [reduceCtorEq, false_iff]
    rintro ⟨c, hc, hv, -⟩
    rw [assign_eq_ok_iff.2 ⟨c, hc, hv, rfl⟩] at ha
    cases ha
  | ok next =>
    obtain ⟨c, hc, hv, -⟩ := assign_eq_ok_iff.1 ha
    simp [hc, hv, eq_comm]

/-- An assignment that succeeds carries out what it writes, and one that fails writes nothing. -/
theorem assign_cases (store : Store) (account : Account) (name : Text) (v : Float) :
    (∃ change, store.write? account name v = some change ∧
      store.assign account name v = .ok (change.apply store)) ∨
    store.write? account name v = none ∧ ∃ fault, store.assign account name v = .error fault := by
  cases ha : store.assign account name v with
  | error fault => exact .inr ⟨by rw [write?, ha], fault, rfl⟩
  | ok next =>
    obtain ⟨c, hc, hv, rfl⟩ := assign_eq_ok_iff.1 ha
    exact .inl ⟨.write account c v, write?_eq_some_iff.2 ⟨c, hc, hv, rfl⟩, rfl⟩

/-- An equation is solved by assigning its value to its name. -/
theorem solve_eq (store : Store) (account : Account) (t : Text) :
    store.solve account t = match Equation.ofText t with
      | .error fault => .error fault
      | .ok e => match e.value store account with
        | .error fault => .error fault
        | .ok v => (store.assign account e.name v).map fun next => (next, e.reply v) := by
  simp only [solve, Equation.value, bind, Except.bind, pure, Except.pure]
  cases Equation.ofText t with
  | error fault => rfl
  | ok e =>
    cases hvalue : e.valueText store account with
    | error fault => simp [hvalue, Except.map]
    | ok number => simp only [hvalue, Except.map]

/-- An equation that succeeds carries out what it writes, and one that fails writes nothing. -/
theorem solve_cases (store : Store) (account : Account) (t : Text) :
    (∃ change reply, store.change? account (.solve t) = some change ∧
      store.solve account t = .ok (change.apply store, reply)) ∨
    store.change? account (.solve t) = none ∧ ∃ fault, store.solve account t = .error fault := by
  rw [solve_eq]
  simp only [change?, assignment?, solution?]
  cases Equation.ofText t with
  | error fault => exact .inr ⟨rfl, fault, rfl⟩
  | ok e =>
    cases hvalue : e.value store account with
    | error fault => exact .inr ⟨by simp [Except.toOption, hvalue], fault, by simp [hvalue]⟩
    | ok v =>
      simp only [hvalue, Except.toOption, Option.map_some, Option.bind_some]
      rcases assign_cases store account e.name v with ⟨change, hw, ha⟩ | ⟨hw, fault, ha⟩
      · exact .inl ⟨change, e.reply v, hw, by rw [ha]; rfl⟩
      · exact .inr ⟨hw, fault, by rw [ha]; rfl⟩

/-- Of the commands only an equation changes anything, and only if it succeeds. -/
theorem execute_fst (store : Store) (account : Account) (t : Text) :
    (store.execute account t).1 = store.changed (store.change? account (.execute t)) := by
  simp only [execute, change?, assignment?]
  cases Command.ofText t with
  | keyword k => rfl
  | unrecognized => rfl
  | expression u =>
    simp only [Command.run]
    cases store.evaluate account u <;> rfl
  | lookup name =>
    simp only [Command.run]
    cases store.lookup account name <;> rfl
  | equation u =>
    have hsolve : (store.solution? account u).bind (fun (name, v) => store.write? account name v) =
        store.change? account (.solve u) := rfl
    simp only [Command.run, hsolve]
    rcases store.solve_cases account u with ⟨change, reply, hc, hs⟩ | ⟨hc, fault, hs⟩
    · rw [hc, hs]
      rfl
    · rw [hc, hs]
      rfl

/-- A request leaves the store with the change that it brings about and with no other. -/
theorem respond_fst (store : Store) (account : Account) (request : Request) :
    (store.respond account request).1 = store.changed (store.change? account request) := by
  cases request with
  | execute t => exact store.execute_fst account t
  | solve t =>
    simp only [respond]
    rcases store.solve_cases account t with ⟨change, reply, hc, hs⟩ | ⟨hc, fault, hs⟩
    · rw [hc, hs]
      rfl
    · rw [hc, hs]
      rfl
  | evaluate t =>
    simp only [respond]
    cases store.evaluate account t <;> rfl
  | assign name v =>
    have hwrite : store.change? account (.assign name v) = store.write? account name v := rfl
    simp only [respond]
    rcases store.assign_cases account name v with ⟨change, hw, ha⟩ | ⟨hw, fault, ha⟩
    · rw [hwrite, hw, ha]
      rfl
    · rw [hwrite, hw, ha]
      rfl
  | lookup name =>
    simp only [respond]
    cases store.lookup account name <;> rfl
  | clear => rfl

theorem change?_of_ne_clear {request : Request} (h : request ≠ .clear) :
    store.change? account request =
      (store.assignment? account request).bind fun (name, v) => store.write? account name v := by
  cases request with
  | clear => exact absurd rfl h
  | execute | solve | evaluate | assign | lookup => rfl

/-- What a request writes is a finite value of a variable of its account that a letter names. -/
theorem change?_write {request : Request} {other : Account} {c : Char} {v : Float}
    (h : store.change? account request = some (.write other c v)) :
    other = account ∧ c.isAlpha = true ∧ Binary64.isFinite v = true := by
  have hassigns : request ≠ .clear := by
    rintro rfl
    cases h
  rw [change?_of_ne_clear hassigns] at h
  obtain ⟨⟨name, w⟩, -, hw⟩ := Option.bind_eq_some_iff.1 h
  obtain ⟨d, hd, hfinite, heq⟩ := write?_eq_some_iff.1 hw
  cases heq
  exact ⟨rfl, (variableName?_eq_some_iff.1 hd).2, hfinite⟩

/-- A request brings about a change exactly if it takes effect. -/
theorem change?_isSome_iff (store : Store) (account : Account) (request : Request) :
    (store.change? account request).isSome = true ↔ store.TakesEffect account request := by
  unfold TakesEffect
  have hsolve : ∀ t, (store.change? account (.solve t)).isSome = true ↔
      ∃ outcome, store.solve account t = .ok outcome := by
    intro t
    rcases store.solve_cases account t with ⟨change, reply, hc, hs⟩ | ⟨hc, fault, hs⟩
    · simp [hc, hs]
    · simp [hc, hs]
  cases request with
  | clear => simp [change?]
  | evaluate t => simp [change?, assignment?]
  | lookup name => simp [change?, assignment?]
  | solve t => exact hsolve t
  | assign name v =>
    have hwrite : store.change? account (.assign name v) = store.write? account name v := rfl
    rcases store.assign_cases account name v with ⟨change, hw, ha⟩ | ⟨hw, fault, ha⟩
    · simp [hwrite, hw, ha]
    · simp [hwrite, hw, ha]
  | execute t =>
    cases hc : Command.ofText t with
    | equation u =>
      have hsame : store.change? account (.execute t) = store.change? account (.solve u) := by
        simp [change?, assignment?, hc]
      simp [hsame, hsolve, hc]
    | keyword | expression | lookup | unrecognized => simp [change?, assignment?, hc]

end Store

end Reckoner
