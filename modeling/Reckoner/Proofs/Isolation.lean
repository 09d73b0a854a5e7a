import Reckoner.Proofs.Changes

/-!
# Accounts apart

A request reads the variables of its own account and changes no others. So the requests of all other
accounts can be struck from a sequence, and an account is answered as if it were alone.
-/

namespace Reckoner

def Change.account : Change → Account
  | write account _ _ => account
  | clear account => account

namespace Store

def SameFor (account : Account) (store other : Store) : Prop :=
  store.accounts[account]? = other.accounts[account]?

def answered {α : Type} (outcome : Except Fault (Store × α)) : Except Fault α :=
  outcome.map Prod.snd

/-- The letter under which a value is stored, whatever the store holds. -/
def admitted (name : Text) (v : Float) : Except Fault Char :=
  match variableName? name with
  | none => .error .variableName
  | some c => if Binary64.isFinite v then .ok c else .error .value

/-- The answers to one account among those to a sequence of requests of all accounts. -/
def answersTo (account : Account) (store : Store) (requests : List (Account × Request)) :
    List Answer :=
  ((requests.zip (store.answers requests)).filter (·.1.1 = account)).map Prod.snd

variable {store other : Store} {account : Account}

theorem answersTo_cons (account : Account) (store : Store) (sender : Account) (request : Request)
    (rest : List (Account × Request)) : answersTo account store ((sender, request) :: rest) =
      if sender = account then
        (store.respond sender request).2 :: answersTo account (store.respond sender request).1 rest
      else answersTo account (store.respond sender request).1 rest := by
  by_cases h : sender = account <;> simp [answersTo, answers, h]

theorem assign_eq (store : Store) (account : Account) (name : Text) (v : Float) :
    store.assign account name v = (admitted name v).map fun c => store.insert account c v := by
  unfold assign admitted
  cases variableName? name with
  | none => rfl
  | some c => by_cases hv : Binary64.isFinite v = true <;> simp [hv, Except.map]

theorem answered_map {α β : Type} (outcome : Except Fault α) (f : α → Store × β) :
    answered (outcome.map f) = outcome.map fun a => (f a).2 := by
  cases outcome <;> rfl

theorem settled_snd {α : Type} (store : Store) (answer : α → Answer)
    (outcome : Except Fault (Store × α)) : (store.settled answer outcome).2 =
      match answered outcome with
      | .ok a => answer a
      | .error fault => .failed fault := by
  cases outcome <;> rfl

theorem execute_snd (store : Store) (account : Account) (t : Text) :
    (store.execute account t).2 =
      match ((Command.ofText t).run store account).map Prod.snd with
      | .ok reply => reply
      | .error refusal => "Error: ".toList ++ refusal.message := by
  unfold execute
  cases (Command.ofText t).run store account <;> rfl

theorem answered_solve (store : Store) (account : Account) (t : Text) :
    answered (store.solve account t) = match Equation.ofText t with
      | .error fault => .error fault
      | .ok e => match e.value store account with
        | .error fault => .error fault
        | .ok v => (admitted e.name v).map fun _ => e.reply v := by
  rw [solve_eq]
  cases Equation.ofText t with
  | error fault => rfl
  | ok e =>
    cases hvalue : e.value store account with
    | error fault => simp [hvalue, answered, Except.map]
    | ok v =>
      simp only [hvalue, assign_eq, answered_map]
      cases admitted e.name v <;> rfl

namespace SameFor

theorem bindings (h : SameFor account store other) :
    store.bindings account = other.bindings account := by
  unfold Store.bindings
  rw [h]

theorem get? (h : SameFor account store other) (c : Char) :
    store.get? account c = other.get? account c := by
  unfold Store.get?
  rw [h]

theorem holds (h : SameFor account store other) : store.holds account = other.holds account := by
  simp only [Store.holds, Std.TreeMap.contains_eq_isSome_getElem?]
  rw [h]

/-- Of the variables an expression reads those of its account and no others. -/
theorem evaluate (h : SameFor account store other) (t : Text) :
    store.evaluate account t = other.evaluate account t := by
  unfold Store.evaluate Store.substitute
  rw [h.bindings]

theorem lookup (h : SameFor account store other) (name : Text) :
    store.lookup account name = other.lookup account name := by
  have hget : store.get? account = other.get? account := funext h.get?
  unfold Store.lookup
  rw [hget]

theorem value (h : SameFor account store other) (e : Equation) :
    e.value store account = e.value other account := by
  unfold Equation.value Equation.valueText
  rw [h.evaluate]

theorem solve (h : SameFor account store other) (t : Text) :
    answered (store.solve account t) = answered (other.solve account t) := by
  rw [answered_solve, answered_solve]
  simp only [h.value]

theorem run (h : SameFor account store other) (command : Command) :
    (command.run store account).map Prod.snd = (command.run other account).map Prod.snd := by
  cases command with
  | keyword | unrecognized => rfl
  | expression t =>
    simp only [Command.run, h.evaluate]
    cases other.evaluate account t <;> rfl
  | lookup name =>
    simp only [Command.run, h.lookup]
    cases other.lookup account name <;> rfl
  | equation t =>
    have hswap : ∀ outcome : Except Fault (Store × Text),
        (Command.refuse outcome).map Prod.snd = Command.refuse (answered outcome) := by
      intro outcome
      cases outcome <;> rfl
    simp only [Command.run, hswap, h.solve]

/-- An account is answered from its own variables. -/
theorem respond_snd (h : SameFor account store other) (request : Request) :
    (store.respond account request).2 = (other.respond account request).2 := by
  cases request with
  | execute t => simp only [respond, execute_snd, h.run]
  | solve t => simp only [respond, settled_snd, h.solve]
  | evaluate t => simp only [respond, settled_snd, answered_map, h.evaluate]
  | assign name v =>
    simp only [respond, settled_snd, answered_map, assign_eq]
    cases admitted name v <;> rfl
  | lookup name => simp only [respond, settled_snd, answered_map, h.lookup]
  | clear => simp only [respond, h.holds]

theorem change? (h : SameFor account store other) (request : Request) :
    store.change? account request = other.change? account request := by
  have hwrite : ∀ name v, store.write? account name v = other.write? account name v := by
    intro name v
    unfold Store.write?
    rw [assign_eq, assign_eq]
    cases admitted name v <;> rfl
  have hassignment : store.assignment? account request = other.assignment? account request := by
    unfold Store.assignment? Store.solution?
    simp only [h.value]
  cases request with
  | clear => rfl
  | execute | solve | evaluate | assign | lookup =>
    simp only [change?_of_ne_clear, ne_eq, reduceCtorEq, not_false_eq_true, hassignment, hwrite]

/-- What is the same for an account stays the same for it under one and the same change. -/
theorem apply (h : SameFor account store other) (change : Change) :
    SameFor account (change.apply store) (change.apply other) := by
  unfold SameFor at h ⊢
  cases change with
  | write writer c v =>
    by_cases hw : writer = account
    · subst hw
      simp [Change.apply, insert, Std.TreeMap.getD_eq_getD_getElem?, h]
    · simp [Change.apply, insert, Std.TreeMap.getElem?_insert, hw, h]
  | clear cleared => simp [Change.apply, clear, Std.TreeMap.getElem?_erase, h]

/-- A request of the account itself leaves both stores with the same variables for it. -/
theorem respond_fst (h : SameFor account store other) (request : Request) :
    SameFor account (store.respond account request).1 (other.respond account request).1 := by
  rw [Store.respond_fst, Store.respond_fst, h.change?]
  cases other.change? account request with
  | none => exact h
  | some change => exact h.apply change

end SameFor

/-- A change of one account leaves all others as they are. -/
theorem sameFor_apply {change : Change} (h : change.account ≠ account) (store : Store) :
    SameFor account (change.apply store) store := by
  unfold SameFor
  cases change with
  | write writer c v => simp_all [Change.apply, Change.account, insert, Std.TreeMap.getElem?_insert]
  | clear cleared => simp_all [Change.apply, Change.account, clear, Std.TreeMap.getElem?_erase]

theorem change?_account {request : Request} {change : Change}
    (h : store.change? account request = some change) : change.account = account := by
  by_cases hclear : request = .clear
  · subst hclear
    cases h
    rfl
  · rw [change?_of_ne_clear hclear] at h
    obtain ⟨⟨name, v⟩, -, hw⟩ := Option.bind_eq_some_iff.1 h
    obtain ⟨c, -, -, rfl⟩ := write?_eq_some_iff.1 hw
    rfl

/-- A request of another account goes unnoticed. -/
theorem sameFor_respond {sender : Account} (h : sender ≠ account) (store : Store)
    (request : Request) : SameFor account (store.respond sender request).1 store := by
  rw [respond_fst]
  cases hc : store.change? sender request with
  | none => rfl
  | some change => exact sameFor_apply (by rwa [change?_account hc]) store

/-- A sequence of requests and the part of it that comes from one account give that account the same
answers and leave it the same variables. -/
theorem SameFor.answersTo (h : SameFor account store other)
    (requests : List (Account × Request)) :
    answersTo account store requests = other.answers (requests.filter (·.1 = account)) ∧
      SameFor account (store.after requests) (other.after (requests.filter (·.1 = account))) := by
  induction requests generalizing store other with
  | nil => exact ⟨rfl, h⟩
  | cons request rest ih =>
    obtain ⟨sender, request⟩ := request
    by_cases hs : sender = account
    · subst hs
      obtain ⟨hanswers, hafter⟩ := ih (h.respond_fst request)
      simp only [answersTo_cons, if_true, List.filter_cons, decide_true, answers]
      exact ⟨by rw [hanswers, h.respond_snd], hafter⟩
    · obtain ⟨hanswers, hafter⟩ := ih ((sameFor_respond hs store request).trans h)
      simp only [answersTo_cons, List.filter_cons, hs, decide_false, if_false, Bool.false_eq_true]
      exact ⟨hanswers, hafter⟩

/-- An account is answered as if it were alone, and so in the same way however its requests are
interleaved with those of others. -/
theorem answersTo_empty (account : Account) (requests : List (Account × Request)) :
    answersTo account empty requests = empty.answers (requests.filter (·.1 = account)) ∧
      ∀ interleaved : List (Account × Request),
        interleaved.filter (·.1 = account) = requests.filter (·.1 = account) →
          answersTo account empty interleaved = answersTo account empty requests := by
  have hsame : SameFor account empty empty := rfl
  have halone := fun requests => (hsame.answersTo requests).1
  refine ⟨halone requests, fun interleaved h => ?_⟩
  rw [halone, halone, h]

end Store

end Reckoner
