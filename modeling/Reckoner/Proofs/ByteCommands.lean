import Reckoner.Command
import Reckoner.Proofs.ByteGroups

/-!
# Commands at bytes

A command can be carried out with every text cut, and every byte looked at, by its offset, whatever
the text is and whatever is stored. No cut falls inside a character, in front of where it begins or
behind the end, and no byte is asked for that is not there, so every command is answered, and
answered as it is on characters. What needs no offset, as trimming, checking, replacing letters and
splitting at an equals sign, is done as it is on characters.
-/

namespace Reckoner

open Literal
open Operator (Level)

namespace Bytes

/-! ### Definitions -/

/-- The value of an expression, as text; `none` if a cut fails. -/
def evaluate? (store : Store) (account : Account) (t : Text) : Option (Except Fault Text) :=
  match Check.runAll Check.typed t with
  | .error fault => some (.error fault)
  | .ok _ =>
    let closed := store.substitute account t
    match Check.runAll Check.closed closed with
    | .error fault => some (.error fault)
    | .ok _ => do
      match ← resolveGroups? closed with
      | .error fault => return .error fault
      | .ok flat => evaluateFlat? flat

def valueText? (e : Equation) (store : Store) (account : Account) :
    Option (Except Fault Text) := do
  let evaluated ← if hasOperator e.right then (isNegative? e.right).map (!·) else some false
  if evaluated then evaluate? store account e.right else return .ok e.right

def solve? (store : Store) (account : Account) (t : Text) :
    Option (Except Fault (Store × Text)) :=
  match Equation.ofText t with
  | .error fault => some (.error fault)
  | .ok e => do
    match ← valueText? e store account with
    | .error fault => return .error fault
    | .ok number =>
      let v := (← leadingNumber? number).getD Binary64.nan
      return (store.assign account e.name v).map fun store => (store, e.reply v)

def run? (store : Store) (account : Account) :
    Command → Option (Except Refusal (Store × Text))
  | .equation t => (solve? store account t).map Command.refuse
  | .expression t => (evaluate? store account t).map fun outcome =>
    Command.refuse (outcome.map fun result => (store, result))
  | command => some (command.run store account)

/-- Carries out the command that a text is, and answers; `none` if a cut fails anywhere. -/
def execute? (store : Store) (account : Account) (t : Text) : Option (Store × Text) := do
  match ← run? store account (Command.ofText t) with
  | .ok outcome => return outcome
  | .error refusal => return (store, "Error: ".toList ++ refusal.message)

/-! ### Commands -/

theorem evaluate?_eq (store : Store) (account : Account) (t : Text) :
    evaluate? store account t = some (store.evaluate account t) := by
  simp only [evaluate?, Store.evaluate, resolveGroups?_eq, Option.bind_eq_bind, Option.bind_some]
  cases Check.runAll Check.typed t with
  | error fault => rfl
  | ok _ =>
    simp only [bind, Except.bind]
    cases Check.runAll Check.closed (store.substitute account t) with
    | error fault => rfl
    | ok _ =>
      cases resolveGroups (store.substitute account t) with
      | error fault => rfl
      | ok flat => exact evaluateFlat?_eq flat

theorem valueText?_eq (e : Equation) (store : Store) (account : Account) :
    valueText? e store account = some (e.valueText store account) := by
  rw [valueText?, isNegative?_eq, Equation.valueText, Equation.isDirect]
  cases hasOperator e.right with
  | false => rfl
  | true =>
    cases isNegative e.right with
    | false => exact evaluate?_eq store account e.right
    | true => rfl

theorem solve?_eq (store : Store) (account : Account) (t : Text) :
    solve? store account t = some (store.solve account t) := by
  rw [solve?, Store.solve]
  cases Equation.ofText t with
  | error fault => rfl
  | ok e =>
    simp only [valueText?_eq, leadingNumber?_eq, bind, Option.bind_some, Except.bind]
    cases e.valueText store account with
    | error fault => rfl
    | ok number =>
      dsimp only
      cases store.assign account e.name ((Reckoner.leadingNumber? number).getD Binary64.nan) <;> rfl

theorem run?_eq (store : Store) (account : Account) (command : Command) :
    run? store account command = some (command.run store account) := by
  cases command with
  | keyword k => rfl
  | equation t =>
    rw [run?, solve?_eq]
    rfl
  | expression t =>
    rw [run?, evaluate?_eq]
    rfl
  | lookup name => rfl
  | unrecognized => rfl

/-- Every command is answered as it is on characters. -/
theorem execute?_eq (store : Store) (account : Account) (t : Text) :
    execute? store account t = some (store.execute account t) := by
  rw [execute?, run?_eq, Store.execute]
  cases (Command.ofText t).run store account <;> rfl

/-- No text is cut, and no byte asked for, at an offset that is not valid. A byte has to be inside
the text, as it is behind a look at the length, and a part has to begin and end between characters,
in that order. The bytes of an operation that is found and of its operands are such, and so are
those of a group, whose opening parenthesis ends no later than the closing one begins. Left operands
are split, numbers are read and negative literals recognised without a cut that fails, and so is
every command carried out, to the answer it has on characters. -/
theorem offsets_valid :
    (∀ q bs i, (test? q bs i).isSome = true ↔ i < bs.length) ∧
    (∀ q bs i, (if i < bs.length then test? q bs i else some false) = some (testAt q bs i)) ∧
    (∀ p q bs i,
      (if i + 1 < bs.length then do return (← test? p bs i) && (← test? q bs (i + 1))
        else some false) = some (testAt p bs i && testAt q bs (i + 1))) ∧
    (∀ (t : Text) (i j : Nat), (t.cut? i j).isSome = true ↔
      i ≤ j ∧ t.IsBoundary i ∧ t.IsBoundary j) ∧
    (∀ (t new : Text) (i j : Nat), (t.splice? i j new).isSome = true ↔
      i ≤ j ∧ t.IsBoundary i ∧ t.IsBoundary j) ∧
    (∀ (level : Level) (t : Text),
      find? level t = some ((Occurrence.find? level t).map .ofOccurrence)) ∧
    (∀ (level : Level) (t : Text) (found : Located), find? level t = some (some found) →
      t.Cuts [found.start, found.leftStop, found.rightStart, found.stop] ∧
      t.cut? found.start found.leftStop = some found.left ∧
      t.cut? found.rightStart found.stop = some found.right) ∧
    (∀ operand : Text, splitOperand? operand = some (Occurrence.splitOperand? operand)) ∧
    (∀ (t : Text) (opening : Nat), lastOffset? '(' t = some opening →
      ∃ tail, t.cut? opening t.utf8Size = some tail ∧
        ∀ offset, firstOffset? ')' tail = some offset →
          t.Cuts [opening, opening + 1, opening + offset, opening + offset + 1]) ∧
    (∀ t : Text, leadingNumber? t = some (Reckoner.leadingNumber? t)) ∧
    (∀ t : Text, isNegative? t = some (isNegative t)) ∧
    ∀ (store : Store) (account : Account) (t : Text),
      execute? store account t = some (store.execute account t) := by
  refine ⟨fun q bs i => test?_isSome_iff, fun q bs i => test?_guarded,
    fun p q bs i => test?_guarded_pair, fun t i j => Text.cut?_isSome_iff,
    fun t new i j => Text.splice?_isSome_iff t new i j, find?_eq,
    fun level t found h => Located.cuts h, splitOperand?_eq, fun t opening h => ?_,
    leadingNumber?_eq, isNegative?_eq, execute?_eq⟩
  obtain ⟨front, tail, -, -, -, hcut⟩ := cut?_lastOffset? h
  refine ⟨_, hcut, fun offset hoffset => ?_⟩
  obtain ⟨before, inner, back, hgroup⟩ := exists_lastGroup h hcut hoffset
  exact hgroup.cuts

/-- Behind an accented letter, which takes two bytes, an operation and a group are cut out where
they stand. Behind a blank of two bytes an expression is answered. -/
theorem offsets_valid_accent :
    Text.Cuts "\u00e9 + -3 * 2".toList [3, 7, 10, 11] ∧
      Text.cut? "\u00e9 + -3 * 2".toList 3 7 = some "+ -3".toList ∧
      Text.cut? "\u00e9 + -3 * 2".toList 10 11 = some "2".toList ∧
      (∃ tail, Text.cut? "\u00e9(1)".toList 2 5 = some tail ∧
        ∀ offset, firstOffset? ')' tail = some offset →
          Text.Cuts "\u00e9(1)".toList [2, 3, 2 + offset, 2 + offset + 1]) ∧
      (execute? Store.empty "a" "\u00a0(1 + -3 * 2)".toList).map (·.2) = some "-5".toList := by
  obtain ⟨-, -, -, -, -, hfind, hcuts, -, hgroup, -, -, hexecute⟩ := offsets_valid
  have hfound : find? Operator.multiplicative "\u00e9 + -3 * 2".toList =
      some (some ⟨3, 7, .times, 10, 11, "+ -3".toList, "2".toList⟩) :=
    (hfind _ _).trans (by decide)
  have hanswer : (Store.empty.execute "a" "\u00a0(1 + -3 * 2)".toList).2 = "-5".toList := by
    decide +kernel
  obtain ⟨h1, h2, h3⟩ := hcuts _ _ _ hfound
  refine ⟨h1, h2, h3, hgroup _ 2 (by decide), ?_⟩
  rw [hexecute, Option.map_some, hanswer]

end Bytes

end Reckoner
