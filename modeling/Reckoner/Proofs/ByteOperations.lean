import Reckoner.Proofs.ByteSearch
import Reckoner.Proofs.Operands

/-!
# Operations at bytes

An operation is found by trying every byte of a text, and its operands are cut out of the text. The
left operand is cut once more, into the operator text in front of its number and the number. No cut
falls inside a character: what is found is the operation that the search through the characters
finds, and it begins and ends between characters, as its operands do.
-/

namespace Reckoner

open Literal
open Operator (Level)

namespace Bytes

/-- An operation by the bytes at which its parts begin and end, with its operands. -/
structure Located where
  start : Nat
  leftStop : Nat
  operator : Operator
  rightStart : Nat
  stop : Nat
  left : Text
  right : Text
  deriving DecidableEq, Repr

/-- The operand that begins at a byte, behind the byte at which it ends; `none` if it cannot be cut
out. -/
def operandAt? (t : Text) (start : Nat) : Option (Option (Nat × Text)) :=
  match signedEnd? t.utf8 start with
  | none => some none
  | some stop => (t.cut? start stop).map fun operand => some (stop, operand)

def operatorAt? (level : Level) (t : Text) (place : Nat) : Option Operator :=
  ((charAt? t.utf8 place).bind Operator.ofChar?).filter (· ∈ level)

/-- The operation whose left operand is given, if an operator of the level and a right operand
follow; `none` if an operand cannot be cut out. -/
def complete? (level : Level) (t : Text) (start leftStop : Nat) : Option (Option Located) :=
  let place := skipSpaces t.utf8 leftStop
  match operatorAt? level t place with
  | none => some none
  | some op => do
    let rightStart := skipSpaces t.utf8 (place + 1)
    let left ← t.cut? start leftStop
    let right ← operandAt? t rightStart
    return right.map fun (stop, right) => ⟨start, leftStop, op, rightStart, stop, left, right⟩

def operationAt? (level : Level) (t : Text) (start : Nat) : Option (Option Located) := do
  let ends ← leftEnds? t.utf8 start
  ends.findSomeM? (complete? level t start)

def find? (level : Level) (t : Text) : Option (Option Located) :=
  (List.range t.utf8.length).findSomeM? (operationAt? level t)

/-- The number behind an operator and spaces that begin at a byte, with those in front of it; `none`
if a byte is asked for that is not there or a part cannot be cut out. -/
def carriedAt? (t : Text) (start : Nat) : Option (Option (Text × Text)) := do
  if ← test? isOperatorChar t.utf8 start then
    let numberStart := skipSpaces t.utf8 (start + 1)
    let carried ← t.cut? start numberStart
    let number ← operandAt? t numberStart
    return number.map fun (_, number) => (carried, number)
  else return none

def partsAt? (t : Text) (start : Nat) : Option (Option (Text × Text)) := do
  match ← operandAt? t start with
  | some (_, number) => return some ([], number)
  | none => carriedAt? t start

def splitOperand? (t : Text) : Option (Option (Text × Text)) :=
  (List.range t.utf8.length).findSomeM? (partsAt? t)

def Located.ofOccurrence (o : Occurrence) : Located where
  start := o.start
  leftStop := Text.utf8Size (o.before ++ o.left)
  operator := o.operator
  rightStart :=
    Text.utf8Size (o.before ++ (o.left ++ (o.leftGap ++ o.operator.symbol :: o.rightGap)))
  stop := o.stop
  left := o.left
  right := o.right

/-! ### Finding an operation -/

theorem findSomeM?_map {α γ δ : Type} {f : Nat → Option (Option δ)} {p : α → Option γ}
    {g : γ → δ} {size : α → Nat} {l : List α}
    (h : ∀ a ∈ l, f (size a) = some ((p a).map g)) :
    (l.map size).findSomeM? f = some ((l.findSome? p).map g) := by
  induction l with
  | nil => rfl
  | cons a l ih =>
    rw [List.map_cons, List.findSomeM?_cons, h a (by simp), List.findSome?_cons]
    cases p a with
    | none => exact ih fun b hb => h b (by simp [hb])
    | some found => rfl

/-- At a boundary the operator is the character that stands there. -/
theorem operatorAt?_append (level : Level) (s t : Text) :
    operatorAt? level (s ++ t) s.utf8Size =
      (t.head?.bind Operator.ofChar?).filter (· ∈ level) := by
  rw [operatorAt?, charAt?_utf8, Text.afterBytes?_append, Option.bind_some]
  cases t with
  | nil => rfl
  | cons c t =>
    by_cases hc : c.toNat < 128
    · simp [Option.filter, hc]
    · have hnone : Operator.ofChar? c = none := by
        rw [← Option.not_isSome_iff_eq_none]
        exact fun h => hc (isAscii_isOperatorChar c h)
      simp [Option.filter, hc, hnone]

/-- At a boundary the operand is the one that stands there. -/
theorem operandAt?_append (s t : Text) : operandAt? (s ++ t) s.utf8Size =
    some ((signed? t).map fun found => (Text.utf8Size (s ++ found.1), found.1)) := by
  rw [operandAt?, endsAs_signed.append]
  cases hread : signed? t with
  | none => rfl
  | some found =>
    obtain ⟨operand, rest⟩ := found
    obtain rfl := append_of_signed? hread
    simp only [Option.map_some, Text.cut?_append]

theorem complete?_append (level : Level) (s left rest : Text) :
    complete? level (s ++ (left ++ rest)) s.utf8Size (Text.utf8Size (s ++ left)) =
      some ((Occurrence.complete? level s.reverse left rest).map Located.ofOccurrence) := by
  have hskip := skipSpaces_append (s ++ left) rest
  have hop := operatorAt?_append level (s ++ left ++ Text.spaces rest) (Text.afterSpaces rest)
  rw [List.append_assoc, Text.spaces_append_afterSpaces, List.append_assoc] at hop
  rw [List.append_assoc] at hskip
  rw [complete?, hskip]
  dsimp only
  rw [hop, Occurrence.complete?]
  cases hrest : Text.afterSpaces rest with
  | nil => rfl
  | cons c u =>
    rw [List.head?_cons, Option.bind_some]
    dsimp only
    cases hc : Operator.ofChar? c with
    | none => rfl
    | some op =>
      obtain rfl := Operator.ofChar?_eq_some_iff.1 hc
      by_cases hmem : op ∈ level
      · have hgap : s ++ left ++ Text.spaces rest ++ op.symbol :: u = s ++ (left ++ rest) := by
          rw [← hrest, List.append_assoc, Text.spaces_append_afterSpaces, List.append_assoc]
        have hbehind : s ++ left ++ Text.spaces rest ++ op.symbol :: Text.spaces u ++
            Text.afterSpaces u = s ++ (left ++ rest) := by
          simp [← hgap]
        have hskip' := skipSpaces_behind
          (isAscii_isOperatorChar op.symbol (by simp [isOperatorChar]))
          (s ++ left ++ Text.spaces rest) u
        have hright := operandAt?_append
          (s ++ left ++ Text.spaces rest ++ op.symbol :: Text.spaces u) (Text.afterSpaces u)
        rw [hgap] at hskip'
        rw [hbehind] at hright
        simp only [Option.filter_some, decide_eq_true hmem, if_true, if_pos hmem, hskip', hright,
          Text.cut?_append]
        cases hread : signed? (Text.afterSpaces u) with
        | none => rfl
        | some found =>
          simp [Located.ofOccurrence, Occurrence.start, Occurrence.stop, Occurrence.extent]
      · simp only [Option.filter_some, decide_eq_false hmem, if_neg hmem]
        rfl

def operationHere? (level : Level) (seen t : Text) : Option Occurrence :=
  (Occurrence.leftOperands seen t).findSome? fun (left, rest) =>
    Occurrence.complete? level seen left rest

theorem findFrom?_eq_scanFrom? (level : Level) (seen t : Text) :
    Occurrence.findFrom? level seen t = scanFrom? (operationHere? level) seen t := by
  induction t generalizing seen with
  | nil => rfl
  | cons c t ih => rw [Occurrence.findFrom?, scanFrom?, ih, operationHere?]

theorem operationAt?_append (level : Level) (s : Text) (c : Char) (u : Text) :
    operationAt? level (s ++ c :: u) s.utf8Size =
      some ((operationHere? level s.reverse (c :: u)).map Located.ofOccurrence) := by
  rw [operationAt?, leftEnds?_append]
  refine findSomeM?_map fun found hfound => ?_
  obtain ⟨left, rest⟩ := found
  obtain ⟨-, -, -, htext, -⟩ := Occurrence.leftOperand_cases hfound
  rw [htext]
  exact complete?_append level s left rest

theorem operationAt?_inside {level : Level} {t : Text} {i : Nat} (hlt : i < t.utf8Size)
    (hi : t.afterBytes? i = none) : operationAt? level t i = some none := by
  rw [operationAt?, leftEnds?_inside hlt hi]
  rfl

/-- An operation is found, byte by byte, where it is found character by character. -/
theorem find?_eq (level : Level) (t : Text) :
    find? level t = some ((Occurrence.find? level t).map Located.ofOccurrence) := by
  rw [find?, Occurrence.find?, findFrom?_eq_scanFrom?]
  refine findSomeM?_bytes (fun i hlt hi => operationAt?_inside hlt hi) ?_
  rintro s c u rfl
  exact operationAt?_append level s c u

/-- The bytes at which an operation that is found and its operands begin and end are in order, and
the text can be cut at each. -/
theorem Located.cuts {level : Level} {t : Text} {found : Located}
    (h : find? level t = some (some found)) :
    Text.Cuts t [found.start, found.leftStop, found.rightStart, found.stop] ∧
      t.cut? found.start found.leftStop = some found.left ∧
      t.cut? found.rightStart found.stop = some found.right := by
  rw [find?_eq, Option.some.injEq] at h
  obtain ⟨o, ho, rfl⟩ := Option.map_eq_some_iff.1 h
  obtain ⟨_, _, hfound⟩ := Occurrence.find?_spec ho
  let gap := o.leftGap ++ o.operator.symbol :: o.rightGap
  have htext : t = o.before ++ (o.left ++ (gap ++ (o.right ++ o.after))) := by
    rw [← hfound.text, Occurrence.text, Occurrence.extent]
    simp [gap]
  have hstop : o.stop = Text.utf8Size (o.before ++ (o.left ++ (gap ++ o.right))) := by
    simp [gap, Occurrence.stop, Occurrence.start, Occurrence.extent]
  refine ⟨?_, ?_, ?_⟩
  · have hcuts := Text.cuts_append o.before o.left gap o.right o.after
    rwa [← htext, ← hstop] at hcuts
  · rw [htext]
    exact Text.cut?_append _ _ _
  · have hcut := Text.cut?_append (o.before ++ (o.left ++ gap)) o.right o.after
    simp only [List.append_assoc] at hcut
    rwa [← htext, ← hstop] at hcut

/-! ### Splitting a left operand -/

def partsHere? (_seen t : Text) : Option (Text × Text) :=
  match signed? t with
  | some (number, _) => some ([], number)
  | none => Occurrence.carried? t

theorem splitOperand?_eq_scanFrom? (seen t : Text) :
    Occurrence.splitOperand? t = scanFrom? partsHere? seen t := by
  induction t generalizing seen with
  | nil => rfl
  | cons c t ih =>
    rw [Occurrence.splitOperand?, scanFrom?, ← ih, partsHere?]
    cases signed? (c :: t) <;> rfl

theorem carriedAt?_append (s : Text) (c : Char) (u : Text) :
    carriedAt? (s ++ c :: u) s.utf8Size = some (Occurrence.carried? (c :: u)) := by
  rw [carriedAt?, test?_eq (utf8Size_lt_length s c u), testAt_append isAscii_isOperatorChar,
    List.head?_cons, Option.any_some, Occurrence.carried?]
  by_cases hc : isOperatorChar c = true
  · have htext : s ++ c :: Text.spaces u ++ Text.afterSpaces u = s ++ c :: u := by simp
    have hcut := Text.cut?_append s (c :: Text.spaces u) (Text.afterSpaces u)
    have hnumber := operandAt?_append (s ++ c :: Text.spaces u) (Text.afterSpaces u)
    rw [htext] at hnumber
    rw [List.cons_append, Text.spaces_append_afterSpaces] at hcut
    have hskip := skipSpaces_behind (isAscii_isOperatorChar c hc) s u
    simp only [hc, if_true, Option.bind_eq_bind, Option.bind_some, hskip, hcut, hnumber]
    cases signed? (Text.afterSpaces u) <;> rfl
  · simp [hc]

theorem partsAt?_append (s : Text) (c : Char) (u : Text) :
    partsAt? (s ++ c :: u) s.utf8Size = some (partsHere? s.reverse (c :: u)) := by
  rw [partsAt?, operandAt?_append, carriedAt?_append, partsHere?]
  cases signed? (c :: u) <;> rfl

theorem partsAt?_inside {t : Text} {i : Nat} (hlt : i < t.utf8Size)
    (hi : t.afterBytes? i = none) : partsAt? t i = some none := by
  rw [partsAt?, operandAt?, endsAs_signed.of_none hi, carriedAt?,
    test?_eq (by rwa [length_utf8]), testAt_of_none hi]
  rfl

/-- A left operand is split, byte by byte, as it is split character by character. -/
theorem splitOperand?_eq (t : Text) : splitOperand? t = some (Occurrence.splitOperand? t) := by
  rw [splitOperand?, splitOperand?_eq_scanFrom? [], ← Option.map_id' (x := scanFrom? _ _ _)]
  refine findSomeM?_bytes (fun i hlt hi => partsAt?_inside hlt hi) ?_
  rintro s c u rfl
  rw [Option.map_id']
  exact partsAt?_append s c u

end Bytes

end Reckoner
