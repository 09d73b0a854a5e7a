import Reckoner.Proofs.ByteNumbers
import Reckoner.Proofs.ByteOperations
import Reckoner.Proofs.Signs

/-!
# Rounds at bytes

A round can be carried out on bytes: the operation is found there, its result is put in the place of
the bytes it takes, and the negative literals are counted by a place that goes from byte to byte.
Nothing is asked for in vain, and the rounds come to the end that the rounds on characters come to.
-/

namespace Reckoner

open Literal
open Operator (Level)

namespace Bytes

/-! ### Definitions -/

def operandValue? (operand : Text) : Option (Except Fault Float) := do
  match ← leadingNumber? operand with
  | some v => return .ok v
  | none => return .error (.notANumber operand)

def calculate? (left : Text) (op : Operator) (right : Text) : Option (Except Fault Float) := do
  match ← operandValue? left with
  | .error fault => return .error fault
  | .ok l => match ← operandValue? right with
    | .error fault => return .error fault
    | .ok r => return op.apply l r

def resultText? (left : Text) (op : Operator) (right : Text) : Option (Except Fault Text) := do
  match ← splitOperand? left with
  | none => return .error (.notANumber left)
  | some (carried, number) =>
    let result ← calculate? number op right
    return result.map fun v => carried ++ render v

def contract? (t : Text) (found : Located) : Option (Except Fault Text) := do
  match ← resultText? found.left found.operator found.right with
  | .error fault => return .error fault
  | .ok result =>
    let contracted ← t.splice? found.start found.stop result
    return .ok contracted

/-- The place behind the negative literal that begins at a place, if there is one; `none` if a byte
is asked for that is not there. -/
def negativeEnd? (bs : List UInt8) (place : Nat) : Option (Option Nat) := do
  let opening ← opening? unsignedEnd? bs place
  let trailing ← trailing? unsignedEnd? bs place
  return opening.or trailing

/-- The number of negative literals from a place on; `none` if a byte is asked for that is not there
or `fuel` does not suffice. -/
def negativeCount? (bs : List UInt8) : (fuel place : Nat) → Option Nat
  | 0, place => if place < bs.length then none else some 0
  | fuel + 1, place =>
    if place < bs.length then do
      match ← negativeEnd? bs place with
      | some stop => (negativeCount? bs fuel stop).map (· + 1)
      | none => negativeCount? bs fuel (place + 1)
    else some 0

def settle? (level : Level) (contracted : Bool) (t : Text) : Option (Except Fault Round) :=
  let remaining := operatorCount level t
  let plain? := if .minus ∈ level then doubleNegated? t else none
  let rest := plain?.getD t
  if remaining = 0 then some (.ok (.finished t))
  else do
    let signs ← if .minus ∈ level then
      (negativeCount? rest.utf8 rest.utf8.length 0).map some else some none
    if signs = some remaining then return .ok (.finished rest)
    else if contracted || plain?.isSome then return .ok (.ongoing rest)
    else return .error .operatorPlacement

def round? (level : Level) (t : Text) : Option (Except Fault Round) := do
  match ← find? level t with
  | none => settle? level false t
  | some found => match ← contract? t found with
    | .error fault => return .error fault
    | .ok contracted => settle? level true contracted

/-- Rounds until one finishes; `none` if one cannot be carried out or `fuel` does not suffice. -/
def rounds? (level : Level) : (fuel : Nat) → Text → Option (Except Fault Text)
  | 0, _ => none
  | fuel + 1, t => do
    match ← round? level t with
    | .error fault => return .error fault
    | .ok (.finished done) => return .ok done
    | .ok (.ongoing rest) => rounds? level fuel rest

def reduce? (level : Level) (t : Text) : Option (Except Fault Text) :=
  if operatorCount level t = 0 then some (.ok t) else rounds? level (t.length + 2) t

def reduceLevels? : List Level → Text → Option (Except Fault Text)
  | [], t => some (.ok t)
  | level :: levels, t => do
    match ← reduce? level t with
    | .error fault => return .error fault
    | .ok reduced => reduceLevels? levels reduced

def evaluateFlat? (t : Text) : Option (Except Fault Text) := do
  match ← reduceLevels? Operator.levels t with
  | .error fault => return .error fault
  | .ok reduced =>
    let result := Text.trim reduced
    if result.isEmpty || Literal.isResult result then return .ok result
    else return .error (.notANumber result)

/-! ### Contracting -/

theorem operandValue?_eq (operand : Text) :
    operandValue? operand = some (operandValue operand) := by
  rw [operandValue?, leadingNumber?_eq, operandValue]
  cases Reckoner.leadingNumber? operand <;> rfl

theorem calculate?_eq (left : Text) (op : Operator) (right : Text) :
    calculate? left op right = some (calculate left op right) := by
  rw [calculate?, operandValue?_eq, operandValue?_eq, calculate]
  cases operandValue left with
  | error fault => rfl
  | ok l => cases operandValue right <;> rfl

theorem resultText?_eq (left : Text) (op : Operator) (right : Text) :
    resultText? left op right = some (Occurrence.resultText left op right) := by
  rw [resultText?, splitOperand?_eq, Occurrence.resultText]
  cases Occurrence.splitOperand? left with
  | none => rfl
  | some parts =>
    obtain ⟨carried, number⟩ := parts
    simp only [Option.bind_eq_bind, Option.bind_some, calculate?_eq]
    rfl

/-- What has been found is taken out of the text and its result put in the place. -/
theorem contract?_eq {level : Level} {t : Text} {o : Occurrence}
    (h : Occurrence.find? level t = some o) :
    contract? t (.ofOccurrence o) = some o.contract := by
  obtain ⟨_, _, hfound⟩ := Occurrence.find?_spec h
  have hsplice := Text.splice?_append o.before o.extent o.after
  rw [Text.utf8Size_append, ← Occurrence.text, hfound.text] at hsplice
  rw [contract?, Occurrence.contract]
  dsimp only [Located.ofOccurrence]
  rw [resultText?_eq]
  cases Occurrence.resultText o.left o.operator o.right with
  | error fault => rfl
  | ok result =>
    simp only [Option.bind_eq_bind, Option.bind_some, Occurrence.start, Occurrence.stop, hsplice]
    rfl

/-! ### Counting negative literals -/

/-- What follows a byte of a text, from the first character on that does not begin in front of
it. -/
def behindByte : Text → Nat → Text
  | t, 0 => t
  | [], _ + 1 => []
  | c :: t, n + 1 => behindByte t (n + 1 - c.utf8Size)

section Counting

variable {s t u : Text} {c : Char} {i : Nat}

theorem behindByte_zero (t : Text) : behindByte t 0 = t := by
  cases t <;> rfl

theorem behindByte_append_add (s t : Text) (i : Nat) :
    behindByte (s ++ t) (s.utf8Size + i) = behindByte t i := by
  induction s with
  | nil => rw [List.nil_append, Text.utf8Size_nil, Nat.zero_add]
  | cons c s ih =>
    have hpos := c.utf8Size_pos
    obtain ⟨n, hn⟩ := Nat.exists_eq_add_one.2
      (show 0 < Text.utf8Size (c :: s) + i by rw [Text.utf8Size_cons]; omega)
    have hsub : n + 1 - c.utf8Size = Text.utf8Size s + i := by
      rw [← hn, Text.utf8Size_cons]
      omega
    rw [List.cons_append, hn, behindByte, hsub, ih]

theorem behindByte_append (s t : Text) : behindByte (s ++ t) s.utf8Size = t := by
  rw [← Nat.add_zero s.utf8Size, behindByte_append_add, behindByte_zero]

/-- Behind the first byte of a character stands what follows it. -/
theorem behindByte_inside (h0 : 0 < i) (h : i ≤ c.utf8Size) (s u : Text) :
    behindByte (s ++ c :: u) (s.utf8Size + i) = u := by
  obtain ⟨n, rfl⟩ := Nat.exists_eq_add_one.2 h0
  rw [behindByte_append_add, behindByte, Nat.sub_eq_zero_of_le h, behindByte_zero]

theorem behindByte_of_le (h : t.utf8Size ≤ i) : behindByte t i = [] := by
  obtain ⟨n, rfl⟩ := Nat.exists_eq_add_of_le h
  have hend := behindByte_append_add t [] n
  rw [List.append_nil] at hend
  rw [hend]
  cases n <;> rfl

/-- A byte is one of a character. -/
theorem exists_char (h : i < t.utf8Size) : ∃ s c u k,
    t = s ++ c :: u ∧ i = Text.utf8Size s + k ∧ k < c.utf8Size := by
  induction t generalizing i with
  | nil => exact absurd h (Nat.not_lt_zero i)
  | cons c t ih =>
    by_cases hc : i < c.utf8Size
    · exact ⟨[], c, t, i, rfl, (Nat.zero_add i).symm, hc⟩
    · rw [Text.utf8Size_cons] at h
      obtain ⟨s, d, u, k, rfl, hi, hk⟩ := ih (i := i - c.utf8Size) (by omega)
      exact ⟨c :: s, d, u, k, rfl, by rw [Text.utf8Size_cons]; omega, hk⟩

theorem minusLiteral?_eq (t : Text) : minusLiteral? t = (minus? unsigned? t).map (·.1) := by
  by_cases h : t.head? = some '-'
  · obtain ⟨u, rfl⟩ := List.head?_eq_some_iff.1 h
    rw [minusLiteral?, minus?, Option.map_map]
    rfl
  · rw [minusLiteral?_of_not_minus h, minus?_of_not_minus h]
    rfl

theorem operatorMinusLiteral?_eq (t : Text) :
    operatorMinusLiteral? t = (carriedMinus? unsigned? t).map (·.1) := by
  cases t with
  | nil => rfl
  | cons c t =>
    rw [operatorMinusLiteral?, carriedMinus?, minusLiteral?_eq]
    split
    · rw [Option.map_map, Option.map_map]
      rfl
    · rfl

/-- At a boundary a negative literal ends where it ends in the text. -/
theorem negativeEnd?_append (s : Text) (c : Char) (u : Text) :
    negativeEnd? (s ++ c :: u).utf8 s.utf8Size = some
      ((negativeLiteral? s.isEmpty (c :: u)).map fun number => Text.utf8Size (s ++ number)) := by
  have hlt := utf8Size_lt_length s c u
  rw [negativeEnd?, opening?_eq hlt, trailing?_eq hlt, endsAs_unsigned.opening,
    endsAs_unsigned.carried.append, negativeLiteral?, minusLiteral?_eq, operatorMinusLiteral?_eq]
  have hmap : ∀ read : Option (Text × Text), (read.map fun found => Text.utf8Size (s ++ found.1)) =
      (read.map (·.1)).map fun number => Text.utf8Size (s ++ number) := by
    intro read
    rw [Option.map_map]
    rfl
  rw [hmap, hmap]
  cases s.isEmpty <;> simp [Option.map_or]

theorem negativeEnd?_inside (hlt : i < t.utf8Size) (h0 : i ≠ 0) (hi : t.afterBytes? i = none) :
    negativeEnd? t.utf8 i = some none := by
  have hlt' : i < t.utf8.length := by rwa [length_utf8]
  rw [negativeEnd?, opening?_eq hlt', trailing?_eq hlt', if_neg h0,
    endsAs_unsigned.carried.of_none hi]
  rfl

/-- A literal that begins at a boundary counts, and the count goes on where it ends. -/
theorem negativeCount?_of_literal {number rest : Text}
    (hnumber : negativeLiteral? s.isEmpty (number ++ rest) = some number) (hne : number ≠ [])
    (fuel : Nat) :
    negativeCount? (s ++ (number ++ rest)).utf8 (fuel + 1) s.utf8Size =
      (negativeCount? (s ++ (number ++ rest)).utf8 fuel (s ++ number).utf8Size).map (· + 1) := by
  obtain ⟨c, w, rfl⟩ := List.exists_cons_of_ne_nil hne
  rw [List.cons_append] at hnumber ⊢
  rw [negativeCount?, if_pos (utf8Size_lt_length s c _), negativeEnd?_append, hnumber]
  rfl

/-- Where no literal begins, the count goes on at the next byte. -/
theorem negativeCount?_of_none {place : Nat} (hplace : place < t.utf8.length)
    (hnone : negativeEnd? t.utf8 place = some none) (fuel : Nat) :
    negativeCount? t.utf8 (fuel + 1) place = negativeCount? t.utf8 fuel (place + 1) := by
  rw [negativeCount?, if_pos hplace, hnone]
  rfl

theorem decide_utf8Size_eq_zero (s : Text) : decide (s.utf8Size = 0) = s.isEmpty := by
  rw [Bool.eq_iff_iff, decide_eq_true_eq, Text.utf8Size_eq_zero_iff, List.isEmpty_iff]

/-- From a byte on, the literals are counted that begin behind it. -/
theorem negativeCount?_behind {fuel place : Nat} (h : t.utf8Size ≤ place + fuel) :
    negativeCount? t.utf8 fuel place =
      some (negativeCountFrom (decide (place = 0)) 0 (behindByte t place)) := by
  induction fuel generalizing place with
  | zero =>
    rw [negativeCount?, length_utf8, if_neg (by omega), behindByte_of_le (by omega)]
    rfl
  | succ fuel ih =>
    by_cases hlt : place < t.utf8Size
    · have hbyte : place < t.utf8.length := by rwa [length_utf8]
      obtain ⟨s, c, u, k, rfl, rfl, hk⟩ := exists_char hlt
      rcases Nat.eq_zero_or_pos k with rfl | hpos
      · rw [Nat.add_zero s.utf8Size] at hbyte ⊢
        rw [behindByte_append, decide_utf8Size_eq_zero]
        cases hnumber : negativeLiteral? s.isEmpty (c :: u) with
        | none =>
          have hnone : negativeEnd? (s ++ c :: u).utf8 s.utf8Size = some none := by
            rw [negativeEnd?_append, hnumber]
            rfl
          rw [negativeCount?_of_none hbyte hnone, negativeCountFrom_of_none hnumber,
            ih (by omega), behindByte_inside Nat.one_pos c.utf8Size_pos,
            decide_eq_false (Nat.succ_ne_zero _)]
        | some number =>
          obtain ⟨sign, w, rest, -, hsign, hrest, -⟩ := negativeLiteral?_spec hnumber
          have hne : number ≠ [] := by simp [hsign]
          have hlater : Text.utf8Size (s ++ number) ≠ 0 := by
            simp [Text.utf8Size_eq_zero_iff, hne]
          have hbound := Text.utf8Size_pos hne
          rw [hrest] at hnumber h ih ⊢
          rw [negativeCount?_of_literal hnumber hne, negativeCountFrom_of_some hnumber hne,
            ih (by rw [Text.utf8Size_append s number]; omega), ← List.append_assoc,
            behindByte_append, decide_eq_false hlater]
          rfl
      -- no literal begins inside of a character
      · have hinside := Text.afterBytes?_append_inside hpos hk s u
        rw [negativeCount?_of_none hbyte (negativeEnd?_inside hlt (by omega) hinside),
          ih (by omega), Nat.add_assoc, behindByte_inside (Nat.succ_pos k) hk,
          behindByte_inside hpos hk.le, decide_eq_false (by omega), decide_eq_false (by omega)]
    · rw [negativeCount?, length_utf8, if_neg hlt, behindByte_of_le (by omega)]
      rfl

theorem negativeCount?_eq (t : Text) :
    negativeCount? t.utf8 t.utf8.length 0 = some (negativeCount t) := by
  rw [negativeCount?_behind (by rw [length_utf8]; omega), behindByte_zero]
  rfl

end Counting

/-! ### Rounds -/

theorem settle?_eq (level : Level) (contracted : Bool) (t : Text) :
    settle? level contracted t = some (settle level contracted t) := by
  simp only [settle?, settle, negativeCount?_eq]
  by_cases hcount : operatorCount level t = 0
  · simp only [if_pos hcount]
  · by_cases hminus : Operator.minus ∈ level
    · simp only [if_neg hcount, hminus, true_and, Option.map_some, Option.bind_eq_bind,
        Option.bind_some, Option.some.injEq]
      split_ifs <;> rfl
    · simp only [if_neg hcount, hminus, if_false, false_and, Option.bind_eq_bind, Option.bind_some,
        reduceCtorEq]
      split_ifs <;> rfl

theorem round?_eq (level : Level) (t : Text) : round? level t = some (round level t) := by
  rw [round?, find?_eq, round]
  cases h : Occurrence.find? level t with
  | none => exact settle?_eq level false t
  | some o =>
    simp only [Option.map_some, Option.bind_eq_bind, Option.bind_some, contract?_eq h]
    cases o.contract with
    | error fault => rfl
    | ok contracted => exact settle?_eq level true contracted

theorem rounds?_eq (level : Level) (fuel : Nat) (t : Text) :
    rounds? level fuel t = rounds level fuel t := by
  induction fuel generalizing t with
  | zero => rfl
  | succ fuel ih =>
    rw [rounds?, round?_eq, rounds]
    cases round level t with
    | error fault => rfl
    | ok outcome =>
      cases outcome with
      | finished done => rfl
      | ongoing rest => exact ih rest

theorem reduce?_eq (level : Level) (t : Text) : reduce? level t = some (reduce level t) := by
  rw [reduce?]
  split
  · next h => rw [reduce, if_pos h]
  · rw [rounds?_eq, rounds_eq_reduce (Nat.lt_succ_of_le (roundsLeft_le t))]

theorem reduceLevels?_eq (levels : List Level) (t : Text) :
    reduceLevels? levels t = some (levels.foldlM (fun t level => reduce level t) t) := by
  induction levels generalizing t with
  | nil => rfl
  | cons level levels ih =>
    rw [reduceLevels?, reduce?_eq, List.foldlM_cons]
    cases reduce level t with
    | error fault => rfl
    | ok reduced => exact ih reduced

theorem evaluateFlat?_eq (t : Text) : evaluateFlat? t = some (evaluateFlat t) := by
  rw [evaluateFlat?, reduceLevels?_eq, evaluateFlat, reduceAll]
  cases Operator.levels.foldlM (fun t level => reduce level t) t with
  | error fault => rfl
  | ok reduced =>
    simp only [Option.bind_eq_bind, Option.bind_some]
    split <;> rfl

end Bytes

end Reckoner
