import Reckoner.Proofs.Termination

/-!
# Runs of rounds

A run goes through the rounds of a level up to the one that ends it, and every text has one. Little
is done on the way: each contraction uses up a literal, so there are at most as many of them as the
text has runs of digits, and once a double negation has been unwrapped no operator is left.
-/

namespace Reckoner

open Literal
open Operator (Level)

/-- The number of runs of digits in a text, each counted at its last digit. -/
def digitRuns : Text → Nat
  | [] => 0
  | c :: t => (if c.isDigit && !t.head?.any Char.isDigit then 1 else 0) + digitRuns t

/-- A literal ends where a run of digits does. -/
theorem literalEnds_le_digitRuns (t : Text) : literalEnds t ≤ digitRuns t := by
  induction t with
  | nil => exact Nat.le_refl 0
  | cons c t ih =>
    have hg : t.head?.any Char.isDigit = true → goesOn t = true := by
      cases t with
      | nil => simp
      | cons a t => exact fun h => goesOn_of_digit (by simpa using h)
    rw [literalEnds, digitRuns]
    refine Nat.add_le_add ?_ ih
    cases hd : t.head?.any Char.isDigit with
    | true => simp [hg hd]
    | false => cases c.isDigit <;> cases goesOn t <;> simp

example : digitRuns "12.5 + 3 * -x".toList = 3 := by decide

def unwraps (level : Level) (t : Text) : Bool :=
  operatorCount level t ≠ 0 && .minus ∈ level && (doubleNegated? t).isSome

/-- What is done to a text: the number of operations contracted and of double negations
unwrapped. -/
structure Work where
  contractions : Nat
  unwrappings : Nat

def roundWork (level : Level) (t : Text) : Work :=
  match Occurrence.find? level t with
  | none => ⟨0, (unwraps level t).toNat⟩
  | some o => match o.contract with
    | .error _ => ⟨0, 0⟩
    | .ok contracted => ⟨1, (unwraps level contracted).toNat⟩

/-- A run of rounds up to the one that ends it, with the work of all its rounds. -/
inductive Run (level : Level) : Text → Work → Except Fault Text → Prop where
  | failed {t : Text} {fault : Fault} (h : round level t = .error fault) :
      Run level t (roundWork level t) (.error fault)
  | finished {t done : Text} (h : round level t = .ok (.finished done)) :
      Run level t (roundWork level t) (.ok done)
  | ongoing {t rest : Text} {work : Work} {outcome : Except Fault Text}
      (h : round level t = .ok (.ongoing rest)) (next : Run level rest work outcome) :
      Run level t ⟨(roundWork level t).contractions + work.contractions,
        (roundWork level t).unwrappings + work.unwrappings⟩ outcome

variable {level : Level} {t : Text}

theorem unwraps_eq_true_iff : unwraps level t = true ↔
    .minus ∈ level ∧ ∃ w, doubleNegated? t = some w := by
  simp only [unwraps, Bool.and_eq_true, decide_eq_true_eq, Option.isSome_iff_exists]
  constructor
  · rintro ⟨⟨-, hm⟩, h⟩
    exact ⟨hm, h⟩
  · rintro ⟨hm, w, h⟩
    exact ⟨⟨operatorCount_of_doubleNegated hm h, hm⟩, w, h⟩

/-- A round fails to contract, or its second half works on a text that has lost a literal for the
operation contracted. -/
theorem round_cases (level : Level) (t : Text) :
    (∃ fault, round level t = .error fault ∧ roundWork level t = ⟨0, 0⟩) ∨
      ∃ contracted u, round level t = settle level contracted u ∧
        roundWork level t = ⟨contracted.toNat, (unwraps level u).toNat⟩ ∧
        contracted.toNat + literalEnds u ≤ literalEnds t := by
  unfold round roundWork
  cases ho : Occurrence.find? level t with
  | none => exact .inr ⟨false, t, rfl, rfl, by simp⟩
  | some o =>
    obtain ⟨carried, number, hfound⟩ := Occurrence.find?_spec ho
    dsimp only
    cases hc : o.contract with
    | error fault => exact .inl ⟨fault, rfl, rfl⟩
    | ok u =>
      have hlt := hfound.literalEnds_lt hc
      exact .inr ⟨true, u, rfl, rfl, by rw [Bool.toNat_true]; omega⟩

/-- What a round contracts is gone from the literals of the text. -/
theorem contractions_round_le (level : Level) (t : Text) :
    (roundWork level t).contractions ≤ literalEnds t ∧ ∀ rest, round level t = .ok (.ongoing rest) →
      (roundWork level t).contractions + literalEnds rest ≤ literalEnds t := by
  rcases round_cases level t with ⟨fault, hr, hw⟩ | ⟨contracted, u, hr, hw, hle⟩
  · simp [hr, hw]
  · rw [hr, hw]
    refine ⟨by simp only; omega, fun rest h => ?_⟩
    rw [literalEnds_of_settle h]
    exact hle

/-- What is left of a double negation has no operator. -/
theorem operatorCount_of_unwraps {contracted : Bool} {rest : Text} (hu : unwraps level t = true)
    (h : settle level contracted t = .ok (.ongoing rest)) : operatorCount level rest = 0 := by
  obtain ⟨hm, w, hw⟩ := unwraps_eq_true_iff.1 hu
  rw [settle_of_doubleNegated contracted hm hw] at h
  obtain rfl : w = rest := by simpa using h
  exact operatorCount_eq_zero level
    (isWord_of_unsigned (doubleNegated?_eq_some_iff.1 hw).1).not_operator

/-- A round unwraps at most one double negation, and behind one that does no operator is left. -/
theorem unwrappings_round_le (level : Level) (t : Text) :
    (roundWork level t).unwrappings ≤ 1 ∧ ∀ rest, round level t = .ok (.ongoing rest) →
      (roundWork level t).unwrappings = 0 ∨ operatorCount level rest = 0 := by
  rcases round_cases level t with ⟨fault, hr, hw⟩ | ⟨contracted, u, hr, hw, -⟩
  · simp [hr, hw]
  · rw [hr, hw]
    refine ⟨Bool.toNat_le _, fun rest h => ?_⟩
    cases hu : unwraps level u with
    | false => exact .inl rfl
    | true => exact .inr (operatorCount_of_unwraps hu h)

theorem roundWork_of_operatorCount_eq_zero (h : operatorCount level t = 0) :
    (roundWork level t).unwrappings = 0 := by
  simp [roundWork, Occurrence.find?_of_operatorCount_eq_zero h, unwraps, h]

/-- Every text has a run, and it ends as the reduction does. -/
theorem exists_run (level : Level) (t : Text) : ∃ work, Run level t work (reduce level t) := by
  induction t using round_induction level with
  | step t ih =>
    rw [reduce_eq]
    cases hr : round level t with
    | error fault => exact ⟨_, .failed hr⟩
    | ok outcome =>
      cases outcome with
      | finished done => exact ⟨_, .finished hr⟩
      | ongoing rest =>
        obtain ⟨work, hrun⟩ := ih rest hr
        exact ⟨_, .ongoing hr hrun⟩

namespace Run

variable {work : Work} {outcome : Except Fault Text}

theorem outcome_eq (h : Run level t work outcome) : outcome = reduce level t := by
  induction h with
  | failed h => rw [reduce_eq, h]
  | finished h => rw [reduce_eq, h]
  | ongoing h _ ih => rw [reduce_eq, h, ih]

theorem contractions_le (h : Run level t work outcome) : work.contractions ≤ literalEnds t := by
  induction h with
  | failed h => exact (contractions_round_le level _).1
  | finished h => exact (contractions_round_le level _).1
  | ongoing h _ ih =>
    have hround := (contractions_round_le level _).2 _ h
    simp only
    omega

/-- A text without operators of the level has nothing to unwrap, and any other has at most one
double negation: what is left of it has no operators. -/
theorem unwrappings_le (h : Run level t work outcome) :
    work.unwrappings ≤ if operatorCount level t = 0 then 0 else 1 := by
  have hround : ∀ u, (roundWork level u).unwrappings ≤
      if operatorCount level u = 0 then 0 else 1 := by
    intro u
    split
    · next h0 => exact Nat.le_of_eq (roundWork_of_operatorCount_eq_zero h0)
    · exact (unwrappings_round_le level u).1
  induction h with
  | failed h => exact hround _
  | finished h => exact hround _
  | @ongoing t rest work outcome h _ ih =>
    have hne : operatorCount level t ≠ 0 := by
      intro h0
      rw [round_of_operatorCount_eq_zero h0] at h
      cases h
    have hle := (unwrappings_round_le level t).1
    rw [if_neg hne]
    simp only
    cases (unwrappings_round_le level t).2 rest h with
    | inl hzero =>
      have : work.unwrappings ≤ 1 := Nat.le_trans ih (by split <;> omega)
      omega
    | inr hrest =>
      rw [if_pos hrest] at ih
      omega

end Run

/-- The rounds of a level end on every text, after at most as many contractions as the text has runs
of digits and at most one unwrapping. -/
theorem run_reduce (level : Level) (t : Text) :
    (∃ work, Run level t work (reduce level t)) ∧
      ∀ work outcome, Run level t work outcome →
        outcome = reduce level t ∧ work.contractions ≤ digitRuns t ∧ work.unwrappings ≤ 1 := by
  refine ⟨exists_run level t, fun work outcome h => ⟨h.outcome_eq, ?_, ?_⟩⟩
  · exact Nat.le_trans h.contractions_le (literalEnds_le_digitRuns t)
  · exact Nat.le_trans h.unwrappings_le (by split <;> omega)

end Reckoner
