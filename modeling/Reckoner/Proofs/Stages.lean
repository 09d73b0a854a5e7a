import Reckoner.Proofs.Results

/-!
# The stages of a reduction

A reduction takes a text through stages. What pads a text without touching its operators takes the
padded text through the padded stages, until a stage comes whose padding hides what the rounds look
for at the ends of a text; from there on the padded text cannot be finished.
-/

namespace Reckoner

open Operator (Level)

/-- The texts that a reduction goes through: the text of each round, and the text in which the round
has contracted an occurrence. -/
inductive Stage (level : Level) : Text → Text → Prop where
  | start (t : Text) : Stage level t t
  | contracted {t u : Text} {o : Occurrence} (found : Occurrence.find? level t = some o)
    (result : o.contract = .ok u) : Stage level t u
  | later {t u s : Text} (next : round level t = .ok (.ongoing u)) (rest : Stage level u s) :
    Stage level t s

/-- The texts that an evaluation goes through, level by level. -/
def Passes (t s : Text) : Prop :=
  Stage Operator.multiplicative t s ∨
    ∃ u, reduce Operator.multiplicative t = .ok u ∧ Stage Operator.additive u s

def Round.map (f : Text → Text) : Round → Round
  | finished t => finished (f t)
  | ongoing t => ongoing (f t)

/-- What is put around a text without an operator in it. Where a text is spoilt by it, the padded
text is doomed, and rounds leave a doomed text doomed. -/
structure Padding (pad : Text → Text) (Spoils Doomed : Text → Prop) : Prop where
  find : ∀ level t, ¬ Spoils t → (Occurrence.find? level (pad t)).map Occurrence.contract =
    (Occurrence.find? level t).map fun o => o.contract.map pad
  count : ∀ level t, operatorCount level (pad t) = operatorCount level t
  negatives : ∀ t, ¬ Spoils t → negativeCount (pad t) = negativeCount t
  plain : ∀ t, ¬ Spoils t → doubleNegated? t = none ∧ doubleNegated? (pad t) = none
  trim : ∀ t, Text.trim (pad t) = Text.trim t
  doomed : ∀ t, Spoils t → Doomed (pad t)
  round : ∀ level t, Doomed t → (∃ fault, round level t = .error fault) ∨
    ∃ contracted u, Doomed u ∧ Reckoner.round level t = settle level contracted u
  unsettled : ∀ t, Doomed t → ¬ IsSettled Operator.additive t ∧ doubleNegated? t = none

theorem round_of_none {level : Level} {t : Text} (h : Occurrence.find? level t = none) :
    round level t = settle level false t := by
  simp only [round, h]

theorem round_of_ok {level : Level} {t u : Text} {o : Occurrence}
    (h : Occurrence.find? level t = some o) (hu : o.contract = .ok u) :
    round level t = settle level true u := by
  simp only [round, h, hu]

theorem round_of_error {level : Level} {t : Text} {o : Occurrence} {fault : Fault}
    (h : Occurrence.find? level t = some o) (hf : o.contract = .error fault) :
    round level t = .error fault := by
  simp only [round, h, hf]

/-- A text without operators is its only stage. -/
theorem passes_of_not_operator {t s : Text} (ht : ∀ c ∈ t, isOperatorChar c = false)
    (h : Passes t s) : s = t := by
  have hcount : ∀ level, operatorCount level t = 0 := fun level => operatorCount_eq_zero level ht
  have hstage : ∀ {level}, Stage level t s → s = t := by
    intro level hs
    cases hs with
    | start => rfl
    | contracted found result =>
      obtain ⟨carried, number, hfound⟩ := Occurrence.find?_spec found
      exact absurd (hcount level) hfound.operatorCount_ne_zero
    | later next rest =>
      rw [round_of_operatorCount_eq_zero (hcount level)] at next
      simp at next
  rcases h with hs | ⟨u, hu, hs⟩
  · exact hstage hs
  · rw [reduce, if_pos (hcount _)] at hu
    obtain rfl : t = u := by simpa using hu
    exact hstage hs

namespace Padding

variable {pad : Text → Text} {Spoils Doomed : Text → Prop} {level : Level}

/-- Where nothing is found in a text, nothing is found in the padded one. -/
theorem find_none (h : Padding pad Spoils Doomed) {t : Text} (ht : ¬ Spoils t)
    (hf : Occurrence.find? level t = none) : Occurrence.find? level (pad t) = none := by
  have hfind := h.find level t ht
  rw [hf] at hfind
  simpa using hfind

/-- What is found in the padded text has the padded result. -/
theorem find_some (h : Padding pad Spoils Doomed) {t : Text} {o : Occurrence} (ht : ¬ Spoils t)
    (hf : Occurrence.find? level t = some o) :
    ∃ q, Occurrence.find? level (pad t) = some q ∧ q.contract = o.contract.map pad := by
  have hfind := h.find level t ht
  rw [hf] at hfind
  obtain ⟨q, hq, hc⟩ := Option.map_eq_some_iff.1 hfind
  exact ⟨q, hq, hc⟩

theorem settle_pad (h : Padding pad Spoils Doomed) (contracted : Bool) {t : Text}
    (ht : ¬ Spoils t) : settle level contracted (pad t) =
      (settle level contracted t).map (Round.map pad) := by
  have hsettled : IsSettled level (pad t) ↔ IsSettled level t := by
    rw [IsSettled, IsSettled, h.count, h.negatives t ht]
  obtain ⟨h1, h2⟩ := h.plain t ht
  rw [settle_of_plain contracted fun _ => h1, settle_of_plain contracted fun _ => h2]
  by_cases hs : IsSettled level t
  · rw [if_pos hs, if_pos (hsettled.2 hs)]
    rfl
  · rw [if_neg hs, if_neg fun hp => hs (hsettled.1 hp)]
    cases contracted <;> rfl

/-- A round on the padded text ends as the round on the text does, unless it is spoilt. -/
theorem round_pad (h : Padding pad Spoils Doomed) {t : Text} (ht : ¬ Spoils t)
    (hc : ∀ o u, Occurrence.find? level t = some o → o.contract = .ok u → ¬ Spoils u) :
    Reckoner.round level (pad t) = (Reckoner.round level t).map (Round.map pad) := by
  cases hf : Occurrence.find? level t with
  | none =>
    rw [round_of_none hf, round_of_none (h.find_none ht hf)]
    exact h.settle_pad false ht
  | some o =>
    obtain ⟨q, hq, hcontract⟩ := h.find_some ht hf
    cases ho : o.contract with
    | error fault =>
      rw [ho] at hcontract
      rw [round_of_error hf ho, round_of_error hq hcontract]
      rfl
    | ok u =>
      rw [ho] at hcontract
      rw [round_of_ok hf ho, round_of_ok hq hcontract]
      exact h.settle_pad true (hc o u hf ho)

/-- A reduction of the padded text goes through the padded stages. -/
theorem reduce_pad (h : Padding pad Spoils Doomed) {t : Text}
    (ht : ∀ s, Stage level t s → ¬ Spoils s) : reduce level (pad t) = (reduce level t).map pad := by
  induction t using round_induction level with
  | step t ih =>
    have hround := h.round_pad (ht t (.start t)) fun o u hf hu => ht u (.contracted hf hu)
    rw [reduce_eq, hround, reduce_eq level t]
    cases hr : Reckoner.round level t with
    | error fault => rfl
    | ok outcome =>
      cases outcome with
      | finished d => rfl
      | ongoing u => exact ih u hr fun s hs => ht s (.later hr hs)

/-- A doomed text is reduced to doomed texts only. -/
theorem reduce_doomed (h : Padding pad Spoils Doomed) {t d : Text} (ht : Doomed t)
    (hd : reduce level t = .ok d) : Doomed d ∧ IsSettled level d :=
  ⟨reduce_invariant_of_settle (fun {t} ht => (h.unsettled t ht).2) (h.round level _) ht hd,
    isSettled_of_reduce hd⟩

/-- A stage that is spoilt leaves doomed texts only. -/
theorem reduce_spoilt (h : Padding pad Spoils Doomed) {t s d : Text} (hs : Stage level t s)
    (hspoils : Spoils s) (hd : reduce level (pad t) = .ok d) : Doomed d ∧ IsSettled level d := by
  have hcontracted : ∀ {t o u}, ¬ Spoils t → Occurrence.find? level t = some o →
      o.contract = .ok u → Spoils u → reduce level (pad t) = .ok d →
        Doomed d ∧ IsSettled level d := by
    intro t o u ht hf hu hspoilt hd
    obtain ⟨q, hq, hc⟩ := h.find_some ht hf
    rw [hu] at hc
    have hr := round_of_ok hq hc
    have hdoomed := h.doomed u hspoilt
    rcases reduce_of_settle (fun _ => (h.unsettled _ hdoomed).2) hr hd with ⟨hs, rfl⟩ | ⟨-, -, hd⟩
    · exact ⟨hdoomed, hs⟩
    · exact h.reduce_doomed hdoomed hd
  induction hs with
  | start t => exact h.reduce_doomed (h.doomed t hspoils) hd
  | @contracted t u o found result =>
    by_cases ht : Spoils t
    · exact h.reduce_doomed (h.doomed t ht) hd
    · exact hcontracted ht found result hspoils hd
  | @later t u s next rest ih =>
    by_cases ht : Spoils t
    · exact h.reduce_doomed (h.doomed t ht) hd
    by_cases hc : ∃ o v, Occurrence.find? level t = some o ∧ o.contract = .ok v ∧ Spoils v
    · obtain ⟨o, v, hf, hv, hspoilt⟩ := hc
      exact hcontracted ht hf hv hspoilt hd
    · have hround := h.round_pad ht fun o v hf hv hspoilt => hc ⟨o, v, hf, hv, hspoilt⟩
      rw [reduce_eq, hround, next] at hd
      exact ih hspoils hd

/-- A doomed text has no value. -/
theorem evaluateFlat_doomed (h : Padding pad Spoils Doomed) {t : Text}
    (ht : ∀ d, reduce Operator.multiplicative t = .ok d → Doomed d) :
    ∃ fault, evaluateFlat t = .error fault := by
  rw [evaluateFlat, reduceAll_eq]
  cases hm : reduce Operator.multiplicative t with
  | error fault => exact ⟨fault, rfl⟩
  | ok d =>
    simp only
    cases ha : reduce Operator.additive d with
    | error fault => exact ⟨fault, rfl⟩
    | ok e =>
      obtain ⟨he, hs⟩ := h.reduce_doomed (ht d hm) ha
      exact absurd hs (h.unsettled e he).1

/-- A padded text has the value of the text, unless the text passes a stage that is spoilt. -/
theorem evaluateFlat_pad (h : Padding pad Spoils Doomed) {t : Text}
    (ht : ∀ s, Passes t s → ¬ Spoils s) : evaluateFlat (pad t) = evaluateFlat t := by
  have hm := h.reduce_pad fun s hs => ht s (.inl hs)
  rw [evaluateFlat, evaluateFlat, reduceAll_eq, reduceAll_eq, hm]
  cases hu : reduce Operator.multiplicative t with
  | error fault => rfl
  | ok u =>
    have ha := h.reduce_pad fun s hs => ht s (.inr ⟨u, hu, hs⟩)
    simp only [Except.map, ha]
    cases reduce Operator.additive u with
    | error fault => rfl
    | ok d => simp only [h.trim]

/-- A padded text whose stages are spoilt has no value. -/
theorem evaluateFlat_spoilt (h : Padding pad Spoils Doomed) {t s : Text} (hs : Passes t s)
    (hspoils : Spoils s) : ∃ fault, evaluateFlat (pad t) = .error fault := by
  by_cases hfirst : ∃ s, Stage Operator.multiplicative t s ∧ Spoils s
  · obtain ⟨s, hs, hspoils⟩ := hfirst
    exact h.evaluateFlat_doomed fun d hd => (h.reduce_spoilt hs hspoils hd).1
  · rcases hs with hs | ⟨u, hu, hs⟩
    · exact absurd ⟨s, hs, hspoils⟩ hfirst
    · have hm := h.reduce_pad fun s hs hspoils => hfirst ⟨s, hs, hspoils⟩
      rw [evaluateFlat, reduceAll_eq, hm, hu]
      simp only [Except.map]
      cases ha : reduce Operator.additive (pad u) with
      | error fault => exact ⟨fault, rfl⟩
      | ok d =>
        obtain ⟨hd, hsettled⟩ := h.reduce_spoilt hs hspoils ha
        exact absurd hsettled (h.unsettled d hd).1

end Padding

end Reckoner
