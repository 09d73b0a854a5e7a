import Reckoner.Proofs.Rounds

/-!
# Normal forms

The rounds of a level end when the operators of the level are as many as the negative literals.
A literal is counted together with the operator that it follows, so the numbers agree only if every
operator of the level is the sign of a literal that opens the text or follows an operator of another
level. In such a text no operation is left, and reducing it once more changes nothing.
-/

namespace Reckoner

open Literal
open Operator (Level)

/-- An operator with `before` in front of it and `after` behind it is a sign: it is a minus, a
literal is attached to it, and it opens the text or follows, spaces aside, an operator outside the
level. -/
structure IsSign (level : Level) (before : Text) (op : Operator) (after : Text) : Prop where
  minus : op = .minus
  literal : ∃ w rest, (IsDecimal w ∨ IsFraction w) ∧ after = w ++ rest
  stands : before = [] ∨
    ∃ front other n, other ∉ level ∧ before = front ++ Operator.symbol other :: List.replicate n ' '

def IsNormal (level : Level) (t : Text) : Prop :=
  ∀ before op after, t = before ++ Operator.symbol op :: after → op ∈ level →
    IsSign level before op after

variable {level : Level} {t : Text}

theorem operatorCount_eq_zero_of_mem {s : Text} (h : operatorCount level s = 0) {op : Operator}
    (hop : op.symbol ∈ s) : op ∉ level := by
  intro hm
  have := List.countP_eq_zero.1 h op.symbol hop
  simp [hm] at this

/-- Where all operators of the level are counted as signs of literals, the text goes on behind a
character that is none of them, or behind a literal whose sign is the only one of them. -/
theorem negativeCountFrom_eq_cases {opens : Bool} {c : Char} (hm : .minus ∈ level)
    (h : negativeCountFrom opens 0 (c :: t) = operatorCount level (c :: t)) :
    (operatorCount level [c] = 0 ∧ negativeCountFrom false 0 t = operatorCount level t) ∨
      ∃ s w rest, (IsDecimal w ∨ IsFraction w) ∧ c :: t = s ++ '-' :: (w ++ rest) ∧
        (s = [] ∧ opens = true ∨ ∃ op n, s = Operator.symbol op :: List.replicate n ' ') ∧
        operatorCount level s = 0 ∧ negativeCountFrom false 0 rest = operatorCount level rest := by
  rcases negativeCountFrom_cases opens c t with he | ⟨number, rest, hnumber, ht, he⟩
  · have hle := negativeCountFrom_le hm false t
    have hsplit := operatorCount_append level [c] t
    rw [List.singleton_append] at hsplit
    exact .inl (by omega)
  · obtain ⟨s, w, -, hw, rfl, -, hs⟩ := negativeLiteral?_spec hnumber
    have hle := negativeCountFrom_le hm false rest
    have hminus := operatorCount_symbol_cons level .minus (w ++ rest)
    rw [show Operator.minus.symbol = '-' from rfl, if_pos hm, operatorCount_append,
      operatorCount_eq_zero level (isWord_of_unsigned hw).not_operator] at hminus
    rw [List.append_assoc, List.cons_append] at ht
    rw [he, ht, operatorCount_append, hminus] at h
    exact .inr ⟨s, w, rest, hw, ht, hs, by omega, by omega⟩

/-- If all operators of the level are counted as signs of literals, each of them is one. The text in
front of the one that is counted decides only whether a literal can open the text. -/
theorem isSign_of_negativeCountFrom {front before after : Text} {op : Operator}
    (hm : .minus ∈ level) (h : negativeCountFrom front.isEmpty 0 t = operatorCount level t)
    (ht : t = before ++ op.symbol :: after) (hop : op ∈ level) :
    IsSign level (front ++ before) op after := by
  induction hn : t.length using Nat.strongRecOn generalizing t front before with
  | ind n ih =>
    cases t with
    | nil => simp at ht
    | cons c t =>
      rcases negativeCountFrom_eq_cases hm h with ⟨hc, h⟩ | ⟨s, w, rest, hw, hct, hs, hzero, h⟩
      · cases before with
        | nil =>
          obtain ⟨rfl, -⟩ := List.cons.inj ht
          exact absurd hop (operatorCount_eq_zero_of_mem hc (by simp))
        | cons d before =>
          obtain ⟨rfl, hrest⟩ := List.cons.inj ht
          have hfront : (front ++ [c]).isEmpty = false := by simp
          have hsign := @ih t.length (by simp [← hn]) t (front ++ [c]) before (by rw [hfront, h])
            hrest rfl
          simpa using hsign
      · -- the operator stands in front of the sign, is the sign, or stands behind the literal
        rcases append_eq_append_cons (hct.symm.trans ht) with ⟨u, hu⟩ | ⟨u, rfl, hu⟩
        · exact absurd hop (operatorCount_eq_zero_of_mem hzero (by simp [hu]))
        cases u with
        | nil =>
          obtain ⟨hsymbol, rfl⟩ := List.cons.inj hu
          have hminus : some Operator.minus = some op := Operator.ofChar?_eq_some_iff.2 hsymbol
          refine ⟨(Option.some.inj hminus).symm, ⟨w, rest, hw, rfl⟩, ?_⟩
          rcases hs with ⟨rfl, hopens⟩ | ⟨other, k, rfl⟩
          · exact .inl (by simpa using hopens)
          · exact .inr ⟨front, other, k, operatorCount_eq_zero_of_mem hzero (by simp), by simp⟩
        | cons d u =>
          obtain ⟨rfl, hbehind⟩ := List.cons.inj hu
          rcases append_eq_append_cons hbehind with ⟨v, hv⟩ | ⟨v, rfl, hrest⟩
          · have hnot := (isWord_of_unsigned hw).not_operator op.symbol (by simp [hv])
            simp at hnot
          · have hshort : rest.length < n := by
              simp only [← hn, hct, List.length_append, List.length_cons]
              omega
            have hfront : (front ++ (s ++ '-' :: w)).isEmpty = false := by simp
            have hsign := @ih rest.length hshort rest (front ++ (s ++ '-' :: w)) v
              (by rw [hfront, h]) hrest rfl
            simpa using hsign

theorem isNormal_of_isSettled (h : IsSettled level t) : IsNormal level t := by
  intro before op after ht hop
  rcases h with h | ⟨hm, h⟩
  · exact absurd hop (operatorCount_eq_zero_of_mem h (by simp [ht]))
  · exact @isSign_of_negativeCountFrom level t [] before after op hm h ht hop

/-- No literal is attached to a minus sign with another minus sign behind it. -/
theorem not_isNormal_minus_minus (hm : .minus ∈ level) (n : Nat) (t : Text) :
    ¬ IsNormal level ('-' :: (List.replicate n ' ' ++ '-' :: t)) := by
  intro h
  obtain ⟨v, rest, hv, he⟩ := (h [] .minus _ rfl hm).literal
  have hstops : Stops (List.replicate n ' ' ++ '-' :: t) :=
    stops_spaces n (by rw [stops_cons]; decide)
  exact not_stops_literal_append hv rest (he ▸ hstops)

theorem doubleNegated?_of_isNormal (hm : .minus ∈ level) (h : IsNormal level t) :
    doubleNegated? t = none := by
  rw [Option.eq_none_iff_forall_ne_some]
  intro w hw
  obtain ⟨-, n, rfl⟩ := doubleNegated?_eq_some_iff.1 hw
  exact not_isNormal_minus_minus hm n w h

/-- The last characters that are no spaces in two ways to write a text are the same. -/
theorem eq_of_append_spaces {s t : Text} {a b : Char} {m n : Nat} (ha : a ≠ ' ') (hb : b ≠ ' ')
    (h : s ++ a :: List.replicate m ' ' = t ++ b :: List.replicate n ' ') : a = b := by
  have hlast : ∀ (u : Text) {c : Char} (k : Nat), c ≠ ' ' →
      (Text.afterSpaces (u ++ c :: List.replicate k ' ').reverse).head? = some c := by
    intro u c k hc
    have := (spaces_replicate_append k (t := c :: u.reverse) (by simpa using hc)).2
    simp [this]
  have he := hlast s m ha
  rw [h, hlast t n hb] at he
  exact (Option.some.inj he).symm

/-- The operator of an operation follows a digit, so it is no sign. -/
theorem find?_of_isNormal (h : IsNormal level t) : Occurrence.find? level t = none := by
  rw [Option.eq_none_iff_forall_ne_some]
  intro o ho
  obtain ⟨carried, number, hfound⟩ := Occurrence.find?_spec ho
  obtain ⟨n, hgap⟩ := hfound.leftGap
  obtain ⟨v, d, hnumber, hd⟩ := hfound.isOperand.concat
  have hsplit : t = (o.before ++ (carried ++ v) ++ d :: List.replicate n ' ') ++
      o.operator.symbol :: (o.rightGap ++ (o.right ++ o.after)) := by
    simp [← hfound.text, Occurrence.text, Occurrence.extent, hfound.left, hnumber, hgap]
  rcases (h _ _ _ hsplit hfound.mem).stands with hnil | ⟨front, other, k, -, he⟩
  · simp at hnil
  · have hspace : d ≠ ' ' := by
      rintro rfl
      cases hd
    obtain rfl := eq_of_append_spaces hspace (symbol_facts other).2.2 he
    rw [(symbol_facts other).1] at hd
    cases hd

/-- A settled text is what it is reduced to. -/
theorem reduce_of_isSettled (h : IsSettled level t) : reduce level t = .ok t := by
  have hnormal := isNormal_of_isSettled h
  have hround : round level t = .ok (.finished t) := by
    rw [round, find?_of_isNormal hnormal]
    simp only
    rw [settle_of_plain false fun hm => doubleNegated?_of_isNormal hm hnormal, if_pos h]
  rw [reduce_eq, hround]

/-- A reduction stops at a text in normal form, which has no operation left and is reduced to
itself. -/
theorem reduce_normal {level : Level} {t s : Text} (h : reduce level t = .ok s) :
    Occurrence.find? level s = none ∧ IsNormal level s ∧ reduce level s = .ok s := by
  have hsettled := isSettled_of_reduce h
  have hnormal := isNormal_of_isSettled hsettled
  exact ⟨find?_of_isNormal hnormal, hnormal, reduce_of_isSettled hsettled⟩

theorem reduce_normal_differences :
    reduce [.minus] "3 - 5 + 4 - 8 * 5".toList = .ok "-2 + -4 * 5".toList ∧
      Occurrence.find? [.minus] "-2 + -4 * 5".toList = none ∧
      IsNormal [.minus] "-2 + -4 * 5".toList ∧
      reduce [.minus] "-2 + -4 * 5".toList = .ok "-2 + -4 * 5".toList := by
  have h : reduce [.minus] "3 - 5 + 4 - 8 * 5".toList = .ok "-2 + -4 * 5".toList := by
    decide +kernel
  exact ⟨h, reduce_normal h⟩

end Reckoner
