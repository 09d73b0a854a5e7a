import Reckoner.Proofs.Chains
import Reckoner.Proofs.Opposites
import Reckoner.Proofs.ReadBack

/-!
# Minus signs in front of a row

A text whose first operand has a minus sign too many is set beside the text in which that operand
has the negative of its value. A round carries out the same operation on both, and its results are
opposite numbers, so the two texts stay beside each other until the signs meet an addition.
-/

namespace Reckoner

open Literal
open Operator (Level)

namespace Row

/-- Nothing is added to a word or subtracted from it; `afterWord` tells whether a word stands in
front. -/
def Multiplies : (afterWord : Bool) → Row → Prop
  | _, [] => True
  | afterWord, ⟨_, .operator op⟩ :: row =>
    (afterWord = true → op ∈ Operator.multiplicative) ∧ Multiplies false row
  | _, ⟨_, .word _⟩ :: row => Multiplies true row

variable {level : Level} {afterWord : Bool} {row : Row}

theorem multiplies_append (afterWord : Bool) (row next : Row) :
    Multiplies afterWord (row ++ next) ↔
      Multiplies afterWord row ∧ Multiplies (endsInWord afterWord row) next := by
  induction row generalizing afterWord with
  | nil => simp [Multiplies, endsInWord]
  | cons item row ih =>
    obtain ⟨gap, mark⟩ := item
    cases mark with
    | operator op => simp [Multiplies, endsInWord, ih, and_assoc]
    | word w => simp [Multiplies, endsInWord, ih]

theorem multiplies_signedItems_append {t : Text} (h : IsSigned IsWord t) (gap : Nat) (row : Row) :
    Multiplies false (signedItems gap t ++ row) ↔ Multiplies true row := by
  rcases h with h | ⟨w, rfl, -⟩
  · simp [signedItems_word h, Multiplies]
  · simp [signedItems_minus, Multiplies]

/-- A contraction leaves no sum where there was none. -/
theorem Multiplies.replace {s : Site} (hm : Multiplies afterWord row) (hv : Valid afterWord row)
    (h : site? level false row = some s) (v : Float) : Multiplies afterWord (s.replace v) := by
  obtain ⟨rfl, -, hx, hy, hend⟩ := site?_spec hv (by simp) h
  obtain ⟨h1, h2⟩ := (multiplies_append _ _ _).1 hm
  rw [hend, multiplies_signedItems_append (isWord_of_isOperand hx)] at h2
  have h2 := (multiplies_signedItems_append (isWord_of_isOperand hy) _ _).1 h2.2
  rw [Site.replace, multiplies_append, hend, multiplies_signedItems_append (isSigned_render v)]
  exact ⟨h1, h2⟩

def doubled (d : Text) : Row := ⟨0, .operator .minus⟩ :: signedItems 0 ('-' :: d)

theorem text_doubled_append (trailing : Nat) (d : Text) (row : Row) :
    text trailing (doubled d ++ row) = '-' :: '-' :: (d ++ text trailing row) := by
  simp [doubled, signedItems_minus, Operator.symbol]

theorem valid_doubled_append {d : Text} (hd : IsDecimal d) (row : Row) :
    Valid false (doubled d ++ row) ↔ Valid true row := by
  have hw : IsWord d := .inl hd
  simp [doubled, signedItems_minus, hw]

/-- An opening matters to a negative literal only. -/
theorem site?_opening (h : negative? row = none) : site? level true row = site? level false row := by
  match row with
  | [] => rfl
  | ⟨gap, .word w⟩ :: row => rfl
  | ⟨gap, .operator op⟩ :: row =>
    have hleft : leftOperand? true (⟨gap, .operator op⟩ :: row) =
        leftOperand? false (⟨gap, .operator op⟩ :: row) := by
      simp [leftOperand?, h]
    rw [site?, site?, siteAt?, siteAt?, hleft]

theorem site?_doubled_append {d : Text} (hd : IsDecimal d) (rest : Row) :
    site? level true (doubled d ++ rest) =
      (operandSite? level ⟨0, '-' :: d⟩ rest).map (Site.behind [⟨0, .operator .minus⟩]) := by
  have hx : IsOperand ('-' :: d) := .inl (.inr ⟨d, rfl, hd⟩)
  rw [← site?_operator_signedItems 0 .minus hx rest]
  exact site?_opening rfl

/-- A round on a text with an operand `x` in front of a row; what is `kept` in front of the operand
stays in front of its result. -/
def operandRound (level : Level) (kept x : Text) (trailing : Nat) (rest : Row) :
    Except Fault Round :=
  match completion? level rest with
  | some (_, op, right, after) => match calculate x op right.text with
    | .error fault => .error fault
    | .ok v => settle level true (kept ++ (render v ++ text trailing after))
  | none => match site? level false rest with
    | none => settle level false (kept ++ (x ++ text trailing rest))
    | some s => match s.outcome with
      | .error fault => .error fault
      | .ok v => settle level true (kept ++ (x ++ text trailing (s.replace v)))

variable (trailing : Nat)

theorem round_operand {x : Text} {rest : Row} (hx : IsOperand x) (hv : Valid true rest) :
    round level (x ++ text trailing rest) = operandRound level [] x trailing rest := by
  have hvalid : Valid false (signedItems 0 x ++ rest) :=
    (valid_signedItems_append (isWord_of_isOperand hx) 0 rest).2 hv
  have hround := @round_text level _ trailing hvalid
  rw [site?_signedItems_append hx, text_signedItems_append] at hround
  unfold operandRound
  unfold operandSite? at hround
  simp only [List.replicate_zero, List.nil_append] at hround ⊢
  rw [hround]
  cases hc : completion? level rest with
  | some found =>
    obtain ⟨gap, op, right, after⟩ := found
    simp only [Option.map_some, Option.some_or, Site.outcome]
    cases calculate x op right.text with
    | error fault => rfl
    | ok v => simp [Site.replace]
  | none =>
    cases hs : site? level false rest with
    | none => simp
    | some s =>
      simp only [Option.map_none, Option.none_or, Option.map_some, Site.behind, Site.outcome]
      cases calculate s.left.text s.operator s.right.text with
      | error fault => rfl
      | ok v => simp [Site.replace]

theorem round_doubled {d : Text} {rest : Row} (hd : IsDecimal d) (hv : Valid true rest) :
    round level ('-' :: '-' :: (d ++ text trailing rest)) =
      operandRound level ['-'] ('-' :: d) trailing rest := by
  have hround := @round_text level _ trailing ((valid_doubled_append hd rest).2 hv)
  rw [site?_doubled_append hd, text_doubled_append] at hround
  unfold operandRound
  unfold operandSite? at hround
  rw [hround]
  cases hc : completion? level rest with
  | some found =>
    obtain ⟨gap, op, right, after⟩ := found
    simp only [Option.map_some, Option.some_or, Site.behind, Site.outcome]
    cases calculate ('-' :: d) op right.text with
    | error fault => rfl
    | ok v => simp [Site.replace, Operator.symbol]
  | none =>
    cases hs : site? level false rest with
    | none => simp
    | some s =>
      simp only [Option.map_none, Option.none_or, Option.map_some, Site.behind, Site.outcome]
      cases calculate s.left.text s.operator s.right.text with
      | error fault => rfl
      | ok v => simp [Site.replace, signedItems_minus, Operator.symbol]

def IsStuck (front : Row) : Prop :=
  front = [⟨0, .operator .minus⟩, ⟨0, .word "NaN".toList⟩] ∨
    front = [⟨0, .operator .minus⟩, ⟨0, .operator .minus⟩, ⟨0, .word "Infinity".toList⟩]

theorem site?_stuck_append {front : Row} (h : IsStuck front) (rest : Row) :
    site? level true (front ++ rest) = (site? level false rest).map (Site.behind front) := by
  have hnan : covers decimal? "NaN".toList = false := by decide
  have hinf : covers decimal? "Infinity".toList = false := by decide
  have hnan' : isUnsigned "NaN".toList = false := by decide
  have hinf' : isUnsigned "Infinity".toList = false := by decide
  rcases h with rfl | rfl
  · simp only [List.cons_append, List.nil_append, site?, siteAt?, leftOperand?, negative?,
      hnan, unsigned?, hnan']
    cases site? level false rest <;> simp [Site.behind]
  · simp only [List.cons_append, List.nil_append, site?, siteAt?, leftOperand?, negative?,
      hinf, unsigned?, hinf']
    cases site? level false rest <;> simp [Site.behind]

theorem valid_stuck_append {front : Row} (h : IsStuck front) (rest : Row) :
    Valid false (front ++ rest) ↔ Valid true rest := by
  have hnan : IsWord "NaN".toList := .inr (.inr (.inr rfl))
  have hinf : IsWord "Infinity".toList := .inr (.inr (.inl rfl))
  rcases h with rfl | rfl
  · simp only [List.cons_append, List.nil_append, valid_operator_cons, valid_word_cons, hnan,
      true_and]
  · simp only [List.cons_append, List.nil_append, valid_operator_cons, valid_word_cons, hinf,
      true_and]

end Row

theorem isOperand_zero : IsOperand ['0'] := .inl (.inl isDecimal_zero)

theorem isOperand_minus_zero : IsOperand ['-', '0'] := .inl (.inr ⟨['0'], rfl, isDecimal_zero⟩)

/-- The sign of zero decides no result that is written. -/
theorem calculate_zero (op : Operator) {y : Text} (hy : IsOperand y) :
    (calculate ['-', '0'] op y).map render = (calculate ['0'] op y).map render := by
  have h0 : operandValue ['0'] = .ok (Binary64.ofMagnitude false 0) := rfl
  have h1 : operandValue ['-', '0'] = .ok (Binary64.ofMagnitude true 0) := rfl
  obtain ⟨negative, m, hm, hv⟩ := exists_operandValue hy
  simp only [calculate, h0, h1, hv]
  cases op with
  | plus =>
    by_cases h0 : m = 0
    · subst h0
      simp only [Operator.apply, Except.map, Binary64.zero_add_zero, render_zero]
    · simp only [Operator.apply, Binary64.zero_add _ negative hm h0]
  | minus =>
    by_cases h0 : m = 0
    · subst h0
      simp only [Operator.apply, Except.map, Binary64.zero_sub_zero, render_zero]
    · simp only [Operator.apply, Binary64.zero_sub _ negative hm h0]
  | times =>
    simp only [Operator.apply, Except.map]
    by_cases hi : m = Binary64.infinity
    · subst hi
      cases negative <;> rfl
    · rcases Binary64.zero_mul true negative hm with ⟨c, hc⟩ | ⟨hinf, -⟩
      · rcases Binary64.zero_mul false negative hm with ⟨e, he⟩ | ⟨hinf, -⟩
        · rw [hc, he, render_zero, render_zero]
        · exact absurd hinf hi
      · exact absurd hinf hi
  | divide =>
    simp only [Operator.apply]
    split
    · rfl
    · next hzero =>
      have h0 : m ≠ 0 := by
        rintro rfl
        cases negative <;> exact hzero rfl
      obtain ⟨c, hc⟩ := Binary64.zero_div true negative hm h0
      obtain ⟨e, he⟩ := Binary64.zero_div false negative hm h0
      simp only [Except.map, hc, he, render_zero]

/-- With another sign of its left operand a product or a quotient has the opposite value. -/
theorem calculate_opposite {op : Operator} (hop : op ∈ Operator.multiplicative) {d y : Text}
    (hd : IsDecimal d) (hy : IsOperand y) :
    (∃ fault, calculate ('-' :: d) op y = .error fault) ∨
      ∃ a b, Binary64.Opposite a b ∧ calculate ('-' :: d) op y = .ok a ∧ calculate d op y = .ok b := by
  obtain ⟨n, hn, h0, h1⟩ := operandValue_of_literal (.inl hd)
  obtain ⟨negative, m, hm, hv⟩ := exists_operandValue hy
  have hopposite := Binary64.Opposite.signs true hn
  simp only [calculate, h0, h1, hv]
  cases op with
  | plus => simp [Operator.multiplicative] at hop
  | minus => simp [Operator.multiplicative] at hop
  | times => exact .inr ⟨_, _, hopposite.mul _, rfl, rfl⟩
  | divide =>
    simp only [Operator.apply]
    split
    · exact .inl ⟨_, rfl⟩
    · exact .inr ⟨_, _, hopposite.div _, rfl, rfl⟩

end Reckoner
