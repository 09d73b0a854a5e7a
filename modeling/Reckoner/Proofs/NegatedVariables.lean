import Reckoner.Proofs.Negations

/-!
# A minus sign in front of a variable

Behind a minus sign the text of a variable's value faces the value of `(0 - x)`, so that the two are
worth the same unless the value is negative. For every negative value a difference tells them apart.
-/

namespace Reckoner

open Literal
open Lexeme (list)
open Operator (Level)

variable {level : Level}

theorem settle_unsigned (contracted : Bool) {t : Text} (h : ∀ c ∈ t, isOperatorChar c = false) :
    settle level contracted t = .ok (.finished t) := by
  simp only [settle, operatorCount_eq_zero level h, if_true]

theorem settle_operand (contracted : Bool) {t : Text} (h : IsOperand t) :
    settle level contracted t = .ok (.finished t) := by
  have hfits : Chain.Fits ⟨t, []⟩ := ⟨h, by simp⟩
  have htext : Chain.text 0 ⟨t, []⟩ = t := by simp [Chain.text]
  have hsettle := @Chain.settle_text level _ hfits 0 contracted
  rw [if_pos ((Chain.isSettled_iff hfits 0).2 (by simp)), htext] at hsettle
  exact hsettle

/-- A text whose only round settles it has the value that the round leaves. -/
theorem evaluateFlat_of_round {t d : Text} (hm : operatorCount Operator.multiplicative t = 0)
    (hr : round Operator.additive t = .ok (.finished d)) (hd : isResult (Text.trim d) = true) :
    evaluateFlat t = .ok (Text.trim d) := by
  have h1 : reduce Operator.multiplicative t = .ok t := by simp only [reduce, hm, if_true]
  have h2 : reduce Operator.additive t = .ok d := by rw [reduce_eq, hr]
  simp only [evaluateFlat, reduceAll_eq, h1, h2, hd, Bool.or_true, if_true]

/-- The items of a difference behind its left operand. -/
def Row.difference (y : Text) : Row := ⟨1, .operator .minus⟩ :: Row.signedItems 1 y

namespace Row

theorem text_difference (y : Text) : text 0 (difference y) = " - ".toList ++ y := by
  have := text_signedItems_append 0 1 y []
  rw [List.append_nil] at this
  rw [difference, text_cons, this]
  simp [Operator.symbol]

theorem valid_difference {y : Text} (hy : IsOperand y) : Valid true (difference y) := by
  have := (valid_signedItems_append (isWord_of_isOperand hy) 1 []).2 trivial
  rw [List.append_nil] at this
  exact (valid_operator_cons _ _ _ _).2 this

/-- A round on a difference carries it out. -/
theorem operandRound_difference (kept x : Text) {y : Text} (hy : IsOperand y) {v : Float}
    (hv : calculate x .minus y = .ok v) :
    operandRound Operator.additive kept x 0 (difference y) =
      settle Operator.additive true (kept ++ render v) := by
  have hcomplete : completion? Operator.additive (difference y) =
      some (1, .minus, ⟨1, y⟩, []) := by
    have := @signed?_signedItems_append ⟨1, y⟩ hy []
    rw [List.append_nil] at this
    exact completion?_eq_some_iff.2 ⟨_, by decide, this, rfl⟩
  simp only [operandRound, hcomplete, hv, text_nil, List.replicate_zero, List.append_nil]

end Row

theorem operatorCount_difference {x y : Text} (hx : IsOperand x) (hy : IsOperand y) :
    operatorCount Operator.multiplicative (x ++ (" - ".toList ++ y)) = 0 := by
  have hm : Operator.minus ∉ Operator.multiplicative := by decide
  rw [operatorCount_append, operatorCount_append, Chain.operatorCount_operand _ hx,
    Chain.operatorCount_operand _ hy, if_neg hm]
  rfl

/-- A difference is worth what is left of it. -/
theorem evaluateFlat_difference {x y : Text} (hx : IsOperand x) (hy : IsOperand y) {v : Float}
    (hv : calculate x .minus y = .ok v)
    (hs : settle Operator.additive true (render v) = .ok (.finished (render v)))
    (hr : isResult (Text.trim (render v)) = true) :
    evaluateFlat (x ++ (" - ".toList ++ y)) = .ok (Text.trim (render v)) := by
  have hround := @Row.round_operand Operator.additive 0 x _ hx (Row.valid_difference hy)
  rw [Row.operandRound_difference [] x hy hv, List.nil_append, hs, Row.text_difference] at hround
  exact evaluateFlat_of_round (operatorCount_difference hx hy) hround hr

/-- The same difference behind two minus signs. -/
theorem evaluateFlat_doubled_difference {d : Text} (hd : IsDecimal d) {v : Float}
    (hv : calculate ('-' :: d) .minus ('-' :: d) = .ok v) (h0 : render v = ['0']) :
    evaluateFlat ('-' :: '-' :: (d ++ (" - ".toList ++ '-' :: d))) = .ok ['-', '0'] := by
  have hx : IsOperand ('-' :: d) := .inl (.inr ⟨d, rfl, hd⟩)
  have hround := @Row.round_doubled Operator.additive 0 d _ hd (Row.valid_difference hx)
  rw [Row.operandRound_difference ['-'] _ hx hv, Row.text_difference, h0,
    show ['-'] ++ ['0'] = ['-', '0'] from rfl, settle_operand true isOperand_minus_zero] at hround
  have hcount : operatorCount Operator.multiplicative
      ('-' :: '-' :: (d ++ (" - ".toList ++ '-' :: d))) = 0 := by
    have h1 := operatorCount_symbol_cons Operator.multiplicative .minus
      ('-' :: (d ++ (" - ".toList ++ '-' :: d)))
    have h2 := operatorCount_difference hx hx
    rw [show Operator.minus.symbol = '-' from rfl] at h1
    rw [h1, if_neg (by decide)]
    simpa using h2
  have hflat := evaluateFlat_of_round hcount hround (by rfl)
  rw [hflat]
  rfl

theorem isOperand_render (negative : Bool) {m : Nat} (h : m < Binary64.infinity) :
    IsOperand (render (Binary64.ofMagnitude negative m)) :=
  .inl (isSigned_render_of_isFinite (isFinite_ofMagnitude negative h))

theorem render_ne_nil (v : Float) : render v ≠ [] := by
  rcases isSigned_render v with hw | ⟨w, he, -⟩
  · exact hw.ne_nil
  · simp [he]

theorem operandValue_render (negative : Bool) {m : Nat} (h : m ≤ Binary64.infinity) :
    operandValue (render (Binary64.ofMagnitude negative m)) =
      .ok (Binary64.ofMagnitude (negative && m != 0) m) := by
  rw [operandValue, leadingNumber?_render negative h]

/-- Nothing is left of a negative value that is subtracted from itself. -/
theorem calculate_self {m : Nat} (h : m < Binary64.infinity) (h0 : m ≠ 0) :
    calculate (render (Binary64.ofMagnitude true m)) .minus (render (Binary64.ofMagnitude true m)) =
      .ok (Binary64.ofMagnitude false 0) := by
  have hvalue := operandValue_render true (Nat.le_of_lt h)
  have hb : (m != 0) = true := by simpa using h0
  rw [hb, Bool.and_true] at hvalue
  simp only [calculate, hvalue, Operator.apply, Binary64.sub_self true h h0]

/-- A negative value subtracted from its opposite leaves a positive one. -/
theorem calculate_opposites {m : Nat} (h : m < Binary64.infinity) (h0 : m ≠ 0) :
    ∃ k, k ≠ 0 ∧ k ≤ Binary64.infinity ∧
      calculate (render (Binary64.ofMagnitude false m)) .minus
        (render (Binary64.ofMagnitude true m)) = .ok (Binary64.ofMagnitude false k) := by
  obtain ⟨k, hk, hle, hsub⟩ := Binary64.sub_opposite false h h0
  have hleft := operandValue_render false (Nat.le_of_lt h)
  have hright := operandValue_render true (Nat.le_of_lt h)
  have hb : (m != 0) = true := by simpa using h0
  rw [Bool.false_and] at hleft
  rw [hb, Bool.and_true] at hright
  refine ⟨k, hk, hle, ?_⟩
  simp only [calculate, hleft, hright, Operator.apply]
  exact congrArg _ hsub

/-- Positive values are written as results without a sign. -/
theorem render_positive {k : Nat} (h : k ≤ Binary64.infinity) (h0 : k ≠ 0) :
    IsWord (render (Binary64.ofMagnitude false k)) ∧
      isResult (render (Binary64.ofMagnitude false k)) = true := by
  by_cases hi : k = Binary64.infinity
  · subst hi
    rw [render_infinity]
    exact ⟨.inr (.inr (.inl rfl)), by decide⟩
  · have hlt : k < Binary64.infinity := by omega
    refine ⟨?_, Chain.isResult_operand (isOperand_render false hlt)⟩
    rw [render_finite false hlt h0]
    exact .inl (isDecimal_positional _)

/-- A negative value subtracted from its opposite, as a text. -/
theorem evaluateFlat_opposites {m : Nat} (h : m < Binary64.infinity) (h0 : m ≠ 0) :
    ∃ k, k ≠ 0 ∧ k ≤ Binary64.infinity ∧
      evaluateFlat (render (Binary64.ofMagnitude false m) ++
        (" - ".toList ++ render (Binary64.ofMagnitude true m))) =
          .ok (render (Binary64.ofMagnitude false k)) := by
  obtain ⟨k, hk, hle, hcalculate⟩ := calculate_opposites h h0
  obtain ⟨hword, hresult⟩ := render_positive hle hk
  have hflat := evaluateFlat_difference (isOperand_render false h) (isOperand_render true h)
    hcalculate (settle_unsigned true hword.not_operator) (by rw [hword.trim]; exact hresult)
  rw [hword.trim] at hflat
  exact ⟨k, hk, hle, hflat⟩

/-- What is subtracted from zero is worth its opposite. -/
theorem evaluateFlat_zero_sub (negative : Bool) {m : Nat} (h : m < Binary64.infinity) :
    evaluateFlat (['0'] ++ (" - ".toList ++ render (Binary64.ofMagnitude negative m))) =
      .ok (render (Binary64.ofMagnitude (!negative) m)) := by
  have hle := Nat.le_of_lt h
  have hzero : operandValue ['0'] = .ok (Binary64.ofMagnitude false 0) := rfl
  have hvalue := operandValue_render negative hle
  have hresult : ∃ w, calculate ['0'] .minus (render (Binary64.ofMagnitude negative m)) = .ok w ∧
      render w = render (Binary64.ofMagnitude (!negative) m) := by
    refine ⟨Binary64.ofMagnitude false 0 - Binary64.ofMagnitude (negative && m != 0) m,
      by simp only [calculate, hzero, hvalue, Operator.apply], ?_⟩
    by_cases h0 : m = 0
    · subst h0
      rw [Binary64.zero_sub_zero, render_zero, render_zero]
    · have hb : (m != 0) = true := by simpa using h0
      rw [Binary64.zero_sub _ _ hle h0, hb, Bool.and_true]
  obtain ⟨w, hw, he⟩ := hresult
  have hoperand := isOperand_render (!negative) h
  have htrim := Chain.trim_operand 0 hoperand
  rw [List.replicate_zero, List.append_nil] at htrim
  have hdifference := evaluateFlat_difference isOperand_zero (isOperand_render negative h) hw
    (by rw [he]; exact settle_operand true hoperand)
    (by rw [he, htrim]; exact Chain.isResult_operand hoperand)
  rw [hdifference, he, htrim]

def minusLetter (t : Term) (x : Char) : Expression := ⟨t, .cons 1 .minus 1 (.letter x) .nil, 0⟩

theorem textWith_minusLetter (values : Char → Text) (t : Term) (x : Char) :
    (minusLetter t x).textWith values = t.text values ++ (" - ".toList ++ values x) := by
  simp [minusLetter, Expression.textWith, Term.text, Operations.text, Operator.symbol]

def zeroMinus (x : Char) : Term := (minusLetter (.literal ['0'] isOperand_zero) x).group

theorem text_zeroMinus (values : Char → Text) (x : Char) :
    (zeroMinus x).text values = '(' :: ((['0'] ++ (" - ".toList ++ values x)) ++ [')']) := by
  simp [zeroMinus, minusLetter, Expression.group, Term.text, Operations.text, Operator.symbol]

theorem text_minusLetter_letter (x : Char) :
    (minusLetter (.letter x) x).text = x :: (" - ".toList ++ [x]) := by
  rw [Expression.text, textWith_minusLetter]
  rfl

theorem text_minusLetter_zeroMinus (x : Char) : (minusLetter (zeroMinus x) x).text =
    "(0 - ".toList ++ x :: ')' :: (" - ".toList ++ [x]) := by
  rw [Expression.text, textWith_minusLetter, text_zeroMinus]
  rfl

theorem names_minusLetter_zeroMinus (x : Char) : (minusLetter (zeroMinus x) x).names = [x, x] := by
  simp [minusLetter, zeroMinus, Expression.group, Expression.names, Term.names, Operations.names]

theorem names_minusLetter_letter (x : Char) : (minusLetter (.letter x) x).names = [x, x] := by
  simp [minusLetter, Expression.group, Expression.names, Term.names, Operations.names]

namespace Store

variable {x : Char}

/-- The difference between a variable and itself, behind a minus sign, passes all checks. -/
theorem runAll_minus_difference (hs : Sound store) (hx : (store.get? account x).isSome = true) :
    Check.runAll Check.typed ('-' :: (minusLetter (.letter x) x).text) = .ok () ∧
      Check.runAll Check.closed
        ('-' :: (minusLetter (.letter x) x).textWith (store.rendering account)) = .ok () := by
  have halpha := hs.isAlpha hx
  have hminus : ∀ t, list ('-' :: t) = ⟨.operator .minus, ['-']⟩ :: list t := by
    intro t
    exact Lexeme.list_char_cons (unsigned?_of_stops (stops_symbol .minus t)) (by decide)
  have htyped : Orderly true false (list (minusLetter (.letter x) x).text) := by
    apply Expression.orderly
    intro c hc
    obtain rfl : c = x := by simpa [names_minusLetter_letter] using hc
    exact .inl ⟨rfl, c, halpha, rfl⟩
  have hclosed : Orderly false false
      (list ((minusLetter (.letter x) x).textWith (store.rendering account))) := by
    apply Expression.orderly
    intro c hc
    obtain rfl : c = x := by simpa [names_minusLetter_letter] using hc
    exact .inr (hs.isSigned_rendering hx)
  rw [Check.runAll_eq_ok_iff, Check.runAll_eq_ok_iff, hminus, hminus]
  refine ⟨?_, hclosed.closed_minus⟩
  have hletter : ∀ t, list (x :: t) = ⟨.ofChar x, [x]⟩ :: list t := by
    obtain ⟨hdigit, hpoint, hspace, -⟩ := isAlpha_facts halpha
    intro t
    exact Lexeme.list_char_cons (unsigned?_of_stops ((stops_cons x t).2 ⟨hdigit, hpoint⟩)) hspace
  have hspace := @Lexeme.list_spaces_append 0 ['-', ' ', x] (by simp)
  have hlist : list (minusLetter (.letter x) x).text =
      ⟨.ofChar x, [x]⟩ :: ⟨.space, [' ']⟩ :: list ['-', ' ', x] := by
    rw [text_minusLetter_letter]
    exact (hletter _).trans (congrArg _ hspace)
  rw [hlist] at htyped ⊢
  exact htyped.typed_minus

theorem runAll_zeroMinus_difference (hs : Sound store)
    (hx : (store.get? account x).isSome = true) :
    Check.runAll Check.typed (minusLetter (zeroMinus x) x).text = .ok () ∧
      Check.runAll Check.closed
        ((minusLetter (zeroMinus x) x).textWith (store.rendering account)) = .ok () := by
  have hclosed : Orderly false false
      (list ((minusLetter (zeroMinus x) x).textWith (store.rendering account))) := by
    apply Expression.orderly
    intro c hc
    obtain rfl : c = x := by simpa [names_minusLetter_zeroMinus] using hc
    exact .inr (hs.isSigned_rendering hx)
  refine ⟨runAll_typed ?_ ?_, (Check.runAll_eq_ok_iff _ _).2 hclosed.closed⟩
  · intro c hc
    obtain rfl : c = x := by simpa [names_minusLetter_zeroMinus] using hc
    exact hs.isAlpha hx
  · intro d _ he
    rw [text_minusLetter_zeroMinus] at he
    exact absurd (List.cons.inj he).1 (by decide)

/-- Replacing the variables of an expression leaves its text with their values. -/
theorem Sound.substitute_text (hs : Sound store) (e : Expression) :
    store.substitute account e.text = e.textWith (store.rendering account) := by
  rw [hs.substitute, Expression.flatMap_text (hs.rendering_of_not_letter account)]

theorem substitute_minus (hs : Sound store) {v : Float} (hv : store.get? account x = some v)
    (t : Text) : store.substitute account ('-' :: x :: t) =
      '-' :: (render v ++ store.substitute account t) := by
  simp only [hs.substitute, List.flatMap_cons, rendering_of_get? hv]
  rw [hs.rendering_of_not_letter account '-' (by decide)]
  rfl

theorem substitute_zeroMinus (hs : Sound store) {v : Float}
    (hv : store.get? account x = some v) (t : Text) :
    store.substitute account ("(0 - ".toList ++ x :: ')' :: t) =
      '(' :: ((['0'] ++ (" - ".toList ++ render v)) ++ ')' :: store.substitute account t) := by
  have hfront : "(0 - ".toList.flatMap (store.rendering account) = "(0 - ".toList :=
    flatMap_of_not_letter (hs.rendering_of_not_letter account) (by simp)
  simp only [hs.substitute, List.flatMap_append, List.flatMap_cons, rendering_of_get? hv, hfront]
  rw [hs.rendering_of_not_letter account ')' (by decide)]
  simp

theorem substitute_difference (hs : Sound store) {v : Float}
    (hv : store.get? account x = some v) :
    store.substitute account (" - ".toList ++ [x]) = " - ".toList ++ render v := by
  have hgap : " - ".toList.flatMap (store.rendering account) = " - ".toList :=
    flatMap_of_not_letter (hs.rendering_of_not_letter account) (by simp)
  rw [hs.substitute, List.flatMap_append, List.flatMap_singleton, hgap, rendering_of_get? hv]

end Store

theorem paren_not_mem_difference {x y : Text} (hx : IsOperand x) (hy : IsOperand y) :
    '(' ∉ x ++ (" - ".toList ++ y) ∧ ')' ∉ x ++ (" - ".toList ++ y) := by
  have hgap : '(' ∉ " - ".toList ∧ ')' ∉ " - ".toList := by decide
  simp only [List.mem_append, not_or]
  obtain ⟨hx1, hx2⟩ := IsOperand.paren_not_mem hx
  obtain ⟨hy1, hy2⟩ := IsOperand.paren_not_mem hy
  exact ⟨⟨hx1, hgap.1, hy1⟩, ⟨hx2, hgap.2, hy2⟩⟩

namespace Store

/-- Of a negative variable `-x - x` is nothing. -/
theorem evaluate_minus_difference (hs : Sound store) {m : Nat} (hm : m < Binary64.infinity)
    (h0 : m ≠ 0) (hv : store.get? account x = some (Binary64.ofMagnitude true m)) :
    store.evaluate account ('-' :: x :: (" - ".toList ++ [x])) = .ok ['-', '0'] := by
  have hd := isDecimal_positional (Decimal.shortest m)
  have hsigned : IsOperand ('-' :: (Decimal.shortest m).positional) := .inl (.inr ⟨_, rfl, hd⟩)
  have hrender : render (Binary64.ofMagnitude true m) = '-' :: (Decimal.shortest m).positional :=
    render_finite true hm h0
  have hcalculate := calculate_self hm h0
  rw [hrender] at hcalculate
  have hflat := evaluateFlat_doubled_difference hd hcalculate (render_zero false)
  obtain ⟨htyped, hclosed⟩ := runAll_minus_difference hs (by rw [hv]; rfl)
  rw [← hs.substitute_text] at hclosed
  rw [text_minusLetter_letter] at htyped hclosed
  rw [← hs.substitute_cons (by decide)] at hclosed
  refine evaluate_of_flat htyped hclosed ?_ hflat
  rw [substitute_minus hs hv, substitute_difference hs hv, hrender]
  apply resolveGroups_of_not_mem
  simpa using paren_not_mem_difference hsigned hsigned

/-- Of a negative variable `(0 - x) - x` is not nothing. -/
theorem evaluate_zeroMinus_difference (hs : Sound store) {m : Nat} (hm : m < Binary64.infinity)
    (h0 : m ≠ 0) (hv : store.get? account x = some (Binary64.ofMagnitude true m)) :
    ∃ k, k ≠ 0 ∧ k ≤ Binary64.infinity ∧
      store.evaluate account ("(0 - ".toList ++ x :: ')' :: (" - ".toList ++ [x])) =
        .ok (render (Binary64.ofMagnitude false k)) := by
  obtain ⟨k, hk, hle, hflat⟩ := evaluateFlat_opposites hm h0
  have hparens := paren_not_mem_difference isOperand_zero (isOperand_render true hm)
  have hgap : '(' ∉ " - ".toList ++ render (Binary64.ofMagnitude true m) ∧
      ')' ∉ " - ".toList ++ render (Binary64.ofMagnitude true m) := by
    simpa using hparens
  obtain ⟨htyped, hclosed⟩ := runAll_zeroMinus_difference hs (by rw [hv]; rfl)
  rw [← hs.substitute_text] at hclosed
  rw [text_minusLetter_zeroMinus] at htyped hclosed
  refine ⟨k, hk, hle, evaluate_of_flat htyped hclosed ?_ hflat⟩
  rw [substitute_zeroMinus hs hv, substitute_difference hs hv,
    resolveGroups_group hparens (evaluateFlat_zero_sub true hm)]
  exact ⟨_, resolveGroups_of_not_mem hgap, rfl⟩

/-- What follows a variable behind a minus sign makes facing texts of `-x` and `(0 - x)`. -/
theorem facing_of_evaluate (hs : Sound store) {negative : Bool} {m : Nat}
    (hm : m < Binary64.infinity)
    (hv : store.get? account x = some (Binary64.ofMagnitude negative m)) {t r s : Text}
    (hr : store.evaluate account ('-' :: x :: t) = .ok r)
    (hs' : store.evaluate account ("(0 - ".toList ++ x :: ')' :: t) = .ok s)
    (hsum : negative = true → m ≠ 0 →
      ∃ u, resolveGroups (store.substitute account t) = .ok u ∧ hasSum true u = false) :
    ∃ a b, Facing a b ∧ evaluateFlat a = .ok r ∧ evaluateFlat b = .ok s := by
  have hoperand := isOperand_render negative hm
  obtain ⟨-, a, ha, har⟩ := exists_flat_of_evaluate hr
  obtain ⟨hclosed, b, hb, hbs⟩ := exists_flat_of_evaluate hs'
  rw [substitute_minus hs hv, ← List.cons_append, resolveGroups_append (by
    simpa using IsOperand.paren_not_mem hoperand)] at ha
  rw [substitute_zeroMinus hs hv] at hb hclosed
  have hparens := paren_not_mem_difference isOperand_zero hoperand
  rw [resolveGroups_group hparens (evaluateFlat_zero_sub negative hm)] at hb
  obtain ⟨u, hu, rfl⟩ := ha
  obtain ⟨w, hw, rfl⟩ := hb
  obtain rfl : u = w := Except.ok.inj (hu.symm.trans hw)
  have hseparated := ((Check.separated_of_closed hclosed).split
    (by rw [← List.cons_append]) (by simpa using hparens.2)).2
  obtain ⟨hclose, hnot⟩ := resolveGroups_eq_ok_iff.1 hu
  obtain ⟨trailing, row, hvalid, rfl⟩ := (hseparated.closeAll.1 u hclose).exists_row
    (Group.opening_not_mem_closeAll hclose) hnot
  refine ⟨_, _, facing_of_finite negative hm trailing hvalid ?_, har, hbs⟩
  intro hneg h0
  obtain ⟨w, hw, hno⟩ := hsum hneg h0
  obtain rfl := Except.ok.inj (hu.symm.trans hw)
  exact Row.multiplies_of_hasSum trailing hvalid hno

/-- A minus sign in front of a variable negates it whatever follows if and only if the variable is
not negative. What only multiplies or divides may follow a negative one, too. -/
theorem evaluate_minus_iff (hs : Reachable store) {v : Float}
    (hv : store.get? account x = some v) :
    ((∀ t r s, store.evaluate account ('-' :: x :: t) = .ok r → r ≠ [] →
        store.evaluate account ("(0 - ".toList ++ x :: ')' :: t) = .ok s → s ≠ [] →
        SameNumber r s) ↔ ¬ v < 0) ∧
    ∀ t u r s, resolveGroups (store.substitute account t) = .ok u → hasSum true u = false →
      store.evaluate account ('-' :: x :: t) = .ok r → r ≠ [] →
      store.evaluate account ("(0 - ".toList ++ x :: ')' :: t) = .ok s → s ≠ [] →
      SameNumber r s := by
  have hsound := hs.sound
  obtain ⟨negative, m, hm, rfl⟩ := exists_ofMagnitude (hsound account x v hv).2
  rw [Binary64.lt_zero_iff negative (Nat.le_of_lt hm)]
  refine ⟨⟨?_, ?_⟩, ?_⟩
  · rintro hall ⟨rfl, h0⟩
    obtain ⟨k, hk, hle, hdifference⟩ := evaluate_zeroMinus_difference hsound hm h0 hv
    obtain ⟨p, q, hp, hq, hpq⟩ := hall _ _ _ (evaluate_minus_difference hsound hm h0 hv) (by simp)
      hdifference (render_ne_nil _)
    have hzero : leadingNumber? ['-', '0'] = some (Binary64.ofMagnitude true 0) := rfl
    rw [leadingNumber?_render false hle, Bool.false_and] at hq
    obtain rfl := Option.some.inj (hzero.symm.trans hp)
    obtain rfl := Option.some.inj hq
    rw [Binary64.zero_beq true false hle] at hpq
    exact hk (by simpa using hpq)
  · intro hnot t r s hr hr0 hs' _
    obtain ⟨a, b, hface, ha, hb⟩ := facing_of_evaluate hsound hm hv hr hs'
      fun hneg h0 => absurd ⟨hneg, h0⟩ hnot
    exact hface.sameNumber ha hb hr0
  · intro t u r s hu hsum hr hr0 hs' _
    obtain ⟨a, b, hface, ha, hb⟩ := facing_of_evaluate hsound hm hv hr hs'
      fun _ _ => ⟨u, hu, hsum⟩
    exact hface.sameNumber ha hb hr0

def negativeFive : Store :=
  empty.after [("a", .assign ['x'] (Float.ofBits 0xc014000000000000))]

theorem get?_negativeFive : negativeFive.get? "a" 'x' = some (Float.ofBits 0xc014000000000000) := by
  decide +kernel

/-- With minus five for `x`, the texts `-x * 3` and `(0 - x) * 3` are the same number. -/
theorem evaluate_minus_product :
    ∃ r s, negativeFive.evaluate "a" "-x * 3".toList = .ok r ∧
      negativeFive.evaluate "a" "(0 - x) * 3".toList = .ok s ∧ SameNumber r s := by
  have hgroups : (resolveGroups (negativeFive.substitute "a" " * 3".toList)).toOption =
      some " * 3".toList := by decide +kernel
  have hminus : (negativeFive.evaluate "a" "-x * 3".toList).toOption = some "15".toList := by
    decide +kernel
  have hzero : (negativeFive.evaluate "a" "(0 - x) * 3".toList).toOption = some "15".toList := by
    decide +kernel
  have hgroups := eq_ok_of_toOption hgroups
  have hminus := eq_ok_of_toOption hminus
  have hzero := eq_ok_of_toOption hzero
  exact ⟨_, _, hminus, hzero, (evaluate_minus_iff ⟨_, rfl⟩ get?_negativeFive).2 _ _ _ _ hgroups
    (by decide) hminus (by simp) hzero (by simp)⟩

/-- With minus five for `x`, the text `-x + 3` is two and `(0 - x) + 3` is eight. -/
theorem evaluate_minus_sum : ¬ ∀ (store : Store) (account : Account) (x : Char) (v : Float),
    Reachable store → store.get? account x = some v →
      ∀ t r s, store.evaluate account ('-' :: x :: t) = .ok r → r ≠ [] →
        store.evaluate account ("(0 - ".toList ++ x :: ')' :: t) = .ok s → s ≠ [] →
        SameNumber r s := by
  intro hall
  have hminus : (negativeFive.evaluate "a" "-x + 3".toList).toOption = some "2".toList := by
    decide +kernel
  have hzero : (negativeFive.evaluate "a" "(0 - x) + 3".toList).toOption = some "8".toList := by
    decide +kernel
  have hdiffer : ((leadingNumber? "2".toList).any fun v =>
      (leadingNumber? "8".toList).any fun w => v == w) = false := by decide +kernel
  obtain ⟨v, w, h2, h8, he⟩ := hall negativeFive "a" 'x' _ ⟨_, rfl⟩ get?_negativeFive " + 3".toList
    _ _ (eq_ok_of_toOption hminus) (by simp) (eq_ok_of_toOption hzero) (by simp)
  rw [h2, h8, Option.any_some, Option.any_some, he] at hdiffer
  cases hdiffer

end Store

end Reckoner
