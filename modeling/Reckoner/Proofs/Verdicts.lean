import Reckoner.Proofs.NegatedVariables
import Reckoner.Proofs.Replacement

/-!
# What the checks see of a value

The checks of an expression whose variables have been replaced see a value as a literal that may
have a minus sign in front of it. They take the sign for an operator behind an operand, and for one
operator too many behind a minus sign that is a sign itself. Everywhere else the sign makes no
difference, and the digits never do.
-/

namespace Reckoner

open Literal

namespace Check

def signed (negative : Bool) (w : Text) : List Lexeme :=
  (if negative then [⟨.operator .minus, ['-']⟩] else []) ++ [⟨.number, w⟩]

def behindOperand (before : List Lexeme) : Bool :=
  (significant before).getLast?.any fun l => endsOperand l || l.kind == .letter

def behindOperator (before : List Lexeme) : Bool := (significant before).getLast?.any (·.isOperator)

/-- Whether the last lexeme is a minus sign behind an operator. -/
def behindSign (before : List Lexeme) : Bool :=
  before.getLast?.any (·.kind == .operator .minus) && behindOperator before.dropLast

/-- Whether the checks see the sign of a value that stands behind these lexemes. -/
def showsSign (before : List Lexeme) : Bool := behindOperand before || behindSign before

theorem significant_concat (before : List Lexeme) (l : Lexeme) :
    significant (before ++ [l]) = if l.isSpace then significant before else
      significant before ++ [l] := by
  cases hl : l.isSpace <;> simp [significant, List.filter_append, hl]

theorem behindOperand_concat (before : List Lexeme) (l : Lexeme) :
    behindOperand (before ++ [l]) =
      if l.isSpace then behindOperand before else endsOperand l || l.kind == .letter := by
  cases hl : l.isSpace <;> simp [behindOperand, significant_concat, hl]

theorem behindOperator_concat (before : List Lexeme) (l : Lexeme) :
    behindOperator (before ++ [l]) =
      if l.isSpace then behindOperator before else l.isOperator := by
  cases hl : l.isSpace <;> simp [behindOperator, significant_concat, hl]

theorem behindSign_concat (before : List Lexeme) (l : Lexeme) :
    behindSign (before ++ [l]) = (l.kind == .operator .minus && behindOperator before) := by
  simp [behindSign]

/-- Two lists of lexemes that come of one when values are put in the places of its letters, behind
the lexemes `before`. Values that show their signs have the same sign. -/
inductive Variants : (before : List Lexeme) → List Lexeme → List Lexeme → Prop where
  | nil {before : List Lexeme} : Variants before [] []
  | same {before : List Lexeme} (l : Lexeme) {a b : List Lexeme}
    (rest : Variants (before ++ [l]) a b) : Variants before (l :: a) (l :: b)
  | value {before : List Lexeme} (c : Char) {m n : Bool} {v w : Text} {a b : List Lexeme}
    (agree : showsSign before = true → m = n) (left : IsDecimal v) (right : IsDecimal w)
    (apart : (∀ l ∈ a.head?, l.text.head? ≠ some '.') ∧ ∀ l ∈ b.head?, l.text.head? ≠ some '.')
    (rest : Variants (before ++ [⟨.letter, [c]⟩]) a b) :
    Variants before (signed m v ++ a) (signed n w ++ b)

namespace Variants

variable {before a b : List Lexeme}

/-- A condition that no value meets is met by some lexeme of both or of neither. -/
theorem any (h : Variants before a b) {p : Lexeme → Bool}
    (hp : ∀ negative w, (signed negative w).any p = false) : a.any p = b.any p := by
  induction h with
  | nil => rfl
  | same l _ ih => simp only [List.any_cons, ih]
  | value c _ _ _ _ _ ih => simp only [List.any_append, hp, ih]

theorem nil_iff (h : Variants before a b) : a = [] ↔ b = [] := by
  cases h with
  | nil => rfl
  | same => simp
  | value => simp [signed]

theorem head_any (h : Variants before a b) {p : Lexeme → Bool}
    (hp : ∀ negative w, IsDecimal w → (signed negative w).head?.any p = false) :
    a.head?.any p = b.head?.any p := by
  have hfront : ∀ m v (l : List Lexeme), (signed m v ++ l).head? = (signed m v).head? := by
    intro m v l
    cases m <;> rfl
  cases h with
  | nil => rfl
  | same => rfl
  | value c _ hv hw => rw [hfront, hfront, hp _ _ hv, hp _ _ hw]

theorem getLast_any (h : Variants before a b) {p : Lexeme → Bool}
    (hp : ∀ negative w, (signed negative w).getLast?.any p = false) :
    a.getLast?.any p = b.getLast?.any p := by
  have hbehind : ∀ (l r : List Lexeme), r ≠ [] → (l ++ r).getLast? = r.getLast? :=
    fun l r hr => List.getLast?_append_of_ne_nil l hr
  induction h with
  | nil => rfl
  | @same _ l a b rest ih =>
    by_cases ha : a = []
    · rw [ha, rest.nil_iff.1 ha]
    · rw [← List.singleton_append, hbehind _ a ha, ← List.singleton_append (l := b),
        hbehind _ b (mt rest.nil_iff.2 ha), ih]
  | @value _ c m n v w a b _ _ _ _ rest ih =>
    by_cases ha : a = []
    · rw [ha, rest.nil_iff.1 ha, List.append_nil, List.append_nil, hp, hp]
    · rw [hbehind _ a ha, hbehind _ b (mt rest.nil_iff.2 ha), ih]

/-- A condition on neighbours that values meet with none of theirs is met in both or in neither. -/
theorem any_pairs (h : Variants before a b) {p : Lexeme × Lexeme → Bool}
    (hp : ∀ l negative w, IsDecimal w → (signed negative w).head?.any (fun x => p (l, x)) = false)
    (hsign : ∀ w, p (⟨.operator .minus, ['-']⟩, ⟨.number, w⟩) = false)
    (hvalue : ∀ w l, l.text.head? ≠ some '.' → p (⟨.number, w⟩, l) = false) :
    (pairs a).any p = (pairs b).any p := by
  have hsigned : ∀ m v (l : List Lexeme), (∀ x ∈ l.head?, x.text.head? ≠ some '.') →
      (pairs (signed m v ++ l)).any p = (pairs l).any p := by
    intro m v l hl
    have hnumber : (pairs (⟨.number, v⟩ :: l)).any p = (pairs l).any p := by
      rw [Orderly.any_pairs_cons]
      cases l with
      | nil => rfl
      | cons x l => simp [hvalue v x (hl x rfl)]
    cases m with
    | false => exact hnumber
    | true =>
      change (pairs (⟨.operator .minus, ['-']⟩ :: ⟨.number, v⟩ :: l)).any p = _
      rw [Orderly.any_pairs_cons, hnumber]
      simp [hsign]
  induction h with
  | nil => rfl
  | same l rest ih =>
    rw [Orderly.any_pairs_cons, Orderly.any_pairs_cons, ih, rest.head_any fun m w hw => hp l m w hw]
  | value c _ _ _ apart _ ih => rw [hsigned _ _ _ apart.1, hsigned _ _ _ apart.2, ih]

theorem characters (h : Variants before a b) :
    Check.characters.fails a = Check.characters.fails b := by
  have hempty : a.isEmpty = b.isEmpty := by
    rw [Bool.eq_iff_iff, List.isEmpty_iff, List.isEmpty_iff, h.nil_iff]
  have hany := h.any (p := fun l => l.kind == .letter || l.kind == .other)
    fun negative w => by cases negative <;> rfl
  simp only [Check.characters, hempty, hany]

theorem numberFormat (h : Variants before a b) :
    Check.numberFormat.fails a = Check.numberFormat.fails b := by
  have hdot := h.any (p := (·.kind == .dot)) fun negative w => by cases negative <;> rfl
  simp only [Check.numberFormat, hdot]
  congr 1
  refine h.any_pairs (fun l negative w hw => ?_) (fun w => rfl) (fun w l hl => by simp [hl])
  obtain ⟨c, r, rfl, hc⟩ := hw.head
  have hpoint : c ≠ '.' := by
    rintro rfl
    exact absurd hc (by decide)
  cases negative <;> simp [signed, hpoint]

theorem operatorBoundaries (h : Variants before a b) :
    Check.operatorBoundaries.fails a = Check.operatorBoundaries.fails b := by
  have hfirst := h.head_any (p := (·.isBinaryOnly)) fun negative w _ => by cases negative <;> rfl
  have hlast := h.getLast_any (p := (·.isOperator)) fun negative w => by cases negative <;> rfl
  simp only [Check.operatorBoundaries, hfirst, hlast]
  congr 1
  refine h.any_pairs (fun l negative w _ => ?_) (fun w => rfl) (fun w l _ => rfl)
  cases negative <;> simp [signed, Lexeme.isBinaryOnly, Lexeme.isOperator]

/-- Behind an operand both lists go on with an operand or neither does. -/
theorem operandNext (h : Variants before a b) (hb : behindOperand before = true) :
    Check.operandNext a = Check.operandNext b := by
  induction h with
  | nil => rfl
  | @same before l a b rest ih =>
    cases hl : l.isSpace with
    | true =>
      rw [operandNext_space _ _ hl, operandNext_space _ _ hl,
        ih (by simpa [behindOperand_concat, hl])]
    | false => rw [operandNext_cons _ _ hl, operandNext_cons _ _ hl]
  | @value before c m n v w a b agree =>
    obtain rfl := agree (by simp [showsSign, hb])
    cases m <;> rfl

theorem missingOperators (h : Variants before a b) :
    Check.missingOperators.fails a = Check.missingOperators.fails b := by
  have hsigned : ∀ m v (l : List Lexeme), Check.missingOperators.fails (signed m v ++ l) =
      (Check.operandNext l || Check.missingOperators.fails l) := by
    intro m v l
    have hnumber : Check.missingOperators.fails (⟨.number, v⟩ :: l) =
        (Check.operandNext l || Check.missingOperators.fails l) := by
      rw [missingOperators_cons _ _ (by rfl)]
      rfl
    cases m with
    | false => exact hnumber
    | true =>
      change Check.missingOperators.fails (⟨.operator .minus, ['-']⟩ :: ⟨.number, v⟩ :: l) = _
      rw [missingOperators_cons _ _ (by rfl), hnumber]
      rfl
  induction h with
  | nil => rfl
  | @same before l a b rest ih =>
    cases hl : l.isSpace with
    | true => rw [missingOperators_space _ _ hl, missingOperators_space _ _ hl, ih]
    | false =>
      rw [missingOperators_cons _ _ hl, missingOperators_cons _ _ hl, ih]
      cases he : endsOperand l with
      | false => rfl
      | true => rw [rest.operandNext (by simp [behindOperand_concat, hl, he])]
  | @value before c m n v w a b _ _ _ _ rest ih =>
    rw [hsigned, hsigned, ih, rest.operandNext (by simp [behindOperand_concat, Lexeme.isSpace])]

/-- Behind an operator both lists go on with an operation or neither does. -/
theorem startsWithOperation (h : Variants before a b) (hb : behindOperator before = true) :
    Check.startsWithOperation (a.dropWhile (·.isSpace)) =
      Check.startsWithOperation (b.dropWhile (·.isSpace)) := by
  induction h with
  | nil => rfl
  | @same before l a b rest ih =>
    cases hl : l.isSpace with
    | true =>
      rw [List.dropWhile_cons_of_pos hl, List.dropWhile_cons_of_pos hl,
        ih (by simpa [behindOperator_concat, hl])]
    | false =>
      have hnumber : l.kind = .operator .minus →
          a.head?.any (·.isNumber) = b.head?.any (·.isNumber) := by
        intro hminus
        have hshows : showsSign (before ++ [l]) = true := by
          simp [showsSign, behindSign_concat, hminus, hb]
        cases rest with
        | nil => rfl
        | same => rfl
        | @value _ c m n v w a b agree =>
          obtain rfl := agree hshows
          cases m <;> rfl
      rw [List.dropWhile_cons_of_neg (by simp [hl]), List.dropWhile_cons_of_neg (by simp [hl]),
        Check.startsWithOperation, Check.startsWithOperation]
      cases hminus : l.kind == .operator .minus with
      | false => rfl
      | true => rw [hnumber (beq_iff_eq.1 hminus)]
  | @value before c m n v w a b => cases m <;> cases n <;> rfl

theorem operatorsMeet (h : Variants before a b) :
    Check.operatorsMeet a = Check.operatorsMeet b := by
  have hsigned : ∀ m v (l : List Lexeme), Check.operatorsMeet (signed m v ++ l) =
      Check.operatorsMeet l := by
    intro m v l
    cases m <;> rfl
  induction h with
  | nil => rfl
  | @same before l a b rest ih =>
    rw [Check.operatorsMeet, Check.operatorsMeet, ih]
    cases hl : l.isOperator with
    | false => rfl
    | true =>
      have hspace : l.isSpace = false := by
        rw [Bool.eq_false_iff]
        intro hs
        rw [Lexeme.isOperator, beq_iff_eq.1 hs] at hl
        cases hl
      rw [rest.startsWithOperation (by simp [behindOperator_concat, hspace, hl])]
  | value c _ _ _ _ _ ih => rw [hsigned, hsigned, ih]

/-- The checks have one outcome. -/
theorem firstFault? (h : Variants before a b) :
    Check.firstFault? closed a = Check.firstFault? closed b := by
  have hadjacency : operatorAdjacency.fails a = operatorAdjacency.fails b := h.operatorsMeet
  simp only [Check.firstFault?, closed, List.find?_cons, List.find?_nil, h.characters,
    h.numberFormat, h.missingOperators, hadjacency, h.operatorBoundaries]

end Variants

end Check

/-- A decimal with or without a minus sign has the lexemes of a value. -/
theorem Lexeme.list_isSigned {t : Text} (h : IsSigned IsDecimal t) :
    IsDecimal (unsignedPart t) ∧ list t = Check.signed (t.head? == some '-') (unsignedPart t) := by
  rcases h with hd | ⟨w, rfl, hd⟩
  · obtain ⟨c, r, he, hc⟩ := hd.head
    have hplain : t.head? ≠ some '-' := by
      rw [he]
      rintro hminus
      obtain rfl := Option.some.inj hminus
      exact absurd hc (by decide)
    rw [unsignedPart_of_isWord (.inl hd), list_literal (.inl hd),
      beq_eq_false_iff_ne.2 hplain]
    exact ⟨hd, rfl⟩
  · rw [list_minus_cons]
    exact ⟨hd, by rw [unsignedPart, list_literal (.inl hd)]; rfl⟩

namespace Store

open Check
open Lexeme (list)

variable {store : Store} {account : Account}

def isNegative (store : Store) (account : Account) (c : Char) : Bool :=
  (store.rendering account c).head? == some '-'

/-- A letter stands for the lexemes of its value, or for itself if it names no variable. -/
theorem Sound.valueLexemes_letter (hs : Sound store) (account : Account) {c : Char}
    (hc : c.isAlpha = true) :
    ((store.get? account c).isSome = false →
      store.valueLexemes account ⟨.letter, [c]⟩ = [⟨.letter, [c]⟩]) ∧
    ((store.get? account c).isSome = true → ∃ w, IsDecimal w ∧
      store.valueLexemes account ⟨.letter, [c]⟩ = signed (store.isNegative account c) w) := by
  have hvalue : store.valueLexemes account ⟨.letter, [c]⟩ = list (store.rendering account c) := by
    rw [valueLexemes, if_pos rfl, hs.substitute, List.flatMap_singleton]
  rw [hvalue]
  constructor
  · intro hnone
    have hself : store.rendering account c = [c] := by
      rw [Option.isSome_eq_false_iff, Option.isNone_iff_eq_none] at hnone
      simp [rendering, hnone]
    rw [hself, Lexeme.list_letter_cons hc]
    rfl
  · intro hsome
    obtain ⟨hd, hlist⟩ := Lexeme.list_isSigned (hs.isSigned_rendering hsome)
    exact ⟨_, hd, hlist⟩

/-- What stands behind a letter does not begin with a point, before variables are replaced or
after. -/
theorem head_flatMap_valueLexemes {c : Char} {t : Text}
    (h : variableNames.fails (⟨.letter, [c]⟩ :: list t) = false) :
    ∀ l ∈ ((list t).flatMap (store.valueLexemes account)).head?, l.text.head? ≠ some '.' := by
  have hstops := stops_of_variableNames (by rfl) h
  have hfront := not_letter_of_variableNames (by rfl) h
  cases t with
  | nil => simp
  | cons d t =>
    have hhead := Lexeme.head_text_first d t
    have hkind : (Lexeme.first d t).kind ≠ .letter := by
      rw [ne_eq, Lexeme.first_kind_eq_letter_iff, hfront d rfl]
      decide
    intro l hl
    rw [Lexeme.list_cons, List.flatMap_cons, valueLexemes, if_neg hkind] at hl
    obtain rfl := Option.some.inj hl
    rw [hhead]
    exact fun he => ((stops_cons d t).1 hstops).2 (Option.some.inj he)

/-- Wherever the checks see the sign of a letter's value, it is the same in both stores. -/
def SameSigns (first second : Store) (account : Account) (before l : List Lexeme) : Prop :=
  ∀ mid c after, l = mid ++ ⟨.letter, [c]⟩ :: after → showsSign (before ++ mid) = true →
    first.isNegative account c = second.isNegative account c

theorem SameSigns.tail {first second : Store} {before l : List Lexeme} {a : Lexeme}
    (h : SameSigns first second account before (a :: l)) :
    SameSigns first second account (before ++ [a]) l := by
  intro mid c after hl hshows
  exact h (a :: mid) c after (by rw [hl, List.cons_append]) (by simpa using hshows)

/-- Two stores with variables of the same names make variants of a text. -/
theorem Sound.variants {first second : Store} (hf : Sound first) (hs : Sound second)
    (hnames : ∀ c, (first.get? account c).isSome = (second.get? account c).isSome)
    {before : List Lexeme} {t : Text} (h : variableNames.fails (list t) = false)
    (hsign : SameSigns first second account before (list t)) :
    Variants before ((list t).flatMap (first.valueLexemes account))
      ((list t).flatMap (second.valueLexemes account)) := by
  have hother : ∀ {before a b : List Lexeme} (l : Lexeme), l.kind ≠ .letter →
      Variants (before ++ [l]) a b → Variants before (first.valueLexemes account l ++ a)
        (second.valueLexemes account l ++ b) := by
    intro before a b l hl hrest
    rw [valueLexemes, valueLexemes, if_neg hl, if_neg hl]
    exact .same l hrest
  induction t using Lexeme.list_induction generalizing before with
  | nil => exact .nil
  | number w rest hu ih =>
    rw [Lexeme.list_unsigned_append hu] at h hsign ⊢
    exact hother _ (by simp) (ih (variableNames_tail h) hsign.tail)
  | space n rest hspace ih =>
    rw [Lexeme.list_spaces_append n hspace] at h hsign ⊢
    exact hother _ (by simp) (ih (variableNames_tail h) hsign.tail)
  | char c rest hu hc ih =>
    cases halpha : c.isAlpha with
    | false =>
      rw [Lexeme.list_char_cons hu hc] at h hsign ⊢
      exact hother _ (Lexeme.ofChar_ne_letter halpha) (ih (variableNames_tail h) hsign.tail)
    | true =>
      rw [Lexeme.list_letter_cons halpha] at h hsign ⊢
      have hrest := ih (variableNames_tail h) hsign.tail
      have hfirst := hf.valueLexemes_letter account halpha
      have hsecond := hs.valueLexemes_letter account halpha
      rw [← hnames c] at hsecond
      rw [List.flatMap_cons, List.flatMap_cons]
      cases hname : (first.get? account c).isSome with
      | false =>
        rw [hfirst.1 hname, hsecond.1 hname]
        exact .same _ hrest
      | true =>
        obtain ⟨v, hv, hvalue⟩ := hfirst.2 hname
        obtain ⟨w, hw, hother⟩ := hsecond.2 hname
        rw [hvalue, hother]
        exact .value c (fun hshows => hsign [] c _ rfl (by simpa using hshows)) hv hw
          ⟨head_flatMap_valueLexemes h, head_flatMap_valueLexemes h⟩ hrest

/-- Whether an expression is valid does not depend on the values of its variables, except on their
signs where a variable stands behind an operand or behind a minus sign that is a sign itself. -/
theorem closed_congr {first second : Store} (hf : Reachable first) (hs : Reachable second)
    (account : Account)
    (hnames : ∀ c, (first.get? account c).isSome = (second.get? account c).isSome) {t : Text}
    (htyped : runAll typed t = .ok ()) (hsign : SameSigns first second account [] (list t)) :
    runAll closed (first.substitute account t) = runAll closed (second.substitute account t) := by
  have hvariableNames := (runAll_eq_ok_iff _ _).1 htyped variableNames (by simp [typed])
  have hvariants := hf.sound.variants hs.sound hnames hvariableNames hsign
  rw [runAll, runAll, hf.sound.list_substitute account hvariableNames,
    hs.sound.list_substitute account hvariableNames, hvariants.firstFault?]

def positiveFive : Store :=
  empty.after [("a", .assign ['x'] (Float.ofBits 0x4014000000000000))]

/-- After the first assignment an account has one variable. -/
theorem get?_after_assign {v : Float} (hv : Binary64.isFinite v = true) (c : Char) :
    (empty.after [("a", .assign ['x'] v)]).get? "a" c = if 'x' = c then some v else none := by
  have hassign : empty.assign "a" ['x'] v = .ok (empty.insert "a" 'x' v) := by
    have hname : variableName? ['x'] = some 'x' := by decide
    simp only [assign, hname, hv, if_true]
  have hafter : empty.after [("a", .assign ['x'] v)] = empty.insert "a" 'x' v := by
    simp only [Store.after, List.foldl_cons, List.foldl_nil, Store.respond, hassign, Except.map]
    rfl
  have hnone : empty.get? "a" c = none := by simp [get?, empty]
  rw [hafter, get?_insert, hnone]
  simp

theorem isSome_get?_five (c : Char) :
    (positiveFive.get? "a" c).isSome = (negativeFive.get? "a" c).isSome := by
  have hpositive : Binary64.isFinite (Float.ofBits 0x4014000000000000) = true := by decide +kernel
  have hnegative : Binary64.isFinite (Float.ofBits 0xc014000000000000) = true := by decide +kernel
  rw [positiveFive, negativeFive, get?_after_assign hpositive, get?_after_assign hnegative]
  split <;> rfl

/-- Behind an operator with an operand in front of it the sign of a value is not seen. -/
theorem closed_congr_difference :
    runAll typed "3 -x".toList = .ok () ∧
      SameSigns positiveFive negativeFive "a" [] (list "3 -x".toList) ∧
        runAll closed (positiveFive.substitute "a" "3 -x".toList) =
          runAll closed (negativeFive.substitute "a" "3 -x".toList) := by
  have htyped : runAll typed "3 -x".toList = .ok () := by decide
  have hsign : SameSigns positiveFive negativeFive "a" [] (list "3 -x".toList) := by
    have hlist : list "3 -x".toList = [⟨.number, ['3']⟩, ⟨.space, [' ']⟩,
        ⟨.operator .minus, ['-']⟩, ⟨.letter, ['x']⟩] := by decide
    rw [hlist]
    intro mid c after hl hshows
    match mid with
    | [] => simp at hl
    | [_] => simp at hl
    | [_, _] => simp at hl
    | [_, _, _] =>
      simp only [List.cons_append, List.nil_append, List.cons.injEq] at hl
      obtain ⟨rfl, rfl, rfl, -⟩ := hl
      exact absurd hshows (by decide)
    | _ :: _ :: _ :: _ :: _ => simp at hl
  exact ⟨htyped, hsign, closed_congr ⟨_, rfl⟩ ⟨_, rfl⟩ "a" isSome_get?_five htyped hsign⟩

/-- Behind an operand the sign of a value is taken for the operator that is missing, and behind a
sign for an operator too many. -/
theorem closed_sign_seen :
    (¬ ∀ (first second : Store) (account : Account) (t : Text), Reachable first →
      Reachable second →
        (∀ c, (first.get? account c).isSome = (second.get? account c).isSome) →
          runAll typed t = .ok () →
            runAll closed (first.substitute account t) =
              runAll closed (second.substitute account t)) ∧
    runAll closed (positiveFive.substitute "a" "--x".toList) = .ok () ∧
      runAll closed (negativeFive.substitute "a" "--x".toList) = .error .operatorPlacement := by
  refine ⟨fun h => ?_, by decide +kernel, by decide +kernel⟩
  have hsame := h positiveFive negativeFive "a" "2 x".toList ⟨_, rfl⟩ ⟨_, rfl⟩ isSome_get?_five
    (by decide)
  have hpositive : runAll closed (positiveFive.substitute "a" "2 x".toList) =
      .error .missingOperator := by decide +kernel
  have hnegative : runAll closed (negativeFive.substitute "a" "2 x".toList) = .ok () := by
    decide +kernel
  rw [hpositive, hnegative] at hsame
  cases hsame

end Store

end Reckoner
