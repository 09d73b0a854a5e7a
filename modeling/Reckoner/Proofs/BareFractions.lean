import Reckoner.Proofs.Alignment
import Reckoner.Proofs.Clogged
import Reckoner.Proofs.Negations
import Reckoner.Proofs.Replacement

/-!
# Fractions without a zero

A fraction has the value of the decimal with a zero in front of the point, and takes part in the
same operations, except behind a minus sign: only a decimal can carry one. So a zero in front of
every fraction changes no number as long as no minus sign in front of a point stands where an operand
is expected.
-/

namespace Reckoner

open Literal

def Lexeme.padded (l : Lexeme) : Text :=
  if l.isNumber && l.text.head? == some '.' then '0' :: l.text else l.text

/-- A text with a zero in front of every fraction. -/
def padded (t : Text) : Text := (Lexeme.list t).flatMap Lexeme.padded

/-- Whether a minus sign stands where an operand is expected and a point right behind it;
`afterOperand` tells whether an operand stands in front of the text, spaces aside. -/
def bareNegative : (afterOperand : Bool) → Text → Bool
  | _, [] => false
  | afterOperand, c :: t =>
    if c = ' ' then bareNegative afterOperand t
    else if isOperatorChar c then
      !afterOperand && c == '-' && t.head? == some '.' || bareNegative false t
    else bareNegative true t

theorem bareNegative_symbol_cons (afterOperand : Bool) (op : Operator) (t : Text) :
    bareNegative afterOperand (op.symbol :: t) =
      (!afterOperand && op.symbol == '-' && t.head? == some '.' || bareNegative false t) := by
  rw [bareNegative, if_neg (symbol_facts op).2.2, if_pos (isOperatorChar_symbol op)]

theorem bareNegative_word {w : Text} (hw : IsWord w) (afterOperand : Bool) (t : Text) :
    bareNegative afterOperand (w ++ t) = bareNegative true t := by
  refine hw.scan (fun afterOperand c t hc => ?_) afterOperand t
  rw [bareNegative, if_neg (isWordChar_ne_space hc),
    if_neg (by simp [isOperatorChar_of_isWordChar hc])]

section Padded

theorem padded_unsigned_append {w rest : Text} (h : unsigned? (w ++ rest) = some (w, rest)) :
    padded (w ++ rest) = Lexeme.padded ⟨.number, w⟩ ++ padded rest := by
  rw [padded, Lexeme.list_unsigned_append h]
  rfl

theorem padded_char_cons {c : Char} {rest : Text} (h : unsigned? (c :: rest) = none)
    (hc : c ≠ ' ') : padded (c :: rest) = c :: padded rest := by
  rw [padded, Lexeme.list_char_cons h hc, List.flatMap_cons, Lexeme.padded,
    Lexeme.isNumber_ofChar]
  rfl

theorem padded_spaces_append (n : Nat) {t : Text} (h : t.head? ≠ some ' ') :
    padded (List.replicate n ' ' ++ t) = List.replicate n ' ' ++ padded t := by
  cases n with
  | zero => rfl
  | succ n =>
    rw [padded, Lexeme.list_spaces_append n h]
    rfl

theorem padded_space_cons (t : Text) : padded (' ' :: t) = ' ' :: padded t := by
  obtain ⟨n, u, rfl, hu⟩ := Text.exists_spaces_append t
  rw [← List.cons_append, ← List.replicate_succ, padded_spaces_append _ hu,
    padded_spaces_append _ hu]
  rfl

theorem padded_letters_append {w : Text} (h : ∀ c ∈ w, c.isAlpha = true) (t : Text) :
    padded (w ++ t) = w ++ padded t := by
  induction w with
  | nil => rfl
  | cons c w ih =>
    have hw := ih fun a ha => h a (List.mem_cons_of_mem c ha)
    rw [List.cons_append, padded, Lexeme.list_letter_cons (h c (by simp)), List.flatMap_cons,
      ← padded, hw]
    rfl

theorem Separated.stops {t : Text} (h : Separated true t) : Stops t := by
  cases h with
  | nil => exact stops_nil
  | space _ => exact stops_space _
  | operator op _ => exact stops_symbol op _
  | closing _ => exact (stops_cons _ _).2 (by decide)

theorem padded_decimal_append {w t : Text} (hw : IsDecimal w) (ht : Stops t) :
    padded (w ++ t) = w ++ padded t := by
  obtain ⟨c, r, rfl, hc⟩ := hw.head
  have hpoint : c ≠ '.' := by
    rintro rfl
    exact absurd hc (by decide)
  rw [padded_unsigned_append (unsigned?_append (.inl hw) ht)]
  simp [Lexeme.padded, hpoint]

theorem padded_decimal {w : Text} (hw : IsDecimal w) : padded w = w := by
  have hnil : padded [] = [] := rfl
  simpa [hnil] using padded_decimal_append hw stops_nil

/-- A word with a zero in front if it is a fraction, and the text behind it. -/
theorem exists_alike_padded {w t : Text} (hw : IsWord w) (ht : Stops t) :
    ∃ v, Alike true w v ∧ padded (w ++ t) = v ++ padded t := by
  rcases hw with hw | hw | rfl | rfl
  · exact ⟨w, .same w, padded_decimal_append hw ht⟩
  · refine ⟨'0' :: w, .zero rfl hw, ?_⟩
    rw [padded_unsigned_append (unsigned?_append (.inr hw) ht)]
    obtain ⟨ds, -, rfl⟩ := hw
    rfl
  · exact ⟨_, .same _, padded_letters_append (List.all_eq_true.1 (by decide)) t⟩
  · exact ⟨_, .same _, padded_letters_append (List.all_eq_true.1 (by decide)) t⟩

/-- A text is aligned with what it is with its zeros. -/
theorem Separated.aligned_padded {afterOperand : Bool} {t : Text} (h : Separated afterOperand t) :
    Aligned true true afterOperand t (padded t) := by
  induction h with
  | nil => exact .nil
  | space _ ih =>
    rw [padded_space_cons]
    exact .space ih
  | operator op _ ih =>
    rw [padded_char_cons (unsigned?_of_stops (stops_symbol op _)) (symbol_facts op).2.2]
    exact .operator op ih
  | word fits rest ih =>
    obtain ⟨v, halike, hv⟩ := exists_alike_padded fits rest.stops
    rw [hv]
    exact .word halike fits ih
  | opening _ ih =>
    rw [padded_char_cons (unsigned?_of_stops ((stops_cons _ _).2 (by decide))) (by decide)]
    exact .opening ih
  | closing _ ih =>
    rw [padded_char_cons (unsigned?_of_stops ((stops_cons _ _).2 (by decide))) (by decide)]
    exact .closing ih

end Padded

namespace Aligned

open Row

/-- Without parentheses aligned texts are twins, if no minus sign stands right in front of a point
where an operand is expected. -/
theorem exists_twins {afterOperand : Bool} {t s : Text} (h : Aligned true true afterOperand t s)
    (hp : '(' ∉ t ∧ ')' ∉ t) (hb : bareNegative afterOperand t = false) :
    ∃ trailing row next, Valid afterOperand row ∧ Valid afterOperand next ∧
      Twin true afterOperand row next ∧ headGap row = headGap next ∧ t = text trailing row ∧
        s = text trailing next := by
  have htail : ∀ {v w : Text}, '(' ∉ v ++ w ∧ ')' ∉ v ++ w → '(' ∉ w ∧ ')' ∉ w := fun h =>
    ⟨fun hm => h.1 (List.mem_append_right _ hm), fun hm => h.2 (List.mem_append_right _ hm)⟩
  induction h with
  | nil => exact ⟨0, [], [], trivial, trivial, .nil, rfl, rfl, rfl⟩
  | @space _ t s _ ih =>
    obtain ⟨trailing, row, next, hv, hn, htwin, hgap, rfl, rfl⟩ :=
      ih (htail (v := [' ']) hp) (by simpa [bareNegative] using hb)
    cases htwin with
    | nil => exact ⟨trailing + 1, [], [], trivial, trivial, .nil, rfl, rfl, rfl⟩
    | @word gap other v w row next alike rest =>
      obtain rfl : gap = other := by simpa using hgap
      exact ⟨trailing, ⟨gap + 1, .word v⟩ :: row, ⟨gap + 1, .word w⟩ :: next, hv, hn,
        .word alike rest, rfl, rfl, rfl⟩
    | @operator _ gap other op row next behind rest =>
      obtain rfl : gap = other := by simpa using hgap
      exact ⟨trailing, ⟨gap + 1, .operator op⟩ :: row, ⟨gap + 1, .operator op⟩ :: next, hv, hn,
        .operator op behind rest, rfl, rfl, rfl⟩
  | @operator afterOperand op t s _ ih =>
    rw [bareNegative_symbol_cons, Bool.or_eq_false_iff] at hb
    obtain ⟨trailing, row, next, hv, hn, htwin, hgap, rfl, rfl⟩ :=
      ih (htail (v := [op.symbol]) hp) hb.2
    refine ⟨trailing, ⟨0, .operator op⟩ :: row, ⟨0, .operator op⟩ :: next,
      (valid_operator_cons _ _ _ _).2 hv, (valid_operator_cons _ _ _ _).2 hn,
      .operator op (fun hfront hminus => ⟨.of_eq hgap, fun hzero => ?_⟩) htwin, rfl, rfl, rfl⟩
    cases htwin with
    | nil => rfl
    | operator => rfl
    | @word gap other v w row next alike rest =>
      cases alike with
      | same => rfl
      | zero _ fits =>
        obtain rfl : gap = 0 := by simpa using hzero
        obtain ⟨ds, -, rfl⟩ := fits
        simp [hfront, hminus, Operator.symbol] at hb
  | @word v w t s alike fits _ ih =>
    rw [bareNegative_word fits] at hb
    obtain ⟨trailing, row, next, hv, hn, htwin, -, rfl, rfl⟩ := ih (htail hp) hb
    exact ⟨trailing, ⟨0, .word v⟩ :: row, ⟨0, .word w⟩ :: next,
      (valid_word_cons _ _ _ _).2 ⟨rfl, fits, hv⟩,
      (valid_word_cons _ _ _ _).2 ⟨rfl, alike.isWord fits, hn⟩, .word alike htwin, rfl, rfl, rfl⟩
  | opening => exact absurd List.mem_cons_self hp.1
  | closing => exact absurd List.mem_cons_self hp.2

/-- With its zeros a text without parentheses has an alike value. -/
theorem evaluates_padded {held : Text → Prop} (h : ∀ x, held x → bareNegative false x = false) :
    Evaluates true true held := by
  intro x y r hx hparens haligned hr
  obtain ⟨trailing, row, next, hv, hn, htwin, hgap, rfl, rfl⟩ :=
    haligned.exists_twins hparens (h x hx)
  have htwins := @Twins.of_rows true trailing trailing _ _ hv hn htwin (.of_eq hgap) Iff.rfl
  exact htwins.evaluateFlat.exists_ok hr

end Aligned

namespace Store

open Reckoner.Group

variable {store : Store} {account : Account}

theorem Sound.flatMap_padded (hs : Sound store) {t : Text} {l : Lexeme} (h : l ∈ Lexeme.list t) :
    (store.valueLexemes account l).flatMap Lexeme.padded =
      l.padded.flatMap (store.rendering account) := by
  rcases Lexeme.letter_or_of_mem_list h with ⟨c, hc, rfl⟩ | ⟨hkind, hletters⟩
  · have hvalue : padded (store.rendering account c) = store.rendering account c := by
      rcases hs.rendering_cases account c with hsame | ⟨-, hd | ⟨d, hd, hdecimal⟩⟩
      · rw [hsame, padded, Lexeme.list_letter_cons hc]
        rfl
      · exact padded_decimal hd
      · have hstops : Stops ('-' :: d) := stops_symbol .minus d
        rw [hd, padded_char_cons (unsigned?_of_stops hstops) (by decide), padded_decimal hdecimal]
    have hone : store.substitute account [c] = store.rendering account c := by
      rw [hs.substitute, List.flatMap_singleton]
    rw [valueLexemes, if_pos rfl, hone]
    exact hvalue.trans (List.flatMap_singleton _ c).symm
  · have hpadded : ∀ c ∈ l.padded, c.isAlpha = false := by
      unfold Lexeme.padded
      split
      · rintro c hc
        rcases List.mem_cons.1 hc with rfl | hc
        · decide
        · exact hletters c hc
      · exact hletters
    rw [valueLexemes, if_neg hkind, ← hs.substitute, hs.substitute_of_not_letter account hpadded,
      List.flatMap_singleton]

/-- Zeros are put in front of the same fractions before variables are replaced and after. -/
theorem Sound.substitute_padded (hs : Sound store) {t : Text}
    (h : Check.variableNames.fails (Lexeme.list t) = false) :
    store.substitute account (padded t) = padded (store.substitute account t) := by
  rw [padded, padded, hs.list_substitute account h, hs.substitute, List.flatMap_assoc,
    List.flatMap_assoc]
  exact List.flatMap_congr fun l hl => (hs.flatMap_padded hl).symm

/-- A zero in front of every fraction does not change the number that an expression is, unless a
minus sign stands right in front of a point where an operand is expected. -/
theorem evaluate_padded (hr : Reachable store) {t r q : Text}
    (ht : store.evaluate account t = .ok r) (hne : r ≠ [])
    (hq : store.evaluate account (padded t) = .ok q)
    (hbare : ∀ x, Holds (store.substitute account t) x → bareNegative false x = false) :
    SameNumber r q := by
  have hnames := (Check.runAll_eq_ok_iff _ _).1 (typed_of_evaluate ht) Check.variableNames
    (by simp [Check.typed])
  obtain ⟨hclosed, u, hu, hvalue⟩ := exists_flat_of_evaluate ht
  obtain ⟨v, p, hv, hp, halike⟩ := (Check.separated_of_closed hclosed).aligned_padded.evaluate
    (Aligned.evaluates_padded hbare) hu hvalue
  obtain ⟨-, w, hw, hwq⟩ := exists_flat_of_evaluate hq
  rw [hr.sound.substitute_padded hnames, hv] at hw
  obtain rfl : v = w := Except.ok.inj hw
  obtain rfl : p = q := Except.ok.inj (hp.symm.trans hwq)
  obtain ⟨negative, m, hm, hnumber⟩ :=
    leadingNumber?_of_isResult ((result_of_evaluate ht).resolve_left hne)
  exact ⟨_, _, hnumber, halike.leadingNumber? ▸ hnumber, Binary64.beq_ofMagnitude_self negative hm⟩

/-- A fraction is multiplied as the decimal with a zero in front of it. -/
theorem evaluate_padded_product :
    ∃ r q, empty.evaluate "a" "2 - .5 * 3".toList = .ok r ∧
      empty.evaluate "a" "2 - 0.5 * 3".toList = .ok q ∧ SameNumber r q := by
  have hbare : (empty.evaluate "a" "2 - .5 * 3".toList).toOption = some "0.5".toList := by
    decide +kernel
  have hzero : (empty.evaluate "a" (padded "2 - .5 * 3".toList)).toOption = some "0.5".toList := by
    decide +kernel
  have hpadded : padded "2 - .5 * 3".toList = "2 - 0.5 * 3".toList := by decide +kernel
  have hnames : empty.substitute "a" "2 - .5 * 3".toList = "2 - .5 * 3".toList := by decide +kernel
  have hr := eq_ok_of_toOption hbare
  have hq := eq_ok_of_toOption hzero
  have hreachable : Reachable empty := ⟨[], rfl⟩
  refine ⟨_, _, hr, hpadded ▸ hq, evaluate_padded hreachable hr (by simp) hq ?_⟩
  intro x hx
  rw [hnames, holds_iff_of_not_mem (by decide)] at hx
  rw [hx]
  decide

/-- A minus sign does not carry a fraction into a difference as it carries a decimal. -/
theorem evaluate_padded_difference :
    ¬ ∀ (store : Store) (account : Account) (t r q : Text), Reachable store →
      store.evaluate account t = .ok r → r ≠ [] → store.evaluate account (padded t) = .ok q →
        q ≠ [] → SameNumber r q := by
  intro h
  have hbare : (empty.evaluate "a" "-.5 - .25".toList).toOption = some "-0.25".toList := by
    decide +kernel
  have hzero : (empty.evaluate "a" (padded "-.5 - .25".toList)).toOption = some "-0.75".toList := by
    decide +kernel
  have hdiffer : ¬ SameNumber "-0.25".toList "-0.75".toList := by
    rw [sameNumber_iff]
    decide +kernel
  exact hdiffer (h empty "a" _ _ _ ⟨[], rfl⟩ (eq_ok_of_toOption hbare) (by simp)
    (eq_ok_of_toOption hzero) (by simp))

end Store

end Reckoner
