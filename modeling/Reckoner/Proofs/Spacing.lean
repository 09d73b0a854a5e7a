import Reckoner.Proofs.Alignment
import Reckoner.Proofs.BlankGroups
import Reckoner.Proofs.Negations

/-!
# Expressions without spaces

Spaces part operators and operands and are skipped between them, so a text has the value that it has
without spaces. The exception is a minus sign that opens the text or a group and has spaces behind
it: it is no sign then, and waits for what is behind it to become negative.
-/

namespace Reckoner

open Literal

def tight (t : Text) : Text := t.filter (· != ' ')

/-- A minus sign opens the text, parted by a space from what it stands in front of. -/
def OpensDetached (t : Text) : Prop := ∃ u, t = '-' :: ' ' :: u

@[simp] theorem tight_nil : tight [] = [] := rfl

@[simp] theorem tight_append (s t : Text) : tight (s ++ t) = tight s ++ tight t :=
  List.filter_append s t

theorem tight_cons_of_ne {c : Char} (h : c ≠ ' ') (t : Text) : tight (c :: t) = c :: tight t := by
  simp [tight, h]

@[simp] theorem tight_spaces (n : Nat) : tight (List.replicate n ' ') = [] := by
  simp [tight]

theorem tight_of_not_mem {t : Text} (h : ' ' ∉ t) : tight t = t := by
  rw [tight, List.filter_eq_self]
  intro c hc
  simp only [bne_iff_ne, ne_eq]
  rintro rfl
  exact h hc

theorem IsWord.space_not_mem {w : Text} (h : IsWord w) : ' ' ∉ w := fun hm =>
  absurd (h.all_isWordChar ' ' hm) (by decide)

namespace Row

variable {afterWord : Bool} {row : Row}

def tight (row : Row) : Row := row.map fun item => ⟨0, item.mark⟩

@[simp] theorem tight_nil : tight [] = [] := rfl

@[simp] theorem tight_cons (item : Item) (row : Row) :
    tight (item :: row) = ⟨0, item.mark⟩ :: tight row := rfl

theorem valid_tight (h : Valid afterWord row) : Valid afterWord row.tight := by
  induction row generalizing afterWord with
  | nil => trivial
  | cons item row ih => exact ⟨h.1, h.2.1, ih h.2.2⟩

theorem tight_text (trailing : Nat) (h : Valid afterWord row) :
    Reckoner.tight (text trailing row) = text 0 row.tight := by
  induction row generalizing afterWord with
  | nil => simp
  | cons item row ih =>
    have hmark : ' ' ∉ item.mark.text := by
      have hfits := h.2.1
      cases hm : item.mark with
      | operator op => cases op <;> simp [Operator.symbol]
      | word w =>
        rw [hm] at hfits
        exact IsWord.space_not_mem hfits
    simp [text, ih h.2.2, tight_of_not_mem hmark]

theorem text_eq_append_spaces (trailing : Nat) (row : Row) :
    text trailing row = text 0 row ++ List.replicate trailing ' ' := by
  induction row with
  | nil => simp
  | cons item row ih => simp [text, ih]

theorem sameFront_tight (h : ∀ gap ∈ headGap row, gap = 0) : SameFront row row.tight := by
  intro gap hgap other hother
  cases row with
  | nil => simp at hgap
  | cons item row =>
    obtain rfl : 0 = other := by simpa using hother
    exact iff_of_true (h gap hgap) rfl

/-- If a minus sign opens the row, something is attached to it. -/
def Attached (row : Row) : Prop :=
  ∀ gap rest, row = ⟨gap, .operator .minus⟩ :: rest → 0 ∈ headGap rest

/-- Without its gaps a row keeps its signs, as long as every operator has an operand behind it. -/
theorem twin_tight (hv : Valid afterWord row) (hc : ¬ Clogged row)
    (ha : afterWord = false → row.Attached) : Twin false afterWord row row.tight := by
  induction row generalizing afterWord with
  | nil => exact .nil
  | cons item row ih =>
    obtain ⟨gap, mark⟩ := item
    cases mark with
    | word w =>
      obtain ⟨rfl, -, hrow⟩ := (valid_word_cons _ _ _ _).1 hv
      exact .word (.same w) (ih hrow hc (by simp))
    | operator op =>
      obtain ⟨hblocks, hclogged⟩ := not_or.1 hc
      have hattached : Attached row := by
        rintro width rest rfl
        simpa [Blocks] using hblocks
      refine .operator op (fun hfront hminus => ?_)
        (ih ((valid_operator_cons _ _ _ _).1 hv) hclogged fun _ => hattached)
      have hgap : 0 ∈ headGap row := ha hfront gap row (by rw [hminus])
      refine ⟨sameFront_tight fun width hwidth => Option.some.inj (hwidth.symm.trans hgap), ?_⟩
      intro _
      cases row <;> rfl

/-- Without its gaps a row that opens with none has the same value. -/
theorem evaluateFlat_tight {item : Item} {r : Text} (hv : Valid false (item :: row))
    (hgap : item.gap = 0) (hr : evaluateFlat (text 0 (item :: row)) = .ok r)
    (hd : ¬ OpensDetached (text 0 (item :: row))) :
    evaluateFlat (text 0 (tight (item :: row))) = .ok r := by
  have hclogged : ¬ Clogged (item :: row) := fun hc =>
    not_ok_of_error (dooms_clogged.evaluateFlat 0 hv hc) hr
  have hattached : Attached (item :: row) := by
    rintro gap rest he
    obtain ⟨rfl, rfl⟩ := List.cons.inj he
    obtain rfl : gap = 0 := hgap
    match row with
    | [] => exact absurd (.inl trivial) hclogged
    | ⟨0, _⟩ :: _ => rfl
    | ⟨n + 1, _⟩ :: _ => exact absurd ⟨_, rfl⟩ hd
  have htwin := twin_tight hv hclogged fun _ => hattached
  have htwins := @Twins.of_rows false 0 0 _ _ hv (valid_tight hv) htwin
    (sameFront_tight (by simp [hgap])) Iff.rfl
  obtain ⟨q, hq, halike⟩ := htwins.evaluateFlat.exists_ok hr
  rw [hq, halike.eq]

end Row

/-- Without its spaces a text without parentheses has the same value, unless it opens with a
detached minus sign. -/
theorem evaluateFlat_tight {t r : Text} (ht : IsRow t) (hr : evaluateFlat t = .ok r)
    (hd : ¬ OpensDetached t) : evaluateFlat (tight t) = .ok r := by
  obtain ⟨trailing, row, hv, rfl⟩ := ht
  rw [Row.tight_text trailing hv]
  cases row with
  | nil =>
    rw [Row.text_nil, evaluateFlat_spaces] at hr
    rw [Row.tight_nil, Row.text_nil, evaluateFlat_spaces, hr]
  | cons item row =>
    obtain ⟨gap, mark⟩ := item
    -- The spaces in front are padding and so are those at the end, because the text has a value.
    have hfront : Row.text trailing (⟨gap, mark⟩ :: row) =
        List.replicate gap ' ' ++ Row.text trailing (⟨0, mark⟩ :: row) := by simp
    have hplain : evaluateFlat (Row.text trailing (⟨0, mark⟩ :: row)) = .ok r ∧
        ¬ OpensDetached (Row.text trailing (⟨0, mark⟩ :: row)) := by
      rw [hfront] at hr hd
      by_cases hgap : gap = 0
      · subst hgap
        exact ⟨by simpa using hr, by simpa using hd⟩
      · have hminus : ¬ PassesMinus (Row.text trailing (⟨0, mark⟩ :: row)) := by
          intro hm
          exact not_ok_of_error (evaluateFlat_spaces_append_error hgap hm) hr
        rw [evaluateFlat_spaces_append gap fun _ => hminus] at hr
        refine ⟨hr, ?_⟩
        rintro ⟨u, hu⟩
        exact hminus ⟨_, .inl (.start _), by rw [hu]; rfl⟩
    rw [Row.text_eq_append_spaces] at hplain
    obtain ⟨hvalue, hattached⟩ := hplain
    have hdouble : trailing ≠ 0 →
        ¬ PassesDoubleNegation (Row.text 0 (⟨0, mark⟩ :: row)) := by
      intro hn hdn
      exact not_ok_of_error (evaluateFlat_append_spaces_error hn hdn) hvalue
    rw [evaluateFlat_append_spaces trailing hdouble] at hvalue
    refine @Row.evaluateFlat_tight row ⟨0, mark⟩ r hv rfl hvalue ?_
    rintro ⟨u, hu⟩
    exact hattached ⟨u ++ List.replicate trailing ' ', by rw [hu]; rfl⟩

/-- A text is aligned with what is left of it without its spaces. -/
theorem Separated.aligned_tight {afterOperand : Bool} {t : Text} (h : Separated afterOperand t) :
    Aligned false false afterOperand t (tight t) := by
  induction h with
  | nil => exact .nil
  | space _ ih => exact .space ih
  | operator op _ ih =>
    rw [tight_cons_of_ne (symbol_facts op).2.2]
    exact .operator op ih
  | word fits _ ih =>
    rw [tight_append, tight_of_not_mem fits.space_not_mem]
    exact .word (.same _) fits ih
  | opening _ ih => exact .opening ih
  | closing _ ih => exact .closing ih

theorem Aligned.eq_tight {afterOperand : Bool} {t s : Text}
    (h : Aligned false false afterOperand t s) : s = tight t := by
  induction h with
  | nil => rfl
  | space _ ih => exact ih
  | operator op _ ih => rw [tight_cons_of_ne (symbol_facts op).2.2, ih]
  | word alike fits _ ih =>
    rw [tight_append, tight_of_not_mem fits.space_not_mem, alike.eq, ih]
  | opening _ ih => rw [tight_cons_of_ne (by decide), ih]
  | closing _ ih => rw [tight_cons_of_ne (by decide), ih]

open Reckoner.Group in
/-- Without its spaces an expression has the value that it has with them, unless the expression or a
group in it opens with a detached minus sign. -/
theorem evaluate_tight {t u r : Text} (h : Separated false t) (hu : resolveGroups t = .ok u)
    (hr : evaluateFlat u = .ok r) (hd : ∀ x, Holds t x → ¬ OpensDetached x) :
    ∃ v, resolveGroups (tight t) = .ok v ∧ evaluateFlat v = .ok r := by
  have hflat : Aligned.Evaluates false false (Holds t) := by
    intro x y r hx hparens haligned hr
    have hrow := haligned.separated.isRow hparens.1 hparens.2
    exact ⟨r, haligned.eq_tight ▸ evaluateFlat_tight hrow hr (hd x hx), .same r⟩
  obtain ⟨v, q, hv, hq, halike⟩ := h.aligned_tight.evaluate hflat hu hr
  exact ⟨v, hv, halike.eq ▸ hq⟩

/-- Without its spaces a text is the text of its significant lexemes. -/
theorem tight_eq_flatMap (t : Text) :
    tight t = (Check.significant (Lexeme.list t)).flatMap (·.text) := by
  induction t using Lexeme.list_induction with
  | nil => rfl
  | number w rest hu ih =>
    have hw := isWord_of_unsigned (isLiteral_of_unsigned? hu).1
    rw [Lexeme.list_unsigned_append hu, tight_append, tight_of_not_mem hw.space_not_mem, ih]
    rfl
  | space n rest hs ih =>
    rw [Lexeme.list_spaces_append n hs, tight_append, tight_spaces, ih]
    rfl
  | char c rest hu hc ih =>
    rw [Lexeme.list_char_cons hu hc, tight_cons_of_ne hc, ih]
    simp [Check.significant, Lexeme.isSpace_ofChar]

namespace Store

open Reckoner.Group

/-- Expressions that differ in their spaces only have the same value, if they have one and neither
they nor their groups open with a detached minus sign. -/
theorem evaluate_spacing {store : Store} {account : Account} {t s r q : Text}
    (hr : store.evaluate account t = .ok r) (hq : store.evaluate account s = .ok q)
    (hsame : Check.significant (Lexeme.list (store.substitute account t)) =
      Check.significant (Lexeme.list (store.substitute account s)))
    (ht : ∀ x, Holds (store.substitute account t) x → ¬ OpensDetached x)
    (hs : ∀ x, Holds (store.substitute account s) x → ¬ OpensDetached x) : r = q := by
  have htight : ∀ {t r : Text}, store.evaluate account t = .ok r →
      (∀ x, Holds (store.substitute account t) x → ¬ OpensDetached x) →
      ∃ u, resolveGroups (tight (store.substitute account t)) = .ok u ∧
        evaluateFlat u = .ok r := by
    intro t r hr ht
    obtain ⟨hclosed, u, hu, hvalue⟩ := exists_flat_of_evaluate hr
    exact evaluate_tight (Check.separated_of_closed hclosed) hu hvalue ht
  obtain ⟨u, hu, hur⟩ := htight hr ht
  obtain ⟨v, hv, hvq⟩ := htight hq hs
  rw [tight_eq_flatMap] at hu hv
  rw [hsame, hv] at hu
  rw [Except.ok.inj hu, hur] at hvq
  exact Except.ok.inj hvq

/-- A difference is the same with spaces around its minus sign as without them. -/
theorem evaluate_spacing_difference :
    ∃ r q, empty.evaluate "a" "3 - -5".toList = .ok r ∧ empty.evaluate "a" "3--5".toList = .ok q ∧
      r = q := by
  have hspaced : (empty.evaluate "a" "3 - -5".toList).toOption = some "8".toList := by
    decide +kernel
  have htight : (empty.evaluate "a" "3--5".toList).toOption = some "8".toList := by decide +kernel
  have hnames : empty.substitute "a" "3 - -5".toList = "3 - -5".toList ∧
      empty.substitute "a" "3--5".toList = "3--5".toList := by decide +kernel
  have hattached : ∀ t : Text, ('(' ∉ t ∧ ')' ∉ t) → t.head? ≠ some '-' →
      ∀ x, Holds t x → ¬ OpensDetached x := by
    rintro t ht hhead x hx ⟨u, rfl⟩
    rw [← (holds_iff_of_not_mem ht).1 hx] at hhead
    exact hhead rfl
  have hr := eq_ok_of_toOption hspaced
  have hq := eq_ok_of_toOption htight
  refine ⟨_, _, hr, hq, evaluate_spacing hr hq ?_ ?_ ?_⟩
  · rw [hnames.1, hnames.2]
    decide
  · rw [hnames.1]
    exact hattached _ (by decide) (by decide)
  · rw [hnames.2]
    exact hattached _ (by decide) (by decide)

/-- A difference that opens with a detached minus sign is not what it is without the space. -/
theorem evaluate_spacing_detached :
    ¬ ∀ (store : Store) (account : Account) (t s r q : Text), Reachable store →
      store.evaluate account t = .ok r → r ≠ [] → store.evaluate account s = .ok q → q ≠ [] →
        Check.significant (Lexeme.list (store.substitute account t)) =
          Check.significant (Lexeme.list (store.substitute account s)) → SameNumber r q := by
  intro h
  have hspaced : (empty.evaluate "a" "- 3 - 5".toList).toOption = some "2".toList := by
    decide +kernel
  have hattached : (empty.evaluate "a" "-3 - 5".toList).toOption = some "-8".toList := by
    decide +kernel
  have hsame : Check.significant (Lexeme.list (empty.substitute "a" "- 3 - 5".toList)) =
      Check.significant (Lexeme.list (empty.substitute "a" "-3 - 5".toList)) := by decide +kernel
  have hdiffer : ¬ SameNumber "2".toList "-8".toList := by
    rw [sameNumber_iff]
    decide +kernel
  exact hdiffer (h empty "a" _ _ _ _ ⟨[], rfl⟩ (eq_ok_of_toOption hspaced) (by simp)
    (eq_ok_of_toOption hattached) (by simp) hsame)

end Store

end Reckoner
