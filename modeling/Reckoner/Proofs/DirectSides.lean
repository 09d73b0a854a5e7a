import Reckoner.Proofs.Isolation
import Reckoner.Proofs.Reentry
import Reckoner.Proofs.Splicing

/-!
# Right sides that are read as they stand

The right side of an equation is not evaluated if it has no operator or is a negative literal, and
then no variable has a part in what the equation does. A negative literal may have any number of
fractions behind its digits; the reader of numbers stops at the second point.
-/

namespace Reckoner

open Literal

/-- The text in front of the point behind the first `allowed` points; the whole text if it has no
more than those. -/
def Text.beforePoint : (allowed : Nat) → Text → Text
  | _, [] => []
  | allowed, c :: t =>
    if c = '.' then
      match allowed with
      | 0 => []
      | allowed + 1 => c :: beforePoint allowed t
    else c :: beforePoint allowed t

namespace Literal

/-- A minus sign and a fraction, or a minus sign, digits and any number of fractions. -/
inductive IsDottedNegative : Text → Prop
  | fraction {f : Text} (h : IsFraction f) : IsDottedNegative ('-' :: f)
  | decimal {ds : Text} {fs : List Text} (hd : IsDigits ds) (hf : ∀ f ∈ fs, IsFraction f) :
      IsDottedNegative ('-' :: (ds ++ fs.flatten))

/-! ### What is recognised -/

theorem covers_fraction?_iff (w : Text) : covers fraction? w = true ↔ IsFraction w := by
  constructor
  · intro h
    unfold covers at h
    split at h
    · next l he =>
      have ha := append_of_fraction? he
      rw [List.append_nil] at ha
      exact ha ▸ (isFraction_of_fraction? he).1
    · cases h
  · intro h
    have := @fraction?_append w [] h stops_nil
    rw [List.append_nil] at this
    simp [covers, this]

theorem isDotted_flatten {fs : List Text} (h : ∀ f ∈ fs, IsFraction f) :
    isDotted false fs.flatten = true := by
  induction fs with
  | nil => rfl
  | cons f fs ih =>
    obtain ⟨ds, hds, rfl⟩ := h f (by simp)
    rw [List.flatten_cons, List.cons_append, isDotted, if_neg (by decide),
      isDotted_digits_first hds, ih fun g hg => h g (by simp [hg])]
    rfl

/-- Runs of digits with points between them are digits and fractions; without a first digit asked
for, the digits may be missing. -/
theorem exists_of_isDotted {expectDigit : Bool} {t : Text} (h : isDotted expectDigit t = true) :
    ∃ ds fs, (∀ c ∈ ds, c.isDigit = true) ∧ (expectDigit = true → ds ≠ []) ∧
      (∀ f ∈ fs, IsFraction f) ∧ t = ds ++ List.flatten fs := by
  induction t generalizing expectDigit with
  | nil =>
    refine ⟨[], [], by simp, fun he => ?_, by simp, rfl⟩
    rw [he] at h
    cases h
  | cons c t ih =>
    rw [isDotted] at h
    by_cases hc : c.isDigit = true
    · rw [if_pos hc] at h
      obtain ⟨ds, fs, hds, -, hfs, rfl⟩ := ih h
      exact ⟨c :: ds, fs, (IsDigits.cons hc hds).2, by simp, hfs, rfl⟩
    · simp only [hc, Bool.false_eq_true, if_false, Bool.and_eq_true, beq_iff_eq,
        Bool.not_eq_true'] at h
      obtain ⟨⟨rfl, rfl⟩, h⟩ := h
      obtain ⟨ds, fs, hds, hne, hfs, rfl⟩ := ih h
      refine ⟨[], ('.' :: ds) :: fs, by simp, by simp, fun f hf => ?_, by simp⟩
      rcases List.mem_cons.1 hf with rfl | hf
      · exact ⟨ds, ⟨hne rfl, hds⟩, rfl⟩
      · exact hfs f hf

theorem isDotted_iff (t : Text) : isDotted true t = true ↔
    ∃ ds fs, IsDigits ds ∧ (∀ f ∈ fs, IsFraction f) ∧ t = ds ++ List.flatten fs := by
  constructor
  · intro h
    obtain ⟨ds, fs, hds, hne, hfs, rfl⟩ := exists_of_isDotted h
    exact ⟨ds, fs, ⟨hne rfl, hds⟩, hfs, rfl⟩
  · rintro ⟨ds, fs, hds, hfs, rfl⟩
    rw [isDotted_digits_first hds, isDotted_flatten hfs]

theorem isNegative_iff (w : Text) : isNegative w = true ↔ IsDottedNegative w := by
  constructor
  · intro h
    unfold isNegative at h
    split at h
    · rcases Bool.or_eq_true_iff.1 h with h | h
      · exact .fraction ((covers_fraction?_iff _).1 h)
      · obtain ⟨ds, fs, hds, hfs, rfl⟩ := (isDotted_iff _).1 h
        exact .decimal hds hfs
    · cases h
  · intro h
    cases h with
    | fraction h => rw [isNegative, (covers_fraction?_iff _).2 h, Bool.true_or]
    | decimal hds hfs => rw [isNegative, (isDotted_iff _).2 ⟨_, _, hds, hfs, rfl⟩, Bool.or_true]

end Literal

/-! ### What is read -/

section Points

variable {s ds fs r : Text}

theorem Text.beforePoint_cons {c : Char} (h : c ≠ '.') (allowed : Nat) (t : Text) :
    beforePoint allowed (c :: t) = c :: beforePoint allowed t := by
  cases allowed <;> simp [beforePoint, h]

theorem Text.beforePoint_append (h : '.' ∉ s) (allowed : Nat) (t : Text) :
    beforePoint allowed (s ++ t) = s ++ beforePoint allowed t := by
  induction s with
  | nil => rfl
  | cons c s ih =>
    rw [List.mem_cons, not_or] at h
    rw [List.cons_append, beforePoint_cons (Ne.symm h.1), ih h.2, List.cons_append]

theorem Text.beforePoint_of_not_mem (h : '.' ∉ s) (allowed : Nat) :
    beforePoint allowed s = s := by
  have hnil : beforePoint allowed [] = [] := by cases allowed <;> rfl
  have := beforePoint_append h allowed []
  rwa [List.append_nil, hnil, List.append_nil] at this

theorem Text.beforePoint_point (allowed : Nat) (t : Text) :
    beforePoint (allowed + 1) ('.' :: t) = '.' :: beforePoint allowed t := by
  rw [beforePoint, if_pos rfl]

theorem point_not_mem_digits (h : ∀ c ∈ ds, c.isDigit = true) : '.' ∉ ds :=
  fun hmem => absurd (h '.' hmem) (by decide)

/-- Nothing, or a second point, and what follows it is cut off. -/
theorem beforePoint_flatten {gs : List Text} (h : ∀ g ∈ gs, IsFraction g) :
    Text.beforePoint 0 gs.flatten = [] ∧ (gs.flatten = [] ∨ gs.flatten.head? = some '.') := by
  cases gs with
  | nil => exact ⟨rfl, .inl rfl⟩
  | cons g gs =>
    obtain ⟨ds, -, rfl⟩ := h g (by simp)
    exact ⟨rfl, .inr rfl⟩

/-- Behind digits and a fraction, the reader of numbers stops at a point. -/
theorem leadingNumber?_second_point {negative : Bool} (hs : IsLeadingSign s negative)
    (hd : IsDigits ds) (hf : IsDigits fs) (hr : r = [] ∨ r.head? = some '.') :
    leadingNumber? (s ++ (ds ++ '.' :: fs ++ r)) =
      some (Binary64.ofMagnitude negative (Decimal.ofParts ds fs).nearest) := by
  have hstop : ∀ c ∈ r.head?, c.isDigit = false ∧ c ≠ 'e' ∧ c ≠ 'E' := by
    intro c hc
    rcases hr with rfl | hr
    · cases hc
    · obtain rfl : '.' = c := by simpa [hr] using hc
      decide
  have hmantissa : Decimal.mantissa? (ds ++ '.' :: fs ++ r) =
      some (Decimal.ofParts ds fs, r) := by
    obtain ⟨h1, h2⟩ := @digits_append ds ('.' :: (fs ++ r)) hd.2 (by simp)
    obtain ⟨h3, h4⟩ := digits_append hf.2 fun c hc => (hstop c hc).1
    rw [digits] at h1 h3
    rw [afterDigits] at h2 h4
    have hne : ds.isEmpty = false := by simpa using hd.1
    rw [List.append_assoc, List.cons_append]
    simp [Decimal.mantissa?, h1, h2, h3, h4, hne]
  have hexponent : Decimal.exponentPart r = 0 := by
    cases r with
    | nil => rfl
    | cons c r =>
      obtain ⟨-, he, hE⟩ := hstop c rfl
      rw [Decimal.exponentPart, if_neg (by simp [he, hE])]
  have hread : Decimal.leading? (ds ++ '.' :: fs ++ r) = some (Decimal.ofParts ds fs) := by
    rw [Decimal.leading?, hmantissa, Option.map_some]
    dsimp only
    rw [hexponent, Int.add_zero]
  have hbody := IsMantissa.point hd hf.2
  rw [(hbody.isPlain.append r).leadingNumber?_append hs,
    if_neg (Bool.eq_false_iff.1 (hbody.not_infinity r)), hread, Option.map_some]

end Points

/-- Of a negative literal the part in front of its second point is read. -/
theorem Literal.IsDottedNegative.leadingNumber? {w : Text} (h : IsDottedNegative w) :
    ∃ d v, IsNumeral (Text.beforePoint 1 w) true (some d) ∧ IsValue true (some d) v ∧
      leadingNumber? w = some v := by
  have hnumeral : ∀ {body : Text} {x : ℚ}, IsMantissa body x →
      IsNumeral ('-' :: body) true (some x) := by
    intro body x hb
    refine ⟨['-'], body, .minus, ?_, rfl⟩
    simpa using IsAmount.decimal hb .none
  have hminus := Text.beforePoint_cons (show '-' ≠ '.' by decide) 1
  cases h with
  | fraction hf =>
    obtain ⟨fs, hfs, rfl⟩ := hf
    have hcut : Text.beforePoint 1 ('-' :: '.' :: fs) = '-' :: '.' :: fs := by
      rw [hminus, Text.beforePoint_point, Text.beforePoint_of_not_mem (point_not_mem_digits hfs.2)]
    have hbody := IsMantissa.fraction hfs
    obtain ⟨v, hv⟩ := hbody.exists_value true
    exact ⟨_, v, hcut.symm ▸ hnumeral hbody, hv, leadingNumber?_of_isNumeral (hnumeral hbody) hv⟩
  | @decimal ds gs hd hg =>
    have hfront := Text.beforePoint_append (point_not_mem_digits hd.2) 1
    cases gs with
    | nil =>
      have hcut : Text.beforePoint 1 ('-' :: ds) = '-' :: ds := by
        rw [hminus, Text.beforePoint_of_not_mem (point_not_mem_digits hd.2)]
      have hbody := IsMantissa.whole hd
      obtain ⟨v, hv⟩ := hbody.exists_value true
      rw [List.flatten_nil, List.append_nil]
      exact ⟨_, v, hcut.symm ▸ hnumeral hbody, hv, leadingNumber?_of_isNumeral (hnumeral hbody) hv⟩
    | cons g gs =>
      obtain ⟨fs, hfs, rfl⟩ := hg g (by simp)
      have hgs : ∀ f ∈ gs, IsFraction f := fun f hf => hg f (List.mem_cons_of_mem _ hf)
      obtain ⟨hrest, hr⟩ := beforePoint_flatten hgs
      have hcut : Text.beforePoint 1 ('-' :: (ds ++ ('.' :: fs ++ gs.flatten))) =
          '-' :: (ds ++ '.' :: fs) := by
        rw [hminus, hfront, List.cons_append, Text.beforePoint_point,
          Text.beforePoint_append (point_not_mem_digits hfs.2), hrest, List.append_nil]
      have hread := leadingNumber?_second_point .minus hd hfs hr
      rw [List.append_assoc] at hread
      have hbody := IsMantissa.point hd hfs.2
      rw [← Decimal.value_ofParts] at hbody
      exact ⟨_, _, hcut.symm ▸ hnumeral hbody, isValue_value_iff.2 rfl, hread⟩

/-! ### What is assigned -/

def Equation.number (e : Equation) : Float := (leadingNumber? e.right).getD Binary64.nan

theorem Equation.isDirect_iff (e : Equation) :
    e.isDirect = true ↔ hasOperator e.right = false ∨ IsDottedNegative e.right := by
  rw [Equation.isDirect, Bool.or_eq_true, Bool.not_eq_true', isNegative_iff]

theorem Equation.ofText_append {left right : Text} (hl : '=' ∉ left) (hr : '=' ∉ right) :
    Equation.ofText (left ++ '=' :: right) = .ok ⟨Text.trim left, Text.trim right⟩ := by
  have hne : ∀ c ∈ left, (c != '=') = true := by
    intro c hc
    rw [bne_iff_ne]
    rintro rfl
    exact hl hc
  obtain ⟨h1, h2⟩ := takeWhile_append_stop hne (r := '=' :: right) (by simp)
  simp [Equation.ofText, h1, h2, hr]

namespace Store

theorem admitted_error {name : Text} {v : Float} {fault : Fault}
    (h : admitted name v = .error fault) : fault = .variableName ∨ fault = .value := by
  unfold admitted at h
  split at h
  · exact .inl (Except.error.inj h).symm
  · split at h
    · cases h
    · exact .inr (Except.error.inj h).symm

/-- An equation with a direct right side does in every store what its name and its number say. -/
theorem solve_of_isDirect {t : Text} {e : Equation} (he : Equation.ofText t = .ok e)
    (hdirect : e.isDirect = true) (store : Store) (account : Account) :
    store.solve account t = (admitted e.name e.number).map fun c =>
      (store.insert account c e.number, e.reply e.number) := by
  have hvalue : e.value store account = .ok e.number := value_of_isDirect hdirect
  rw [solve_eq, he]
  simp only [hvalue, assign_eq]
  cases admitted e.name e.number <;> rfl

/-- Negative literals are a minus sign and a fraction, or a minus sign, digits and fractions; the
part in front of the second point is their number. A right side is read as it stands exactly if it
is one of them or has no operator. Then the equation does the same whatever the variables are, and
it fails only because of its name or because it has no finite number. -/
theorem solve_direct :
    (∀ w, isNegative w = true ↔ IsDottedNegative w) ∧
    (∀ w, IsDottedNegative w → ∃ d v, IsNumeral (Text.beforePoint 1 w) true (some d) ∧
      IsValue true (some d) v ∧ leadingNumber? w = some v) ∧
    (∀ e : Equation,
      e.isDirect = true ↔ hasOperator e.right = false ∨ IsDottedNegative e.right) ∧
    ∀ left right : Text, '=' ∉ left → '=' ∉ right →
      hasOperator (Text.trim right) = false ∨ IsDottedNegative (Text.trim right) →
      ∃ (e : Equation) (outcome : Except Fault Char),
        e = ⟨Text.trim left, Text.trim right⟩ ∧
        (∀ fault, outcome = .error fault → fault = .variableName ∨ fault = .value) ∧
        ∀ store account, solve store account (left ++ '=' :: right) = outcome.map fun c =>
          (store.insert account c e.number, e.reply e.number) := by
  refine ⟨isNegative_iff, fun w h => h.leadingNumber?, Equation.isDirect_iff, ?_⟩
  intro left right hl hr hside
  have hdirect := (Equation.isDirect_iff ⟨Text.trim left, Text.trim right⟩).2 hside
  exact ⟨_, _, rfl, fun fault h => admitted_error h,
    fun store account => solve_of_isDirect (Equation.ofText_append hl hr) hdirect store account⟩

/-- The equation `x = -1.2.3` does the same in every store, with the number of `-1.2`. -/
theorem solve_direct_two_points : IsDottedNegative "-1.2.3".toList ∧
    ∃ (v : Float) (outcome : Except Fault Char), leadingNumber? "-1.2".toList = some v ∧
      (∀ fault, outcome = .error fault → fault = .variableName ∨ fault = .value) ∧
      ∀ store account, solve store account "x = -1.2.3".toList = outcome.map fun c =>
        (store.insert account c v, "x".toList ++ (" = ".toList ++ render v)) := by
  obtain ⟨hnegative, hnumber, -, hsolve⟩ := solve_direct
  have hside : IsDottedNegative "-1.2.3".toList := (hnegative _).1 (by decide)
  obtain ⟨d, v, hcut, hv, hread⟩ := hnumber _ hside
  obtain ⟨e, outcome, rfl, hfault, hall⟩ :=
    hsolve "x ".toList " -1.2.3".toList (by decide) (by decide) (.inr hside)
  have hvalue : Equation.number ⟨Text.trim "x ".toList, Text.trim " -1.2.3".toList⟩ = v := by
    rw [Equation.number, show Text.trim " -1.2.3".toList = "-1.2.3".toList by decide, hread]
    rfl
  rw [hvalue] at hall
  exact ⟨hside, v, outcome, leadingNumber?_of_isNumeral hcut hv, hfault, hall⟩

end Store

end Reckoner
