import Reckoner.Proofs.Rows

/-!
# Operations in rows

The leftmost operation of a row, found item by item, is the occurrence that the scan over the row's
characters finds. Its contraction leaves a row again.
-/

namespace Reckoner

open Literal
open Operator (Level)

structure Site where
  before : Row
  left : Operand
  gap : Nat
  operator : Operator
  right : Operand
  after : Row

namespace Site

def row (s : Site) : Row :=
  s.before ++ (Row.signedItems s.left.gap s.left.text ++ ⟨s.gap, .operator s.operator⟩ ::
    (Row.signedItems s.right.gap s.right.text ++ s.after))

def replace (s : Site) (v : Float) : Row :=
  s.before ++ (Row.signedItems s.left.gap (render v) ++ s.after)

def outcome (s : Site) : Except Fault Float := calculate s.left.text s.operator s.right.text

end Site

namespace Row

/-- The left operand that can begin at the first item, with the operator that it follows unless it
opens the text, and what comes behind it. -/
def leftOperand? (opens : Bool) : Row → Option (Row × Operand × Row)
  | [] => none
  | ⟨gap, .word w⟩ :: row => (unsigned? (⟨gap, .word w⟩ :: row)).map fun found => ([], found)
  | ⟨gap, .operator op⟩ :: row =>
    ((if opens && gap == 0 then negative? (⟨gap, .operator op⟩ :: row) else none).map
        fun found => ([], found)).or
      ((negative? row).map fun found => ([⟨gap, .operator op⟩], found))

def completion? (level : Level) : Row → Option (Nat × Operator × Operand × Row)
  | ⟨gap, .operator op⟩ :: row =>
    if op ∈ level then (signed? row).map fun (right, after) => (gap, op, right, after) else none
  | _ => none

def siteAt? (level : Level) (opens : Bool) (row : Row) : Option Site :=
  (leftOperand? opens row).bind fun (kept, left, rest) =>
    (completion? level rest).map fun (gap, op, right, after) => ⟨kept, left, gap, op, right, after⟩

/-- The leftmost operation of a level; `opens` tells whether nothing stands in front. -/
def site? (level : Level) : (opens : Bool) → Row → Option Site
  | _, [] => none
  | opens, item :: row =>
    (siteAt? level opens (item :: row)).or
      ((site? level false row).map fun s => { s with before := item :: s.before })

variable {level : Level} {opens afterWord : Bool} {row : Row}

theorem completion?_eq_some_iff {gap : Nat} {op : Operator} {right : Operand} {after : Row} :
    completion? level row = some (gap, op, right, after) ↔ ∃ rest, op ∈ level ∧
      signed? rest = some (right, after) ∧ row = ⟨gap, .operator op⟩ :: rest := by
  constructor
  · intro h
    unfold completion? at h
    split at h
    · split at h
      · next hm =>
        obtain ⟨⟨r, a⟩, hs, he⟩ := Option.map_eq_some_iff.1 h
        simp only [Prod.mk.injEq] at he
        obtain ⟨rfl, rfl, rfl, rfl⟩ := he
        exact ⟨_, hm, hs, rfl⟩
      · simp at h
    · simp at h
  · rintro ⟨rest, hm, hs, rfl⟩
    simp [completion?, hm, hs]

/-- A left operand is part of the row, and no word stands in front of it. -/
theorem leftOperand?_spec {kept rest : Row} {x : Operand} (hv : Valid afterWord row)
    (ho : opens = true → afterWord = false) (h : leftOperand? opens row = some (kept, x, rest)) :
    row = kept ++ (signedItems x.gap x.text ++ rest) ∧ IsOperand x.text ∧
      endsInWord afterWord kept = false ∧
      (kept = [] ∨ ∃ gap op d, kept = [⟨gap, .operator op⟩] ∧ IsDecimal d ∧ x.text = '-' :: d) := by
  match row with
  | [] => simp [leftOperand?] at h
  | ⟨gap, .word w⟩ :: row =>
    obtain ⟨⟨y, r⟩, hu, he⟩ := Option.map_eq_some_iff.1 h
    simp only [Prod.mk.injEq] at he
    obtain ⟨rfl, rfl, rfl⟩ := he
    obtain ⟨hrow, hop⟩ := @signed?_spec (⟨gap, .word w⟩ :: row) y r
      (by simpa [signed?, negative?] using hu)
    exact ⟨hrow, hop, ((valid_word_cons _ _ _ _).1 hv).1, .inl rfl⟩
  | ⟨gap, .operator op⟩ :: row =>
    rcases Option.or_eq_some_iff.1 h with h | ⟨-, h⟩
    · obtain ⟨⟨y, r⟩, hn, he⟩ := Option.map_eq_some_iff.1 h
      simp only [Prod.mk.injEq] at he
      obtain ⟨rfl, rfl, rfl⟩ := he
      split at hn
      · next hopen =>
        obtain ⟨hrow, hop⟩ := signed?_spec (Option.or_eq_some_iff.2 (.inl hn))
        have hopens : opens = true := by
          cases opens with
          | true => rfl
          | false => simp at hopen
        exact ⟨hrow, hop, ho hopens, .inl rfl⟩
      · simp at hn
    · obtain ⟨⟨y, r⟩, hn, he⟩ := Option.map_eq_some_iff.1 h
      simp only [Prod.mk.injEq] at he
      obtain ⟨rfl, rfl, rfl⟩ := he
      obtain ⟨g, d, hd, rfl, rfl⟩ := negative?_eq_some_iff.1 hn
      exact ⟨rfl, .inl (.inr ⟨d, rfl, hd⟩), rfl, .inr ⟨gap, op, d, rfl, hd, rfl⟩⟩

/-- An operation that is found is part of the row and has operands. -/
theorem site?_spec {s : Site} (hv : Valid afterWord row) (ho : opens = true → afterWord = false)
    (h : site? level opens row = some s) :
    s.row = row ∧ s.operator ∈ level ∧ IsOperand s.left.text ∧ IsOperand s.right.text ∧
      endsInWord afterWord s.before = false := by
  induction row generalizing opens afterWord s with
  | nil => simp [site?] at h
  | cons item row ih =>
    rcases Option.or_eq_some_iff.1 h with h | ⟨-, h⟩
    · obtain ⟨⟨kept, x, rest⟩, hl, hc⟩ := Option.bind_eq_some_iff.1 h
      obtain ⟨⟨gap, op, right, after⟩, hcomplete, rfl⟩ := Option.map_eq_some_iff.1 hc
      obtain ⟨hrow, hx, hend, -⟩ := leftOperand?_spec hv ho hl
      obtain ⟨tail, hm, hs, rfl⟩ := completion?_eq_some_iff.1 hcomplete
      obtain ⟨rfl, hright⟩ := signed?_spec hs
      exact ⟨hrow.symm, hm, hx, hright, hend⟩
    · obtain ⟨s, hs, rfl⟩ := Option.map_eq_some_iff.1 h
      obtain ⟨rfl, hm, hx, hy, hend⟩ := ih hv.2.2 (by simp) hs
      exact ⟨rfl, hm, hx, hy, hend⟩

theorem isWord_of_isOperand {t : Text} (h : IsOperand t) : IsSigned IsWord t := by
  rcases h with h | h
  · exact h.mono fun _ hd => .inl hd
  · exact .inl (.inr (.inl h))

/-- A contraction leaves a row. -/
theorem Valid.replace {s : Site} (hv : Valid afterWord row)
    (ho : opens = true → afterWord = false) (h : site? level opens row = some s) (v : Float) :
    Valid afterWord (s.replace v) := by
  obtain ⟨rfl, -, hx, hy, hend⟩ := site?_spec hv ho h
  obtain ⟨h1, h2⟩ := (valid_append _ _ _).1 hv
  rw [hend, valid_signedItems_append (isWord_of_isOperand hx), valid_operator_cons,
    valid_signedItems_append (isWord_of_isOperand hy)] at h2
  rw [Site.replace, valid_append, hend, valid_signedItems_append (isSigned_render v)]
  exact ⟨h1, h2⟩

end Row

namespace Occurrence

theorem leftOperands_of_stops {c : Char} {t : Text} (seen : Text) (h : Stops (c :: t))
    (hc : isOperatorChar c = false) : leftOperands seen (c :: t) = [] := by
  have hneg : Literal.negative? (c :: t) = none :=
    negative?_of_not_minus (by simpa using ne_minus_of_not_operator hc)
  have hfrac : Literal.fraction? (c :: t) = none :=
    fraction?_of_not_point (by simpa using ((stops_cons c t).1 h).2)
  simp [leftOperands, openingOperand?, trailingOperand?, hneg, hc, decimal?_of_not_digit h.digit,
    hfrac]

theorem findFrom?_spaces (level : Level) (seen : Text) (n : Nat) (t : Text) :
    findFrom? level seen (List.replicate n ' ' ++ t) =
      findFrom? level (List.replicate n ' ' ++ seen) t := by
  induction n generalizing seen with
  | zero => rfl
  | succ n ih =>
    rw [List.replicate_succ, List.cons_append, findFrom?,
      leftOperands_of_stops seen (stops_space _) (by decide), List.findSome?_nil, Option.none_or,
      ih, ← List.replicate_succ, List.replicate_succ', List.append_assoc]
    rfl

/-- A literal has no sign in front of its number, and no operator in front of that. -/
theorem signedOperands_unsigned {w : Text} (hw : IsDecimal w ∨ IsFraction w) (seen rest : Text) :
    openingOperand? seen (w ++ rest) = none ∧ trailingOperand? (w ++ rest) = none := by
  have hneg := negative?_unsigned_append hw rest
  obtain ⟨c, r, rfl, -, hc⟩ := (isWord_of_unsigned hw).head
  exact ⟨by simp only [openingOperand?, hneg, ite_self], by simp [trailingOperand?, hc]⟩

theorem unsignedOperands_unsigned {w rest : Text} (hw : IsDecimal w ∨ IsFraction w)
    (hr : Stops rest) :
    [Literal.decimal? (w ++ rest), Literal.fraction? (w ++ rest)].filterMap id = [(w, rest)] := by
  rcases hw with hd | hf
  · rw [decimal?_append hd hr, fraction?_decimal_append hd]
    rfl
  · rw [decimal?_fraction_append hf, fraction?_append hf hr]
    rfl

/-- Where no digit stands in front of a literal, it is the one left operand. -/
theorem leftOperands_unsigned {seen w rest : Text} (hw : IsDecimal w ∨ IsFraction w)
    (hs : ∀ c ∈ seen.head?, c.isDigit = false) (hr : Stops rest) :
    leftOperands seen (w ++ rest) = [(w, rest)] := by
  obtain ⟨hopening, htrailing⟩ := signedOperands_unsigned hw seen rest
  have hseen : seen.head?.any Char.isDigit = false := by
    cases seen with
    | nil => rfl
    | cons a seen => simpa using hs a
  rw [leftOperands, hopening, htrailing, hseen]
  exact unsignedOperands_unsigned hw hr

/-- No literal begins with an operator. -/
theorem unsignedOperands_symbol (op : Operator) (t : Text) :
    Literal.decimal? (op.symbol :: t) = none ∧ Literal.fraction? (op.symbol :: t) = none :=
  ⟨decimal?_of_not_digit (stops_symbol op t).digit,
    fraction?_of_not_point (by simpa using (symbol_facts op).2.1)⟩

theorem leftOperands_symbol (seen : Text) (op : Operator) (t : Text) :
    leftOperands seen (op.symbol :: t) = (openingOperand? seen (op.symbol :: t)).toList ++
      (trailingOperand? (op.symbol :: t)).toList := by
  obtain ⟨hdec, hfrac⟩ := unsignedOperands_symbol op t
  simp only [leftOperands, hdec, hfrac]
  cases openingOperand? seen (op.symbol :: t) <;> cases trailingOperand? (op.symbol :: t) <;>
    cases seen.head?.any Char.isDigit <;> rfl

/-- The rest of a literal, seen from a place inside it. -/
def IsLiteralEnd (w : Text) : Prop :=
  (∀ c ∈ w, c.isDigit = true) ∨ ∃ ds f, (∀ c ∈ ds, c.isDigit = true) ∧ IsFraction f ∧ w = ds ++ f

theorem isLiteralEnd_of_unsigned {w : Text} (h : IsDecimal w ∨ IsFraction w) :
    IsLiteralEnd w := by
  rcases h with (h | ⟨ds, f, hd, hf, rfl⟩) | h
  · exact .inl h.2
  · exact .inr ⟨ds, f, hd.2, hf, rfl⟩
  · exact .inr ⟨[], w, by simp, h, rfl⟩

theorem IsLiteralEnd.unsigned {c : Char} {w : Text} (h : IsLiteralEnd (c :: w)) :
    IsDecimal (c :: w) ∨ IsFraction (c :: w) := by
  rcases h with h | ⟨ds, f, hd, hf, he⟩
  · exact .inl (.inl ⟨by simp, h⟩)
  · cases ds with
    | nil => exact .inr (he ▸ hf)
    | cons a ds => exact .inl (.inr ⟨a :: ds, f, ⟨by simp, hd⟩, hf, he⟩)

theorem IsLiteralEnd.tail {c : Char} {w : Text} (h : IsLiteralEnd (c :: w)) :
    IsLiteralEnd w := by
  rcases h with h | ⟨ds, f, hd, hf, he⟩
  · exact .inl fun x hx => h x (by simp [hx])
  · cases ds with
    | nil =>
      obtain ⟨fs, hfs, rfl⟩ := hf
      obtain ⟨-, rfl⟩ := List.cons.inj he
      exact .inl hfs.2
    | cons a ds =>
      obtain ⟨-, rfl⟩ := List.cons.inj he
      exact .inr ⟨ds, f, fun x hx => hd x (by simp [hx]), hf, rfl⟩

/-- Behind a digit no left operand begins with a literal. -/
theorem leftOperands_behind_digit {seen w rest : Text} (hw : IsDecimal w ∨ IsFraction w)
    (hs : seen.head?.any Char.isDigit = true) : leftOperands seen (w ++ rest) = [] := by
  obtain ⟨hopening, htrailing⟩ := signedOperands_unsigned hw seen rest
  rw [leftOperands, hopening, htrailing, hs]
  rfl

/-- Whatever literal begins inside a literal, it ends with it. -/
theorem leftOperands_literalEnd {c : Char} {w rest : Text} (seen : Text)
    (h : IsLiteralEnd (c :: w)) (hr : Stops rest) :
    ∀ p ∈ leftOperands seen (c :: w ++ rest), p.2 = rest := by
  intro p hp
  by_cases hs : seen.head?.any Char.isDigit = true
  · rw [leftOperands_behind_digit h.unsigned hs] at hp
    simp at hp
  · have hseen : ∀ a ∈ seen.head?, a.isDigit = false := by
      intro a ha
      rw [Option.mem_def] at ha
      simpa [ha] using hs
    rw [leftOperands_unsigned h.unsigned hseen hr, List.mem_singleton] at hp
    rw [hp]

/-- Where no left operand is completed, the scan goes on behind the character. -/
theorem findFrom?_cons_of_none {level : Level} {seen : Text} {c : Char} {t : Text}
    (h : ∀ p ∈ leftOperands seen (c :: t), complete? level seen p.1 p.2 = none) :
    findFrom? level seen (c :: t) = findFrom? level (c :: seen) t := by
  rw [findFrom?, List.findSome?_eq_none_iff.2 h, Option.none_or]

/-- A scan in which nothing completes what stands behind a literal goes on behind it. -/
theorem findFrom?_literal {level : Level} {w rest : Text} (seen : Text) (h : IsLiteralEnd w)
    (hr : Stops rest) (hc : ∀ seen left, complete? level seen left rest = none) :
    findFrom? level seen (w ++ rest) = findFrom? level (w.reverse ++ seen) rest := by
  induction w generalizing seen with
  | nil => rfl
  | cons c w ih =>
    have hnone : ∀ p ∈ leftOperands seen (c :: (w ++ rest)), complete? level seen p.1 p.2 = none := by
      intro p hp
      rw [leftOperands_literalEnd seen h hr p hp]
      exact hc seen p.1
    rw [List.cons_append, findFrom?_cons_of_none hnone, ih (c :: seen) h.tail]
    simp

/-- The name of a value that is not finite is no operand. -/
theorem findFrom?_name {level : Level} {w rest : Text} (seen : Text)
    (h : w.all (fun c => !c.isDigit && c != '.' && !isOperatorChar c) = true) :
    findFrom? level seen (w ++ rest) = findFrom? level (w.reverse ++ seen) rest := by
  induction w generalizing seen with
  | nil => rfl
  | cons c w ih =>
    obtain ⟨⟨⟨h1, h2⟩, h3⟩, h⟩ : ((c.isDigit = false ∧ c ≠ '.') ∧ isOperatorChar c = false) ∧ _ := by
      simpa only [List.all_cons, Bool.and_eq_true, Bool.not_eq_true', bne_iff_ne] using h
    have hnone : leftOperands seen (c :: (w ++ rest)) = [] :=
      leftOperands_of_stops seen ((stops_cons _ _).2 ⟨h1, h2⟩) h3
    rw [List.cons_append, findFrom?_cons_of_none (by simp [hnone]), ih (c :: seen) h]
    simp

theorem findFrom?_word {level : Level} {w rest : Text} (seen : Text) (hw : IsWord w)
    (hr : Stops rest)
    (hc : IsDecimal w ∨ IsFraction w → ∀ seen left, complete? level seen left rest = none) :
    findFrom? level seen (w ++ rest) = findFrom? level (w.reverse ++ seen) rest := by
  by_cases hu : IsDecimal w ∨ IsFraction w
  · exact findFrom?_literal seen (isLiteralEnd_of_unsigned hu) hr (hc hu)
  · apply findFrom?_name
    rcases hw with hw | hw | rfl | rfl
    · exact absurd (.inl hw) hu
    · exact absurd (.inr hw) hu
    · decide
    · decide

end Occurrence

namespace Row

variable {level : Level} {afterWord : Bool} {row : Row} (trailing : Nat)

theorem completion?_text (h : Valid afterWord row) (seen left : Text) :
    Occurrence.complete? level seen left (text trailing row) =
      (completion? level row).map fun (gap, op, right, after) =>
        ⟨seen.reverse, left, List.replicate gap ' ', op, List.replicate right.gap ' ', right.text,
          text trailing after⟩ := by
  match row, h with
  | [], _ => simp only [Occurrence.complete?, afterSpaces_text_nil, completion?, Option.map_none]
  | ⟨gap, .word w⟩ :: row, h =>
    obtain ⟨-, hw, hv⟩ := (valid_word_cons _ _ _ _).1 h
    obtain ⟨c, r, rfl, -, hc⟩ := hw.head
    have hsp := (spaces_text trailing gap ((Mark.fits_word _).2 hw) row).2
    have hno : Operator.ofChar? c = none := by simpa [isOperatorChar] using hc
    simp only [Mark.text_word, List.cons_append] at hsp
    simp only [Occurrence.complete?, hsp, hno, completion?, Option.map_none]
  | ⟨gap, .operator op⟩ :: row, h =>
    have hv := (valid_operator_cons _ _ _ _).1 h
    obtain ⟨h1, h2⟩ := spaces_text trailing gap (Mark.fits_operator op) row
    have hright := signed?_text trailing hv
    simp only [Mark.text_operator, List.singleton_append] at h2
    simp only [Occurrence.complete?, h2, Operator.ofChar?_symbol, completion?, hright, h1]
    by_cases hm : op ∈ level
    · simp only [hm, if_true]
      cases hs : signed? row with
      | none => rfl
      | some found =>
        obtain ⟨right, after⟩ := found
        obtain ⟨rfl, hop⟩ := signed?_spec hs
        have hhead : (right.text ++ text trailing after).head? ≠ some ' ' := by
          rcases isWord_of_isOperand hop with hw | ⟨w, he, -⟩
          · obtain ⟨c, r, he, hc, -⟩ := hw.head
            simpa [he] using hc
          · simp [he]
        simp [(spaces_replicate_append right.gap hhead).1]
    · simp [hm]

def carriedText (kept : Row) (x : Operand) : Text :=
  match kept with
  | [] => []
  | item :: _ => item.mark.text ++ List.replicate x.gap ' '

/-- At a word the scan tries the word as a left operand if it is a literal. -/
theorem leftOperands_word {gap : Nat} {w seen : Text}
    (h : Valid afterWord (⟨gap, .word w⟩ :: row))
    (hs : afterWord = false → ∀ c ∈ seen.head?, c.isDigit = false) :
    Occurrence.leftOperands (List.replicate gap ' ' ++ seen) (w ++ text trailing row) =
      ((leftOperand? seen.isEmpty (⟨gap, .word w⟩ :: row)).map fun (kept, x, rest) =>
        (carriedText kept x ++ x.text, text trailing rest)).toList := by
  obtain ⟨rfl, hw, hv⟩ := (valid_word_cons _ _ _ _).1 h
  obtain ⟨c, r, rfl, -, hc⟩ := hw.head
  have hstop := stops_text trailing hv
  have hseen : ∀ c ∈ (List.replicate gap ' ' ++ seen).head?, c.isDigit = false := by
    cases gap with
    | zero => simpa using hs rfl
    | succ gap => simp [List.replicate_succ]
  by_cases hu : IsDecimal (c :: r) ∨ IsFraction (c :: r)
  · rw [Occurrence.leftOperands_unsigned hu hseen hstop]
    simp [leftOperand?, unsigned?, (isUnsigned_iff _).2 hu, carriedText]
  · have hstops : Stops (c :: (r ++ text trailing row)) := by
      rcases hw with hw | hw | hw | hw
      · exact absurd (.inl hw) hu
      · exact absurd (.inr hw) hu
      · rw [← List.cons_append, hw]
        exact (stops_cons _ _).2 (by decide)
      · rw [← List.cons_append, hw]
        exact (stops_cons _ _).2 (by decide)
    have hn : isUnsigned (c :: r) = false := by
      rw [Bool.eq_false_iff]
      exact fun hn => hu ((isUnsigned_iff _).1 hn)
    simp [Occurrence.leftOperands_of_stops _ hstops hc, leftOperand?, unsigned?, hn]

/-- At an operator the scan tries a negative literal, which has the operator for its sign or is
carried behind it. -/
theorem leftOperands_operator {gap : Nat} {op : Operator} {seen : Text}
    (h : Valid afterWord (⟨gap, .operator op⟩ :: row)) :
    Occurrence.leftOperands (List.replicate gap ' ' ++ seen) (op.symbol :: text trailing row) =
      ((leftOperand? seen.isEmpty (⟨gap, .operator op⟩ :: row)).map fun (kept, x, rest) =>
        (carriedText kept x ++ x.text, text trailing rest)).toList := by
  have hv := (valid_operator_cons _ _ _ _).1 h
  have hopen : Literal.negative? (op.symbol :: text trailing row) =
      (negative? (⟨0, .operator op⟩ :: row)).map fun (x, rest) => (x.text, text trailing rest) := by
    have hv0 : Valid afterWord (⟨0, .operator op⟩ :: row) := by simpa using hv
    rw [← negative?_text trailing hv0, (spaces_text trailing 0 (Mark.fits_operator op) row).2]
    rfl
  have hopens : (List.replicate gap ' ' ++ seen).isEmpty = (seen.isEmpty && gap == 0) := by
    cases gap <;> simp [List.replicate_succ]
  rw [Occurrence.leftOperands_symbol, Occurrence.openingOperand?, Occurrence.trailingOperand?,
    isOperatorChar_symbol, if_pos rfl, negative?_text trailing hv, hopens, hopen, leftOperand?]
  cases hn : negative? row with
  | some found =>
    obtain ⟨x, rest⟩ := found
    obtain ⟨g, d, hd, rfl, rfl⟩ := negative?_eq_some_iff.1 hn
    have hsp := (spaces_text trailing g (Mark.fits_operator .minus)
      (⟨0, .word d⟩ :: rest)).1
    have hnone : ∀ k, negative? (⟨k, .operator op⟩ :: ⟨g, .operator .minus⟩ ::
        ⟨0, .word d⟩ :: rest) = none := by
      intro k
      cases op <;> simp [negative?]
    simpa [hnone, carriedText] using hsp
  | none =>
    cases hb : seen.isEmpty && gap == 0 with
    | false => simp
    | true =>
      obtain rfl : gap = 0 := by simpa using (Bool.and_eq_true_iff.1 hb).2
      cases negative? (⟨0, .operator op⟩ :: row) <;> simp [carriedText]

/-- The left operands that the scan tries at an item are the one that the row has there. -/
theorem leftOperands_text {item : Item} {seen : Text} (h : Valid afterWord (item :: row))
    (hs : afterWord = false → ∀ c ∈ seen.head?, c.isDigit = false) :
    Occurrence.leftOperands (List.replicate item.gap ' ' ++ seen)
        (item.mark.text ++ text trailing row) =
      ((leftOperand? seen.isEmpty (item :: row)).map fun (kept, x, rest) =>
        (carriedText kept x ++ x.text, text trailing rest)).toList := by
  match item, h with
  | ⟨gap, .word w⟩, h => exact leftOperands_word trailing h hs
  | ⟨gap, .operator op⟩, h => exact leftOperands_operator trailing h

/-- An operation of a row and an occurrence in its text are the same when they use one operator and
leave the same text. -/
inductive Same (seen : Text) : Option Site → Option Occurrence → Prop where
  | none : Same seen none none
  | some {s : Site} {o : Occurrence} (operator : o.operator = s.operator)
      (contract : o.contract = s.outcome.map fun v => seen.reverse ++ text trailing (s.replace v)) :
      Same seen (some s) (some o)

/-- The contraction at an item: the operator in front of the left operand stays. -/
theorem contract_carriedText {kept : Row} {x : Operand} (o : Occurrence)
    (hl : o.left = carriedText kept x ++ x.text) (hx : IsOperand x.text)
    (hk : kept = [] ∨ ∃ gap op d, kept = [⟨gap, .operator op⟩] ∧ IsDecimal d ∧ x.text = '-' :: d) :
    o.contract = (calculate x.text o.operator o.right).map fun v =>
      o.before ++ (carriedText kept x ++ (render v ++ o.after)) := by
  have hsplit : Occurrence.splitOperand? o.left = some (carriedText kept x, x.text) := by
    rw [hl]
    rcases hk with rfl | ⟨gap, op, d, rfl, hd, he⟩
    · exact Occurrence.splitOperand?_of_isOperand hx
    · have := Occurrence.splitOperand?_carried op x.gap hd
      simpa [carriedText, he] using this
  simp only [Occurrence.contract, Occurrence.resultText, hsplit]
  cases calculate x.text o.operator o.right with
  | error fault => rfl
  | ok v => simp [Except.map, Occurrence.replace]

/-- Behind the spaces in front of it an item puts the text that a contraction at it leaves. -/
theorem carriedText_append {item : Item} {row kept rest : Row} {x : Operand}
    (hrow : item :: row = kept ++ (signedItems x.gap x.text ++ rest))
    (hk : kept = [] ∨ ∃ gap op d, kept = [⟨gap, .operator op⟩] ∧ IsDecimal d ∧ x.text = '-' :: d)
    (t : Text) (after : Row) :
    List.replicate item.gap ' ' ++ (carriedText kept x ++ (t ++ text trailing after)) =
      text trailing (kept ++ (signedItems x.gap t ++ after)) := by
  rcases hk with rfl | ⟨gap, op, d, rfl, -, -⟩
  · have hgap : item.gap = x.gap := by
      rw [List.nil_append] at hrow
      unfold signedItems at hrow
      split at hrow
      · exact congrArg Item.gap (List.cons.inj hrow).1
      · exact congrArg Item.gap (List.cons.inj hrow).1
    simp [carriedText, hgap]
  · obtain ⟨rfl, -⟩ := List.cons.inj hrow
    simp [carriedText]

theorem Same.cons {item : Item} {seen : Text} {site : Option Site} {o : Option Occurrence}
    (h : Same trailing (item.mark.text.reverse ++ (List.replicate item.gap ' ' ++ seen)) site o) :
    Same trailing seen (site.map fun s => { s with before := item :: s.before }) o := by
  cases h with
  | none => exact .none
  | some operator contract =>
    refine .some operator ?_
    rw [contract]
    simp [Site.outcome, Site.replace, text]

/-- The rest of a row behind a left operand. -/
theorem valid_rest {kept rest : Row} {x : Operand} (hv : Valid afterWord row)
    (ho : opens = true → afterWord = false) (h : leftOperand? opens row = some (kept, x, rest)) :
    Valid true rest := by
  obtain ⟨rfl, hx, hend, -⟩ := leftOperand?_spec hv ho h
  have := ((valid_append _ _ _).1 hv).2
  rwa [hend, valid_signedItems_append (isWord_of_isOperand hx)] at this

/-- The scan passes over an item at which no operation begins. -/
theorem findFrom?_item {item : Item} {seen : Text} (h : Valid afterWord (item :: row))
    (hs : afterWord = false → ∀ c ∈ seen.head?, c.isDigit = false)
    (hnone : ∀ kept x rest, leftOperand? seen.isEmpty (item :: row) = some (kept, x, rest) →
      ∀ seen left, Occurrence.complete? level seen left (text trailing rest) = none) :
    Occurrence.findFrom? level (List.replicate item.gap ' ' ++ seen)
        (item.mark.text ++ text trailing row) =
      Occurrence.findFrom? level (item.mark.text.reverse ++ (List.replicate item.gap ' ' ++ seen))
        (text trailing row) := by
  have hcand := leftOperands_text trailing h hs
  obtain ⟨gap, mark⟩ := item
  cases mark with
  | word w =>
    obtain ⟨-, hw, hv⟩ := (valid_word_cons _ _ _ _).1 h
    refine Occurrence.findFrom?_word _ hw (stops_text trailing hv) fun hu => ?_
    exact hnone [] ⟨gap, w⟩ row (by simp [leftOperand?, unsigned?, (isUnsigned_iff w).2 hu])
  | operator op =>
    simp only [Mark.text_operator, List.singleton_append, List.reverse_singleton] at hcand ⊢
    apply Occurrence.findFrom?_cons_of_none
    intro p hp
    rw [hcand, Option.mem_toList] at hp
    obtain ⟨⟨kept, x, rest⟩, hl, rfl⟩ := Option.map_eq_some_iff.1 hp
    exact hnone kept x rest hl _ _

/-- The scan stops at an item at which an operation begins, with the occurrence of that operation. -/
theorem findFrom?_siteAt {item : Item} {seen : Text} {s : Site} (h : Valid afterWord (item :: row))
    (ho : seen.isEmpty = true → afterWord = false)
    (hs : afterWord = false → ∀ c ∈ seen.head?, c.isDigit = false)
    (hat : siteAt? level seen.isEmpty (item :: row) = some s) :
    Same trailing seen (some s) (Occurrence.findFrom? level (List.replicate item.gap ' ' ++ seen)
      (item.mark.text ++ text trailing row)) := by
  obtain ⟨⟨kept, x, rest⟩, hl, hc⟩ := Option.bind_eq_some_iff.1 hat
  obtain ⟨⟨gap, op, right, after⟩, hcomplete, rfl⟩ := Option.map_eq_some_iff.1 hc
  obtain ⟨hrow, hx, -, hk⟩ := leftOperand?_spec h ho hl
  have hcand := leftOperands_text trailing h hs
  have hcompletion := @completion?_text level _ _ trailing (valid_rest h ho hl)
    (List.replicate item.gap ' ' ++ seen) (carriedText kept x ++ x.text)
  obtain ⟨c, t, ht⟩ := List.exists_cons_of_ne_nil
    (List.append_ne_nil_of_left_ne_nil (Mark.Fits.text_ne_nil h.2.1) (text trailing row))
  rw [hcomplete] at hcompletion
  rw [hl] at hcand
  rw [ht] at hcand ⊢
  rw [Occurrence.findFrom?, hcand]
  simp only [Option.map_some, Option.toList_some, List.findSome?_cons, hcompletion,
    Option.some_or]
  refine .some rfl ?_
  rw [contract_carriedText _ rfl hx hk, Site.outcome]
  congr 1
  funext v
  rw [Site.replace, ← carriedText_append trailing hrow hk]
  simp

/-- The scan over the text of a row finds the operation that the row has. -/
theorem findFrom?_text {seen : Text} (h : Valid afterWord row)
    (ho : seen.isEmpty = true → afterWord = false)
    (hs : afterWord = false → ∀ c ∈ seen.head?, c.isDigit = false) :
    Same trailing seen (site? level seen.isEmpty row)
      (Occurrence.findFrom? level seen (text trailing row)) := by
  induction row generalizing afterWord seen with
  | nil =>
    have hnil : Occurrence.findFrom? level seen (text trailing []) = none := by
      have := Occurrence.findFrom?_spaces level seen trailing []
      rw [List.append_nil] at this
      simpa [Occurrence.findFrom?] using this
    rw [hnil]
    exact .none
  | cons item row ih =>
    have hne := Mark.Fits.text_ne_nil h.2.1
    rw [text, Occurrence.findFrom?_spaces, site?]
    cases hat : siteAt? level seen.isEmpty (item :: row) with
    | some s => exact findFrom?_siteAt trailing h ho hs hat
    | none =>
      have hnone : ∀ kept x rest, leftOperand? seen.isEmpty (item :: row) = some (kept, x, rest) →
          ∀ seen left, Occurrence.complete? level seen left (text trailing rest) = none := by
        intro kept x rest hl seen' left
        rw [completion?_text trailing (valid_rest h ho hl)]
        have := (Option.bind_eq_none_iff.1 hat) _ hl
        simpa using this
      have hstep := findFrom?_item trailing h hs hnone
      have hempty : (item.mark.text.reverse ++ (List.replicate item.gap ' ' ++ seen)).isEmpty =
          false := by
        simp [hne]
      have hdigit : item.mark.isWord = false → ∀ c ∈
          (item.mark.text.reverse ++ (List.replicate item.gap ' ' ++ seen)).head?,
          c.isDigit = false := by
        intro hword
        obtain ⟨gap, mark⟩ := item
        cases mark with
        | operator op => simpa using (symbol_facts op).1
        | word w => cases hword
      have hih := @ih _ (item.mark.text.reverse ++ (List.replicate item.gap ' ' ++ seen)) h.2.2
        (by simp [hempty]) hdigit
      rw [hempty, ← hstep] at hih
      exact hih.cons

end Row

end Reckoner
