import Reckoner.Check
import Reckoner.Proofs.Separation

/-!
# Lexemes and separation

The lexemes of a text follow its shape: a literal, a run of spaces or a single character stands in
front. A text that passes the checks of an expression whose variables have been replaced has its
operands separated.
-/

namespace Reckoner

open Literal

namespace Lexeme

/-- A literal in front of a text is its first lexeme. -/
theorem list_unsigned_append {w rest : Text} (h : unsigned? (w ++ rest) = some (w, rest)) :
    list (w ++ rest) = ⟨.number, w⟩ :: list rest := by
  obtain ⟨c, r, rfl, -⟩ := (isWord_of_unsigned (isLiteral_of_unsigned? h).1).head
  rw [List.cons_append] at h ⊢
  rw [list_cons, first, h]
  simp

theorem list_spaces_append (n : Nat) {rest : Text} (h : rest.head? ≠ some ' ') :
    list (List.replicate (n + 1) ' ' ++ rest) =
      ⟨.space, List.replicate (n + 1) ' '⟩ :: list rest := by
  have hsp := (spaces_replicate_append (n + 1) h).1
  rw [List.replicate_succ, List.cons_append] at hsp ⊢
  have hu : unsigned? (' ' :: (List.replicate n ' ' ++ rest)) = none :=
    unsigned?_of_stops (stops_space _)
  rw [list_cons, first, hu]
  simp [hsp]

/-- A character that begins no literal and is no space is a lexeme of its own. -/
theorem list_char_cons {c : Char} {rest : Text} (h : unsigned? (c :: rest) = none)
    (hc : c ≠ ' ') : list (c :: rest) = ⟨.ofChar c, [c]⟩ :: list rest := by
  rw [list_cons, first, h]
  simp [hc]

/-- Operators, the point and parentheses have kinds of their own; letters share one, and so do the
characters that have no part in expressions. -/
theorem ofChar_cases (c : Char) :
    (∃ op : Operator, c = op.symbol ∧ Kind.ofChar c = .operator op) ∨
    (c.isAlpha = true ∧ Kind.ofChar c = .letter) ∨ (c = '.' ∧ Kind.ofChar c = .dot) ∨
    (c = '(' ∧ Kind.ofChar c = .leftParen) ∨ (c = ')' ∧ Kind.ofChar c = .rightParen) ∨
    ((isOperatorChar c = false ∧ c.isAlpha = false ∧ c ≠ '.' ∧ c ≠ '(' ∧ c ≠ ')') ∧
      Kind.ofChar c = .other) := by
  unfold Kind.ofChar isOperatorChar
  cases hop : Operator.ofChar? c with
  | some op => exact .inl ⟨op, (Operator.symbol_of_ofChar? hop).symm, rfl⟩
  | none =>
    by_cases h1 : c.isAlpha = true
    · simp [h1]
    by_cases h2 : c = '.'
    · simp [h2]
    by_cases h3 : c = '('
    · simp [h3]
    by_cases h4 : c = ')'
    · simp [h4]
    · simp [h1, h2, h3, h4]

/-- Apart from letters and characters foreign to expressions no two characters are of one kind. -/
theorem ofChar_inj {c d : Char} (hletter : Kind.ofChar d ≠ .letter)
    (hother : Kind.ofChar d ≠ .other) : Kind.ofChar c = Kind.ofChar d ↔ c = d := by
  constructor
  · intro h
    rcases ofChar_cases d with ⟨op, rfl, hd⟩ | ⟨-, hd⟩ | ⟨rfl, hd⟩ | ⟨rfl, hd⟩ | ⟨rfl, hd⟩ | ⟨-, hd⟩
    case inr.inl => exact absurd hd hletter
    case inr.inr.inr.inr.inr => exact absurd hd hother
    all_goals
      rw [hd] at h
      rcases ofChar_cases c with ⟨o, rfl, hc⟩ | ⟨-, hc⟩ | ⟨rfl, hc⟩ | ⟨rfl, hc⟩ | ⟨rfl, hc⟩ |
        ⟨-, hc⟩
      all_goals simp_all
  · rintro rfl
    rfl

theorem ofChar_ne (c : Char) : Kind.ofChar c ≠ .number ∧ Kind.ofChar c ≠ .space := by
  rcases ofChar_cases c with ⟨op, -, h⟩ | ⟨-, h⟩ | ⟨-, h⟩ | ⟨-, h⟩ | ⟨-, h⟩ | ⟨-, h⟩ <;> simp [h]

theorem isNumber_ofChar (c : Char) : (⟨.ofChar c, [c]⟩ : Lexeme).isNumber = false :=
  beq_eq_false_iff_ne.2 (ofChar_ne c).1

theorem isSpace_ofChar (c : Char) : (⟨.ofChar c, [c]⟩ : Lexeme).isSpace = false :=
  beq_eq_false_iff_ne.2 (ofChar_ne c).2

theorem ofChar_ne_letter {c : Char} (hc : c.isAlpha = false) : Kind.ofChar c ≠ .letter := by
  rcases ofChar_cases c with ⟨op, -, h⟩ | ⟨halpha, -⟩ | ⟨-, h⟩ | ⟨-, h⟩ | ⟨-, h⟩ | ⟨-, h⟩
  · simp [h]
  · rw [hc] at halpha
    cases halpha
  all_goals simp [h]

/-- What holds of the empty text, and of a text whenever it holds of what follows the first lexeme,
holds of every text. -/
theorem list_induction {motive : Text → Prop} (nil : motive [])
    (number : ∀ w rest, unsigned? (w ++ rest) = some (w, rest) → motive rest → motive (w ++ rest))
    (space : ∀ n rest, rest.head? ≠ some ' ' → motive rest →
      motive (List.replicate (n + 1) ' ' ++ rest))
    (char : ∀ c rest, unsigned? (c :: rest) = none → c ≠ ' ' → motive rest → motive (c :: rest))
    (t : Text) : motive t := by
  induction hn : t.length using Nat.strongRecOn generalizing t with
  | ind n ih =>
    cases t with
    | nil => exact nil
    | cons c t =>
      cases hu : unsigned? (c :: t) with
      | some found =>
        obtain ⟨w, rest⟩ := found
        have happ := append_of_unsigned? hu
        have hne := (isWord_of_unsigned (isLiteral_of_unsigned? hu).1).ne_nil
        rw [← happ] at hu ⊢
        refine number w rest hu (ih rest.length ?_ rest rfl)
        rw [← hn, ← happ, List.length_append]
        have := List.length_pos_iff.2 hne
        omega
      | none =>
        by_cases hc : c = ' '
        · subst hc
          have happ := Text.spaces_append_afterSpaces t
          obtain ⟨k, hk⟩ := exists_spaces t
          rw [hk] at happ
          rw [← happ, ← List.cons_append, ← List.replicate_succ]
          refine space k _ ?_ (ih _ ?_ _ rfl)
          · have := List.head?_dropWhile_not (· == ' ') t
            intro he
            rw [Text.afterSpaces] at he
            rw [he] at this
            simp at this
          · have hlen := congrArg List.length happ
            rw [List.length_append] at hlen
            rw [← hn, List.length_cons]
            omega
        · exact char c t hu hc (ih t.length (by simp [← hn]) t rfl)

/-- The lexemes of a text are the text. -/
theorem flatMap_text_list (t : Text) : (list t).flatMap (·.text) = t := by
  induction t using list_induction with
  | nil => rfl
  | number w rest hu ih => rw [list_unsigned_append hu, List.flatMap_cons, ih]
  | space n rest hs ih => rw [list_spaces_append n hs, List.flatMap_cons, ih]
  | char c rest hu hc ih =>
    rw [list_char_cons hu hc, List.flatMap_cons, ih]
    rfl

end Lexeme

namespace Check

open Lexeme (Kind)

theorem runAll_eq_ok_iff (checks : List Check) (t : Text) :
    runAll checks t = .ok () ↔ ∀ check ∈ checks, check.fails (Lexeme.list t) = false := by
  unfold runAll firstFault?
  cases hf : checks.find? (·.fails (Lexeme.list t)) with
  | none => simpa using hf
  | some check =>
    have hm := List.mem_of_find?_eq_some hf
    have hfails := List.find?_some hf
    simp only [Option.map_some, reduceCtorEq, false_iff]
    intro h
    rw [h check hm] at hfails
    exact absurd hfails (by decide)

/-- A check that fails reports its own fault. -/
theorem runAll_error {checks : List Check} {t : Text} {fault : Fault}
    (h : runAll checks t = .error fault) : ∃ check ∈ checks, check.fault = fault := by
  unfold runAll firstFault? at h
  cases hf : checks.find? (·.fails (Lexeme.list t)) with
  | none => simp [hf] at h
  | some check => exact ⟨check, List.mem_of_find?_eq_some hf, by simpa [hf] using h⟩

def endsOperand (l : Lexeme) : Bool := l.isNumber || l.kind == .rightParen

def beginsOperand (l : Lexeme) : Bool := l.isNumber || l.kind == .leftParen

/-- Whether an operand begins before anything else does but spaces. -/
def operandNext (l : List Lexeme) : Bool := (significant l).head?.any beginsOperand

theorem missingOperators_cons (a : Lexeme) (l : List Lexeme) (ha : a.isSpace = false) :
    missingOperators.fails (a :: l) =
      (endsOperand a && operandNext l || missingOperators.fails l) := by
  simp only [missingOperators, significant, operandNext, List.filter_cons, ha, Bool.not_false,
    if_true]
  cases List.filter (fun x => !x.isSpace) l with
  | nil => simp [pairs]
  | cons b u => simp [pairs, endsOperand, beginsOperand]

theorem missingOperators_space (a : Lexeme) (l : List Lexeme) (ha : a.isSpace = true) :
    missingOperators.fails (a :: l) = missingOperators.fails l := by
  simp [missingOperators, significant, ha]

theorem operandNext_cons (a : Lexeme) (l : List Lexeme) (ha : a.isSpace = false) :
    operandNext (a :: l) = beginsOperand a := by
  simp [operandNext, significant, ha]

theorem operandNext_space (a : Lexeme) (l : List Lexeme) (ha : a.isSpace = true) :
    operandNext (a :: l) = operandNext l := by
  simp [operandNext, significant, ha]

/-- Where every lexeme has a part in expressions and none lacks an operator in front of it, operands
are separated. -/
theorem separated_of_lexemes (t : Text)
    (hk : ∀ l ∈ Lexeme.list t, l.kind ≠ .letter ∧ l.kind ≠ .dot ∧ l.kind ≠ .other)
    (hm : missingOperators.fails (Lexeme.list t) = false) :
    Separated false t ∧ (operandNext (Lexeme.list t) = false → Separated true t) := by
  induction t using Lexeme.list_induction with
  | nil => exact ⟨.nil, fun _ => .nil⟩
  | number w rest hu ih =>
    have hw := isWord_of_unsigned (isLiteral_of_unsigned? hu).1
    rw [Lexeme.list_unsigned_append hu] at hk hm ⊢
    rw [missingOperators_cons _ _ (by rfl), Bool.or_eq_false_iff] at hm
    obtain ⟨-, hrest⟩ := ih (fun l hl => hk l (List.mem_cons_of_mem _ hl)) hm.2
    refine ⟨.word hw (hrest ?_), ?_⟩
    · simpa [endsOperand, Lexeme.isNumber] using hm.1
    · intro hnext
      rw [operandNext_cons _ _ (by rfl)] at hnext
      simp [beginsOperand, Lexeme.isNumber] at hnext
  | space n rest hs ih =>
    rw [Lexeme.list_spaces_append n hs] at hk hm ⊢
    rw [missingOperators_space _ _ (by rfl)] at hm
    rw [operandNext_space _ _ (by rfl)]
    obtain ⟨h1, h2⟩ := ih (fun l hl => hk l (List.mem_cons_of_mem _ hl)) hm
    exact ⟨h1.spaces (n + 1), fun hnext => (h2 hnext).spaces (n + 1)⟩
  | char c rest hu hc ih =>
    rw [Lexeme.list_char_cons hu hc] at hk hm ⊢
    obtain ⟨hl, hd, ho⟩ := hk _ List.mem_cons_self
    have ih := ih (fun l hl => hk l (List.mem_cons_of_mem _ hl))
    dsimp only at hl hd ho
    rcases Lexeme.ofChar_cases c with ⟨op, rfl, hk⟩ | ⟨-, hk⟩ | ⟨-, hk⟩ | ⟨rfl, hk⟩ | ⟨rfl, hk⟩ |
      ⟨-, hk⟩
    · rw [hk] at hm ⊢
      rw [missingOperators_cons _ _ (by rfl), Bool.or_eq_false_iff] at hm
      have hrest := (ih hm.2).1
      exact ⟨.operator op hrest, fun _ => .operator op hrest⟩
    · exact absurd hk hl
    · exact absurd hk hd
    · rw [hk] at hm ⊢
      rw [missingOperators_cons _ _ (by rfl), Bool.or_eq_false_iff] at hm
      refine ⟨.opening (ih hm.2).1, ?_⟩
      intro hnext
      rw [operandNext_cons _ _ (by rfl)] at hnext
      simp [beginsOperand] at hnext
    · rw [hk] at hm ⊢
      rw [missingOperators_cons _ _ (by rfl), Bool.or_eq_false_iff] at hm
      have hrest := (ih hm.2).2 (by simpa [endsOperand] using hm.1)
      exact ⟨.closing hrest, fun _ => .closing hrest⟩
    · exact absurd hk ho

/-- A text that passes the checks has its operands separated. -/
theorem separated_of_closed {t : Text} (h : runAll closed t = .ok ()) : Separated false t := by
  rw [runAll_eq_ok_iff] at h
  have hcharacters := h characters (by simp [closed])
  have hformat := h numberFormat (by simp [closed])
  have hmissing := h missingOperators (by simp [closed])
  simp only [characters, Bool.or_eq_false_iff, List.any_eq_false, Bool.not_eq_true] at hcharacters
  simp only [numberFormat, Bool.or_eq_false_iff, List.any_eq_false, Bool.not_eq_true] at hformat
  refine (separated_of_lexemes t ?_ hmissing).1
  intro l hl
  obtain ⟨hletter, hother⟩ := hcharacters.2 l hl
  have hdot := hformat.1 l hl
  simp only [beq_eq_false_iff_ne] at hletter hother hdot
  exact ⟨hletter, hdot, hother⟩

end Check

end Reckoner
