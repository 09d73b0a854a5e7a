import Reckoner.Proofs.Results

/-!
# Chains of operations

An expression without parentheses is a chain: an operand, and operators each with the operand behind
it. `contractLinks` carries out the operations of a level from left to right. A reduction does the
same to the text of a chain, spaces included, as long as every result is finite.
-/

namespace Reckoner

open Literal
open Operator (Level)

/-- An operator and the operand behind it, with the spaces in front of either. -/
structure Link where
  before : Nat
  operator : Operator
  after : Nat
  operand : Text

structure Chain where
  first : Text
  links : List Link

def Link.joint (l : Link) : Nat × Operator × Nat := (l.before, l.operator, l.after)

structure Contraction where
  left : Text
  operator : Operator
  right : Text

def Contraction.outcome (c : Contraction) : Except Fault Float :=
  calculate c.left c.operator c.right

def Link.text (l : Link) : Text :=
  List.replicate l.before ' ' ++ l.operator.symbol :: (List.replicate l.after ' ' ++ l.operand)

namespace Chain

def text (trailing : Nat) (c : Chain) : Text :=
  c.first ++ (c.links.flatMap Link.text ++ List.replicate trailing ' ')

structure Fits (c : Chain) : Prop where
  first : IsOperand c.first
  links : ∀ l ∈ c.links, IsOperand l.operand

/-- The first contraction of a level, and the chain that its value leaves. -/
def step? (level : Level) (x : Text) : List Link → Option (Contraction × (Float → Chain))
  | [] => none
  | l :: links =>
    if l.operator ∈ level then
      some (⟨x, l.operator, l.operand⟩, fun v => ⟨render v, links⟩)
    else (step? level l.operand links).map fun (c, next) =>
      (c, fun v => ⟨x, { l with operand := (next v).first } :: (next v).links⟩)

/-- Carries out the operations of a level from left to right. -/
def contractLinks (level : Level) (x : Text) : List Link → Except Fault Chain
  | [] => .ok ⟨x, []⟩
  | l :: links =>
    if l.operator ∈ level then
      match calculate x l.operator l.operand with
      | .error fault => .error fault
      | .ok v => contractLinks level (render v) links
    else
      match contractLinks level l.operand links with
      | .error fault => .error fault
      | .ok c => .ok ⟨x, { l with operand := c.first } :: c.links⟩

/-- The operations of a level in the order in which they are carried out. One that fails is the
last. -/
def contractions (level : Level) (x : Text) : List Link → List Contraction
  | [] => []
  | l :: links =>
    if l.operator ∈ level then
      ⟨x, l.operator, l.operand⟩ :: match calculate x l.operator l.operand with
        | .error _ => []
        | .ok v => contractions level (render v) links
    else contractions level l.operand links

def contract (level : Level) (c : Chain) : Except Fault Chain := contractLinks level c.first c.links

def linkRow : List Link → Row
  | [] => []
  | l :: links =>
    ⟨l.before, .operator l.operator⟩ :: (Row.signedItems l.after l.operand ++ linkRow links)

def row (c : Chain) : Row := Row.signedItems 0 c.first ++ linkRow c.links

variable {level : Level}

theorem text_linkRow (trailing : Nat) (links : List Link) :
    Row.text trailing (linkRow links) =
      links.flatMap Link.text ++ List.replicate trailing ' ' := by
  induction links with
  | nil => rfl
  | cons l links ih => simp [linkRow, Link.text, ih]

theorem text_eq (trailing : Nat) (c : Chain) : c.text trailing = Row.text trailing c.row := by
  simp [text, row, text_linkRow]

theorem valid_linkRow {links : List Link} (h : ∀ l ∈ links, IsOperand l.operand) :
    Row.Valid true (linkRow links) := by
  induction links with
  | nil => trivial
  | cons l links ih =>
    rw [linkRow, Row.valid_operator_cons,
      Row.valid_signedItems_append (Row.isWord_of_isOperand (h l (by simp)))]
    exact ih fun m hm => h m (List.mem_cons_of_mem l hm)

theorem Fits.valid {c : Chain} (h : c.Fits) : Row.Valid false c.row := by
  rw [row, Row.valid_signedItems_append (Row.isWord_of_isOperand h.first)]
  exact valid_linkRow h.links

end Chain

namespace Site

def behind (row : Row) (s : Site) : Site := { s with before := row ++ s.before }

end Site

namespace Row

variable {level : Level}

/-- The operation that has a given left operand, or else one that begins behind it. -/
def operandSite? (level : Level) (x : Operand) (rest : Row) : Option Site :=
  ((completion? level rest).map fun (gap, op, right, after) => ⟨[], x, gap, op, right, after⟩).or
    ((site? level false rest).map (Site.behind (signedItems x.gap x.text)))

theorem negative?_signedItems_append {x : Operand} {rest : Row} {d : Text} (hd : IsDecimal d)
    (hx : x.text = '-' :: d) :
    negative? (signedItems x.gap x.text ++ rest) = some (x, rest) := by
  rw [negative?_eq_some_iff]
  exact ⟨x.gap, d, hd, by rw [← hx], by rw [hx]; rfl⟩

theorem site?_word_cons (opens : Bool) (gap : Nat) {w : Text} (hw : IsDecimal w ∨ IsFraction w)
    (rest : Row) :
    site? level opens (⟨gap, .word w⟩ :: rest) = operandSite? level ⟨gap, w⟩ rest := by
  have hu : unsigned? (⟨gap, .word w⟩ :: rest) = some (⟨gap, w⟩, rest) :=
    unsigned?_eq_some_iff.2 ⟨gap, w, hw, rfl, rfl⟩
  simp only [site?, siteAt?, leftOperand?, hu, Option.map_some, Option.bind_some, operandSite?,
    signedItems_word (isWord_of_unsigned hw)]
  rfl

/-- The operand that opens a text is tried first. -/
theorem site?_signedItems_append {t : Text} (ht : IsOperand t) (rest : Row) :
    site? level true (signedItems 0 t ++ rest) = operandSite? level ⟨0, t⟩ rest := by
  rcases ht.unsigned_or_negative with hw | ⟨d, rfl, hd⟩
  · rw [signedItems_word (isWord_of_unsigned hw)]
    exact site?_word_cons true 0 hw rest
  · have hneg : negative? (⟨0, .operator .minus⟩ :: ⟨0, .word d⟩ :: rest) =
        some (⟨0, '-' :: d⟩, rest) := negative?_eq_some_iff.2 ⟨0, d, hd, rfl, rfl⟩
    rw [signedItems_minus]
    simp only [List.cons_append, List.nil_append]
    rw [site?, siteAt?, leftOperand?, site?_word_cons false 0 (.inl hd) rest]
    simp only [Bool.true_and, beq_self_eq_true, if_true, hneg, Option.map_some, Option.some_or,
      Option.bind_some, operandSite?, signedItems_minus, signedItems_word (.inl hd)]
    cases completion? level rest with
    | some found => simp
    | none => cases site? level false rest <;> simp [Site.behind]

/-- Behind an operator the operand is tried, with its sign if it has one. -/
theorem site?_operator_signedItems (gap : Nat) (op : Operator) {x : Operand}
    (hx : IsOperand x.text) (rest : Row) :
    site? level false (⟨gap, .operator op⟩ :: (signedItems x.gap x.text ++ rest)) =
      (operandSite? level x rest).map (Site.behind [⟨gap, .operator op⟩]) := by
  rcases hx.unsigned_or_negative with hw | ⟨d, hx, hd⟩
  · rw [signedItems_word (isWord_of_unsigned hw)]
    simp only [List.cons_append, List.nil_append]
    rw [site?, site?_word_cons false x.gap hw rest]
    simp [siteAt?, leftOperand?, negative?]
    rfl
  · have hneg := @negative?_signedItems_append x rest d hd hx
    rw [site?, siteAt?, leftOperand?, hneg]
    rw [hx, signedItems_minus]
    simp only [List.cons_append, List.nil_append]
    rw [site?, site?_word_cons false 0 (.inl hd) rest]
    have hnone : siteAt? level false (⟨x.gap, .operator .minus⟩ :: ⟨0, .word d⟩ :: rest) =
        none := by
      simp [siteAt?, leftOperand?, negative?]
    simp only [hnone, Bool.false_and, Bool.false_eq_true, if_false, Option.map_none,
      Option.none_or, Option.map_some, Option.bind_some, operandSite?, hx, signedItems_minus,
      signedItems_word (.inl hd)]
    cases completion? level rest with
    | some found => simp [Site.behind]
    | none => cases site? level false rest <;> simp [Site.behind]

theorem signed?_signedItems_append {x : Operand} (hx : IsOperand x.text) (rest : Row) :
    signed? (signedItems x.gap x.text ++ rest) = some (x, rest) := by
  rcases hx.unsigned_or_negative with hw | ⟨d, hx, hd⟩
  · have hu : unsigned? (⟨x.gap, .word x.text⟩ :: rest) = some (x, rest) :=
      unsigned?_eq_some_iff.2 ⟨x.gap, x.text, hw, rfl, rfl⟩
    rw [signedItems_word (isWord_of_unsigned hw), List.singleton_append, signed?, hu]
    rfl
  · rw [signed?, negative?_signedItems_append hd hx]
    rfl

end Row

namespace Chain

variable {level : Level}

/-- The first contraction of a chain is the operation that the chain's row has. -/
theorem operandSite?_linkRow (gap : Nat) (x : Text) {links : List Link}
    (h : ∀ l ∈ links, IsOperand l.operand) :
    match step? level x links with
    | none => Row.operandSite? level ⟨gap, x⟩ (linkRow links) = none
    | some (c, next) => ∃ s, Row.operandSite? level ⟨gap, x⟩ (linkRow links) = some s ∧
        s.outcome = c.outcome ∧
        ∀ v, s.replace v = Row.signedItems gap (next v).first ++ linkRow (next v).links := by
  induction links generalizing gap x with
  | nil => rfl
  | cons l links ih =>
    have hl := h l (by simp)
    have ih := ih l.after l.operand fun m hm => h m (List.mem_cons_of_mem l hm)
    have hsigned := @Row.signed?_signedItems_append ⟨l.after, l.operand⟩ hl (linkRow links)
    have hsite := @Row.site?_operator_signedItems level l.before l.operator ⟨l.after, l.operand⟩ hl
      (linkRow links)
    rw [step?, linkRow, Row.operandSite?, Row.completion?]
    by_cases hm : l.operator ∈ level
    · simp only [if_pos hm, hsigned, Option.map_some, Option.some_or]
      exact ⟨_, rfl, rfl, fun v => rfl⟩
    · simp only [if_neg hm, Option.map_none, Option.none_or, hsite]
      cases hstep : step? level l.operand links with
      | none =>
        rw [hstep] at ih
        simp [ih]
      | some found =>
        obtain ⟨c, next⟩ := found
        rw [hstep] at ih
        obtain ⟨s, hs, hout, hrep⟩ := ih
        refine ⟨Site.behind (Row.signedItems gap x)
          (Site.behind [⟨l.before, .operator l.operator⟩] s), by rw [hs]; rfl, hout, fun v => ?_⟩
        have hv := hrep v
        simp only [Site.replace] at hv
        simp [Site.replace, Site.behind, linkRow, hv]

theorem step?_eq_none {x : Text} {links : List Link} (h : step? level x links = none) :
    ∀ l ∈ links, l.operator ∉ level := by
  induction links generalizing x with
  | nil => simp
  | cons l links ih =>
    rw [step?] at h
    by_cases hm : l.operator ∈ level
    · simp [hm] at h
    · intro m hmem
      cases List.mem_cons.1 hmem with
      | inl he => exact he ▸ hm
      | inr hmem => exact ih (by simpa [hm] using h) m hmem

/-- A chain without operators of the level stays as it is. -/
theorem contractLinks_of_not_mem {links : List Link} (h : ∀ l ∈ links, l.operator ∉ level)
    (x : Text) : contractLinks level x links = .ok ⟨x, links⟩ := by
  induction links generalizing x with
  | nil => rfl
  | cons l links ih =>
    have hl := h l (by simp)
    have ih := ih (fun m hm => h m (List.mem_cons_of_mem l hm)) l.operand
    simp [contractLinks, hl, ih]

/-- A chain is contracted by its first contraction and the contraction of what that leaves. -/
theorem step?_eq_some {x : Text} {links : List Link} {c : Contraction} {next : Float → Chain}
    (h : step? level x links = some (c, next)) :
    contractLinks level x links = (match c.outcome with
      | .error fault => .error fault
      | .ok v => (next v).contract level) ∧
    contractions level x links = (c :: match c.outcome with
      | .error _ => []
      | .ok v => contractions level (next v).first (next v).links) ∧
    ∀ v, (next v).links.length < links.length := by
  induction links generalizing x c next with
  | nil => simp [step?] at h
  | cons l links ih =>
    rw [step?] at h
    by_cases hm : l.operator ∈ level
    · simp only [if_pos hm, Option.some.injEq, Prod.mk.injEq] at h
      obtain ⟨rfl, rfl⟩ := h
      simp only [contractLinks, contractions, if_pos hm, contract, Contraction.outcome]
      exact ⟨trivial, trivial, fun v => by simp⟩
    · simp only [if_neg hm] at h
      obtain ⟨⟨d, rest⟩, hstep, he⟩ := Option.map_eq_some_iff.1 h
      simp only [Prod.mk.injEq] at he
      obtain ⟨rfl, rfl⟩ := he
      obtain ⟨h1, h2, h3⟩ := ih hstep
      refine ⟨?_, ?_, fun v => by simpa using h3 v⟩
      · simp only [contractLinks, if_neg hm, h1]
        cases d.outcome with
        | error fault => rfl
        | ok v => simp only [contract, contractLinks, if_neg hm]
      · simp only [contractions, if_neg hm, h2]

/-- Finite results leave operands. -/
theorem Fits.step? {x : Text} {links : List Link} {c : Contraction} {next : Float → Chain}
    (h : Fits ⟨x, links⟩) (hs : step? level x links = some (c, next)) :
    IsOperand c.left ∧ IsOperand c.right ∧
      ∀ v, Binary64.isFinite v = true → (next v).Fits := by
  induction links generalizing x c next with
  | nil => simp [Chain.step?] at hs
  | cons l links ih =>
    have hrest : Fits ⟨l.operand, links⟩ :=
      ⟨h.links l (by simp), fun m hm => h.links m (List.mem_cons_of_mem l hm)⟩
    rw [Chain.step?] at hs
    by_cases hm : l.operator ∈ level
    · simp only [if_pos hm, Option.some.injEq, Prod.mk.injEq] at hs
      obtain ⟨rfl, rfl⟩ := hs
      exact ⟨h.first, hrest.first, fun v hv =>
        ⟨.inl (isSigned_render_of_isFinite hv), hrest.links⟩⟩
    · simp only [if_neg hm] at hs
      obtain ⟨⟨d, rest⟩, hstep, he⟩ := Option.map_eq_some_iff.1 hs
      simp only [Prod.mk.injEq] at he
      obtain ⟨rfl, rfl⟩ := he
      obtain ⟨h1, h2, h3⟩ := ih hrest hstep
      refine ⟨h1, h2, fun v hv => ⟨h.first, ?_⟩⟩
      intro m hmem
      rcases List.mem_cons.1 hmem with rfl | hmem
      · exact (h3 v hv).first
      · exact (h3 v hv).links m hmem

def sign (t : Text) : Nat := if t.head? = some '-' then 1 else 0

theorem operatorCount_operand (level : Level) {t : Text} (h : IsOperand t) :
    operatorCount level t = if .minus ∈ level then sign t else 0 := by
  have hword : ∀ {w}, IsWord w → operatorCount level w = 0 ∧ sign w = 0 := by
    intro w hw
    obtain ⟨c, r, rfl, -, hc⟩ := hw.head
    refine ⟨operatorCount_eq_zero level hw.not_operator, ?_⟩
    simp [sign, ne_minus_of_not_operator hc]
  rcases h.unsigned_or_negative with hw | ⟨d, rfl, hd⟩
  · simp [hword (isWord_of_unsigned hw)]
  · have hcount : operatorCount level ('-' :: d) =
        operatorCount level d + if .minus ∈ level then 1 else 0 :=
      operatorCount_symbol_cons level .minus d
    rw [(hword (.inl hd)).1, Nat.zero_add] at hcount
    simpa [sign] using hcount

theorem operatorCount_linkRow (level : Level) (trailing : Nat) {links : List Link}
    (h : ∀ l ∈ links, IsOperand l.operand) :
    operatorCount level (Row.text trailing (linkRow links)) =
      links.countP (fun l => l.operator ∈ level) +
        if .minus ∈ level then (links.map fun l => sign l.operand).sum else 0 := by
  induction links with
  | nil => simp [linkRow, operatorCount_spaces]
  | cons l links ih =>
    have ih := ih fun m hm => h m (List.mem_cons_of_mem l hm)
    have hl := operatorCount_operand level (h l (by simp))
    simp only [linkRow, Row.text_cons, Row.text_signedItems_append, Mark.text_operator,
      List.singleton_append, operatorCount_append, operatorCount_symbol_cons,
      operatorCount_spaces, ih, hl, List.countP_cons, List.map_cons, List.sum_cons,
      decide_eq_true_eq]
    split <;> omega

theorem negativeCountFrom_linkRow (trailing : Nat) {links : List Link}
    (h : ∀ l ∈ links, IsOperand l.operand) :
    negativeCountFrom false 0 (Row.text trailing (linkRow links)) =
      (links.map fun l => sign l.operand).sum := by
  have hspaces : ∀ n, ∀ c ∈ List.replicate n ' ', isOperatorChar c = false := by
    intro n c hc
    obtain ⟨-, rfl⟩ := List.mem_replicate.1 hc
    decide
  induction links with
  | nil => exact negativeCountFrom_eq_zero (hspaces trailing) false 0
  | cons l links ih =>
    have hrest : ∀ m ∈ links, IsOperand m.operand := fun m hm => h m (List.mem_cons_of_mem l hm)
    have ih := ih hrest
    have hstops := Row.stops_text trailing (valid_linkRow hrest)
    rw [linkRow, Row.text_cons, negativeCountFrom_append (hspaces l.before), Mark.text_operator,
      List.singleton_append, Row.text_signedItems_append, List.map_cons, List.sum_cons, ← ih]
    rcases (h l (by simp)).unsigned_or_negative with hw | ⟨d, hx, hd⟩
    · obtain ⟨c, r, he, hspace, hc⟩ := (isWord_of_unsigned hw).head
      have hafter := (spaces_replicate_append l.after
        (t := l.operand ++ Row.text trailing (linkRow links)) (by simpa [he] using hspace)).2
      rw [negativeCountFrom_operator, negativeCountFrom_append (hspaces l.after),
        negativeCountFrom_append (isWord_of_unsigned hw).not_operator]
      · simp [sign, he, ne_minus_of_not_operator hc]
      · rw [hafter]
        exact minusLiteral?_of_not_minus (by simpa [he] using ne_minus_of_not_operator hc)
    · rw [hx, List.cons_append,
        negativeCountFrom_operator_minus l.operator l.after (.inl hd) hstops]
      simp [sign, Nat.add_comm]

/-- The operators of a chain that are not signs are its links'. -/
theorem isSettled_iff {c : Chain} (h : c.Fits) (trailing : Nat) :
    IsSettled level (c.text trailing) ↔ ∀ l ∈ c.links, l.operator ∉ level := by
  have hstops := Row.stops_text trailing (valid_linkRow h.links)
  have hcount : operatorCount level (c.text trailing) =
      c.links.countP (fun l => l.operator ∈ level) + if .minus ∈ level then
        sign c.first + (c.links.map fun l => sign l.operand).sum else 0 := by
    rw [text_eq, row, Row.text_signedItems_append, operatorCount_append, operatorCount_append,
      operatorCount_spaces, operatorCount_operand level h.first,
      operatorCount_linkRow level trailing h.links]
    split <;> omega
  have hnegative : negativeCount (c.text trailing) =
      sign c.first + (c.links.map fun l => sign l.operand).sum := by
    rw [text_eq, row, Row.text_signedItems_append, List.replicate_zero, List.nil_append,
      ← negativeCountFrom_linkRow trailing h.links]
    rcases h.first.unsigned_or_negative with hw | ⟨d, hx, hd⟩
    · obtain ⟨a, r, he, -, hc⟩ := (isWord_of_unsigned hw).head
      rw [negativeCount_word_append (isWord_of_unsigned hw)]
      simp [sign, he, ne_minus_of_not_operator hc]
    · rw [hx, List.cons_append, negativeCount_minus_append (.inl hd) hstops]
      simp [sign, Nat.add_comm]
  have hzero : c.links.countP (fun l => l.operator ∈ level) = 0 ↔
      ∀ l ∈ c.links, l.operator ∉ level := by
    simp [List.countP_eq_zero]
  rw [IsSettled, hcount, hnegative, ← hzero]
  by_cases hm : Operator.minus ∈ level
  · simp only [hm, if_true, true_and]
    omega
  · simp [hm]

theorem doubleNegated?_text {c : Chain} (h : c.Fits) (trailing : Nat) :
    doubleNegated? (c.text trailing) = none := by
  rw [Option.eq_none_iff_forall_ne_some]
  intro w hw
  obtain ⟨-, n, he⟩ := doubleNegated?_eq_some_iff.1 hw
  rw [text] at he
  rcases h.first.unsigned_or_negative with hu | ⟨d, hx, hd⟩
  · obtain ⟨a, r, hx, -, ha⟩ := (isWord_of_unsigned hu).head
    rw [hx, List.cons_append] at he
    exact ne_minus_of_not_operator ha (List.cons.inj he).1
  · obtain ⟨a, r, rfl, ha⟩ := hd.head
    rw [hx, List.cons_append, List.cons_append] at he
    have he := (List.cons.inj he).2
    cases n with
    | zero =>
      obtain ⟨rfl, -⟩ := List.cons.inj he
      exact absurd ha (by decide)
    | succ n =>
      rw [List.replicate_succ, List.cons_append] at he
      obtain ⟨rfl, -⟩ := List.cons.inj he
      exact absurd ha (by decide)

theorem settle_text {c : Chain} (h : c.Fits) (trailing : Nat) (contracted : Bool) :
    settle level contracted (c.text trailing) =
      if IsSettled level (c.text trailing) then .ok (.finished (c.text trailing))
      else if contracted then .ok (.ongoing (c.text trailing))
      else .error .operatorPlacement :=
  settle_of_plain contracted fun _ => doubleNegated?_text h trailing

/-- A reduction of a chain's text carries out the operations of the level from left to right. -/
theorem reduce_text {c : Chain} (h : c.Fits) (trailing : Nat)
    (hf : ∀ d ∈ contractions level c.first c.links, ∀ v, d.outcome = .ok v →
      Binary64.isFinite v = true) :
    reduce level (c.text trailing) = (c.contract level).map (text trailing) := by
  induction hn : c.links.length using Nat.strongRecOn generalizing c with
  | ind n ih =>
    have hround := @Row.round_text level c.row trailing h.valid
    have hsite := @Row.site?_signedItems_append level c.first h.first (linkRow c.links)
    have hstep := @operandSite?_linkRow level 0 c.first c.links h.links
    rw [← text_eq, row, hsite] at hround
    cases hs : step? level c.first c.links with
    | none =>
      have hlinks := step?_eq_none hs
      simp only [hs] at hstep
      rw [reduce_eq, hround, hstep]
      simp only [settle_text h, if_pos ((isSettled_iff h trailing).2 hlinks), contract,
        contractLinks_of_not_mem hlinks, Except.map]
    | some found =>
      obtain ⟨d, next⟩ := found
      obtain ⟨hcontract, hcontractions, hlength⟩ := step?_eq_some hs
      simp only [hs] at hstep
      obtain ⟨s, hfound, hout, hrep⟩ := hstep
      simp only [hfound, hout] at hround
      rw [reduce_eq, hround, contract, hcontract]
      cases hd : d.outcome with
      | error fault => rfl
      | ok v =>
        have hfinite : Binary64.isFinite v = true := hf d (by simp [hcontractions]) v hd
        have hfits := (Fits.step? h hs).2.2 v hfinite
        have htext : Row.text trailing (s.replace v) = (next v).text trailing := by
          rw [hrep v, text_eq, row]
        have hih := ih (next v).links.length (hn ▸ hlength v) hfits (by
          intro e he
          exact hf e (by simp [hcontractions, hd, he])) rfl
        simp only [htext, settle_text hfits, if_true]
        by_cases hsettled : IsSettled level ((next v).text trailing)
        · have hself := contractLinks_of_not_mem ((isSettled_iff hfits trailing).1 hsettled)
            (next v).first
          simp only [if_pos hsettled, contract, hself, Except.map]
        · simp only [if_neg hsettled]
          exact hih

/-- Where every result is finite, a level leaves a chain of operands or divides by zero on the way. -/
theorem contractLinks_cases {x : Text} {links : List Link} (h : Fits ⟨x, links⟩)
    (hf : ∀ d ∈ contractions level x links, ∀ v, d.outcome = .ok v → Binary64.isFinite v = true) :
    (∃ c, contractLinks level x links = .ok c ∧ c.Fits ∧
      ∀ d ∈ contractions level x links, ∃ v, d.outcome = .ok v) ∨
    (contractLinks level x links = .error .divisionByZero ∧
      ∃ d ∈ contractions level x links, d.outcome = .error .divisionByZero) := by
  induction links generalizing x with
  | nil => exact .inl ⟨⟨x, []⟩, rfl, h, by simp [contractions]⟩
  | cons l links ih =>
    have hrest : Fits ⟨l.operand, links⟩ :=
      ⟨h.links l (by simp), fun m hm => h.links m (List.mem_cons_of_mem l hm)⟩
    by_cases hm : l.operator ∈ level
    · simp only [contractions, contractLinks, if_pos hm] at hf ⊢
      cases hc : calculate x l.operator l.operand with
      | error fault =>
        obtain ⟨rfl, -⟩ := calculate_error h.first hrest.first hc
        exact .inr ⟨rfl, ⟨x, l.operator, l.operand⟩, by simp, hc⟩
      | ok v =>
        simp only [hc] at hf
        have hfinite := hf ⟨x, l.operator, l.operand⟩ (by simp) v hc
        have hnext : Fits ⟨render v, links⟩ :=
          ⟨.inl (isSigned_render_of_isFinite hfinite), hrest.links⟩
        cases ih hnext fun d hd => hf d (List.mem_cons_of_mem _ hd) with
        | inl hok =>
          obtain ⟨c, hcontract, hfits, hall⟩ := hok
          refine .inl ⟨c, hcontract, hfits, ?_⟩
          intro d hd
          cases List.mem_cons.1 hd with
          | inl he => exact ⟨v, he ▸ hc⟩
          | inr hd => exact hall d hd
        | inr herror =>
          obtain ⟨hcontract, d, hd, hout⟩ := herror
          exact .inr ⟨hcontract, d, List.mem_cons_of_mem _ hd, hout⟩
    · simp only [contractions, contractLinks, if_neg hm] at hf ⊢
      cases ih hrest hf with
      | inl hok =>
        obtain ⟨c, hcontract, hfits, hall⟩ := hok
        refine .inl ⟨⟨x, { l with operand := c.first } :: c.links⟩, by rw [hcontract],
          ⟨h.first, ?_⟩, hall⟩
        intro m hmem
        cases List.mem_cons.1 hmem with
        | inl he => exact he ▸ hfits.first
        | inr hmem => exact hfits.links m hmem
      | inr herror =>
        obtain ⟨hcontract, hdivides⟩ := herror
        exact .inr ⟨by rw [hcontract], hdivides⟩

/-- A level takes its own operators and leaves the others in their order, with the spaces around
them. -/
theorem joints_of_contractLinks {x : Text} {links : List Link} {c : Chain}
    (h : contractLinks level x links = .ok c) :
    c.links.map Link.joint = (links.filter (·.operator ∉ level)).map Link.joint := by
  induction links generalizing x c with
  | nil =>
    obtain rfl : ⟨x, []⟩ = c := by simpa [contractLinks] using h
    rfl
  | cons l links ih =>
    rw [contractLinks] at h
    by_cases hm : l.operator ∈ level
    · rw [if_pos hm] at h
      cases hc : calculate x l.operator l.operand with
      | error fault => simp [hc] at h
      | ok v => simpa [hm] using ih (by simpa [hc] using h)
    · rw [if_neg hm] at h
      cases hc : contractLinks level l.operand links with
      | error fault => simp [hc] at h
      | ok d =>
        obtain rfl : ⟨x, { l with operand := d.first } :: d.links⟩ = c := by simpa [hc] using h
        simpa [hm, Link.joint] using ih hc

theorem operator_of_contractLinks {x : Text} {links : List Link} {c : Chain}
    (h : contractLinks level x links = .ok c) :
    ∀ m ∈ c.links, m.operator ∉ level ∧ ∃ l ∈ links, l.operator = m.operator := by
  intro m hm
  have hjoint : m.joint ∈ (links.filter (·.operator ∉ level)).map Link.joint :=
    joints_of_contractLinks h ▸ List.mem_map_of_mem hm
  obtain ⟨l, hl, he⟩ := List.mem_map.1 hjoint
  obtain ⟨hl, hn⟩ := List.mem_filter.1 hl
  have hop : l.operator = m.operator := congrArg (fun j => j.2.1) he
  exact ⟨hop ▸ of_decide_eq_true hn, l, hl, hop⟩

/-- On a chain whose results are finite, a reduction carries out the operations of its level, leaves
the other operators as they stand, and fails just where an operation divides by zero. -/
theorem reduce_contracts {level : Level} {c : Chain} (h : c.Fits) (trailing : Nat)
    (hf : ∀ d ∈ contractions level c.first c.links, ∀ v, d.outcome = .ok v →
      Binary64.isFinite v = true) :
    reduce level (c.text trailing) = (c.contract level).map (text trailing) ∧
      (∀ d, c.contract level = .ok d →
        d.links.map Link.joint = (c.links.filter (·.operator ∉ level)).map Link.joint) ∧
      ∀ fault, reduce level (c.text trailing) = .error fault ↔ fault = .divisionByZero ∧
        ∃ d ∈ contractions level c.first c.links, d.outcome = .error fault := by
  have htext := reduce_text h trailing hf
  refine ⟨htext, fun d hd => joints_of_contractLinks hd, fun fault => ?_⟩
  rw [htext]
  unfold contract
  rcases contractLinks_cases h hf with ⟨d, hd, -, hall⟩ | ⟨he, hdivides⟩
  · rw [hd]
    constructor
    · rintro ⟨⟩
    · rintro ⟨-, e, hmem, hout⟩
      obtain ⟨v, hv⟩ := hall e hmem
      rw [hout] at hv
      cases hv
  · rw [he]
    constructor
    · rintro ⟨⟩
      exact ⟨rfl, hdivides⟩
    · rintro ⟨rfl, -⟩
      rfl

theorem reduce_contracts_differences :
    reduce [.minus] "3 - 5 + 4-8 * 5 ".toList = .ok "-2 + -4 * 5 ".toList := by
  let c : Chain := ⟨"3".toList, [⟨1, .minus, 1, "5".toList⟩, ⟨1, .plus, 1, "4".toList⟩,
    ⟨0, .minus, 0, "8".toList⟩, ⟨1, .times, 1, "5".toList⟩]⟩
  have hoperands : (c.first :: c.links.map Link.operand).all (covers signed?) = true := by decide
  have hfits : c.Fits := by
    rw [List.all_eq_true] at hoperands
    refine ⟨(covers_signed?_iff _).1 (hoperands _ (by simp)), fun l hl => ?_⟩
    exact (covers_signed?_iff _).1 (hoperands _ (List.mem_cons_of_mem _ (List.mem_map_of_mem hl)))
  have hall : (contractions [.minus] c.first c.links).all (fun d => match d.outcome with
      | .ok v => Binary64.isFinite v
      | .error _ => false) = true := by decide +kernel
  have hvalue : ((c.contract [.minus]).map (text 1)).toOption = some "-2 + -4 * 5 ".toList := by
    decide +kernel
  obtain ⟨hreduce, -⟩ := reduce_contracts hfits 1 fun d hd v hv => by
    simpa [hv] using List.all_eq_true.1 hall d hd
  cases hc : c.contract [.minus] with
  | error fault => simp [hc, Except.map, Except.toOption] at hvalue
  | ok d =>
    have htext : c.text 1 = "3 - 5 + 4-8 * 5 ".toList := by decide +kernel
    rw [hc] at hvalue hreduce
    rw [← htext, hreduce]
    exact congrArg Except.ok (Option.some.inj hvalue)

/-- The value of a chain, as text: every level is contracted in its turn. -/
def value (c : Chain) : Except Fault Text :=
  match c.contract Operator.multiplicative with
  | .error fault => .error fault
  | .ok d => (d.contract Operator.additive).map first

def operations (c : Chain) : List Contraction :=
  contractions Operator.multiplicative c.first c.links ++
    match c.contract Operator.multiplicative with
    | .error _ => []
    | .ok d => contractions Operator.additive d.first d.links

/-- A chain whose results are finite has a value, unless one of its operations divides by zero. -/
theorem value_cases {c : Chain} (h : c.Fits)
    (hf : ∀ d ∈ c.operations, ∀ v, d.outcome = .ok v → Binary64.isFinite v = true) :
    (∃ t, c.value = .ok t ∧ IsOperand t ∧ ∀ d ∈ c.operations, ∃ v, d.outcome = .ok v) ∨
    (c.value = .error .divisionByZero ∧
      ∃ d ∈ c.operations, d.outcome = .error .divisionByZero) := by
  unfold operations value contract at *
  cases contractLinks_cases h fun d hd => hf d (List.mem_append_left _ hd) with
  | inr herror =>
    obtain ⟨hcontract, d, hd, hout⟩ := herror
    exact .inr ⟨by rw [hcontract], d, List.mem_append_left _ hd, hout⟩
  | inl hok =>
    obtain ⟨m, hcontract, hfits, hall⟩ := hok
    simp only [hcontract] at hf ⊢
    cases contractLinks_cases hfits fun d hd => hf d (List.mem_append_right _ hd) with
    | inr herror =>
      obtain ⟨hadd, d, hd, hout⟩ := herror
      exact .inr ⟨by rw [hadd]; rfl, d, List.mem_append_right _ hd, hout⟩
    | inl hok =>
      obtain ⟨a, hadd, hfirst, hrest⟩ := hok
      refine .inl ⟨a.first, by rw [hadd]; rfl, hfirst.first, ?_⟩
      intro d hd
      cases List.mem_append.1 hd with
      | inl hd => exact hall d hd
      | inr hd => exact hrest d hd

theorem trim_operand (n : Nat) {t : Text} (h : IsOperand t) :
    Text.trim (t ++ List.replicate n ' ') = t := by
  rcases Row.isWord_of_isOperand h with hw | ⟨w, rfl, hw⟩
  · exact trim_word 0 n hw
  · exact trim_minus_word n hw

theorem isResult_operand {t : Text} (h : IsOperand t) : isResult t = true := by
  rcases h.unsigned_or_negative with hw | ⟨d, rfl, hd⟩
  · exact isResult_of_unsigned hw
  · exact isResult_minus (.inl hd)

/-- An expression without parentheses has the value of its chain. -/
theorem evaluateFlat_text {c : Chain} (h : c.Fits) (trailing : Nat)
    (hf : ∀ d ∈ c.operations, ∀ v, d.outcome = .ok v → Binary64.isFinite v = true) :
    evaluateFlat (c.text trailing) = c.value := by
  have hmult := reduce_text h trailing fun d hd => hf d (List.mem_append_left _ hd)
  have hcases := contractLinks_cases h fun d hd => hf d (List.mem_append_left _ hd)
  rw [evaluateFlat, reduceAll_eq, hmult]
  unfold value contract at *
  cases hcases with
  | inr herror =>
    simp only [herror.1, Except.map]
  | inl hok =>
    obtain ⟨m, hcontract, hfits, -⟩ := hok
    have hops : ∀ d ∈ contractions Operator.additive m.first m.links, ∀ v,
        d.outcome = .ok v → Binary64.isFinite v = true := by
      intro d hd
      apply hf d
      simp only [operations, contract, hcontract]
      exact List.mem_append_right _ hd
    have hadd := reduce_text hfits trailing hops
    simp only [hcontract, Except.map, hadd, contract]
    cases contractLinks_cases hfits hops with
    | inr herror => simp only [herror.1]
    | inl hok =>
      obtain ⟨a, hcontract', hfirst, -⟩ := hok
      have hnone : a.links = [] := by
        rw [List.eq_nil_iff_forall_not_mem]
        intro l hl
        obtain ⟨hadditive, k, hk, hop⟩ := operator_of_contractLinks hcontract' l hl
        have hmultiplicative := (operator_of_contractLinks hcontract k hk).1
        rw [hop] at hmultiplicative
        cases ho : l.operator <;> rw [ho] at hadditive hmultiplicative <;>
          simp [Operator.additive, Operator.multiplicative] at hadditive hmultiplicative
      have htrim : Text.trim (a.text trailing) = a.first := by
        rw [text, hnone]
        exact trim_operand trailing hfirst.first
      simp only [hcontract', htrim, isResult_operand hfirst.first, Bool.or_true, if_true]

end Chain

end Reckoner
