import Reckoner.Proofs.Chains
import Reckoner.Proofs.Groups

/-!
# Expressions as trees

A term is a literal, a variable or a group, and what is done to a term is a list of operators, each
with a term behind it. A tree has a text, in which the spaces are part of the tree, and a value,
which is that of its chain of operations once the groups in it have theirs. Closing the groups in
the text of a tree leaves the text of its chain.
-/

namespace Reckoner

open Literal

mutual

inductive Term where
  | literal (t : Text) (fits : IsOperand t)
  | letter (name : Char)
  | group (first : Term) (operations : Operations) (trailing : Nat)

inductive Operations where
  | nil
  | cons (before : Nat) (operator : Operator) (after : Nat) (operand : Term) (rest : Operations)

end

mutual

/-- The text of a term in which `values` stand for the variables. -/
def Term.text (values : Char → Text) : Term → Text
  | .literal t _ => t
  | .letter name => values name
  | .group first operations trailing =>
    '(' :: (first.text values ++ (operations.text values ++ (List.replicate trailing ' ' ++ [')'])))

def Operations.text (values : Char → Text) : Operations → Text
  | .nil => []
  | .cons before operator after operand rest =>
    List.replicate before ' ' ++ operator.symbol ::
      (List.replicate after ' ' ++ (operand.text values ++ rest.text values))

end

mutual

def Term.names : Term → List Char
  | .literal _ _ => []
  | .letter name => [name]
  | .group first operations _ => first.names ++ operations.names

def Operations.names : Operations → List Char
  | .nil => []
  | .cons _ _ _ operand rest => operand.names ++ rest.names

end

mutual

def Term.value (values : Char → Text) : Term → Except Fault Text
  | .literal t _ => .ok t
  | .letter name => .ok (values name)
  | .group first operations _ =>
    match first.value values, operations.links values with
    | .ok x, .ok links => Chain.value ⟨x, links⟩
    | .error fault, _ => .error fault
    | .ok _, .error fault => .error fault

/-- The links that operations leave once their operands have values. -/
def Operations.links (values : Char → Text) : Operations → Except Fault (List Link)
  | .nil => .ok []
  | .cons before operator after operand rest =>
    match operand.value values, rest.links values with
    | .ok y, .ok links => .ok (⟨before, operator, after, y⟩ :: links)
    | .error fault, _ => .error fault
    | .ok _, .error fault => .error fault

end

mutual

/-- The contractions that give a term its value. -/
def Term.contractions (values : Char → Text) : Term → List Contraction
  | .literal _ _ => []
  | .letter _ => []
  | .group first operations _ =>
    first.contractions values ++ (operations.contractions values ++
      match first.value values, operations.links values with
      | .ok x, .ok links => Chain.operations ⟨x, links⟩
      | _, _ => [])

def Operations.contractions (values : Char → Text) : Operations → List Contraction
  | .nil => []
  | .cons _ _ _ operand rest => operand.contractions values ++ rest.contractions values

end

structure Expression where
  first : Term
  operations : Operations
  trailing : Nat

namespace Expression

def group (e : Expression) : Term := .group e.first e.operations e.trailing

def textWith (values : Char → Text) (e : Expression) : Text :=
  e.first.text values ++ (e.operations.text values ++ List.replicate e.trailing ' ')

def text (e : Expression) : Text := e.textWith fun name => [name]

def names (e : Expression) : List Char := e.group.names

def value (values : Char → Text) (e : Expression) : Except Fault Text := e.group.value values

def contractions (values : Char → Text) (e : Expression) : List Contraction :=
  e.group.contractions values

end Expression

section Substitution

variable {values : Char → Text} (h : ∀ c, c.isAlpha = false → values c = [c])
include h

theorem flatMap_of_not_letter {t : Text} (ht : ∀ c ∈ t, c.isAlpha = false) :
    t.flatMap values = t := by
  induction t with
  | nil => rfl
  | cons c t ih =>
    rw [List.flatMap_cons, h c (ht c (by simp)), ih fun a ha => ht a (by simp [ha])]
    rfl

theorem flatMap_spaces (n : Nat) :
    (List.replicate n ' ').flatMap values = List.replicate n ' ' := by
  apply flatMap_of_not_letter h
  intro c hc
  obtain ⟨-, rfl⟩ := List.mem_replicate.1 hc
  decide

mutual

/-- Replacing the variables in the text of a term gives the term's text with their values. -/
theorem Term.flatMap_text (t : Term) :
    (t.text fun name => [name]).flatMap values = t.text values := by
  cases t with
  | literal t fits => exact flatMap_of_not_letter h (fits.not_letter)
  | letter name => simp [Term.text]
  | group first operations trailing =>
    have hfirst := Term.flatMap_text first
    have hoperations := Operations.flatMap_text operations
    have hopen : values '(' = ['('] := h '(' (by decide)
    have hclose : values ')' = [')'] := h ')' (by decide)
    simp [Term.text, hfirst, hoperations, flatMap_spaces h, hopen, hclose]

theorem Operations.flatMap_text (operations : Operations) :
    (operations.text fun name => [name]).flatMap values = operations.text values := by
  cases operations with
  | nil => rfl
  | cons before operator after operand rest =>
    have hoperand := Term.flatMap_text operand
    have hrest := Operations.flatMap_text rest
    have hsymbol : values operator.symbol = [operator.symbol] :=
      h _ (by cases operator <;> decide)
    simp [Operations.text, hoperand, hrest, flatMap_spaces h, hsymbol]

end

theorem Expression.flatMap_text (e : Expression) : e.text.flatMap values = e.textWith values := by
  have hfirst := Term.flatMap_text h e.first
  have hoperations := Operations.flatMap_text h e.operations
  simp [Expression.text, Expression.textWith, hfirst, hoperations, flatMap_spaces h]

end Substitution

theorem IsOperand.paren_not_mem {t : Text} (h : IsOperand t) : '(' ∉ t ∧ ')' ∉ t := by
  have hw := Group.mem_isSigned (Row.isWord_of_isOperand h)
  constructor
  · intro hm
    exact (hw '(' hm).elim (by decide) (by decide)
  · intro hm
    exact (hw ')' hm).elim (by decide) (by decide)

theorem Chain.paren_not_mem {c : Chain} (h : c.Fits) (trailing : Nat) : ')' ∉ c.text trailing := by
  have hspaces : ∀ n, ')' ∉ List.replicate n ' ' := by
    intro n hm
    exact absurd (List.mem_replicate.1 hm).2 (by decide)
  have hlinks : ')' ∉ c.links.flatMap Link.text := by
    intro hm
    obtain ⟨l, hl, hm⟩ := List.mem_flatMap.1 hm
    have hsymbol : ')' ≠ l.operator.symbol := by cases l.operator <;> decide
    simp only [Link.text, List.mem_append, List.mem_cons] at hm
    rcases hm with hm | hm | hm | hm
    · exact hspaces _ hm
    · exact hsymbol hm
    · exact hspaces _ hm
    · exact (IsOperand.paren_not_mem (h.links l hl)).2 hm
  simp only [Chain.text, List.mem_append, not_or]
  exact ⟨(IsOperand.paren_not_mem h.first).2, hlinks, hspaces trailing⟩

section Closing

open Reckoner.Group

variable {values : Char → Text}

/-- What becomes of a term when the groups in its text are closed: its value, or a division by
zero. -/
def Term.Closes (values : Char → Text) (t : Term) : Prop :=
  (∃ x, t.value values = .ok x ∧ IsOperand x ∧
    (∀ d ∈ t.contractions values, ∃ v, d.outcome = .ok v) ∧
    ∀ closed, closeOnto (t.text values) closed = .ok (x ++ closed)) ∨
  t.value values = .error .divisionByZero ∧
    (∃ d ∈ t.contractions values, d.outcome = .error .divisionByZero) ∧
    ∀ closed, closeOnto (t.text values) closed = .error .divisionByZero

def Operations.Closes (values : Char → Text) (operations : Operations) : Prop :=
  (∃ links, operations.links values = .ok links ∧ (∀ l ∈ links, IsOperand l.operand) ∧
    (∀ d ∈ operations.contractions values, ∃ v, d.outcome = .ok v) ∧
    ∀ closed, closeOnto (operations.text values) closed =
      .ok (links.flatMap Link.text ++ closed)) ∨
  operations.links values = .error .divisionByZero ∧
    (∃ d ∈ operations.contractions values, d.outcome = .error .divisionByZero) ∧
    ∀ closed, closeOnto (operations.text values) closed = .error .divisionByZero

/-- A group is closed from its end: the operations, then the first operand, then the group. -/
theorem Term.closeOnto_text_group (first : Term) (operations : Operations) (trailing : Nat)
    (closed : Text) :
    closeOnto ((Term.group first operations trailing).text values) closed =
      (((closeOnto (operations.text values)
        (List.replicate trailing ' ' ++ ')' :: closed)).bind
          (closeOnto (first.text values))).bind (extend '(')) := by
  have htail : closeOnto (List.replicate trailing ' ' ++ [')']) closed =
      .ok (List.replicate trailing ' ' ++ ')' :: closed) := by
    rw [closeOnto_spaces_append]
    rfl
  rw [Term.text, closeOnto_cons, closeOnto_append, closeOnto_append, htail]
  rfl

section Groups

variable {first : Term} {operations : Operations} {trailing : Nat} {x : Text} {links : List Link}
variable (hvalue : first.value values = .ok x) (hlinks : operations.links values = .ok links)
include hvalue hlinks

/-- A group's contractions are those of its parts and of the chain that the parts leave. -/
theorem Term.contractions_group : (Term.group first operations trailing).contractions values =
    first.contractions values ++
      (operations.contractions values ++ Chain.operations ⟨x, links⟩) := by
  simp [Term.contractions, hvalue, hlinks]

variable (hfits : Chain.Fits ⟨x, links⟩)
  (hfirst : ∀ d ∈ first.contractions values, ∃ v, d.outcome = .ok v)
  (hoperations : ∀ d ∈ operations.contractions values, ∃ v, d.outcome = .ok v)
  (hfinite : ∀ d ∈ Chain.operations ⟨x, links⟩, ∀ v, d.outcome = .ok v →
    Binary64.isFinite v = true)
include hfits hfirst hoperations hfinite

/-- A group whose parts leave a chain has the chain's value, or divides by zero as the chain. -/
theorem Term.value_group_cases :
    (∃ r, (Term.group first operations trailing).value values = .ok r ∧
      Chain.value ⟨x, links⟩ = .ok r ∧ IsOperand r ∧
      ∀ d ∈ (Term.group first operations trailing).contractions values, ∃ v, d.outcome = .ok v) ∨
    (Term.group first operations trailing).value values = .error .divisionByZero ∧
      Chain.value ⟨x, links⟩ = .error .divisionByZero ∧
      ∃ d ∈ (Term.group first operations trailing).contractions values,
        d.outcome = .error .divisionByZero := by
  have hgroup : (Term.group first operations trailing).value values = Chain.value ⟨x, links⟩ := by
    simp [Term.value, hvalue, hlinks]
  rw [hgroup, Term.contractions_group hvalue hlinks]
  cases Chain.value_cases hfits hfinite with
  | inl hok =>
    obtain ⟨r, hr, hoperand, hops⟩ := hok
    refine .inl ⟨r, hr, hr, hoperand, fun d hd => ?_⟩
    simp only [List.mem_append] at hd
    rcases hd with hd | hd | hd
    · exact hfirst d hd
    · exact hoperations d hd
    · exact hops d hd
  | inr herror =>
    obtain ⟨hr, d, hd, hout⟩ := herror
    exact .inr ⟨hr, hr, d, by simp [hd], hout⟩

/-- A group whose parts close to a chain closes to the chain's value. -/
theorem Term.closes_group_of_chain
    (hcloseFirst : ∀ closed, closeOnto (first.text values) closed = .ok (x ++ closed))
    (hclose : ∀ closed, closeOnto (operations.text values) closed =
      .ok (links.flatMap Link.text ++ closed)) :
    (Term.group first operations trailing).Closes values := by
  have hgroup : ∀ closed,
      closeOnto ((Term.group first operations trailing).text values) closed =
        (Chain.value ⟨x, links⟩).map (· ++ closed) := by
    intro closed
    have hchain : x ++ (links.flatMap Link.text ++
        (List.replicate trailing ' ' ++ ')' :: closed)) =
          Chain.text trailing ⟨x, links⟩ ++ ')' :: closed := by
      simp [Chain.text]
    rw [Term.closeOnto_text_group, hclose]
    simp only [Except.bind, hcloseFirst]
    rw [hchain, extend_opening (Chain.paren_not_mem hfits trailing),
      Chain.evaluateFlat_text hfits trailing hfinite]
  rcases Term.value_group_cases hvalue hlinks hfits hfirst hoperations hfinite with
    ⟨r, hr, hchain, hoperand, hall⟩ | ⟨hr, hchain, hd⟩
  · exact .inl ⟨r, hr, hoperand, hall, fun closed => by rw [hgroup, hchain]; rfl⟩
  · exact .inr ⟨hr, hd, fun closed => by rw [hgroup, hchain]; rfl⟩

end Groups

/-- A group closes when its parts do: the parts leave a chain, and the chain has a value. -/
theorem Term.closes_group {first : Term} {operations : Operations} {trailing : Nat}
    (hfirst : first.Closes values) (hoperations : operations.Closes values)
    (hf : ∀ d ∈ (Term.group first operations trailing).contractions values, ∀ v,
      d.outcome = .ok v → Binary64.isFinite v = true) :
    (Term.group first operations trailing).Closes values := by
  cases hoperations with
  | inr herror =>
    obtain ⟨hlinks, ⟨d, hd, hout⟩, hclose⟩ := herror
    refine .inr ⟨?_, ⟨d, ?_, hout⟩, ?_⟩
    · cases hfirst with
      | inl hok =>
        obtain ⟨x, hx, -⟩ := hok
        simp [Term.value, hx, hlinks]
      | inr herror => simp [Term.value, herror.1]
    · simp [Term.contractions, hd]
    · intro closed
      rw [Term.closeOnto_text_group, hclose]
      rfl
  | inl hok =>
    obtain ⟨links, hlinks, hoperands, hall, hclose⟩ := hok
    cases hfirst with
    | inr herror =>
      obtain ⟨hvalue, ⟨d, hd, hout⟩, hcloseFirst⟩ := herror
      refine .inr ⟨by simp [Term.value, hvalue], ⟨d, by simp [Term.contractions, hd], hout⟩, ?_⟩
      intro closed
      rw [Term.closeOnto_text_group, hclose]
      simp only [Except.bind, hcloseFirst]
    | inl hok =>
      obtain ⟨x, hvalue, hx, hallFirst, hcloseFirst⟩ := hok
      refine Term.closes_group_of_chain hvalue hlinks ⟨hx, hoperands⟩ hallFirst hall
        (fun d hd => hf d ?_) hcloseFirst hclose
      simp [Term.contractions_group hvalue hlinks, hd]

/-- Operations are closed from their end, too: the rest, then the operand. -/
theorem Operations.closeOnto_text_cons (before : Nat) (operator : Operator) (after : Nat)
    (operand : Term) (rest : Operations) (closed : Text) :
    closeOnto ((Operations.cons before operator after operand rest).text values) closed =
      ((closeOnto (rest.text values) closed).bind (closeOnto (operand.text values))).map fun u =>
        List.replicate before ' ' ++ operator.symbol :: (List.replicate after ' ' ++ u) := by
  have hsymbol : operator.symbol ≠ '(' := by cases operator <;> decide
  rw [Operations.text, closeOnto_spaces_append, closeOnto_cons, closeOnto_spaces_append,
    closeOnto_append]
  cases (closeOnto (rest.text values) closed).bind (closeOnto (operand.text values)) with
  | error fault => rfl
  | ok u => simp [Except.map, Except.bind, extend_of_ne hsymbol]

/-- Operations close when their parts do. -/
theorem Operations.closes_cons {before after : Nat} {operator : Operator} {operand : Term}
    {rest : Operations} (hoperand : operand.Closes values) (hrest : rest.Closes values) :
    (Operations.cons before operator after operand rest).Closes values := by
  cases hrest with
  | inr herror =>
    obtain ⟨hlinks, ⟨d, hd, hout⟩, hclose⟩ := herror
    refine .inr ⟨?_, ⟨d, by simp [Operations.contractions, hd], hout⟩, ?_⟩
    · cases hoperand with
      | inl hok =>
        obtain ⟨y, hy, -⟩ := hok
        simp [Operations.links, hy, hlinks]
      | inr herror => simp [Operations.links, herror.1]
    · intro closed
      rw [closeOnto_text_cons, hclose]
      rfl
  | inl hok =>
    obtain ⟨links, hlinks, hoperands, hall, hclose⟩ := hok
    cases hoperand with
    | inr herror =>
      obtain ⟨hvalue, ⟨d, hd, hout⟩, hcloseOperand⟩ := herror
      refine .inr ⟨by simp [Operations.links, hvalue],
        ⟨d, by simp [Operations.contractions, hd], hout⟩, ?_⟩
      intro closed
      rw [closeOnto_text_cons, hclose]
      simp only [Except.bind, hcloseOperand, Except.map]
    | inl hok =>
      obtain ⟨y, hvalue, hy, hallOperand, hcloseOperand⟩ := hok
      refine .inl ⟨⟨before, operator, after, y⟩ :: links, ?_, ?_, ?_, ?_⟩
      · simp [Operations.links, hvalue, hlinks]
      · intro l hl
        cases List.mem_cons.1 hl with
        | inl he => exact he ▸ hy
        | inr hl => exact hoperands l hl
      · intro d hd
        simp only [Operations.contractions, List.mem_append] at hd
        cases hd with
        | inl hd => exact hallOperand d hd
        | inr hd => exact hall d hd
      · intro closed
        rw [closeOnto_text_cons, hclose]
        simp only [Except.bind, hcloseOperand, Except.map]
        simp [Link.text]

mutual

theorem Term.closes (t : Term) (hv : ∀ c ∈ t.names, IsSigned IsDecimal (values c))
    (hf : ∀ d ∈ t.contractions values, ∀ v, d.outcome = .ok v → Binary64.isFinite v = true) :
    t.Closes values := by
  have hoperand : ∀ {x}, IsOperand x → ∀ closed, closeOnto x closed = .ok (x ++ closed) :=
    fun hx closed => closeOnto_of_not_mem (IsOperand.paren_not_mem hx).1 closed
  cases t with
  | literal x fits => exact .inl ⟨x, rfl, fits, by simp [Term.contractions], hoperand fits⟩
  | letter name =>
    have hx : IsOperand (values name) := .inl (hv name (by simp [Term.names]))
    exact .inl ⟨values name, rfl, hx, by simp [Term.contractions], hoperand hx⟩
  | group first operations trailing =>
    have hfirst := Term.closes first
      (fun c hc => hv c (by simp [Term.names, hc]))
      (fun d hd => hf d (by simp [Term.contractions, hd]))
    have hoperations := Operations.closes operations
      (fun c hc => hv c (by simp [Term.names, hc]))
      (fun d hd => hf d (by simp [Term.contractions, hd]))
    exact Term.closes_group hfirst hoperations hf

theorem Operations.closes (operations : Operations)
    (hv : ∀ c ∈ operations.names, IsSigned IsDecimal (values c))
    (hf : ∀ d ∈ operations.contractions values, ∀ v, d.outcome = .ok v →
      Binary64.isFinite v = true) :
    operations.Closes values := by
  cases operations with
  | nil => exact .inl ⟨[], rfl, by simp, by simp [Operations.contractions], fun closed => rfl⟩
  | cons before operator after operand rest =>
    have hoperand := Term.closes operand
      (fun c hc => hv c (by simp [Operations.names, hc]))
      (fun d hd => hf d (by simp [Operations.contractions, hd]))
    have hrest := Operations.closes rest
      (fun c hc => hv c (by simp [Operations.names, hc]))
      (fun d hd => hf d (by simp [Operations.contractions, hd]))
    exact Operations.closes_cons hoperand hrest

end

end Closing

end Reckoner
