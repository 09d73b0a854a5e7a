import Reckoner.Proofs.Orderly
import Reckoner.Proofs.Outcomes
import Reckoner.Proofs.Variables

/-!
# The meaning of an expression

The text of a tree evaluates to the tree's value: it passes the checks, its variables are replaced,
its groups leave chains, and the chains are contracted from left to right, level by level.
-/

namespace Reckoner

open Literal
open Lexeme (list)

/-- What may stand for a variable: itself, where letters are allowed, or the text of its value. -/
def IsValueText (letters : Bool) (t : Text) : Prop :=
  letters = true ∧ (∃ c : Char, c.isAlpha = true ∧ t = [c]) ∨ IsSigned IsDecimal t

variable {letters : Bool}

theorem isAlpha_facts {c : Char} (h : c.isAlpha = true) :
    c.isDigit = false ∧ c ≠ '.' ∧ c ≠ ' ' ∧ Operator.ofChar? c = none := by
  have hdigit : c.isDigit = false := by
    rw [Bool.eq_false_iff]
    intro hd
    rw [isAlpha_eq_false_of_isDigit hd] at h
    exact absurd h (by decide)
  have hop : isOperatorChar c = false :=
    isOperatorChar_of_isWordChar (by simp [isWordChar, h])
  refine ⟨hdigit, ?_, ?_, by simpa [isOperatorChar] using hop⟩
  · rintro rfl
    exact absurd h (by decide)
  · rintro rfl
    exact absurd h (by decide)

theorem orderly_operand {t rest : Text} (ht : IsOperand t) (hs : Stops rest)
    (hr : Orderly letters true (list rest)) : Orderly letters false (list (t ++ rest)) := by
  rcases ht.unsigned_or_negative with hw | ⟨d, rfl, hd⟩
  · rw [Lexeme.list_unsigned_append (unsigned?_append hw hs)]
    exact .number hr
  · have hminus : unsigned? ('-' :: (d ++ rest)) = none :=
      unsigned?_of_stops (stops_symbol .minus _)
    rw [List.cons_append, Lexeme.list_char_cons hminus (by decide),
      Lexeme.list_unsigned_append (unsigned?_append (.inl hd) hs)]
    exact .negative hd hr

theorem orderly_value {t rest : Text} (ht : IsValueText letters t) (hs : Stops rest)
    (hr : Orderly letters true (list rest)) : Orderly letters false (list (t ++ rest)) := by
  rcases ht with ⟨hl, c, hc, rfl⟩ | ht
  · obtain ⟨hdigit, hpoint, hspace, hop⟩ := isAlpha_facts hc
    have hkind : Lexeme.Kind.ofChar c = .letter := by simp [Lexeme.Kind.ofChar, hop, hc]
    rw [List.singleton_append, Lexeme.list_char_cons
      (unsigned?_of_stops ((stops_cons c rest).2 ⟨hdigit, hpoint⟩)) hspace, hkind]
    exact .letter hl hr
  · exact orderly_operand (.inl ht) hs hr

theorem orderly_spaces (n : Nat) {t : Text} (hs : t.head? ≠ some ' ')
    (ht : Orderly letters true (list t)) :
    Orderly letters true (list (List.replicate n ' ' ++ t)) := by
  cases n with
  | zero => exact ht
  | succ n =>
    rw [Lexeme.list_spaces_append n hs]
    exact .space n ht

theorem orderly_symbol (op : Operator) (n : Nat) {t : Text} (hs : t.head? ≠ some ' ')
    (ht : Orderly letters false (list t)) :
    Orderly letters true (list (op.symbol :: (List.replicate n ' ' ++ t))) := by
  have hkind : Lexeme.Kind.ofChar op.symbol = .operator op := by simp [Lexeme.Kind.ofChar]
  rw [Lexeme.list_char_cons (unsigned?_of_stops (stops_symbol op _)) (symbol_facts op).2.2, hkind]
  cases n with
  | zero => exact .operator op ht
  | succ n =>
    rw [Lexeme.list_spaces_append n hs]
    exact .operatorSpace op n ht

theorem list_paren_cons {c : Char} {t : Text} (hc : c = '(' ∨ c = ')') :
    list (c :: t) = ⟨.ofChar c, [c]⟩ :: list t := by
  have hstops : Stops (c :: t) := by
    rw [stops_cons]
    rcases hc with rfl | rfl <;> decide
  have hspace : c ≠ ' ' := by rcases hc with rfl | rfl <;> decide
  exact Lexeme.list_char_cons (unsigned?_of_stops hstops) hspace

section Trees

variable {values : Char → Text}

theorem Term.head_ne_space {t : Term} (hv : ∀ c ∈ t.names, IsValueText letters (values c))
    (rest : Text) : (t.text values ++ rest).head? ≠ some ' ' := by
  have hsigned : ∀ {x}, IsOperand x → (x ++ rest).head? ≠ some ' ' := by
    intro x hx
    rcases Row.isWord_of_isOperand hx with hw | ⟨w, rfl, -⟩
    · obtain ⟨c, r, rfl, hc, -⟩ := hw.head
      simpa using hc
    · simp
  cases t with
  | literal x fits => exact hsigned fits
  | letter name =>
    rcases hv name (by simp [Term.names]) with ⟨-, c, hc, he⟩ | hx
    · simpa [Term.text, he] using (isAlpha_facts hc).2.2.1
    · exact hsigned (.inl hx)
  | group first operations trailing => simp [Term.text]

mutual

/-- The lexemes of a term's text are in order in front of anything that goes on behind an operand. -/
theorem Term.orderly (t : Term) (hv : ∀ c ∈ t.names, IsValueText letters (values c)) {rest : Text}
    (hs : Stops rest) (hr : Orderly letters true (list rest)) :
    Orderly letters false (list (t.text values ++ rest)) := by
  cases t with
  | literal x fits => exact orderly_operand fits hs hr
  | letter name => exact orderly_value (hv name (by simp [Term.names])) hs hr
  | group first operations trailing =>
    have hclose : Orderly letters true (list (')' :: rest)) := by
      rw [list_paren_cons (.inr rfl)]
      exact .closing hr
    have htail := orderly_spaces trailing (by simp) hclose
    have hstops : Stops (List.replicate trailing ' ' ++ ')' :: rest) :=
      stops_spaces trailing ((stops_cons _ _).2 (by decide))
    obtain ⟨h1, h2⟩ := Operations.orderly operations
      (fun c hc => hv c (by simp [Term.names, hc])) hstops htail
    have hfirst := Term.orderly first (fun c hc => hv c (by simp [Term.names, hc])) h1 h2
    have htext : (Term.group first operations trailing).text values ++ rest =
        '(' :: (first.text values ++ (operations.text values ++
          (List.replicate trailing ' ' ++ ')' :: rest))) := by
      simp [Term.text]
    rw [htext, list_paren_cons (.inl rfl)]
    exact .opening hfirst

theorem Operations.orderly (operations : Operations)
    (hv : ∀ c ∈ operations.names, IsValueText letters (values c)) {rest : Text}
    (hs : Stops rest) (hr : Orderly letters true (list rest)) :
    Stops (operations.text values ++ rest) ∧
      Orderly letters true (list (operations.text values ++ rest)) := by
  cases operations with
  | nil => exact ⟨hs, hr⟩
  | cons before operator after operand more =>
    obtain ⟨h1, h2⟩ := Operations.orderly more
      (fun c hc => hv c (by simp [Operations.names, hc])) hs hr
    have hnames : ∀ c ∈ operand.names, IsValueText letters (values c) :=
      fun c hc => hv c (by simp [Operations.names, hc])
    have hoperand := Term.orderly operand hnames h1 h2
    have hsymbol := orderly_symbol operator after (Term.head_ne_space hnames _) hoperand
    have htext : (Operations.cons before operator after operand more).text values ++ rest =
        List.replicate before ' ' ++ operator.symbol :: (List.replicate after ' ' ++
          (operand.text values ++ (more.text values ++ rest))) := by
      simp [Operations.text]
    rw [htext]
    refine ⟨stops_spaces before (stops_symbol _ _), ?_⟩
    exact orderly_spaces before (by simpa using (symbol_facts operator).2.2) hsymbol

end

theorem Expression.orderly (e : Expression)
    (hv : ∀ c ∈ e.names, IsValueText letters (values c)) :
    Orderly letters false (list (e.textWith values)) := by
  have htail : Orderly letters true (list (List.replicate e.trailing ' ')) := by
    have := @orderly_spaces letters e.trailing [] (by simp) .nil
    rwa [List.append_nil] at this
  have hstops : Stops (List.replicate e.trailing ' ') := by
    have := stops_spaces e.trailing stops_nil
    rwa [List.append_nil] at this
  obtain ⟨h1, h2⟩ := Operations.orderly e.operations
    (fun c hc => hv c (by simp [Expression.names, Expression.group, Term.names, hc])) hstops htail
  exact Term.orderly e.first
    (fun c hc => hv c (by simp [Expression.names, Expression.group, Term.names, hc])) h1 h2

/-- An expression is closed from its end: the operations, then the first operand. -/
theorem Expression.closeAll_textWith (e : Expression) :
    Group.closeAll (e.textWith values) =
      (Group.closeOnto (e.operations.text values) (List.replicate e.trailing ' ')).bind
        (Group.closeOnto (e.first.text values)) := by
  have hspaces : Group.closeOnto (List.replicate e.trailing ' ') [] =
      .ok (List.replicate e.trailing ' ') := by
    have := Group.closeOnto_spaces_append e.trailing [] []
    simpa [Except.map] using this
  rw [textWith, Group.closeAll_eq_closeOnto, Group.closeOnto_append, Group.closeOnto_append,
    hspaces]
  rfl

/-- The value of a tree's text once its variables are replaced is the tree's. -/
theorem Expression.value_textWith (e : Expression)
    (hv : ∀ c ∈ e.names, IsSigned IsDecimal (values c))
    (hf : ∀ d ∈ e.contractions values, ∀ v, d.outcome = .ok v → Binary64.isFinite v = true) :
    (∃ r, e.value values = .ok r ∧ (∀ d ∈ e.contractions values, ∃ v, d.outcome = .ok v) ∧
      ∃ flat, resolveGroups (e.textWith values) = .ok flat ∧ evaluateFlat flat = .ok r) ∨
    (∃ d ∈ e.contractions values, d.outcome = .error .divisionByZero) ∧
      (resolveGroups (e.textWith values) = .error .divisionByZero ∨
        ∃ flat, resolveGroups (e.textWith values) = .ok flat ∧
          evaluateFlat flat = .error .divisionByZero) := by
  obtain ⟨first, operations, trailing⟩ := e
  have hfirst := Term.closes first (fun c hc => hv c (by simp [names, group, Term.names, hc]))
    (fun d hd => hf d (by simp [contractions, group, Term.contractions, hd]))
  have hoperations := Operations.closes operations
    (fun c hc => hv c (by simp [names, group, Term.names, hc]))
    (fun d hd => hf d (by simp [contractions, group, Term.contractions, hd]))
  have hclose := @closeAll_textWith values ⟨first, operations, trailing⟩
  have hfail : Group.closeAll (textWith values ⟨first, operations, trailing⟩) =
      .error .divisionByZero →
        resolveGroups (textWith values ⟨first, operations, trailing⟩) = .error .divisionByZero := by
    intro h
    simp only [resolveGroups, h]
  cases hoperations with
  | inr herror =>
    obtain ⟨-, ⟨d, hd, hout⟩, hcloseOperations⟩ := herror
    refine .inr ⟨⟨d, by simp [contractions, group, Term.contractions, hd], hout⟩, .inl (hfail ?_)⟩
    rw [hclose, hcloseOperations]
    rfl
  | inl hok =>
    obtain ⟨links, hlinks, hoperands, hall, hcloseOperations⟩ := hok
    cases hfirst with
    | inr herror =>
      obtain ⟨-, ⟨d, hd, hout⟩, hcloseFirst⟩ := herror
      refine .inr ⟨⟨d, by simp [contractions, group, Term.contractions, hd], hout⟩,
        .inl (hfail ?_)⟩
      rw [hclose, hcloseOperations]
      exact hcloseFirst _
    | inl hok =>
      obtain ⟨x, hvalue, hx, hallFirst, hcloseFirst⟩ := hok
      have hfits : Chain.Fits ⟨x, links⟩ := ⟨hx, hoperands⟩
      have hfinite : ∀ d ∈ Chain.operations ⟨x, links⟩, ∀ v, d.outcome = .ok v →
          Binary64.isFinite v = true := by
        intro d hd
        exact hf d (by simp [contractions, group, Term.contractions_group hvalue hlinks, hd])
      have hresolve : resolveGroups (textWith values ⟨first, operations, trailing⟩) =
          .ok (Chain.text trailing ⟨x, links⟩) := by
        have hflat := Chain.paren_not_mem hfits trailing
        have hchain : Group.closeAll (textWith values ⟨first, operations, trailing⟩) =
            .ok (Chain.text trailing ⟨x, links⟩) := by
          rw [hclose, hcloseOperations]
          exact hcloseFirst _
        simp [resolveGroups, hchain, hflat]
      have hflat := Chain.evaluateFlat_text hfits trailing hfinite
      rcases Term.value_group_cases hvalue hlinks hfits hallFirst hall hfinite with
        ⟨r, hr, hchain, -, hcontractions⟩ | ⟨-, hchain, hd⟩
      · exact .inl ⟨r, hr, hcontractions, _, hresolve, hflat.trans hchain⟩
      · exact .inr ⟨hd, .inr ⟨_, hresolve, hflat.trans hchain⟩⟩

end Trees

namespace Store

/-- An expression that is typed as a tree passes the checks of typing unless it is a lone negative
literal. -/
theorem runAll_typed {e : Expression} (hv : ∀ c ∈ e.names, c.isAlpha = true)
    (hl : ∀ d, IsDecimal d → e.text ≠ '-' :: d) : Check.runAll Check.typed e.text = .ok () := by
  have hlist : Orderly true false (list e.text) :=
    e.orderly fun c hc => .inl ⟨rfl, c, hv c hc, rfl⟩
  have hlone : Check.loneNegative.fails (list e.text) = false := by
    have htext := Lexeme.flatMap_text_list e.text
    revert hlist htext
    generalize list e.text = l
    intro hlist htext
    have hsign : ∀ (a : Lexeme) l, a.kind ≠ .operator .minus →
        Check.loneNegative.fails (a :: l) = false := by
      intro a l ha
      match l with
      | [] => rfl
      | [b] => simp [Check.loneNegative, ha]
      | b :: c :: l => rfl
    cases hlist with
    | number rest => exact hsign _ _ (by simp)
    | letter _ rest => exact hsign _ _ (by simp)
    | opening rest => exact hsign _ _ (by simp)
    | negative hd rest =>
      cases rest with
      | nil => exact absurd htext.symm (by simpa using hl _ hd)
      | _ => rfl
  rw [Check.runAll_eq_ok_iff]
  simp only [Check.typed, List.mem_cons, List.not_mem_nil, or_false, forall_eq_or_imp, forall_eq]
  exact ⟨hlone, hlist.variableNames⟩

/-- An expression evaluates to the value of its tree, or is found to divide by zero when one of the
tree's contractions does. -/
theorem evaluate_text {store : Store} (hs : Reachable store) {account : Account} {e : Expression}
    (hv : ∀ c ∈ e.names, (store.get? account c).isSome = true)
    (hl : ∀ d, IsDecimal d → e.text ≠ '-' :: d)
    (hf : ∀ d ∈ e.contractions (store.rendering account), ∀ v, d.outcome = .ok v →
      Binary64.isFinite v = true) :
    (store.evaluate account e.text = .error .divisionByZero ↔
      ∃ d ∈ e.contractions (store.rendering account), d.outcome = .error .divisionByZero) ∧
    (store.evaluate account e.text ≠ .error .divisionByZero →
      ∃ r, e.value (store.rendering account) = .ok r ∧ store.evaluate account e.text = .ok r) := by
  have hsound := hs.sound
  have hsigned : ∀ c ∈ e.names, IsSigned IsDecimal (store.rendering account c) :=
    fun c hc => hsound.isSigned_rendering (hv c hc)
  have htyped := runAll_typed (fun c hc => hsound.isAlpha (hv c hc)) hl
  have hsubstitute : store.substitute account e.text = e.textWith (store.rendering account) := by
    rw [hsound.substitute, Expression.flatMap_text (hsound.rendering_of_not_letter account)]
  have hclosed : Check.runAll Check.closed (e.textWith (store.rendering account)) = .ok () := by
    have hlist : Orderly false false (list (e.textWith (store.rendering account))) :=
      e.orderly fun c hc => .inr (hsigned c hc)
    rw [Check.runAll_eq_ok_iff]
    exact hlist.closed
  have heval : store.evaluate account e.text =
      (resolveGroups (e.textWith (store.rendering account))).bind evaluateFlat := by
    rw [evaluate_eq, htyped, hsubstitute]
    cases resolveGroups (e.textWith (store.rendering account)) with
    | error fault => simp only [hclosed, Except.bind]
    | ok flat => simp only [hclosed, Except.bind]
  cases e.value_textWith hsigned hf with
  | inl hok =>
    obtain ⟨r, hr, hall, flat, hflat, hvalue⟩ := hok
    have heval : store.evaluate account e.text = .ok r := by
      rw [heval, hflat]
      exact hvalue
    rw [heval]
    refine ⟨⟨by simp, ?_⟩, fun _ => ⟨r, hr, rfl⟩⟩
    rintro ⟨d, hd, hout⟩
    obtain ⟨v, hv⟩ := hall d hd
    rw [hout] at hv
    simp at hv
  | inr herror =>
    obtain ⟨hdivides, hfails⟩ := herror
    have herror : store.evaluate account e.text = .error .divisionByZero := by
      cases hfails with
      | inl hgroups =>
        rw [heval, hgroups]
        rfl
      | inr hflat =>
        obtain ⟨flat, hgroups, hvalue⟩ := hflat
        rw [heval, hgroups]
        exact hvalue
    exact ⟨⟨fun _ => hdivides, fun _ => herror⟩, fun h => absurd herror h⟩

/-- With three for `x`, the text `(x + 1) * -2 / .5` evaluates to the value of its tree. -/
theorem evaluate_text_group :
    (empty.after [("a", .assign ['x'] (Float.ofBits 0x4008000000000000))]).evaluate "a"
      "(x + 1) * -2 / .5".toList = .ok "-16".toList := by
  let store := empty.after [("a", .assign ['x'] (Float.ofBits 0x4008000000000000))]
  let literal (t : Text) (h : covers signed? t = true) : Term :=
    .literal t ((covers_signed?_iff t).1 h)
  let e : Expression :=
    ⟨.group (.letter 'x') (.cons 1 .plus 1 (literal "1".toList (by decide)) .nil) 0,
      .cons 1 .times 1 (literal "-2".toList (by decide))
        (.cons 1 .divide 1 (literal ".5".toList (by decide)) .nil), 0⟩
  have hall : (e.contractions (store.rendering "a")).all (fun d => match d.outcome with
      | .ok v => Binary64.isFinite v
      | .error _ => false) = true := by decide +kernel
  have hvalue : (e.value (store.rendering "a")).toOption = some "-16".toList := by decide +kernel
  have hcontractions : ∀ d ∈ e.contractions (store.rendering "a"), ∃ v, d.outcome = .ok v ∧
      Binary64.isFinite v = true := by
    intro d hd
    have hd := List.all_eq_true.1 hall d hd
    cases hout : d.outcome with
    | error fault => simp [hout] at hd
    | ok v => exact ⟨v, rfl, by simpa [hout] using hd⟩
  obtain ⟨hdivides, hok⟩ := @evaluate_text store ⟨_, rfl⟩ "a" e
    (List.all_eq_true.1 (by decide +kernel))
    (fun d _ he => absurd (List.cons.inj he).1 (by decide))
    (fun d hd v hv => by
      obtain ⟨w, hw, hfinite⟩ := hcontractions d hd
      obtain rfl : w = v := by simpa [hw] using hv
      exact hfinite)
  obtain ⟨r, hr, heval⟩ := hok fun herror => by
    obtain ⟨d, hd, hout⟩ := hdivides.1 herror
    obtain ⟨v, hv, -⟩ := hcontractions d hd
    rw [hout] at hv
    simp at hv
  have htext : e.text = "(x + 1) * -2 / .5".toList := by decide +kernel
  rw [hr] at hvalue
  rw [htext, Option.some.inj hvalue] at heval
  exact heval

end Store

end Reckoner
