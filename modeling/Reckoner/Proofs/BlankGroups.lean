import Reckoner.Proofs.Clogged
import Reckoner.Proofs.Outcomes
import Reckoner.Proofs.PaddedGroups
import Reckoner.Proofs.Variables

/-!
# Blank groups next to operators

A blank group is worth nothing and leaves nothing behind, so the operators around it become
neighbours that the checks have not seen. They clog the text, or open it, unless a minus sign behind
the group can be the sign of what follows.
-/

namespace Reckoner

open Literal

def EndsInOperator (t : Text) : Prop :=
  ∃ s op n, t = s ++ Operator.symbol op :: List.replicate n ' '

def BeginsWithOperator (t : Text) : Prop :=
  ∃ n op s, t = List.replicate n ' ' ++ Operator.symbol op :: s

/-- Behind a blank group stands a minus sign that can be taken for a sign: something is attached to
it and an operator stands in front of the group, or no space parts it from the group, and the group
from the beginning of the text or of the group around it. -/
def SignFollows (before after : Text) : Prop :=
  ∃ n s, after = List.replicate n ' ' ++ '-' :: s ∧
    (EndsInOperator before ∧ s.head? ≠ some ' ' ∨
      n = 0 ∧ (before = [] ∨ ∃ r, before = r ++ ['(']))

theorem evaluateFlat_spaces (n : Nat) : evaluateFlat (List.replicate n ' ') = .ok [] := by
  have hreduce : ∀ level, reduce level (List.replicate n ' ') = .ok (List.replicate n ' ') := by
    intro level
    rw [reduce, if_pos (operatorCount_spaces level n)]
  simp [evaluateFlat, reduceAll_eq, hreduce, trim_spaces]

open Reckoner.Group in
/-- A blank group leaves nothing behind. -/
theorem resolveGroups_blank (before after : Text) (n : Nat) :
    resolveGroups (before ++ '(' :: (List.replicate n ' ' ++ ')' :: after)) =
      resolveGroups (before ++ after) := by
  have hblank : closeAll ('(' :: (List.replicate n ' ' ++ ')' :: after)) = closeAll after := by
    have hspaces : ')' ∉ List.replicate n ' ' := by simp
    rw [closeAll_cons, closeAll_eq_closeOnto, closeOnto_spaces_append, ← closeAll_eq_closeOnto,
      closeAll_cons]
    cases closeAll after with
    | error fault => rfl
    | ok closed =>
      simp only [Except.bind, Except.map, extend_of_ne (show ')' ≠ '(' by decide),
        extend_opening hspaces, evaluateFlat_spaces, List.nil_append]
  rw [resolveGroups, closeAll_append, hblank, ← closeAll_append, ← resolveGroups]

/-- An operand is expected behind the text: an operator ends it, or an opening parenthesis, spaces
aside. -/
def AwaitsOperand (t : Text) : Prop :=
  EndsInOperator t ∨ ∃ r n, t = r ++ '(' :: List.replicate n ' '

theorem AwaitsOperand.append {t : Text} (h : AwaitsOperand t) (s : Text) :
    AwaitsOperand (s ++ t) := by
  rcases h with ⟨r, op, n, rfl⟩ | ⟨r, n, rfl⟩
  · exact .inl ⟨s ++ r, op, n, by simp⟩
  · exact .inr ⟨s ++ r, n, by simp⟩

namespace Separated

/-- An opening parenthesis opens the text or stands where an operand is expected, and what is
separated may take the place of its group. -/
theorem split_opening {afterOperand : Bool} {before t : Text}
    (h : Separated afterOperand (before ++ '(' :: t)) :
    Separated false t ∧ (∀ s, Separated false s → Separated afterOperand (before ++ s)) ∧
      ((afterOperand = false ∧ ∃ n, before = List.replicate n ' ') ∨ AwaitsOperand before) := by
  generalize he : before ++ '(' :: t = u at h
  induction h generalizing before with
  | nil => simp at he
  | space _ ih =>
    obtain ⟨v, rfl, rfl⟩ := cons_eq_append_cons_of_ne (by decide) he.symm
    obtain ⟨ht, hs, hfront⟩ := ih rfl
    refine ⟨ht, fun s h => .space (hs s h), ?_⟩
    rcases hfront with ⟨hafter, n, rfl⟩ | hawaits
    · exact .inl ⟨hafter, n + 1, rfl⟩
    · exact .inr (hawaits.append [' '])
  | operator op _ ih =>
    obtain ⟨v, rfl, rfl⟩ := cons_eq_append_cons_of_ne (by cases op <;> decide) he.symm
    obtain ⟨ht, hs, hfront⟩ := ih rfl
    refine ⟨ht, fun s h => .operator op (hs s h), .inr ?_⟩
    rcases hfront with ⟨-, n, rfl⟩ | hawaits
    · exact .inl ⟨[], op, n, rfl⟩
    · exact hawaits.append [op.symbol]
  | @word w _ hw _ ih =>
    obtain ⟨v, rfl, rfl⟩ := append_eq_append_cons_of_not_mem (paren_not_mem_word hw).1 he.symm
    obtain ⟨ht, hs, hfront⟩ := ih rfl
    refine ⟨ht, fun s h => by simpa using .word hw (hs s h), .inr ?_⟩
    exact (hfront.resolve_left fun h => nomatch h.1).append w
  | opening hrest ih =>
    cases before with
    | nil =>
      obtain ⟨-, rfl⟩ := List.cons.inj he
      exact ⟨hrest, fun s h => h, .inl ⟨rfl, 0, rfl⟩⟩
    | cons c before =>
      obtain ⟨rfl, hnext⟩ := List.cons.inj he
      obtain ⟨ht, hs, hfront⟩ := ih hnext
      refine ⟨ht, fun s h => .opening (hs s h), .inr ?_⟩
      rcases hfront with ⟨-, n, rfl⟩ | hawaits
      · exact .inr ⟨[], n, rfl⟩
      · exact hawaits.append ['(']
  | closing _ ih =>
    obtain ⟨v, rfl, rfl⟩ := cons_eq_append_cons_of_ne (by decide) he.symm
    obtain ⟨ht, hs, hfront⟩ := ih rfl
    refine ⟨ht, fun s h => .closing (hs s h), .inr ?_⟩
    exact (hfront.resolve_left fun h => nomatch h.1).append [')']

/-- What can stand behind an operand: nothing, an operator or a closing parenthesis. -/
theorem behind_operand {t : Text} (h : Separated true t) : ∃ n s, t = List.replicate n ' ' ++ s ∧
    (s = [] ∨ (∃ op r, s = Operator.symbol op :: r) ∨ ∃ r, s = ')' :: r) := by
  generalize hb : true = afterOperand at h
  induction h with
  | nil => exact ⟨0, [], rfl, .inl rfl⟩
  | space _ ih =>
    obtain ⟨n, s, rfl, hs⟩ := ih hb
    exact ⟨n + 1, s, rfl, hs⟩
  | operator op => exact ⟨0, _, rfl, .inr (.inl ⟨op, _, rfl⟩)⟩
  | word => cases hb
  | opening => cases hb
  | closing => exact ⟨0, _, rfl, .inr (.inr ⟨_, rfl⟩)⟩

end Separated

theorem Text.Blocks.clogged {t : Text} (h : Blocks t) (s : Text) (op : Operator) :
    Clogged (s ++ op.symbol :: t) := by
  have hcons : Clogged (op.symbol :: t) := .inl ⟨isOperatorChar_symbol op, h⟩
  exact hcons.append s

/-- An operator that begins a text has nothing to its left, and with spaces in front it is no sign
either. -/
theorem evaluateFlat_of_operator {n : Nat} {op : Operator} {t : Text}
    (h : IsRow (List.replicate n ' ' ++ op.symbol :: t)) (hop : op ≠ .minus ∨ n ≠ 0) :
    ∃ fault, evaluateFlat (List.replicate n ' ' ++ op.symbol :: t) = .error fault := by
  by_cases hminus : op = .minus
  · subst hminus
    exact evaluateFlat_spaces_append_error (hop.resolve_left (by simp)) ⟨_, .inl (.start _), rfl⟩
  · obtain ⟨trailing, row, hv, he⟩ := h
    have hsymbol := symbol_facts op
    have hafter := (spaces_replicate_append n (t := op.symbol :: t) (by simpa using hsymbol.2.2)).2
    have hheadless : Row.Headless row := by
      match row, hv with
      | [], _ =>
        have := (spaces_replicate_append trailing (t := []) (by simp)).2
        rw [he, Row.text_nil, ← List.append_nil (List.replicate trailing ' '), this] at hafter
        cases hafter
      | ⟨gap, .operator sign⟩ :: row, _ =>
        rw [he, (Row.spaces_text trailing gap (Mark.fits_operator sign) row).2] at hafter
        obtain ⟨hs, -⟩ := List.cons.inj hafter
        have : sign = op := by simpa using congrArg Operator.ofChar? hs
        exact this ▸ hminus
      | ⟨gap, .word w⟩ :: row, hv =>
        have hw := ((Row.valid_word_cons _ _ _ _).1 hv).2.1
        rw [he, (Row.spaces_text trailing gap ((Mark.fits_word _).2 hw) row).2] at hafter
        obtain ⟨c, r, rfl, -, hc⟩ := hw.head
        obtain ⟨rfl, -⟩ := List.cons.inj hafter
        simp at hc
    rw [he]
    exact Row.dooms_headless.evaluateFlat trailing hv hheadless

namespace Separated

open Reckoner.Group

/-- Behind an opening parenthesis such an operator keeps the group from being closed. -/
theorem closeAll_opening_operator {before t : Text} {n : Nat} {op : Operator}
    (h : Separated false (List.replicate n ' ' ++ op.symbol :: t)) (hop : op ≠ .minus ∨ n ≠ 0)
    (u : Text) :
    Group.closeAll (before ++ '(' :: (List.replicate n ' ' ++ op.symbol :: t)) ≠ .ok u := by
  intro hu
  rw [closeAll_append] at hu
  cases hv : Group.closeAll ('(' :: (List.replicate n ' ' ++ op.symbol :: t)) with
  | error fault => simp [hv, Except.bind] at hu
  | ok v =>
    obtain ⟨w, hw, hextend⟩ := closeAll_cons_eq_ok hv
    obtain ⟨inner, rest, r, rfl, hi, hr, rfl⟩ := extend_opening_eq_ok hextend
    obtain ⟨x, hx, hsplit⟩ := closeAll_append_eq_ok (by simp) hw
    obtain ⟨y, -, rfl⟩ := closeAll_cons_eq_ok_of_ne (by cases op <;> decide) hx
    have hfront : ')' ∉ List.replicate n ' ' ++ [op.symbol] := by
      cases op <;> simp [Operator.symbol]
    obtain ⟨z, rfl, -⟩ := append_eq_append_cons_of_not_mem hfront
      (by simpa using hsplit.symm)
    have hinner :
        List.replicate n ' ' ++ [op.symbol] ++ z = List.replicate n ' ' ++ op.symbol :: z := by
      simp
    rw [hinner] at hw hr hi
    exact not_ok_of_error (evaluateFlat_of_operator (h.isRow_of_closeAll hw hi) hop) hr

/-- An operator in front of a blank group is clogged without it, unless a minus sign follows that
can be a sign. -/
theorem clogged_of_blank {before after : Text} (hends : EndsInOperator before)
    (h : Separated true after) (hsign : ¬ SignFollows before after) :
    Text.Clogged (before ++ after) := by
  obtain ⟨k, s, rfl, hs⟩ := h.behind_operand
  obtain ⟨r, op, m, rfl⟩ := hends
  have hblocks : Text.Blocks (List.replicate m ' ' ++ (List.replicate k ' ' ++ s)) := by
    rw [Text.blocks_spaces_append, Text.blocks_spaces_append]
    rcases hs with rfl | ⟨sign, t, rfl⟩ | ⟨t, rfl⟩
    · trivial
    · rw [Text.blocks_cons_iff (symbol_facts sign).2.2]
      refine .inr ⟨isOperatorChar_symbol sign, fun hminus d hd => ?_⟩
      by_contra hd'
      refine hsign ⟨k, t, by rw [hminus], .inl ⟨⟨r, op, m, rfl⟩, fun he => hd' ?_⟩⟩
      exact Option.some.inj (hd.symm.trans he)
    · exact (Text.blocks_cons_iff (by decide) t).2 (.inl rfl)
  have hclogged := hblocks.clogged r op
  rwa [← List.cons_append, ← List.append_assoc] at hclogged

/-- An operator that loses a blank group as its neighbour lacks an operand, unless a minus sign
follows that can be a sign. -/
theorem blank_group {before after u : Text} {n : Nat}
    (h : Separated false (before ++ '(' :: (List.replicate n ' ' ++ ')' :: after)))
    (hop : EndsInOperator before ∨ BeginsWithOperator after) (hsign : ¬ SignFollows before after)
    (hu : Reckoner.resolveGroups (before ++ after) = .ok u) :
    ∃ fault, evaluateFlat u = .error fault := by
  obtain ⟨hgroup, htext, hfront⟩ := h.split_opening
  have hbehind := (hgroup.split rfl (by simp)).2
  have hspliced := htext after hbehind.of_true
  have hclosed := (resolveGroups_eq_ok_iff.1 hu).1
  by_cases hends : EndsInOperator before
  · exact hspliced.clogged (clogged_of_blank hends hbehind hsign) hu
  · obtain ⟨k, s, rfl, hs⟩ := hbehind.behind_operand
    obtain ⟨j, op, t, he⟩ := hop.resolve_left hends
    obtain rfl : s = op.symbol :: t := by
      have hhead : s.head? ≠ some ' ' := by
        rcases hs with rfl | ⟨sign, t, rfl⟩ | ⟨t, rfl⟩
        · simp
        · simpa using (symbol_facts sign).2.2
        · simp
      have h1 := (spaces_replicate_append k hhead).2
      have h2 := (spaces_replicate_append j (t := op.symbol :: t)
        (by simpa using (symbol_facts op).2.2)).2
      exact h1.symm.trans (he ▸ h2)
    -- The spaces on both sides of the group are now in front of the operator.
    have hnosign : ∀ m, (m = 0 → before = [] ∨ ∃ r, before = r ++ ['(']) →
        op ≠ .minus ∨ m + k ≠ 0 := by
      intro m hm
      by_contra hno
      obtain ⟨rfl, h0⟩ : op = .minus ∧ m + k = 0 := by simpa using hno
      obtain ⟨rfl, rfl⟩ : m = 0 ∧ k = 0 := by omega
      exact hsign ⟨0, t, rfl, .inr ⟨rfl, hm rfl⟩⟩
    rcases hfront with ⟨-, m, rfl⟩ | hends' | ⟨r, m, rfl⟩
    · have hspaces : List.replicate m ' ' ++ (List.replicate k ' ' ++ op.symbol :: t) =
          List.replicate (m + k) ' ' ++ op.symbol :: t := by
        rw [← List.append_assoc, List.replicate_append_replicate]
      rw [hspaces] at hclosed hspliced hu
      obtain ⟨x, hx, rfl⟩ := closeAll_append_eq_ok (by simp) hclosed
      obtain ⟨y, -, rfl⟩ := closeAll_cons_eq_ok_of_ne (by cases op <;> decide) hx
      refine evaluateFlat_of_operator (hspliced.resolveGroups.1 _ hu) (hnosign m ?_)
      rintro rfl
      exact .inl rfl
    · exact absurd hends' hends
    · have hspaces :
          (r ++ '(' :: List.replicate m ' ') ++ (List.replicate k ' ' ++ op.symbol :: t) =
          r ++ '(' :: (List.replicate (m + k) ' ' ++ op.symbol :: t) := by
        rw [List.append_assoc, List.cons_append, ← List.append_assoc (List.replicate m ' '),
          List.replicate_append_replicate]
      rw [hspaces] at hclosed hspliced
      refine absurd hclosed (hspliced.split_opening.1.closeAll_opening_operator (hnosign m ?_) u)
      rintro rfl
      exact .inr ⟨r, rfl⟩

end Separated

namespace Store

variable {store : Store} {account : Account}

theorem Sound.endsInOperator (hs : Sound store) {t : Text} (h : EndsInOperator t) :
    EndsInOperator (store.substitute account t) := by
  obtain ⟨s, op, n, rfl⟩ := h
  have hspaces := @Sound.substitute_spaces_append _ hs account n []
  rw [List.append_nil] at hspaces
  refine ⟨store.substitute account s, op, n, ?_⟩
  rw [hs.substitute_append, hs.substitute_cons (by cases op <;> decide), hspaces]
  simp [hs.substitute]

theorem Sound.beginsWithOperator (hs : Sound store) {t : Text} (h : BeginsWithOperator t) :
    BeginsWithOperator (store.substitute account t) := by
  obtain ⟨n, op, s, rfl⟩ := h
  refine ⟨n, op, store.substitute account s, ?_⟩
  rw [hs.substitute_spaces_append, hs.substitute_cons (by cases op <;> decide)]

/-- An expression with a blank group next to an operator has no value, unless the group is followed
by a minus sign that can be a sign. -/
theorem evaluate_blank_group (hr : Reachable store) (account : Account) {before after : Text}
    (n : Nat) (hop : EndsInOperator before ∨ BeginsWithOperator after)
    (hsign : ¬ SignFollows (store.substitute account before) (store.substitute account after)) :
    ∃ fault, store.evaluate account (before ++ '(' :: (List.replicate n ' ' ++ ')' :: after)) =
      .error fault := by
  cases he : store.evaluate account (before ++ '(' :: (List.replicate n ' ' ++ ')' :: after)) with
  | error fault => exact ⟨fault, rfl⟩
  | ok r =>
    have hs := hr.sound
    obtain ⟨hclosed, flat, hflat, hvalue⟩ := exists_flat_of_evaluate he
    have htext :
        store.substitute account (before ++ '(' :: (List.replicate n ' ' ++ ')' :: after)) =
        store.substitute account before ++
          '(' :: (List.replicate n ' ' ++ ')' :: store.substitute account after) := by
      rw [hs.substitute_append, hs.substitute_cons (by decide), hs.substitute_spaces_append,
        hs.substitute_cons (by decide)]
    rw [htext] at hclosed hflat
    rw [resolveGroups_blank] at hflat
    exact absurd hvalue (not_ok_of_error ((Check.separated_of_closed hclosed).blank_group
      (hop.imp hs.endsInOperator hs.beginsWithOperator) hsign hflat))

/-- A blank group is no operand of a product. -/
theorem evaluate_blank_group_factor :
    (EndsInOperator "2 * ".toList ∨ BeginsWithOperator " + 3".toList) ∧
      ¬ SignFollows (empty.substitute "a" "2 * ".toList) (empty.substitute "a" " + 3".toList) ∧
        ∃ fault, empty.evaluate "a" "2 * ( ) + 3".toList = .error fault := by
  have hop : EndsInOperator "2 * ".toList := ⟨"2 ".toList, .times, 1, rfl⟩
  have hafter : empty.substitute "a" " + 3".toList = " + 3".toList := by decide +kernel
  have hsign : ¬ SignFollows (empty.substitute "a" "2 * ".toList)
      (empty.substitute "a" " + 3".toList) := by
    rw [hafter]
    rintro ⟨n, s, he, -⟩
    have hfront := (spaces_replicate_append n (t := '-' :: s) (by simp)).2
    rw [← he] at hfront
    have : Text.afterSpaces " + 3".toList = "+ 3".toList := by decide
    rw [this] at hfront
    exact absurd (List.cons.inj hfront).1 (by decide)
  have hreachable : Reachable empty := ⟨[], rfl⟩
  have herror := evaluate_blank_group hreachable "a" 1 (.inl hop) hsign
  exact ⟨.inl hop, hsign, by simpa using herror⟩

/-- Behind a blank group the minus sign of a difference becomes the sign of a factor. -/
theorem evaluate_blank_group_difference :
    ¬ ∀ (store : Store) (account : Account) (before after : Text) (n : Nat), Reachable store →
      EndsInOperator before ∨ BeginsWithOperator after →
        ∃ fault, store.evaluate account (before ++ '(' :: (List.replicate n ' ' ++ ')' :: after)) =
          .error fault := by
  intro h
  obtain ⟨fault, hf⟩ := h empty "a" "5 * ".toList " -2".toList 0 ⟨[], rfl⟩
    (.inl ⟨"5 ".toList, .times, 1, rfl⟩)
  have hvalue : (empty.evaluate "a" ("5 * ".toList ++ '(' :: (List.replicate 0 ' ' ++
      ')' :: " -2".toList))).toOption = some "-10".toList := by decide +kernel
  rw [hf] at hvalue
  cases hvalue

end Store

end Reckoner
