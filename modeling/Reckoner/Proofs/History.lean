import Reckoner.Proofs.Variables

/-!
# The history of a store

Requests leave a store with the changes that they have brought about, one after the other. So what
a store holds can be read off the list of these changes: a variable has the value that was written
last, unless the variables of its account have been removed since.
-/

namespace Reckoner

namespace Change

/-- Of all writes to a variable, that of `v` came last, and its account has not been cleared
since. -/
def LastWrite (changes : List Change) (account : Account) (c : Char) (v : Float) : Prop :=
  ∃ earlier later, changes = earlier ++ write account c v :: later ∧
    clear account ∉ later ∧ ∀ w, write account c w ∉ later

/-- Some variable of an account has been written since it was cleared last. -/
def Written (changes : List Change) (account : Account) : Prop :=
  ∃ earlier c v later, changes = earlier ++ write account c v :: later ∧ clear account ∉ later

/-- A change of a list that is longer by one is the last or has the last behind it. -/
theorem exists_split_concat {changes : List Change} {last change : Change}
    {p : List Change → Prop} :
    (∃ earlier later, changes ++ [last] = earlier ++ change :: later ∧ p later) ↔
      (last = change ∧ p []) ∨
        ∃ earlier later, changes = earlier ++ change :: later ∧ p (later ++ [last]) := by
  constructor
  · rintro ⟨earlier, later, heq, hp⟩
    rcases List.eq_nil_or_concat later with rfl | ⟨front, final, rfl⟩
    · obtain ⟨-, hlast⟩ := List.append_inj' heq rfl
      exact .inl ⟨List.singleton_inj.1 hlast, hp⟩
    · have hassoc : changes ++ [last] = (earlier ++ change :: front) ++ [final] := by
        simpa using heq
      obtain ⟨hfront, hfinal⟩ := List.append_inj' hassoc rfl
      obtain rfl := List.singleton_inj.1 hfinal
      exact .inr ⟨earlier, front, hfront, by simpa using hp⟩
  · rintro (⟨rfl, hp⟩ | ⟨earlier, later, rfl, hp⟩)
    · exact ⟨changes, [], rfl, hp⟩
    · exact ⟨earlier, later ++ [last], by simp, hp⟩

variable {changes : List Change} {last : Change} {account : Account} {c : Char} {v : Float}

theorem not_lastWrite_nil : ¬ LastWrite [] account c v := by
  rintro ⟨earlier, later, h, -⟩
  simp at h

theorem not_written_nil : ¬ Written [] account := by
  rintro ⟨earlier, c, v, later, h, -⟩
  simp at h

/-- A change becomes the last write to a variable, or puts an end to it, or leaves it as it is. -/
theorem lastWrite_concat : LastWrite (changes ++ [last]) account c v ↔ last = write account c v ∨
    (last ≠ clear account ∧ ∀ w, last ≠ write account c w) ∧ LastWrite changes account c v := by
  unfold LastWrite
  rw [exists_split_concat
    (p := fun later => clear account ∉ later ∧ ∀ w, write account c w ∉ later)]
  constructor
  · rintro (⟨rfl, -⟩ | ⟨earlier, later, heq, hclear, hwrite⟩)
    · exact .inl rfl
    · simp only [List.mem_append, List.mem_singleton, not_or] at hclear hwrite
      exact .inr ⟨⟨fun he => hclear.2 he.symm, fun w he => (hwrite w).2 he.symm⟩, earlier, later,
        heq, hclear.1, fun w => (hwrite w).1⟩
  · rintro (rfl | ⟨⟨hclear, hwrite⟩, earlier, later, heq, hc, hw⟩)
    · exact .inl ⟨rfl, by simp⟩
    · refine .inr ⟨earlier, later, heq, ?_, fun w => ?_⟩
      · simpa [hc] using hclear.symm
      · simpa [hw w] using (hwrite w).symm

theorem written_concat : Written (changes ++ [last]) account ↔ (∃ c v, last = write account c v) ∨
    last ≠ clear account ∧ Written changes account := by
  constructor
  · rintro ⟨earlier, c, v, later, heq, hclear⟩
    obtain ⟨hlast, -⟩ | ⟨earlier, later, heq, hclear⟩ :=
      (exists_split_concat (p := (clear account ∉ ·))).1 ⟨earlier, later, heq, hclear⟩
    · exact .inl ⟨c, v, hlast⟩
    · simp only [List.mem_append, List.mem_singleton, not_or] at hclear
      exact .inr ⟨fun he => hclear.2 he.symm, earlier, c, v, later, heq, hclear.1⟩
  · rintro (⟨c, v, rfl⟩ | ⟨hlast, earlier, c, v, later, rfl, hclear⟩)
    · exact ⟨changes, c, v, [], rfl, by simp⟩
    · exact ⟨earlier, c, v, later ++ [last], by simp, by simpa [hclear] using hlast.symm⟩

end Change

namespace Store

open Change (LastWrite Written)

def history : Store → List (Account × Request) → List Change
  | _, [] => []
  | store, (account, request) :: rest =>
    (store.change? account request).toList ++ history (store.respond account request).1 rest

theorem changed_eq_foldl (store : Store) (change? : Option Change) :
    store.changed change? = change?.toList.foldl Change.apply store := by
  cases change? <;> rfl

/-- A sequence of requests leaves the store with the changes of its history. -/
theorem after_eq_foldl (store : Store) (requests : List (Account × Request)) :
    store.after requests = (store.history requests).foldl Change.apply store := by
  induction requests generalizing store with
  | nil => rfl
  | cons request requests ih =>
    obtain ⟨account, request⟩ := request
    have hstep : store.after ((account, request) :: requests) =
        (store.respond account request).1.after requests := rfl
    rw [hstep, ih, history, List.foldl_append, ← changed_eq_foldl, ← respond_fst]

def ofChanges (changes : List Change) : Store := changes.foldl Change.apply empty

@[simp] theorem ofChanges_nil : ofChanges [] = empty := rfl

@[simp] theorem ofChanges_concat (changes : List Change) (last : Change) :
    ofChanges (changes ++ [last]) = last.apply (ofChanges changes) := by
  simp [ofChanges]

theorem after_empty (requests : List (Account × Request)) :
    empty.after requests = ofChanges (empty.history requests) :=
  after_eq_foldl empty requests

/-- A variable has the value that was written to it last. -/
theorem get?_ofChanges (changes : List Change) (account : Account) (c : Char) (v : Float) :
    (ofChanges changes).get? account c = some v ↔ LastWrite changes account c v := by
  induction changes using List.reverseRecOn with
  | nil => simp [get?, empty, Change.not_lastWrite_nil]
  | append_singleton changes last ih =>
    rw [ofChanges_concat, Change.lastWrite_concat, ← ih]
    cases last with
    | write other name w =>
      rw [Change.apply, get?_insert]
      split
      · next h =>
        obtain ⟨rfl, rfl⟩ := h
        simp
      · next h => simp_all
    | clear other =>
      rw [Change.apply, get?_clear]
      split
      · next h => simp [h]
      · next h => simp [h]

theorem holds_ofChanges (changes : List Change) (account : Account) :
    (ofChanges changes).holds account = true ↔ Written changes account := by
  induction changes using List.reverseRecOn with
  | nil => simp [holds, empty, Change.not_written_nil]
  | append_singleton changes last ih =>
    rw [ofChanges_concat, Change.written_concat, ← ih]
    cases last with
    | write other name w => simp [Change.apply, insert, holds]
    | clear other => simp [Change.apply, clear, holds]

/-- No account is kept without variables. -/
theorem inhabited_ofChanges (changes : List Change) {account : Account} {held : Variables}
    (h : (ofChanges changes).accounts[account]? = some held) : held.isEmpty = false := by
  induction changes using List.reverseRecOn generalizing held with
  | nil => simp [empty] at h
  | append_singleton changes last ih =>
    rw [ofChanges_concat] at h
    cases last with
    | write other name w =>
      simp only [Change.apply, insert, Std.TreeMap.getElem?_insert] at h
      split at h
      · obtain rfl := Option.some.inj h
        simp
      · exact ih h
    | clear other =>
      simp only [Change.apply, clear, Std.TreeMap.getElem?_erase] at h
      split at h
      · cases h
      · exact ih h

theorem ordered_bindings (store : Store) (account : Account) :
    (store.bindings account).Pairwise fun a b => a.1 < b.1 := by
  unfold bindings
  cases store.accounts[account]? with
  | none => exact .nil
  | some held => exact held.ordered_keys_toList.imp compare_lt_iff_lt.1

theorem lookup_eq_ok_iff {store : Store} {account : Account} {name : Text} {v : Float} :
    store.lookup account name = .ok v ↔
      ∃ c, variableName? name = some c ∧ store.get? account c = some v := by
  unfold lookup
  rw [← Option.bind_eq_some_iff]
  cases (variableName? name).bind (store.get? account) <;> simp

/-- A look-up that fails says which name is missing. -/
theorem lookup_cases (store : Store) (account : Account) (name : Text) :
    (∃ v, store.lookup account name = .ok v) ∨
      store.lookup account name = .error (.undefined name) := by
  unfold lookup
  cases (variableName? name).bind (store.get? account) with
  | none => exact .inr rfl
  | some v => exact .inl ⟨v, rfl⟩

/-- A store answers as the changes say that have been made to it. -/
structure Records (store : Store) (changes : List Change) : Prop where
  /-- Names are letters and values are finite. -/
  sound : ∀ (account : Account) (held : Variables), store.accounts[account]? = some held →
    ∀ (c : Char) (v : Float), held[c]? = some v → c.isAlpha = true ∧ Binary64.isFinite v = true
  /-- An account that is kept has variables. -/
  inhabited : ∀ (account : Account) (held : Variables), store.accounts[account]? = some held →
    held.isEmpty = false
  /-- A variable has the value written to it last. -/
  value : ∀ account name v, (store.respond account (.lookup name)).2 = .value v ↔
    ∃ c, name = [c] ∧ LastWrite changes account c v
  /-- A look-up of anything else fails, and the name is in the answer. -/
  undefined : ∀ account name, (∀ c v, name = [c] → ¬ LastWrite changes account c v) →
    (store.respond account (.lookup name)).2 = .failed (.undefined name)
  /-- Listed are the variables with their last values and nothing else. -/
  listed : ∀ account c v, (c, v) ∈ store.bindings account ↔ LastWrite changes account c v
  /-- Names are listed in their order, each of them once. -/
  ordered : ∀ account, (store.bindings account).Pairwise fun a b => a.1 < b.1
  /-- There is something to remove if something has been written since the last removal. -/
  removed : ∀ account, (store.respond account .clear).2 = .removed true ↔ Written changes account

/-- After any sequence of requests, of whatever accounts and with whatever success, the store is
what its history makes of it, and the history is that of the requests that have taken effect. -/
theorem after_records (requests : List (Account × Request)) :
    (empty.after requests).Records (empty.history requests) ∧
      ∀ (store : Store) (account : Account) (request : Request),
        (store.change? account request).isSome = true ↔ store.TakesEffect account request := by
  refine ⟨?_, change?_isSome_iff⟩
  have hsound : Sound (empty.after requests) := sound_empty.after requests
  have hget := get?_ofChanges (empty.history requests)
  have hholds := holds_ofChanges (empty.history requests)
  have hinhabited := @inhabited_ofChanges (empty.history requests)
  rw [← after_empty] at hget hholds hinhabited
  generalize empty.after requests = store at *
  generalize empty.history requests = changes at *
  have hletter : ∀ {account c v}, LastWrite changes account c v → c.isAlpha = true :=
    fun h => (hsound _ _ _ ((hget _ _ _).2 h)).1
  have hlookup : ∀ account name v, store.lookup account name = .ok v ↔
      ∃ c, name = [c] ∧ LastWrite changes account c v := by
    intro account name v
    simp only [lookup_eq_ok_iff, variableName?_eq_some_iff, hget, and_assoc]
    exact exists_congr fun c => and_congr_right fun _ => and_iff_right_of_imp hletter
  refine ⟨?_, fun account held h => hinhabited h, ?_, ?_, ?_, ordered_bindings store, ?_⟩
  · intro account held hheld c v hv
    exact hsound account c v (by rw [get?, hheld]; exact hv)
  · intro account name v
    rw [← hlookup]
    cases hl : store.lookup account name <;> simp [respond, hl, Except.map, settled]
  · intro account name hnone
    rcases store.lookup_cases account name with ⟨v, hv⟩ | hmissing
    · obtain ⟨c, rfl, hlast⟩ := (hlookup account name v).1 hv
      exact absurd hlast (hnone c v rfl)
    · simp [respond, hmissing, Except.map, settled]
  · intro account c v
    rw [mem_bindings_iff, hget]
  · intro account
    rw [← hholds, respond]
    simp

end Store

end Reckoner
