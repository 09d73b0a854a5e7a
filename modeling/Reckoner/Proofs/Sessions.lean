import Reckoner.Proofs.InputLines
import Reckoner.Proofs.Variables

/-!
# Sessions of two kinds

An interactive session answers the commands among its lines as a batch of these commands does; only
what stands around the answers differs. A line that leaves ends it, a line that cannot be read ends
it too, and whatever has ended a session, its account holds no variables afterwards.
-/

namespace Reckoner.Session

def leaves (line : Text) : Bool := (Text.trim line).map Char.toLower == "exit".toList

/-- The lines in front of the first that leaves the session, trimmed. -/
def heeded (lines : List Text) : List Text := (lines.takeWhile (!leaves ·)).map Text.trim

def commands (lines : List Text) : List Text := (heeded lines).filter (!·.isEmpty)

def calls (account : Account) (commands : List Text) : List (Account × Request) :=
  commands.map fun t => (account, .execute t)

def replies (account : Account) : Store → List Text → List Text
  | _, [] => []
  | store, t :: rest =>
    let outcome := store.execute account t
    outcome.2 :: replies account outcome.1 rest

/-- What is printed behind the first prompt: for each line another prompt, with the next answer in
front of it unless the line is blank. -/
def dialogue : (lines replies : List Text) → Text
  | [], _ => []
  | [] :: lines, replies => "> ".toList ++ dialogue lines replies
  | _ :: lines, reply :: replies => reply ++ '\n' :: ("> ".toList ++ dialogue lines replies)
  | _ :: _, [] => []

/-- An interactive session over some lines has come to what a batch of their commands comes to, and
it has printed the answers as a dialogue. -/
structure Agrees (options : Options) (start : Store) (lines : List Text) (p : Progress) :
    Prop where
  store : p.store = (batch options start (commands lines)).store
  events : p.events = (batch options start (commands lines)).events
  printed : p.printed =
    "> ".toList ++ dialogue (heeded lines) (replies options.account start (commands lines))

variable {options : Options} {line : Text} {lines : List Text}

theorem heeded_of_leaves (h : leaves line = true) (lines : List Text) :
    heeded (line :: lines) = [] := by
  simp [heeded, h]

theorem heeded_cons (h : leaves line = false) (lines : List Text) :
    heeded (line :: lines) = Text.trim line :: heeded lines := by
  simp [heeded, h]

example : heeded ["1+1 ".toList, "\t".toList, " Exit".toList, "2".toList] = ["1+1".toList, []] := by
  decide

theorem feed_of_leaves (h : leaves line = true) (store : Store) :
    feed options store line = none := by
  have htext : Line.ofText line = .leave := by
    rw [Line.ofText, Text.lower, if_pos (beq_iff_eq.1 h)]
  rw [feed, htext]

theorem feed_of_blank (h : leaves line = false) (hblank : Text.trim line = []) (store : Store) :
    feed options store line = some ⟨store, prompt, []⟩ := by
  have htext : Line.ofText line = .blank := by
    rw [Line.ofText, Text.lower, if_neg (beq_eq_false_iff_ne.1 h), hblank]
    rfl
  rw [feed, htext]

theorem feed_of_command (h : leaves line = false) (hne : Text.trim line ≠ []) (store : Store) :
    feed options store line = some
      ⟨(respond options store (Text.trim line)).store,
        (respond options store (Text.trim line)).printed ++ prompt,
        (respond options store (Text.trim line)).events⟩ := by
  have htext : Line.ofText line = .command (Text.trim line) := by
    rw [Line.ofText, Text.lower, if_neg (beq_eq_false_iff_ne.1 h), if_neg (by simpa using hne)]
  rw [feed, htext]

/-- A batch executes its commands in their order and prints the answers line by line. -/
theorem batch_eq (options : Options) (store : Store) (commands : List Text) :
    (batch options store commands).store = store.after (calls options.account commands) ∧
      (batch options store commands).printed =
        (replies options.account store commands).flatMap (· ++ ['\n']) ∧
      store.answers (calls options.account commands) =
        (replies options.account store commands).map .text := by
  induction commands generalizing store with
  | nil => exact ⟨rfl, rfl, rfl⟩
  | cons t rest ih =>
    obtain ⟨hstore, hprinted, hanswers⟩ := ih (respond options store t).store
    refine ⟨hstore, ?_, ?_⟩
    · rw [batch, replies, List.flatMap_cons]
      exact congrArg _ hprinted
    · rw [calls, List.map_cons, Store.answers, replies, List.map_cons]
      exact congrArg _ hanswers

/-- Lines are answered in their order until one leaves, or until `rest`, over which a session does
nothing more. -/
theorem interact_eq (options : Options) (rest : List (Option Text)) {readable : Bool}
    (hrest : ∀ store, interact options store rest = ⟨⟨store, [], []⟩, readable⟩) (store : Store)
    (lines : List Text) : interact options store (lines.map some ++ rest) =
      ⟨⟨(batch options store (commands lines)).store,
        dialogue (heeded lines) (replies options.account store (commands lines)),
        (batch options store (commands lines)).events⟩, lines.any leaves || readable⟩ := by
  induction lines generalizing store with
  | nil => exact hrest store
  | cons line lines ih =>
    rw [List.map_cons, List.cons_append, interact]
    cases hleaves : leaves line with
    | true =>
      rw [feed_of_leaves hleaves, commands, heeded_of_leaves hleaves]
      simp [hleaves, batch, dialogue]
    | false =>
      by_cases hblank : Text.trim line = []
      · have hcommands : commands (line :: lines) = commands lines := by
          rw [commands, heeded_cons hleaves, hblank]
          rfl
        rw [feed_of_blank hleaves hblank, hcommands, heeded_cons hleaves, hblank, List.any_cons,
          hleaves, Bool.false_or]
        simp only [ih, prompt, dialogue, List.nil_append]
      · obtain ⟨c, w, hcw⟩ := List.exists_cons_of_ne_nil hblank
        have hcommands : commands (line :: lines) = Text.trim line :: commands lines := by
          rw [commands, heeded_cons hleaves, hcw]
          rfl
        rw [feed_of_command hleaves hblank, hcommands, heeded_cons hleaves, List.any_cons, hleaves,
          Bool.false_or]
        simp only [ih, prompt, batch, replies, respond, hcw, dialogue, List.append_assoc,
          List.cons_append, List.nil_append]

/-- Interactive sessions and batches agree. Over an input in UTF-8, and over one with a line that is
not, up to that line, an interactive session comes to what a batch of its commands comes to. A batch
executes its commands one after the other and prints each answer on a line. However a session ends,
its account holds no variables afterwards. -/
theorem interactive_agrees (options : Options) (store : Store) :
    (∀ t : Text, ∃ p, interactive options store (CommandLine.lines (Text.utf8 t)) = ⟨p, true⟩ ∧
      Agrees options store (Text.lines t) p) ∧
    (∀ (lines : List Text) (rest : List (Option Text)), ∃ p,
      interactive options store (lines.map some ++ none :: rest) = ⟨p, lines.any leaves⟩ ∧
      Agrees options store lines p) ∧
    (∀ commands : List Text,
      (batch options store commands).store = store.after (calls options.account commands) ∧
      (batch options store commands).printed =
        (replies options.account store commands).flatMap (· ++ ['\n']) ∧
      store.answers (calls options.account commands) =
        (replies options.account store commands).map .text) ∧
    ∀ input : List UInt8,
      let ended := close options (run options (CommandLine.lines input))
      ended.progress.store.holds options.account = false ∧
        ∀ name, ended.progress.store.get? options.account name = none := by
  refine ⟨fun t => ?_, fun lines rest => ?_, batch_eq options store, fun input => ?_⟩
  · have hend := interact_eq options [] (fun _ => rfl) store (Text.lines t)
    rw [List.append_nil, Bool.or_true] at hend
    rw [CommandLine.lines_utf8, interactive, hend]
    exact ⟨_, rfl, rfl, rfl, rfl⟩
  · have hend := interact_eq options (none :: rest) (fun _ => rfl) store lines
    rw [Bool.or_false] at hend
    rw [interactive, hend]
    exact ⟨_, rfl, rfl, rfl, rfl⟩
  · rw [close]
    refine ⟨by simp [Store.clear, Store.holds], fun name => ?_⟩
    rw [Store.get?_clear, if_pos rfl]

/-- A session that `EXIT` ends, with its transcript. -/
theorem interactive_agrees_at_exit :
    let options : Options := ⟨"matt", [], false⟩
    ∃ p, interactive options Store.empty
        (CommandLine.lines (Text.utf8 "b = 3\n\nb + 1\nEXIT\nb\n".toList)) = ⟨p, true⟩ ∧
      p.printed = "> b = 3\n> > 4\n> ".toList ∧
      p.store = (batch options Store.empty ["b = 3".toList, "b + 1".toList]).store := by
  intro options
  obtain ⟨p, hp, hagrees⟩ := (interactive_agrees options Store.empty).1
    "b = 3\n\nb + 1\nEXIT\nb\n".toList
  have hlines : heeded (Text.lines "b = 3\n\nb + 1\nEXIT\nb\n".toList) =
      ["b = 3".toList, [], "b + 1".toList] := by decide +kernel
  have hcommands : commands (Text.lines "b = 3\n\nb + 1\nEXIT\nb\n".toList) =
      ["b = 3".toList, "b + 1".toList] := by
    rw [commands, hlines]
    decide
  have hreplies : replies "matt" Store.empty ["b = 3".toList, "b + 1".toList] =
      ["b = 3".toList, "4".toList] := by decide +kernel
  refine ⟨p, hp, ?_, ?_⟩
  · rw [hagrees.printed, hlines, hcommands, hreplies]
    rfl
  · rw [hagrees.store, hcommands]

end Reckoner.Session
