import Woterm.History.CommandHistory

/-!
The order of the history. A command that is used again should come first, and a history that was
saved should come back in its order. Both hold with exceptions.
-/

namespace Woterm.History.UseOrder
open Woterm.Lib Woterm.Lib.Recent Woterm.Qt Woterm.History.JsonLines Woterm.History.CommandHistory

variable (commands : List HistoryCommand) (command path : QString)

theorem withRoom_eq_take (bounded : commands.length ≤ 128) : withRoom commands = commands.take 127 := by
  unfold withRoom
  split_ifs with full
  · have length : commands.length - 1 = 127 := by
      change 128 ≤ commands.length at full
      omega
    rw [List.dropLast_eq_take, length]
  · exact (List.take_of_length_le (Nat.le_of_lt_succ (not_le.mp full))).symm

/-! ## A command is used again -/

/-- The order of last use: the list after a command was used, and what it means for a command that
was stored before. -/
structure MostRecent (before after : List HistoryCommand) (command path : QString) : Prop where
  list : after = touch HistoryCommand.cmd maxHistoryCommandCount ⟨command, path⟩ before
  kept : command ∈ before.map HistoryCommand.cmd → ∀ hc ∈ before, hc.cmd ≠ command → hc ∈ after
  front : command ∈ before.map HistoryCommand.cmd → after.head? = some ⟨command, path⟩

theorem mostRecent_iff (before after : List HistoryCommand) (sound : Sound before) :
    MostRecent before after command path ↔
      after = touch HistoryCommand.cmd maxHistoryCommandCount ⟨command, path⟩ before := by
  refine ⟨fun recent => recent.list, ?_⟩
  rintro rfl
  have positive : 0 < maxHistoryCommandCount := by decide
  exact ⟨rfl, touch_kept ⟨command, path⟩ sound, fun _ => touch_head positive _⟩

/-- A stored command can be brought to the front: in a full list only the last one, in any other list
all but the last one, which may be the first. -/
def Movable : Prop := ∀ i < commands.length, (commands.map HistoryCommand.cmd)[i]? = some command →
  if commands.length = 128 then i = 127 else i = 0 ∨ i + 1 < commands.length

instance : Decidable (Movable commands command) :=
  inferInstanceAs (Decidable (∀ i < commands.length, _ → _))

theorem addEntry_fresh (sound : Sound commands) (new : command ∉ commands.map HistoryCommand.cmd) :
    (addEntry commands command path).1 =
      touch HistoryCommand.cmd maxHistoryCommandCount ⟨command, path⟩ commands := by
  have room : command ∉ (withRoom commands).map HistoryCommand.cmd :=
    fun member => new (((withRoom_sublist commands).map _).subset member)
  rw [addEntry_new commands command path room, withRoom_eq_take commands sound.bounded]
  exact (touch_new (HistoryCommand.mk command path) new).symm

section
variable {front back : List HistoryCommand} {hc : HistoryCommand} (same : hc.cmd = command)
  (sound : Sound (front ++ hc :: back))
include same sound

theorem movable_iff : Movable (front ++ hc :: back) command ↔
    if (front ++ hc :: back).length = 128 then back = [] else front = [] ∨ back ≠ [] := by
  have index := sound.index
  rw [same] at index
  have inside : front.length < (front ++ hc :: back).length := by simp
  have last : front.length + 1 < (front ++ hc :: back).length ↔ back ≠ [] := by
    rw [← List.length_pos_iff, List.length_append, List.length_cons]
    omega
  have stands : Movable (front ++ hc :: back) command ↔ if (front ++ hc :: back).length = 128 then front.length = 127
      else front.length = 0 ∨ front.length + 1 < (front ++ hc :: back).length := by
    refine ⟨fun movable => movable _ inside ((index _).mpr rfl), ?_⟩
    intro stands i _ found
    rwa [(index i).mp found]
  rw [stands, last, List.length_eq_zero_iff]
  split_ifs with full
  · rw [← List.length_eq_zero_iff]
    rw [List.length_append, List.length_cons] at full
    omega
  · exact Iff.rfl

theorem addEntry_short (short : (front ++ hc :: back).length < 128) :
    (addEntry (front ++ hc :: back) command path).1 = ⟨command, path⟩ :: (front ++ back) ↔
      front = [] ∨ back ≠ [] := by
  have whole : withRoom (front ++ hc :: back) = front ++ hc :: back := if_neg (not_le.mpr short)
  rw [addEntry_stored _ command path whole sound.around same, whole]
  split_ifs with last
  · obtain ⟨nonempty, rfl⟩ := last
    obtain ⟨first, rest, rfl⟩ := List.exists_cons_of_ne_nil nonempty
    refine iff_of_false ?_ (by simp)
    intro moved
    have head : first = ⟨command, path⟩ := (List.cons.inj moved).1
    apply sound.around.front
    simp [head, same]
  · refine iff_of_true rfl ?_
    by_contra neither
    rw [not_or, not_not] at neither
    exact last neither

theorem addEntry_full (full : (front ++ hc :: back).length = 128) :
    (addEntry (front ++ hc :: back) command path).1 = ⟨command, path⟩ :: (front ++ back) ↔ back = [] := by
  have room := withRoom_eq_take _ (le_of_eq full)
  rcases List.eq_nil_or_concat' back with rfl | ⟨inner, last, rfl⟩
  · have others : withRoom (front ++ [hc]) = front := by
      rw [room, List.take_left']
      simpa using full
    have new : command ∉ (withRoom (front ++ [hc])).map HistoryCommand.cmd := by
      rw [others, ← same]
      exact sound.around.front
    rw [addEntry_new _ command path new, others, List.append_nil]
    exact iff_of_true rfl rfl
  · have others : withRoom (front ++ hc :: (inner ++ [last])) = front ++ hc :: inner := by
      rw [room, ← List.cons_append, ← List.append_assoc, List.take_left']
      simp only [List.length_append, List.length_cons, List.length_nil] at full ⊢
      omega
    have around : Around HistoryCommand.cmd front hc inner := by
      have distinct := withRoom_distinct _ sound
      rw [others] at distinct
      exact distinct.around
    rw [addEntry_stored _ command path others around same, others]
    refine iff_of_false ?_ (by simp)
    intro moved
    -- whether the command is moved or not, one command is missing
    have lengths := congrArg List.length moved
    split_ifs at lengths <;> simp at lengths

end

theorem addEntry_iff (sound : Sound commands) :
    (addEntry commands command path).1 = touch HistoryCommand.cmd maxHistoryCommandCount ⟨command, path⟩ commands ↔
      Movable commands command := by
  by_cases stored : command ∈ commands.map HistoryCommand.cmd
  · obtain ⟨front, hc, back, rfl, same, -⟩ := exists_around sound command stored
    rw [touch_stored ⟨command, path⟩ same sound, movable_iff command same sound]
    split_ifs with full
    · exact addEntry_full command path same sound full
    · exact addEntry_short command path same sound (lt_of_le_of_ne sound.bounded full)
  · refine iff_of_true (addEntry_fresh commands command path sound stored) ?_
    intro i _ found
    exact absurd (List.mem_of_getElem? found) stored

/-- A command that is used comes first, and the others follow in their order, if and only if it was
not stored or could be moved. -/
theorem add_mostRecent_iff (json : Json) (model : QWoCommandHistoryModel) (reachable : Reachable json model)
    (nonempty : command ≠ []) :
    MostRecent model.historyCommands (add command path model).1.historyCommands command path ↔
      Movable model.historyCommands command := by
  have sound := reachable_sound json model reachable
  have added : (add command path model).1.historyCommands = (addEntry model.historyCommands command path).1 := by
    rw [add, if_neg (by simpa using nonempty)]
  rw [mostRecent_iff command path _ _ sound, added]
  exact addEntry_iff model.historyCommands command path sound

/-- The second of three commands is used again. -/
theorem add_mostRecent_iff_second :
    Reachable compact (used compact [⟨['a'], []⟩, ⟨['b'], []⟩, ⟨['c'], []⟩]) ∧ ['b'] ≠ [] ∧
    MostRecent (used compact [⟨['a'], []⟩, ⟨['b'], []⟩, ⟨['c'], []⟩]).historyCommands
      (add ['b'] ['/'] (used compact [⟨['a'], []⟩, ⟨['b'], []⟩, ⟨['c'], []⟩])).1.historyCommands ['b'] ['/'] :=
  ⟨used_reachable compact _, by decide,
    (add_mostRecent_iff ['b'] ['/'] compact _ (used_reachable compact _) (by decide)).mpr (by decide)⟩

/-- The older of two commands is not brought to the front. -/
theorem oldest_stays : ¬ MostRecent (used compact [⟨['a'], []⟩, ⟨['b'], []⟩]).historyCommands
    (add ['a'] [] (used compact [⟨['a'], []⟩, ⟨['b'], []⟩])).1.historyCommands ['a'] [] := by
  intro recent
  exact absurd recent.list (by decide)

/-! ## The history is read back -/

theorem foldl_addEntry (entries stored : List HistoryCommand) (sound : Sound (entries.reverse ++ stored)) :
    entries.foldl (fun commands hc => (addEntry commands hc.cmd hc.path).1) stored = entries.reverse ++ stored := by
  induction entries generalizing stored with
  | nil => rfl
  | cons hc entries ih =>
    rw [List.reverse_cons, List.append_assoc, List.singleton_append] at sound ⊢
    have bounded : (hc :: stored).length ≤ 128 :=
      le_trans (List.sublist_append_right entries.reverse _).length_le sound.bounded
    have all : withRoom stored = stored := by
      rw [List.length_cons] at bounded
      rw [withRoom_eq_take stored (by omega), List.take_of_length_le (by omega)]
    have new : hc.cmd ∉ (withRoom stored).map HistoryCommand.cmd := by
      rw [all]
      exact sound.around.back
    rw [List.foldl_cons, addEntry_new stored hc.cmd hc.path new, all, ih _ sound]

variable (json : Json)

theorem lines_contents (faithful : Faithful json) :
    ((contents json commands).splitOn 10).filterMap json.fromJson = commands := by
  have written : contents json commands = Text.unlines 10 (commands.map json.toJson) := by
    rw [contents, Text.unlines, List.flatMap_map]
  have single : ∀ line ∈ commands.map json.toJson, 10 ∉ line := by
    intro line member
    obtain ⟨hc, -, rfl⟩ := List.mem_map.mp member
    exact faithful.line hc
  have read : json.fromJson ∘ json.toJson = some := funext faithful.read
  rw [written, Text.splitOn_unlines 10 _ single, List.filterMap_append, List.filterMap_map, read, List.filterMap_some]
  simp [faithful.blank]

theorem foldl_addLine (lines : List QByteArray) (stored : List HistoryCommand) :
    lines.foldl (addLine json) stored =
      (lines.filterMap json.fromJson).foldl (fun commands hc => (addEntry commands hc.cmd hc.path).1) stored := by
  rw [List.foldl_filterMap]
  apply List.foldl_ext
  intro commands line _
  unfold addLine
  cases json.fromJson line with
  | none => rfl
  | some hc => rfl

/-- The next start finds the list in the opposite order. -/
theorem construct_contents (faithful : Faithful json) (sound : Sound commands) :
    (construct json true (some (contents json commands))).historyCommands = commands.reverse := by
  have reversed : Sound (commands.reverse ++ []) := by
    rw [List.append_nil]
    exact sound.perm (List.reverse_perm commands).symm
  change ((contents json commands).splitOn 10).foldl (addLine json) [] = _
  rw [foldl_addLine, lines_contents commands json faithful, foldl_addEntry commands [] reversed, List.append_nil]

/-- A history survives a restart if and only if it has at most one command. -/
theorem restart_iff (faithful : Faithful json) (model : QWoCommandHistoryModel) (reachable : Reachable json model) :
    (construct json true (save json true model).file).historyCommands = model.historyCommands ↔
      model.historyCommands.length ≤ 1 := by
  have sound := reachable_sound json model reachable
  have saved : (save json true model).file = some (contents json model.historyCommands) := rfl
  rw [saved, construct_contents _ json faithful sound]
  exact sound.reverse

theorem restart_iff_one : Faithful compact ∧ Reachable compact (used compact [⟨['l', 's'], ['/']⟩]) ∧
    (construct compact true (save compact true (used compact [⟨['l', 's'], ['/']⟩])).file).historyCommands =
      (used compact [⟨['l', 's'], ['/']⟩]).historyCommands :=
  ⟨compact_faithful, used_reachable compact _,
    (restart_iff compact compact_faithful _ (used_reachable compact _)).mpr (by decide)⟩

/-- Two commands come back in the opposite order. -/
theorem restart_reverses :
    (construct compact true (save compact true (used compact [⟨['a'], []⟩, ⟨['b'], []⟩])).file).historyCommands =
      [⟨['a'], []⟩, ⟨['b'], []⟩] ∧
    (used compact [⟨['a'], []⟩, ⟨['b'], []⟩]).historyCommands = [⟨['b'], []⟩, ⟨['a'], []⟩] := by
  refine ⟨?_, by decide⟩
  exact construct_contents _ compact compact_faithful (reachable_sound compact _ (used_reachable compact _))

end Woterm.History.UseOrder
