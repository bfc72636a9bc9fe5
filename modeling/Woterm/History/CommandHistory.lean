import Woterm.History.JsonLines
import Woterm.Lib.Recent
import Woterm.Lib.Word32

/-!
The history of commands of one host, `QWoCommandHistoryModel`: a list of at most 128 commands with
the latest one first, kept in a file.
-/

namespace Woterm.History.CommandHistory
open Woterm.Lib Woterm.Lib.Recent Woterm.Lib.Word32 Woterm.Qt Woterm.History.JsonLines

/-! ## The model -/

/-- `MAX_HISTORY_COMMAND_COUNT`. -/
def maxHistoryCommandCount : Nat := 128

/-- `_add`. Commands are compared without their paths. -/
def addEntry (commands : List HistoryCommand) (command path : QString) : List HistoryCommand × Bool :=
  let hc : HistoryCommand := ⟨command, path⟩
  -- the last command gives way before the new one is looked for
  let commands := if maxHistoryCommandCount ≤ commands.length then commands.dropLast else commands
  match commands.findIdx? fun other => other.cmd = hc.cmd with
  | none => (hc :: commands, true)
  | some idx =>
    if 0 < idx ∧ commands.length ≤ idx + 1 then (commands, false)
    else (hc :: commands.eraseIdx idx, true)

/-- The list, and the file of the history if there is one. -/
structure QWoCommandHistoryModel where
  historyCommands : List HistoryCommand := []
  file : Option QByteArray

def add (command path : QString) (model : QWoCommandHistoryModel) : QWoCommandHistoryModel × Bool :=
  if command.isEmpty then (model, false)
  else
    let (commands, ok) := addEntry model.historyCommands command path
    ({ model with historyCommands := commands }, ok)

variable (json : Json)

/-- A line of the file; one that is no object is passed over. -/
def addLine (commands : List HistoryCommand) (line : QByteArray) : List HistoryCommand :=
  match json.fromJson line with
  | some hc => (addEntry commands hc.cmd hc.path).1
  | none => commands

def reload (readable : Bool) (model : QWoCommandHistoryModel) : QWoCommandHistoryModel × Bool :=
  match model.file with
  | none => (model, false)
  | some buf =>
    if readable then
      ({ model with historyCommands := (buf.splitOn 10).foldl (addLine json) model.historyCommands }, true)
    else (model, false)

/-- The constructor. -/
def construct (readable : Bool) (file : Option QByteArray) : QWoCommandHistoryModel :=
  (reload json readable { file := file }).1

/-- The contents that `save` writes. -/
def contents (commands : List HistoryCommand) : QByteArray :=
  commands.flatMap fun hc => json.toJson hc ++ [10]

def save (writable : Bool) (model : QWoCommandHistoryModel) : QWoCommandHistoryModel :=
  if writable then { model with file := some (contents json model.historyCommands) } else model

/-- `removeRows`. The sum of the row and the count is an `int`; rows that are not there cannot be
erased, so there is no result then. -/
def removeRows (writable : Bool) (row count : Int) (model : QWoCommandHistoryModel) :
    Option (QWoCommandHistoryModel × Bool) :=
  if count ≤ 0 ∨ row < 0 ∨ (model.historyCommands.length : Int) < wrap (row + count) then some (model, false)
  else if row + count ≤ model.historyCommands.length then
    let erased := model.historyCommands.take row.toNat ++ model.historyCommands.drop (row + count).toNat
    some (save json writable { model with historyCommands := erased }, true)
  else none

/-- The histories of all runs. -/
inductive Reachable : QWoCommandHistoryModel → Prop
  | constructed (readable : Bool) (file : Option QByteArray) : Reachable (construct json readable file)
  | add (model : QWoCommandHistoryModel) (command path : QString) :
      Reachable model → Reachable (add command path model).1
  | removeRows (model next : QWoCommandHistoryModel) (writable : Bool) (row count : Int) (ok : Bool) :
      Reachable model → removeRows json writable row count model = some (next, ok) → Reachable next
  | save (model : QWoCommandHistoryModel) (writable : Bool) : Reachable model → Reachable (save json writable model)

/-- A history without a file, after commands were used one after the other. -/
def used (uses : List HistoryCommand) : QWoCommandHistoryModel :=
  uses.foldl (fun model hc => (add hc.cmd hc.path model).1) (construct json true none)

theorem used_reachable (uses : List HistoryCommand) : Reachable json (used json uses) := by
  unfold used
  induction uses using List.reverseRecOn with
  | nil => exact .constructed true none
  | append_singleton uses hc ih =>
    rw [List.foldl_append]
    exact .add _ hc.cmd hc.path ih

/-! ## What is added -/

/-- The list with a place for one more command. -/
def withRoom (commands : List HistoryCommand) : List HistoryCommand :=
  if maxHistoryCommandCount ≤ commands.length then commands.dropLast else commands

theorem withRoom_sublist (commands : List HistoryCommand) : (withRoom commands).Sublist commands := by
  unfold withRoom
  split_ifs
  · exact List.dropLast_sublist commands
  · exact List.Sublist.refl commands

theorem withRoom_distinct (commands : List HistoryCommand)
    (distinct : Distinct HistoryCommand.cmd maxHistoryCommandCount commands) :
    Distinct HistoryCommand.cmd 127 (withRoom commands) := by
  refine ⟨(distinct.sublist (withRoom_sublist commands)).nodup, ?_⟩
  have bounded : commands.length ≤ 128 := distinct.bounded
  unfold withRoom
  split_ifs with full
  · rw [List.length_dropLast]
    omega
  · exact Nat.le_of_lt_succ (not_le.mp full)

variable (commands : List HistoryCommand) (command path : QString)

theorem addEntry_new (new : command ∉ (withRoom commands).map HistoryCommand.cmd) :
    addEntry commands command path = (⟨command, path⟩ :: withRoom commands, true) := by
  have missed : (withRoom commands).findIdx? (fun other => other.cmd = command) = none := by
    rw [List.findIdx?_eq_none_iff]
    intro other member
    rw [decide_eq_false_iff_not]
    rintro rfl
    exact new (List.mem_map_of_mem member)
  unfold addEntry
  rw [← withRoom]
  simp only [missed]

theorem addEntry_stored {front back : List HistoryCommand} {hc : HistoryCommand}
    (split : withRoom commands = front ++ hc :: back) (around : Around HistoryCommand.cmd front hc back)
    (same : hc.cmd = command) :
    addEntry commands command path = if front ≠ [] ∧ back = [] then (withRoom commands, false)
      else (⟨command, path⟩ :: (front ++ back), true) := by
  have found : (withRoom commands).findIdx? (fun other => other.cmd = command) = some front.length := by
    rw [split, ← same]
    exact findIdx_around around
  have last : (0 < front.length ∧ (withRoom commands).length ≤ front.length + 1) ↔ front ≠ [] ∧ back = [] := by
    rw [split, List.length_pos_iff, ← List.length_eq_zero_iff (l := back), List.length_append, List.length_cons]
    refine and_congr_right fun _ => ?_
    omega
  have erased : (withRoom commands).eraseIdx front.length = front ++ back := by
    rw [split, List.eraseIdx_append_of_length_le (le_refl _), Nat.sub_self, List.eraseIdx_cons_zero]
  unfold addEntry
  rw [← withRoom]
  simp only [found, last, erased]

/-! ## The invariant -/

/-- No command is stored twice, and at most 128 are stored. -/
abbrev Sound (commands : List HistoryCommand) : Prop := Distinct HistoryCommand.cmd maxHistoryCommandCount commands

theorem addEntry_sound (sound : Sound commands) : Sound (addEntry commands command path).1 := by
  have room := withRoom_distinct commands sound
  by_cases stored : command ∈ (withRoom commands).map HistoryCommand.cmd
  · obtain ⟨front, hc, back, split, same, around⟩ := exists_around room command stored
    rw [addEntry_stored commands command path split around same]
    split_ifs
    · exact sound.sublist (withRoom_sublist commands)
    · have others : Distinct HistoryCommand.cmd 127 (front ++ back) := by
        rw [split] at room
        exact room.sublist ((List.Sublist.refl front).append (List.sublist_cons_self hc back))
      apply others.cons
      rw [← same, List.map_append, List.mem_append, not_or]
      exact ⟨around.front, around.back⟩
  · rw [addEntry_new commands command path stored]
    exact room.cons ⟨command, path⟩ stored

theorem addLines_sound (lines : List QByteArray) (sound : Sound commands) :
    Sound (lines.foldl (addLine json) commands) := by
  induction lines generalizing commands with
  | nil => exact sound
  | cons line lines ih =>
    apply ih
    unfold addLine
    cases json.fromJson line with
    | none => exact sound
    | some hc => exact addEntry_sound commands hc.cmd hc.path sound

variable (model : QWoCommandHistoryModel)

theorem reload_sound (readable : Bool) (sound : Sound model.historyCommands) :
    Sound (reload json readable model).1.historyCommands := by
  unfold reload
  cases model.file with
  | none => exact sound
  | some buf =>
    cases readable with
    | false => exact sound
    | true => exact addLines_sound json model.historyCommands (buf.splitOn 10) sound

theorem add_sound (sound : Sound model.historyCommands) : Sound (add command path model).1.historyCommands := by
  unfold add
  split_ifs
  · exact sound
  · exact addEntry_sound model.historyCommands command path sound

theorem save_commands (writable : Bool) : (save json writable model).historyCommands = model.historyCommands := by
  cases writable with
  | false => rfl
  | true => rfl

theorem removeRows_sound (writable : Bool) (row count : Int) (next : QWoCommandHistoryModel) (ok : Bool)
    (removed : removeRows json writable row count model = some (next, ok)) (sound : Sound model.historyCommands) :
    Sound next.historyCommands := by
  unfold removeRows at removed
  split_ifs at removed with refused inside
  · obtain ⟨rfl, -⟩ := Prod.mk.inj (Option.some.inj removed)
    exact sound
  · obtain ⟨rfl, -⟩ := Prod.mk.inj (Option.some.inj removed)
    rw [save_commands]
    apply sound.sublist
    have order : row.toNat ≤ (row + count).toNat := by omega
    calc
      (model.historyCommands.take row.toNat ++ model.historyCommands.drop (row + count).toNat).Sublist
          (model.historyCommands.take row.toNat ++ model.historyCommands.drop row.toNat) :=
        (List.Sublist.refl _).append (List.drop_sublist_drop_left _ order)
      _ = model.historyCommands := List.take_append_drop _ _

theorem reachable_sound (reachable : Reachable json model) : Sound model.historyCommands := by
  induction reachable with
  | constructed readable file => exact reload_sound json { file := file } readable ⟨List.nodup_nil, Nat.zero_le _⟩
  | add model command path _ sound => exact add_sound command path model sound
  | removeRows model next writable row count ok _ removed sound =>
    exact removeRows_sound json model writable row count next ok removed sound
  | save model writable _ sound =>
    rw [save_commands]
    exact sound

/-- Over every run, no command is stored twice and at most 128 are stored. -/
theorem history_invariant (reachable : Reachable json model) :
    (model.historyCommands.map HistoryCommand.cmd).Nodup ∧ model.historyCommands.length ≤ 128 :=
  ⟨(reachable_sound json model reachable).nodup, (reachable_sound json model reachable).bounded⟩

theorem history_invariant_used :
    Reachable compact (used compact [⟨['l', 's'], []⟩, ⟨['c', 'd'], ['/']⟩, ⟨['l', 's'], ['/']⟩]) ∧
      ((used compact [⟨['l', 's'], []⟩, ⟨['c', 'd'], ['/']⟩, ⟨['l', 's'], ['/']⟩]).historyCommands.map
        HistoryCommand.cmd).Nodup :=
  ⟨used_reachable compact _, (history_invariant compact _ (used_reachable compact _)).1⟩

end Woterm.History.CommandHistory
