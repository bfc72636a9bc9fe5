import Mathlib.Data.List.Perm.Subperm
import Woterm.History.CommandHistory
import Woterm.Lib.Rows

/-!
Deleting commands in the view of the history, `QWoCommandHistoryForm`. The view shows the rows that
pass its filter, and the selection is turned into a first row and a count.
-/

namespace Woterm.History.Form
open Woterm.Lib Woterm.Lib.Recent Woterm.Lib.Rows Woterm.Lib.Word32 Woterm.Qt Woterm.History.JsonLines
open Woterm.History.CommandHistory

/-! ## The view -/

/-- The rows of the list behind the rows of the view: `QSortFilterProxyModel`, which is never sorted. -/
def sourceRows (shown : HistoryCommand → Bool) (commands : List HistoryCommand) : List Nat :=
  (List.range commands.length).filter fun row => commands[row]?.any shown

def behind (sources view : List Nat) : List Nat := view.filterMap fun row => sources[row]?

variable (json : Json) (writable : Bool)

/-- Removes rows of the list from the last to the first. Qt takes neighbours together. -/
def removeEach (model : QWoCommandHistoryModel) : List Nat → Option QWoCommandHistoryModel
  | [] => some model
  | row :: rows =>
    (removeEach model rows).bind fun model => (removeRows json writable row 1 model).map Prod.fst

def proxyRemoveRows (shown : HistoryCommand → Bool) (row count : Nat) (model : QWoCommandHistoryModel) :
    Option QWoCommandHistoryModel :=
  let sources := sourceRows shown model.historyCommands
  if sources.length < row + count then some model
  else removeEach json writable model (behind sources (List.range' row count))

/-- `onDeleteReady`, with the selected rows in the order in which the selection reports them. -/
def onDeleteReady (shown : HistoryCommand → Bool) (selected : List Nat) (model : QWoCommandHistoryModel) :
    Option QWoCommandHistoryModel :=
  match selected with
  | [] => some model
  | row :: _ => proxyRemoveRows json writable shown row selected.length model

/-! ## The rows that are removed -/

theorem sourceRows_ordered (shown : HistoryCommand → Bool) (commands : List HistoryCommand) :
    (sourceRows shown commands).Pairwise (· < ·) :=
  List.pairwise_lt_range.filter _

theorem sourceRows_inside (shown : HistoryCommand → Bool) (commands : List HistoryCommand) :
    ∀ row ∈ sourceRows shown commands, row < commands.length := by
  intro row member
  exact List.mem_range.mp (List.mem_of_mem_filter member)

section
variable {sources : List Nat} (ordered : sources.Pairwise (· < ·))
include ordered

theorem behind_ordered (view : List Nat) (increasing : view.Pairwise (· < ·)) :
    (behind sources view).Pairwise (· < ·) := by
  apply increasing.filterMap
  intro first second before row found other found'
  obtain ⟨inside, rfl⟩ := List.getElem?_eq_some_iff.mp found
  obtain ⟨inside', rfl⟩ := List.getElem?_eq_some_iff.mp found'
  exact List.pairwise_iff_getElem.mp ordered first second inside inside' before

theorem mem_behind (view : List Nat) (row source : Nat) (found : sources[row]? = some source) :
    source ∈ behind sources view ↔ row ∈ view := by
  unfold behind
  rw [List.mem_filterMap]
  refine ⟨?_, fun member => ⟨row, member, found⟩⟩
  rintro ⟨other, member, same⟩
  have nodup : sources.Nodup := ordered.imp fun less => Nat.ne_of_lt less
  rwa [(List.getElem?_inj (List.getElem?_eq_some_iff.mp found).1 nodup).mp (found.trans same.symm)]

end

theorem removeRows_one (row : Nat) (model : QWoCommandHistoryModel) (bounded : model.historyCommands.length ≤ 128)
    (inside : row < model.historyCommands.length) :
    removeRows json writable row 1 model =
      some (save json writable { model with historyCommands := model.historyCommands.eraseIdx row }, true) := by
  have sum : wrap ((row : Int) + 1) = row + 1 := by
    unfold wrap
    omega
  rw [removeRows, if_neg (by rw [sum]; omega), if_pos (by omega), List.eraseIdx_eq_take_drop_succ]
  rfl

/-- Rows that are removed in their order from the last one are exactly those that are missing then. -/
theorem removeEach_spec (model : QWoCommandHistoryModel) (bounded : model.historyCommands.length ≤ 128)
    (rows : List Nat) (ordered : rows.Pairwise (· < ·)) (inside : ∀ row ∈ rows, row < model.historyCommands.length) :
    (removeEach json writable model rows).map QWoCommandHistoryModel.historyCommands =
      some (withoutRows rows model.historyCommands) := by
  induction rows with
  | nil => exact congrArg some (keep_nil 0 _).symm
  | cons row rows ih =>
    obtain ⟨above, ordered⟩ := List.pairwise_cons.mp ordered
    obtain ⟨here, inside⟩ := List.forall_mem_cons.mp inside
    obtain ⟨next, removed, left⟩ := Option.map_eq_some_iff.mp (ih ordered inside)
    obtain ⟨room, erased⟩ := withoutRows_erase row rows model.historyCommands here above
    rw [← left] at room erased
    have fewer : next.historyCommands.length ≤ 128 := by
      rw [left]
      exact le_trans (withoutRows_sublist rows model.historyCommands).length_le bounded
    rw [removeEach, removed, Option.bind_some, removeRows_one json writable row next fewer room, Option.map_some,
      Option.map_some, save_commands, erased]

/-! ## The rows that are selected -/

def Deleted (shown : HistoryCommand → Bool) (selected : List Nat) (model : QWoCommandHistoryModel) : Prop :=
  (onDeleteReady json writable shown selected model).map QWoCommandHistoryModel.historyCommands =
    some (withoutRows (behind (sourceRows shown model.historyCommands) selected) model.historyCommands)

def removedRows (sources : List Nat) (row count : Nat) : List Nat :=
  if sources.length < row + count then [] else List.range' row count

theorem onDeleteReady_spec (shown : HistoryCommand → Bool) (row : Nat) (others : List Nat)
    (model : QWoCommandHistoryModel) (bounded : model.historyCommands.length ≤ 128) :
    (onDeleteReady json writable shown (row :: others) model).map QWoCommandHistoryModel.historyCommands =
      some (withoutRows (behind (sourceRows shown model.historyCommands)
        (removedRows (sourceRows shown model.historyCommands) row (others.length + 1))) model.historyCommands) := by
  unfold onDeleteReady proxyRemoveRows removedRows
  simp only [List.length_cons]
  split_ifs with beyond
  · exact congrArg some (keep_nil 0 _).symm
  · apply removeEach_spec json writable model bounded
    · exact behind_ordered (sourceRows_ordered shown _) _ List.pairwise_lt_range'
    · intro source member
      obtain ⟨row, -, found⟩ := List.mem_filterMap.mp member
      exact sourceRows_inside shown _ source (List.mem_of_getElem? found)

theorem mem_interval (first : Nat) (others : List Nat) (distinct : (first :: others).Nodup)
    (consecutive : ∀ row ∈ first :: others, first ≤ row ∧ row < first + (others.length + 1)) (row : Nat) :
    row ∈ first :: others ↔ row ∈ List.range' first (others.length + 1) := by
  have subset : first :: others ⊆ List.range' first (others.length + 1) := by
    intro row member
    exact List.mem_range'_1.mpr (consecutive row member)
  have same := (List.subperm_of_subset distinct subset).perm_of_length_le (by simp)
  exact same.mem_iff

/-- The selected rows are deleted if and only if they stand together and the first of them is reported
first. -/
theorem deleted_iff (shown : HistoryCommand → Bool) (first : Nat) (others : List Nat)
    (model : QWoCommandHistoryModel) (reachable : Reachable json model) (distinct : (first :: others).Nodup)
    (valid : ∀ row ∈ first :: others, row < (sourceRows shown model.historyCommands).length) :
    Deleted json writable shown (first :: others) model ↔
      ∀ row ∈ first :: others, first ≤ row ∧ row < first + (first :: others).length := by
  have sound := reachable_sound json model reachable
  have ordered := sourceRows_ordered shown model.historyCommands
  have inside := sourceRows_inside shown model.historyCommands
  rw [Deleted, onDeleteReady_spec json writable shown first others model sound.bounded, Option.some.injEq,
    withoutRows_eq_iff _ _ _ sound.nodup.of_map]
  generalize sourceRows shown model.historyCommands = sources at valid ordered inside ⊢
  -- the view only matters through the rows of the list behind it
  refine ⟨?_, ?_⟩
  · intro same row selected
    have found := List.getElem?_eq_getElem (valid row selected)
    have there := inside _ (List.mem_of_getElem? found)
    have removed : row ∈ removedRows sources first (others.length + 1) := by
      rw [← mem_behind ordered _ row _ found, same _ there, mem_behind ordered _ row _ found]
      exact selected
    unfold removedRows at removed
    split_ifs at removed
    · exact absurd removed List.not_mem_nil
    · exact List.mem_range'_1.mp removed
  · intro consecutive
    have interval := mem_interval first others distinct consecutive
    have last : first + others.length < sources.length := by
      apply valid
      rw [interval, List.mem_range'_1]
      omega
    have all : removedRows sources first (others.length + 1) = List.range' first (others.length + 1) :=
      if_neg (by omega)
    intro source _
    simp only [all, behind, List.mem_filterMap, interval]

def three : QWoCommandHistoryModel := used compact [⟨['c'], []⟩, ⟨['b'], []⟩, ⟨['a'], []⟩]

theorem deleted_iff_three : Reachable compact three ∧ Deleted compact true (fun _ => true) [0, 1] three :=
  ⟨used_reachable compact _,
    (deleted_iff compact true (fun _ => true) 0 [1] three (used_reachable compact _) (by decide)
      (by decide)).mpr (by decide)⟩

/-- If the first and the third of three commands are selected, the first and the second are removed. -/
theorem neighbour_deleted :
    (onDeleteReady compact true (fun _ => true) [0, 2] three).map QWoCommandHistoryModel.historyCommands =
      some [⟨['c'], []⟩] ∧ ¬ Deleted compact true (fun _ => true) [0, 2] three := by
  unfold Deleted
  decide

end Woterm.History.Form
