import Mathlib.Data.List.Rotate
import Mathlib.Tactic.SplitIfs
import Woterm.Konsole.Character
import Woterm.Lib.Ring

/-!
The lines that have scrolled off the screen (`History.cpp`). `HistoryScrollBuffer` keeps a number of them in a ring.
`HistoryScrollFile` is meant for all of them, but the files behind it take nothing.
-/

namespace Woterm.Konsole.History
open Woterm.Lib

abbrev HistoryLine := List Character

structure HistoryScrollBuffer where
  historyBuffer : List HistoryLine
  wrappedLine : List Bool
  maxLineCount : Nat
  usedLines : Nat
  head : Int
deriving DecidableEq, Repr

/-- An assignment to an element of an array. -/
def store {α : Type} (array : List α) (i : Nat) (value : α) : Option (List α) :=
  if i < array.length then some (array.set i value) else none

namespace HistoryScrollBuffer

/-- A remainder by 0 has no result, and there is nothing at a negative index. -/
def bufferIndex (h : HistoryScrollBuffer) (lineNumber : Int) : Option Nat :=
  if h.usedLines = h.maxLineCount then
    if h.maxLineCount = 0 then none else atIndex ((h.head + lineNumber + 1).tmod h.maxLineCount)
  else atIndex lineNumber
where
  atIndex (i : Int) : Option Nat := if 0 ≤ i then some i.toNat else none

def lineAt (h : HistoryScrollBuffer) (lineNumber : Nat) : Option HistoryLine := do
  let i ← h.bufferIndex lineNumber
  h.historyBuffer[i]?

def addCellsVector (h : HistoryScrollBuffer) (cells : HistoryLine) : Option HistoryScrollBuffer := do
  let head := h.head + 1
  let usedLines := if h.usedLines < h.maxLineCount then h.usedLines + 1 else h.usedLines
  let head := if head ≥ h.maxLineCount then 0 else head
  let h := { h with head, usedLines }
  let i ← h.bufferIndex (usedLines - 1)
  return { h with historyBuffer := ← store h.historyBuffer i cells, wrappedLine := ← store h.wrappedLine i false }

def addLine (h : HistoryScrollBuffer) (previousWrapped : Bool) : Option HistoryScrollBuffer := do
  let i ← h.bufferIndex (h.usedLines - 1)
  return { h with wrappedLine := ← store h.wrappedLine i previousWrapped }

def getLineLen (h : HistoryScrollBuffer) (lineNumber : Nat) : Option Nat :=
  if lineNumber < h.usedLines then (h.lineAt lineNumber).map List.length else some 0

def isWrappedLine (h : HistoryScrollBuffer) (lineNumber : Nat) : Option Bool :=
  if lineNumber < h.usedLines then do
    let i ← h.bufferIndex lineNumber
    h.wrappedLine[i]?
  else some false

/-- The cells of a line that is not there are zeros. -/
def getCells (h : HistoryScrollBuffer) (lineNumber startColumn count : Nat) : Option (List Character) :=
  if count = 0 then some []
  else if lineNumber ≥ h.usedLines then
    some (List.replicate count { character := 0, foregroundColor := {}, backgroundColor := {} })
  else do
    let line ← h.lineAt lineNumber
    if startColumn + count ≤ line.length then some ((line.drop startColumn).take count) else none

/-- The lines are copied to the start of the new buffer, but not their flags. -/
def setMaxNbLines (h : HistoryScrollBuffer) (lineCount : Nat) : Option HistoryScrollBuffer := do
  let kept ← (List.range (min h.usedLines lineCount)).mapM h.lineAt
  let usedLines := min h.usedLines lineCount
  return {
    historyBuffer := kept ++ List.replicate (lineCount - kept.length) []
    wrappedLine := h.wrappedLine.take lineCount ++ List.replicate (lineCount - h.wrappedLine.length) false
    maxLineCount := lineCount
    usedLines
    head := if usedLines = lineCount then 0 else usedLines - 1 }

/-- The constructor. -/
def new (maxLineCount : Nat) : Option HistoryScrollBuffer :=
  setMaxNbLines { historyBuffer := [], wrappedLine := [], maxLineCount := 0, usedLines := 0, head := 0 } maxLineCount

end HistoryScrollBuffer

/-- The kinds of history. -/
inductive HistoryScroll where
  | none
  | file
  | buffer (h : HistoryScrollBuffer)
deriving DecidableEq, Repr

namespace HistoryScroll

def hasScroll : HistoryScroll → Bool
  | .none => false
  | .file | .buffer _ => true

def getLines : HistoryScroll → Nat
  | .none | .file => 0
  | .buffer h => h.usedLines

/-- `addCellsVector` and `addLine`. -/
def add (cells : HistoryLine) (wrapped : Bool) : HistoryScroll → Option HistoryScroll
  | .none => some .none
  | .file => some .file
  | .buffer h => do return .buffer (← (← h.addCellsVector cells).addLine wrapped)

def getLineLen (lineNumber : Nat) : HistoryScroll → Option Nat
  | .none | .file => some 0
  | .buffer h => h.getLineLen lineNumber

/-- The flag of the first line is not set by the file, so that it has no value. -/
def isWrappedLine (lineNumber : Nat) : HistoryScroll → Option Bool
  | .none => some false
  | .file => if lineNumber = 0 then Option.none else some false
  | .buffer h => h.isWrappedLine lineNumber

def getCells (lineNumber startColumn count : Nat) : HistoryScroll → Option (List Character)
  | .none | .file => some []
  | .buffer h => h.getCells lineNumber startColumn count

end HistoryScroll

/-! ## The ring -/

namespace HistoryScrollBuffer

/-- The place behind the latest line. -/
def next (h : HistoryScrollBuffer) : Nat := (h.head + 1).toNat

/-- A line and its flag. -/
def cell (h : HistoryScrollBuffer) (i : Nat) : HistoryLine × Bool :=
  (h.historyBuffer[i]?.getD [], h.wrappedLine[i]?.getD false)

/-- The lines that are kept, the oldest one first. -/
def lines (h : HistoryScrollBuffer) : List (HistoryLine × Bool) :=
  Ring.entries h.cell h.maxLineCount h.usedLines h.next

structure Valid (h : HistoryScrollBuffer) : Prop where
  room : 0 < h.maxLineCount
  lines : h.historyBuffer.length = h.maxLineCount
  flags : h.wrappedLine.length = h.maxLineCount
  head : -1 ≤ h.head
  tidy : Ring.Tidy h.maxLineCount h.usedLines h.next

theorem bufferIndex_eq (h : HistoryScrollBuffer) (head : -1 ≤ h.head)
    (tidy : Ring.Tidy h.maxLineCount h.usedLines h.next) (i : Nat) (inside : i < h.usedLines) :
    h.bufferIndex i = some (Ring.place h.maxLineCount h.usedLines h.next i) := by
  have used_le := tidy.used_le
  have next : (h.next : Int) = h.head + 1 := Int.toNat_of_nonneg (by omega)
  have sum : h.head + i + 1 = ((h.next + i : Nat) : Int) := by omega
  unfold bufferIndex Ring.place
  split
  · rw [if_neg (by omega), sum, ← Int.ofNat_tmod]
    exact if_pos (Int.natCast_nonneg _)
  · exact if_pos (Int.natCast_nonneg _)

/-- Where a line that is added goes. -/
def moved (h : HistoryScrollBuffer) : HistoryScrollBuffer :=
  { h with
    head := if h.head + 1 ≥ h.maxLineCount then 0 else h.head + 1
    usedLines := if h.usedLines < h.maxLineCount then h.usedLines + 1 else h.usedLines }

theorem moved_head (h : HistoryScrollBuffer) :
    h.moved.head = if h.head + 1 ≥ h.maxLineCount then 0 else h.head + 1 := rfl

theorem moved_usedLines (h : HistoryScrollBuffer) :
    h.moved.usedLines = if h.usedLines < h.maxLineCount then h.usedLines + 1 else h.usedLines := rfl

variable {h : HistoryScrollBuffer}

theorem Valid.moved (valid : h.Valid) :
    h.moved.next = Ring.target h.maxLineCount h.next + 1 ∧ h.moved.usedLines = min (h.usedLines + 1) h.maxLineCount ∧
      h.moved.Valid := by
  have used_le := valid.tidy.used_le
  have low := valid.head
  have next : (h.next : Int) = h.head + 1 := Int.toNat_of_nonneg (by omega)
  have head : -1 ≤ h.moved.head := by
    rw [moved_head]
    split <;> omega
  have place : h.moved.next = Ring.target h.maxLineCount h.next + 1 := by
    rw [HistoryScrollBuffer.next, moved_head, Ring.target]
    split_ifs <;> omega
  have used : h.moved.usedLines = min (h.usedLines + 1) h.maxLineCount := by
    rw [moved_usedLines]
    split <;> omega
  refine ⟨place, used, valid.room, valid.lines, valid.flags, head, ?_⟩
  rw [place, used]
  exact Ring.tidy_push valid.room valid.tidy

theorem Valid.index (valid : h.Valid) :
    h.moved.bufferIndex (h.moved.usedLines - 1) = some (Ring.target h.maxLineCount h.next) := by
  obtain ⟨next, used, after⟩ := valid.moved
  have positive : 0 < h.moved.usedLines := by
    have room := valid.room
    omega
  rw [show (h.moved.usedLines : Int) - 1 = ((h.moved.usedLines - 1 : Nat) : Int) by omega,
    bufferIndex_eq h.moved after.head after.tidy _ (by omega), next, used]
  exact congrArg some (Ring.place_last valid.room valid.tidy)

theorem Valid.add (valid : h.Valid) (cells : HistoryLine) (wrapped : Bool) :
    ∃ after, (h.addCellsVector cells).bind (·.addLine wrapped) = some after ∧ after.Valid ∧
      after.maxLineCount = h.maxLineCount ∧ after.lines = (h.lines ++ [(cells, wrapped)]).rtake h.maxLineCount := by
  obtain ⟨next, used, moved⟩ := valid.moved
  have inside := Ring.target_lt valid.room h.next
  generalize place : Ring.target h.maxLineCount h.next = i at next inside
  have first : h.addCellsVector cells = some { h.moved with
      historyBuffer := h.historyBuffer.set i cells, wrappedLine := h.wrappedLine.set i false } := by
    change (h.moved.bufferIndex (h.moved.usedLines - 1)).bind _ = _
    rw [valid.index, place, Option.bind_some]
    simp only [store, HistoryScrollBuffer.moved, valid.lines, valid.flags, inside, if_true]
    rfl
  have index : h.moved.bufferIndex (h.moved.usedLines - 1) = some i := valid.index.trans (congrArg some place)
  have flag : i < (h.wrappedLine.set i false).length := by
    rw [List.length_set, valid.flags]
    exact inside
  refine ⟨{ h.moved with
    historyBuffer := h.historyBuffer.set i cells, wrappedLine := (h.wrappedLine.set i false).set i wrapped }, ?_, ?_,
    rfl, ?_⟩
  · rw [first, Option.bind_some]
    change (h.moved.bufferIndex (h.moved.usedLines - 1)).bind _ = _
    rw [index, Option.bind_some]
    simp only [store, flag, if_true]
    rfl
  · refine ⟨moved.room, ?_, ?_, moved.head, moved.tidy⟩
    · rw [List.length_set]
      exact valid.lines
    · rw [List.length_set, List.length_set]
      exact valid.flags
  · have written : cell { h.moved with
        historyBuffer := h.historyBuffer.set i cells, wrappedLine := (h.wrappedLine.set i false).set i wrapped } =
        Function.update h.cell i (cells, wrapped) := by
      funext j
      by_cases here : j = i
      · subst here
        rw [Function.update_self]
        simp [cell, valid.lines, valid.flags, inside]
      · rw [Function.update_of_ne here]
        simp [cell, Ne.symm here]
    rw [HistoryScrollBuffer.lines, written, HistoryScrollBuffer.lines]
    change Ring.entries _ h.maxLineCount h.moved.usedLines h.moved.next = _
    rw [next, used, ← place]
    exact Ring.entries_push valid.room valid.tidy h.cell (cells, wrapped)

/-! ## Reading -/

theorem Valid.lineAt (valid : h.Valid) (i : Nat) (inside : i < h.usedLines) :
    h.lineAt i = some (h.cell (Ring.place h.maxLineCount h.usedLines h.next i)).1 := by
  have below : Ring.place h.maxLineCount h.usedLines h.next i < h.historyBuffer.length := by
    rw [valid.lines]
    exact Ring.place_lt valid.tidy inside
  rw [HistoryScrollBuffer.lineAt, bufferIndex_eq h valid.head valid.tidy i inside, Option.bind_eq_bind, Option.bind_some,
    cell, List.getElem?_eq_getElem below]
  rfl

theorem mapM_some {α β : Type} {f : α → Option β} {g : α → β} (list : List α) (all : ∀ a ∈ list, f a = some (g a)) :
    list.mapM f = some (list.map g) := by
  induction list with
  | nil => rfl
  | cons a list ih =>
    rw [List.mapM_cons, all a List.mem_cons_self, ih fun b member => all b (List.mem_cons_of_mem a member)]
    rfl

theorem Valid.isWrappedLine (valid : h.Valid) (i : Nat) (inside : i < h.usedLines) :
    h.isWrappedLine i = some (h.cell (Ring.place h.maxLineCount h.usedLines h.next i)).2 := by
  have below : Ring.place h.maxLineCount h.usedLines h.next i < h.wrappedLine.length := by
    rw [valid.flags]
    exact Ring.place_lt valid.tidy inside
  rw [HistoryScrollBuffer.isWrappedLine, if_pos inside, bufferIndex_eq h valid.head valid.tidy i inside,
    Option.bind_eq_bind, Option.bind_some, cell, List.getElem?_eq_getElem below]
  rfl

/-- All lines, as those who show the history read them. -/
def readBack (h : HistoryScrollBuffer) : Option (List (HistoryLine × Bool)) :=
  (List.range h.usedLines).mapM fun i => do
    let length ← h.getLineLen i
    return (← h.getCells i 0 length, ← h.isWrappedLine i)

theorem Valid.readBack (valid : h.Valid) : h.readBack = some h.lines := by
  refine mapM_some _ fun i member => ?_
  have inside := List.mem_range.mp member
  have cells : ∀ line, h.lineAt i = some line → h.getCells i 0 line.length = some line := by
    intro line found
    unfold getCells
    split
    next empty => rw [List.length_eq_zero_iff.mp empty]
    next =>
      rw [if_neg (Nat.not_le.mpr inside), found, Option.bind_eq_bind, Option.bind_some, if_pos (Nat.zero_add _).le,
        List.drop_zero, List.take_length]
  rw [getLineLen, if_pos inside, valid.lineAt i inside, Option.map_some, Option.bind_eq_bind, Option.bind_some,
    cells _ (valid.lineAt i inside), valid.isWrappedLine i inside]
  rfl

/-! ## A whole history -/

/-- A line with its flag goes to the history. -/
def push (h : HistoryScrollBuffer) (line : HistoryLine × Bool) : Option HistoryScrollBuffer :=
  (h.addCellsVector line.1).bind (·.addLine line.2)

theorem foldlM_push (valid : h.Valid) (added : List (HistoryLine × Bool)) :
    ∃ after, added.foldlM push h = some after ∧ after.Valid ∧ after.maxLineCount = h.maxLineCount ∧
      after.lines = (h.lines ++ added).rtake h.maxLineCount := by
  induction added generalizing h with
  | nil =>
    refine ⟨h, rfl, valid, rfl, ?_⟩
    rw [List.append_nil, Ring.rtake_of_length_le]
    rw [HistoryScrollBuffer.lines, Ring.length_entries]
    exact valid.tidy.used_le
  | cons line added ih =>
    obtain ⟨next, first, still, size, grown⟩ := valid.add line.1 line.2
    obtain ⟨after, rest, kept, same, all⟩ := ih still
    refine ⟨after, ?_, kept, same.trans size, ?_⟩
    · rw [List.foldlM_cons, show push h line = some next from first]
      exact rest
    · rw [all, grown, size, Ring.rtake_append, List.append_assoc]
      rfl

theorem new_eq (n : Nat) (room : 0 < n) :
    new n = some {
      historyBuffer := List.replicate n [], wrappedLine := List.replicate n false, maxLineCount := n, usedLines := 0,
      head := -1 } := by
  simp [new, setMaxNbLines, Nat.ne_of_lt room]

theorem new_valid (n : Nat) (room : 0 < n) :
    ∃ h, new n = some h ∧ h.Valid ∧ h.maxLineCount = n ∧ h.lines = [] :=
  ⟨_, new_eq n room, ⟨room, List.length_replicate, List.length_replicate, Int.le_refl _, Nat.zero_le n, fun _ => rfl,
    fun full => absurd full (Nat.ne_of_lt room)⟩, rfl, rfl⟩

/-- A history of some size keeps the latest lines, up to that number, and they are read as they were added. One of no
lines has no result for the first line that scrolls off the screen. -/
theorem history_keeps_latest (n : Nat) (added : List (HistoryLine × Bool)) :
    ((new n).bind fun h => added.foldlM push h).map HistoryScrollBuffer.lines =
        (if n = 0 ∧ added ≠ [] then none else some (added.rtake n)) ∧
      ((new n).bind fun h => added.foldlM push h).bind HistoryScrollBuffer.readBack =
        if n = 0 ∧ added ≠ [] then none else some (added.rtake n) := by
  rcases Nat.eq_zero_or_pos n with rfl | room
  · cases added with
    | nil => exact ⟨rfl, rfl⟩
    | cons line added => exact ⟨rfl, rfl⟩
  · obtain ⟨h, created, valid, size, empty⟩ := new_valid n room
    obtain ⟨after, pushed, still, _, all⟩ := foldlM_push valid added
    rw [if_neg (by omega), created, Option.bind_some, pushed, Option.map_some, Option.bind_some, still.readBack, all,
      empty, size, List.nil_append]
    exact ⟨rfl, rfl⟩

/-! ## The size of the ring -/

theorem Valid.kept (valid : h.Valid) (n : Nat) :
    (List.range (min h.usedLines n)).mapM h.lineAt = some ((h.lines.map Prod.fst).take n) := by
  rw [mapM_some (List.range (min h.usedLines n)) fun i member =>
    valid.lineAt i (by have inside := List.mem_range.mp member; omega), HistoryScrollBuffer.lines, Ring.entries,
    List.map_map, ← List.map_take, List.take_range, Nat.min_comm]
  rfl

/-- A ring of another size keeps its lines if it does not get full. Otherwise it keeps the oldest ones instead of the
latest, and shows the first of them behind the others. -/
theorem setMaxNbLines_lines {h : HistoryScrollBuffer} (valid : h.Valid) (n : Nat) (room : 0 < n) :
    ∃ after, h.setMaxNbLines n = some after ∧ after.Valid ∧
      after.lines.map Prod.fst =
        if h.usedLines < n then h.lines.map Prod.fst else ((h.lines.map Prod.fst).take n).rotate 1 := by
  have length : (h.lines.map Prod.fst).length = h.usedLines := by
    rw [List.length_map, HistoryScrollBuffer.lines, Ring.length_entries]
  generalize all : h.lines.map Prod.fst = old at length
  have kept := valid.kept n
  rw [all] at kept
  have count : (old.take n).length = min h.usedLines n := by rw [List.length_take, length, Nat.min_comm]
  refine ⟨_, by rw [setMaxNbLines, kept]; rfl, ?_, ?_⟩
  · refine ⟨room, ?_, ?_, ?_, Nat.min_le_right _ _, fun free => ?_, fun full => ?_⟩
    · simp only [List.length_append, List.length_replicate]
      omega
    · simp only [List.length_append, List.length_take, List.length_replicate]
      omega
    · dsimp only
      split <;> omega
    · simp only [next, if_neg (Nat.ne_of_lt free)]
      omega
    · simp only [next, if_pos full]
      omega
  · apply List.ext_getElem?
    intro i
    rw [HistoryScrollBuffer.lines, List.getElem?_map]
    rcases Nat.lt_or_ge i (min h.usedLines n) with inside | outside
    · rw [Ring.getElem?_entries _ _ _ _ _ inside, Option.map_some, cell, Ring.place]
      rcases Nat.lt_or_ge h.usedLines n with free | full
      · simp only [if_neg (show min h.usedLines n ≠ n by omega), if_pos free]
        rw [List.getElem?_append_left (by omega), List.getElem?_take_of_lt (by omega),
          List.getElem?_eq_getElem (by omega), Option.getD_some]
      · have below : (1 + i) % n < (old.take n).length := by
          rw [count, Nat.min_eq_right full]
          exact Nat.mod_lt _ room
        simp only [next, if_pos (show min h.usedLines n = n by omega), if_neg (Nat.not_lt.mpr full)]
        rw [List.getElem?_rotate (by omega), count, Nat.min_eq_right full, Nat.add_comm i 1,
          show ((0 : Int) + 1).toNat = 1 from rfl, List.getElem?_append_left below, List.getElem?_eq_getElem below]
        rfl
    · rw [List.getElem?_eq_none (by rw [Ring.length_entries]; exact outside), Option.map_none, eq_comm]
      apply List.getElem?_eq_none
      split
      · omega
      · rw [List.length_rotate]
        omega

theorem setMaxNbLines_three : ∃ h after,
    ((new 3).bind fun h => [([], false), ([{}], false), ([{}, {}], false)].foldlM push h) = some h ∧
      h.setMaxNbLines 2 = some after ∧ after.lines.map Prod.fst = [[{}], []] := by
  obtain ⟨h, created, valid, size, empty⟩ := new_valid 3 (by decide)
  obtain ⟨full, pushed, still, _, all⟩ := foldlM_push valid [([], false), ([{}], false), ([{}, {}], false)]
  obtain ⟨after, found, _, lines⟩ := setMaxNbLines_lines still 2 (by decide)
  have used : full.usedLines = 3 := by
    have length := congrArg List.length all
    rw [HistoryScrollBuffer.lines, Ring.length_entries, empty, size] at length
    exact length
  refine ⟨full, after, by rw [created]; exact pushed, found, ?_⟩
  rw [lines, used, all, empty, size]
  rfl

end HistoryScrollBuffer

end Woterm.Konsole.History
