import Woterm.Lib.Run
import Woterm.Terminal.Bounds
import Woterm.Terminal.CmdSpy

/-!
The rows of the spy under any sequence of bytes. They stay 768 rows of 1024 characters as long
as the parser puts characters on the screen only, and the parser does that exactly as long as no
byte sets margins below the screen or restores the cursor to a column right of it.
-/

namespace Woterm.Terminal.Grid
open Woterm.Lib Woterm.Qt Woterm.Terminal.Data Woterm.Terminal.Geometry
open Woterm.Terminal.Bounds Woterm.Terminal.CmdSpy

/-- All rows are there, each of them full. -/
structure Full (spy : QWoCmdSpy) : Prop where
  rows : spy.lines.length = fixRow
  columns : ∀ row ∈ spy.lines, row.length = fixCollumn

theorem assign_length (row : QString) (x : Nat) (c : Char) (short : x < row.length) :
    (assign row x c).length = row.length := by
  rw [assign, if_pos short, List.length_set]

theorem putChar_full (c : UInt32) (cursor : Cursor) (spy : QWoCmdSpy) (full : Full spy)
    (column : 0 ≤ cursor.x ∧ cursor.x < fixCollumn) (row : 0 ≤ cursor.y ∧ cursor.y < fixRow) :
    ∃ next, CmdSpy.putChar c cursor spy = some next ∧ Full next := by
  have exists_row : 0 ≤ cursor.x ∧ 0 ≤ cursor.y ∧ cursor.y < spy.lines.length := by
    rw [full.rows]
    exact ⟨column.1, row⟩
  refine ⟨_, if_pos exists_row, ?_, ?_⟩
  · simpa using full.rows
  · intro line member
    obtain ⟨i, found⟩ := List.mem_iff_getElem?.mp member
    rw [List.getElem?_modify] at found
    obtain ⟨old, stored, rfl⟩ := Option.map_eq_some_iff.mp found
    have length := full.columns old (List.mem_of_getElem? stored)
    split_ifs
    · rw [assign_length _ _ _ (by rw [length]; omega), length]
    · exact length

theorem scrollUp_full (n : Nat) (spy : QWoCmdSpy) (full : Full spy) :
    ∃ next, CmdSpy.scrollUp n spy = some next ∧ Full next := by
  induction n generalizing spy with
  | zero => exact ⟨spy, rfl, full⟩
  | succ n ih =>
    cases lines : spy.lines with
    | nil =>
      have rows := full.rows
      rw [lines] at rows
      cases rows
    | cons first rest =>
      simp only [CmdSpy.scrollUp, lines]
      apply ih
      refine ⟨?_, ?_⟩
      · have rows := full.rows
        rw [lines, List.length_cons] at rows
        simpa using rows
      · intro row member
        rcases List.mem_append.mp member with member | member
        · apply full.columns
          rw [lines]
          exact List.mem_cons_of_mem first member
        · rw [List.mem_singleton.mp member]
          exact List.length_replicate

theorem handle_full (spy : QWoCmdSpy) (event : Event) (full : Full spy)
    (inside : ∀ cursor, putOf event = some cursor →
      (0 ≤ cursor.x ∧ cursor.x < fixCollumn) ∧ 0 ≤ cursor.y ∧ cursor.y < fixRow) :
    ∃ next, handle spy event = some next ∧ Full next := by
  unfold handle
  split
  case h_1 c width cursor =>
    obtain ⟨column, row⟩ := inside cursor rfl
    exact putChar_full c cursor spy full column row
  case h_2 => exact scrollUp_full _ spy full
  case h_3 => exact ⟨_, rfl, full.rows, full.columns⟩
  case h_4 => exact ⟨spy, rfl, full⟩

/-- What holds in every state: the cursor and the margins are inside, the last byte put characters
inside the grid only, and no row was lost, added, or made longer. -/
structure InRange (spy : QWoCmdSpy) : Prop where
  inside : Inside spy.vte
  grid : ∀ cursor ∈ puts spy.vte, OnGrid spy.vte cursor
  full : Full spy

/-- The invariant that carries it. -/
structure Kept (spy : QWoCmdSpy) : Prop where
  safe : Safe Sound spy.vte
  full : Full spy

theorem processByte_kept (spy : QWoCmdSpy) (c : uchar) (kept : Kept spy) (tame : Tame spy.vte c) :
    ∃ next, processByte spy c = some next ∧ Kept next := by
  have safe := process_safe closed_sound frontend spy.vte c kept.safe.kept (tame.allows kept.safe.kept)
  have columns := safe.kept.columns
  have rows := safe.kept.rows
  obtain ⟨next, processed, full⟩ := Run.after_invariant handle (Vte.process frontend spy.vte c).events
    (fun state event member full => handle_full state event full fun cursor put => by
      have grid := onGrid_of_safe safe cursor (List.mem_filterMap.mpr ⟨event, member, put⟩)
      simp only [OnGrid, frame, fixCollumn, fixRow] at grid columns rows ⊢
      omega)
    { spy with vte := Vte.process frontend spy.vte c } ⟨kept.full.rows, kept.full.columns⟩
  refine ⟨next, processed, ?_, full⟩
  rw [processByte_vte spy c next processed]
  exact safe

theorem reset_kept (spy : QWoCmdSpy) (sized : Sized spy.vte) : Kept (reset spy) := by
  refine ⟨(reset_sound spy.vte sized).safe rfl, List.length_replicate, fun row member => ?_⟩
  rw [(List.mem_replicate.mp member).2]
  exact List.length_replicate

/-- The bytes of a run are all tame. -/
def Tamed (spy : QWoCmdSpy) (bytes : List uchar) : Prop :=
  Run.Admits processByte (fun state c => Tame state.vte c) spy bytes

/-- Along every run from a reset, all is in range in every state that is reached if and only if
every byte is tame in the state in which it arrives. -/
theorem inRange_iff_tamed (spy : QWoCmdSpy) (sized : Sized spy.vte) (bytes : List uchar) :
    Run.Always processByte InRange (reset spy) bytes ↔ Tamed (reset spy) bytes := by
  have weaken (state : QWoCmdSpy) (kept : Kept state) : InRange state :=
    ⟨inside_of_sound kept.safe.kept, onGrid_of_safe kept.safe, kept.full⟩
  apply Run.always_iff_admits processByte weaken
  · exact fun state c kept tame => processByte_kept state c kept tame
  · intro state c next _ processed good
    apply tame_of_inside frontend
    rw [← processByte_vte state c next processed]
    exact good.inside
  · exact reset_kept spy sized

theorem blank_sized : Sized blank := ⟨by decide, by decide, by decide⟩

theorem inRange_iff_tamed_fresh : Sized unset.vte ∧
    (Run.Always processByte InRange fresh [byte 'a', 0x1b, byte '8'] ↔
      Tamed fresh [byte 'a', 0x1b, byte '8']) :=
  ⟨blank_sized, inRange_iff_tamed unset blank_sized [byte 'a', 0x1b, byte '8']⟩

/-- Margins from row 1 to row 2000 of a screen of 768 rows. -/
def marginsBelow : List uchar := "\x1b[1;2000r".toList.map byte

/-- With the origin at the margins, a character in row 900. -/
def writeBelow : List uchar := marginsBelow ++ "\x1b[?6h\x1b[900;5Hx".toList.map byte

/-- Column 100 is saved, the screen shrinks to 80 columns and the cursor is restored. -/
def restoreRight : List uchar := "\x1b[1;100H\x1b7\x1b[?3l\x1b8".toList.map byte

theorem not_always (bytes : List uchar) (state : QWoCmdSpy) (reached : Run.after processByte fresh bytes = some state)
    (outside : ¬ Inside state.vte) : ¬ Run.Always processByte InRange fresh bytes := by
  intro always
  obtain ⟨final, same, good⟩ := always bytes [] (List.append_nil _).symm
  rw [reached] at same
  rw [← Option.some.inj same] at good
  exact outside good.inside

theorem out_of_range : ¬ Run.Always processByte InRange fresh marginsBelow ∧
    Run.after processByte fresh writeBelow = none ∧ ¬ Run.Always processByte InRange fresh restoreRight := by
  have margins : (Run.after processByte fresh marginsBelow).map
      (fun spy => (spy.vte.bottom, spy.vte.height)) = some (1999, 768) := by
    decide +kernel
  have write : (Run.after processByte fresh writeBelow).isNone = true := by
    decide +kernel
  have restore : (Run.after processByte fresh restoreRight).map
      (fun spy => (spy.vte.cursor.x, spy.vte.width)) = some (99, 80) := by
    decide +kernel
  refine ⟨?_, Option.isNone_iff_eq_none.mp write, ?_⟩
  · obtain ⟨state, reached, fields⟩ := Option.map_eq_some_iff.mp margins
    obtain ⟨bottom, height⟩ := Prod.mk.inj fields
    apply not_always marginsBelow state reached
    intro inside
    have below := inside.2.2.2
    rw [bottom, height] at below
    omega
  · obtain ⟨state, reached, fields⟩ := Option.map_eq_some_iff.mp restore
    obtain ⟨column, width⟩ := Prod.mk.inj fields
    apply not_always restoreRight state reached
    intro inside
    have right := inside.1.1.2
    rw [column, width] at right
    omega

end Woterm.Terminal.Grid
