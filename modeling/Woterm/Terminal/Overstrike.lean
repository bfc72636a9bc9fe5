import Woterm.Terminal.PlainText

/-!
Lines that are written over with carriage returns and backspaces. The reference is a grid whose
rows have no end; the spy wraps at its width, which short runs do not reach.
-/

namespace Woterm.Terminal.Overstrike
open Woterm.Lib Woterm.Lib.Typewriter Woterm.Qt Woterm.Terminal.Data Woterm.Terminal.TextBytes Woterm.Terminal.CmdSpy
open Woterm.Terminal.Sizes Woterm.Terminal.PlainText

/-! ## The reference -/

/-- One byte on the grid. -/
def write (grid : Sheet Char) (c : uchar) : Sheet Char :=
  if c = 0x0d then grid.carriageReturn
  else if c = 0x0a then grid.lineFeed
  else if c = 0x08 then back grid
  else stamp ' ' grid (character c)

/-- The rows of the grid after the bytes. -/
def gridRows (bytes : List uchar) : List QString := (bytes.foldl write {}).contents

def isBreak (c : uchar) : Bool := c = 0x0d || c = 0x0a

/-- The maximal runs without CR and LF have at most 1000 bytes. -/
def ShortRuns (bytes : List uchar) : Prop := ∀ run ∈ bytes.splitOnP isBreak, run.length ≤ 1000

instance (bytes : List uchar) : Decidable (ShortRuns bytes) :=
  inferInstanceAs (Decidable (∀ run ∈ bytes.splitOnP isBreak, run.length ≤ 1000))

/-! ## The column stays below the width -/

variable {width : Nat}

theorem typed_eq_write (sheet : Sheet Char) (c : uchar) (room : sheet.column < width) :
    typed width sheet c = write sheet c := by
  unfold typed write
  rw [put_eq_stamp width ' ' sheet _ room, backspace_eq_back width sheet room]

theorem write_break (sheet : Sheet Char) (c : uchar) (ends : isBreak c = true) : (write sheet c).column = 0 := by
  simp only [isBreak, Bool.or_eq_true, decide_eq_true_eq] at ends
  rcases ends with rfl | rfl
  · rfl
  · rfl

theorem write_column (sheet : Sheet Char) (c : uchar) : (write sheet c).column ≤ sheet.column + 1 := by
  unfold write
  split_ifs
  · exact Nat.zero_le _
  · exact Nat.zero_le _
  · exact le_trans (Nat.sub_le _ 1) (Nat.le_succ _)
  · exact le_refl _

/-- The run: the column is at most the number of bytes behind the last break. -/
theorem foldl_typed (limit : Nat) (below : limit < width) (bytes first : List uchar) (rest : List (List uchar))
    (split : bytes.splitOnP isBreak = first :: rest) (sheet : Sheet Char)
    (near : sheet.column + first.length ≤ limit) (short : ∀ run ∈ rest, run.length ≤ limit) :
    bytes.foldl (typed width) sheet = bytes.foldl write sheet := by
  induction bytes generalizing first rest sheet with
  | nil => rfl
  | cons c bytes ih =>
    rw [List.foldl_cons, List.foldl_cons, typed_eq_write sheet c (by omega)]
    obtain ⟨next, others, behind⟩ := List.exists_cons_of_ne_nil (List.splitOnP_ne_nil isBreak bytes)
    rw [List.splitOnP_cons_eq_if_modifyHead, behind] at split
    split_ifs at split with ends
    -- behind a break the next run counts, otherwise the byte is one of the first run
    · obtain ⟨rfl, rfl⟩ := List.cons.inj split
      obtain ⟨start, later⟩ := List.forall_mem_cons.mp short
      apply ih next others behind (write sheet c) _ later
      rw [write_break sheet c ends, Nat.zero_add]
      exact start
    · obtain ⟨rfl, rfl⟩ := List.cons.inj split
      apply ih next others behind (write sheet c) _ short
      have column := write_column sheet c
      rw [List.length_cons] at near
      omega

theorem typed_shortRuns (wide : 1000 < width) (bytes : List uchar) (short : ShortRuns bytes) :
    (bytes.foldl (typed width) {}).contents = gridRows bytes := by
  obtain ⟨first, rest, split⟩ := List.exists_cons_of_ne_nil (List.splitOnP_ne_nil isBreak bytes)
  unfold ShortRuns at short
  rw [split, List.forall_mem_cons] at short
  rw [gridRows, foldl_typed 1000 wide bytes first rest split {} (by simpa using short.1) short.2]

/-! ## What is recorded -/

/-- After a reset, the spy reports the rows of the grid, simplified and without the blank ones. -/
def RecordedAsShown (spy : QWoCmdSpy) (bytes : QByteArray) : Prop :=
  (process (reset spy) bytes).map (fun final => (output final).1) =
    some (((gridRows bytes).map QString.simplified).filter fun row => !row.isEmpty)

/-- One text is recorded if and only if the screen shows it as the grid does, up to blanks. -/
theorem recordedAsShown_rows_iff (spy : QWoCmdSpy) (wide : 1 < width) (narrow : width ≤ fixCollumn)
    (columns : spy.vte.width = width) (height : spy.vte.height = 768) (bytes : List uchar)
    (text : ∀ c ∈ bytes, Text c) :
    RecordedAsShown spy bytes ↔
      reported (bytes.foldl (typed width) {}).contents = reported (gridRows bytes) := by
  obtain ⟨final, processed, shown⟩ := processLoop_shows wide narrow bytes text {} _
    (reset_shows spy wide columns height)
  rw [RecordedAsShown, process, processed, Option.map_some, output_shows _ _ shown]
  exact Option.some_inj

theorem shortRuns_line (line : List uchar) (printable : ∀ c ∈ line, Printable c) (short : line.length ≤ 1000) :
    ShortRuns line := by
  have unbroken : ∀ c ∈ line, isBreak c = false := by
    intro c member
    by_contra ends
    rw [Bool.not_eq_false] at ends
    have lower := (printable c member).1
    simp only [isBreak, Bool.or_eq_true, decide_eq_true_eq] at ends
    rcases ends with rfl | rfl <;> exact absurd lower (by decide)
  unfold ShortRuns
  rw [List.splitOnP_eq_singleton unbroken]
  simpa using short

theorem reported_gridRows (line : List uchar) (printable : ∀ c ∈ line, Printable c) (short : line.length ≤ 1000) :
    reported (gridRows line) = reported ([line.map character].flatMap (pieces fixCollumn)) := by
  have fresh : AtEnd fixCollumn ({} : Sheet Char) := ⟨rfl, Nat.zero_le _⟩
  have wide : 1000 < fixCollumn := by decide
  rw [← typed_shortRuns wide line (shortRuns_line line printable short), typed_line line printable,
    contents_put fixCollumn ' ' (by decide) {} _ fresh, ← reported_layout, List.flatMap_singleton]
  rfl

theorem not_recordedAsShown (spy : QWoCmdSpy) (wide : 1 < width) (narrow : width < 1000)
    (columns : spy.vte.width = width) (height : spy.vte.height = 768) :
    ¬ RecordedAsShown spy (List.replicate (width + 1) (byte 'x')) := by
  intro recorded
  have printable := printable_replicate (width + 1) _ List.mem_cons_self
  have whole := reported_gridRows _ printable (by rw [List.length_replicate]; exact narrow)
  have narrower : width < fixCollumn := lt_trans narrow (by decide)
  apply not_recorded spy wide narrower columns height
  rw [Recorded, joined, List.intercalate_singleton, List.map_singleton]
  exact recorded.trans (congrArg some whole)

/-- Overwritten lines are recorded if and only if the screen is as wide as it was constructed. -/
theorem recordedAsShown_iff (spy : QWoCmdSpy) (reachable : Reachable spy) :
    (∀ bytes : List uchar, (∀ c ∈ bytes, Printable c ∨ c = 0x0d ∨ c = 0x0a ∨ c = 0x08) → ShortRuns bytes →
      RecordedAsShown spy bytes) ↔ spy.vte.width = fixCollumn := by
  have usual := reachable_usual spy reachable
  refine ⟨?_, ?_⟩
  · intro recorded
    by_contra other
    obtain ⟨width, wide, narrow, columns⟩ := reachable_switched spy reachable other
    have printable := printable_replicate (width + 1) _ List.mem_cons_self
    have short : (List.replicate (width + 1) (byte 'x')).length ≤ 1000 := by
      rw [List.length_replicate]
      exact narrow
    apply not_recordedAsShown spy wide narrow columns usual.height
    exact recorded _ (fun c member => .inl (printable c member)) (shortRuns_line _ printable short)
  · intro columns bytes text short
    rw [recordedAsShown_rows_iff spy (by decide) (le_refl fixCollumn) columns usual.height bytes text,
      typed_shortRuns (by decide) bytes short]

theorem recordedAsShown_iff_fresh : Reachable fresh ∧
    RecordedAsShown fresh [byte 'a', 0x08, byte 'b', 0x0d, byte 'c', byte 'd', 0x0a] :=
  ⟨.constructed, (recordedAsShown_iff fresh .constructed).mpr rfl _ (by decide) (by decide)⟩

/-- A line of 81 characters is reported in two rows, if the screen was switched to 80 columns before
the reset. -/
theorem narrow_not_shown : ∃ spy, process fresh narrowScreen = some spy ∧
    ¬ RecordedAsShown spy (List.replicate 81 (byte 'x')) := by
  obtain ⟨spy, processed, columns, height⟩ := narrowScreen_size
  exact ⟨spy, processed, not_recordedAsShown spy (by decide) (by decide) columns height⟩

end Woterm.Terminal.Overstrike
