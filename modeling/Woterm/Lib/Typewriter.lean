import Mathlib.Data.List.Basic

/-!
A sheet of paper in a typewriter: rows of a bounded width, the last of which is being written. A
character typed at the end of a full row starts a new row.
-/

namespace Woterm.Lib.Typewriter

variable {α : Type*}

structure Sheet (α : Type*) where
  rows : List (List α) := []
  current : List α := []
  column : Nat := 0

namespace Sheet

/-- All rows, in order. -/
def contents (sheet : Sheet α) : List (List α) := sheet.rows ++ [sheet.current]

def carriageReturn (sheet : Sheet α) : Sheet α := { sheet with column := 0 }

def lineFeed (sheet : Sheet α) : Sheet α := { rows := sheet.contents }

end Sheet

variable (width : Nat) (blank : α)

/-- A row with one character written over; a row that is too short is filled with blanks. -/
def overwrite (row : List α) (column : Nat) (a : α) : List α :=
  if column < row.length then row.set column a
  else row ++ List.replicate (column - row.length) blank ++ [a]

def put (sheet : Sheet α) (a : α) : Sheet α :=
  if sheet.column < width then
    { sheet with current := overwrite blank sheet.current sheet.column a, column := sheet.column + 1 }
  else { rows := sheet.contents, current := [a], column := 1 }

/-- One column to the left; a wrap that was due is not due any more. -/
def backspace (sheet : Sheet α) : Sheet α :=
  { sheet with column := min sheet.column (width - 1) - 1 }

/-! ## A sheet without an end

Its rows are as wide as what is typed on them. A sheet of a bounded width is written alike until
its column reaches the width. -/

def stamp (sheet : Sheet α) (a : α) : Sheet α :=
  { sheet with current := overwrite blank sheet.current sheet.column a, column := sheet.column + 1 }

def back (sheet : Sheet α) : Sheet α := { sheet with column := sheet.column - 1 }

variable (text : List α) (sheet : Sheet α)

theorem put_eq_stamp (a : α) (room : sheet.column < width) : put width blank sheet a = stamp blank sheet a :=
  if_pos room

theorem backspace_eq_back (room : sheet.column < width) : backspace width sheet = back sheet := by
  rw [backspace, Nat.min_eq_left (by omega)]
  rfl

theorem foldl_put_fits (fits : sheet.column + text.length ≤ width) :
    text.foldl (put width blank) sheet = text.foldl (stamp blank) sheet := by
  induction text generalizing sheet with
  | nil => rfl
  | cons a text ih =>
    rw [List.length_cons] at fits
    rw [List.foldl_cons, List.foldl_cons, put_eq_stamp width blank sheet a (by omega)]
    apply ih
    simp only [stamp]
    omega

theorem overwrite_inside (row : List α) (column : Nat) (a : α) (inside : column ≤ row.length) :
    overwrite blank row column a = row.take column ++ a :: row.drop (column + 1) := by
  unfold overwrite
  split_ifs with before
  · exact List.set_eq_take_cons_drop a before
  · have full : column = row.length := by omega
    subst full
    simp

theorem foldl_stamp (inside : sheet.column ≤ sheet.current.length) :
    text.foldl (stamp blank) sheet = { sheet with
        current := sheet.current.take sheet.column ++ text ++ sheet.current.drop (sheet.column + text.length)
        column := sheet.column + text.length } := by
  induction text generalizing sheet with
  | nil => simp
  | cons a text ih =>
    have written := overwrite_inside blank sheet.current sheet.column a inside
    have front : (sheet.current.take sheet.column ++ [a]).length = sheet.column + 1 := by
      simp only [List.length_append, List.length_take, List.length_singleton]
      omega
    have next : (stamp blank sheet a).current =
        (sheet.current.take sheet.column ++ [a]) ++ sheet.current.drop (sheet.column + 1) := by
      rw [List.append_assoc]
      exact written
    have room : (stamp blank sheet a).column ≤ (stamp blank sheet a).current.length := by
      rw [next, List.length_append, front]
      exact Nat.le_add_right _ _
    have column : (stamp blank sheet a).column = sheet.column + 1 := rfl
    rw [List.foldl_cons, ih _ room, next, column, List.take_left' front, List.drop_append, front,
      List.drop_of_length_le (by omega), List.drop_drop]
    simp only [stamp, List.append_assoc, List.singleton_append, List.nil_append, List.length_cons, Sheet.mk.injEq,
      true_and]
    refine ⟨?_, by omega⟩
    congr 3
    omega

theorem foldl_stamp_filled (some_text : text ≠ []) (sheet : Sheet α) :
    text.foldl (stamp blank) sheet =
      text.foldl (stamp blank) { sheet with
        current := sheet.current ++ List.replicate (sheet.column - sheet.current.length) blank } := by
  obtain ⟨a, rest, rfl⟩ := List.exists_cons_of_ne_nil some_text
  have same : overwrite blank sheet.current sheet.column a =
      overwrite blank (sheet.current ++ List.replicate (sheet.column - sheet.current.length) blank) sheet.column a := by
    by_cases before : sheet.column < sheet.current.length
    · have none : sheet.column - sheet.current.length = 0 := by omega
      rw [none, List.replicate_zero, List.append_nil]
    · have full : (sheet.current ++ List.replicate (sheet.column - sheet.current.length) blank).length = sheet.column := by
        simp only [List.length_append, List.length_replicate]
        omega
      unfold overwrite
      rw [if_neg before, full, if_neg (Nat.lt_irrefl _), Nat.sub_self, List.replicate_zero, List.append_nil]
  rw [List.foldl_cons, List.foldl_cons]
  unfold stamp
  rw [same]

/-! ## Wrapping -/

theorem rows_put_le (a : α) : sheet.rows.length ≤ (put width blank sheet a).rows.length := by
  unfold put
  split_ifs
  · exact Nat.le_refl _
  · simp [Sheet.contents]

theorem rows_foldl_le : sheet.rows.length ≤ (text.foldl (put width blank) sheet).rows.length := by
  induction text generalizing sheet with
  | nil => exact Nat.le_refl _
  | cons a text ih => exact Nat.le_trans (rows_put_le width blank sheet a) (ih _)

/-- A text that does not fit in the current row starts a new one. -/
theorem rows_lt_of_long (inside : sheet.column ≤ width) (long : width < sheet.column + text.length) :
    sheet.rows.length < (text.foldl (put width blank) sheet).rows.length := by
  induction text generalizing sheet with
  | nil =>
    rw [List.length_nil] at long
    omega
  | cons a text ih =>
    rw [List.length_cons] at long
    rw [List.foldl_cons]
    by_cases room : sheet.column < width
    · rw [put_eq_stamp width blank sheet a room]
      refine ih (stamp blank sheet a) room ?_
      simp only [stamp]
      omega
    · refine Nat.lt_of_lt_of_le ?_ (rows_foldl_le width blank text _)
      unfold put
      rw [if_neg room]
      simp [Sheet.contents]

/-! ## Pieces of a line -/

/-- Consecutive pieces of the given width, the last one possibly shorter. -/
def pieces (text : List α) : List (List α) :=
  if _done : width = 0 ∨ text = [] then [] else text.take width :: pieces (text.drop width)
termination_by text.length
decreasing_by
  have := List.length_pos_iff.mpr (not_or.mp _done).2
  have := (not_or.mp _done).1
  rw [List.length_drop]
  omega

/-- The rows of a line, which has one row even if it is empty. -/
def layout (text : List α) : List (List α) := if text = [] then [[]] else pieces width text

theorem pieces_nil : pieces width ([] : List α) = [] := by
  rw [pieces]
  simp

theorem pieces_cons (positive : 0 < width) (text : List α) (nonempty : text ≠ []) :
    pieces width text = text.take width :: pieces width (text.drop width) := by
  have width_ne : width ≠ 0 := by omega
  rw [pieces, dif_neg (not_or.mpr ⟨width_ne, nonempty⟩)]

theorem pieces_short (positive : 0 < width) (text : List α) (nonempty : text ≠ [])
    (short : text.length ≤ width) : pieces width text = [text] := by
  rw [pieces_cons width positive text nonempty, List.take_of_length_le short, List.drop_of_length_le short,
    pieces_nil]

theorem pieces_full (positive : 0 < width) (row text : List α) (full : row.length = width) (more : text ≠ []) :
    pieces width (row ++ text) = row :: pieces width text := by
  rw [pieces_cons width positive _ (by simp [more]), List.take_left' full, List.drop_left' full]

theorem layout_short (positive : 0 < width) (text : List α) (short : text.length ≤ width) :
    layout width text = [text] := by
  unfold layout
  split_ifs with empty
  · rw [empty]
  · exact pieces_short width positive text empty short

theorem layout_full (positive : 0 < width) (row text : List α) (full : row.length = width) (more : text ≠ []) :
    layout width (row ++ text) = row :: layout width text := by
  unfold layout
  rw [if_neg (by simp [more]), if_neg more]
  exact pieces_full width positive row text full more

/-- The column is the end of the current row. -/
structure AtEnd (sheet : Sheet α) : Prop where
  column : sheet.column = sheet.current.length
  short : sheet.current.length ≤ width

theorem put_atEnd (positive : 0 < width) (sheet : Sheet α) (a : α) (atEnd : AtEnd width sheet) :
    AtEnd width (put width blank sheet a) := by
  unfold put
  split_ifs with room
  · have column := atEnd.column
    have length : (overwrite blank sheet.current sheet.column a).length = sheet.current.length + 1 := by
      simp [overwrite, column]
    refine ⟨?_, ?_⟩
    · rw [length, column]
    · rw [length]
      omega
  · exact ⟨rfl, positive⟩

theorem overwrite_end (row : List α) (a : α) : overwrite blank row row.length a = row ++ [a] := by
  simp [overwrite]

theorem contents_put (positive : 0 < width) (sheet : Sheet α) (text : List α) (atEnd : AtEnd width sheet) :
    (text.foldl (put width blank) sheet).contents = sheet.rows ++ layout width (sheet.current ++ text) := by
  induction text generalizing sheet with
  | nil =>
    rw [List.append_nil, layout_short width positive _ atEnd.short]
    rfl
  | cons a text ih =>
    have next := ih (put width blank sheet a) (put_atEnd width blank positive sheet a atEnd)
    rw [List.foldl_cons, next]
    unfold put
    split_ifs with room
    · rw [atEnd.column, overwrite_end, List.append_assoc, List.singleton_append]
    · have full : sheet.current.length = width := by
        have short := atEnd.short
        have column := atEnd.column
        omega
      rw [layout_full width positive sheet.current (a :: text) full (List.cons_ne_nil a text)]
      simp [Sheet.contents]

/-- Typing lines, each after the first on a new row. -/
def typeLines (lines : List (List α)) (sheet : Sheet α) : Sheet α :=
  match lines with
  | [] => sheet
  | first :: rest =>
    rest.foldl (fun sheet line => line.foldl (put width blank) sheet.carriageReturn.lineFeed)
      (first.foldl (put width blank) sheet)

theorem contents_newLines (positive : 0 < width) (lines : List (List α)) (sheet : Sheet α) :
    (lines.foldl (fun sheet line => line.foldl (put width blank) sheet.carriageReturn.lineFeed) sheet).contents =
      sheet.contents ++ lines.flatMap (layout width) := by
  induction lines generalizing sheet with
  | nil => simp
  | cons line lines ih =>
    have fresh : AtEnd width (sheet.carriageReturn.lineFeed) := ⟨rfl, Nat.zero_le width⟩
    rw [List.foldl_cons, ih, contents_put width blank positive _ line fresh, List.flatMap_cons,
      ← List.append_assoc]
    rfl

theorem contents_typeLines (positive : 0 < width) (lines : List (List α)) (nonempty : lines ≠ []) :
    (typeLines width blank lines {}).contents = lines.flatMap (layout width) := by
  cases lines with
  | nil => exact absurd rfl nonempty
  | cons first rest =>
    have fresh : AtEnd width ({} : Sheet α) := ⟨rfl, Nat.zero_le width⟩
    unfold typeLines
    rw [contents_newLines width blank positive, contents_put width blank positive _ first fresh]
    rfl

end Woterm.Lib.Typewriter
