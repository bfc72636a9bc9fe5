import Woterm.Terminal.Geometry

/-!
The cursor on the screen and the margins inside it. Nearly all operations keep that. Two do not:
setting the margins does not look at the height, and restoring the cursor does not look at the
width, which may have shrunk since it was saved.
-/

namespace Woterm.Terminal.Bounds
open Woterm.Lib Woterm.Terminal.Data Woterm.Terminal.Vte Woterm.Terminal.Geometry

/-! ## Sound frames -/

/-- The geometry of a screen of at most 1024 columns and 768 rows. -/
structure Sound (f : Frame) : Prop where
  columns : f.width ≤ 1024
  rows : f.height = 768
  column : 0 ≤ f.x ∧ f.x < f.width
  row : 0 ≤ f.y ∧ f.y < f.height
  margins : 0 ≤ f.top ∧ f.top ≤ f.bottom ∧ f.bottom < f.height
  saved : 0 ≤ f.savedX

theorem sound_place (f : Frame) (origin : Bool) (x y : Int) (sound : Sound f) : Sound (f.place origin x y) := by
  have column := sound.column
  have row := sound.row
  have margins := sound.margins
  have across := setRange_between x 0 (f.width - 1) (by omega)
  have between := setRange_between y f.top f.bottom margins.2.1
  have down := setRange_between y 0 (f.height - 1) (by omega)
  refine ⟨sound.columns, sound.rows, ?_, ?_, margins, sound.saved⟩
  · simp only [Frame.place]
    omega
  · simp only [Frame.place]
    split_ifs <;> omega

theorem sound_home (f : Frame) (width : Int) (positive : 0 < width) (columns : width ≤ 1024)
    (rows : f.height = 768) (saved : 0 ≤ f.savedX) : Sound (f.home width) := by
  refine ⟨columns, rows, ?_, ?_, ?_, saved⟩
  all_goals
    simp only [Frame.home]
    omega

theorem closed_sound : Closed Sound where
  place := sound_place
  column := fun f sound => by
    have positive : 0 < f.width := lt_of_le_of_lt sound.column.1 sound.column.2
    exact ⟨sound.columns, sound.rows, ⟨le_refl 0, positive⟩, sound.row, sound.margins, sound.saved⟩
  home := fun f width known sound => by
    have column := sound.column
    have columns := sound.columns
    exact sound_home f width (by omega) (by omega) sound.rows sound.saved
  save := fun f sound =>
    ⟨sound.columns, sound.rows, sound.column, sound.row, sound.margins, sound.column.1⟩

/-- A width and a height that the rows of the spy have room for. -/
structure Sized (v : VTE) : Prop where
  positive : 0 < v.width
  columns : v.width ≤ 1024
  rows : v.height = 768

theorem reset_sound (v : VTE) (sized : Sized v) : Calm Sound (risState { v with events := [] }) (Vte.reset v) := by
  apply (ris_still _).calm
  exact sound_home { frame v with savedX := 0, savedY := 0 } v.width sized.positive sized.columns sized.rows
    (le_refl 0)

/-- New margins are on the screen, and a cursor is only restored to a column that exists. -/
structure Tame (v : VTE) (c : uchar) : Prop where
  margins : SetsMargins v c → requestedBottom v < v.height
  cursor : RestoresCursor v c → v.savedCursor.x < v.width

theorem count_pos (v : VTE) (arg : Nat) : 1 ≤ count v arg := by
  unfold count getDefault
  split_ifs <;> omega

theorem Tame.allows {v : VTE} {c : uchar} (tame : Tame v c) (sound : Sound (frame v)) : Allows Sound v c := by
  refine ⟨?_, ?_⟩
  · intro sets
    have top : 0 ≤ requestedTop v := by
      have := count_pos v 0
      unfold requestedTop
      omega
    have order : requestedTop v ≤ requestedBottom v := le_of_lt sets.2.2.2.2
    exact ⟨sound.columns, sound.rows, sound.column, sound.row, ⟨top, order, tame.margins sets⟩, sound.saved⟩
  · intro restores
    have margins := sound.margins
    have between := setRange_between v.savedCursor.y v.top v.bottom margins.2.1
    have row : 0 ≤ setRange v.savedCursor.y v.top v.bottom ∧
        setRange v.savedCursor.y v.top v.bottom < v.height :=
      ⟨margins.1.trans between.1, lt_of_le_of_lt between.2 margins.2.2⟩
    exact ⟨sound.columns, sound.rows, ⟨sound.saved, tame.cursor restores⟩, row, margins, sound.saved⟩

theorem onGrid_of_safe {v : VTE} (safe : Safe Sound v) (cursor : Cursor) (put : cursor ∈ puts v) :
    OnGrid v cursor := by
  rcases safe.grid cursor put with inside | ⟨f, sound, x, y, width, height⟩
  · exact inside
  · unfold OnGrid
    rw [← x, ← y, ← width, ← height]
    exact ⟨sound.column, sound.row⟩

/-! ## Bytes that are not tame -/

variable (frontend : Frontend)

theorem process_esc (v : VTE) (c : uchar) (mode : v.mode = .esc) (found : Escape)
    (known : escapeTable.lookup c = some found) : process frontend v c = escape found { v with events := [] } := by
  have texts : ∀ entry ∈ escapeTable, isControl entry.1 = false := by decide
  have text := texts _ (lookup_mem c found escapeTable known)
  simp [process, dispatch, mode, text, handleEsc, known]

theorem addArg_letter (data : ControlData) (c : uchar)
    (letter : c ≠ byte '?' ∧ c ≠ byte ';' ∧ isDigit c = false) : data.addArg c = none := by
  simp [ControlData.addArg, letter]

theorem process_csi (v : VTE) (c : uchar) (mode : v.mode = .csi) (space : v.csiData.spaceLeft) (found : Final)
    (known : finalTable.lookup c = some found) :
    process frontend v c = resetEscape (final frontend found { v with events := [] }) := by
  have letters : ∀ entry ∈ finalTable, isControl entry.1 = false ∧
      entry.1 ≠ byte '?' ∧ entry.1 ≠ byte ';' ∧ isDigit entry.1 = false := by
    decide
  obtain ⟨text, letter⟩ := letters _ (lookup_mem c found finalTable known)
  simp [process, dispatch, mode, text, handleCsi, space, addArg_letter v.csiData c letter, known]

theorem process_margins (v : VTE) (c : uchar) (sets : SetsMargins v c) :
    (process frontend v c).bottom = requestedBottom v ∧ (process frontend v c).height = v.height := by
  obtain ⟨mode, rfl, space, dec, wide⟩ := sets
  have moved : setMargins { v with events := [] } =
      moveCursorAbsolute 0 0 { v with events := [], top := requestedTop v, bottom := requestedBottom v } := by
    have wide : requestedBottom { v with events := [] } > requestedTop { v with events := [] } := wide
    simp only [setMargins, dec, Bool.false_eq_true, if_false, if_pos wide]
    rfl
  rw [process_csi frontend v _ mode space .DECSTBM (by decide)]
  simp only [final, moved]
  exact ⟨congrArg Frame.bottom (frame_moveCursor _ _ _), congrArg Frame.height (frame_moveCursor _ _ _)⟩

theorem process_restores (v : VTE) (c : uchar) (restores : RestoresCursor v c) :
    (process frontend v c).cursor.x = v.savedCursor.x ∧ (process frontend v c).width = v.width := by
  have restored : ∀ w : VTE, (decrc w).cursor.x = w.savedCursor.x ∧ (decrc w).width = w.width :=
    fun w => ⟨congrArg Frame.x (frame_decrc w), congrArg Frame.width (frame_decrc w)⟩
  rcases restores with ⟨mode, rfl⟩ | ⟨mode, rfl, space⟩
  · rw [process_esc frontend v _ mode .DECRC (by decide)]
    exact restored { v with events := [] }
  · rw [process_csi frontend v _ mode space .DECRC (by decide)]
    exact restored { v with events := [] }

/-- The cursor is on the screen and the margins are inside it. -/
def Inside (v : VTE) : Prop := OnGrid v v.cursor ∧ 0 ≤ v.top ∧ v.top ≤ v.bottom ∧ v.bottom < v.height

theorem inside_of_sound {v : VTE} (sound : Sound (frame v)) : Inside v :=
  ⟨⟨sound.column, sound.row⟩, sound.margins⟩

/-- Only tame bytes leave the cursor and the margins inside. -/
theorem tame_of_inside (v : VTE) (c : uchar) (inside : Inside (process frontend v c)) : Tame v c := by
  refine ⟨?_, ?_⟩
  · intro sets
    obtain ⟨bottom, height⟩ := process_margins frontend v c sets
    rw [← bottom, ← height]
    exact inside.2.2.2
  · intro restores
    obtain ⟨column, width⟩ := process_restores frontend v c restores
    rw [← column, ← width]
    exact inside.1.1.2

end Woterm.Terminal.Bounds
