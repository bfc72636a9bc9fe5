import Woterm.Terminal.CmdSpy

/-!
What the parser does on plain text: printable characters, carriage return, line feed and
backspace. Of the calls to the terminal only those are kept that the spy listens to.
-/

namespace Woterm.Terminal.TextBytes
open Woterm.Lib Woterm.Terminal.Data Woterm.Terminal.Vte Woterm.Terminal.CmdSpy

/-- The calls that the spy listens to, with the data that it reads. -/
inductive Call where
  | put (c : UInt32) (x y : Int)
  | scroll (n : Int)
  | title
deriving DecidableEq, Repr

def callOf : Event → Option Call
  | .putChar c _ cursor => some (.put c cursor.x cursor.y)
  | .scrollUp _ _ n _ => some (.scroll n)
  | .setWindowTitle _ => some .title
  | _ => none

def calls (v : VTE) : List Call := v.events.filterMap callOf

/-- The state as a reset leaves it, apart from the cursor and what is displayed. -/
structure Plain (width : Nat) (buffer : List uchar) (v : VTE) : Prop where
  mode : v.mode = .ground
  utf8 : v.flags .UTF8 = true
  wraps : v.flags .DECAWM = true
  replaces : v.flags .IRM = false
  returns : v.flags .LNM = false
  whole : v.flags .DECOM = false
  buffer : v.utf8Buffer = buffer
  top : v.top = 0
  bottom : v.bottom = 767
  width : v.width = width
  height : v.height = 768

/-- The parser is plain, at a column and a row, and made the calls. The column is the width if a
wrap is due. -/
structure Lands (width : Nat) (buffer : List uchar) (column row : Nat) (made : List Call) (v : VTE) : Prop where
  plain : Plain width buffer v
  x : v.cursor.x = min (column : Int) (width - 1)
  y : v.cursor.y = row
  cs : v.cursor.cs = if column < width then .normal else .wrapNext
  calls : calls v = made

/-- The state without the display of the cursor and the log. -/
def core (v : VTE) : VTE := { v with cursorHidden := false, events := [] }

variable {width : Nat} {buffer : List uchar}

theorem Plain.congr {v w : VTE} (same : core w = core v) (plain : Plain width buffer v) :
    Plain width buffer w := by
  have kept : Plain width buffer (core v) := ⟨plain.mode, plain.utf8, plain.wraps, plain.replaces,
    plain.returns, plain.whole, plain.buffer, plain.top, plain.bottom, plain.width, plain.height⟩
  rw [← same] at kept
  exact ⟨kept.mode, kept.utf8, kept.wraps, kept.replaces, kept.returns, kept.whole, kept.buffer, kept.top,
    kept.bottom, kept.width, kept.height⟩

theorem Plain.withCursor {v : VTE} (plain : Plain width buffer v) (cursor : Cursor) :
    Plain width buffer { v with cursor := cursor } :=
  ⟨plain.mode, plain.utf8, plain.wraps, plain.replaces, plain.returns, plain.whole, plain.buffer, plain.top,
    plain.bottom, plain.width, plain.height⟩

theorem cursor_congr {v w : VTE} (same : core w = core v) : w.cursor = v.cursor := by
  have cursor : (core w).cursor = (core v).cursor := by rw [same]
  exact cursor

theorem Lands.congr {column row : Nat} {made : List Call} {v w : VTE} (same : core w = core v)
    (lands : Lands width buffer column row made v) : Lands width buffer column row (TextBytes.calls w) w := by
  have cursor := cursor_congr same
  refine ⟨lands.plain.congr same, ?_, ?_, ?_, rfl⟩
  · rw [cursor, lands.x]
  · rw [cursor, lands.y]
  · rw [cursor, lands.cs]

variable (c : UInt32) (column row : Nat) (made : List Call) (v : VTE)

theorem core_hc : core (hc v) = core v := by
  unfold hc
  split_ifs <;> rfl

theorem core_sc : core (sc v) = core v := by
  unfold sc
  split_ifs <;> rfl

theorem core_emit (event : Event) (v : VTE) : core (emit event v) = core v := rfl

theorem core_emitAll (events : List Event) (v : VTE) : core (emitAll events v) = core v := rfl

theorem calls_emit (event : Event) (v : VTE) : calls (emit event v) = calls v ++ (callOf event).toList := by
  cases call : callOf event <;> simp [calls, emit, call]

theorem calls_hc : calls (hc v) = calls v := by
  unfold hc
  split_ifs
  · exact (calls_emit _ v).trans (List.append_nil _)
  · rfl

theorem calls_sc : calls (sc v) = calls v := by
  unfold sc
  split_ifs
  · exact (calls_emit _ v).trans (List.append_nil _)
  · rfl

/-! ## Moving -/

theorem place_lands (plain : Plain width buffer v) (right : column < width) (below : row < 768) :
    Lands width buffer column row (calls v) (place column row v) := by
  have x : setRange (column : Int) 0 (v.width - 1) = column := by
    rw [plain.width]
    exact setRange_self _ _ _ (by omega) (by omega)
  have y : setRange (row : Int) 0 (v.height - 1) = row := by
    rw [plain.height]
    exact setRange_self _ _ _ (by omega) (by omega)
  refine ⟨plain.withCursor _, ?_, ?_, ?_, rfl⟩
  · simp only [place, x]
    omega
  · simp only [place, y, plain.whole, Bool.false_eq_true, if_false]
  · rw [if_pos right]
    rfl

theorem moveCursor_lands (plain : Plain width buffer v) (right : column < width) (below : row < 768) :
    Lands width buffer column row (calls v) (moveCursor column row v) := by
  have placed := place_lands column row (hc v) (plain.congr (core_hc v)) right below
  have shown := placed.congr (core_sc _)
  rw [calls_sc, placed.calls, calls_hc] at shown
  exact shown

theorem moveCursor_left (y : Int) (v : VTE) : moveCursor (-1) y v = moveCursor 0 y v := by
  have clamped : setRange (-1) 0 ((hc v).width - 1) = setRange 0 0 ((hc v).width - 1) := by
    simp [setRange]
  unfold moveCursor place
  rw [clamped]

/-- The row after a line feed, and the call that makes room for it. -/
def nextRow (row : Nat) : Nat := min (row + 1) 767

def advance (row : Nat) : List Call := if row = 767 then [.scroll 1] else []

theorem trmScrollUp_plain (y n : Int) (v : VTE) (plain : Plain width buffer v) :
    Plain width buffer (trmScrollUp y n v) := by
  have called : Plain width buffer (emit (.scrollUp y v.bottom n (hc v).cursor) (hc v)) :=
    plain.congr (core_hc v)
  exact (called.withCursor _).congr (core_sc _)

theorem calls_trmScrollUp (y n : Int) (v : VTE) : calls (trmScrollUp y n v) = calls v ++ [.scroll n] := by
  unfold trmScrollUp trmScroll
  dsimp only
  rw [calls_sc]
  exact (calls_emit _ _).trans (by rw [calls_hc]; rfl)

theorem nel_lands (row : Nat) (v : VTE) (plain : Plain width buffer v) (positive : 0 < width)
    (y : v.cursor.y = row) (below : row < 768) :
    Lands width buffer 0 (nextRow row) (calls v ++ advance row) (nel v) := by
  by_cases last : row = 767
  · have scrolled := trmScrollUp_plain v.top 1 v plain
    have moved := moveCursor_lands 0 row _ scrolled positive below
    have bottom : (row : Int) = v.bottom := by
      rw [plain.bottom]
      omega
    have next : nextRow row = row := by
      unfold nextRow
      omega
    rw [calls_trmScrollUp] at moved
    simp only [nel, if_pos bottom, scrolled.returns, Bool.false_eq_true, if_false, y, next, advance, if_pos last]
    exact moved
  · have moved := moveCursor_lands 0 (row + 1) v plain positive (by omega)
    have above : (row : Int) ≠ v.bottom := by
      rw [plain.bottom]
      omega
    have next : nextRow row = row + 1 := by
      unfold nextRow
      omega
    simp only [nel, if_neg above, plain.returns, Bool.false_eq_true, if_false, y, next, advance, if_neg last,
      List.append_nil]
    exact moved

/-! ## Printable characters -/

theorem core_setChar (charWidth : Int) (v : VTE) : core (setChar c charWidth v) = core v :=
  (core_sc _).trans (core_hc v)

theorem calls_setChar (charWidth : Int) (v : VTE) :
    calls (setChar c charWidth v) = calls v ++ [.put c v.cursor.x v.cursor.y] := by
  unfold setChar Vte.hidden
  dsimp only
  rw [calls_sc, calls_emit, calls_hc, cursor_congr (core_hc v)]
  rfl

theorem setCharPost_lands (right : column < width) (below : row < 768) (lands : Lands width buffer column row made v) :
    Lands width buffer (column + 1) row made (setCharPost 1 v) := by
  have x := lands.x
  have wide := lands.plain.width
  unfold setCharPost
  split_ifs with last
  · refine ⟨lands.plain.withCursor _, ?_, lands.y, ?_, lands.calls⟩
    · simp only
      omega
    · rw [if_neg (by omega)]
  · have position : v.cursor.x + 1 = ((column + 1 : Nat) : Int) := by omega
    rw [position, lands.y, ← lands.calls]
    exact moveCursor_lands (column + 1) row v lands.plain (by omega) below

theorem type_lands (right : column < width) (below : row < 768) (lands : Lands width buffer column row made v) :
    Lands width buffer (column + 1) row (made ++ [.put c column row]) (setCharPost 1 (setChar c 1 v)) := by
  have x : v.cursor.x = column := by
    have := lands.x
    omega
  have written := lands.congr (core_setChar c 1 v)
  rw [calls_setChar, lands.calls, x, lands.y] at written
  exact setCharPost_lands column row _ _ right below written

theorem writeChar_lands (positive : 0 < width) (below : row < 768) (lands : Lands width buffer column row [] v) :
    if column < width then
      Lands width buffer (column + 1) row [.put c column row] (writeChar c 1 v)
    else Lands width buffer 1 (nextRow row) (advance row ++ [.put c 0 (nextRow row)]) (writeChar c 1 v) := by
  have cs := lands.cs
  split_ifs at cs ⊢ with right
  · have pre : setCharPre 1 v = v := by
      simp [setCharPre, wrapPending, cs, lands.plain.replaces]
    unfold writeChar
    rw [pre]
    exact type_lands c column row [] v right below lands
  · have wrapped := nel_lands row v lands.plain positive lands.y below
    have pre : setCharPre 1 v = nel v := by
      simp [setCharPre, wrapPending, cs, lands.plain.wraps, wrapped.plain.returns, wrapped.plain.replaces]
    have inside : nextRow row < 768 := by
      unfold nextRow
      omega
    rw [lands.calls, List.nil_append] at wrapped
    unfold writeChar
    rw [pre]
    exact type_lands c 0 (nextRow row) (advance row) (nel v) positive inside wrapped

/-! ## Bytes -/

def Printable (c : uchar) : Prop := 0x20 ≤ c ∧ c ≤ 0x7e

instance (c : uchar) : Decidable (Printable c) := inferInstanceAs (Decidable (_ ∧ _))

theorem printable_decoded : ∀ c, Printable c → isControl c = false ∧ utf8Scan [c] 0 0 = some c.toUInt32 :=
  forall_uchar (by decide +kernel)

theorem Lands.silent {column row : Nat} {made : List Call} {v : VTE}
    (lands : Lands width buffer column row made v) :
    Lands width buffer column row [] { v with events := [] } :=
  ⟨Plain.congr (v := v) rfl lands.plain, lands.x, lands.y, lands.cs, rfl⟩

theorem Lands.withBuffer {column row : Nat} {made : List Call} {v : VTE} (other : List uchar)
    (lands : Lands width buffer column row made v) :
    Lands width other column row made { v with utf8Buffer := other } :=
  ⟨⟨lands.plain.mode, lands.plain.utf8, lands.plain.wraps, lands.plain.replaces, lands.plain.returns,
    lands.plain.whole, rfl, lands.plain.top, lands.plain.bottom, lands.plain.width, lands.plain.height⟩,
    lands.x, lands.y, lands.cs, lands.calls⟩

theorem process_printable (c : uchar) (v : VTE) (plain : Plain width [] v) (printable : Printable c) :
    Vte.process frontend v c =
      resetUtf8Buffer (writeChar c.toUInt32 1 { v with events := [], utf8Buffer := [c] }) := by
  obtain ⟨text, decoded⟩ := printable_decoded c printable
  simp [Vte.process, plain.mode, dispatch, text, handleText, plain.utf8, plain.buffer, decoded, frontend]

theorem process_put (c : uchar) (column row : Nat) (made : List Call) (v : VTE) (printable : Printable c)
    (positive : 0 < width) (below : row < 768) (lands : Lands width [] column row made v) :
    if column < width then
      Lands width [] (column + 1) row [.put c.toUInt32 column row] (Vte.process frontend v c)
    else
      Lands width [] 1 (nextRow row) (advance row ++ [.put c.toUInt32 0 (nextRow row)])
        (Vte.process frontend v c) := by
  rw [process_printable c v lands.plain printable]
  have written := writeChar_lands c.toUInt32 column row _ positive below (lands.silent.withBuffer [c])
  split_ifs at written ⊢
  · exact written.withBuffer []
  · exact written.withBuffer []

theorem process_control (c : uchar) (v : VTE) (plain : Plain width [] v) (control : isControl c = true) :
    Vte.process frontend v c = handleControl frontend c { v with events := [] } := by
  simp [Vte.process, plain.mode, dispatch, plain.buffer, control]

theorem process_lineFeed (positive : 0 < width) (below : row < 768) (lands : Lands width [] column row made v) :
    Lands width [] 0 (nextRow row) (advance row) (Vte.process frontend v 0x0a) := by
  rw [process_control _ v lands.plain (by decide)]
  have silent := lands.silent
  have moved := nel_lands row _ silent.plain positive silent.y below
  rw [silent.calls, List.nil_append] at moved
  exact moved

/-- A carriage return; the width is at least 2, since a wrap that is due in the first column stays due. -/
theorem process_carriageReturn (wide : 1 < width) (below : row < 768) (lands : Lands width [] column row made v) :
    Lands width [] 0 row [] (Vte.process frontend v 0x0d) := by
  rw [process_control _ v lands.plain (by decide)]
  have silent := lands.silent
  have known : controlTable.lookup 0x0d = some .CR := by decide
  generalize { v with events := [] } = w at silent
  simp only [handleControl, known, Vte.control]
  split_ifs with moves
  · have moved := moveCursor_lands 0 row w silent.plain (by omega) below
    rw [silent.calls, ← silent.y] at moved
    exact moved
  · have x := silent.x
    have first : column = 0 := by omega
    subst first
    exact silent

theorem process_backspace (wide : 1 < width) (below : row < 768) (lands : Lands width [] column row made v) :
    Lands width [] (min column (width - 1) - 1) row [] (Vte.process frontend v 0x08) := by
  rw [process_control _ v lands.plain (by decide)]
  have silent := lands.silent
  have known : controlTable.lookup 0x08 = some .BS := by decide
  generalize { v with events := [] } = w at silent
  have x := silent.x
  simp only [handleControl, known, Vte.control]
  rw [silent.y]
  by_cases first : column = 0
  · have left : moveCursor (w.cursor.x - 1) row w = moveCursor 0 row w := by
      have outside : w.cursor.x - 1 = -1 := by omega
      rw [outside]
      exact moveCursor_left row w
    have moved := moveCursor_lands 0 row w silent.plain (by omega) below
    rw [silent.calls] at moved
    rw [left, first, Nat.zero_min]
    exact moved
  · have left : w.cursor.x - 1 = ((min column (width - 1) - 1 : Nat) : Int) := by omega
    have moved := moveCursor_lands (min column (width - 1) - 1) row w silent.plain (by omega) below
    rw [silent.calls] at moved
    rw [left]
    exact moved

end Woterm.Terminal.TextBytes
