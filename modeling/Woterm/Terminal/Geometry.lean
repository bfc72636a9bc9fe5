import Woterm.Terminal.Vte

/-!
The geometry of the terminal parser: the size of the screen, where the cursor and the margins
are, and where characters are put. One pass over all operations says what they do to it, so that
an invariant of the geometry only has to be checked for a handful of updates. Setting the margins
and restoring the cursor take over what they find, and are left to the invariant.
-/

namespace Woterm.Terminal.Geometry
open Woterm.Lib Woterm.Terminal.Data Woterm.Terminal.Vte

/-- The part of the state that the geometry is about. -/
structure Frame where
  width : Int
  height : Int
  top : Int
  bottom : Int
  x : Int
  y : Int
  savedX : Int
  savedY : Int

def frame (v : VTE) : Frame where
  width := v.width
  height := v.height
  top := v.top
  bottom := v.bottom
  x := v.cursor.x
  y := v.cursor.y
  savedX := v.savedCursor.x
  savedY := v.savedCursor.y

/-- The cursor of a `put_char`. -/
def putOf : Event → Option Cursor
  | .putChar _ _ cursor => some cursor
  | _ => none

/-- The cursors of the `put_char` callbacks. -/
def puts (v : VTE) : List Cursor := v.events.filterMap putOf

namespace Frame

/-- `move_cursor`, with the origin at the margins or at the screen. -/
def place (f : Frame) (origin : Bool) (x y : Int) : Frame :=
  { f with
    x := setRange x 0 (f.width - 1)
    y := if origin then setRange y f.top f.bottom else setRange y 0 (f.height - 1) }

/-- The cursor is at home and the margins are those of the whole screen. -/
def home (f : Frame) (width : Int) : Frame :=
  { f with width := width, top := 0, bottom := f.height - 1, x := 0, y := 0 }

def save (f : Frame) : Frame := { f with savedX := f.x, savedY := f.y }

def restore (f : Frame) : Frame := { f with x := f.savedX, y := setRange f.savedY f.top f.bottom }

end Frame

/-- A property of frames that all operations keep, but for setting margins and restoring the cursor. -/
structure Closed (I : Frame → Prop) : Prop where
  place : ∀ f origin x y, I f → I (f.place origin x y)
  column : ∀ f, I f → I { f with x := 0 }
  home : ∀ f width, width = f.width ∨ width = 80 ∨ width = 132 → I f → I (f.home width)
  save : ∀ f, I f → I f.save

/-- From `v` to `w` neither the geometry changes nor is a character put. -/
structure Still (v w : VTE) : Prop where
  frame : frame w = frame v
  puts : puts w = puts v

/-- From `v` to `w` no character is put, and the property holds at the end. -/
structure Calm (I : Frame → Prop) (v w : VTE) : Prop where
  kept : I (frame w)
  puts : puts w = puts v

/-- A cursor inside the grid. -/
def OnGrid (v : VTE) (cursor : Cursor) : Prop :=
  (0 ≤ cursor.x ∧ cursor.x < v.width) ∧ 0 ≤ cursor.y ∧ cursor.y < v.height

/-- A character is put inside the grid, or at the cursor of a frame of the same size that has the property. -/
def PutAt (I : Frame → Prop) (v : VTE) (cursor : Cursor) : Prop :=
  OnGrid v cursor ∨ ∃ f, I f ∧ f.x = cursor.x ∧ f.y = cursor.y ∧ f.width = v.width ∧ f.height = v.height

/-- The property holds, and characters were put accordingly. -/
structure Safe (I : Frame → Prop) (v : VTE) : Prop where
  kept : I (frame v)
  grid : ∀ cursor ∈ puts v, PutAt I v cursor

/-- The byte sets the margins. -/
def SetsMargins (v : VTE) (c : uchar) : Prop :=
  v.mode = .csi ∧ c = byte 'r' ∧ v.csiData.spaceLeft ∧ v.csiData.decMode = false ∧
    requestedTop v < requestedBottom v

/-- The byte restores the cursor. -/
def RestoresCursor (v : VTE) (c : uchar) : Prop :=
  v.mode = .esc ∧ c = byte '8' ∨ v.mode = .csi ∧ c = byte 'u' ∧ v.csiData.spaceLeft

/-- The two operations that may lose the property keep it. -/
structure Allows (I : Frame → Prop) (v : VTE) (c : uchar) : Prop where
  margins : SetsMargins v c → I { frame v with top := requestedTop v, bottom := requestedBottom v }
  cursor : RestoresCursor v c → I (frame v).restore

variable {I : Frame → Prop}

section
variable (v : VTE)

theorem Still.refl : Still v v := ⟨rfl, rfl⟩

theorem Still.trans {u v w : VTE} (first : Still u v) (second : Still v w) : Still u w :=
  ⟨second.frame.trans first.frame, second.puts.trans first.puts⟩

theorem Still.calm {v w : VTE} (still : Still v w) (holds : I (Geometry.frame v)) : Calm I v w :=
  ⟨still.frame ▸ holds, still.puts⟩

theorem Calm.trans {u v w : VTE} (first : Calm I u v) (second : I (frame v) → Calm I v w) : Calm I u w :=
  ⟨(second first.kept).kept, (second first.kept).puts.trans first.puts⟩

theorem Calm.still {u v w : VTE} (first : Calm I u v) (second : Still v w) : Calm I u w :=
  first.trans second.calm

/-! ## Operations that change nothing -/

theorem emit_still (event : Event) (quiet : putOf event = none) (v : VTE) : Still v (emit event v) := by
  refine ⟨rfl, ?_⟩
  simp [puts, emit, quiet]

theorem emitAll_still (events : List Event) (quiet : ∀ event ∈ events, putOf event = none) (v : VTE) :
    Still v (emitAll events v) := by
  refine ⟨rfl, ?_⟩
  have none : events.filterMap putOf = [] := List.filterMap_eq_nil_iff.mpr quiet
  simp [puts, emitAll, none]

theorem setFlag_still (flag : TerminalFlag) (state : Bool) (v : VTE) : Still v (setFlag flag state v) := ⟨rfl, rfl⟩

theorem resetEscape_still : Still v (resetEscape v) := ⟨rfl, rfl⟩

theorem resetUtf8Buffer_still : Still v (resetUtf8Buffer v) := ⟨rfl, rfl⟩

theorem hc_still : Still v (hc v) := by
  unfold hc
  split_ifs
  · exact (emit_still (.hideCursor v.cursor) rfl v).trans ⟨rfl, rfl⟩
  · exact Still.refl v

theorem sc_still : Still v (sc v) := by
  unfold sc
  split_ifs
  · exact (emit_still (.showCursor v.cursor) rfl v).trans ⟨rfl, rfl⟩
  · exact Still.refl v

theorem hidden_still (event : Cursor → Event) (quiet : ∀ cursor, putOf (event cursor) = none) (v : VTE) :
    Still v (hidden event v) :=
  (hc_still v).trans ((emit_still _ (quiet _) _).trans (sc_still _))

theorem trmInsertChars_still (x n : Int) (v : VTE) : Still v (trmInsertChars x n v) :=
  hidden_still _ (fun _ => rfl) v

theorem trmDeleteChars_still (x n : Int) (v : VTE) : Still v (trmDeleteChars x n v) :=
  hidden_still _ (fun _ => rfl) v

theorem trmClearRegion_still (x1 y1 x2 y2 : Int) (v : VTE) : Still v (trmClearRegion x1 y1 x2 y2 v) :=
  hidden_still _ (fun _ => rfl) v

theorem selectCharset_still (n : Nat) (v : VTE) : Still v (selectCharset n v) :=
  Still.trans (v := { v with cursor := { v.cursor with selectedCharset := n } }) ⟨rfl, rfl⟩
    (emit_still (.selectCharset n) rfl _)

theorem announceCharsets_still : Still v (announceCharsets v) := by
  refine (emitAll_still _ ?_ v).trans (emit_still _ rfl _)
  intro event member
  obtain ⟨i, _, rfl⟩ := List.mem_map.mp member
  rfl

theorem notifyKAM_still : Still v (notifyKAM v) := emit_still _ rfl v

theorem notifyKPAM_still : Still v (notifyKPAM v) := emit_still _ rfl v

theorem notifyDECSCLM_still : Still v (notifyDECSCLM v) := emit_still _ rfl v

theorem notifyDECSCNM_still : Still v (notifyDECSCNM v) := emit_still _ rfl v

theorem notifyTCEM_still : Still v (notifyTCEM v) :=
  (hc_still v).trans ((emit_still _ rfl _).trans (sc_still _))

theorem decid_still : Still v (decid v) := emit_still _ rfl v

theorem cpr_still : Still v (cpr v) := emit_still _ rfl v

theorem setAttributes_still : Still v (setAttributes v) := ⟨rfl, rfl⟩

theorem eraseDisplay_still : Still v (eraseDisplay v) := by
  unfold eraseDisplay
  split
  · dsimp only
    split_ifs
    · exact (trmClearRegion_still _ _ _ _ v).trans (trmClearRegion_still _ _ _ _ _)
    · exact trmClearRegion_still _ _ _ _ v
  · dsimp only
    split_ifs
    · exact (trmClearRegion_still _ _ _ _ v).trans (trmClearRegion_still _ _ _ _ _)
    · exact trmClearRegion_still _ _ _ _ v
  · exact trmClearRegion_still _ _ _ _ v
  · exact Still.refl v

theorem eraseLine_still : Still v (eraseLine v) := by
  unfold eraseLine
  split
  · exact trmClearRegion_still _ _ _ _ v
  · exact trmClearRegion_still _ _ _ _ v
  · exact trmClearRegion_still _ _ _ _ v
  · exact Still.refl v

theorem parseString_still : Still v (parseString v) := by
  unfold parseString
  dsimp only
  repeat' split
  all_goals first
    | exact ⟨rfl, rfl⟩
    | exact ⟨rfl, (emit_still (.setWindowTitle _) rfl v).puts⟩
    | exact ⟨rfl, (emit_still (.defineColor _ _) rfl v).puts⟩
    | exact ⟨rfl, (emit_still (.resetColor _) rfl v).puts⟩

theorem handleString_still (c : uchar) (v : VTE) : Still v (handleString c v).1 := by
  unfold handleString
  split_ifs
  · exact ⟨rfl, rfl⟩
  · split
    · exact ⟨rfl, rfl⟩
    · exact ⟨rfl, rfl⟩

theorem handleCharset_still (c : uchar) (v : VTE) : Still v (handleCharset c v) := by
  unfold handleCharset
  split
  · exact ⟨rfl, (emit_still (.defineCharset _ _) rfl v).puts⟩
  · exact resetEscape_still v

theorem handleUtf8_still (c : uchar) (v : VTE) : Still v (handleUtf8 c v) := by
  unfold handleUtf8
  split_ifs
  · exact ⟨rfl, rfl⟩
  · exact ⟨rfl, rfl⟩
  · exact ⟨rfl, rfl⟩

/-! ## The cursor -/

theorem hc_flags : (hc v).flags = v.flags := by
  unfold hc
  split_ifs <;> rfl

theorem frame_moveCursor (x y : Int) (v : VTE) :
    frame (moveCursor x y v) = (frame v).place (v.flags .DECOM) x y := by
  calc frame (moveCursor x y v)
      = frame (place x y (hc v)) := (sc_still _).frame
    _ = (frame (hc v)).place ((hc v).flags .DECOM) x y := rfl
    _ = (frame v).place (v.flags .DECOM) x y := by rw [(hc_still v).frame, hc_flags]

theorem frame_decrc : frame (decrc v) = (frame v).restore := by
  let cursor := { (hc v).savedCursor with y := setRange (hc v).savedCursor.y (hc v).top (hc v).bottom }
  let restored := { hc v with cursor := cursor }
  calc frame (decrc v)
      = frame restored := ((announceCharsets_still restored).trans (sc_still _)).frame
    _ = (frame (hc v)).restore := rfl
    _ = (frame v).restore := by rw [(hc_still v).frame]

/-! ## Resting and putting -/

theorem ris_still : Still (risState v) (ris v) := by
  have tabs : ∀ event ∈ Event.clearTabs :: tabStops (risState v).width, putOf event = none := by
    intro event member
    rcases List.mem_cons.mp member with rfl | member
    · rfl
    · obtain ⟨x, _, rfl⟩ := List.mem_map.mp member
      rfl
  have colors : ∀ event ∈ (List.range 256).map fun i : Nat => Event.resetColor i, putOf event = none := by
    intro event member
    obtain ⟨i, _, rfl⟩ := List.mem_map.mp member
    rfl
  unfold ris
  dsimp only
  apply Still.trans _ (sc_still _)
  apply Still.trans _ (emit_still _ rfl _)
  apply Still.trans _ (announceCharsets_still _)
  apply Still.trans _ (emitAll_still _ colors _)
  apply Still.trans _ (notifyDECSCLM_still _)
  apply Still.trans _ (notifyDECSCNM_still _)
  apply Still.trans _ (notifyKPAM_still _)
  apply Still.trans _ (notifyKAM_still _)
  apply Still.trans _ (emit_still _ rfl _)
  exact emitAll_still _ tabs _

theorem decrc_calm (restored : I (frame v).restore) : Calm I v (decrc v) := by
  refine ⟨?_, ?_⟩
  · rw [frame_decrc]
    exact restored
  · exact ((announceCharsets_still _).trans (sc_still _)).puts.trans (hc_still v).puts

theorem Calm.safe {v w : VTE} (calm : Calm I v w) (quiet : Geometry.puts v = []) : Safe I w := by
  refine ⟨calm.kept, fun cursor member => ?_⟩
  rw [calm.puts, quiet] at member
  simp at member

theorem Safe.calm {v w : VTE} (safe : Safe I v) (calm : Calm I v w) (width : w.width = v.width)
    (height : w.height = v.height) : Safe I w := by
  refine ⟨calm.kept, fun cursor member => ?_⟩
  rw [calm.puts] at member
  unfold PutAt OnGrid
  rw [width, height]
  exact safe.grid cursor member

theorem Safe.still {v w : VTE} (safe : Safe I v) (still : Still v w) : Safe I w :=
  safe.calm (still.calm safe.kept) (congrArg Frame.width still.frame) (congrArg Frame.height still.frame)

theorem moveCursor_size (x y : Int) (v : VTE) :
    (moveCursor x y v).width = v.width ∧ (moveCursor x y v).height = v.height :=
  ⟨congrArg Frame.width (frame_moveCursor x y v), congrArg Frame.height (frame_moveCursor x y v)⟩

theorem setChar_safe (c : UInt32) (charWidth : Int) (v : VTE) (holds : I (frame v)) (quiet : puts v = []) :
    Safe I (setChar c charWidth v) := by
  have hid := (hc_still v).calm holds
  have put : Safe I (emit (.putChar c charWidth (hc v).cursor) (hc v)) := by
    refine ⟨hid.kept, fun cursor member => ?_⟩
    have last : puts (emit (.putChar c charWidth (hc v).cursor) (hc v)) = [(hc v).cursor] := by
      have before : puts (hc v) = [] := hid.puts.trans quiet
      unfold puts at before
      simp [puts, emit, putOf, before]
    rw [last, List.mem_singleton] at member
    subst member
    exact .inr ⟨frame (hc v), hid.kept, rfl, rfl, rfl, rfl⟩
  exact put.still (sc_still _)

theorem decaln_safe (holds : I (frame v)) (quiet : puts v = []) : Safe I (decaln v) := by
  have hid := hc_still v
  have width : (hc v).width = v.width := congrArg Frame.width hid.frame
  have height : (hc v).height = v.height := congrArg Frame.height hid.frame
  have put : Safe I (emitAll (pattern v.width v.height) (hc v)) := by
    refine ⟨(hid.calm holds).kept, fun cursor member => .inl ?_⟩
    have before : puts (hc v) = [] := hid.puts.trans quiet
    unfold puts at before
    simp only [puts, emitAll, List.filterMap_append, before, List.nil_append, List.mem_filterMap, pattern,
      List.mem_flatMap, List.mem_map, List.mem_range] at member
    obtain ⟨event, ⟨x, column, y, row, rfl⟩, put⟩ := member
    obtain rfl := Option.some.inj put
    refine ⟨?_, ?_⟩
    · simp only [emitAll, width]
      omega
    · simp only [emitAll, height]
      omega
  exact put.still (sc_still _)

theorem lookup_mem {α β : Type*} [BEq α] [LawfulBEq α] (key : α) (value : β) (table : List (α × β))
    (found : table.lookup key = some value) : (key, value) ∈ table := by
  obtain ⟨front, back, rfl, _⟩ := List.lookup_eq_some_iff.mp found
  simp

theorem handleHash_safe (c : uchar) (v : VTE) (holds : I (frame v)) (quiet : puts v = []) :
    Safe I (handleHash c v) := by
  unfold handleHash
  split
  · exact (((emit_still _ rfl v).calm holds).still (resetEscape_still _)).safe quiet
  · split_ifs
    · exact (decaln_safe v holds quiet).still (resetEscape_still _)
    · exact ((resetEscape_still v).calm holds).safe quiet

theorem handleString_unused (c : uchar) (v : VTE) (unused : (handleString c v).2 = false) :
    (handleString c v).1.mode = .ground := by
  unfold handleString at unused ⊢
  split_ifs at unused ⊢
  · rfl
  · split at unused <;> simp at unused

/-! ## The property along the operations -/

end

section
variable (closed : Closed I)
include closed

theorem moveCursor_calm (x y : Int) (v : VTE) (holds : I (frame v)) : Calm I v (moveCursor x y v) := by
  refine ⟨?_, ?_⟩
  · rw [frame_moveCursor]
    exact closed.place (frame v) (v.flags .DECOM) x y holds
  · exact (sc_still _).puts.trans (hc_still v).puts

theorem moveCursorAbsolute_calm (x y : Int) (v : VTE) (holds : I (frame v)) :
    Calm I v (moveCursorAbsolute x y v) :=
  moveCursor_calm closed _ _ v holds

theorem trmScroll_calm (event : Cursor → Event) (quiet : ∀ cursor, putOf (event cursor) = none) (v : VTE)
    (holds : I (frame v)) : Calm I v (trmScroll event v) := by
  have called := ((hc_still v).trans (emit_still _ (quiet (hc v).cursor) (hc v))).calm holds
  refine (called.trans fun holds => ?_).still (sc_still _)
  exact ⟨closed.column _ holds, rfl⟩

theorem trmScrollUp_calm (y n : Int) (v : VTE) (holds : I (frame v)) : Calm I v (trmScrollUp y n v) :=
  trmScroll_calm closed _ (fun _ => rfl) v holds

theorem trmScrollDown_calm (y n : Int) (v : VTE) (holds : I (frame v)) : Calm I v (trmScrollDown y n v) :=
  trmScroll_calm closed _ (fun _ => rfl) v holds

variable (charWidth : Int) (v : VTE)

theorem nel_calm (holds : I (frame v)) : Calm I v (nel v) := by
  by_cases last : v.cursor.y = v.bottom
  · simp only [nel, if_pos last]
    exact (trmScrollUp_calm closed _ 1 v holds).trans (moveCursor_calm closed _ _ _)
  · simp only [nel, if_neg last]
    exact moveCursor_calm closed _ _ v holds

theorem ind_calm (holds : I (frame v)) : Calm I v (ind v) := by
  unfold ind
  split_ifs
  · exact trmScrollUp_calm closed _ 1 v holds
  · exact moveCursor_calm closed _ _ v holds

theorem ri_calm (holds : I (frame v)) : Calm I v (ri v) := by
  unfold ri
  split_ifs
  · exact trmScrollDown_calm closed _ 1 v holds
  · exact moveCursor_calm closed _ _ v holds

theorem setCharPre_calm (holds : I (frame v)) : Calm I v (setCharPre charWidth v) := by
  have wrapped : Calm I v (wrapPending v) := by
    unfold wrapPending
    dsimp only
    split_ifs
    · exact (nel_calm closed v holds).trans (moveCursor_calm closed _ _ _)
    · exact nel_calm closed v holds
    · exact (Still.refl v).calm holds
  unfold setCharPre
  dsimp only
  split_ifs
  · exact wrapped.still (trmInsertChars_still _ _ _)
  · exact wrapped

theorem setCharPost_calm (holds : I (frame v)) : Calm I v (setCharPost charWidth v) := by
  unfold setCharPost
  split_ifs
  · exact ⟨holds, rfl⟩
  · exact moveCursor_calm closed _ _ v holds

theorem writeMark_calm (holds : I (frame v)) : Calm I v (writeMark v) :=
  ((setCharPre_calm closed 1 v holds).still (hidden_still _ (fun _ => rfl) _)).trans (setCharPost_calm closed 1 _)

/-! ## Reset, saving and restoring -/

theorem ris_calm (holds : I (frame v)) : Calm I v (ris v) := by
  have start : Calm I v (risState v) := ⟨closed.save _ (closed.home (frame v) v.width (.inl rfl) holds), rfl⟩
  exact start.still (ris_still v)

theorem decsc_calm (holds : I (frame v)) : Calm I v (decsc v) :=
  ⟨closed.save (frame v) holds, rfl⟩

/-! ## Modes -/

variable (frontend : Frontend)

theorem notifyDECCOLM_calm (v : VTE) (holds : I (frame v)) : Calm I v (notifyDECCOLM frontend v) := by
  have hid := (hc_still v).calm holds
  -- The width asked for is 80 or 132, and the old one stays if the terminal refuses.
  have allowed (requested : Int) (known : requested = 80 ∨ requested = 132) :
      let w := if frontend.requestWidth requested then { hc v with width := requested } else hc v
      Calm I v { w with top := 0, bottom := w.height - 1, cursor := {} } := by
    intro w
    by_cases granted : frontend.requestWidth requested = true
    · simp only [w, if_pos granted]
      exact ⟨closed.home (frame (hc v)) requested (.inr known) hid.kept, hid.puts⟩
    · simp only [w, if_neg granted]
      exact ⟨closed.home (frame (hc v)) (hc v).width (.inl rfl) hid.kept, hid.puts⟩
  unfold notifyDECCOLM
  apply Calm.still _ (sc_still _)
  apply Calm.still _ (emit_still _ rfl _)
  apply allowed
  split_ifs
  · exact .inr rfl
  · exact .inl rfl

theorem notify_calm (flag : TerminalFlag) (v : VTE) (holds : I (frame v)) :
    Calm I v (notify frontend flag v) := by
  unfold notify
  split
  · exact (notifyKAM_still v).calm holds
  · exact notifyDECCOLM_calm closed frontend v holds
  · exact (notifyDECSCLM_still v).calm holds
  · exact (notifyDECSCNM_still v).calm holds
  · exact moveCursorAbsolute_calm closed 0 0 v holds
  · exact (notifyTCEM_still v).calm holds
  · exact (Still.refl v).calm holds

theorem modifyMode_calm (decMode state : Bool) (v : VTE) (value : Int) (holds : I (frame v)) :
    Calm I v (modifyMode frontend decMode state v value) := by
  unfold modifyMode
  split
  · exact ((setFlag_still _ state v).calm holds).trans (notify_calm closed frontend _ _)
  · exact (Still.refl v).calm holds

theorem changeModes_calm (state : Bool) (v : VTE) (holds : I (frame v)) :
    Calm I v (changeModes frontend state v) := by
  have step := modifyMode_calm closed frontend v.csiData.decMode state
  unfold changeModes
  generalize modifyMode frontend v.csiData.decMode state = modify at step
  generalize arguments v.csiData = values
  induction values generalizing v with
  | nil => exact (Still.refl v).calm holds
  | cons value values ih =>
    have first := step v value holds
    exact first.trans fun holds => ih (modify v value) holds

/-! ## Characters -/

theorem setCharPost_safe (safe : Safe I v) : Safe I (setCharPost charWidth v) := by
  have size : (setCharPost charWidth v).width = v.width ∧ (setCharPost charWidth v).height = v.height := by
    unfold setCharPost
    split_ifs
    · exact ⟨rfl, rfl⟩
    · exact moveCursor_size _ _ v
  exact safe.calm (setCharPost_calm closed charWidth v safe.kept) size.1 size.2

theorem writeChar_safe (c : UInt32) (charWidth : Int) (v : VTE) (holds : I (frame v)) (quiet : puts v = []) :
    Safe I (writeChar c charWidth v) := by
  have before := setCharPre_calm closed charWidth v holds
  apply setCharPost_safe closed
  exact setChar_safe c charWidth _ before.kept (before.puts.trans quiet)

/-! ## Bytes -/

theorem control_calm (c : Control) (v : VTE) (holds : I (frame v)) : Calm I v (Vte.control frontend c v) := by
  have same : Calm I v v := (Still.refl v).calm holds
  have strings : Calm I v (resetEscape (if v.strData.finished then parseString v else emit .bell v)) := by
    split_ifs
    · exact ((parseString_still v).calm holds).still (resetEscape_still _)
    · exact ((emit_still .bell rfl v).calm holds).still (resetEscape_still _)
  cases c <;> simp only [Vte.control]
  case BEL => exact strings
  case BS => exact moveCursor_calm closed _ _ v holds
  case HT => exact moveCursor_calm closed _ _ v holds
  case LF => exact nel_calm closed v holds
  case CR =>
    split_ifs
    · exact moveCursor_calm closed _ _ v holds
    · exact same
  case SO => exact (selectCharset_still 1 v).calm holds
  case SI => exact (selectCharset_still 0 v).calm holds
  case SUB => exact (writeMark_calm closed v holds).still ⟨rfl, rfl⟩
  case CAN => exact same.still ⟨rfl, rfl⟩
  case ESC => exact same.still ⟨rfl, rfl⟩
  case IND => exact ind_calm closed v holds
  case NEL => exact (nel_calm closed v holds).still (resetEscape_still _)
  case HTS => exact (emit_still _ rfl v).calm holds
  case RI => exact ri_calm closed v holds
  case DECID => exact ((decid_still v).calm holds).still (resetEscape_still _)
  all_goals exact same.still ⟨rfl, rfl⟩

theorem escape_calm (c : Escape) (v : VTE) (holds : I (frame v))
    (restored : c = .DECRC → I (frame v).restore) : Calm I v (escape c v) := by
  have same : Calm I v v := (Still.refl v).calm holds
  cases c <;> simp only [escape]
  case LS2 => exact ((selectCharset_still 2 v).calm holds).still (resetEscape_still _)
  case LS3 => exact ((selectCharset_still 3 v).calm holds).still (resetEscape_still _)
  case IND => exact (ind_calm closed v holds).still (resetEscape_still _)
  case NEL => exact (nel_calm closed v holds).still (resetEscape_still _)
  case HTS => exact ((emit_still _ rfl v).calm holds).still (resetEscape_still _)
  case RI => exact (ri_calm closed v holds).still (resetEscape_still _)
  case DECID => exact ((decid_still v).calm holds).still (resetEscape_still _)
  case RIS => exact (ris_calm closed v holds).still (resetEscape_still _)
  case DECPAM =>
    exact (((setFlag_still _ true v).calm holds).still (notifyKPAM_still _)).still (resetEscape_still _)
  case DECPNM =>
    exact (((setFlag_still _ false v).calm holds).still (notifyKPAM_still _)).still (resetEscape_still _)
  case DECSC => exact (decsc_calm closed v holds).still (resetEscape_still _)
  case DECRC => exact (decrc_calm v (restored rfl)).still (resetEscape_still _)
  case ST =>
    split_ifs
    · exact ((parseString_still v).calm holds).still (resetEscape_still _)
    · exact same.still (resetEscape_still _)
  all_goals exact same.still ⟨rfl, rfl⟩

theorem handleEsc_calm (c : uchar) (v : VTE) (holds : I (frame v))
    (restored : c = byte '8' → I (frame v).restore) : Calm I v (handleEsc c v) := by
  have only : ∀ entry ∈ escapeTable, entry.2 = .DECRC → entry.1 = byte '8' := by decide
  unfold handleEsc
  split
  case h_1 found known =>
    exact escape_calm closed found v holds fun restores => restored (only _ (lookup_mem c found _ known) restores)
  case h_2 => exact (resetEscape_still v).calm holds

theorem setMargins_calm (holds : I (frame v))
    (margins : v.csiData.decMode = false → requestedTop v < requestedBottom v →
      I { frame v with top := requestedTop v, bottom := requestedBottom v }) : Calm I v (setMargins v) := by
  unfold setMargins
  split_ifs with dec wide
  · exact (Still.refl v).calm holds
  · have set : Calm I v { v with top := requestedTop v, bottom := requestedBottom v } :=
      ⟨margins (by simpa using dec) wide, rfl⟩
    exact set.trans (moveCursorAbsolute_calm closed 0 0 _)
  · exact (Still.refl v).calm holds

theorem final_calm (c : Final) (v : VTE) (holds : I (frame v))
    (margins : c = .DECSTBM → v.csiData.decMode = false → requestedTop v < requestedBottom v →
      I { frame v with top := requestedTop v, bottom := requestedBottom v })
    (cursor : c = .DECRC → I (frame v).restore) : Calm I v (final frontend c v) := by
  have same : Calm I v v := (Still.refl v).calm holds
  cases c <;> simp only [final]
  case ICH => exact (trmInsertChars_still _ _ v).calm holds
  case DA =>
    split_ifs
    · exact (decid_still v).calm holds
    · exact same
  case TBC =>
    split
    · exact (emit_still _ rfl v).calm holds
    · exact (emit_still _ rfl v).calm holds
    · exact same
  case ED => exact (eraseDisplay_still v).calm holds
  case EL => exact (eraseLine_still v).calm holds
  case SU => exact trmScrollUp_calm closed _ _ v holds
  case SD => exact trmScrollDown_calm closed _ _ v holds
  case IL => exact trmScrollDown_calm closed _ _ v holds
  case RM => exact changeModes_calm closed frontend false v holds
  case DL => exact trmScrollUp_calm closed _ _ v holds
  case ECH => exact (trmClearRegion_still _ _ _ _ v).calm holds
  case DCH => exact (trmDeleteChars_still _ _ v).calm holds
  case SM => exact changeModes_calm closed frontend true v holds
  case SGR => exact (setAttributes_still v).calm holds
  case DSR =>
    split
    · exact (emit_still _ rfl v).calm holds
    · exact (cpr_still v).calm holds
    · exact same
  case DECSTBM => exact setMargins_calm closed v holds (margins rfl)
  case DECSC => exact decsc_calm closed v holds
  case DECRC => exact decrc_calm v (cursor rfl)
  all_goals exact moveCursor_calm closed _ _ v holds

theorem handleCsi_calm (c : uchar) (v : VTE) (holds : I (frame v))
    (margins : c = byte 'r' → v.csiData.spaceLeft → v.csiData.decMode = false →
      requestedTop v < requestedBottom v → I { frame v with top := requestedTop v, bottom := requestedBottom v })
    (cursor : c = byte 'u' → v.csiData.spaceLeft → I (frame v).restore) :
    Calm I v (handleCsi frontend c v) := by
  have onlyMargins : ∀ entry ∈ finalTable, entry.2 = .DECSTBM → entry.1 = byte 'r' := by decide
  have onlyCursor : ∀ entry ∈ finalTable, entry.2 = .DECRC → entry.1 = byte 'u' := by decide
  unfold handleCsi
  split_ifs with space
  · split
    · exact Still.calm ⟨rfl, rfl⟩ holds
    · split
      case h_1 found known =>
        have entry := lookup_mem c found _ known
        refine (final_calm closed frontend found v holds ?_ ?_).still (resetEscape_still _)
        · exact fun sets => margins (onlyMargins _ entry sets) space
        · exact fun restores => cursor (onlyCursor _ entry restores) space
      case h_2 => exact (resetEscape_still v).calm holds
  · exact (resetEscape_still v).calm holds

theorem handleText_safe (c : uchar) (v : VTE) (holds : I (frame v)) (quiet : puts v = []) :
    Safe I (handleText frontend c v) := by
  unfold handleText
  split_ifs
  · exact ((writeMark_calm closed v holds).still (resetUtf8Buffer_still _)).safe quiet
  · have stored : Still v { v with utf8Buffer := v.utf8Buffer ++ [c] } := ⟨rfl, rfl⟩
    generalize { v with utf8Buffer := v.utf8Buffer ++ [c] } = w at stored ⊢
    have calm := stored.calm holds
    have written (code : UInt32) (width : Int) : Safe I (resetUtf8Buffer (writeChar code width w)) :=
      (writeChar_safe closed code width w calm.kept (calm.puts.trans quiet)).still (resetUtf8Buffer_still _)
    dsimp only
    split
    · split_ifs
      · exact written _ _
      · exact written _ _
    · exact calm.safe quiet
  · exact writeChar_safe closed _ _ v holds quiet
  · exact ((Still.refl v).calm holds).safe quiet

theorem dispatch_safe (c : uchar) (v : VTE) (holds : I (frame v)) (quiet : puts v = []) (allows : Allows I v c) :
    Safe I (dispatch frontend c v) := by
  unfold dispatch
  split_ifs
  · unfold handleControl
    split
    · exact (control_calm closed frontend _ v holds).safe quiet
    · exact ((Still.refl v).calm holds).safe quiet
  · split
    case h_1 mode => exact (handleEsc_calm closed c v holds fun key => allows.cursor (.inl ⟨mode, key⟩)).safe quiet
    case h_2 mode =>
      refine (handleCsi_calm closed frontend c v holds ?_ ?_).safe quiet
      · exact fun key space dec wide => allows.margins ⟨mode, key, space, dec, wide⟩
      · exact fun key space => allows.cursor (.inr ⟨mode, key, space⟩)
    · exact handleHash_safe c v holds quiet
    · exact ((handleCharset_still c v).calm holds).safe quiet
    · exact ((handleUtf8_still c v).calm holds).safe quiet
    · exact handleText_safe closed frontend c v holds quiet
    · exact handleText_safe closed frontend c v holds quiet

/-- The step: a byte keeps the property, if the two operations do. -/
theorem process_safe (v : VTE) (c : uchar) (holds : I (frame v)) (allows : Allows I v c) :
    Safe I (process frontend v c) := by
  have allows : Allows I { v with events := [] } c := ⟨allows.margins, allows.cursor⟩
  have holds : I (frame { v with events := [] }) := holds
  have quiet : puts { v with events := [] } = [] := rfl
  unfold process
  generalize { v with events := [] } = w at allows holds quiet
  dsimp only
  split_ifs with string used
  · exact ((handleString_still c w).calm holds).safe quiet
  · have calm := (handleString_still c w).calm holds
    have ground := handleString_unused c w (by simpa using used)
    apply dispatch_safe closed frontend c _ calm.kept (calm.puts.trans quiet)
    refine ⟨?_, ?_⟩
    · intro given
      obtain ⟨csi, _⟩ := given
      rw [ground] at csi
      cases csi
    · intro given
      rcases given with ⟨esc, _⟩ | ⟨csi, _⟩
      · rw [ground] at esc
        cases esc
      · rw [ground] at csi
        cases csi
  · exact dispatch_safe closed frontend c w holds quiet allows

end

end Woterm.Terminal.Geometry
