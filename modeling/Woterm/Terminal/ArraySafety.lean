import Woterm.Terminal.Arrays
import Woterm.Terminal.Geometry

/-!
No byte makes the terminal parser access an array outside of its bounds. The invariant joins the
modes and the buffers: bytes of an unfinished character are only there in the ground mode with
UTF-8, so no other sequence starts between them. Under it the parser on arrays computes what the
parser on lists does.
-/

namespace Woterm.Terminal.ArraySafety
open Woterm.Lib Woterm.Lib.Slots Woterm.Lib.Run Woterm.Terminal.Data Woterm.Terminal.Vte Woterm.Terminal.Arrays
open Woterm.Terminal.Geometry (lookup_mem)

/-! ## What both parsers show -/

structure View where
  mode : TerminalMode
  utf8 : Bool
  definingCharset : Nat
  charsets : List Charset
  savedCharsets : List Charset
  csiData : Data.ControlData
  strData : Data.StringData
  utf8Buffer : List uchar

def charsetsOf (cursor : Cursor) : List Charset := (List.range 4).map cursor.charsetTable

def view (v : VTE) : View where
  mode := v.mode
  utf8 := v.flags .UTF8
  definingCharset := v.definingCharset
  charsets := charsetsOf v.cursor
  savedCharsets := charsetsOf v.savedCursor
  csiData := v.csiData
  strData := v.strData
  utf8Buffer := v.utf8Buffer

def shown (b : Buffers) : View where
  mode := b.mode
  utf8 := b.utf8
  definingCharset := b.definingCharset
  charsets := b.charsets.toList
  savedCharsets := b.savedCharsets.toList
  csiData := b.csiData.view
  strData := b.strData.view
  utf8Buffer := b.utf8Buffer.toList.take b.nextUtf8

/-! ## Operations on the screen leave the buffers alone -/

@[simp] theorem view_emit (event : Event) (v : VTE) : view (emit event v) = view v := rfl

@[simp] theorem view_emitAll (events : List Event) (v : VTE) : view (emitAll events v) = view v := rfl

@[simp] theorem view_hc (v : VTE) : view (hc v) = view v := by
  unfold hc
  split_ifs <;> rfl

@[simp] theorem view_sc (v : VTE) : view (sc v) = view v := by
  unfold sc
  split_ifs <;> rfl

@[simp] theorem view_hidden (event : Cursor → Event) (v : VTE) : view (hidden event v) = view v := by
  simp [Vte.hidden]

@[simp] theorem view_place (x y : Int) (v : VTE) : view (place x y v) = view v := rfl

@[simp] theorem view_moveCursor (x y : Int) (v : VTE) : view (moveCursor x y v) = view v := by
  simp [moveCursor]

@[simp] theorem view_moveCursorAbsolute (x y : Int) (v : VTE) : view (moveCursorAbsolute x y v) = view v :=
  view_moveCursor _ _ v

@[simp] theorem view_trmScroll (event : Cursor → Event) (v : VTE) : view (trmScroll event v) = view v := by
  unfold trmScroll
  rw [view_sc]
  exact view_hc v

@[simp] theorem view_trmScrollUp (y n : Int) (v : VTE) : view (trmScrollUp y n v) = view v := view_trmScroll _ v

@[simp] theorem view_trmScrollDown (y n : Int) (v : VTE) : view (trmScrollDown y n v) = view v := view_trmScroll _ v

@[simp] theorem view_trmInsertChars (x n : Int) (v : VTE) : view (trmInsertChars x n v) = view v := view_hidden _ v

@[simp] theorem view_trmDeleteChars (x n : Int) (v : VTE) : view (trmDeleteChars x n v) = view v := view_hidden _ v

@[simp] theorem view_trmClearRegion (x1 y1 x2 y2 : Int) (v : VTE) :
    view (trmClearRegion x1 y1 x2 y2 v) = view v := view_hidden _ v

@[simp] theorem view_nel (v : VTE) : view (nel v) = view v := by
  unfold nel
  dsimp only
  split_ifs <;> simp

@[simp] theorem view_ind (v : VTE) : view (ind v) = view v := by
  unfold ind
  split_ifs <;> simp

@[simp] theorem view_ri (v : VTE) : view (ri v) = view v := by
  unfold ri
  split_ifs <;> simp

@[simp] theorem view_setCharPre (charWidth : Int) (v : VTE) : view (setCharPre charWidth v) = view v := by
  have wrapped : view (wrapPending v) = view v := by
    unfold wrapPending
    dsimp only
    split_ifs <;> simp
  unfold setCharPre
  dsimp only
  split_ifs <;> simp [wrapped]

@[simp] theorem view_setCharPost (charWidth : Int) (v : VTE) : view (setCharPost charWidth v) = view v := by
  unfold setCharPost
  split_ifs
  · rfl
  · simp

@[simp] theorem view_writeChar (c : UInt32) (charWidth : Int) (v : VTE) :
    view (writeChar c charWidth v) = view v := by
  simp [writeChar, setChar]

@[simp] theorem view_writeMark (v : VTE) : view (writeMark v) = view v := by
  simp [writeMark]

@[simp] theorem view_selectCharset (n : Nat) (v : VTE) : view (selectCharset n v) = view v := rfl

@[simp] theorem view_announceCharsets (v : VTE) : view (announceCharsets v) = view v := rfl

@[simp] theorem view_decaln (v : VTE) : view (decaln v) = view v := by
  simp [decaln]

@[simp] theorem view_setAttributes (v : VTE) : view (setAttributes v) = view v := rfl

@[simp] theorem view_eraseDisplay (v : VTE) : view (eraseDisplay v) = view v := by
  unfold eraseDisplay
  split
  · dsimp only
    split_ifs <;> simp
  · dsimp only
    split_ifs <;> simp
  · simp
  · rfl

@[simp] theorem view_eraseLine (v : VTE) : view (eraseLine v) = view v := by
  unfold eraseLine
  split <;> simp

@[simp] theorem view_setMargins (v : VTE) : view (setMargins v) = view v := by
  unfold setMargins
  split_ifs
  · rfl
  · rw [view_moveCursorAbsolute]
    rfl
  · rfl

theorem view_setFlag (flag : TerminalFlag) (state : Bool) (v : VTE) (other : flag ≠ .UTF8) :
    view (setFlag flag state v) = view v := by
  have kept : Function.update v.flags flag state .UTF8 = v.flags .UTF8 := Function.update_of_ne other.symm _ _
  calc view (setFlag flag state v)
      = { view v with utf8 := Function.update v.flags flag state .UTF8 } := rfl
    _ = view v := by rw [kept]; rfl

theorem view_keypad (state : Bool) (v : VTE) : view (notifyKPAM (setFlag .DECKPAM state v)) = view v :=
  view_setFlag .DECKPAM state v (by decide)

/-! ## Operations that change the buffers -/

theorem view_decsc (v : VTE) : view (decsc v) = { view v with savedCharsets := charsetsOf v.cursor } := rfl

theorem view_decrc (v : VTE) : view (decrc v) = { view v with charsets := charsetsOf v.savedCursor } := by
  have hidden := view_hc v
  unfold decrc
  dsimp only
  rw [view_sc, view_announceCharsets]
  calc view { hc v with cursor := _ }
      = { view (hc v) with charsets := (view (hc v)).savedCharsets } := rfl
    _ = { view v with charsets := (view v).savedCharsets } := by rw [hidden]

theorem view_ris (v : VTE) : view (ris v) = view (risState v) := by
  unfold ris
  dsimp only
  rw [view_sc, view_emit, view_announceCharsets, view_emitAll]
  rfl

theorem view_parseString (v : VTE) : view (parseString v) = { view v with strData := {} } := by
  unfold parseString
  dsimp only
  repeat' split
  all_goals rfl

/-- The charsets of a cursor that was reset. -/
def View.clearCharsets (shown : View) : View := { shown with charsets := List.replicate 4 .us }

variable (frontend : Frontend)

theorem view_notifyDECCOLM (v : VTE) : view (notifyDECCOLM frontend v) = (view v).clearCharsets := by
  have hid := view_hc v
  unfold notifyDECCOLM
  dsimp only
  rw [view_sc, view_emit]
  split_ifs
  all_goals
    calc view _ = (view (hc v)).clearCharsets := rfl
      _ = (view v).clearCharsets := by rw [hid]

theorem view_notify (flag : TerminalFlag) (v : VTE) (other : flag ≠ .DECCOLM) :
    view (notify frontend flag v) = view v := by
  cases flag with
  | DECCOLM => exact absurd rfl other
  | DECOM => exact view_moveCursorAbsolute 0 0 v
  | DECTCEM =>
    calc view (sc (emit (.flagCursorVisible ((hc v).flags .DECTCEM)) (hc v)))
        = view (hc v) := by rw [view_sc, view_emit]
      _ = view v := view_hc v
  | _ => rfl

theorem view_modifyMode (decMode state : Bool) (v : VTE) (value : Int) :
    view (modifyMode frontend decMode state v value) =
      if decMode ∧ 3 = value then (view v).clearCharsets else view v := by
  have columns : ∀ entry ∈ modeTable, entry.2.2 = .DECCOLM → entry.1 = 3 ∧ entry.2.1 = true := by decide
  have plain : ∀ entry ∈ modeTable, entry.2.2 ≠ .UTF8 := by decide
  unfold modifyMode
  split_ifs with switch
  · obtain ⟨rfl, rfl⟩ := switch
    exact (view_notifyDECCOLM frontend _).trans (by rw [view_setFlag .DECCOLM state v (by decide)])
  · split
    · next entry number dec flag found =>
      have member := List.mem_of_find?_eq_some found
      have matching := List.find?_some found
      simp only [Bool.and_eq_true, decide_eq_true_eq] at matching
      have other : flag ≠ .DECCOLM := by
        intro same
        obtain ⟨three, set⟩ := columns _ member same
        exact switch ⟨matching.2.symm.trans set, three.symm.trans matching.1⟩
      rw [view_notify frontend flag _ other, view_setFlag flag state v (plain _ member)]
    · rfl

theorem view_changeModes (decMode state : Bool) (args : List Int) (v : VTE) :
    view (args.foldl (modifyMode frontend decMode state) v) =
      if decMode ∧ 3 ∈ args then (view v).clearCharsets else view v := by
  induction args generalizing v with
  | nil => simp
  | cons value args ih =>
    rw [List.foldl_cons, ih, view_modifyMode]
    by_cases dec : decMode = true
    · by_cases here : 3 = value
      · simp [dec, here, View.clearCharsets]
      · simp [dec, here]
    · simp [dec]

/-! ## The invariant -/

structure Fits (b : Buffers) : Prop where
  csi : b.csiData.Fits
  str : b.strData.Fits
  charset : b.definingCharset ≤ 3
  next : b.nextUtf8 ≤ 7
  ground : 0 < b.nextUtf8 → b.mode = .ground ∧ b.utf8 = true

theorem Fits.withCharsets {b : Buffers} (fits : Fits b) (charsets saved : Vector Charset 4) :
    Fits { b with charsets := charsets, savedCharsets := saved } :=
  ⟨fits.csi, fits.str, fits.charset, fits.next, fits.ground⟩

/-- The arrays are in order, and they show what the lists show. -/
structure Tracks (b : Buffers) (v : VTE) : Prop where
  fits : Fits b
  same : shown b = view v

/-- The result is there, and it tracks the state. -/
def Yields (result : Option Buffers) (v : VTE) : Prop := ∃ b, result = some b ∧ Tracks b v

variable {b : Buffers} {v : VTE}

theorem Tracks.moved {w : VTE} (tracks : Tracks b v) (still : view w = view v) : Tracks b w :=
  ⟨tracks.fits, tracks.same.trans still.symm⟩

theorem Tracks.yields (tracks : Tracks b v) : Yields (some b) v := ⟨b, rfl, tracks⟩

theorem Tracks.mode (tracks : Tracks b v) : b.mode = v.mode := congrArg View.mode tracks.same

theorem Tracks.utf8 (tracks : Tracks b v) : b.utf8 = v.flags .UTF8 := congrArg View.utf8 tracks.same

theorem Tracks.finished (tracks : Tracks b v) : b.strData.finished = v.strData.finished :=
  congrArg (fun shown => shown.strData.finished) tracks.same

/-- Outside of the ground mode no character is unfinished. -/
theorem Fits.idle (fits : Fits b) (other : b.mode ≠ .ground) : b.nextUtf8 = 0 := by
  by_contra busy
  exact other (fits.ground (Nat.pos_of_ne_zero busy)).1

theorem Tracks.length (tracks : Tracks b v) : v.utf8Buffer.length = b.nextUtf8 := by
  have buffer : b.utf8Buffer.toList.take b.nextUtf8 = v.utf8Buffer := congrArg View.utf8Buffer tracks.same
  have next := tracks.fits.next
  rw [← buffer, List.length_take, Vector.length_toList]
  omega

/-! ## Resetting -/

theorem Tracks.resetEscape (tracks : Tracks b v) : Tracks b.resetEscape (Vte.resetEscape v) := by
  refine ⟨⟨ControlData.reset_fits _, tracks.fits.str, tracks.fits.charset, tracks.fits.next, ?_⟩, ?_⟩
  · intro busy
    exact ⟨rfl, (tracks.fits.ground busy).2⟩
  · calc shown b.resetEscape
        = { shown b with mode := .ground, csiData := b.csiData.reset.view } := rfl
      _ = { view v with mode := .ground, csiData := {} } := by rw [tracks.same, ControlData.reset_view]
      _ = view (Vte.resetEscape v) := rfl

theorem Tracks.resetUtf8Buffer (tracks : Tracks b v) : Tracks b.resetUtf8Buffer (Vte.resetUtf8Buffer v) := by
  refine ⟨⟨tracks.fits.csi, tracks.fits.str, tracks.fits.charset, Nat.zero_le 7, ?_⟩, ?_⟩
  · intro busy
    exact absurd busy (Nat.lt_irrefl 0)
  · calc shown b.resetUtf8Buffer
        = { shown b with utf8Buffer := [] } := rfl
      _ = { view v with utf8Buffer := [] } := by rw [tracks.same]
      _ = view (Vte.resetUtf8Buffer v) := rfl

theorem Tracks.string (tracks : Tracks b v) (data : Arrays.StringData) (fits : data.Fits) :
    Tracks { b with strData := data } { v with strData := data.view } := by
  refine ⟨⟨tracks.fits.csi, fits, tracks.fits.charset, tracks.fits.next, tracks.fits.ground⟩, ?_⟩
  calc shown { b with strData := data }
      = { shown b with strData := data.view } := rfl
    _ = { view v with strData := data.view } := by rw [tracks.same]

theorem Tracks.resetString (tracks : Tracks b v) (type : StringType) :
    Tracks (b.resetString type) { v with strData := { stringType := type } } := by
  rw [← StringData.reset_view b.strData type]
  exact tracks.string _ (StringData.reset_fits _ type)

theorem Tracks.enter (tracks : Tracks b v) (idle : b.nextUtf8 = 0) (mode : TerminalMode) :
    Tracks { b with mode := mode } { v with mode := mode } := by
  refine ⟨⟨tracks.fits.csi, tracks.fits.str, tracks.fits.charset, tracks.fits.next, ?_⟩, ?_⟩
  · intro busy
    exact absurd idle (Nat.ne_of_gt busy)
  · calc shown { b with mode := mode }
        = { shown b with mode := mode } := rfl
      _ = { view v with mode := mode } := by rw [tracks.same]

theorem Tracks.openString (tracks : Tracks b v) (idle : b.nextUtf8 = 0) (type : StringType) :
    Tracks (b.openString type) (Vte.openString type v) :=
  (tracks.resetEscape.resetString type).enter idle .string

theorem ris_yields (b : Buffers) (v : VTE) : Yields b.ris (ris v) := by
  let cleared : Buffers :=
    { mode := .ground, utf8 := true, definingCharset := 0, charsets := Vector.replicate 4 .us,
      savedCharsets := Vector.replicate 4 .us, csiData := b.csiData.reset, strData := b.strData.reset .none,
      utf8Buffer := Vector.replicate 8 0, nextUtf8 := 0 }
  have done : b.ris = some cleared := rfl
  refine ⟨cleared, done, ⟨ControlData.reset_fits _, StringData.reset_fits _ _, Nat.zero_le 3, Nat.zero_le 7, ?_⟩, ?_⟩
  · intro busy
    exact absurd busy (Nat.lt_irrefl 0)
  · rw [view_ris]
    calc shown cleared
        = { shown cleared with csiData := b.csiData.reset.view, strData := (b.strData.reset .none).view } := rfl
      _ = { shown cleared with csiData := {}, strData := {} } := by rw [ControlData.reset_view, StringData.reset_view]
      _ = view (risState v) := rfl

theorem decrc_yields (tracks : Tracks b v) : Yields b.decrc (decrc v) := by
  have done : b.decrc = some { b with charsets := b.savedCharsets } := rfl
  refine ⟨_, done, tracks.fits.withCharsets b.savedCharsets b.savedCharsets, ?_⟩
  rw [view_decrc]
  calc shown { b with charsets := b.savedCharsets }
      = { shown b with charsets := (shown b).savedCharsets } := rfl
    _ = { view v with charsets := (view v).savedCharsets } := by rw [tracks.same]

theorem decsc_tracks (tracks : Tracks b v) : Tracks b.decsc (decsc v) := by
  refine ⟨tracks.fits.withCharsets b.charsets b.charsets, ?_⟩
  rw [view_decsc]
  calc shown b.decsc
      = { shown b with savedCharsets := (shown b).charsets } := rfl
    _ = { view v with savedCharsets := (view v).charsets } := by rw [tracks.same]

theorem parseString_yields (tracks : Tracks b v) : Yields b.parseString (parseString v) := by
  obtain ⟨data, parsed⟩ := StringData.parsed_spec b.strData tracks.fits.str
  have done : b.parseString = some { b with strData := data.reset .none } := by
    rw [Buffers.parseString, parsed]
    rfl
  have reset := tracks.string (data.reset .none) (StringData.reset_fits data .none)
  refine ⟨_, done, reset.moved ?_⟩
  rw [view_parseString, StringData.reset_view]
  rfl

/-! ## Control characters and escape sequences -/

theorem Yields.resetEscape {result : Option Buffers} (yields : Yields result v) :
    Yields (result.map Buffers.resetEscape) (Vte.resetEscape v) := by
  obtain ⟨next, rfl, tracks⟩ := yields
  exact tracks.resetEscape.yields

theorem finish_yields (tracks : Tracks b v) (otherwise : VTE) (still : view otherwise = view v) :
    Yields (if b.strData.finished then b.parseString.map Buffers.resetEscape else some b.resetEscape)
      (Vte.resetEscape (if v.strData.finished then parseString v else otherwise)) := by
  rw [tracks.finished]
  split_ifs
  · exact (parseString_yields tracks).resetEscape
  · exact (tracks.moved still).resetEscape.yields

theorem control_yields (tracks : Tracks b v) (idle : b.nextUtf8 = 0) (c : Control) :
    Yields (b.control c) (control frontend c v) := by
  cases c with
  | BEL => exact finish_yields tracks (emit .bell v) rfl
  | BS => exact (tracks.moved (view_moveCursor _ _ v)).yields
  | HT => exact (tracks.moved (view_moveCursor _ _ v)).yields
  | LF => exact (tracks.moved (view_nel v)).yields
  | CR =>
    refine (tracks.moved ?_).yields
    unfold Vte.control
    dsimp only
    split_ifs
    · exact view_moveCursor _ _ v
    · rfl
  | SO => exact (tracks.moved (view_selectCharset 1 v)).yields
  | SI => exact (tracks.moved (view_selectCharset 0 v)).yields
  | SUB => exact ((tracks.moved (view_writeMark v)).resetEscape.resetString .none).yields
  | CAN => exact (tracks.resetEscape.resetString .none).yields
  | ESC => exact (tracks.enter idle .esc).yields
  | IND => exact (tracks.moved (view_ind v)).yields
  | NEL => exact (tracks.moved (view_nel v)).resetEscape.yields
  | HTS => exact (tracks.moved (view_emit _ v)).yields
  | RI => exact (tracks.moved (view_ri v)).yields
  | DCS => exact (tracks.openString idle .dcs).yields
  | DECID => exact (tracks.moved (view_emit _ v)).resetEscape.yields
  | CSI => exact (tracks.resetEscape.enter idle .csi).yields
  | OSC => exact (tracks.openString idle .osc).yields
  | PM => exact (tracks.openString idle .pm).yields
  | APC => exact (tracks.openString idle .apc).yields

theorem handleControl_yields (tracks : Tracks b v) (idle : b.nextUtf8 = 0) (c : uchar) :
    Yields (b.handleControl c) (handleControl frontend c v) := by
  unfold Buffers.handleControl handleControl
  cases controlTable.lookup c with
  | some found => exact control_yields frontend tracks idle found
  | none => exact tracks.yields

theorem Tracks.define (tracks : Tracks b v) (n : Nat) (small : n ≤ 3) :
    Tracks { b with definingCharset := n } { v with definingCharset := n } := by
  refine ⟨⟨tracks.fits.csi, tracks.fits.str, small, tracks.fits.next, tracks.fits.ground⟩, ?_⟩
  calc shown { b with definingCharset := n }
      = { shown b with definingCharset := n } := rfl
    _ = { view v with definingCharset := n } := by rw [tracks.same]

theorem escape_yields (tracks : Tracks b v) (idle : b.nextUtf8 = 0) (c : Escape)
    (small : ∀ n, c = .charset n → n ≤ 3) : Yields (b.escape c) (escape c v) := by
  cases c with
  | CSI => exact (tracks.resetEscape.enter idle .csi).yields
  | HASH => exact (tracks.resetEscape.enter idle .hash).yields
  | UTF8 => exact (tracks.resetEscape.enter idle .utf8).yields
  | DCS => exact (tracks.openString idle .dcs).yields
  | APC => exact (tracks.openString idle .apc).yields
  | PM => exact (tracks.openString idle .pm).yields
  | OSC => exact (tracks.openString idle .osc).yields
  | title => exact (tracks.openString idle .title).resetEscape.yields
  | LS2 => exact (tracks.moved (view_selectCharset 2 v)).resetEscape.yields
  | LS3 => exact (tracks.moved (view_selectCharset 3 v)).resetEscape.yields
  | IND => exact (tracks.moved (view_ind v)).resetEscape.yields
  | NEL => exact (tracks.moved (view_nel v)).resetEscape.yields
  | HTS => exact (tracks.moved (view_emit _ v)).resetEscape.yields
  | RI => exact (tracks.moved (view_ri v)).resetEscape.yields
  | DECID => exact (tracks.moved (view_emit _ v)).resetEscape.yields
  | RIS => exact (ris_yields b v).resetEscape
  | DECPAM => exact (tracks.moved (view_keypad true v)).resetEscape.yields
  | DECPNM => exact (tracks.moved (view_keypad false v)).resetEscape.yields
  | DECSC => exact (decsc_tracks tracks).resetEscape.yields
  | DECRC => exact (decrc_yields tracks).resetEscape
  | charset n => exact ((tracks.resetEscape.define n (small n rfl)).enter idle .charset).yields
  | ST => exact finish_yields tracks v rfl

theorem handleEsc_yields (tracks : Tracks b v) (idle : b.nextUtf8 = 0) (c : uchar) :
    Yields (b.handleEsc c) (handleEsc c v) := by
  have small : ∀ entry ∈ escapeTable, (match entry.2 with | .charset n => n | _ => 0) ≤ 3 := by decide
  unfold Buffers.handleEsc handleEsc
  cases known : escapeTable.lookup c with
  | some found =>
    refine escape_yields tracks idle found fun n charset => ?_
    subst charset
    exact small _ (lookup_mem c _ _ known)
  | none => exact tracks.resetEscape.yields

/-! ## Control sequences -/

theorem Tracks.arguments (tracks : Tracks b v) (data : Arrays.ControlData) (fits : data.Fits) :
    Tracks { b with csiData := data } { v with csiData := data.view } := by
  refine ⟨⟨fits, tracks.fits.str, tracks.fits.charset, tracks.fits.next, tracks.fits.ground⟩, ?_⟩
  calc shown { b with csiData := data }
      = { shown b with csiData := data.view } := rfl
    _ = { view v with csiData := data.view } := by rw [tracks.same]

theorem Tracks.csiData (tracks : Tracks b v) : b.csiData.view = v.csiData := congrArg View.csiData tracks.same

theorem changeModes_tracks (tracks : Tracks b v) (state : Bool) :
    Tracks (b.changeModes (Vte.arguments v.csiData)) (changeModes frontend state v) := by
  have dec : b.csiData.decMode = v.csiData.decMode := congrArg Data.ControlData.decMode tracks.csiData
  refine ⟨?_, ?_⟩
  · unfold Buffers.changeModes
    split_ifs
    · exact tracks.fits.withCharsets _ b.savedCharsets
    · exact tracks.fits
  · rw [changeModes, view_changeModes, ← tracks.same, ← dec, Buffers.changeModes]
    split_ifs
    · rfl
    · rfl

theorem final_yields (tracks : Tracks b v) (c : Final) :
    Yields (b.final c (Vte.arguments v.csiData)) (final frontend c v) := by
  have still (w : VTE) (same : view w = view v) : Yields (some b) w := (tracks.moved same).yields
  cases c with
  | SM => exact (changeModes_tracks frontend tracks true).yields
  | RM => exact (changeModes_tracks frontend tracks false).yields
  | DECSC => exact (decsc_tracks tracks).yields
  | DECRC => exact decrc_yields tracks
  | DA =>
    refine still _ ?_
    unfold Vte.final
    dsimp only
    split_ifs
    · rfl
    · rfl
  | TBC | DSR =>
    refine still _ ?_
    unfold Vte.final
    dsimp only
    split <;> rfl
  | ED => exact still _ (view_eraseDisplay v)
  | EL => exact still _ (view_eraseLine v)
  | SGR => exact still _ (view_setAttributes v)
  | DECSTBM => exact still _ (view_setMargins v)
  | ICH => exact still _ (view_trmInsertChars _ _ v)
  | DCH => exact still _ (view_trmDeleteChars _ _ v)
  | ECH => exact still _ (view_trmClearRegion _ _ _ _ v)
  | SU | DL => exact still _ (view_trmScrollUp _ _ v)
  | SD | IL => exact still _ (view_trmScrollDown _ _ v)
  | CUP | VPA => exact still _ (view_moveCursorAbsolute _ _ v)
  | CUU | CUD | CUF | CUB | CNL | CPL | CHA | CHT | CBT => exact still _ (view_moveCursor _ _ v)

theorem handleCsi_yields (tracks : Tracks b v) (c : uchar) : Yields (b.handleCsi c) (handleCsi frontend c v) := by
  have room : b.csiData.spaceLeft = v.csiData.spaceLeft :=
    congrArg Data.ControlData.spaceLeft tracks.csiData
  unfold Buffers.handleCsi handleCsi
  rw [← room]
  split_ifs with left
  · rcases ControlData.addArg_spec b.csiData tracks.fits.csi left c with ⟨data, added, fits, same⟩ | ⟨added, same⟩
    · rw [added, ← tracks.csiData, same]
      exact (tracks.arguments data fits).yields
    · -- the byte ends the sequence, whose arguments are read before they are reset
      rw [added, ← tracks.csiData, same]
      have read := ControlData.arguments_eq b.csiData tracks.fits.csi
      rw [tracks.csiData] at read
      cases finalTable.lookup c with
      | some found =>
        obtain ⟨next, done, kept⟩ := final_yields frontend tracks found
        refine ⟨next.resetEscape, ?_, kept.resetEscape⟩
        simp [read, done]
      | none => exact tracks.resetEscape.yields
  · exact tracks.resetEscape.yields

/-! ## The other modes -/

theorem handleHash_tracks (tracks : Tracks b v) (c : uchar) : Tracks b.resetEscape (handleHash c v) := by
  unfold handleHash
  split
  · exact (tracks.moved (view_emit _ v)).resetEscape
  · split_ifs
    · exact (tracks.moved (view_decaln v)).resetEscape
    · exact tracks.resetEscape

theorem charsetsOf_update (cursor : Cursor) (n : Nat) (cs : Charset) :
    charsetsOf { cursor with charsetTable := Function.update cursor.charsetTable n cs } =
      (charsetsOf cursor).set n cs := by
  unfold charsetsOf
  apply List.ext_getElem
  · simp
  · intro i _ _
    rw [List.getElem_set]
    simp [Function.update_apply, eq_comm]

theorem Tracks.setCharset (tracks : Tracks b v) (cs : Charset) (small : b.definingCharset < 4) :
    Tracks { b with charsets := b.charsets.set b.definingCharset cs small }
      { v with cursor := { v.cursor with
          charsetTable := Function.update v.cursor.charsetTable v.definingCharset cs } } := by
  have same : b.definingCharset = v.definingCharset := congrArg View.definingCharset tracks.same
  refine ⟨tracks.fits.withCharsets _ b.savedCharsets, ?_⟩
  calc shown { b with charsets := b.charsets.set b.definingCharset cs small }
      = { shown b with charsets := (shown b).charsets.set b.definingCharset cs } := by
        rw [shown, Vector.toList_set]; rfl
    _ = { view v with charsets := (charsetsOf v.cursor).set v.definingCharset cs } := by
        rw [tracks.same, same]; rfl
    _ = view _ := by rw [← charsetsOf_update]; rfl

theorem handleCharset_yields (tracks : Tracks b v) (c : uchar) : Yields (b.handleCharset c) (handleCharset c v) := by
  have small : b.definingCharset < 4 := Nat.lt_succ_of_le tracks.fits.charset
  unfold Buffers.handleCharset handleCharset
  cases charsetTable.lookup c with
  | some cs =>
    have defined := (tracks.setCharset cs small).moved (view_emit (.defineCharset v.definingCharset cs) _)
    refine ⟨_, ?_, defined.resetEscape⟩
    simp only [store_eq _ _ _ small, Option.bind_eq_bind, Option.bind_some, Vector.getElem?_set_self small]
    rfl
  | none => exact tracks.resetEscape.yields

theorem Tracks.switchUtf8 (tracks : Tracks b v) (state : Bool) :
    Tracks (Buffers.resetUtf8Buffer { b with utf8 := state }) (Vte.resetUtf8Buffer (setFlag .UTF8 state v)) := by
  refine ⟨⟨tracks.fits.csi, tracks.fits.str, tracks.fits.charset, Nat.zero_le 7, ?_⟩, ?_⟩
  · intro busy
    exact absurd busy (Nat.lt_irrefl 0)
  · have set : Function.update v.flags .UTF8 state .UTF8 = state := Function.update_self ..
    calc shown (Buffers.resetUtf8Buffer { b with utf8 := state })
        = { shown b with utf8 := state, utf8Buffer := [] } := rfl
      _ = { view v with utf8 := Function.update v.flags .UTF8 state .UTF8, utf8Buffer := [] } := by
          rw [tracks.same, set]

theorem handleUtf8_tracks (tracks : Tracks b v) (c : uchar) : Tracks (b.handleUtf8 c) (handleUtf8 c v) := by
  unfold Buffers.handleUtf8 handleUtf8
  split_ifs
  · exact (tracks.switchUtf8 false).resetEscape
  · exact (tracks.switchUtf8 true).resetEscape
  · exact tracks.resetEscape

theorem Tracks.push (tracks : Tracks b v) (c : uchar) (room : b.nextUtf8 < 7) (ground : b.mode = .ground)
    (utf8 : b.utf8 = true) :
    Tracks { b with utf8Buffer := b.utf8Buffer.set b.nextUtf8 c (by omega), nextUtf8 := b.nextUtf8 + 1 }
      { v with utf8Buffer := v.utf8Buffer ++ [c] } := by
  refine ⟨⟨tracks.fits.csi, tracks.fits.str, tracks.fits.charset, room, fun _ => ⟨ground, utf8⟩⟩, ?_⟩
  calc shown _
      = { shown b with utf8Buffer := (shown b).utf8Buffer ++ [c] } := by rw [shown, take_set]; rfl
    _ = { view v with utf8Buffer := (view v).utf8Buffer ++ [c] } := by rw [tracks.same]

theorem Tracks.scan (tracks : Tracks b v) :
    Arrays.utf8Scan b.utf8Buffer b.nextUtf8 0 0 0 = some (utf8Scan v.utf8Buffer 0 0) := by
  have buffer : b.utf8Buffer.toList.take b.nextUtf8 = v.utf8Buffer := congrArg View.utf8Buffer tracks.same
  have next := tracks.fits.next
  rw [utf8Scan_eq b.utf8Buffer b.nextUtf8 0 0 0 (by decide) (by omega), List.drop_zero, buffer]

theorem handleText_yields (tracks : Tracks b v) (ground : b.mode = .ground) (c : uchar) :
    Yields (b.handleText c) (handleText frontend c v) := by
  unfold Buffers.handleText handleText
  rw [← tracks.utf8, tracks.length]
  split_ifs with utf8 full visible
  · exact (tracks.moved (view_writeMark v)).resetUtf8Buffer.yields
  · have room : b.nextUtf8 < 7 := Nat.lt_of_le_of_ne tracks.fits.next full
    have pushed := tracks.push c room ground utf8
    have stored := store_eq b.utf8Buffer b.nextUtf8 c (by omega)
    have scanned := pushed.scan
    simp only [stored, scanned, Option.bind_eq_bind, Option.bind_some]
    cases utf8Scan (v.utf8Buffer ++ [c]) 0 0 with
    | some codepoint =>
      dsimp only
      split_ifs
      · exact (pushed.moved (view_writeChar _ _ _)).resetUtf8Buffer.yields
      · exact (pushed.moved (view_writeChar _ _ _)).resetUtf8Buffer.yields
    | none => exact pushed.yields
  · exact (tracks.moved (view_writeChar _ _ v)).yields
  · exact tracks.yields

/-! ## Every byte -/

/-- A string takes the byte, or it ends and leaves the byte to the ground mode. -/
theorem handleString_spec (tracks : Tracks b v) (c : uchar) :
    ∃ next, b.handleString c = some (next, (handleString c v).2) ∧ Tracks next (handleString c v).1 ∧
      ((handleString c v).2 = false → next.mode = .ground) := by
  have same : b.strData.view = v.strData := congrArg View.strData tracks.same
  unfold Buffers.handleString handleString
  split_ifs with ends
  · refine ⟨_, rfl, ?_, fun _ => rfl⟩
    have finished := tracks.resetEscape.string { b.strData with finished := true }
      ⟨tracks.fits.str.next, tracks.fits.str.nul, tracks.fits.str.count, tracks.fits.str.first⟩
    rw [← same]
    exact finished
  · obtain ⟨result, added, viewed, fits⟩ := StringData.addChar_spec b.strData tracks.fits.str c
    rw [same] at viewed
    rw [added, ← viewed]
    cases result with
    | some data =>
      refine ⟨_, rfl, tracks.string data (fits data rfl), ?_⟩
      intro unused
      exact Bool.noConfusion (unused : true = false)
    | none =>
      refine ⟨_, rfl, tracks.resetEscape.resetString .none, ?_⟩
      intro unused
      exact Bool.noConfusion (unused : true = false)

theorem dispatch_yields (tracks : Tracks b v) (outside : b.mode ≠ .string) (c : uchar) :
    Yields (b.dispatch c) (dispatch frontend c v) := by
  have quiet : (v.utf8Buffer.isEmpty && isControl c) = true ↔ b.nextUtf8 = 0 ∧ isControl c = true := by
    rw [Bool.and_eq_true, List.isEmpty_iff, ← List.length_eq_zero_iff, tracks.length]
  unfold Buffers.dispatch dispatch
  by_cases control : b.nextUtf8 = 0 ∧ isControl c = true
  · rw [if_pos control, if_pos (quiet.mpr control)]
    exact handleControl_yields frontend tracks control.1 c
  · rw [if_neg control, if_neg (mt quiet.mp control), ← tracks.mode]
    cases mode : b.mode with
    -- between the bytes of a character even a control character is text
    | ground => exact handleText_yields frontend tracks mode c
    | esc => exact handleEsc_yields tracks (tracks.fits.idle (by rw [mode]; decide)) c
    | csi => exact handleCsi_yields frontend tracks c
    | hash => exact (handleHash_tracks tracks c).yields
    | charset => exact handleCharset_yields tracks c
    | utf8 => exact (handleUtf8_tracks tracks c).yields
    | string => exact absurd mode outside

theorem process_yields (tracks : Tracks b v) (c : uchar) : Yields (b.process c) (process frontend v c) := by
  have quiet : Tracks b { v with events := [] } := tracks.moved rfl
  unfold Buffers.process process
  dsimp only
  rw [tracks.mode]
  split_ifs with string used
  · obtain ⟨next, taken, kept, _⟩ := handleString_spec quiet c
    rw [taken, used]
    exact kept.yields
  · obtain ⟨next, taken, kept, ground⟩ := handleString_spec quiet c
    have unused := Bool.eq_false_of_not_eq_true used
    have outside : next.mode ≠ .string := by
      rw [ground unused]
      decide
    rw [taken, unused]
    exact dispatch_yields frontend kept outside c
  · exact dispatch_yields frontend quiet (tracks.mode ▸ string) c

/-! ## Every run -/

theorem run_yields (tracks : Tracks b v) (bytes : List uchar) :
    Yields (after Buffers.process b bytes) (bytes.foldl (process frontend) v) := by
  induction bytes generalizing b v with
  | nil => exact tracks.yields
  | cons c bytes ih =>
    obtain ⟨next, taken, kept⟩ := process_yields frontend tracks c
    rw [after_cons, taken, Option.bind_some, List.foldl_cons]
    exact ih kept

/-- Some arrays track the state. -/
def Tracked (v : VTE) : Prop := ∃ b, Tracks b v

instance : Nonempty Buffers :=
  ⟨{ mode := .ground
     utf8 := true
     definingCharset := 0
     charsets := Vector.replicate 4 .us
     savedCharsets := Vector.replicate 4 .us
     csiData := ⟨Vector.replicate 32 0, 0, Vector.replicate 32 0, 1, false⟩
     strData := ⟨Vector.replicate 256 0, 0, .none, false, Vector.replicate 32 0, 1⟩
     utf8Buffer := Vector.replicate 8 0
     nextUtf8 := 0 }⟩

theorem tracked_reset (v : VTE) : Tracked (reset v) := by
  obtain ⟨b⟩ : Nonempty Buffers := inferInstance
  obtain ⟨start, _, tracks⟩ := ris_yields b { v with events := [] }
  exact ⟨start, tracks⟩

theorem Tracked.process (tracked : Tracked v) (c : uchar) : Tracked (process frontend v c) := by
  obtain ⟨b, tracks⟩ := tracked
  obtain ⟨next, _, kept⟩ := process_yields frontend tracks c
  exact ⟨next, kept⟩

theorem Tracked.run (tracked : Tracked v) (bytes : List uchar) : Tracked (bytes.foldl (Vte.process frontend) v) := by
  obtain ⟨b, tracks⟩ := tracked
  obtain ⟨final, _, kept⟩ := run_yields frontend tracks bytes
  exact ⟨final, kept⟩

theorem Tracked.ground (tracked : Tracked v) (busy : v.utf8Buffer ≠ []) : v.mode = .ground ∧ v.flags .UTF8 = true := by
  obtain ⟨b, tracks⟩ := tracked
  have some : 0 < b.nextUtf8 := by
    rw [← tracks.length]
    exact List.length_pos_of_ne_nil busy
  obtain ⟨mode, utf8⟩ := tracks.fits.ground some
  exact ⟨tracks.mode.symm.trans mode, tracks.utf8.symm.trans utf8⟩

/-- The bounds of counters, pointers and indices between two bytes. -/
structure InRange (b : Buffers) : Prop where
  nextUtf8 : b.nextUtf8 ≤ 7
  ctrlNextData : b.csiData.ctrlNextData ≤ 30
  ctrlArgs : b.csiData.nargs ≤ 31
  arguments : ∀ arg, (b.csiData.getArg arg).isSome
  nextStrData : b.strData.nextStrData ≤ 254
  strArgs : b.strData.nargs < 32
  definingCharset : b.definingCharset ≤ 3
  ground : 0 < b.nextUtf8 → b.mode = .ground ∧ b.utf8 = true

theorem Fits.inRange (fits : Fits b) : InRange b where
  nextUtf8 := fits.next
  ctrlNextData := fits.csi.next
  ctrlArgs := fits.csi.count.trans (Nat.succ_le_succ fits.csi.next)
  arguments := by
    intro arg
    rw [ControlData.getArg_eq b.csiData fits.csi arg]
    rfl
  nextStrData := fits.str.next
  strArgs := fits.str.count.trans_lt (by decide)
  definingCharset := fits.charset
  ground := fits.ground

/-- Whatever the arrays hold before it, after a reset every sequence of bytes is processed without
an access outside of an array, and the arrays hold what the lists of the parser do. -/
theorem arrays_in_range (frontend : Frontend) (v : VTE) (b : Buffers) (bytes : List uchar) :
    ∃ start final, b.reset = some start ∧ after Buffers.process start bytes = some final ∧ InRange final ∧
      shown final = view (bytes.foldl (process frontend) (reset v)) := by
  obtain ⟨start, cleared, initial⟩ := ris_yields b { v with events := [] }
  obtain ⟨final, done, tracks⟩ := run_yields frontend initial bytes
  exact ⟨start, final, cleared, done, tracks.fits.inRange, tracks.same⟩

end Woterm.Terminal.ArraySafety
