import Woterm.Terminal.Step

/-!
What the terminal behind the parser is told by one byte, as far as it is loud: rows that scroll
up, rectangles to clear, titles and the bell. Most operations are silent. A line feed or a wrap
scrolls at most one row, and a final byte may scroll more or clear something.
-/

namespace Woterm.Terminal.Log
open Woterm.Lib Woterm.Lib.Word32 Woterm.Terminal.Data Woterm.Terminal.Vte Woterm.Terminal.Geometry
open Woterm.Terminal.Step

def loud : Event → Bool
  | .clearRegion .. | .scrollUp .. | .setWindowTitle _ | .bell => true
  | _ => false

/-- The loud calls. -/
def log (v : VTE) : List Event := v.events.filter loud

theorem filterMap_log {α : Type} (f : Event → Option α) (v : VTE) (quiet : ∀ event, loud event = false → f event = none) :
    v.events.filterMap f = (log v).filterMap f := by
  rw [log, List.filterMap_filter]
  apply List.filterMap_congr
  intro event _
  cases heard : loud event with
  | true => rfl
  | false => exact quiet event heard

/-! ## Silent operations -/

theorem log_emit (event : Event) (v : VTE) (quiet : loud event = false) : log (emit event v) = log v := by
  simp [log, emit, quiet]

theorem log_emit_loud (event : Event) (v : VTE) (heard : loud event = true) : log (emit event v) = log v ++ [event] := by
  simp [log, emit, heard]

theorem log_emitAll (events : List Event) (v : VTE) (quiet : ∀ event ∈ events, loud event = false) :
    log (emitAll events v) = log v := by
  have none : events.filter loud = [] := List.filter_eq_nil_iff.mpr fun event member => by simp [quiet event member]
  simp [log, emitAll, none]

@[simp] theorem log_hc (v : VTE) : log (hc v) = log v := by
  unfold hc
  split_ifs
  · exact log_emit (.hideCursor v.cursor) v rfl
  · rfl

@[simp] theorem log_sc (v : VTE) : log (sc v) = log v := by
  unfold sc
  split_ifs
  · exact log_emit (.showCursor v.cursor) v rfl
  · rfl

@[simp] theorem cursor_hc (v : VTE) : (hc v).cursor = v.cursor := by
  unfold hc
  split_ifs <;> rfl

@[simp] theorem log_resetEscape (v : VTE) : log (resetEscape v) = log v := rfl

@[simp] theorem log_setFlag (flag : TerminalFlag) (state : Bool) (v : VTE) : log (setFlag flag state v) = log v := rfl

theorem log_hidden (event : Cursor → Event) (v : VTE) (quiet : ∀ cursor, loud (event cursor) = false) :
    log (hidden event v) = log v := by
  rw [Vte.hidden, log_sc, log_emit _ _ (quiet _), log_hc]

theorem log_hidden_loud (event : Cursor → Event) (v : VTE) (heard : ∀ cursor, loud (event cursor) = true) :
    log (hidden event v) = log v ++ [event v.cursor] := by
  rw [Vte.hidden, log_sc, log_emit_loud _ _ (heard _), log_hc, cursor_hc]

@[simp] theorem log_moveCursor (x y : Int) (v : VTE) : log (moveCursor x y v) = log v := by
  rw [moveCursor, log_sc]
  exact log_hc v

@[simp] theorem log_moveCursorAbsolute (x y : Int) (v : VTE) : log (moveCursorAbsolute x y v) = log v :=
  log_moveCursor _ _ v

theorem log_trmScroll (event : Cursor → Event) (v : VTE) : log (trmScroll event v) = log (emit (event v.cursor) v) := by
  have called : log (emit (event (hc v).cursor) (hc v)) = log (emit (event v.cursor) v) := by
    rw [cursor_hc]
    cases heard : loud (event v.cursor) with
    | true => rw [log_emit_loud _ _ heard, log_emit_loud _ _ heard, log_hc]
    | false => rw [log_emit _ _ heard, log_emit _ _ heard, log_hc]
  rw [trmScroll, log_sc]
  exact called

@[simp] theorem log_trmScrollUp (y n : Int) (v : VTE) :
    log (trmScrollUp y n v) = log v ++ [.scrollUp y v.bottom n v.cursor] := by
  rw [trmScrollUp, log_trmScroll, log_emit_loud _ _ rfl]

@[simp] theorem log_trmScrollDown (y n : Int) (v : VTE) : log (trmScrollDown y n v) = log v := by
  rw [trmScrollDown, log_trmScroll, log_emit _ _ rfl]

@[simp] theorem log_trmInsertChars (x n : Int) (v : VTE) : log (trmInsertChars x n v) = log v :=
  log_hidden _ v fun _ => rfl

@[simp] theorem log_trmDeleteChars (x n : Int) (v : VTE) : log (trmDeleteChars x n v) = log v :=
  log_hidden _ v fun _ => rfl

@[simp] theorem log_selectCharset (n : Nat) (v : VTE) : log (selectCharset n v) = log v :=
  log_emit (.selectCharset n) _ rfl

@[simp] theorem log_announceCharsets (v : VTE) : log (announceCharsets v) = log v := by
  rw [announceCharsets, log_emit _ _ rfl, log_emitAll]
  intro event member
  obtain ⟨i, -, rfl⟩ := List.mem_map.mp member
  rfl

@[simp] theorem log_notifyKPAM (v : VTE) : log (notifyKPAM v) = log v := log_emit _ v rfl

@[simp] theorem log_notifyTCEM (v : VTE) : log (notifyTCEM v) = log v := by
  rw [notifyTCEM, log_sc, log_emit _ _ rfl, log_hc]

@[simp] theorem log_decid (v : VTE) : log (decid v) = log v := log_emit _ v rfl

@[simp] theorem log_cpr (v : VTE) : log (cpr v) = log v := log_emit _ v rfl

@[simp] theorem log_decrc (v : VTE) : log (decrc v) = log v := by
  rw [decrc, log_sc, log_announceCharsets]
  exact log_hc v

@[simp] theorem log_decaln (v : VTE) : log (decaln v) = log v := by
  rw [decaln, log_sc, log_emitAll, log_hc]
  intro event member
  obtain ⟨x, -, member⟩ := List.mem_flatMap.mp member
  obtain ⟨y, -, rfl⟩ := List.mem_map.mp member
  rfl

@[simp] theorem log_setChar (c : UInt32) (charWidth : Int) (v : VTE) : log (setChar c charWidth v) = log v :=
  log_hidden _ v fun _ => rfl

@[simp] theorem log_setCharPost (charWidth : Int) (v : VTE) : log (setCharPost charWidth v) = log v := by
  unfold setCharPost
  split_ifs
  · rfl
  · exact log_moveCursor _ _ v

theorem log_handleHash (c : uchar) (v : VTE) : log (handleHash c v) = log v := by
  unfold handleHash
  split
  · exact log_emit _ v rfl
  · split_ifs
    · exact log_decaln v
    · rfl

theorem log_handleCharset (c : uchar) (v : VTE) : log (handleCharset c v) = log v := by
  unfold handleCharset
  split
  · exact log_emit _ _ rfl
  · rfl

theorem log_handleUtf8 (c : uchar) (v : VTE) : log (handleUtf8 c v) = log v := by
  unfold handleUtf8
  split_ifs <;> rfl

theorem log_keep (c : uchar) (v : VTE) : log (keep c v) = [] := by
  unfold keep handleString
  split_ifs
  · rfl
  · split <;> rfl

theorem log_arrival (v : VTE) : log (arrival v) = [] := by
  rw [log, arrival_log]
  rfl

/-! ## One row at most -/

/-- At most one row scrolls up. -/
def Lined (v w : VTE) : Prop := log w = log v ∨ ∃ cursor, log w = log v ++ [.scrollUp v.top v.bottom 1 cursor]

theorem Lined.silent {v w u : VTE} (lined : Lined v w) (same : log u = log w) : Lined v u := by
  unfold Lined
  rwa [same]

theorem nel_lined (v : VTE) : Lined v (nel v) := by
  by_cases last : v.cursor.y = v.bottom
  · simp only [nel, if_pos last]
    exact .inr ⟨v.cursor, by rw [log_moveCursor, log_trmScrollUp]⟩
  · simp only [nel, if_neg last]
    exact .inl (log_moveCursor _ _ v)

theorem ind_lined (v : VTE) : Lined v (ind v) := by
  unfold ind
  split_ifs
  · exact .inr ⟨v.cursor, log_trmScrollUp _ _ v⟩
  · exact .inl (log_moveCursor _ _ v)

theorem log_ri (v : VTE) : log (ri v) = log v := by
  unfold ri
  split_ifs
  · exact log_trmScrollDown _ _ v
  · exact log_moveCursor _ _ v

theorem setCharPre_lined (charWidth : Int) (v : VTE) : Lined v (setCharPre charWidth v) := by
  have wrapped : Lined v (wrapPending v) := by
    unfold wrapPending
    dsimp only
    split_ifs
    · exact (nel_lined v).silent (log_moveCursor _ _ _)
    · exact nel_lined v
    · exact .inl rfl
  unfold setCharPre
  dsimp only
  split_ifs
  · exact wrapped.silent (log_trmInsertChars _ _ _)
  · exact wrapped

theorem writeChar_lined (c : UInt32) (charWidth : Int) (v : VTE) : Lined v (writeChar c charWidth v) := by
  apply (setCharPre_lined charWidth v).silent
  rw [writeChar, log_setCharPost, log_setChar]

theorem writeMark_lined (v : VTE) : Lined v (writeMark v) := by
  apply (setCharPre_lined 1 v).silent
  rw [writeMark, log_setCharPost, log_hidden _ _ fun _ => rfl]

variable (frontend : Frontend)

theorem handleText_lined (c : uchar) (v : VTE) : Lined v (handleText frontend c v) := by
  unfold handleText
  dsimp only
  split_ifs
  · exact (writeMark_lined v).silent rfl
  · split
    · split_ifs
      · exact (writeChar_lined _ _ { v with utf8Buffer := v.utf8Buffer ++ [c] }).silent rfl
      · exact (writeChar_lined _ _ { v with utf8Buffer := v.utf8Buffer ++ [c] }).silent rfl
    · exact .inl rfl
  · exact writeChar_lined _ _ v
  · exact .inl rfl

/-! ## Clearing -/

/-- A rectangle inside the screen. -/
def Framed (v : VTE) (x1 y1 x2 y2 : Int) : Prop :=
  (0 ≤ x1 ∧ x1 ≤ x2 ∧ x2 ≤ v.width - 1) ∧ 0 ≤ y1 ∧ y1 ≤ y2 ∧ y2 ≤ v.height - 1

/-- The cursor is on a screen that is not empty. -/
structure OnScreen (v : VTE) : Prop where
  width : 0 < v.width
  height : 0 < v.height
  cursor : OnGrid v v.cursor

/-- From `v` on only rectangles are cleared, and these are inside the screen of `w` if the cursor was
on the screen. -/
def Cleared (v w : VTE) (event : Event) : Prop :=
  ∃ x1 y1 x2 y2 cursor, event = .clearRegion x1 y1 x2 y2 cursor ∧ (OnScreen v → Framed w x1 y1 x2 y2)

def Clears (v w : VTE) : Prop := ∃ events, log w = log v ++ events ∧ ∀ event ∈ events, Cleared v w event

theorem clears_silent {v w : VTE} (same : log w = log v) : Clears v w :=
  ⟨[], by rw [same, List.append_nil], by simp⟩

theorem framed_congr {v w : VTE} (same : frame w = frame v) (x1 y1 x2 y2 : Int) :
    Framed w x1 y1 x2 y2 ↔ Framed v x1 y1 x2 y2 := by
  have width : w.width = v.width := congrArg Frame.width same
  have height : w.height = v.height := congrArg Frame.height same
  unfold Framed
  rw [width, height]

theorem log_trmClearRegion (x1 y1 x2 y2 : Int) (v : VTE) : log (trmClearRegion x1 y1 x2 y2 v) =
    log v ++ [.clearRegion x1 y1 x2 (setRange (setRange y2 0 (v.height - 1)) 0 (v.height - 1)) v.cursor] :=
  log_hidden_loud _ v fun _ => rfl

theorem Clears.region {u v : VTE} (before : Clears u v) (still : Still u v) (x1 y1 x2 y2 : Int)
    (inside : 0 < u.width ∧ 0 < u.height ∧ (0 ≤ u.cursor.x ∧ u.cursor.x < u.width) ∧
      0 ≤ u.cursor.y ∧ u.cursor.y < u.height →
      (0 ≤ x1 ∧ x1 ≤ x2 ∧ x2 ≤ u.width - 1) ∧ 0 ≤ y1 ∧ y1 ≤ y2 ∧ y2 ≤ u.height - 1) :
    Clears u (trmClearRegion x1 y1 x2 y2 v) := by
  obtain ⟨events, logged, clear⟩ := before
  have screen : frame (trmClearRegion x1 y1 x2 y2 v) = frame u :=
    (trmClearRegion_still x1 y1 x2 y2 v).frame.trans still.frame
  refine ⟨events ++ [.clearRegion x1 y1 x2 (setRange (setRange y2 0 (v.height - 1)) 0 (v.height - 1)) v.cursor], ?_, ?_⟩
  · rw [log_trmClearRegion, logged, List.append_assoc]
  · rw [List.forall_mem_append, List.forall_mem_singleton]
    refine ⟨?_, _, _, _, _, _, rfl, ?_⟩
    · intro event member
      obtain ⟨a1, b1, a2, b2, cursor, rfl, framed⟩ := clear event member
      refine ⟨a1, b1, a2, b2, cursor, rfl, fun given => ?_⟩
      rw [framed_congr screen, ← framed_congr still.frame]
      exact framed given
    · intro given
      obtain ⟨columns, lower, order, upper⟩ := inside ⟨given.width, given.height, given.cursor⟩
      have height : v.height = u.height := congrArg Frame.height still.frame
      have kept : setRange y2 0 (v.height - 1) = y2 := setRange_self _ _ _ (by omega) (by omega)
      rw [framed_congr screen, kept, kept]
      exact ⟨columns, lower, order, upper⟩

theorem eraseDisplay_clears (v : VTE) : Clears v (eraseDisplay v) := by
  have start : Clears v v := clears_silent rfl
  unfold eraseDisplay
  split
  · have row := start.region (Still.refl v) v.cursor.x v.cursor.y (v.width - 1) v.cursor.y (by omega)
    dsimp only
    split_ifs with more
    · exact row.region (trmClearRegion_still _ _ _ _ v) _ _ _ _ (by omega)
    · exact row
  · have above : Clears v (if v.cursor.y > 0 then trmClearRegion 0 0 (v.width - 1) (v.cursor.y - 1) v else v) ∧
        Still v (if v.cursor.y > 0 then trmClearRegion 0 0 (v.width - 1) (v.cursor.y - 1) v else v) := by
      split_ifs with more
      · exact ⟨start.region (Still.refl v) _ _ _ _ (by omega), trmClearRegion_still _ _ _ _ v⟩
      · exact ⟨start, Still.refl v⟩
    exact above.1.region above.2 _ _ _ _ (by omega)
  · exact start.region (Still.refl v) _ _ _ _ (by omega)
  · exact start

theorem eraseLine_clears (v : VTE) : Clears v (eraseLine v) := by
  have start : Clears v v := clears_silent rfl
  unfold eraseLine
  split
  · exact start.region (Still.refl v) _ _ _ _ (by omega)
  · exact start.region (Still.refl v) _ _ _ _ (by omega)
  · exact start.region (Still.refl v) _ _ _ _ (by omega)
  · exact start

theorem log_ris (v : VTE) :
    log (ris v) = log v ++ [.clearRegion 0 0 (v.width - 1) (v.height - 1) {}] := by
  have tabs : ∀ event ∈ Event.clearTabs :: tabStops (risState v).width, loud event = false := by
    intro event member
    rcases List.mem_cons.mp member with rfl | member
    · rfl
    · obtain ⟨x, -, rfl⟩ := List.mem_map.mp member
      rfl
  have colors : ∀ event ∈ (List.range 256).map fun i : Nat => Event.resetColor i, loud event = false := by
    intro event member
    obtain ⟨i, -, rfl⟩ := List.mem_map.mp member
    rfl
  have cleared := log_emitAll _ (risState v) tabs
  unfold ris
  dsimp only
  rw [log_sc, log_emit _ _ rfl, log_announceCharsets, log_emitAll _ _ colors, notifyDECSCLM, log_emit _ _ rfl,
    notifyDECSCNM, log_emit _ _ rfl, notifyKPAM, log_emit _ _ rfl, notifyKAM, log_emit _ _ rfl,
    log_emit_loud _ _ rfl, cleared]
  rfl

theorem ris_clears (v : VTE) : Clears v (ris v) := by
  refine ⟨_, log_ris v, ?_⟩
  rw [List.forall_mem_singleton]
  refine ⟨_, _, _, _, _, rfl, fun given => ?_⟩
  have width : (ris v).width = v.width := congrArg Frame.width (ris_still v).frame
  have height : (ris v).height = v.height := congrArg Frame.height (ris_still v).frame
  have := given.width
  have := given.height
  unfold Framed
  omega

/-! ## The switch of columns -/

/-- The columns that the switch asks for. -/
def columns (state : Bool) : Int := if state then 132 else 80

/-- While modes are changed, the whole screen is cleared, if anything, and its width is settled then. -/
structure Switches (state : Bool) (v w : VTE) : Prop where
  height : w.height = v.height
  width : w.width = v.width ∨ w.width = columns state
  logged : ∃ events, log w = log v ++ events ∧
    (∀ event ∈ events, ∃ cursor, event = .clearRegion 0 0 (w.width - 1) (w.height - 1) cursor) ∧
    (events ≠ [] → frontend.requestWidth (columns state) = true → w.width = columns state)

theorem Switches.silent {state : Bool} {v w u : VTE} (before : Switches frontend state v w) (same : log u = log w)
    (width : u.width = w.width) (height : u.height = w.height) : Switches frontend state v u := by
  refine ⟨?_, ?_, ?_⟩
  · rw [height, before.height]
  · rw [width]
    exact before.width
  · rw [same, width, height]
    exact before.logged

theorem log_notifyDECCOLM (v : VTE) (state : Bool) (flag : v.flags .DECCOLM = state) :
    ∃ width, (width = if frontend.requestWidth (columns state) then columns state else v.width) ∧
      (notifyDECCOLM frontend v).width = width ∧ (notifyDECCOLM frontend v).height = v.height ∧
      log (notifyDECCOLM frontend v) = log v ++ [.clearRegion 0 0 (width - 1) (v.height - 1) {}] := by
  have requested : (if (hc v).flags .DECCOLM = true then (132 : Int) else 80) = columns state := by
    rw [hc_flags, flag]
    rfl
  have width : (hc v).width = v.width := congrArg Frame.width (hc_still v).frame
  have height : (hc v).height = v.height := congrArg Frame.height (hc_still v).frame
  have shown (w : VTE) : (sc w).width = w.width ∧ (sc w).height = w.height :=
    ⟨congrArg Frame.width (sc_still w).frame, congrArg Frame.height (sc_still w).frame⟩
  refine ⟨_, rfl, ?_⟩
  unfold notifyDECCOLM
  dsimp only
  rw [requested]
  split_ifs
  · refine ⟨(shown _).1, (shown _).2.trans height, ?_⟩
    rw [log_sc, log_emit_loud _ _ rfl]
    simp only [height]
    exact congrArg (· ++ _) (log_hc v)
  · refine ⟨(shown _).1.trans width, (shown _).2.trans height, ?_⟩
    rw [log_sc, log_emit_loud _ _ rfl]
    simp only [height, width]
    exact congrArg (· ++ _) (log_hc v)

theorem notify_switches (flag : TerminalFlag) (state : Bool) (v w : VTE) (before : Switches frontend state v w) :
    Switches frontend state v (notify frontend flag (setFlag flag state w)) := by
  have same : Switches frontend state v (setFlag flag state w) := before.silent frontend rfl rfl rfl
  unfold notify
  split
  · exact same.silent frontend (log_emit _ _ rfl) rfl rfl
  · obtain ⟨width, known, columns, height, logged⟩ :=
      log_notifyDECCOLM frontend (setFlag .DECCOLM state w) state (by simp [setFlag])
    obtain ⟨events, earlier, whole, settled⟩ := same.logged
    have stays : events ≠ [] → width = (setFlag .DECCOLM state w).width := by
      intro some
      rw [known]
      split_ifs with granted
      · exact (settled some granted).symm
      · rfl
    refine ⟨height.trans same.height, ?_, events ++ [.clearRegion 0 0 (width - 1) ((setFlag .DECCOLM state w).height - 1) {}],
      ?_, ?_, ?_⟩
    · rw [columns, known]
      split_ifs
      · exact .inr rfl
      · exact same.width
    · rw [logged, earlier, List.append_assoc]
    · rw [List.forall_mem_append, List.forall_mem_singleton, columns, height]
      refine ⟨fun event member => ?_, _, rfl⟩
      rw [stays (List.ne_nil_of_mem member)]
      exact whole event member
    · intro _ granted
      rw [columns, known, if_pos granted]
  · exact same.silent frontend (log_emit _ _ rfl) rfl rfl
  · exact same.silent frontend (log_emit _ _ rfl) rfl rfl
  · exact same.silent frontend (log_moveCursorAbsolute _ _ _) (moveCursor_size _ _ _).1 (moveCursor_size _ _ _).2
  · exact same.silent frontend (log_notifyTCEM _) (congrArg Frame.width (notifyTCEM_still _).frame)
      (congrArg Frame.height (notifyTCEM_still _).frame)
  · exact same

theorem changeModes_clears (state : Bool) (v : VTE) : Clears v (changeModes frontend state v) := by
  have run (values : List Int) (w : VTE) (before : Switches frontend state v w) :
      Switches frontend state v (values.foldl (modifyMode frontend v.csiData.decMode state) w) := by
    induction values generalizing w with
    | nil => exact before
    | cons value values ih =>
      apply ih
      unfold modifyMode
      split
      · exact notify_switches frontend _ state v w before
      · exact before
  have switches := run (arguments v.csiData) v ⟨rfl, .inl rfl, [], (List.append_nil _).symm, by simp, by simp⟩
  obtain ⟨events, logged, whole, -⟩ := switches.logged
  refine ⟨events, logged, fun event member => ?_⟩
  obtain ⟨cursor, rfl⟩ := whole event member
  refine ⟨_, _, _, _, _, rfl, fun given => ?_⟩
  have positive : 0 < columns state := by cases state <;> decide
  have := given.width
  have := given.height
  have height := switches.height
  unfold Framed
  rcases switches.width with width | width
  · unfold changeModes
    omega
  · unfold changeModes
    omega

/-! ## Strings -/

/-- The title that `parse_string` passes on. -/
def titleOf (data : StringData) : Option (List uchar) :=
  match data.stringType with
  | .osc =>
    let (found, data) := data.parse 0 1
    if found = 1 ∧ (atoi (data.getArg 0) = 0 ∨ atoi (data.getArg 0) = 1 ∨ atoi (data.getArg 0) = 2) then
      some (data.getArg 1)
    else none
  | .title =>
    let (found, data) := data.parse 0 1
    if found = 1 then some (data.getArg 0) else none
  | _ => none

theorem log_parseString (v : VTE) :
    log (parseString v) = log v ++ ((titleOf v.strData).map Event.setWindowTitle).toList := by
  unfold parseString titleOf
  cases v.strData.stringType with
  | osc =>
    dsimp only
    by_cases found : (v.strData.parse 0 1).1 = 1
    · rw [if_pos found]
      split
      all_goals simp_all [log, emit, loud]
      split_ifs <;> simp [loud]
    · simp [found, log]
  | title =>
    dsimp only
    split_ifs <;> simp [log, emit, loud]
  | none => simp [log]
  | pm => simp [log]
  | dcs => simp [log]
  | apc => simp [log]

/-! ## What a byte tells -/

/-- The byte is a final byte that scrolls by its parameter. -/
def ScrollsUp (v : VTE) (c : uchar) : Prop :=
  v.mode = .csi ∧ v.csiData.spaceLeft = true ∧ (c = byte 'S' ∨ c = byte 'M')

/-- The byte is the final byte that erases characters. -/
def ErasesCharacters (v : VTE) (c : uchar) : Prop :=
  v.mode = .csi ∧ v.csiData.spaceLeft = true ∧ c = byte 'X'

/-- The byte makes the parser look at the string that it has. -/
def LooksAtString (v : VTE) (c : uchar) : Prop :=
  c = 0x07 ∧ v.utf8Buffer = [] ∨ v.mode = .esc ∧ c = byte '\\'

/-- The loud calls that are made for a byte, with the conditions under which they are. -/
inductive Told (v : VTE) (c : uchar) (w : VTE) : List Event → Prop where
  | silent : Told v c w []
  | line (cursor : Cursor) : Told v c w [.scrollUp v.top v.bottom 1 cursor]
  | scroll (y : Int) (cursor : Cursor) (scrolls : ScrollsUp v c) :
    Told v c w [.scrollUp y v.bottom (count v 0) cursor]
  | clear (events : List Event) (cleared : ∀ event ∈ events, Cleared v w event) : Told v c w events
  | erase (y : Int) (erases : ErasesCharacters v c) :
    Told v c w [.clearRegion v.cursor.x v.cursor.y (wrap (v.cursor.x + count v 0)) y v.cursor]
  | title (title : List uchar) (looks : LooksAtString v c) (finished : (arrival v).strData.finished = true)
    (known : titleOf (arrival v).strData = some title) : Told v c w [.setWindowTitle title]
  | bell (rings : c = 0x07) (between : v.utf8Buffer = []) (unfinished : (arrival v).strData.finished = false) :
    Told v c w [.bell]

variable {v w : VTE} {c : uchar}

theorem told_silent (same : log w = []) : Told v c w (log w) := by
  rw [same]
  exact .silent

theorem told_lined (lined : Lined (arrival v) w) : Told v c w (log w) := by
  have top : (arrival v).top = v.top := congrArg Frame.top (arrival_still v).frame
  have bottom : (arrival v).bottom = v.bottom := congrArg Frame.bottom (arrival_still v).frame
  rcases lined with same | ⟨cursor, logged⟩
  · exact told_silent (same.trans (log_arrival v))
  · rw [logged, log_arrival, top, bottom]
    exact .line cursor

theorem told_clears (outside : v.mode ≠ .string) (clears : Clears (arrival v) w) : Told v c w (log w) := by
  obtain ⟨events, logged, cleared⟩ := clears
  rw [log_arrival, List.nil_append] at logged
  rw [logged]
  refine .clear events fun event member => ?_
  obtain ⟨x1, y1, x2, y2, cursor, rfl, framed⟩ := cleared event member
  refine ⟨x1, y1, x2, y2, cursor, rfl, fun given => framed ?_⟩
  rw [arrival_of_ne outside]
  exact ⟨given.width, given.height, given.cursor⟩

theorem told_string (looks : LooksAtString v c) (finished : (arrival v).strData.finished = true)
    (same : log w = log (parseString (arrival v))) : Told v c w (log w) := by
  rw [same, log_parseString, log_arrival, List.nil_append]
  cases known : titleOf (arrival v).strData with
  | none => exact .silent
  | some title => exact .title title looks finished known

theorem control_told (found : Control) (between : v.utf8Buffer = []) (known : controlTable.lookup c = some found) :
    Told v c (Vte.control frontend found (arrival v)) (log (Vte.control frontend found (arrival v))) := by
  have bell : ∀ entry ∈ controlTable, entry.2 = .BEL → entry.1 = 0x07 := by decide
  have entry := lookup_mem c found _ known
  have silent {w : VTE} (same : log w = log (arrival v)) : Told v c w (log w) := told_silent (same.trans (log_arrival v))
  cases found <;> simp only [Vte.control]
  case BEL =>
    have rings : c = 0x07 := bell _ entry rfl
    split_ifs with finished
    · exact told_string (.inl ⟨rings, between⟩) finished rfl
    · rw [log_resetEscape, log_emit_loud _ _ rfl, log_arrival]
      exact .bell rings between (by simpa using finished)
  case LF => exact told_lined (nel_lined _)
  case CR =>
    split_ifs
    · exact silent (log_moveCursor _ _ _)
    · exact silent rfl
  case SUB => exact told_lined ((writeMark_lined _).silent rfl)
  case IND => exact told_lined (ind_lined _)
  case NEL => exact told_lined ((nel_lined _).silent rfl)
  case HTS => exact silent (log_emit _ _ rfl)
  case RI => exact silent (log_ri _)
  all_goals
    apply silent
    first
      | rfl
      | simp

theorem escape_told (found : Escape) (mode : v.mode = .esc) (known : escapeTable.lookup c = some found) :
    Told v c (Vte.escape found (arrival v)) (log (Vte.escape found (arrival v))) := by
  have terminator : ∀ entry ∈ escapeTable, entry.2 = .ST → entry.1 = byte '\\' := by decide
  have entry := lookup_mem c found _ known
  have silent {w : VTE} (same : log w = log (arrival v)) : Told v c w (log w) := told_silent (same.trans (log_arrival v))
  cases found <;> simp only [Vte.escape]
  case IND => exact told_lined ((ind_lined _).silent rfl)
  case NEL => exact told_lined ((nel_lined _).silent rfl)
  case HTS => exact silent (log_emit _ _ rfl)
  case RI => exact silent (log_ri _)
  case RIS =>
    obtain ⟨events, logged, cleared⟩ := ris_clears (arrival v)
    exact told_clears (by rw [mode]; decide) ⟨events, logged, cleared⟩
  case ST =>
    split_ifs with finished
    · exact told_string (.inr ⟨mode, terminator _ entry rfl⟩) finished rfl
    · exact silent rfl
  all_goals
    apply silent
    first
      | rfl
      | simp

theorem log_setMargins (v : VTE) : log (setMargins v) = log v := by
  unfold setMargins
  split_ifs
  · rfl
  · exact log_moveCursorAbsolute _ _ _
  · rfl

theorem final_told (found : Final) (mode : v.mode = .csi) (space : v.csiData.spaceLeft = true)
    (known : finalTable.lookup c = some found) :
    Told v c (resetEscape (Vte.final frontend found (arrival v)))
      (log (resetEscape (Vte.final frontend found (arrival v)))) := by
  have scrolls : ∀ entry ∈ finalTable, entry.2 = .SU ∨ entry.2 = .DL → entry.1 = byte 'S' ∨ entry.1 = byte 'M' := by
    decide
  have erases : ∀ entry ∈ finalTable, entry.2 = .ECH → entry.1 = byte 'X' := by decide
  have entry := lookup_mem c found _ known
  have outside : v.mode ≠ .string := by rw [mode]; decide
  have same : arrival v = { v with events := [] } := arrival_of_ne outside
  have silent {w : VTE} (quiet : log w = log (arrival v)) : Told v c w (log w) :=
    told_silent (quiet.trans (log_arrival v))
  cases found <;> simp only [Vte.final]
  case DA =>
    split_ifs
    · exact silent (log_decid _)
    · exact silent rfl
  case TBC =>
    split
    · exact silent (log_emit _ _ rfl)
    · exact silent (log_emit _ _ rfl)
    · exact silent rfl
  case DSR =>
    split
    · exact silent (log_emit _ _ rfl)
    · exact silent (log_cpr _)
    · exact silent rfl
  case ED => exact told_clears outside (eraseDisplay_clears _)
  case EL => exact told_clears outside (eraseLine_clears _)
  case RM => exact told_clears outside (changeModes_clears frontend false _)
  case SM => exact told_clears outside (changeModes_clears frontend true _)
  case SU =>
    rw [log_resetEscape, log_trmScrollUp, log_arrival, same]
    exact .scroll v.top v.cursor ⟨mode, space, scrolls _ entry (.inl rfl)⟩
  case DL =>
    rw [log_resetEscape, deleteLines, log_trmScrollUp, log_arrival, same]
    exact .scroll v.cursor.y v.cursor ⟨mode, space, scrolls _ entry (.inr rfl)⟩
  case ECH =>
    rw [log_resetEscape, log_trmClearRegion, log_arrival, same]
    exact .erase _ ⟨mode, space, erases _ entry rfl⟩
  case DECSTBM => exact silent (log_setMargins _)
  all_goals
    apply silent
    first
      | rfl
      | simp [insertLines]

/-- The step: what is loud about a byte. -/
theorem process_told (v : VTE) (c : uchar) : Told v c (process frontend v c) (log (process frontend v c)) := by
  have silent {w : VTE} (same : log w = log (arrival v)) : Told v c w (log w) := told_silent (same.trans (log_arrival v))
  apply Cases.process (motive := fun w => Told v c w (log w))
  exact {
    keep := fun _ _ => told_silent (log_keep c v)
    control := fun found between known => control_told frontend found between known
    idle := fun _ => silent rfl
    escape := fun found mode known => escape_told found mode known
    argument := fun _ _ => silent rfl
    final := fun found mode space known => final_told frontend found mode space known
    dropped := fun _ => silent rfl
    hash := fun _ => silent (log_handleHash c _)
    charset := fun _ => silent (log_handleCharset c _)
    utf8 := fun _ => silent (log_handleUtf8 c _)
    text := fun _ _ => told_lined (handleText_lined frontend c _) }

end Woterm.Terminal.Log
