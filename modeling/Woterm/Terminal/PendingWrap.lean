import Woterm.Terminal.ArraySafety
import Woterm.Terminal.Bounds
import Woterm.Terminal.CmdSpy
import Woterm.Terminal.Codes
import Woterm.Terminal.Step

/-!
Where a wrap is due. Characters make it due in the last column only, but scrolling goes to the
first column with the wrap still due, and a saved cursor comes back to a screen of another width.
-/

namespace Woterm.Terminal.PendingWrap
open Woterm.Lib Woterm.Terminal.Data Woterm.Terminal.Vte Woterm.Terminal.Geometry Woterm.Terminal.Step
open Woterm.Terminal.Bounds (process_csi process_esc)
open Woterm.Terminal.ArraySafety (Tracked tracked_reset)
open Woterm.Terminal.Codes (run)

/-- A wrap is only due in the last column. -/
def AtMargin (v : VTE) : Prop := v.cursor.cs = .wrapNext → v.cursor.x = v.width - 1

/-! ## The edge of the screen -/

/-- The part of the state that this is about. -/
structure Edge where
  cs : CursorState
  x : Int
  width : Int

def edge (v : VTE) : Edge := ⟨v.cursor.cs, v.cursor.x, v.width⟩

/-- The edge after a character of width 1. -/
def Edge.type (e : Edge) (wraps : Bool) : Edge :=
  let x := if e.cs = .wrapNext && wraps then setRange 0 0 (e.width - 1) else e.x
  if x ≥ e.width - 1 then { e with cs := .wrapNext, x := x }
  else { e with cs := .normal, x := setRange (x + 1) 0 (e.width - 1) }

variable {v w : VTE}

theorem atMargin_iff (v : VTE) : AtMargin v ↔ ((edge v).cs = .wrapNext → (edge v).x = (edge v).width - 1) := Iff.rfl

theorem AtMargin.congr (margin : AtMargin v) (same : edge w = edge v) : AtMargin w := by
  rw [atMargin_iff, same]
  exact margin

theorem atMargin_of_normal (normal : (edge w).cs = .normal) : AtMargin w := by
  intro due
  have normal : w.cursor.cs = .normal := normal
  rw [normal] at due
  cases due

/-- After a character the wrap is due in the last column, unless the cursor was off the screen. -/
theorem type_atMargin_iff (e : Edge) (wraps : Bool) (margin : e.cs = .wrapNext → e.x = e.width - 1) :
    ((e.type wraps).cs = .wrapNext → (e.type wraps).x = (e.type wraps).width - 1) ↔ e.x < e.width := by
  have first : setRange 0 0 (e.width - 1) ≤ e.width - 1 := by
    unfold setRange
    dsimp only
    split_ifs <;> omega
  unfold Edge.type
  dsimp only
  by_cases due : e.cs = .wrapNext
  · have last := margin due
    split_ifs with wrapped beyond beyond
    all_goals simp
    all_goals omega
  · rw [decide_eq_false due, Bool.false_and, if_neg Bool.false_ne_true]
    split_ifs
    all_goals simp
    all_goals omega

/-! ## Operations -/

@[simp] theorem edge_emit (event : Event) (v : VTE) : edge (emit event v) = edge v := rfl

@[simp] theorem edge_emitAll (events : List Event) (v : VTE) : edge (emitAll events v) = edge v := rfl

@[simp] theorem edge_resetEscape (v : VTE) : edge (resetEscape v) = edge v := rfl

@[simp] theorem edge_hc (v : VTE) : edge (hc v) = edge v := by
  unfold hc
  split_ifs <;> rfl

@[simp] theorem edge_sc (v : VTE) : edge (sc v) = edge v := by
  unfold sc
  split_ifs <;> rfl

variable (event : Cursor → Event) (x y : Int)

@[simp] theorem edge_hidden (v : VTE) : edge (Vte.hidden event v) = edge v := by
  unfold Vte.hidden
  simp

@[simp] theorem edge_trmInsertChars (x n : Int) (v : VTE) : edge (trmInsertChars x n v) = edge v := edge_hidden _ v

@[simp] theorem edge_trmDeleteChars (x n : Int) (v : VTE) : edge (trmDeleteChars x n v) = edge v := edge_hidden _ v

@[simp] theorem edge_trmClearRegion (x1 y1 x2 y2 : Int) (v : VTE) : edge (trmClearRegion x1 y1 x2 y2 v) = edge v :=
  edge_hidden _ v

@[simp] theorem edge_setChar (c : UInt32) (charWidth : Int) (v : VTE) : edge (setChar c charWidth v) = edge v :=
  edge_hidden _ v

@[simp] theorem edge_decaln (v : VTE) : edge (decaln v) = edge v := by
  unfold decaln
  simp

@[simp] theorem edge_eraseDisplay (v : VTE) : edge (eraseDisplay v) = edge v := by
  unfold eraseDisplay
  split
  · dsimp only
    split_ifs <;> simp
  · dsimp only
    split_ifs <;> simp
  · simp
  · rfl

@[simp] theorem edge_eraseLine (v : VTE) : edge (eraseLine v) = edge v := by
  unfold eraseLine
  split <;> simp

@[simp] theorem edge_parseString (v : VTE) : edge (parseString v) = edge v := by
  unfold parseString
  dsimp only
  repeat' split
  all_goals rfl

@[simp] theorem edge_arrival (v : VTE) : edge (arrival v) = edge v := by
  unfold arrival
  split_ifs <;> rfl

theorem edge_moveCursor (v : VTE) : edge (moveCursor x y v) = ⟨.normal, setRange x 0 (v.width - 1), v.width⟩ := by
  have width : (hc v).width = v.width := congrArg Edge.width (edge_hc v)
  unfold moveCursor
  rw [edge_sc, edge, place, width]

theorem edge_trmScroll (v : VTE) : edge (trmScroll event v) = { edge v with x := 0 } := by
  have cs : (hc v).cursor.cs = v.cursor.cs := congrArg Edge.cs (edge_hc v)
  have width : (hc v).width = v.width := congrArg Edge.width (edge_hc v)
  unfold trmScroll
  dsimp only
  rw [edge_sc]
  simp only [edge, emit, cs, width]

theorem edge_decrc (v : VTE) : edge (decrc v) = ⟨v.savedCursor.cs, v.savedCursor.x, v.width⟩ := by
  have saved : (hc v).savedCursor = v.savedCursor := by
    unfold hc
    split_ifs <;> rfl
  have width : (hc v).width = v.width := congrArg Edge.width (edge_hc v)
  unfold decrc announceCharsets
  dsimp only
  rw [edge_sc, edge_emit, edge_emitAll]
  simp [edge, saved, width]

theorem flags_sc (v : VTE) : (sc v).flags = v.flags := by
  unfold sc
  split_ifs <;> rfl

theorem flags_moveCursor (v : VTE) : (moveCursor x y v).flags = v.flags :=
  (flags_sc _).trans (hc_flags v)

theorem flags_trmScrollUp (y n : Int) (v : VTE) : (trmScrollUp y n v).flags = v.flags :=
  (flags_sc _).trans (hc_flags v)

theorem flags_nel (v : VTE) : (nel v).flags = v.flags := by
  unfold nel
  dsimp only
  by_cases last : v.cursor.y = v.bottom
  · rw [if_pos last, flags_moveCursor, flags_trmScrollUp]
  · rw [if_neg last, flags_moveCursor]

theorem width_trmScrollUp (y n : Int) (v : VTE) : (trmScrollUp y n v).width = v.width :=
  congrArg Edge.width (edge_trmScroll _ v)

theorem edge_nel (v : VTE) : (edge (nel v)).cs = .normal ∧ (nel v).width = v.width := by
  unfold nel
  dsimp only
  by_cases last : v.cursor.y = v.bottom
  · rw [if_pos last, edge_moveCursor]
    exact ⟨rfl, (congrArg Edge.width (edge_moveCursor _ _ _)).trans (width_trmScrollUp _ _ v)⟩
  · rw [if_neg last, edge_moveCursor]
    exact ⟨rfl, congrArg Edge.width (edge_moveCursor _ _ v)⟩

theorem edge_wrapPending (v : VTE) : edge (wrapPending v) =
    if v.cursor.cs = .wrapNext && v.flags .DECAWM then ⟨.normal, setRange 0 0 (v.width - 1), v.width⟩ else edge v := by
  unfold wrapPending
  dsimp only
  split_ifs with due returns
  · rw [edge_moveCursor, (edge_nel v).2]
  · have unset : v.flags .LNM = false := by
      rw [flags_nel] at returns
      exact Bool.eq_false_of_not_eq_true returns
    unfold nel
    dsimp only
    by_cases last : v.cursor.y = v.bottom
    · rw [if_pos last, flags_trmScrollUp, unset, if_neg Bool.false_ne_true, edge_moveCursor, width_trmScrollUp]
    · rw [if_neg last, unset, if_neg Bool.false_ne_true, edge_moveCursor]
  · rfl

theorem edge_setCharPre (v : VTE) : edge (setCharPre 1 v) = edge (wrapPending v) := by
  unfold setCharPre
  dsimp only
  split_ifs
  · exact edge_trmInsertChars _ _ _
  · rfl

theorem edge_setCharPost (v w : VTE) (wraps : Bool)
    (pre : edge v = if w.cursor.cs = .wrapNext && wraps then ⟨.normal, setRange 0 0 (w.width - 1), w.width⟩ else edge w) :
    edge (setCharPost 1 v) = (edge w).type wraps := by
  have width : v.width = w.width := by
    have same := congrArg Edge.width pre
    split_ifs at same
    · exact same
    · exact same
  have x : v.cursor.x = if w.cursor.cs = .wrapNext && wraps then setRange 0 0 (w.width - 1) else w.cursor.x := by
    have same := congrArg Edge.x pre
    split_ifs at same ⊢
    · exact same
    · exact same
  have typed : (edge w).type wraps = if v.cursor.x ≥ v.width - 1 then ⟨.wrapNext, v.cursor.x, v.width⟩
      else ⟨.normal, setRange (v.cursor.x + 1) 0 (v.width - 1), v.width⟩ := by
    rw [x, width]
    rfl
  rw [typed]
  unfold setCharPost
  split_ifs
  · rfl
  · exact edge_moveCursor _ _ v

theorem edge_writeChar (c : UInt32) (v : VTE) : edge (writeChar c 1 v) = (edge v).type (v.flags .DECAWM) := by
  apply edge_setCharPost
  rw [edge_setChar, edge_setCharPre, edge_wrapPending]

theorem edge_writeMark (v : VTE) : edge (writeMark v) = (edge v).type (v.flags .DECAWM) := by
  apply edge_setCharPost
  rw [edge_hidden, edge_setCharPre, edge_wrapPending]

/-! ## Modes -/

variable (frontend : Frontend)

theorem notify_atMargin (flag : TerminalFlag) (v : VTE) (margin : AtMargin v) : AtMargin (notify frontend flag v) := by
  cases flag
  case DECCOLM =>
    apply atMargin_of_normal
    simp only [notify, notifyDECCOLM, edge_sc, edge_emit]
    rfl
  case DECOM => exact atMargin_of_normal (congrArg Edge.cs (edge_moveCursor _ _ v))
  case DECTCEM =>
    apply margin.congr
    simp only [notify, notifyTCEM, edge_sc, edge_emit, edge_hc]
  all_goals exact margin

theorem modifyMode_atMargin (decMode state : Bool) (v : VTE) (value : Int) (margin : AtMargin v) :
    AtMargin (modifyMode frontend decMode state v value) := by
  unfold modifyMode
  split
  · exact notify_atMargin frontend _ _ margin
  · exact margin

theorem changeModes_atMargin (state : Bool) (v : VTE) (margin : AtMargin v) : AtMargin (changeModes frontend state v) := by
  unfold changeModes
  generalize v.csiData.decMode = decMode
  generalize arguments v.csiData = values
  induction values generalizing v with
  | nil => exact margin
  | cons value values ih => exact ih _ (modifyMode_atMargin frontend decMode state v value margin)

theorem ris_atMargin (v : VTE) : AtMargin (ris v) := by
  apply atMargin_of_normal
  simp only [ris, edge_sc, edge_emit]
  rfl

/-! ## One byte -/

/-- The byte scrolls, and the cursor goes to the first column. -/
def Scrolls (v : VTE) (c : uchar) : Prop :=
  v.utf8Buffer = [] ∧ (c = 0x84 ∧ v.cursor.y = v.bottom ∨ c = 0x8d ∧ v.cursor.y = v.top) ∨
  v.mode = .esc ∧ (c = byte 'D' ∧ v.cursor.y = v.bottom ∨ c = byte 'M' ∧ v.cursor.y = v.top) ∨
  v.mode = .csi ∧ v.csiData.spaceLeft = true ∧ c ∈ [byte 'S', byte 'T', byte 'L', byte 'M']

/-- The byte of text completes a character, or the buffer is full. -/
def Completes (v : VTE) (c : uchar) : Prop :=
  if v.flags .UTF8 then v.utf8Buffer.length = 7 ∨ (utf8Scan (v.utf8Buffer ++ [c]) 0 0).isSome
  else 31 < c ∧ c < 127

/-- The byte writes a character or the mark for one. -/
def Writes (v : VTE) (c : uchar) : Prop :=
  v.utf8Buffer = [] ∧ c = 0x1a ∨
  v.mode = .ground ∧ (v.utf8Buffer = [] → isControl c = false) ∧ Completes v c

/-- Where the byte leaves a wrap that is due, it leaves it in the last column. -/
structure Keeps (v : VTE) (c : uchar) : Prop where
  scroll : Scrolls v c → v.cursor.cs = .wrapNext → v.width = 1
  restore : RestoresCursor v c → v.savedCursor.cs = .wrapNext → v.savedCursor.x = v.width - 1
  write : Writes v c → v.cursor.x < v.width

theorem trmScroll_atMargin_iff (v : VTE) : AtMargin (trmScroll event v) ↔ (v.cursor.cs = .wrapNext → v.width = 1) := by
  rw [atMargin_iff, edge_trmScroll]
  refine forall_congr' fun _ => ?_
  simp only [edge]
  omega

theorem decrc_atMargin_iff (v : VTE) :
    AtMargin (decrc v) ↔ (v.savedCursor.cs = .wrapNext → v.savedCursor.x = v.width - 1) := by
  rw [atMargin_iff, edge_decrc]

theorem written_atMargin_iff (margin : AtMargin v) (written : edge w = (edge v).type (v.flags .DECAWM)) :
    AtMargin w ↔ v.cursor.x < v.width := by
  rw [atMargin_iff, written]
  exact type_atMargin_iff (edge v) _ margin

theorem edge_handleText (narrow : ∀ c, frontend.getCharWidth c = 1) (c : uchar) (v : VTE) :
    edge (handleText frontend c v) = edge v ∧ ¬ Completes v c ∨
      edge (handleText frontend c v) = (edge v).type (v.flags .DECAWM) ∧ Completes v c := by
  unfold handleText Completes
  dsimp only
  by_cases utf8 : v.flags .UTF8 = true
  · rw [if_pos utf8, if_pos utf8]
    by_cases full : v.utf8Buffer.length = 7
    · rw [if_pos full]
      exact .inr ⟨edge_writeMark v, .inl full⟩
    · rw [if_neg full]
      cases scanned : utf8Scan (v.utf8Buffer ++ [c]) 0 0 with
      | none => exact .inl ⟨rfl, by simp [full]⟩
      | some codepoint =>
        dsimp only
        rw [narrow codepoint, if_neg (by decide)]
        exact .inr ⟨edge_writeChar codepoint _, .inr rfl⟩
  · rw [if_neg utf8, if_neg utf8]
    by_cases shown : 31 < c ∧ c < 127
    · rw [if_pos (by simpa using shown)]
      exact .inr ⟨edge_writeChar c.toUInt32 v, shown⟩
    · rw [if_neg (by simpa using shown)]
      exact .inl ⟨rfl, shown⟩

theorem ind_atMargin (v : VTE) (given : v.cursor.y = v.bottom → v.cursor.cs = .wrapNext → v.width = 1) :
    AtMargin (ind v) := by
  unfold ind
  split_ifs with last
  · exact (trmScroll_atMargin_iff _ v).mpr (given last)
  · exact atMargin_of_normal (congrArg Edge.cs (edge_moveCursor _ _ v))

theorem ri_atMargin (v : VTE) (given : v.cursor.y = v.top → v.cursor.cs = .wrapNext → v.width = 1) :
    AtMargin (ri v) := by
  unfold ri
  split_ifs with first
  · exact (trmScroll_atMargin_iff _ v).mpr (given first)
  · exact atMargin_of_normal (congrArg Edge.cs (edge_moveCursor _ _ v))

theorem moveCursor_atMargin (v : VTE) : AtMargin (moveCursor x y v) :=
  atMargin_of_normal (congrArg Edge.cs (edge_moveCursor x y v))

theorem control_atMargin (found : Control) (v : VTE) (margin : AtMargin v)
    (down : found = .IND → v.cursor.y = v.bottom → v.cursor.cs = .wrapNext → v.width = 1)
    (up : found = .RI → v.cursor.y = v.top → v.cursor.cs = .wrapNext → v.width = 1)
    (mark : found = .SUB → v.cursor.x < v.width) : AtMargin (control frontend found v) := by
  have unmoved {w : VTE} (same : edge w = edge v) : AtMargin w := margin.congr same
  cases found with
  | BEL =>
    apply unmoved
    simp only [Vte.control, edge_resetEscape]
    split_ifs
    · exact edge_parseString v
    · rfl
  | BS => exact moveCursor_atMargin _ _ v
  | HT => exact moveCursor_atMargin _ _ v
  | LF => exact atMargin_of_normal (edge_nel v).1
  | CR =>
    simp only [Vte.control]
    split_ifs
    · exact moveCursor_atMargin _ _ v
    · exact margin
  | SUB => exact (written_atMargin_iff margin (edge_writeMark v)).mpr (mark rfl)
  | IND => exact ind_atMargin v (down rfl)
  | NEL => exact atMargin_of_normal (edge_nel v).1
  | RI => exact ri_atMargin v (up rfl)
  | SO | SI | CAN | ESC | HTS | DCS | DECID | CSI | OSC | PM | APC => exact unmoved rfl

theorem escape_atMargin (found : Escape) (v : VTE) (margin : AtMargin v)
    (down : found = .IND → v.cursor.y = v.bottom → v.cursor.cs = .wrapNext → v.width = 1)
    (up : found = .RI → v.cursor.y = v.top → v.cursor.cs = .wrapNext → v.width = 1)
    (restore : found = .DECRC → v.savedCursor.cs = .wrapNext → v.savedCursor.x = v.width - 1) :
    AtMargin (escape found v) := by
  have unmoved {w : VTE} (same : edge w = edge v) : AtMargin w := margin.congr same
  cases found with
  | IND => exact ind_atMargin v (down rfl)
  | RI => exact ri_atMargin v (up rfl)
  | NEL => exact atMargin_of_normal (edge_nel v).1
  | RIS => exact ris_atMargin v
  | DECRC => exact (decrc_atMargin_iff v).mpr (restore rfl)
  | ST =>
    apply unmoved
    simp only [escape, edge_resetEscape]
    split_ifs
    · exact edge_parseString v
    · rfl
  | CSI | HASH | UTF8 | DCS | APC | PM | OSC | title | LS2 | LS3 | HTS | DECID | DECPAM | DECPNM | DECSC | charset n =>
    exact unmoved rfl

theorem final_atMargin (found : Final) (v : VTE) (margin : AtMargin v)
    (scroll : found ∈ [.SU, .SD, .IL, .DL] → v.cursor.cs = .wrapNext → v.width = 1)
    (restore : found = .DECRC → v.savedCursor.cs = .wrapNext → v.savedCursor.x = v.width - 1) :
    AtMargin (final frontend found v) := by
  have unmoved {w : VTE} (same : edge w = edge v) : AtMargin w := margin.congr same
  cases found with
  | CUU | CUD | CUF | CUB | CNL | CPL | CHA | CUP | CHT | CBT | VPA => exact moveCursor_atMargin _ _ v
  | SU | SD | IL | DL => exact (trmScroll_atMargin_iff _ v).mpr (scroll (by decide))
  | RM => exact changeModes_atMargin frontend false v margin
  | SM => exact changeModes_atMargin frontend true v margin
  | DECRC => exact (decrc_atMargin_iff v).mpr (restore rfl)
  | DECSTBM =>
    simp only [final, setMargins]
    split_ifs
    · exact margin
    · exact moveCursor_atMargin _ _ _
    · exact margin
  | ICH => exact unmoved (edge_trmInsertChars _ _ v)
  | DCH => exact unmoved (edge_trmDeleteChars _ _ v)
  | ECH => exact unmoved (edge_trmClearRegion _ _ _ _ v)
  | ED => exact unmoved (edge_eraseDisplay v)
  | EL => exact unmoved (edge_eraseLine v)
  | SGR | DECSC => exact unmoved rfl
  | DA =>
    simp only [final]
    split_ifs
    · exact unmoved rfl
    · exact margin
  | TBC | DSR =>
    simp only [final]
    split <;> exact unmoved rfl

theorem process_atMargin (narrow : ∀ c, frontend.getCharWidth c = 1) (v : VTE) (c : uchar) (margin : AtMargin v)
    (tidy : v.utf8Buffer ≠ [] → v.mode = .ground) (keeps : Keeps v c) : AtMargin (process frontend v c) := by
  obtain ⟨mode, csiData, strData, same⟩ := arrival_screen v
  have arrived : AtMargin (arrival v) := margin.congr (edge_arrival v)
  apply Cases.process
  exact {
    keep := fun _ _ => by
      apply margin.congr
      unfold keep handleString
      split_ifs
      · rfl
      · split <;> rfl
    control := fun found between known => by
      have entry := lookup_mem c found controlTable known
      apply control_atMargin frontend found _ arrived
      · rintro rfl last
        have code := (by decide : ∀ entry ∈ controlTable, entry.2 = .IND → entry.1 = 0x84) _ entry rfl
        rw [same] at last ⊢
        exact keeps.scroll (.inl ⟨between, .inl ⟨code, last⟩⟩)
      · rintro rfl first
        have code := (by decide : ∀ entry ∈ controlTable, entry.2 = .RI → entry.1 = 0x8d) _ entry rfl
        rw [same] at first ⊢
        exact keeps.scroll (.inl ⟨between, .inr ⟨code, first⟩⟩)
      · rintro rfl
        have code := (by decide : ∀ entry ∈ controlTable, entry.2 = .SUB → entry.1 = 0x1a) _ entry rfl
        rw [same]
        exact keeps.write (.inl ⟨between, code⟩)
    idle := fun _ => arrived
    escape := fun found inside known => by
      have entry := lookup_mem c found escapeTable known
      apply escape_atMargin found _ arrived
      · rintro rfl last
        have code := (by decide : ∀ entry ∈ escapeTable, entry.2 = .IND → entry.1 = byte 'D') _ entry rfl
        rw [same] at last ⊢
        exact keeps.scroll (.inr (.inl ⟨inside, .inl ⟨code, last⟩⟩))
      · rintro rfl first
        have code := (by decide : ∀ entry ∈ escapeTable, entry.2 = .RI → entry.1 = byte 'M') _ entry rfl
        rw [same] at first ⊢
        exact keeps.scroll (.inr (.inl ⟨inside, .inr ⟨code, first⟩⟩))
      · rintro rfl
        have code := (by decide : ∀ entry ∈ escapeTable, entry.2 = .DECRC → entry.1 = byte '8') _ entry rfl
        rw [same]
        exact keeps.restore (.inl ⟨inside, code⟩)
    argument := fun _ _ => arrived
    final := fun found inside space known => by
      have entry := lookup_mem c found finalTable known
      apply final_atMargin frontend found _ arrived
      · intro scrolls
        have code := (by decide : ∀ entry ∈ finalTable, entry.2 ∈ [Final.SU, .SD, .IL, .DL] →
          entry.1 ∈ [byte 'S', byte 'T', byte 'L', byte 'M']) _ entry scrolls
        rw [same]
        exact keeps.scroll (.inr (.inr ⟨inside, space, code⟩))
      · rintro rfl
        have code := (by decide : ∀ entry ∈ finalTable, entry.2 = .DECRC → entry.1 = byte 'u') _ entry rfl
        rw [same]
        exact keeps.restore (.inr ⟨inside, code, space⟩)
    dropped := fun _ => arrived
    hash := fun _ => by
      apply arrived.congr
      unfold handleHash
      split
      · rfl
      · split_ifs
        · exact edge_decaln _
        · rfl
    charset := fun _ => by
      apply arrived.congr
      unfold handleCharset
      split <;> rfl
    utf8 := fun _ => by
      apply arrived.congr
      unfold handleUtf8
      split_ifs <;> rfl
    text := fun between _ => by
      have ground : v.mode = .ground := by
        by_cases empty : v.utf8Buffer = []
        · exact (between empty).2
        · exact tidy empty
      rcases edge_handleText frontend narrow c (arrival v) with ⟨unmoved, -⟩ | ⟨written, completes⟩
      · exact arrived.congr unmoved
      · rw [written_atMargin_iff arrived written]
        rw [same] at completes ⊢
        exact keeps.write (.inr ⟨ground, fun empty => (between empty).1, completes⟩) }

/-! ## The bytes that count -/

theorem edge_ind (v : VTE) (last : v.cursor.y = v.bottom) : edge (ind v) = { edge v with x := 0 } := by
  unfold ind
  rw [if_pos last]
  exact edge_trmScroll _ v

theorem edge_ri (v : VTE) (first : v.cursor.y = v.top) : edge (ri v) = { edge v with x := 0 } := by
  unfold ri
  rw [if_pos first]
  exact edge_trmScroll _ v

theorem edge_process_scrolls (v : VTE) (c : uchar) (scrolls : Scrolls v c) :
    edge (process frontend v c) = { edge v with x := 0 } := by
  obtain ⟨mode, csiData, strData, same⟩ := arrival_screen v
  rcases scrolls with ⟨between, ⟨rfl, last⟩ | ⟨rfl, first⟩⟩ | ⟨inside, ⟨rfl, last⟩ | ⟨rfl, first⟩⟩ | ⟨inside, space, listed⟩
  · rw [process_eq_control frontend v _ .IND between (by decide) (fun _ => by decide), same]
    exact edge_ind _ last
  · rw [process_eq_control frontend v _ .RI between (by decide) (fun _ => by decide), same]
    exact edge_ri _ first
  · rw [process_esc frontend v _ inside .IND (by decide)]
    exact edge_ind { v with events := [] } last
  · rw [process_esc frontend v _ inside .RI (by decide)]
    exact edge_ri { v with events := [] } first
  · simp only [List.mem_cons, List.not_mem_nil, or_false] at listed
    rcases listed with rfl | rfl | rfl | rfl
    · rw [process_csi frontend v _ inside space .SU (by decide)]
      exact edge_trmScroll _ _
    · rw [process_csi frontend v _ inside space .SD (by decide)]
      exact edge_trmScroll _ _
    · rw [process_csi frontend v _ inside space .IL (by decide)]
      exact edge_trmScroll _ _
    · rw [process_csi frontend v _ inside space .DL (by decide)]
      exact edge_trmScroll _ _

theorem edge_process_restores (v : VTE) (c : uchar) (restores : RestoresCursor v c) :
    edge (process frontend v c) = ⟨v.savedCursor.cs, v.savedCursor.x, v.width⟩ := by
  rcases restores with ⟨inside, rfl⟩ | ⟨inside, rfl, space⟩
  · rw [process_esc frontend v _ inside .DECRC (by decide)]
    exact edge_decrc _
  · rw [process_csi frontend v _ inside space .DECRC (by decide)]
    exact edge_decrc _

theorem edge_process_writes (narrow : ∀ c, frontend.getCharWidth c = 1) (v : VTE) (c : uchar) (writes : Writes v c) :
    edge (process frontend v c) = (edge v).type (v.flags .DECAWM) := by
  obtain ⟨mode, csiData, strData, same⟩ := arrival_screen v
  rcases writes with ⟨between, rfl⟩ | ⟨ground, text, completes⟩
  · rw [process_eq_control frontend v _ .SUB between (by decide) (fun _ => by decide), same]
    exact edge_writeMark _
  · have outside : v.mode ≠ .string := by
      rw [ground]
      decide
    have handled : process frontend v c = handleText frontend c { v with events := [] } := by
      rw [process_eq_dispatch frontend v c (fun inside => absurd inside outside), arrival_of_ne outside, dispatch]
      have passed : ¬ (v.utf8Buffer.isEmpty && isControl c) = true := by
        rw [Bool.and_eq_true, List.isEmpty_iff]
        rintro ⟨empty, controls⟩
        rw [text empty] at controls
        cases controls
      dsimp only
      rw [if_neg passed, ground]
    rw [handled]
    rcases edge_handleText frontend narrow c { v with events := [] } with ⟨-, incomplete⟩ | ⟨written, -⟩
    · exact absurd completes incomplete
    · exact written

/-- A byte after which the wrap is due in the last column only was one that keeps it so. -/
theorem keeps_of_atMargin (narrow : ∀ c, frontend.getCharWidth c = 1) (v : VTE) (c : uchar) (margin : AtMargin v)
    (after : AtMargin (process frontend v c)) : Keeps v c := by
  refine ⟨?_, ?_, ?_⟩
  · intro scrolls due
    rw [atMargin_iff, edge_process_scrolls frontend v c scrolls] at after
    have first : 0 = v.width - 1 := after due
    omega
  · intro restores due
    rw [atMargin_iff, edge_process_restores frontend v c restores] at after
    exact after due
  · intro writes
    exact (written_atMargin_iff margin (edge_process_writes frontend narrow v c writes)).mp after

/-! ## Every run -/

/-- After a reset and any bytes of characters of width 1, a wrap is due in the last column only, if
and only if no byte leaves it due elsewhere. -/
theorem pending_iff (narrow : ∀ c, frontend.getCharWidth c = 1) (start : VTE) (bytes : List uchar) :
    (∀ front back, bytes = front ++ back → AtMargin (run frontend (Vte.reset start) front)) ↔
      ∀ front c back, bytes = front ++ c :: back → Keeps (run frontend (Vte.reset start) front) c := by
  have weaken : ∀ v, AtMargin v ∧ Tracked v → AtMargin v := fun _ holds => holds.1
  refine Run.forall_foldl_iff (process frontend) weaken ?_ ?_ _ ⟨ris_atMargin _, tracked_reset start⟩ bytes
  · intro v c holds keeps
    have tidy := fun busy => (holds.2.ground busy).1
    exact ⟨process_atMargin frontend narrow v c holds.1 tidy keeps, holds.2.process frontend c⟩
  · intro v c holds after
    exact keeps_of_atMargin frontend narrow v c holds.1 after

/-- A screen of one column, on which the wrap is due behind every letter. -/
def single : VTE := { CmdSpy.blank with width := 1 }

theorem pending_iff_letter : (∀ c, CmdSpy.frontend.getCharWidth c = 1) ∧
    (run CmdSpy.frontend (Vte.reset single) [byte 'x']).cursor.cs = .wrapNext ∧
    ∀ front back, [byte 'x'] = front ++ back → AtMargin (run CmdSpy.frontend (Vte.reset single) front) := by
  have narrow : ∀ c, CmdSpy.frontend.getCharWidth c = 1 := fun _ => rfl
  refine ⟨narrow, by decide +kernel, (pending_iff CmdSpy.frontend narrow single [byte 'x']).mpr ?_⟩
  intro front c back split
  obtain ⟨rfl, rfl, rfl⟩ : front = [] ∧ c = byte 'x' ∧ back = [] := by
    cases front with
    | nil => simpa [eq_comm] using split
    | cons first front => simp at split
  have ground : (Vte.reset single).mode = .ground := by decide +kernel
  have normal : (Vte.reset single).cursor.cs = .normal := by decide +kernel
  have inside : (Vte.reset single).cursor.x < (Vte.reset single).width := by decide +kernel
  refine ⟨fun _ due => ?_, fun restores => ?_, fun _ => inside⟩
  · rw [run, List.foldl_nil, normal] at due
    cases due
  · rcases restores with ⟨mode, _⟩ | ⟨mode, _⟩
    · rw [run, List.foldl_nil, ground] at mode
      cases mode
    · rw [run, List.foldl_nil, ground] at mode
      cases mode

/-- A character in the last column, and then the screen scrolls. -/
def scrolledAtMargin : VTE := run CmdSpy.frontend (Vte.reset CmdSpy.blank) ("\x1b[1024Gx\x1b[S".toList.map byte)

/-- The wrap is still due, in the first column. -/
theorem wrap_due_at_left : ¬ AtMargin scrolledAtMargin := by
  have due : scrolledAtMargin.cursor.cs = .wrapNext ∧ scrolledAtMargin.cursor.x = 0 ∧ scrolledAtMargin.width = 1024 := by
    decide +kernel
  obtain ⟨pending, left, wide⟩ := due
  intro margin
  have last := margin pending
  rw [left, wide] at last
  cases last

end Woterm.Terminal.PendingWrap
