import Woterm.Terminal.Data

/-!
The terminal parser `VTE::process` with all its handlers. An `int` is an integer; sums with a
parameter of a control sequence are taken modulo 2^32, as overflow does on the machines the
program is built for. The callbacks are logged in the order in which they are made.
-/

namespace Woterm.Terminal.Vte
open Woterm.Lib Woterm.Lib.Word32 Woterm.Terminal.Data

variable (frontend : Frontend)

/-! ## UTF-8 -/

def utf8Masks : List Nat :=
  List.replicate 128 0 ++ List.replicate 16 1 ++ List.replicate 16 9 ++ List.replicate 32 7 ++
  [8, 8] ++ List.replicate 30 2 ++
  [10, 3, 3, 3, 3, 3, 3, 3, 3, 3, 3, 3, 3, 4, 3, 3, 11, 6, 6, 6, 5, 8, 8, 8, 8, 8, 8, 8, 8, 8, 8, 8]

def utf8States : List Nat :=
  [0, 12, 24, 36, 60, 96, 84, 12, 12, 12, 48, 72, 12, 12, 12, 12, 12, 12, 12, 12, 12, 12, 12, 12,
   12, 0, 12, 12, 12, 12, 12, 0, 12, 0, 12, 12, 12, 24, 12, 12, 12, 12, 12, 24, 12, 24, 12, 12,
   12, 12, 12, 12, 12, 12, 12, 24, 12, 12, 12, 12, 12, 24, 12, 12, 12, 12, 12, 12, 12, 24, 12, 12,
   12, 12, 12, 12, 12, 12, 12, 36, 12, 36, 12, 12, 12, 36, 12, 12, 12, 12, 12, 36, 12, 36, 12, 12,
   12, 36, 12, 12, 12, 12, 12, 12, 12, 12, 12, 12]

/-- `utf8_decode`: the new state and code point. -/
def utf8Decode (c : uchar) (state : Nat) (codep : UInt32) : Nat × UInt32 :=
  let type := utf8Masks.getD c.toNat 0
  let codep := if state ≠ 0 then (c.toUInt32 &&& (0x3f : UInt32)) ||| (codep <<< 6)
    else UInt32.ofNat (0xff >>> type) &&& c.toUInt32
  (utf8States.getD (state + type) 12, codep)

/-- The loop over the buffer: the first code point that is complete. -/
def utf8Scan : List uchar → Nat → UInt32 → Option UInt32
  | [], _, _ => none
  | c :: rest, state, codep =>
    let (state, codep) := utf8Decode c state codep
    if state = 0 then some codep else utf8Scan rest state codep

/-! ## Helpers -/

def isControlC0 (c : uchar) : Bool := c ≤ 0x1f

def isControlC1 (c : uchar) : Bool := 0x80 ≤ c && c ≤ 0x9f

def isControl (c : uchar) : Bool := isControlC0 c || isControlC1 c

theorem isControl_eq_false_iff (c : uchar) :
    isControl c = false ↔ 0x20 ≤ c.toNat ∧ (c.toNat < 0x80 ∨ 0x9f < c.toNat) := by
  simp only [isControl, isControlC0, isControlC1, Bool.or_eq_false_iff, Bool.and_eq_false_iff,
    decide_eq_false_iff_not, UInt8.le_iff_toNat_le, UInt8.reduceToNat]
  omega

def emit (event : Event) (v : VTE) : VTE := { v with events := v.events ++ [event] }

def emitAll (events : List Event) (v : VTE) : VTE := { v with events := v.events ++ events }

def setFlag (flag : TerminalFlag) (state : Bool) (v : VTE) : VTE :=
  { v with flags := Function.update v.flags flag state }

def resetEscape (v : VTE) : VTE := { v with csiData := {}, mode := .ground }

def resetUtf8Buffer (v : VTE) : VTE := { v with utf8Buffer := [] }

def hc (v : VTE) : VTE :=
  if !v.cursorHidden then { emit (.hideCursor v.cursor) v with cursorHidden := true } else v

def sc (v : VTE) : VTE :=
  if v.flags .DECTCEM && v.cursorHidden then { emit (.showCursor v.cursor) v with cursorHidden := false }
  else v

/-- A callback with the cursor hidden. -/
def hidden (event : Cursor → Event) (v : VTE) : VTE :=
  let v := hc v
  sc (emit (event v.cursor) v)

/-! ## Moving and scrolling -/

/-- The part of `move_cursor` between `hc` and `sc`. -/
def place (x y : Int) (v : VTE) : VTE :=
  { v with cursor := { v.cursor with
      x := setRange x 0 (v.width - 1)
      y := if v.flags .DECOM then setRange y v.top v.bottom else setRange y 0 (v.height - 1)
      cs := .normal } }

def moveCursor (x y : Int) (v : VTE) : VTE := sc (place x y (hc v))

def moveCursorAbsolute (x y : Int) (v : VTE) : VTE :=
  moveCursor x (wrap (y + if v.flags .DECOM then v.top else 0)) v

/-- The common body of `trm_scroll_up` and `trm_scroll_down`. -/
def trmScroll (event : Cursor → Event) (v : VTE) : VTE :=
  let v := hc v
  let v := emit (event v.cursor) v
  sc { v with cursor := { v.cursor with x := 0 } }

def trmScrollUp (y n : Int) (v : VTE) : VTE := trmScroll (Event.scrollUp y v.bottom n) v

def trmScrollDown (y n : Int) (v : VTE) : VTE := trmScroll (Event.scrollDown y v.bottom n) v

def insertLines (y n : Int) (v : VTE) : VTE := trmScrollDown y n v

def deleteLines (y n : Int) (v : VTE) : VTE := trmScrollUp y n v

def trmInsertChars (x n : Int) (v : VTE) : VTE :=
  hidden (Event.insertChars x (if n > v.width then v.width else n)) v

def trmDeleteChars (x n : Int) (v : VTE) : VTE :=
  hidden (Event.deleteChars x (if n > v.width then v.width else n)) v

/-- `trm_clear_region`, which restricts `y2` twice and `x2` never. -/
def trmClearRegion (x1 y1 x2 y2 : Int) (v : VTE) : VTE :=
  let y2 := setRange y2 0 (v.height - 1)
  let y2 := setRange y2 0 (v.height - 1)
  hidden (Event.clearRegion x1 y1 x2 y2) v

/-! ## Characters -/

/-- `NEL`; the result of the source function is the flag `LNM`. -/
def nel (v : VTE) : VTE :=
  let y := v.cursor.y
  if y = v.bottom then
    let v := trmScrollUp v.top 1 v
    moveCursor (if v.flags .LNM then v.cursor.x else 0) y v
  else moveCursor (if v.flags .LNM then v.cursor.x else 0) (y + 1) v

def ind (v : VTE) : VTE :=
  if v.cursor.y = v.bottom then trmScrollUp v.top 1 v
  else moveCursor v.cursor.x (v.cursor.y + 1) v

def ri (v : VTE) : VTE :=
  if v.cursor.y = v.top then trmScrollDown v.top 1 v
  else moveCursor v.cursor.x (v.cursor.y - 1) v

/-- The wrap that is due in `set_char_pre`. -/
def wrapPending (v : VTE) : VTE :=
  if v.cursor.cs = .wrapNext && v.flags .DECAWM then
    let v := nel v
    if v.flags .LNM then moveCursor 0 v.cursor.y v else v
  else v

def setCharPre (charWidth : Int) (v : VTE) : VTE :=
  let v := wrapPending v
  if v.flags .IRM then trmInsertChars v.cursor.x charWidth v else v

def setChar (c : UInt32) (charWidth : Int) (v : VTE) : VTE := hidden (Event.putChar c charWidth) v

def setCharPost (charWidth : Int) (v : VTE) : VTE :=
  if v.cursor.x ≥ v.width - charWidth then { v with cursor := { v.cursor with cs := .wrapNext } }
  else moveCursor (v.cursor.x + charWidth) v.cursor.y v

def writeChar (c : UInt32) (charWidth : Int) (v : VTE) : VTE :=
  setCharPost charWidth (setChar c charWidth (setCharPre charWidth v))

/-- The mark for what cannot be shown. -/
def writeMark (v : VTE) : VTE :=
  setCharPost 1 (hidden Event.putReversedQuestionMark (setCharPre 1 v))

/-! ## Reset, saving and restoring -/

def selectCharset (n : Nat) (v : VTE) : VTE :=
  emit (.selectCharset n) { v with cursor := { v.cursor with selectedCharset := n } }

/-- The charsets of the cursor are announced. -/
def announceCharsets (v : VTE) : VTE :=
  emit (.selectCharset v.cursor.selectedCharset)
    (emitAll ((List.range 4).map fun i => Event.defineCharset i (v.cursor.charsetTable i)) v)

def notifyKAM (v : VTE) : VTE := emit (.flagLockKeyboard (v.flags .KAM)) v

def notifyKPAM (v : VTE) : VTE := emit (.flagApplicationKeypad (v.flags .DECKPAM)) v

def notifyTCEM (v : VTE) : VTE :=
  let v := hc v
  sc (emit (.flagCursorVisible (v.flags .DECTCEM)) v)

def notifyDECCOLM (v : VTE) : VTE :=
  let v := hc v
  let requested : Int := if v.flags .DECCOLM then 132 else 80
  let v := if frontend.requestWidth requested then { v with width := requested } else v
  let v := { v with top := 0, bottom := v.height - 1, cursor := {} }
  sc (emit (.clearRegion 0 0 (v.width - 1) (v.height - 1) v.cursor) v)

def notifyDECSCLM (v : VTE) : VTE := emit (.flagSoftScroll (v.flags .DECSCLM)) v

def notifyDECSCNM (v : VTE) : VTE := emit (.flagScreenReversed (v.flags .DECSCNM)) v

def notifyDECOM (v : VTE) : VTE := moveCursorAbsolute 0 0 v

def defaultFlags : TerminalFlag → Bool
  | .DECAWM | .DECTCEM | .DECARM | .DECSCLM | .UTF8 => true
  | _ => false

/-- The tab stops that a reset sets. -/
def tabStops (width : Int) : List Event :=
  ((List.range width.toNat).filter fun x => 8 ≤ x ∧ x % 8 = 0).map fun x : Nat => Event.setTab x

/-- The fields that `RIS` assigns; `width` and `height` stay. -/
def risState (v : VTE) : VTE :=
  { v with
    top := 0
    bottom := v.height - 1
    definingCharset := 0
    cursor := {}
    savedCursor := {}
    mode := .ground
    flags := defaultFlags
    csiData := {}
    strData := {}
    cursorHidden := true
    utf8Buffer := [] }

def ris (v : VTE) : VTE :=
  let v := risState v
  let v := emitAll (.clearTabs :: tabStops v.width) v
  let v := emit (.clearRegion 0 0 (v.width - 1) (v.height - 1) v.cursor) v
  let v := notifyDECSCLM (notifyDECSCNM (notifyKPAM (notifyKAM v)))
  let v := emitAll ((List.range 256).map fun i : Nat => Event.resetColor i) v
  let v := announceCharsets v
  sc (emit (.flagCursorVisible (v.flags .DECTCEM)) v)

/-- `VTE::reset`. -/
def reset (v : VTE) : VTE := ris { v with events := [] }

def decid (v : VTE) : VTE := emit (.ttyWrite ("\x1b[?6c".toList.map byte)) v

def decsc (v : VTE) : VTE := { v with savedCursor := v.cursor }

def decrc (v : VTE) : VTE :=
  let v := hc v
  let v := { v with cursor := { v.savedCursor with y := setRange v.savedCursor.y v.top v.bottom } }
  sc (announceCharsets v)

def digits (n : Int) : List uchar :=
  (if n < 0 then [byte '-'] else []) ++ (Nat.toDigits 10 n.natAbs).map byte

def cpr (v : VTE) : VTE :=
  emit (.ttyWrite ("\x1b[".toList.map byte ++ digits (v.cursor.y + 1) ++ [byte ';'] ++
    digits (v.cursor.x + 1) ++ [byte 'R'])) v

/-- The test pattern of `DECALN`, column by column. -/
def pattern (width height : Int) : List Event :=
  (List.range width.toNat).flatMap fun x : Nat => (List.range height.toNat).map fun y : Nat =>
    Event.putChar (byte 'E').toUInt32 1 { x := x, y := y }

def decaln (v : VTE) : VTE := sc (emitAll (pattern v.width v.height) (hc v))

/-! ## Modes and attributes -/

/-- `set_color` on the arguments after `38` or `48`: the new color and the arguments used up. -/
def setColor (args : List Int) (color : Color) : Color × Nat :=
  match args with
  | 2 :: r :: g :: b :: _ =>
    if 0 ≤ r ∧ r < 256 ∧ 0 ≤ g ∧ g < 256 ∧ 0 ≤ b ∧ b < 256 then
      ({ type := .truecolor, color := UInt32.ofInt (16777216 + r * 65536 + g * 256 + b) }, 4)
    else (color, 4)
  | 5 :: n :: _ => ({ type := .indexed, color := UInt32.ofInt n }, 2)
  | _ :: _ => (color, 1)
  | [] => (color, 1)

def setAttributeFlag (flag : AttributeFlag) (state : Bool) (attrs : Attributes) : Attributes :=
  { attrs with flags := Function.update attrs.flags flag state }

/-- One argument of `SGR` that is not an extended color. -/
def setAttribute (v : Int) (attrs : Attributes) : Attributes :=
  match v with
  | 0 => {}
  | 1 => setAttributeFlag .bold true attrs
  | 2 => setAttributeFlag .halfBright true attrs
  | 3 => setAttributeFlag .italic true attrs
  | 4 => setAttributeFlag .underline true attrs
  | 5 | 6 => setAttributeFlag .blink true attrs
  | 7 => setAttributeFlag .reverse true attrs
  | 8 => setAttributeFlag .invisible true attrs
  | 22 => setAttributeFlag .bold false (setAttributeFlag .halfBright false attrs)
  | 23 => setAttributeFlag .italic false attrs
  | 24 => setAttributeFlag .underline false attrs
  | 25 => setAttributeFlag .blink false attrs
  | 27 => setAttributeFlag .reverse false attrs
  | 28 => setAttributeFlag .invisible false attrs
  | 39 => { attrs with fg := {} }
  | 49 => { attrs with bg := {} }
  | v =>
    if 30 ≤ v ∧ v ≤ 37 then { attrs with fg := { type := .indexed, color := UInt32.ofInt (v - 30) } }
    else if 40 ≤ v ∧ v ≤ 47 then { attrs with bg := { type := .indexed, color := UInt32.ofInt (v - 40) } }
    else if 90 ≤ v ∧ v ≤ 97 then { attrs with fg := { type := .indexed, color := UInt32.ofInt (v - 90 + 8) } }
    else if 100 ≤ v ∧ v ≤ 107 then { attrs with bg := { type := .indexed, color := UInt32.ofInt (v - 100 + 8) } }
    else attrs

/-- The loop of `set_attributes`; `skip` arguments belong to the color before. -/
def attributesLoop : Nat → List Int → Attributes → Attributes
  | _, [], attrs => attrs
  | skip + 1, _ :: rest, attrs => attributesLoop skip rest attrs
  | 0, v :: rest, attrs =>
    if v = 38 then
      let (color, used) := setColor rest attrs.fg
      attributesLoop used rest { attrs with fg := color }
    else if v = 48 then
      let (color, used) := setColor rest attrs.bg
      attributesLoop used rest { attrs with bg := color }
    else attributesLoop 0 rest (setAttribute v attrs)

/-- All arguments of the control sequence. -/
def arguments (data : ControlData) : List Int := (List.range data.nargs).map data.getArg

def setAttributes (v : VTE) : VTE :=
  { v with cursor := { v.cursor with attrs := attributesLoop 0 (arguments v.csiData) v.cursor.attrs } }

/-- `ModeTableEntries`. -/
def modeTable : List (Int × Bool × TerminalFlag) :=
  [(2, false, .KAM), (4, false, .IRM), (12, false, .SRM), (20, false, .LNM), (1, true, .DECCKM),
   (2, true, .DECANM), (3, true, .DECCOLM), (4, true, .DECSCLM), (5, true, .DECSCNM), (6, true, .DECOM),
   (7, true, .DECAWM), (8, true, .DECARM), (18, true, .DECPFF), (19, true, .DECPEX), (25, true, .DECTCEM)]

def notify (flag : TerminalFlag) (v : VTE) : VTE :=
  match flag with
  | .KAM => notifyKAM v
  | .DECCOLM => notifyDECCOLM frontend v
  | .DECSCLM => notifyDECSCLM v
  | .DECSCNM => notifyDECSCNM v
  | .DECOM => notifyDECOM v
  | .DECTCEM => notifyTCEM v
  | _ => v

def modifyMode (decMode : Bool) (state : Bool) (v : VTE) (value : Int) : VTE :=
  match modeTable.find? fun entry => entry.1 = value && entry.2.1 = decMode with
  | some (_, _, flag) => notify frontend flag (setFlag flag state v)
  | none => v

/-- `set_modes` and `reset_modes`. -/
def changeModes (state : Bool) (v : VTE) : VTE :=
  (arguments v.csiData).foldl (modifyMode frontend v.csiData.decMode state) v

/-! ## Control characters -/

/-- `parse_string`. -/
def parseString (v : VTE) : VTE :=
  let v := match v.strData.stringType with
    | .osc =>
      let (found, data) := v.strData.parse 0 1
      if found = 1 then
        match atoi (data.getArg 0) with
        | 0 | 1 | 2 => emit (.setWindowTitle (data.getArg 1)) v
        | 4 =>
          let (found, data) := data.parse (data.args.getD 1 0) 1
          if found = 1 then emit (.defineColor (atoi (data.getArg 1)) (data.getArg 2)) v else v
        | 104 => emit (.resetColor (atoi (data.getArg 1))) v
        | _ => v
      else v
    | .title =>
      let (found, data) := v.strData.parse 0 1
      if found = 1 then emit (.setWindowTitle (data.getArg 0)) v else v
    | _ => v
  { v with strData := {} }

/-- `handle_string`: the new state, and whether the character was used up. -/
def handleString (c : uchar) (v : VTE) : VTE × Bool :=
  if c = 0x07 || c = 0x18 || c = 0x1a || c = 0x1b || isControlC1 c then
    ({ resetEscape v with strData := { v.strData with finished := true } }, false)
  else
    match v.strData.addChar c with
    | some data => ({ v with strData := data }, true)
    | none => ({ resetEscape v with strData := {} }, true)

/-- The start of a string of some type. -/
def openString (type : StringType) (v : VTE) : VTE :=
  { resetEscape v with strData := { stringType := type }, mode := .string }

inductive Control where
  | BEL | BS | HT | LF | CR | SO | SI | SUB | CAN | ESC | IND | NEL | HTS | RI | DCS | DECID | CSI | OSC | PM | APC
deriving DecidableEq, Repr

/-- The control characters of `handle_control` that do something. -/
def controlTable : List (uchar × Control) :=
  [(0x07, .BEL), (0x08, .BS), (0x09, .HT), (0x0a, .LF), (0x0b, .LF), (0x0d, .CR), (0x0e, .SO), (0x0f, .SI),
   (0x1a, .SUB), (0x18, .CAN), (0x1b, .ESC), (0x84, .IND), (0x85, .NEL), (0x88, .HTS), (0x8d, .RI),
   (0x90, .DCS), (0x9a, .DECID), (0x9b, .CSI), (0x9d, .OSC), (0x9e, .PM), (0x9f, .APC)]

def control (c : Control) (v : VTE) : VTE :=
  match c with
  | .BEL => resetEscape (if v.strData.finished then parseString v else emit .bell v)
  | .BS => moveCursor (v.cursor.x - 1) v.cursor.y v
  | .HT => moveCursor (frontend.getNextTab v.cursor.x 1) v.cursor.y v
  | .LF => nel v
  | .CR => if v.cursor.x ≠ 0 then moveCursor 0 v.cursor.y v else v
  | .SO => selectCharset 1 v
  | .SI => selectCharset 0 v
  | .SUB => { resetEscape (writeMark v) with strData := {} }
  | .CAN => { resetEscape v with strData := {} }
  | .ESC => { v with mode := .esc }
  | .IND => ind v
  | .NEL => resetEscape (nel v)
  | .HTS => emit (.setTab v.cursor.x) v
  | .RI => ri v
  | .DCS => openString .dcs v
  | .DECID => resetEscape (decid v)
  | .CSI => { resetEscape v with mode := .csi }
  | .OSC => openString .osc v
  | .PM => openString .pm v
  | .APC => openString .apc v

def handleControl (c : uchar) (v : VTE) : VTE :=
  match controlTable.lookup c with
  | some found => control frontend found v
  | none => v

/-! ## Escape sequences -/

inductive Escape where
  | CSI | HASH | UTF8 | DCS | APC | PM | OSC | title | LS2 | LS3 | IND | NEL | HTS | RI | DECID | RIS
  | DECPAM | DECPNM | DECSC | DECRC | charset (n : Nat) | ST
deriving DecidableEq, Repr

def escapeTable : List (uchar × Escape) :=
  [(byte '[', .CSI), (byte '#', .HASH), (byte '%', .UTF8), (byte 'P', .DCS), (byte '_', .APC), (byte '^', .PM),
   (byte ']', .OSC), (byte 'k', .title), (byte 'n', .LS2), (byte 'o', .LS3), (byte 'D', .IND), (byte 'E', .NEL),
   (byte 'H', .HTS), (byte 'M', .RI), (byte 'Z', .DECID), (byte 'c', .RIS), (byte '=', .DECPAM),
   (byte '>', .DECPNM), (byte '7', .DECSC), (byte '8', .DECRC), (byte '(', .charset 0), (byte ')', .charset 1),
   (byte '*', .charset 2), (byte '+', .charset 3), (byte '\\', .ST)]

/-- The cases of `handle_esc`. Those that return early stay in the mode that they set; the title
is not among them. -/
def escape (c : Escape) (v : VTE) : VTE :=
  match c with
  | .CSI => { resetEscape v with mode := .csi }
  | .HASH => { resetEscape v with mode := .hash }
  | .UTF8 => { resetEscape v with mode := .utf8 }
  | .DCS => openString .dcs v
  | .APC => openString .apc v
  | .PM => openString .pm v
  | .OSC => openString .osc v
  | .title => resetEscape (openString .title v)
  | .LS2 => resetEscape (selectCharset 2 v)
  | .LS3 => resetEscape (selectCharset 3 v)
  | .IND => resetEscape (ind v)
  | .NEL => resetEscape (nel v)
  | .HTS => resetEscape (emit (.setTab v.cursor.x) v)
  | .RI => resetEscape (ri v)
  | .DECID => resetEscape (decid v)
  | .RIS => resetEscape (ris v)
  | .DECPAM => resetEscape (notifyKPAM (setFlag .DECKPAM true v))
  | .DECPNM => resetEscape (notifyKPAM (setFlag .DECKPAM false v))
  | .DECSC => resetEscape (decsc v)
  | .DECRC => resetEscape (decrc v)
  | .charset n => { resetEscape v with definingCharset := n, mode := .charset }
  | .ST => resetEscape (if v.strData.finished then parseString v else v)

def handleEsc (c : uchar) (v : VTE) : VTE :=
  match escapeTable.lookup c with
  | some found => escape found v
  | none => resetEscape v

/-! ## Control sequences -/

inductive Final where
  | ICH | CUU | CUD | DA | CUF | CUB | CNL | CPL | TBC | CHA | CUP | CHT | ED | EL | SU | SD | IL | RM | DL | ECH
  | DCH | CBT | VPA | SM | SGR | DSR | DECSTBM | DECSC | DECRC
deriving DecidableEq, Repr

def finalTable : List (uchar × Final) :=
  [(byte '@', .ICH), (byte 'A', .CUU), (byte 'B', .CUD), (byte 'e', .CUD), (byte 'c', .DA), (byte 'C', .CUF),
   (byte 'a', .CUF), (byte 'D', .CUB), (byte 'E', .CNL), (byte 'F', .CPL), (byte 'g', .TBC), (byte 'G', .CHA),
   (byte '\x60', .CHA), (byte 'H', .CUP), (byte 'f', .CUP), (byte 'I', .CHT), (byte 'J', .ED), (byte 'K', .EL),
   (byte 'S', .SU), (byte 'T', .SD), (byte 'L', .IL), (byte 'l', .RM), (byte 'M', .DL), (byte 'X', .ECH),
   (byte 'P', .DCH), (byte 'Z', .CBT), (byte 'd', .VPA), (byte 'h', .SM), (byte 'm', .SGR), (byte 'n', .DSR),
   (byte 'r', .DECSTBM), (byte 's', .DECSC), (byte 'u', .DECRC)]

/-- An argument that counts from 1. -/
def count (v : VTE) (arg : Nat) : Int := getDefault (v.csiData.getArg arg) 1

/-- The erasing of `ED`. -/
def eraseDisplay (v : VTE) : VTE :=
  match v.csiData.getArg 0 with
  | 0 =>
    let erased := trmClearRegion v.cursor.x v.cursor.y (v.width - 1) v.cursor.y v
    if v.cursor.y < v.height - 1 then trmClearRegion 0 (v.cursor.y + 1) (v.width - 1) (v.height - 1) erased
    else erased
  | 1 =>
    let erased := if v.cursor.y > 0 then trmClearRegion 0 0 (v.width - 1) (v.cursor.y - 1) v else v
    trmClearRegion 0 v.cursor.y v.cursor.x v.cursor.y erased
  | 2 => trmClearRegion 0 0 (v.width - 1) (v.height - 1) v
  | _ => v

def eraseLine (v : VTE) : VTE :=
  match v.csiData.getArg 0 with
  | 0 => trmClearRegion v.cursor.x v.cursor.y (v.width - 1) v.cursor.y v
  | 1 => trmClearRegion 0 v.cursor.y v.cursor.x v.cursor.y v
  | 2 => trmClearRegion 0 v.cursor.y (v.width - 1) v.cursor.y v
  | _ => v

/-- The margins that `DECSTBM` asks for. -/
def requestedTop (v : VTE) : Int := count v 0 - 1

def requestedBottom (v : VTE) : Int := getDefault (v.csiData.getArg 1) v.height - 1

def setMargins (v : VTE) : VTE :=
  if v.csiData.decMode then v
  else if requestedBottom v > requestedTop v then
    moveCursorAbsolute 0 0 { v with top := requestedTop v, bottom := requestedBottom v }
  else v

/-- The cases of `handle_csi`. -/
def final (c : Final) (v : VTE) : VTE :=
  match c with
  | .ICH => trmInsertChars v.cursor.x (count v 0) v
  | .CUU => moveCursor v.cursor.x (setRange (wrap (v.cursor.y - count v 0)) v.top v.bottom) v
  | .CUD => moveCursor v.cursor.x (setRange (wrap (v.cursor.y + count v 0)) v.top v.bottom) v
  | .DA => if v.csiData.getArg 0 = 0 then decid v else v
  | .CUF => moveCursor (wrap (v.cursor.x + count v 0)) v.cursor.y v
  | .CUB => moveCursor (wrap (v.cursor.x - count v 0)) v.cursor.y v
  | .CNL => moveCursor 0 (wrap (v.cursor.y + count v 0)) v
  | .CPL => moveCursor 0 (wrap (v.cursor.y - count v 0)) v
  | .TBC =>
    match v.csiData.getArg 0 with
    | 0 => emit (.resetTab v.cursor.x) v
    | 3 => emit .clearTabs v
    | _ => v
  | .CHA => moveCursor (count v 0 - 1) v.cursor.y v
  | .CUP => moveCursorAbsolute (count v 1 - 1) (count v 0 - 1) v
  | .CHT => moveCursor (frontend.getNextTab v.cursor.x (count v 0)) v.cursor.y v
  | .ED => eraseDisplay v
  | .EL => eraseLine v
  | .SU => trmScrollUp v.top (count v 0) v
  | .SD => trmScrollDown v.top (count v 0) v
  | .IL => insertLines v.cursor.y (count v 0) v
  | .RM => changeModes frontend false v
  | .DL => deleteLines v.cursor.y (count v 0) v
  | .ECH => trmClearRegion v.cursor.x v.cursor.y (wrap (v.cursor.x + count v 0)) v.cursor.y v
  | .DCH => trmDeleteChars v.cursor.x (count v 0) v
  | .CBT => moveCursor (frontend.getNextTab v.cursor.x (-count v 0)) v.cursor.y v
  | .VPA => moveCursorAbsolute v.cursor.x (count v 0) v
  | .SM => changeModes frontend true v
  | .SGR => setAttributes v
  | .DSR =>
    match v.csiData.getArg 0 with
    | 5 => emit (.ttyWrite ("\x1b[0n".toList.map byte)) v
    | 6 => cpr v
    | _ => v
  | .DECSTBM => setMargins v
  | .DECSC => decsc v
  | .DECRC => decrc v

def handleCsi (c : uchar) (v : VTE) : VTE :=
  if v.csiData.spaceLeft then
    match v.csiData.addArg c with
    | some data => { v with csiData := data }
    | none =>
      match finalTable.lookup c with
      | some found => resetEscape (final frontend found v)
      | none => resetEscape v
  else resetEscape v

/-! ## The other modes -/

def hashTable : List (uchar × TextSize) :=
  [(byte '3', .topHalf), (byte '4', .bottomHalf), (byte '5', .normal), (byte '6', .doubleWidth)]

def handleHash (c : uchar) (v : VTE) : VTE :=
  match hashTable.lookup c with
  | some size => resetEscape (emit (.setLineTextSize v.cursor.y size) v)
  | none => if c = byte '8' then resetEscape (decaln v) else resetEscape v

def charsetTable : List (uchar × Charset) :=
  [(byte 'A', .uk), (byte 'B', .us), (byte '0', .g0), (byte 'U', .us), (byte 'K', .us)]

def handleCharset (c : uchar) (v : VTE) : VTE :=
  match charsetTable.lookup c with
  | some cs =>
    let table := Function.update v.cursor.charsetTable v.definingCharset cs
    resetEscape (emit (.defineCharset v.definingCharset cs)
      { v with cursor := { v.cursor with charsetTable := table } })
  | none => resetEscape v

def handleUtf8 (c : uchar) (v : VTE) : VTE :=
  if c = byte '@' then resetEscape (resetUtf8Buffer (setFlag .UTF8 false v))
  else if c = byte 'G' then resetEscape (resetUtf8Buffer (setFlag .UTF8 true v))
  else resetEscape v

/-- A byte of text. The buffer is decoded from its start each time. -/
def handleText (c : uchar) (v : VTE) : VTE :=
  if v.flags .UTF8 then
    if v.utf8Buffer.length = 7 then resetUtf8Buffer (writeMark v)
    else
      let v := { v with utf8Buffer := v.utf8Buffer ++ [c] }
      match utf8Scan v.utf8Buffer 0 0 with
      | some codepoint =>
        let width := frontend.getCharWidth codepoint
        if width < 1 then resetUtf8Buffer (writeChar 65533 2 v) else resetUtf8Buffer (writeChar codepoint width v)
      | none => v
  else if 31 < c && c < 127 then writeChar c.toUInt32 1 v
  else v

/-- The part of `process` after a string has had its chance. -/
def dispatch (c : uchar) (v : VTE) : VTE :=
  if v.utf8Buffer.isEmpty && isControl c then handleControl frontend c v
  else
    match v.mode with
    | .esc => handleEsc c v
    | .csi => handleCsi frontend c v
    | .hash => handleHash c v
    | .charset => handleCharset c v
    | .utf8 => handleUtf8 c v
    | .ground | .string => handleText frontend c v

/-- `VTE::process` on one byte. -/
def process (v : VTE) (c : uchar) : VTE :=
  let v := { v with events := [] }
  if v.mode = .string then
    let (v, used) := handleString c v
    if used then v else dispatch frontend c v
  else dispatch frontend c v

end Woterm.Terminal.Vte
