import Woterm.Konsole.Screen

/-!
The terminal (`Emulation.cpp`, `Vt102Emulation.cpp`): characters are put together to codes, and a code acts on one of two
screens or on the emulation itself. The input are characters that have been decoded. What is emitted is kept in a list.
-/

namespace Woterm.Konsole
open Woterm.Konsole.History

/-! ## Operations of a screen -/

/-- The operations that codes call, with their arguments. -/
inductive Screen.Op where
  | displayCharacter (c : WChar)
  | backspace
  | tab (n : Nat)
  | backtab (n : Nat)
  | newLine
  | toStartOfLine
  | index
  | nextLine
  | reverseIndex
  | changeTabStop (set : Bool)
  | clearTabStops
  | setLineProperty (property : UInt8) (enable : Bool)
  | helpAlign
  | clearToEndOfLine
  | clearToBeginOfLine
  | clearEntireLine
  | clearToEndOfScreen
  | clearToBeginOfScreen
  | clearEntireScreen
  | setMode (m : Mode)
  | resetMode (m : Mode)
  | saveMode (m : Mode)
  | restoreMode (m : Mode)
  | setDefaultRendition
  | setRendition (re : Nat)
  | resetRendition (re : Nat)
  | setForeColor (space : ColorSpace) (color : Nat)
  | setBackColor (space : ColorSpace) (color : Nat)
  | insertChars (n : Nat)
  | deleteChars (n : Nat)
  | eraseChars (n : Nat)
  | repeatChars (count : Nat)
  | insertLines (n : Nat)
  | deleteLines (n : Nat)
  | scrollUp (n : Nat)
  | scrollDown (n : Nat)
  | cursorUp (n : Nat)
  | cursorDown (n : Nat)
  | cursorRight (n : Nat)
  | cursorLeft (n : Nat)
  | setCursorX (x : Int)
  | setCursorY (y : Int)
  | setCursorYX (y x : Int)
  | setMargins (top bot : Nat)
  | setDefaultMargins
  | saveCursor
  | restoreCursor
  | clearSelection
  | reset
deriving DecidableEq, Repr

def Screen.Op.run : Screen.Op → Screen → Option Screen
  | .displayCharacter c, s => s.displayCharacter c
  | .backspace, s => s.backspace
  | .tab n, s => s.tab n
  | .backtab n, s => s.backtab n
  | .newLine, s => s.newLine
  | .toStartOfLine, s => some s.toStartOfLine
  | .index, s => s.index
  | .nextLine, s => s.nextLine
  | .reverseIndex, s => s.reverseIndex
  | .changeTabStop set, s => s.changeTabStop set
  | .clearTabStops, s => s.clearTabStops
  | .setLineProperty property enable, s => s.setLineProperty property enable
  | .helpAlign, s => s.helpAlign
  | .clearToEndOfLine, s => s.clearToEndOfLine
  | .clearToBeginOfLine, s => s.clearToBeginOfLine
  | .clearEntireLine, s => s.clearEntireLine
  | .clearToEndOfScreen, s => s.clearToEndOfScreen
  | .clearToBeginOfScreen, s => s.clearToBeginOfScreen
  | .clearEntireScreen, s => s.clearEntireScreen
  | .setMode m, s => some (s.setMode m)
  | .resetMode m, s => some (s.resetMode m)
  | .saveMode m, s => some (s.saveMode m)
  | .restoreMode m, s => some (s.restoreMode m)
  | .setDefaultRendition, s => some s.setDefaultRendition
  | .setRendition re, s => some (s.setRendition re)
  | .resetRendition re, s => some (s.resetRendition re)
  | .setForeColor space color, s => some (s.setForeColor space color)
  | .setBackColor space color, s => some (s.setBackColor space color)
  | .insertChars n, s => s.insertChars n
  | .deleteChars n, s => s.deleteChars n
  | .eraseChars n, s => s.eraseChars n
  | .repeatChars count, s => s.repeatChars count
  | .insertLines n, s => s.insertLines n
  | .deleteLines n, s => s.deleteLines n
  | .scrollUp n, s => s.scrollUp n
  | .scrollDown n, s => s.scrollDown n
  | .cursorUp n, s => some (s.cursorUp n)
  | .cursorDown n, s => some (s.cursorDown n)
  | .cursorRight n, s => some (s.cursorRight n)
  | .cursorLeft n, s => some (s.cursorLeft n)
  | .setCursorX x, s => some (s.setCursorX x)
  | .setCursorY y, s => some (s.setCursorY y)
  | .setCursorYX y x, s => some (s.setCursorYX y x)
  | .setMargins top bot, s => some (s.setMargins top bot)
  | .setDefaultMargins, s => some s.setDefaultMargins
  | .saveCursor, s => some s.saveCursor
  | .restoreCursor, s => some s.restoreCursor
  | .clearSelection, s => some s.clearSelection
  | .reset, s => s.reset

/-! ## The state of the emulation -/

/-- The modes of the emulation, those of a screen among them. -/
inductive EmulationMode where
  | screen (m : Mode)
  | appScreen
  | appCuKeys
  | appKeyPad
  | mouse1000
  | mouse1001
  | mouse1002
  | mouse1003
  | mouse1005
  | mouse1006
  | mouse1015
  | ansi
  | columns132
  | allow132Columns
  | bracketedPaste
deriving DecidableEq, Repr

/-- The last character set gets no letter, since `qstrncpy` ends the text there. -/
structure CharCodes where
  charset : List Char := ['B', 'B', 'B', '\x00']
  cuCs : Nat := 0
  graphic : Bool := false
  pound : Bool := false
  saGraphic : Bool := false
  saPound : Bool := false
deriving DecidableEq, Repr

def CharCodes.designate (charset : CharCodes) (n : Nat) (cs : Char) : CharCodes :=
  { charset with charset := charset.charset.set (n % 4) cs }

inductive CursorShape where
  | block
  | underline
  | iBeam
deriving DecidableEq, Repr

/-- What is emitted. -/
inductive Event where
  | sendData (data : String)
  | bell
  | windowAttributeArrived (which : Nat) (value : List WChar)
  | imageSizeChanged (lines columns : Nat)
  | imageResizeRequest (columns lines : Nat)
  | changeTabTextColorRequest (color : Nat)
  | cursorChanged (shape : CursorShape) (blinking : Bool)
  | programUsesMouseChanged (usesMouse : Bool)
  | programBracketedPasteModeChanged (on : Bool)
  | setCodec (utf8 : Bool)
deriving DecidableEq, Repr

def MAX_TOKEN_LENGTH : Nat := 256
def MAXARGS : Nat := 15
def MAX_ARGUMENT : Nat := 4096

/-- The token that is being read, with its arguments. -/
structure Tokenizer where
  tokenBuffer : List WChar := List.replicate MAX_TOKEN_LENGTH 0
  tokenBufferPos : Nat := 0
  argv : List Nat := List.replicate MAXARGS 0
  argc : Nat := 0
  prevCC : WChar := 0
deriving DecidableEq, Repr

/-- The size that fits in all views that are shown and have two lines and two columns at least. -/
structure ViewSize where
  lines : Nat
  columns : Nat
  two_lines : 2 ≤ lines
  two_columns : 2 ≤ columns
deriving DecidableEq, Repr

structure Emulation where
  screen0 : Screen
  screen1 : Screen
  /-- The second screen is the current one. -/
  onAlternate : Bool := false
  currentModes : EmulationMode → Bool := fun _ => false
  savedModes : EmulationMode → Bool := fun _ => false
  charset0 : CharCodes := {}
  charset1 : CharCodes := {}
  tokenizer : Tokenizer := {}
  reportFocusEvents : Bool := false
  events : List Event := []
  /-- The size that the session takes from its views, if one of them counts. -/
  views : Option ViewSize := none

namespace Emulation

def currentScreen (e : Emulation) : Screen := if e.onAlternate then e.screen1 else e.screen0

def onScreen0 (op : Screen → Option Screen) (e : Emulation) : Option Emulation := do
  return { e with screen0 := ← op e.screen0 }

def onScreen1 (op : Screen → Option Screen) (e : Emulation) : Option Emulation := do
  return { e with screen1 := ← op e.screen1 }

def onCurrent (op : Screen → Option Screen) (e : Emulation) : Option Emulation :=
  if e.onAlternate then e.onScreen1 op else e.onScreen0 op

def onBoth (op : Screen → Option Screen) (e : Emulation) : Option Emulation := do
  let e ← e.onScreen0 op
  e.onScreen1 op

def emit (event : Event) (e : Emulation) : Emulation := { e with events := e.events ++ [event] }

/-! ## The size of the screens, and the history -/

/-- Both screens have a size already. -/
def Sized (e : Emulation) (lines columns : Nat) : Prop :=
  lines = e.screen0.lines ∧ columns = e.screen0.columns ∧ lines = e.screen1.lines ∧ columns = e.screen1.columns

instance (e : Emulation) (lines columns : Nat) : Decidable (e.Sized lines columns) := inferInstanceAs (Decidable (_ ∧ _))

def resizeScreens (lines columns : Nat) (e : Emulation) : Option Emulation := do
  let e ← e.onBoth fun s => s.resizeImage lines columns
  return e.emit (.imageSizeChanged lines columns)

/-- The slot `updateTerminalSize` of the session, which is called at once. Its own signal finds the size already set. -/
def updateTerminalSize (e : Emulation) : Option Emulation :=
  match e.views with
  | none => some e
  | some view => if e.Sized view.lines view.columns then some e else e.resizeScreens view.lines view.columns

def setImageSize (lines columns : Nat) (e : Emulation) : Option Emulation :=
  if lines < 1 ∨ columns < 1 then some e
  else if e.Sized lines columns then some e
  else do
    let e ← e.resizeScreens lines columns
    e.updateTerminalSize

/-- An empty history of the same type. -/
def renewed : HistoryScroll → Option HistoryScroll
  | .none => some .none
  | .file => some .file
  | .buffer h => (HistoryScrollBuffer.new h.maxLineCount).map .buffer

/-- `setScroll` with the type that the history has. -/
def renewScroll (s : Screen) : Option Screen := do return s.clearSelection.withHistory (← renewed s.history)

def clearHistory (e : Emulation) : Option Emulation := e.onScreen0 renewScroll

/-! ## Character sets -/

def vt100_graphics : List WChar := [
  0x0020, 0x25C6, 0x2592, 0x2409, 0x240c, 0x240d, 0x240a, 0x00b0,
  0x00b1, 0x2424, 0x240b, 0x2518, 0x2510, 0x250c, 0x2514, 0x253c,
  0xF800, 0xF801, 0x2500, 0xF803, 0xF804, 0x251c, 0x2524, 0x2534,
  0x252c, 0x2502, 0x2264, 0x2265, 0x03C0, 0x2260, 0x00A3, 0x00b7]

/-- The character set of the current screen. -/
def charset (e : Emulation) : CharCodes := if e.onAlternate then e.charset1 else e.charset0

def withCharset (f : CharCodes → CharCodes) (e : Emulation) : Emulation :=
  if e.onAlternate then { e with charset1 := f e.charset1 } else { e with charset0 := f e.charset0 }

def applyCharset (e : Emulation) (c : WChar) : WChar :=
  if e.charset.graphic ∧ 0x5f ≤ c ∧ c ≤ 0x7e then vt100_graphics.getD (c - 0x5f) 0
  else if e.charset.pound ∧ c = 0x23 then 0xa3
  else c

def useCharset (n : Nat) (e : Emulation) : Emulation :=
  e.withCharset fun charset =>
    { charset with
      cuCs := n % 4, graphic := charset.charset.getD (n % 4) ' ' == '0', pound := charset.charset.getD (n % 4) ' ' == 'A' }

/-- Both screens get the character set, but it is the current one that uses the numbers of both. -/
def setCharset (n : Nat) (cs : Char) (e : Emulation) : Emulation :=
  let e := useCharset e.charset0.cuCs { e with charset0 := e.charset0.designate n cs }
  useCharset e.charset1.cuCs { e with charset1 := e.charset1.designate n cs }

def setAndUseCharset (n : Nat) (cs : Char) (e : Emulation) : Emulation :=
  (e.withCharset fun charset => charset.designate n cs).useCharset (n % 4)

def saveCursor (e : Emulation) : Option Emulation :=
  (e.withCharset fun charset => { charset with saGraphic := charset.graphic, saPound := charset.pound }).onCurrent
    fun s => some s.saveCursor

def restoreCursor (e : Emulation) : Option Emulation :=
  (e.withCharset fun charset => { charset with graphic := charset.saGraphic, pound := charset.saPound }).onCurrent
    fun s => some s.restoreCursor

/-! ## Modes -/

def getMode (e : Emulation) (m : EmulationMode) : Bool := e.currentModes m

def withMode (m : EmulationMode) (value : Bool) (e : Emulation) : Emulation :=
  { e with currentModes := Function.update e.currentModes m value }

def clearScreenAndSetColumns (columnCount : Nat) (e : Emulation) : Option Emulation := do
  let e ← e.setImageSize e.currentScreen.lines columnCount
  let e ← e.onCurrent Screen.clearEntireScreen
  let e ← e.onBoth fun s => some s.setDefaultMargins
  e.onCurrent fun s => some (s.setCursorYX 0 0)

def setMode (m : EmulationMode) (e : Emulation) : Option Emulation :=
  let e := e.withMode m true
  match m with
  | .screen m => e.onBoth fun s => some (s.setMode m)
  | .columns132 =>
    if e.getMode .allow132Columns then e.clearScreenAndSetColumns 132 else some (e.withMode .columns132 false)
  | .mouse1000 | .mouse1001 | .mouse1002 | .mouse1003 => some (e.emit (.programUsesMouseChanged false))
  | .bracketedPaste => some (e.emit (.programBracketedPasteModeChanged true))
  | .appScreen => some { e with screen1 := e.screen1.clearSelection, onAlternate := true }
  | _ => some e

def resetMode (m : EmulationMode) (e : Emulation) : Option Emulation :=
  let e := e.withMode m false
  match m with
  | .screen m => e.onBoth fun s => some (s.resetMode m)
  | .columns132 => if e.getMode .allow132Columns then e.clearScreenAndSetColumns 80 else some e
  | .mouse1000 | .mouse1001 | .mouse1002 | .mouse1003 => some (e.emit (.programUsesMouseChanged true))
  | .bracketedPaste => some (e.emit (.programBracketedPasteModeChanged false))
  | .appScreen => some { e with screen0 := e.screen0.clearSelection, onAlternate := false }
  | _ => some e

def saveMode (m : EmulationMode) (e : Emulation) : Emulation :=
  { e with savedModes := Function.update e.savedModes m (e.currentModes m) }

def restoreMode (m : EmulationMode) (e : Emulation) : Option Emulation :=
  if e.savedModes m then e.setMode m else e.resetMode m

/-- The modes that are reset and saved. -/
def resettable : List EmulationMode := [
  .columns132, .mouse1000, .mouse1001, .mouse1002, .mouse1003, .mouse1005, .mouse1006, .mouse1015, .bracketedPaste,
  .appScreen, .appCuKeys, .appKeyPad]

def resetModes (e : Emulation) : Option Emulation := do
  let e ← resettable.foldlM (fun e m => do
    let e ← e.resetMode m
    return e.saveMode m) e
  let e ← e.resetMode (.screen .newLine)
  e.setMode .ansi

/-! ## Codes -/

/-- The codes, with the parts of a character that they keep. -/
inductive Token where
  | chr
  | ctl (a : Char)
  | esc (a : Char)
  | escCs (a b : Char)
  | escDe (a : Char)
  | csiPs (a : Char) (n : Nat)
  | csiPn (a : Char)
  | csiPr (a : Char) (n : Nat)
  | csiPsSp (a : Char) (n : Nat)
  | vt52 (a : Char)
  | csiPg (a : Char)
  | csiPe (a : Char)
deriving DecidableEq, Repr

/-- The lowest byte of a character. -/
def low (c : WChar) : Char := Char.ofNat (c % 0x100)

/-- What a code does. -/
inductive Action where
  | current (op : Screen.Op)
  | alternate (op : Screen.Op)
  | both (op : Screen.Op)
  | signal (event : Event)
  | reportTerminalType
  | reportSecondaryAttributes
  | reportStatus
  | reportCursorPosition
  | reportTerminalParms (p : Nat)
  | reportAnswerBack
  | reportFocusEvents (on : Bool)
  | reset
  | useCharset (n : Nat)
  | setCharset (n : Nat) (cs : Char)
  | setAndUseCharset (n : Nat) (cs : Char)
  | saveCursor
  | restoreCursor
  | setMode (m : EmulationMode)
  | resetMode (m : EmulationMode)
  | saveMode (m : EmulationMode)
  | restoreMode (m : EmulationMode)
  | setImageSize (lines columns : Nat)
  | clearHistory
deriving DecidableEq, Repr

def controlActions : Char → List Action
  | 'E' => [.reportAnswerBack]
  | 'G' => [.signal .bell]
  | 'H' => [.current .backspace]
  | 'I' => [.current (.tab 1)]
  | 'J' | 'K' | 'L' => [.current .newLine]
  | 'M' => [.current .toStartOfLine]
  | 'N' => [.useCharset 1]
  | 'O' => [.useCharset 0]
  | 'X' | 'Z' => [.current (.displayCharacter 0x2592)]
  | _ => []

def escapeActions : Char → List Action
  | 'D' => [.current .index]
  | 'E' => [.current .nextLine]
  | 'H' => [.current (.changeTabStop true)]
  | 'M' => [.current .reverseIndex]
  | 'Z' => [.reportTerminalType]
  | 'c' => [.reset]
  | 'n' => [.useCharset 2]
  | 'o' => [.useCharset 3]
  | '7' => [.saveCursor]
  | '8' => [.restoreCursor]
  | '=' => [.setMode .appKeyPad]
  | '>' => [.resetMode .appKeyPad]
  | '<' => [.setMode .ansi]
  | _ => []

def charsetActions (group cs : Char) : List Action :=
  match group with
  | '(' => designate 0
  | ')' => designate 1
  | '*' => designate 2
  | '+' => designate 3
  | '%' => if cs = 'G' then [.signal (.setCodec true)] else if cs = '@' then [.signal (.setCodec false)] else []
  | _ => []
where
  designate (n : Nat) : List Action := if cs = '0' ∨ cs = 'A' ∨ cs = 'B' then [.setCharset n cs] else []

def lineActions : Char → List Action
  | '3' | '4' => lineSize true true
  | '5' => lineSize false false
  | '6' => lineSize true false
  | '8' => [.current .helpAlign]
  | _ => []
where
  lineSize (wide high : Bool) : List Action :=
    [.current (.setLineProperty LINE_DOUBLEWIDTH wide), .current (.setLineProperty LINE_DOUBLEHEIGHT high)]

/-- Colors and renditions, by their numbers. -/
def renditionActions (n p q : Nat) : List Action :=
  if 30 ≤ n ∧ n ≤ 37 then [.current (.setForeColor .system (n - 30))]
  else if 40 ≤ n ∧ n ≤ 47 then [.current (.setBackColor .system (n - 40))]
  else if 90 ≤ n ∧ n ≤ 97 then [.current (.setForeColor .system (n - 90 + 8))]
  else if 100 ≤ n ∧ n ≤ 107 then [.current (.setBackColor .system (n - 100 + 8))]
  else match n with
    | 0 => [.current .setDefaultRendition]
    | 1 => [.current (.setRendition RE_BOLD)]
    | 2 => [.current (.setRendition RE_FAINT)]
    | 3 => [.current (.setRendition RE_ITALIC)]
    | 4 => [.current (.setRendition RE_UNDERLINE)]
    | 5 => [.current (.setRendition RE_BLINK)]
    | 7 => [.current (.setRendition RE_REVERSE)]
    | 8 => [.current (.setRendition RE_CONCEAL)]
    | 9 => [.current (.setRendition RE_STRIKEOUT)]
    | 53 => [.current (.setRendition RE_OVERLINE)]
    | 21 => [.current (.resetRendition RE_BOLD)]
    | 22 => [.current (.resetRendition RE_BOLD), .current (.resetRendition RE_FAINT)]
    | 23 => [.current (.resetRendition RE_ITALIC)]
    | 24 => [.current (.resetRendition RE_UNDERLINE)]
    | 25 => [.current (.resetRendition RE_BLINK)]
    | 27 => [.current (.resetRendition RE_REVERSE)]
    | 28 => [.current (.resetRendition RE_CONCEAL)]
    | 29 => [.current (.resetRendition RE_STRIKEOUT)]
    | 55 => [.current (.resetRendition RE_OVERLINE)]
    | 38 => [.current (.setForeColor (.ofCode p) q)]
    | 39 => [.current (.setForeColor .default 0)]
    | 48 => [.current (.setBackColor (.ofCode p) q)]
    | 49 => [.current (.setBackColor .default 1)]
    | _ => []

def namedActions (a : Char) (n p q : Nat) : List Action :=
  match a with
  | 't' =>
    if n = 8 then [.setImageSize p q, .signal (.imageResizeRequest q p)]
    else if n = 28 then [.signal (.changeTabTextColorRequest p)]
    else []
  | 'K' =>
    match n with
    | 0 => [.current .clearToEndOfLine]
    | 1 => [.current .clearToBeginOfLine]
    | 2 => [.current .clearEntireLine]
    | _ => []
  | 'J' =>
    match n with
    | 0 => [.current .clearToEndOfScreen]
    | 1 => [.current .clearToBeginOfScreen]
    | 2 => [.current .clearEntireScreen]
    | 3 => [.clearHistory]
    | _ => []
  | 'g' => if n = 0 then [.current (.changeTabStop false)] else if n = 3 then [.current .clearTabStops] else []
  | 'h' => if n = 4 then [.current (.setMode .insert)] else if n = 20 then [.setMode (.screen .newLine)] else []
  | 'l' => if n = 4 then [.current (.resetMode .insert)] else if n = 20 then [.resetMode (.screen .newLine)] else []
  | 's' => if n = 0 then [.saveCursor] else []
  | 'u' => if n = 0 then [.restoreCursor] else []
  | 'm' => renditionActions n p q
  | 'n' => if n = 5 then [.reportStatus] else if n = 6 then [.reportCursorPosition] else []
  | 'x' => if n = 0 then [.reportTerminalParms 2] else if n = 1 then [.reportTerminalParms 3] else []
  | _ => []

def cursorActions : Nat → List Action
  | 0 | 1 => [.signal (.cursorChanged .block true)]
  | 2 => [.signal (.cursorChanged .block false)]
  | 3 => [.signal (.cursorChanged .underline true)]
  | 4 => [.signal (.cursorChanged .underline false)]
  | 5 => [.signal (.cursorChanged .iBeam true)]
  | 6 => [.signal (.cursorChanged .iBeam false)]
  | _ => []

def numberedActions (a : Char) (p q : Nat) : List Action :=
  match a with
  | '@' => [.current (.insertChars p)]
  | 'A' => [.current (.cursorUp p)]
  | 'B' => [.current (.cursorDown p)]
  | 'C' => [.current (.cursorRight p)]
  | 'D' => [.current (.cursorLeft p)]
  | 'G' => [.current (.setCursorX p)]
  | 'H' | 'f' => [.current (.setCursorYX p q)]
  | 'I' => [.current (.tab p)]
  | 'L' => [.current (.insertLines p)]
  | 'M' => [.current (.deleteLines p)]
  | 'P' => [.current (.deleteChars p)]
  | 'S' => [.current (.scrollUp p)]
  | 'T' => [.current (.scrollDown p)]
  | 'X' => [.current (.eraseChars p)]
  | 'Z' => [.current (.backtab p)]
  | 'b' => [.current (.repeatChars p)]
  | 'c' => [.reportTerminalType]
  | 'd' => [.current (.setCursorY p)]
  | 'r' => [.both (.setMargins p q)]
  | _ => []

/-- A mode of the emulation that is set, reset, saved or restored. -/
def modeActions (a : Char) (m : EmulationMode) : List Action :=
  match a with
  | 'h' => [.setMode m]
  | 'l' => [.resetMode m]
  | 's' => [.saveMode m]
  | 'r' => [.restoreMode m]
  | _ => []

/-- A mode of the current screen. -/
def screenModeActions (a : Char) (m : Mode) : List Action :=
  match a with
  | 'h' => [.current (.setMode m)]
  | 'l' => [.current (.resetMode m)]
  | 's' => [.current (.saveMode m)]
  | 'r' => [.current (.restoreMode m)]
  | _ => []

def privateActions (a : Char) (n : Nat) : List Action :=
  match n with
  | 1 => modeActions a .appCuKeys
  | 2 => if a = 'l' then [.resetMode .ansi] else []
  | 3 => if a = 'h' ∨ a = 'l' then modeActions a .columns132 else []
  | 5 => if a = 'h' ∨ a = 'l' then screenModeActions a .screen else []
  | 6 => screenModeActions a .origin
  | 7 => screenModeActions a .wrap
  | 25 => modeActions a (.screen .cursor)
  | 40 => if a = 'h' ∨ a = 'l' then modeActions a .allow132Columns else []
  | 47 => modeActions a .appScreen
  | 1000 => modeActions a .mouse1000
  | 1001 => if a = 'l' then [.resetMode .mouse1001] else []
  | 1002 => modeActions a .mouse1002
  | 1003 => modeActions a .mouse1003
  | 1004 => if a = 'h' then [.reportFocusEvents true] else if a = 'l' then [.reportFocusEvents false] else []
  | 1005 => modeActions a .mouse1005
  | 1006 => modeActions a .mouse1006
  | 1015 => modeActions a .mouse1015
  | 1047 =>
    if a = 'l' then [.alternate .clearEntireScreen, .resetMode .appScreen] else modeActions a .appScreen
  | 1048 => if a = 'h' ∨ a = 's' then [.saveCursor] else if a = 'l' ∨ a = 'r' then [.restoreCursor] else []
  | 1049 =>
    if a = 'h' then [.saveCursor, .alternate .clearEntireScreen, .setMode .appScreen]
    else if a = 'l' then [.resetMode .appScreen, .restoreCursor]
    else []
  | 2004 => modeActions a .bracketedPaste
  | _ => []

/-- The characters behind `Y` are from the blank on. -/
def vt52Actions (a : Char) (p q : Nat) : List Action :=
  match a with
  | 'A' => [.current (.cursorUp 1)]
  | 'B' => [.current (.cursorDown 1)]
  | 'C' => [.current (.cursorRight 1)]
  | 'D' => [.current (.cursorLeft 1)]
  | 'F' => [.setAndUseCharset 0 '0']
  | 'G' => [.setAndUseCharset 0 'B']
  | 'H' => [.current (.setCursorYX 1 1)]
  | 'I' => [.current .reverseIndex]
  | 'J' => [.current .clearToEndOfScreen]
  | 'K' => [.current .clearToEndOfLine]
  | 'Y' => [.current (.setCursorYX ((p : Int) - 31) ((q : Int) - 31))]
  | 'Z' => [.reportTerminalType]
  | '<' => [.setMode .ansi]
  | '=' => [.setMode .appKeyPad]
  | '>' => [.resetMode .appKeyPad]
  | _ => []

/-- What a code with two arguments does. -/
def actions (token : Token) (p q : Nat) : List Action :=
  match token with
  | .chr => [.current (.displayCharacter p)]
  | .ctl a => controlActions a
  | .esc a => escapeActions a
  | .escCs a b => charsetActions a b
  | .escDe a => lineActions a
  | .csiPs a n => namedActions a n p q
  | .csiPn a => numberedActions a p q
  | .csiPr a n => privateActions a n
  | .csiPsSp a n => if a = 'q' then cursorActions n else []
  | .vt52 a => vt52Actions a p q
  | .csiPg a => if a = 'c' then [.reportSecondaryAttributes] else []
  | .csiPe _ => []

/-! ## The tokenizer -/

end Emulation

/-! Classes of characters. -/

def isCPN (c : WChar) : Bool := c < 256 && (Char.ofNat c) ∈ "@ABCDGHILMPSTXZbcdfry".toList
def isDIG (c : WChar) : Bool := 0x30 ≤ c && c ≤ 0x39
def isSCS (c : WChar) : Bool := c < 256 && (Char.ofNat c) ∈ "()+*%".toList
def isGRP (c : WChar) : Bool := c < 256 && (Char.ofNat c) ∈ "()+*#[]%".toList

def ESC : WChar := 27

namespace Tokenizer

def resetTokenizer (t : Tokenizer) : Option Tokenizer := do
  let argv ← store t.argv 0 0
  let argv ← store argv 1 0
  return { t with tokenBufferPos := 0, argc := 0, argv, prevCC := 0 }

def addDigit (digit : Nat) (t : Tokenizer) : Option Tokenizer := do
  let value ← t.argv[t.argc]?
  if value < MAX_ARGUMENT then return { t with argv := ← store t.argv t.argc (10 * value + digit) }
  return t

def addArgument (t : Tokenizer) : Option Tokenizer := do
  let argc := min (t.argc + 1) (MAXARGS - 1)
  return { t with argc, argv := ← store t.argv argc 0 }

def addToCurrentToken (cc : WChar) (t : Tokenizer) : Option Tokenizer := do
  return { t with
    tokenBuffer := ← store t.tokenBuffer t.tokenBufferPos cc
    tokenBufferPos := min (t.tokenBufferPos + 1) (MAX_TOKEN_LENGTH - 1) }

/-- One of the first characters of the token, of which there are always more than are asked for. -/
def tok (t : Tokenizer) (i : Nat) : WChar := t.tokenBuffer.getD i 0

/-- A text for the window is read. -/
def Xpe (t : Tokenizer) : Prop := t.tokenBufferPos ≥ 2 ∧ t.tok 1 = ']'.toNat

/-- The text ends with this character. -/
def Xte (t : Tokenizer) (cc : WChar) : Prop := t.Xpe ∧ (cc = 7 ∨ t.prevCC = 27 ∧ cc = 92)

/-- `eps`: a sequence without `?`, `!` or `>` ends with a character of some class. -/
def endsWith (t : Tokenizer) (final : Bool) : Prop :=
  t.tokenBufferPos ≥ 3 ∧ t.tok 2 ≠ '?'.toNat ∧ t.tok 2 ≠ '!'.toNat ∧ t.tok 2 ≠ '>'.toNat ∧ final = true

instance (t : Tokenizer) : Decidable t.Xpe := inferInstanceAs (Decidable (_ ∧ _))
instance (t : Tokenizer) (cc : WChar) : Decidable (t.Xte cc) := inferInstanceAs (Decidable (_ ∧ _))
instance (t : Tokenizer) (final : Bool) : Decidable (t.endsWith final) := inferInstanceAs (Decidable (_ ∧ _))

/-- The number at the start of a text for the window, up to the first character that is no digit. -/
def attributeFrom (t : Tokenizer) (fuel i attributeToChange : Nat) : Option (Nat × Nat) :=
  match fuel with
  | 0 => some (i, attributeToChange)
  | fuel + 1 =>
    if i < t.tokenBufferPos then do
      let c ← t.tokenBuffer[i]?
      if isDIG c then t.attributeFrom fuel (i + 1) ((10 * attributeToChange + (c - 0x30)) % 0x100000000)
      else return (i, attributeToChange)
    else some (i, attributeToChange)

end Tokenizer

namespace Emulation

def withTokenizer (t : Tokenizer) (e : Emulation) : Emulation := { e with tokenizer := t }

def onTokenizer (op : Tokenizer → Option Tokenizer) (e : Emulation) : Option Emulation := do
  return e.withTokenizer (← op e.tokenizer)

def resetTokenizer (e : Emulation) : Option Emulation := e.onTokenizer Tokenizer.resetTokenizer

def resetCharset (n : Nat) (e : Emulation) : Emulation :=
  if n = 0 then { e with charset0 := {} } else { e with charset1 := {} }

def reset (e : Emulation) : Option Emulation := do
  let e ← e.resetTokenizer
  let e ← e.resetModes
  let e ← (e.resetCharset 0).onScreen0 Screen.reset
  let e ← (e.resetCharset 1).onScreen1 Screen.reset
  return e.emit (.setCodec false)

def sendString (s : String) (e : Emulation) : Emulation := e.emit (.sendData s)

def reportCursorPosition (e : Emulation) : Emulation :=
  e.sendString s!"\x1b[{e.currentScreen.cuY + 1};{e.currentScreen.cuX + 1}R"

def reportTerminalType (e : Emulation) : Emulation :=
  e.sendString (if e.getMode .ansi then "\x1b[?1;2c" else "\x1b/Z")

def reportSecondaryAttributes (e : Emulation) : Emulation :=
  e.sendString (if e.getMode .ansi then "\x1b[>0;115;0c" else "\x1b/Z")

def reportTerminalParms (p : Nat) (e : Emulation) : Emulation := e.sendString s!"\x1b[{p};1;1;112;112;1;0x"

def reportStatus (e : Emulation) : Emulation := e.sendString "\x1b[0n"

def reportAnswerBack (e : Emulation) : Emulation := e.sendString ""

def Action.run : Action → Emulation → Option Emulation
  | .current op, e => e.onCurrent op.run
  | .alternate op, e => e.onScreen1 op.run
  | .both op, e => e.onBoth op.run
  | .signal event, e => some (e.emit event)
  | .reportTerminalType, e => some e.reportTerminalType
  | .reportSecondaryAttributes, e => some e.reportSecondaryAttributes
  | .reportStatus, e => some e.reportStatus
  | .reportCursorPosition, e => some e.reportCursorPosition
  | .reportTerminalParms p, e => some (e.reportTerminalParms p)
  | .reportAnswerBack, e => some e.reportAnswerBack
  | .reportFocusEvents on, e => some { e with reportFocusEvents := on }
  | .reset, e => e.reset
  | .useCharset n, e => some (e.useCharset n)
  | .setCharset n cs, e => some (e.setCharset n cs)
  | .setAndUseCharset n cs, e => some (e.setAndUseCharset n cs)
  | .saveCursor, e => e.saveCursor
  | .restoreCursor, e => e.restoreCursor
  | .setMode m, e => e.setMode m
  | .resetMode m, e => e.resetMode m
  | .saveMode m, e => some (e.saveMode m)
  | .restoreMode m, e => e.restoreMode m
  | .setImageSize lines columns, e => e.setImageSize lines columns
  | .clearHistory, e => e.clearHistory

def processToken (token : Token) (p q : Nat) (e : Emulation) : Option Emulation :=
  (actions token p q).foldlM (fun e action => action.run e) e

/-! ## Characters -/

def processWindowAttributeChange (e : Emulation) : Option Emulation := do
  let t := e.tokenizer
  let (i, attributeToChange) ← t.attributeFrom MAX_TOKEN_LENGTH 2 0
  if (← t.tokenBuffer[i]?) ≠ ';'.toNat then return e
  let value ← (List.range (t.tokenBufferPos - i - 2)).mapM fun j => t.tokenBuffer[i + 1 + j]?
  return e.emit (.windowAttributeArrived attributeToChange value)

/-- The arguments of a sequence from some number on, each as a code of its own. There are no more than `MAXARGS`. -/
def dispatch (cc : WChar) (fuel i : Nat) (e : Emulation) : Option Emulation :=
  match fuel with
  | 0 => some e
  | fuel + 1 =>
    let t := e.tokenizer
    if i ≤ t.argc then do
      let arg ← t.argv[i]?
      if t.tok 2 = '?'.toNat then
        let e ← e.processToken (.csiPr (low cc) (arg % 0x10000)) 0 0
        e.dispatch cc fuel (i + 1)
      else if t.tok 2 = '>'.toNat then
        let e ← e.processToken (.csiPg (low cc)) 0 0
        e.dispatch cc fuel (i + 1)
      else if cc = 'm'.toNat ∧ t.argc ≥ i + 4 ∧ (arg = 38 ∨ arg = 48) ∧ t.argv[i + 1]? = some 2 then
        let red ← t.argv[i + 2]?
        let green ← t.argv[i + 3]?
        let blue ← t.argv[i + 4]?
        let e ← e.processToken (.csiPs (low cc) arg) 4 (red <<< 16 ||| green <<< 8 ||| blue)
        e.dispatch cc fuel (i + 5)
      else if cc = 'm'.toNat ∧ t.argc ≥ i + 2 ∧ (arg = 38 ∨ arg = 48) ∧ t.argv[i + 1]? = some 5 then
        let index ← t.argv[i + 2]?
        let e ← e.processToken (.csiPs (low cc) arg) 3 index
        e.dispatch cc fuel (i + 3)
      else
        let e ← e.processToken (.csiPs (low cc) (arg % 0x10000)) 0 0
        e.dispatch cc fuel (i + 1)
    else some e

/-- A code that is complete. -/
def finish (token : Token) (p q : Nat) (e : Emulation) : Option Emulation := do
  let e ← e.processToken token p q
  e.resetTokenizer

def scanAnsi (cc : WChar) (e : Emulation) : Option Emulation :=
  let t := e.tokenizer
  let p := t.tokenBufferPos
  if p = 1 ∧ t.tok 0 = ESC then some e
  else if p = 1 ∧ t.tok 0 = ESC + 128 then
    -- the recursive call only adds the bracket
    e.onTokenizer fun t => do
      let tokenBuffer ← store t.tokenBuffer 0 ESC
      Tokenizer.addToCurrentToken '['.toNat { t with tokenBuffer }
  else if p = 2 ∧ isGRP (t.tok 1) then some e
  else if t.Xte cc then do
    let e ← e.processWindowAttributeChange
    e.resetTokenizer
  else if t.Xpe then e.onTokenizer fun t => some { t with prevCC := cc }
  else if p = 3 ∧ (t.tok 2 = '?'.toNat ∨ t.tok 2 = '>'.toNat ∨ t.tok 2 = '!'.toNat) then some e
  else if p = 1 ∧ cc ≥ 32 then e.finish .chr (e.applyCharset cc) 0
  else if p = 2 ∧ t.tok 0 = ESC then e.finish (.esc (low (t.tok 1))) 0 0
  else if p = 3 ∧ isSCS (t.tok 1) then e.finish (.escCs (low (t.tok 1)) (Char.ofNat (t.tok 2 % 0x10000))) 0 0
  else if p = 3 ∧ t.tok 1 = '#'.toNat then e.finish (.escDe (low (t.tok 2))) 0 0
  else if t.endsWith (isCPN cc) then do
    e.finish (.csiPn (low cc)) (← t.argv[0]?) (← t.argv[1]?)
  else if p = 4 ∧ t.tok 3 = ' '.toNat then some e
  else if p = 5 ∧ t.tok 4 = 'q'.toNat ∧ t.tok 3 = ' '.toNat then do
    let arg ← t.argv[0]?
    e.finish (.csiPsSp (low cc) (arg % 0x10000)) arg 0
  else if t.endsWith (cc == 't'.toNat) then do
    e.finish (.csiPs (low cc) ((← t.argv[0]?) % 0x10000)) (← t.argv[1]?) (← t.argv[2]?)
  else if p ≥ 3 ∧ t.tok 2 = '!'.toNat then e.finish (.csiPe (low cc)) 0 0
  else if p ≥ 3 ∧ isDIG cc then e.onTokenizer (Tokenizer.addDigit (cc - 0x30))
  else if p ≥ 3 ∧ cc = ';'.toNat then e.onTokenizer Tokenizer.addArgument
  else do
    let e ← e.dispatch cc MAXARGS 0
    e.resetTokenizer

def scanVt52 (e : Emulation) : Option Emulation :=
  let t := e.tokenizer
  let p := t.tokenBufferPos
  if p = 1 ∧ t.tok 0 = ESC then some e
  else if p = 1 ∧ 32 ≤ t.tok 0 ∧ t.tok 0 < 256 then e.finish .chr (t.tok 0) 0
  else if (p = 2 ∨ p = 3) ∧ t.tok 1 = 'Y'.toNat then some e
  else if p < 4 then e.finish (.vt52 (low (t.tok 1))) 0 0
  else e.finish (.vt52 (low (t.tok 1))) (t.tok 2) (t.tok 3)

def scan (cc : WChar) (e : Emulation) : Option Emulation := do
  let e ← e.onTokenizer (Tokenizer.addToCurrentToken cc)
  if e.getMode .ansi then e.scanAnsi cc else e.scanVt52

def receiveChar (cc : WChar) (e : Emulation) : Option Emulation :=
  if cc = 127 then some e
  else if cc < 32 ∧ ¬e.tokenizer.Xte cc then
    if e.tokenizer.Xpe then e.onTokenizer fun t => some { t with prevCC := cc }
    else if cc = ESC then do (← e.resetTokenizer).scan cc
    else if cc = 0x18 ∨ cc = 0x1a then do (← e.resetTokenizer).processToken (.ctl (low (cc + 0x40))) 0 0
    else e.processToken (.ctl (low (cc + 0x40))) 0 0
  else e.scan cc

/-- `receiveData`, of the characters. -/
def receive (e : Emulation) (text : List WChar) : Option Emulation := text.foldlM (fun e cc => e.receiveChar cc) e

/-- The constructor. -/
def new : Option Emulation := do
  let screen0 ← Screen.new 40 80
  let screen1 ← Screen.new 40 80
  reset { screen0, screen1 }

end Emulation

end Woterm.Konsole
