import Woterm.Konsole.History
import Woterm.Konsole.Width
import Woterm.Lib.Blocks

/-!
The screen of the terminal (`Screen.cpp`): rows of characters with a cursor, margins, modes, tab stops and a selection,
and the history that rows scroll off to. There is one row more than is shown. Every access to an array is checked, and
one outside of it has no result.
-/

namespace Woterm.Konsole
open Woterm.Lib Woterm.Konsole.History Woterm.Konsole.Width

/-- A row of `screenLines` with its entry in `lineProperties`. -/
structure ImageLine where
  cells : List Character := []
  property : UInt8 := LINE_DEFAULT
deriving DecidableEq, Repr

/-- The modes of a screen. -/
inductive Mode where
  | origin
  | wrap
  | insert
  | screen
  | cursor
  | newLine
deriving DecidableEq, Repr

structure Modes where
  origin : Bool := false
  wrap : Bool := false
  insert : Bool := false
  screen : Bool := false
  cursor : Bool := false
  newLine : Bool := false
deriving DecidableEq, Repr

def Modes.get (modes : Modes) : Mode → Bool
  | .origin => modes.origin
  | .wrap => modes.wrap
  | .insert => modes.insert
  | .screen => modes.screen
  | .cursor => modes.cursor
  | .newLine => modes.newLine

def Modes.set (modes : Modes) (value : Bool) : Mode → Modes
  | .origin => { modes with origin := value }
  | .wrap => { modes with wrap := value }
  | .insert => { modes with insert := value }
  | .screen => { modes with screen := value }
  | .cursor => { modes with cursor := value }
  | .newLine => { modes with newLine := value }

structure SavedState where
  cursorColumn : Nat := 0
  cursorLine : Nat := 0
  rendition : UInt8 := 0
  foreground : CharacterColor := {}
  background : CharacterColor := {}
deriving DecidableEq, Repr

/-- The selection, and how far the rows have moved since they were shown. -/
structure View where
  scrolledLines : Int := 0
  droppedLines : Int := 0
  selBegin : Int := 0
  selTopLeft : Int := 0
  selBottomRight : Int := 0
  blockSelectionMode : Bool := false
deriving DecidableEq, Repr

structure Screen where
  lines : Nat
  columns : Nat
  image : List ImageLine
  view : View := {}
  history : HistoryScroll := .none
  cuX : Nat := 0
  cuY : Nat := 0
  currentForeground : CharacterColor := {}
  currentBackground : CharacterColor := {}
  currentRendition : UInt8 := 0
  topMargin : Nat := 0
  bottomMargin : Nat := 0
  currentModes : Modes := {}
  savedModes : Modes := {}
  tabStops : List Bool := []
  effectiveForeground : CharacterColor := {}
  effectiveBackground : CharacterColor := {}
  effectiveRendition : UInt8 := 0
  savedState : SavedState := {}
  lastDrawnChar : WChar := 0
deriving DecidableEq, Repr

/-- `QVector::resize`. -/
def resize (cells : List Character) (size : Nat) : List Character :=
  cells.take size ++ List.replicate (size - cells.length) defaultChar

/-- A row that is made longer if it is too short. -/
def grow (cells : List Character) (size : Nat) : List Character :=
  if cells.length < size then resize cells size else cells

namespace Screen

/-- The default of a parameter. -/
def orOne (n : Nat) : Nat := if n = 0 then 1 else n

def loc (s : Screen) (x : Nat) (y : Int) : Int := y * s.columns + x

/-- The screen with other rows, and what is shown of them. -/
def repaint (s : Screen) (image : List ImageLine) (view : View) : Screen := { s with image, view }

def withHistory (s : Screen) (history : HistoryScroll) : Screen := { s with history }

def withLine (s : Screen) (y : Nat) (change : ImageLine → ImageLine) : Option Screen := do
  return s.repaint (← Blocks.change s.image y change) s.view

/-! ## The cursor -/

def cursorUp (s : Screen) (n : Nat) : Screen :=
  let stop := if s.cuY < s.topMargin then 0 else s.topMargin
  { s with cuX := min (s.columns - 1) s.cuX, cuY := max stop (s.cuY - orOne n) }

def cursorDown (s : Screen) (n : Nat) : Screen :=
  let stop := if s.cuY > s.bottomMargin then s.lines - 1 else s.bottomMargin
  { s with cuX := min (s.columns - 1) s.cuX, cuY := min stop (s.cuY + orOne n) }

def cursorLeft (s : Screen) (n : Nat) : Screen := { s with cuX := min (s.columns - 1) s.cuX - orOne n }

def cursorRight (s : Screen) (n : Nat) : Screen := { s with cuX := min (s.columns - 1) (s.cuX + orOne n) }

def toStartOfLine (s : Screen) : Screen := { s with cuX := 0 }

def home (s : Screen) : Screen := { s with cuX := 0, cuY := 0 }

def setCursorX (s : Screen) (x : Int) : Screen :=
  let x := (if x = 0 then 1 else x) - 1
  { s with cuX := (max 0 (min (s.columns - 1 : Int) x)).toNat }

def setCursorY (s : Screen) (y : Int) : Screen :=
  let y := (if y = 0 then 1 else y) - 1
  { s with cuY := (max 0 (min (s.lines - 1 : Int) (y + if s.currentModes.origin then s.topMargin else 0))).toNat }

def setCursorYX (s : Screen) (y x : Int) : Screen := (s.setCursorY y).setCursorX x

def setMargins (s : Screen) (top bot : Nat) : Screen :=
  let top := orOne top - 1
  let bot := (if bot = 0 then s.lines else bot) - 1
  if top < bot ∧ bot < s.lines then
    { s with topMargin := top, bottomMargin := bot, cuX := 0, cuY := if s.currentModes.origin then top else 0 }
  else s

def setDefaultMargins (s : Screen) : Screen := { s with topMargin := 0, bottomMargin := s.lines - 1 }

/-! ## Modes, colors and renditions -/

def setMode (s : Screen) (m : Mode) : Screen :=
  let s := { s with currentModes := s.currentModes.set true m }
  if m = .origin then { s with cuX := 0, cuY := s.topMargin } else s

def resetMode (s : Screen) (m : Mode) : Screen :=
  let s := { s with currentModes := s.currentModes.set false m }
  if m = .origin then { s with cuX := 0, cuY := 0 } else s

def saveMode (s : Screen) (m : Mode) : Screen := { s with savedModes := s.savedModes.set (s.currentModes.get m) m }

def restoreMode (s : Screen) (m : Mode) : Screen := { s with currentModes := s.currentModes.set (s.savedModes.get m) m }

def updateEffectiveRendition (s : Screen) : Screen :=
  let reverse := s.currentRendition &&& .ofNat RE_REVERSE != 0
  let foreground := if reverse then s.currentBackground else s.currentForeground
  { s with
    effectiveRendition := s.currentRendition
    effectiveForeground := if s.currentRendition &&& .ofNat RE_BOLD != 0 then foreground.setIntensive else foreground
    effectiveBackground := if reverse then s.currentForeground else s.currentBackground }

def setRendition (s : Screen) (re : Nat) : Screen :=
  updateEffectiveRendition { s with currentRendition := s.currentRendition ||| .ofNat re }

def resetRendition (s : Screen) (re : Nat) : Screen :=
  updateEffectiveRendition { s with currentRendition := s.currentRendition &&& ~~~.ofNat re }

/-- A color that is not valid stands for the default. -/
def setForeColor (s : Screen) (space : ColorSpace) (color : Nat) : Screen :=
  let chosen := CharacterColor.make space color
  updateEffectiveRendition { s with
    currentForeground := if chosen.isValid then chosen else .make .default DEFAULT_FORE_COLOR }

def setBackColor (s : Screen) (space : ColorSpace) (color : Nat) : Screen :=
  let chosen := CharacterColor.make space color
  updateEffectiveRendition { s with
    currentBackground := if chosen.isValid then chosen else .make .default DEFAULT_BACK_COLOR }

def setDefaultRendition (s : Screen) : Screen :=
  let s := (s.setForeColor .default DEFAULT_FORE_COLOR).setBackColor .default DEFAULT_BACK_COLOR
  updateEffectiveRendition { s with currentRendition := 0 }

def saveCursor (s : Screen) : Screen :=
  { s with
    savedState := {
      cursorColumn := s.cuX, cursorLine := s.cuY, rendition := s.currentRendition, foreground := s.currentForeground,
      background := s.currentBackground } }

def restoreCursor (s : Screen) : Screen :=
  updateEffectiveRendition { s with
    cuX := min s.savedState.cursorColumn (s.columns - 1)
    cuY := min s.savedState.cursorLine (s.lines - 1)
    currentRendition := s.savedState.rendition
    currentForeground := s.savedState.foreground
    currentBackground := s.savedState.background }

def setLineProperty (s : Screen) (property : UInt8) (enable : Bool) : Option Screen :=
  s.withLine s.cuY fun line =>
    { line with property := if enable then line.property ||| property else line.property &&& ~~~property }

/-! ## The selection -/

end Screen

namespace View

def scrolled (v : View) (n : Int) : View := { v with scrolledLines := v.scrolledLines + n }

def clearSelection (v : View) : View := { v with selBegin := -1, selTopLeft := -1, selBottomRight := -1 }

/-- The selection is cut off at the start of the history. -/
def bound (v : View) (beginIsTL : Bool) : View :=
  let v :=
    if v.selBottomRight < 0 then v.clearSelection
    else if v.selTopLeft < 0 then { v with selTopLeft := 0 }
    else v
  { v with selBegin := if beginIsTL then v.selTopLeft else v.selBottomRight }

/-- The selection follows the rows that `moveImage` has moved. -/
def follow (v : View) (srca srce diff : Int) : View :=
  if v.selBegin = -1 then v
  else
    let beginIsTL := v.selBegin == v.selTopLeft
    let v :=
      if v.selTopLeft ≥ srca ∧ v.selTopLeft ≤ srce then { v with selTopLeft := v.selTopLeft + diff }
      else if v.selTopLeft ≥ srca + diff ∧ v.selTopLeft ≤ srce + diff then { v with selBottomRight := -1 }
      else v
    let v :=
      if v.selBottomRight ≥ srca ∧ v.selBottomRight ≤ srce then { v with selBottomRight := v.selBottomRight + diff }
      else if v.selBottomRight ≥ srca + diff ∧ v.selBottomRight ≤ srce + diff then { v with selBottomRight := -1 }
      else v
    v.bound beginIsTL

/-- The selection follows the row that `addHistLine` has added to the history. -/
def followHistory (v : View) (columns oldHistLines newHistLines : Nat) : View :=
  let beginIsTL := v.selBegin == v.selTopLeft
  let v := if newHistLines = oldHistLines then { v with droppedLines := v.droppedLines + 1 } else v
  let v :=
    if newHistLines > oldHistLines ∧ v.selBegin ≠ -1 then
      { v with selTopLeft := v.selTopLeft + columns, selBottomRight := v.selBottomRight + columns }
    else v
  if v.selBegin = -1 then v
  else
    let topBR : Int := (1 + newHistLines) * columns
    let v := if v.selTopLeft < topBR then { v with selTopLeft := v.selTopLeft - columns } else v
    let v := if v.selBottomRight < topBR then { v with selBottomRight := v.selBottomRight - columns } else v
    v.bound beginIsTL

end View

namespace Screen

def clearSelection (s : Screen) : Screen := s.repaint s.image s.view.clearSelection

/-- Where the screen starts in all lines. -/
def scrTL (s : Screen) : Int := s.loc 0 s.history.getLines

def checkSelection (s : Screen) («from» to_ : Int) : Screen :=
  if s.view.selBegin = -1 then s
  else if s.view.selBottomRight ≥ «from» + s.scrTL ∧ s.view.selTopLeft ≤ to_ + s.scrTL then s.clearSelection
  else s

/-! ## Clearing and scrolling -/

/-- The characters of a row between two columns, the second of which is left out. With the default character the end of
the row is cut off instead. -/
def clearCells (columns : Nat) (clearCh : Character) (startCol stopCol : Nat) (cells : List Character) : List Character :=
  if clearCh = defaultChar ∧ stopCol = columns then resize cells startCol
  else
    let cells := grow cells stopCol
    cells.take startCol ++ List.replicate (stopCol - startCol) clearCh ++ cells.drop (max startCol stopCol)

/-- The character that a screen is cleared with. -/
def clearCh (s : Screen) (c : WChar) : Character := {
  character := c, foregroundColor := s.currentForeground, backgroundColor := s.currentBackground }

/-- A row that is cleared from one position to another. -/
def clearedLine (s : Screen) (loca loce : Int) (c : WChar) (y : Nat) (line : ImageLine) : ImageLine :=
  let stopCol := if (y : Int) = loce.tdiv s.columns then (loce.tmod s.columns + 1).toNat else s.columns
  let startCol := if (y : Int) = loca.tdiv s.columns then (loca.tmod s.columns).toNat else 0
  { cells := clearCells s.columns (s.clearCh c) startCol stopCol line.cells, property := 0 }

def clearImage (s : Screen) (loca loce : Int) (c : WChar) : Option Screen := do
  let selected := s.view.selBottomRight > loca + s.scrTL ∧ s.view.selTopLeft < loce + s.scrTL
  let topLine := loca.tdiv s.columns
  let bottomLine := loce.tdiv s.columns
  let image ← (List.range (bottomLine + 1 - topLine).toNat).foldlM (fun image i =>
    Blocks.change image (topLine.toNat + i) (s.clearedLine loca loce c (topLine.toNat + i))) s.image
  return s.repaint image (if selected then s.view.clearSelection else s.view)

def moveImage (s : Screen) (dest sourceBegin sourceEnd : Int) : Option Screen := do
  let count := ((sourceEnd - sourceBegin).tdiv s.columns + 1).toNat
  let order := if dest < sourceBegin then List.range count else (List.range count).reverse
  let image ← order.foldlM (fun image i =>
    Blocks.copy image ((dest.tdiv s.columns).toNat + i) ((sourceBegin.tdiv s.columns).toNat + i)) s.image
  return s.repaint image (s.view.follow (sourceBegin + s.scrTL) (sourceEnd + s.scrTL) (dest - sourceBegin))

/-- The first row goes to the history. -/
def addHistLine (s : Screen) : Option Screen :=
  if s.history.hasScroll then do
    let line ← s.image[0]?
    let history ← s.history.add line.cells (line.property &&& LINE_WRAPPED != 0)
    return (s.withHistory history).repaint s.image
      (s.view.followHistory s.columns s.history.getLines history.getLines)
  else some s

/-- `scrollUp(from, n)`. -/
def scrollUpFrom (s : Screen) («from» n : Nat) : Option Screen := do
  if n = 0 ∨ «from» > s.bottomMargin then return s
  let n := if «from» + n > s.bottomMargin then s.bottomMargin + 1 - «from» else n
  let scrolled := s.repaint s.image (s.view.scrolled (-n))
  let s ← scrolled.moveImage (s.loc 0 «from») (s.loc 0 («from» + n)) (s.loc s.columns s.bottomMargin)
  s.clearImage (s.loc 0 (s.bottomMargin - n + 1)) (s.loc (s.columns - 1) s.bottomMargin) 0x20

def scrollUp (s : Screen) (n : Nat) : Option Screen := do
  let s ← (if s.topMargin = 0 then s.addHistLine else some s)
  s.scrollUpFrom s.topMargin (orOne n)

/-- `scrollDown(from, n)`. One row less than that can be scrolled. -/
def scrollDownFrom (s : Screen) («from» n : Nat) : Option Screen := do
  let scrolled := s.repaint s.image (s.view.scrolled n)
  if n = 0 ∨ «from» > s.bottomMargin then return scrolled
  let n := if «from» + n > s.bottomMargin then s.bottomMargin - «from» else n
  let s ← scrolled.moveImage (s.loc 0 («from» + n)) (s.loc 0 «from») (s.loc (s.columns - 1) (s.bottomMargin - n))
  s.clearImage (s.loc 0 «from») (s.loc (s.columns - 1) («from» + n - 1)) 0x20

def scrollDown (s : Screen) (n : Nat) : Option Screen := s.scrollDownFrom s.topMargin (orOne n)

def index (s : Screen) : Option Screen :=
  if s.cuY = s.bottomMargin then s.scrollUp 1
  else if s.cuY < s.lines - 1 then some { s with cuY := s.cuY + 1 }
  else some s

def reverseIndex (s : Screen) : Option Screen :=
  if s.cuY = s.topMargin then s.scrollDownFrom s.topMargin 1
  else if s.cuY > 0 then some { s with cuY := s.cuY - 1 }
  else some s

def nextLine (s : Screen) : Option Screen := s.toStartOfLine.index

def newLine (s : Screen) : Option Screen := (if s.currentModes.newLine then s.toStartOfLine else s).index

def deleteLines (s : Screen) (n : Nat) : Option Screen := s.scrollUpFrom s.cuY (orOne n)

def insertLines (s : Screen) (n : Nat) : Option Screen := s.scrollDownFrom s.cuY (orOne n)

def eraseChars (s : Screen) (n : Nat) : Option Screen :=
  let p := min (s.cuX + orOne n - 1) (s.columns - 1)
  s.clearImage (s.loc s.cuX s.cuY) (s.loc p s.cuY) 0x20

def clearToEndOfScreen (s : Screen) : Option Screen :=
  s.clearImage (s.loc s.cuX s.cuY) (s.loc (s.columns - 1) (s.lines - 1)) 0x20

def clearToBeginOfScreen (s : Screen) : Option Screen := s.clearImage (s.loc 0 0) (s.loc s.cuX s.cuY) 0x20

def clearToEndOfLine (s : Screen) : Option Screen :=
  s.clearImage (s.loc s.cuX s.cuY) (s.loc (s.columns - 1) s.cuY) 0x20

def clearToBeginOfLine (s : Screen) : Option Screen := s.clearImage (s.loc 0 s.cuY) (s.loc s.cuX s.cuY) 0x20

def clearEntireLine (s : Screen) : Option Screen := s.clearImage (s.loc 0 s.cuY) (s.loc (s.columns - 1) s.cuY) 0x20

/-- The first row goes to the history, and the others up to the bottom margin come up. -/
def pushLine (s : Screen) : Option Screen := do
  let s ← s.addHistLine
  s.scrollUpFrom 0 1

/-- All rows but the last one go to the history. -/
def clearEntireScreen (s : Screen) : Option Screen := do
  let s ← (List.range (s.lines - 1)).foldlM (fun s _ => s.pushLine) s
  s.clearImage (s.loc 0 0) (s.loc (s.columns - 1) (s.lines - 1)) 0x20

def helpAlign (s : Screen) : Option Screen := s.clearImage (s.loc 0 0) (s.loc (s.columns - 1) (s.lines - 1)) 0x45

def clear (s : Screen) : Option Screen := do return (← s.clearEntireScreen).home

/-! ## Characters -/

def deleteChars (s : Screen) (n : Nat) : Option Screen :=
  s.withLine s.cuY fun line =>
    if s.cuX ≥ line.cells.length then line
    else
      let n := min (orOne n) (line.cells.length - s.cuX)
      { line with cells := line.cells.take s.cuX ++ line.cells.drop (s.cuX + n) }

/-- Blanks in a row, which does not get longer than the screen is wide. -/
def insertCells (s : Screen) (n : Nat) (cells : List Character) : List Character :=
  let cells := grow cells s.cuX
  let cells := cells.take s.cuX ++ List.replicate n defaultChar ++ cells.drop s.cuX
  if cells.length > s.columns then resize cells s.columns else cells

def insertChars (s : Screen) (n : Nat) : Option Screen :=
  s.withLine s.cuY fun line => { line with cells := s.insertCells (orOne n) line.cells }

/-- The cells that a character takes: the character, and zeros behind it. -/
def drawn (s : Screen) (c : WChar) (w : Nat) : List Character :=
  let cell (character : WChar) : Character := {
    character, rendition := s.effectiveRendition, foregroundColor := s.effectiveForeground,
    backgroundColor := s.effectiveBackground }
  cell c :: List.replicate (w - 1) (cell 0)

/-- The row with a character on it. It is long enough, and gets longer if need be. -/
def overwritten (cells : List Character) (x : Nat) (drawn : List Character) : List Character :=
  let cells := grow cells (x + drawn.length)
  cells.take x ++ drawn ++ cells.drop (x + drawn.length)

/-- Where a character that does not fit in the row goes. -/
def makeRoom (s : Screen) (w : Nat) : Option Screen :=
  if s.cuX + w > s.columns then
    if s.currentModes.wrap then do
      let s ← s.withLine s.cuY fun line => { line with property := line.property ||| LINE_WRAPPED }
      s.nextLine
    -- the column is negative where the row is too short
    else if w ≤ s.columns then some { s with cuX := s.columns - w }
    else none
  else some s

def drawCharacter (s : Screen) (c : WChar) (w : Nat) : Option Screen := do
  let line ← s.image[s.cuY]?
  if s.cuX < line.cells.length then
    s.withLine s.cuY fun line => { line with cells := overwritten line.cells s.cuX (s.drawn c w) }
  else none

def putCharacter (s : Screen) (c : WChar) (w : Nat) : Option Screen := do
  let s ← s.withLine s.cuY fun line => { line with cells := grow line.cells (s.cuX + w) }
  let s ← (if s.currentModes.insert then s.insertChars w else some s)
  (s.checkSelection (s.loc s.cuX s.cuY) (s.loc s.cuX s.cuY)).drawCharacter c w

def advance (s : Screen) (c : WChar) (w : Nat) : Screen := { s with lastDrawnChar := c % 0x10000, cuX := s.cuX + w }

def displayCharacter (s : Screen) (c : WChar) : Option Screen :=
  if charWidth c ≤ 0 then some s
  else do
    let w := (charWidth c).toNat
    let s ← s.makeRoom w
    let s ← s.putCharacter c w
    return s.advance c w

def repeatChars (s : Screen) (count : Nat) : Option Screen :=
  (List.range (orOne count)).foldlM (fun s _ => s.displayCharacter s.lastDrawnChar) s

def backspace (s : Screen) : Option Screen :=
  let s := { s with cuX := min (s.columns - 1) s.cuX - 1 }
  s.withLine s.cuY fun line => { line with cells := grow line.cells (s.cuX + 1) }

/-! ## Tab stops -/

/-- To the right up to the next tab stop. -/
def seekRight (s : Screen) (x : Nat) : Option Nat :=
  if x < s.columns - 1 then do
    if ← s.tabStops[x]? then return x
    seekRight s (x + 1)
  else some x
termination_by s.columns - x

def seekLeft (s : Screen) : Nat → Option Nat
  | 0 => some 0
  | x + 1 => do
    if ← s.tabStops[x + 1]? then return x + 1
    seekLeft s x

def tabOnce (s : Screen) : Option Screen :=
  if s.cuX < s.columns - 1 then do return { s with cuX := ← s.seekRight (min (s.columns - 1) (s.cuX + 1)) } else some s

def tab (s : Screen) (n : Nat) : Option Screen := (List.range (orOne n)).foldlM (fun s _ => s.tabOnce) s

def backtabOnce (s : Screen) : Option Screen :=
  if s.cuX > 0 then do return { s with cuX := ← s.seekLeft (min (s.columns - 1) s.cuX - 1) } else some s

def backtab (s : Screen) (n : Nat) : Option Screen := (List.range (orOne n)).foldlM (fun s _ => s.backtabOnce) s

def clearTabStops (s : Screen) : Option Screen :=
  if s.columns ≤ s.tabStops.length then
    some { s with tabStops := List.replicate s.columns false ++ s.tabStops.drop s.columns }
  else none

def changeTabStop (s : Screen) (set : Bool) : Option Screen :=
  if s.cuX ≥ s.columns then some s else do return { s with tabStops := ← store s.tabStops s.cuX set }

def initTabStops (s : Screen) : Screen :=
  { s with tabStops := (List.range s.columns).map fun i => i % 8 == 0 && i != 0 }

/-! ## The size, and a new screen -/

/-- Rows go to the history until the cursor is on the screen. -/
def keepCursor (s : Screen) (newLines : Nat) : Option Screen :=
  if s.cuY > newLines - 1 then
    (List.range (s.cuY - (newLines - 1))).foldlM (fun s _ => s.pushLine) { s with bottomMargin := s.lines - 1 }
  else some s

def resizeImage (s : Screen) (newLines newColumns : Nat) : Option Screen :=
  if newLines = s.lines ∧ newColumns = s.columns then some s
  else do
    let s ← s.keepCursor newLines
    let image := s.image.take (min s.lines (newLines + 1)) ++
      List.replicate (newLines + 1 - s.lines) { cells := resize [] newColumns, property := LINE_DEFAULT }
    let s := { s with
      image, lines := newLines, columns := newColumns
      cuX := min s.cuX (newColumns - 1), cuY := min s.cuY (newLines - 1)
      topMargin := 0, bottomMargin := newLines - 1 }
    return s.initTabStops.clearSelection

def resetModes (s : Screen) : Screen :=
  s.setMode .wrap |>.saveMode .wrap
    |>.resetMode .origin |>.saveMode .origin
    |>.resetMode .insert |>.saveMode .insert
    |>.setMode .cursor |>.resetMode .screen |>.resetMode .newLine

def reset (s : Screen) : Option Screen := s.resetModes.setDefaultMargins.setDefaultRendition.saveCursor.clear

/-- The constructor. -/
def new (lines columns : Nat) : Option Screen :=
  reset (clearSelection (initTabStops { lines, columns, image := List.replicate (lines + 1) {} }))

end Screen

end Woterm.Konsole
