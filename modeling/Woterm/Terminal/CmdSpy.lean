import Woterm.Lib.Run
import Woterm.Qt
import Woterm.Terminal.Vte

/-!
`QWoCmdSpy`: a terminal that records the text of its rows. Rows that scroll off the screen are
kept in `tops`. An access outside of the rows has no result.
-/

namespace Woterm.Terminal.CmdSpy
open Woterm.Lib Woterm.Lib.Word32 Woterm.Qt Woterm.Qt.QString Woterm.Terminal.Data

def fixCollumn : Nat := 1024

def fixRow : Nat := 768

/-- The callbacks of the spy that return a value. -/
def frontend : Frontend where
  getNextTab := fun _ n => wrap (n + 1)
  getCharWidth := fun _ => 1
  requestWidth := fun _ => true

structure QWoCmdSpy where
  vte : VTE
  tops : List QString
  lines : List QString
  stop : Bool

def emptyLine : QString := List.replicate fixCollumn ' '

/-- `QChar` of a code point keeps 16 bits; a lone surrogate is shown as the replacement character. -/
def qchar (c : UInt32) : Char :=
  let code := c.toNat % 65536
  if 0xd800 ≤ code ∧ code ≤ 0xdfff then Char.ofNat 0xfffd else Char.ofNat code

/-- The assignment to a character of a row, which fills a row that is too short with blanks. -/
def assign (row : QString) (x : Nat) (c : Char) : QString :=
  if x < row.length then row.set x c else row ++ List.replicate (x - row.length) ' ' ++ [c]

def putChar (c : UInt32) (cursor : Cursor) (spy : QWoCmdSpy) : Option QWoCmdSpy :=
  if 0 ≤ cursor.x ∧ 0 ≤ cursor.y ∧ cursor.y < spy.lines.length then
    some { spy with lines := spy.lines.modify cursor.y.toNat fun row => assign row cursor.x.toNat (qchar c) }
  else none

def scrollUp : Nat → QWoCmdSpy → Option QWoCmdSpy
  | 0, spy => some spy
  | n + 1, spy =>
    match spy.lines with
    | [] => none
    | first :: rest => scrollUp n { spy with tops := spy.tops ++ [first], lines := rest ++ [emptyLine] }

def handle (spy : QWoCmdSpy) (event : Event) : Option QWoCmdSpy :=
  match event with
  | .putChar c _ cursor => putChar c cursor spy
  | .scrollUp _ _ n _ => scrollUp n.toNat spy
  | .setWindowTitle _ => some { spy with stop := true }
  | _ => some spy

/-- `VTE::process` on one byte, with the callbacks of the spy. -/
def processByte (spy : QWoCmdSpy) (c : uchar) : Option QWoCmdSpy :=
  let vte := Vte.process frontend spy.vte c
  vte.events.foldlM handle { spy with vte := vte }

def processLoop : List uchar → QWoCmdSpy → Option QWoCmdSpy
  | [], spy => some spy
  | c :: rest, spy => if spy.stop then some spy else (processByte spy c).bind (processLoop rest)

def process (spy : QWoCmdSpy) (buf : QByteArray) : Option QWoCmdSpy :=
  processLoop buf { spy with stop := false }

def reset (spy : QWoCmdSpy) : QWoCmdSpy :=
  { spy with vte := Vte.reset spy.vte, lines := List.replicate fixRow emptyLine, tops := [] }

/-- `QWoCmdSpy::output`: the lines, and the spy without its rows. -/
def output (spy : QWoCmdSpy) : List QString × QWoCmdSpy :=
  (((spy.tops ++ spy.lines).map simplified).filter fun line => !line.isEmpty, { spy with tops := [], lines := [] })

/-- The parser before its first reset. -/
def blank : VTE where
  width := fixCollumn
  height := fixRow
  top := 0
  bottom := 0
  definingCharset := 0
  cursor := {}
  savedCursor := {}
  mode := .ground
  flags := fun _ => false
  csiData := {}
  strData := {}
  cursorHidden := false
  utf8Buffer := []
  events := []

def unset : QWoCmdSpy := { vte := blank, tops := [], lines := [], stop := false }

/-- The constructor. -/
def fresh : QWoCmdSpy := reset unset

/-! ## The callbacks do not change the parser -/

theorem scrollUp_vte (n : Nat) (spy next : QWoCmdSpy) (scrolled : scrollUp n spy = some next) :
    next.vte = spy.vte := by
  induction n generalizing spy with
  | zero => rw [← Option.some.inj scrolled]
  | succ n ih =>
    unfold scrollUp at scrolled
    split at scrolled
    · cases scrolled
    · have kept := ih _ scrolled
      exact kept

theorem handle_vte (spy : QWoCmdSpy) (event : Event) (next : QWoCmdSpy) (handled : handle spy event = some next) :
    next.vte = spy.vte := by
  unfold handle at handled
  split at handled
  · unfold putChar at handled
    split_ifs at handled
    rw [← Option.some.inj handled]
  · exact scrollUp_vte _ spy next handled
  · rw [← Option.some.inj handled]
  · rw [← Option.some.inj handled]

theorem processByte_vte (spy : QWoCmdSpy) (c : uchar) (next : QWoCmdSpy)
    (processed : processByte spy c = some next) : next.vte = Vte.process frontend spy.vte c :=
  Run.after_unchanged handle QWoCmdSpy.vte handle_vte _ next _ processed

end Woterm.Terminal.CmdSpy
