import Mathlib.Logic.Function.Basic
import Woterm.Lib.CString
import Woterm.Lib.Word32

/-!
The data of the terminal parser `VTE`: the cursor, the buffers of control sequences and strings,
and the calls that the parser makes to the terminal behind it. The fixed arrays are lists of
their length and pointers into them are offsets.
-/

namespace Woterm.Terminal.Data
open Woterm.Lib Woterm.Lib.Word32

abbrev uchar := UInt8

/-- The byte of an ASCII character. -/
def byte (c : Char) : uchar := c.toUInt8

theorem forall_uchar {holds : uchar → Prop} (all : ∀ n : Fin 256, holds (UInt8.ofNat n.val)) : ∀ c, holds c := by
  intro c
  have this := all ⟨c.toNat, c.toNat_lt⟩
  rwa [UInt8.ofNat_toNat] at this

/-! ## Numbers -/

def isDigit (c : uchar) : Bool := byte '0' ≤ c && c ≤ byte '9'

def digitsValue (digits : List uchar) : Nat :=
  digits.foldl (fun value digit => 10 * value + (digit.toNat - 48)) 0

/-- `atoi` as the conversion of what `strtol` returns for a `long` of 64 bits. -/
def atoi (text : List uchar) : Int :=
  let body := text.dropWhile fun c => c = 32 || (9 ≤ c && c ≤ 13)
  let negative := body.head? = some (byte '-')
  let digits := if negative ∨ body.head? = some (byte '+') then body.drop 1 else body
  let value : Int := digitsValue (digits.takeWhile isDigit)
  wrap (if negative then max (-value) (-9223372036854775808) else min value 9223372036854775807)

theorem isDigit_iff (c : uchar) : isDigit c = true ↔ 48 ≤ c.toNat ∧ c.toNat ≤ 57 := by
  rw [isDigit, Bool.and_eq_true, decide_eq_true_eq, decide_eq_true_eq, UInt8.le_iff_toNat_le, UInt8.le_iff_toNat_le]
  exact Iff.rfl

theorem atoi_digits (digits : List uchar) (decimal : ∀ c ∈ digits, isDigit c = true) :
    atoi digits = wrap (min (digitsValue digits) 9223372036854775807) := by
  have whole : digits.takeWhile isDigit = digits := List.takeWhile_eq_self_iff.mpr decimal
  cases digits with
  | nil => rfl
  | cons c rest =>
    have range := (isDigit_iff c).mp (decimal c List.mem_cons_self)
    have solid : (decide (c = 32) || (decide (9 ≤ c) && decide (c ≤ 13))) = false := by
      simp only [Bool.or_eq_false_iff, Bool.and_eq_false_iff, decide_eq_false_iff_not, UInt8.le_iff_toNat_le,
        ← UInt8.toNat_inj, UInt8.reduceToNat]
      omega
    have unsigned : c ≠ 45 ∧ c ≠ 43 := by
      simp only [ne_eq, ← UInt8.toNat_inj, UInt8.reduceToNat]
      omega
    have body : (c :: rest).dropWhile (fun byte => decide (byte = 32) || (decide (9 ≤ byte) && decide (byte ≤ 13))) =
        c :: rest := List.dropWhile_cons_of_neg (by simp [solid])
    have signs : byte '-' = 45 ∧ byte '+' = 43 := ⟨rfl, rfl⟩
    simp only [atoi, body, List.head?_cons, Option.some.injEq, signs.1, signs.2, unsigned.1, unsigned.2, or_self,
      if_false, whole]

/-- `set_range`. -/
def setRange (v l h : Int) : Int :=
  let v := if v < l then l else v
  if v > h then h else v

theorem setRange_between (v l h : Int) (order : l ≤ h) : l ≤ setRange v l h ∧ setRange v l h ≤ h := by
  unfold setRange
  dsimp only
  split_ifs <;> omega

theorem setRange_self (v l h : Int) (lower : l ≤ v) (upper : v ≤ h) : setRange v l h = v := by
  unfold setRange
  rw [if_neg (by omega), if_neg (by omega)]

/-- `get_default`. -/
def getDefault (v d : Int) : Int := if v < 1 then d else v

/-! ## The cursor -/

inductive Charset where
  | uk | us | g0 | g1
deriving DecidableEq, Repr

inductive TextSize where
  | normal | topHalf | bottomHalf | doubleWidth
deriving DecidableEq, Repr

inductive ColorType where
  | default | indexed | truecolor
deriving DecidableEq, Repr

structure Color where
  type : ColorType := .default
  color : UInt32 := 0
deriving DecidableEq, Repr

inductive AttributeFlag where
  | underline | reverse | bold | blink | halfBright | italic | invisible
deriving DecidableEq, Repr

structure Attributes where
  fg : Color := {}
  bg : Color := {}
  flags : AttributeFlag → Bool := fun _ => false

inductive CursorState where
  | normal | wrapNext
deriving DecidableEq, Repr

/-- `Cursor`, as `Cursor::reset` leaves it. -/
structure Cursor where
  x : Int := 0
  y : Int := 0
  attrs : Attributes := {}
  cs : CursorState := .normal
  charsetTable : Nat → Charset := fun _ => .us
  selectedCharset : Nat := 0

/-! ## Control sequences -/

/-- `ControlData`, as its `reset` leaves it. -/
structure ControlData where
  ctrlData : List uchar := List.replicate 32 0
  ctrlNextData : Nat := 0
  ctrlArgs : List Nat := [0]
  decMode : Bool := false

namespace ControlData

def nargs (data : ControlData) : Nat := data.ctrlArgs.length

def getArg (data : ControlData) (arg : Nat) : Int :=
  match data.ctrlArgs[arg]? with
  | some start => atoi (CString.cstr (data.ctrlData.drop start))
  | none => 0

def spaceLeft (data : ControlData) : Bool := data.ctrlNextData < 30

/-- `add_arg`; nothing if the character is no part of the arguments. -/
def addArg (data : ControlData) (c : uchar) : Option ControlData :=
  if c = byte '?' ∧ data.ctrlNextData = 0 then some { data with decMode := true }
  else if c = byte ';' then
    some { data with
      ctrlNextData := data.ctrlNextData + 1
      ctrlArgs := data.ctrlArgs ++ [data.ctrlNextData + 1] }
  else if isDigit c then
    some { data with
      ctrlData := data.ctrlData.set data.ctrlNextData c
      ctrlNextData := data.ctrlNextData + 1 }
  else none

end ControlData

/-! ## Strings -/

inductive StringType where
  | none | title | osc | pm | dcs | apc
deriving DecidableEq, Repr

/-- `StringData`, as its `reset` leaves it. -/
structure StringData where
  strData : List uchar := List.replicate 256 0
  nextStrData : Nat := 0
  stringType : StringType := .none
  finished : Bool := false
  args : List Nat := [0]

namespace StringData

/-- The loop of `parse` over what follows the offset `s`: the first `n` semicolons end arguments. -/
def parseLoop (n : Nat) : List uchar → Nat → Nat → StringData → Nat × StringData
  | [], _, i, data => (i, data)
  | c :: rest, s, i, data =>
    if c = 0 ∨ ¬ i < n ∨ ¬ data.args.length < 32 then (i, data)
    else if c = byte ';' then
      parseLoop n rest (s + 1) (i + 1)
        { data with strData := data.strData.set s 0, args := data.args ++ [s + 1] }
    else parseLoop n rest (s + 1) i data

def parse (data : StringData) (s n : Nat) : Nat × StringData :=
  parseLoop n (data.strData.drop s) s 0 data

/-- `get_arg`; the parser only asks for arguments that are there. -/
def getArg (data : StringData) (arg : Nat) : List uchar :=
  match data.args[arg]? with
  | some start => CString.cstr (data.strData.drop start)
  | none => []

/-- `add_char`; nothing if the buffer is full. -/
def addChar (data : StringData) (c : uchar) : Option StringData :=
  if 254 ≤ data.nextStrData then none
  else some { data with strData := data.strData.set data.nextStrData c, nextStrData := data.nextStrData + 1 }

end StringData

/-! ## Calls to the terminal -/

/-- The callbacks of `VTE` that return nothing. -/
inductive Event where
  | resetColor (c : Int)
  | defineColor (c : Int) (s : List uchar)
  | defineCharset (n : Nat) (cs : Charset)
  | selectCharset (n : Nat)
  | showCursor (cursor : Cursor)
  | hideCursor (cursor : Cursor)
  | clearTabs
  | setTab (x : Int)
  | resetTab (x : Int)
  | putReversedQuestionMark (cursor : Cursor)
  | putChar (c : UInt32) (charWidth : Int) (cursor : Cursor)
  | clearRegion (x1 y1 x2 y2 : Int) (cursor : Cursor)
  | insertChars (x n : Int) (cursor : Cursor)
  | deleteChars (x n : Int) (cursor : Cursor)
  | scrollUp (y1 y2 n : Int) (cursor : Cursor)
  | scrollDown (y1 y2 n : Int) (cursor : Cursor)
  | bell
  | setLineTextSize (y : Int) (size : TextSize)
  | ttyWrite (s : List uchar)
  | setWindowTitle (title : List uchar)
  | flagLockKeyboard (state : Bool)
  | flagApplicationKeypad (state : Bool)
  | flagCursorVisible (state : Bool)
  | flagSoftScroll (state : Bool)
  | flagScreenReversed (state : Bool)

/-- The callbacks whose results the parser uses. -/
structure Frontend where
  getNextTab : Int → Int → Int
  getCharWidth : UInt32 → Int
  requestWidth : Int → Bool

/-! ## The parser -/

inductive TerminalMode where
  | ground | esc | csi | hash | charset | utf8 | string
deriving DecidableEq, Repr

inductive TerminalFlag where
  | KAM | IRM | SRM | LNM | DECTCEM | DECCKM | DECANM | DECCOLM | DECSCLM | DECSCNM | DECOM | DECAWM
  | DECARM | DECPFF | DECPEX | DECKPAM | UTF8
deriving DecidableEq, Repr

/-- The state of the parser. `utf8Buffer` holds the bytes stored so far, so `next_utf8` is its
length; `events` are the calls made while the last byte was processed. -/
structure VTE where
  width : Int
  height : Int
  top : Int
  bottom : Int
  definingCharset : Nat
  cursor : Cursor
  savedCursor : Cursor
  mode : TerminalMode
  flags : TerminalFlag → Bool
  csiData : ControlData
  strData : StringData
  cursorHidden : Bool
  utf8Buffer : List uchar
  events : List Event

end Woterm.Terminal.Data
