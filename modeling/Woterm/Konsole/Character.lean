import Mathlib.Data.Nat.Bits

/-!
A cell of the screen (`Character.h`, `CharacterColor.h`): a character with its colors and its rendition.
-/

namespace Woterm.Konsole

inductive ColorSpace where
  | undefined
  | default
  | system
  | index256
  | rgb
deriving DecidableEq, Repr

/-- The color spaces by their numbers. -/
def ColorSpace.ofCode : Nat → ColorSpace
  | 1 => .default
  | 2 => .system
  | 3 => .index256
  | 4 => .rgb
  | _ => .undefined

structure CharacterColor where
  colorSpace : ColorSpace := .undefined
  u : UInt8 := 0
  v : UInt8 := 0
  w : UInt8 := 0
deriving DecidableEq, Repr

namespace CharacterColor

def make (space : ColorSpace) (co : Nat) : CharacterColor :=
  match space with
  | .default => { colorSpace := .default, u := .ofNat (co &&& 1) }
  | .system => { colorSpace := .system, u := .ofNat (co &&& 7), v := .ofNat ((co >>> 3) &&& 1) }
  | .index256 => { colorSpace := .index256, u := .ofNat (co &&& 255) }
  | .rgb => { colorSpace := .rgb, u := .ofNat (co >>> 16), v := .ofNat (co >>> 8), w := .ofNat co }
  | .undefined => {}

def isValid (color : CharacterColor) : Bool := color.colorSpace != .undefined

def setIntensive (color : CharacterColor) : CharacterColor :=
  if color.colorSpace = .system ∨ color.colorSpace = .default then { color with v := 1 } else color

end CharacterColor

def DEFAULT_FORE_COLOR : Nat := 0
def DEFAULT_BACK_COLOR : Nat := 1

/-! Renditions. A screen keeps the lowest eight bits only. -/

def RE_BOLD : Nat := 1 <<< 0
def RE_BLINK : Nat := 1 <<< 1
def RE_UNDERLINE : Nat := 1 <<< 2
def RE_REVERSE : Nat := 1 <<< 3
def RE_ITALIC : Nat := 1 <<< 4
def RE_FAINT : Nat := 1 <<< 7
def RE_STRIKEOUT : Nat := 1 <<< 8
def RE_CONCEAL : Nat := 1 <<< 9
def RE_OVERLINE : Nat := 1 <<< 10

def LINE_DEFAULT : UInt8 := 0
def LINE_WRAPPED : UInt8 := 1
def LINE_DOUBLEWIDTH : UInt8 := 2
def LINE_DOUBLEHEIGHT : UInt8 := 4

/-- The number of a `wchar_t`. -/
abbrev WChar := Nat

structure Character where
  character : WChar := 0x20
  rendition : UInt8 := 0
  foregroundColor : CharacterColor := .make .default DEFAULT_FORE_COLOR
  backgroundColor : CharacterColor := .make .default DEFAULT_BACK_COLOR
deriving DecidableEq, Repr

/-- `Screen::defaultChar`, which is `Character()` too. -/
def defaultChar : Character := {}

end Woterm.Konsole
