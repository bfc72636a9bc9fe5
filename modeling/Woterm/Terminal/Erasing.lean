import Woterm.Terminal.Log
import Woterm.Terminal.Reach

/-!
The rectangles that the terminal is asked to clear. They are inside the screen whenever the cursor
is, but for those that erase a number of characters: these reach one column too far, and end where
the number says even if the screen does not.
-/

namespace Woterm.Terminal.Erasing
open Woterm.Lib Woterm.Lib.Word32 Woterm.Terminal.Data Woterm.Terminal.Vte Woterm.Terminal.Geometry
open Woterm.Terminal.Bounds Woterm.Terminal.Codes Woterm.Terminal.Log Woterm.Terminal.Reach

/-- The corners of a `clear_region`. -/
structure Rectangle where
  x1 : Int
  y1 : Int
  x2 : Int
  y2 : Int
deriving DecidableEq, Repr

def Rectangle.cells (r : Rectangle) : Int := (r.x2 - r.x1 + 1) * (r.y2 - r.y1 + 1)

def rectangleOf : Event → Option Rectangle
  | .clearRegion x1 y1 x2 y2 _ => some ⟨x1, y1, x2, y2⟩
  | _ => none

/-- What the last byte asks to clear. -/
def rectangles (v : VTE) : List Rectangle := v.events.filterMap rectangleOf

theorem rectangles_eq (v : VTE) : rectangles v = (log v).filterMap rectangleOf := by
  apply filterMap_log
  intro event quiet
  cases event <;> first | rfl | cases quiet

variable (frontend : Frontend)

/-- All rectangles are inside the screen, and erasing characters clears as many cells as it should. -/
structure WellErased (v : VTE) (c : uchar) : Prop where
  framed : ∀ r ∈ rectangles (process frontend v c),
    (0 ≤ r.x1 ∧ r.x1 ≤ r.x2 ∧ r.x2 ≤ (process frontend v c).width - 1) ∧
      0 ≤ r.y1 ∧ r.y1 ≤ r.y2 ∧ r.y2 ≤ (process frontend v c).height - 1
  exact : ErasesCharacters v c → (rectangles (process frontend v c)).map Rectangle.cells =
    [min (max (v.csiData.getArg 0) 1) (v.width - v.cursor.x)]

theorem framed_of_told (v : VTE) (c : uchar) (screen : OnScreen v) (other : ¬ ErasesCharacters v c)
    (r : Rectangle) (member : r ∈ rectangles (process frontend v c)) :
    Framed (process frontend v c) r.x1 r.y1 r.x2 r.y2 := by
  rw [rectangles_eq] at member
  have told := process_told frontend v c
  generalize log (process frontend v c) = events at told member
  obtain ⟨event, called, known⟩ := List.mem_filterMap.mp member
  cases told with
  | clear events cleared =>
    obtain ⟨x1, y1, x2, y2, cursor, rfl, framed⟩ := cleared event called
    obtain rfl := Option.some.inj known
    exact framed screen
  | erase y erases => exact absurd erases other
  | silent => simp at called
  | line => simp [rectangleOf] at member
  | scroll => simp [rectangleOf] at member
  | title => simp [rectangleOf] at member
  | bell => simp [rectangleOf] at member

theorem rectangles_erased (v : VTE) (c : uchar) (inside : OnGrid v v.cursor) (erases : ErasesCharacters v c) :
    rectangles (process frontend v c) =
      [⟨v.cursor.x, v.cursor.y, wrap (v.cursor.x + count v 0), v.cursor.y⟩] := by
  obtain ⟨mode, space, rfl⟩ := erases
  have kept : setRange v.cursor.y 0 (v.height - 1) = v.cursor.y :=
    setRange_self _ _ _ inside.2.1 (by have := inside.2.2; omega)
  rw [process_csi frontend v _ mode space .ECH (by decide),
    rectangles_eq, log_resetEscape, Vte.final, log_trmClearRegion]
  simp only [kept]
  rfl

theorem cells_erased (v : VTE) (c : uchar) (sane : Sane (frame v)) (inside : OnGrid v v.cursor)
    (erases : ErasesCharacters v c) : (rectangles (process frontend v c)).map Rectangle.cells ≠
      [min (max (v.csiData.getArg 0) 1) (v.width - v.cursor.x)] := by
  have range := count_range v 0
  have width := sane.width.2
  have known : (frame v).width = v.width := rfl
  have parameter : count v 0 = max (v.csiData.getArg 0) 1 := by
    unfold count getDefault
    split_ifs <;> omega
  rw [rectangles_erased frontend v c inside erases, ← parameter]
  intro same
  have equal := (List.cons.inj same).1
  simp only [Rectangle.cells, sub_self, zero_add, mul_one, wrap] at equal
  obtain ⟨column, -⟩ := inside
  omega

/-- In every state that the parser gets into with its cursor on the screen, and for every further
byte, the rectangles are well formed if and only if the byte does not erase characters. -/
theorem wellErased_iff (v : VTE) (reached : Reached frontend v) (inside : OnGrid v v.cursor) (c : uchar) :
    WellErased frontend v c ↔ ¬ ErasesCharacters v c := by
  have sane := reached_sane frontend v reached
  refine ⟨?_, ?_⟩
  · intro well erases
    exact cells_erased frontend v c sane inside erases (well.exact erases)
  · intro other
    refine ⟨?_, fun erases => absurd erases other⟩
    exact framed_of_told frontend v c ⟨sane.width.1, sane.height.1, inside⟩ other

/-- The rest of the first line is erased. -/
theorem wellErased_iff_line :
    WellErased CmdSpy.frontend (run CmdSpy.frontend CmdSpy.fresh.vte [0x1b, byte '[']) (byte 'K') := by
  have reached : Reached CmdSpy.frontend (run CmdSpy.frontend CmdSpy.fresh.vte [0x1b, byte '[']) :=
    ⟨CmdSpy.blank, _, ⟨by decide, by decide⟩, rfl⟩
  refine (wellErased_iff CmdSpy.frontend _ reached ⟨by decide +kernel, by decide +kernel⟩ (byte 'K')).mpr ?_
  exact fun erases => absurd erases.2.2 (by decide)

/-- `ESC [ 3 X` at the start of a line, where it clears four cells. -/
def eraseThree : VTE := run CmdSpy.frontend CmdSpy.fresh.vte ("\x1b[3".toList.map byte)

/-- The same in the last of 1024 columns, where it clears three cells right of the screen. -/
def eraseLast : VTE := run CmdSpy.frontend CmdSpy.fresh.vte ("\x1b[1;1024H\x1b[3".toList.map byte)

theorem erased_too_far : ¬ WellErased CmdSpy.frontend eraseThree (byte 'X') ∧
    ¬ WellErased CmdSpy.frontend eraseLast (byte 'X') := by
  have four : rectangles (process CmdSpy.frontend eraseThree (byte 'X')) = [⟨0, 0, 3, 0⟩] := by
    decide +kernel
  have beyond : rectangles (process CmdSpy.frontend eraseLast (byte 'X')) = [⟨1023, 0, 1026, 0⟩] ∧
      (process CmdSpy.frontend eraseLast (byte 'X')).width = 1024 := by
    decide +kernel
  refine ⟨?_, ?_⟩
  · intro well
    have three := well.exact ⟨by decide +kernel, by decide +kernel, rfl⟩
    rw [four] at three
    exact absurd three (by decide +kernel)
  · intro well
    have framed := well.framed ⟨1023, 0, 1026, 0⟩ (by rw [beyond.1]; exact List.mem_singleton_self _)
    rw [beyond.2] at framed
    exact absurd framed.1.2.2 (by decide)

end Woterm.Terminal.Erasing
