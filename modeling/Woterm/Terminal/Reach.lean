import Woterm.Terminal.Bounds
import Woterm.Terminal.Codes
import Woterm.Terminal.Sizes

/-!
The states that a parser of any size gets into: after a reset and any bytes. Its margins are in
order there and its numbers are those of an `int`, whatever was sent.
-/

namespace Woterm.Terminal.Reach
open Woterm.Lib Woterm.Lib.Word32 Woterm.Terminal.Data Woterm.Terminal.Vte Woterm.Terminal.Geometry
open Woterm.Terminal.Codes

/-- A screen with at least one cell, whose size is an `int`. -/
structure Sizable (v : VTE) : Prop where
  width : 0 < v.width ∧ v.width < 2147483648
  height : 0 < v.height ∧ v.height < 2147483648

variable (frontend : Frontend)

/-- The parser was reset and then given some bytes. -/
def Reached (v : VTE) : Prop := ∃ start bytes, Sizable start ∧ v = run frontend (Vte.reset start) bytes

/-- What holds of the screen and the margins in every such state. -/
structure Sane (f : Frame) : Prop where
  width : 0 < f.width ∧ f.width < 2147483648
  height : 0 < f.height ∧ f.height < 2147483648
  margins : 0 ≤ f.top ∧ f.top ≤ f.bottom ∧ f.bottom < 2147483647

theorem closed_sane : Closed Sane where
  place := fun _ _ _ _ sane => ⟨sane.width, sane.height, sane.margins⟩
  column := fun _ sane => ⟨sane.width, sane.height, sane.margins⟩
  home := fun f width known sane => by
    have old := sane.width
    have height := sane.height
    refine ⟨?_, height, ?_⟩
    · simp only [Frame.home]
      omega
    · simp only [Frame.home]
      omega
  save := fun _ sane => ⟨sane.width, sane.height, sane.margins⟩

theorem wrap_range (value : Int) : -2147483648 ≤ wrap value ∧ wrap value < 2147483648 := by
  unfold wrap
  omega

theorem wrap_self (value : Int) (lower : -2147483648 ≤ value) (upper : value < 2147483648) : wrap value = value := by
  unfold wrap
  omega

theorem getArg_range (data : ControlData) (arg : Nat) :
    -2147483648 ≤ data.getArg arg ∧ data.getArg arg < 2147483648 := by
  unfold ControlData.getArg
  split
  · exact wrap_range _
  · decide

theorem count_range (v : VTE) (arg : Nat) : 1 ≤ count v arg ∧ count v arg < 2147483648 := by
  have range := getArg_range v.csiData arg
  unfold count getDefault
  split_ifs <;> omega

theorem allows_sane (v : VTE) (c : uchar) (sane : Sane (frame v)) : Allows Sane v c := by
  refine ⟨fun sets => ⟨sane.width, sane.height, ?_⟩, fun _ => ⟨sane.width, sane.height, sane.margins⟩⟩
  have order := sets.2.2.2.2
  have top := count_range v 0
  have height := sane.height
  have bottom := getArg_range v.csiData 1
  have known : (frame v).height = v.height := rfl
  simp only [requestedTop, requestedBottom, getDefault] at order ⊢
  split_ifs at order ⊢ <;> omega

theorem process_sane (v : VTE) (c : uchar) (sane : Sane (frame v)) : Sane (frame (process frontend v c)) :=
  (process_safe closed_sane frontend v c sane (allows_sane v c sane)).kept

theorem run_sane (bytes : List uchar) (v : VTE) (sane : Sane (frame v)) : Sane (frame (run frontend v bytes)) := by
  induction bytes generalizing v with
  | nil => exact sane
  | cons c bytes ih => exact ih (process frontend v c) (process_sane frontend v c sane)

theorem reset_sane (v : VTE) (sizable : Sizable v) : Sane (frame (Vte.reset v)) := by
  have height := sizable.height
  have frames : frame (Vte.reset v) = frame (risState v) := (ris_still { v with events := [] }).frame
  rw [frames]
  refine ⟨sizable.width, height, ?_⟩
  simp only [frame, risState]
  omega

theorem reached_sane (v : VTE) (reached : Reached frontend v) : Sane (frame v) := by
  obtain ⟨start, bytes, sizable, rfl⟩ := reached
  exact run_sane frontend bytes _ (reset_sane start sizable)

end Woterm.Terminal.Reach
