import Woterm.Terminal.CmdSpy
import Woterm.Terminal.Geometry

/-!
The states that a spy can reach through its operations, and the sizes that its screen can have
there. The width is only ever changed by the switch between 80 and 132 columns.
-/

namespace Woterm.Terminal.Sizes
open Woterm.Qt Woterm.Terminal.Data Woterm.Terminal.Geometry Woterm.Terminal.CmdSpy

/-- A spy after construction and any calls of its operations. -/
inductive Reachable : QWoCmdSpy → Prop where
  | constructed : Reachable fresh
  | reset {spy : QWoCmdSpy} : Reachable spy → Reachable (CmdSpy.reset spy)
  | process {spy next : QWoCmdSpy} (buf : QByteArray) :
    Reachable spy → CmdSpy.process spy buf = some next → Reachable next
  | output {spy : QWoCmdSpy} : Reachable spy → Reachable (CmdSpy.output spy).2

/-- The size of the screen as constructed, or after a switch of columns. -/
structure Usual (f : Frame) : Prop where
  height : f.height = 768
  width : f.width = 1024 ∨ f.width = 80 ∨ f.width = 132

theorem closed_usual : Closed Usual where
  place := fun _ _ _ _ usual => ⟨usual.height, usual.width⟩
  column := fun _ usual => ⟨usual.height, usual.width⟩
  home := fun f width known usual => by
    refine ⟨usual.height, ?_⟩
    rcases known with same | switched
    · rw [Frame.home, same]
      exact usual.width
    · exact .inr switched
  save := fun _ usual => ⟨usual.height, usual.width⟩

theorem processByte_usual (spy next : QWoCmdSpy) (c : uchar) (usual : Usual (frame spy.vte))
    (processed : processByte spy c = some next) : Usual (frame next.vte) := by
  have allows : Allows Usual spy.vte c :=
    ⟨fun _ => ⟨usual.height, usual.width⟩, fun _ => ⟨usual.height, usual.width⟩⟩
  rw [processByte_vte spy c next processed]
  exact (process_safe closed_usual frontend spy.vte c usual allows).kept

theorem processLoop_usual (bytes : List uchar) (spy next : QWoCmdSpy) (usual : Usual (frame spy.vte))
    (processed : processLoop bytes spy = some next) : Usual (frame next.vte) := by
  induction bytes generalizing spy with
  | nil =>
    rw [← Option.some.inj processed]
    exact usual
  | cons c bytes ih =>
    rw [processLoop] at processed
    split_ifs at processed
    · rw [← Option.some.inj processed]
      exact usual
    · obtain ⟨middle, first, rest⟩ := Option.bind_eq_some_iff.mp processed
      exact ih middle (processByte_usual spy middle c usual first) rest

theorem reset_usual (spy : QWoCmdSpy) (usual : Usual (frame spy.vte)) : Usual (frame (reset spy).vte) := by
  have usual : Usual (frame { spy.vte with events := [] }) := usual
  exact (ris_calm closed_usual _ usual).kept

theorem reachable_usual (spy : QWoCmdSpy) (reachable : Reachable spy) : Usual (frame spy.vte) := by
  induction reachable with
  | constructed => exact reset_usual unset ⟨rfl, .inl rfl⟩
  | reset _ usual => exact reset_usual _ usual
  | @process spy next buf _ processed usual =>
    exact processLoop_usual buf { spy with stop := false } next usual processed
  | output _ usual => exact usual

theorem reachable_width (spy : QWoCmdSpy) (reachable : Reachable spy) :
    ∃ width : Nat, 1 < width ∧ width ≤ fixCollumn ∧ spy.vte.width = width := by
  rcases (reachable_usual spy reachable).width with columns | columns | columns
  · exact ⟨1024, by decide, by decide, columns⟩
  · exact ⟨80, by decide, by decide, columns⟩
  · exact ⟨132, by decide, by decide, columns⟩

theorem reachable_switched (spy : QWoCmdSpy) (reachable : Reachable spy) (other : spy.vte.width ≠ fixCollumn) :
    ∃ width : Nat, 1 < width ∧ width < 1000 ∧ spy.vte.width = width := by
  rcases (reachable_usual spy reachable).width.resolve_left other with columns | columns
  · exact ⟨80, by decide, by decide, columns⟩
  · exact ⟨132, by decide, by decide, columns⟩

end Woterm.Terminal.Sizes
