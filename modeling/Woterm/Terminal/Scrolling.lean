import Woterm.Terminal.Bounds
import Woterm.Terminal.Log
import Woterm.Terminal.PlainText

/-!
How many rows scroll off the screen of the spy. Every byte scrolls at most one row, but for the
final bytes that scroll by their parameter, which is taken as it was sent.
-/

namespace Woterm.Terminal.Scrolling
open Woterm.Qt Woterm.Terminal.Data Woterm.Terminal.Vte Woterm.Terminal.Log Woterm.Terminal.TextBytes
open Woterm.Terminal.Bounds Woterm.Terminal.CmdSpy

def scrollOf : Event → Option Int
  | .scrollUp _ _ n _ => some n
  | _ => none

/-- The counts of the `scroll_up` callbacks for the last byte. -/
def scrolls (v : VTE) : List Int := v.events.filterMap scrollOf

theorem scrolls_eq (v : VTE) : scrolls v = (log v).filterMap scrollOf := by
  apply filterMap_log
  intro event quiet
  cases event <;> first | rfl | cases quiet

theorem scrolls_process (frontend : Frontend) (v : VTE) (c : uchar) :
    scrolls (Vte.process frontend v c) = [] ∨ scrolls (Vte.process frontend v c) = [1] ∨
      ScrollsUp v c ∧ scrolls (Vte.process frontend v c) = [count v 0] := by
  rw [scrolls_eq]
  have told := process_told frontend v c
  generalize log (Vte.process frontend v c) = events at told
  cases told with
  | silent => exact .inl rfl
  | line cursor => exact .inr (.inl rfl)
  | scroll y cursor given => exact .inr (.inr ⟨given, rfl⟩)
  | clear events cleared =>
    refine .inl (List.filterMap_eq_nil_iff.mpr fun event member => ?_)
    obtain ⟨x1, y1, x2, y2, cursor, rfl, -⟩ := cleared event member
    rfl
  | erase y erases => exact .inl rfl
  | title title looks finished known => exact .inl rfl
  | bell rings between unfinished => exact .inl rfl

theorem process_scrollsUp (frontend : Frontend) (v : VTE) (c : uchar) (given : ScrollsUp v c) :
    ∃ y, Vte.process frontend v c = resetEscape (trmScrollUp y (count v 0) { v with events := [] }) := by
  obtain ⟨mode, space, rfl | rfl⟩ := given
  · rw [process_csi frontend v _ mode space .SU (by decide)]
    exact ⟨v.top, rfl⟩
  · rw [process_csi frontend v _ mode space .DL (by decide)]
    exact ⟨v.cursor.y, rfl⟩

theorem scrolls_of_scrollsUp (frontend : Frontend) (v : VTE) (c : uchar) (given : ScrollsUp v c) :
    scrolls (Vte.process frontend v c) = [count v 0] := by
  obtain ⟨y, processed⟩ := process_scrollsUp frontend v c given
  rw [processed, scrolls_eq, log_resetEscape, log_trmScrollUp]
  rfl

/-! ## The rows that were kept -/

theorem scrollUp_tops (n : Nat) (spy next : QWoCmdSpy) (scrolled : CmdSpy.scrollUp n spy = some next) :
    next.tops.length = spy.tops.length + n := by
  induction n generalizing spy with
  | zero => rw [← Option.some.inj scrolled, Nat.add_zero]
  | succ n ih =>
    unfold CmdSpy.scrollUp at scrolled
    split at scrolled
    · cases scrolled
    · rw [ih _ scrolled, List.length_append, List.length_singleton, Nat.add_right_comm, Nat.add_assoc]

theorem handle_tops (spy next : QWoCmdSpy) (event : Event) (handled : handle spy event = some next) :
    next.tops.length = spy.tops.length + (scrollOf event).elim 0 Int.toNat := by
  cases event
  case putChar c charWidth cursor =>
    have put : CmdSpy.putChar c cursor spy = some next := handled
    unfold CmdSpy.putChar at put
    split_ifs at put
    rw [← Option.some.inj put]
    rfl
  case scrollUp y1 y2 n cursor => exact scrollUp_tops n.toNat spy next handled
  all_goals
    rw [← Option.some.inj handled]
    rfl

theorem handled_tops (events : List Event) (spy next : QWoCmdSpy) (handled : events.foldlM handle spy = some next) :
    next.tops.length = spy.tops.length + ((events.filterMap scrollOf).map Int.toNat).sum := by
  induction events generalizing spy with
  | nil => rw [← Option.some.inj handled]; rfl
  | cons event events ih =>
    obtain ⟨middle, first, later⟩ := Option.bind_eq_some_iff.mp handled
    rw [ih middle later, handle_tops spy middle event first]
    cases scroll : scrollOf event with
    | none => simp [scroll]
    | some n => simp [scroll, Nat.add_assoc]

theorem processByte_tops (spy next : QWoCmdSpy) (c : uchar) (processed : processByte spy c = some next) :
    next.tops.length = spy.tops.length + ((scrolls (Vte.process frontend spy.vte c)).map Int.toNat).sum :=
  handled_tops _ { spy with vte := Vte.process frontend spy.vte c } next processed

/-- The byte scrolls at most as many rows as the screen has. -/
def Fits (v : VTE) (c : uchar) : Prop := ScrollsUp v c → count v 0 ≤ fixRow

theorem scrolls_le (v : VTE) (c : uchar) (fits : Fits v c) : ∀ n ∈ scrolls (Vte.process frontend v c), n ≤ fixRow := by
  have one : (1 : Int) ≤ fixRow := by decide
  rcases scrolls_process frontend v c with none | single | ⟨given, several⟩
  · rw [none]
    simp
  · rw [single, List.forall_mem_singleton]
    exact one
  · rw [several, List.forall_mem_singleton]
    exact fits given

theorem sum_scrolls_le (v : VTE) (c : uchar) (fits : Fits v c) :
    ((scrolls (Vte.process frontend v c)).map Int.toNat).sum ≤ fixRow := by
  have each := scrolls_le v c fits
  rcases scrolls_process frontend v c with none | single | ⟨-, several⟩
  · rw [none]
    exact Nat.zero_le _
  · rw [single]
    decide
  · rw [several] at each ⊢
    rw [List.forall_mem_singleton] at each
    simpa using each

/-! ## Whole inputs -/

theorem processLoop_stop (bytes : List uchar) (spy : QWoCmdSpy) (stop : spy.stop = true) :
    processLoop bytes spy = some spy := by
  cases bytes with
  | nil => rfl
  | cons c bytes => rw [processLoop, if_pos stop]

theorem processLoop_append (first second : List uchar) (spy : QWoCmdSpy) :
    processLoop (first ++ second) spy = (processLoop first spy).bind (processLoop second) := by
  induction first generalizing spy with
  | nil => rfl
  | cons c first ih =>
    rw [List.cons_append, processLoop, processLoop]
    split_ifs with stop
    · rw [Option.bind_some, processLoop_stop second spy stop]
    · rw [Option.bind_assoc]
      congr 1
      funext next
      exact ih next

/-- The memory and the work that the input costs: at most as many rows as the screen has for every
byte, and never more for one. -/
structure Proportional (spy : QWoCmdSpy) (bytes : List uchar) : Prop where
  rows : ∀ next, process (reset spy) bytes = some next → next.tops.length ≤ fixRow * bytes.length
  each : ∀ front c back state, bytes = front ++ c :: back → process (reset spy) front = some state →
    state.stop = false → ∀ n ∈ scrolls (Vte.process frontend state.vte c), n ≤ fixRow

/-- The run: if every byte fits, at most 768 rows are kept for each. -/
theorem tops_le (spy : QWoCmdSpy) (bytes : List uchar)
    (fits : ∀ front c back state, bytes = front ++ c :: back → process (reset spy) front = some state →
      state.stop = false → Fits state.vte c) (next : QWoCmdSpy) (processed : process (reset spy) bytes = some next) :
    next.tops.length ≤ fixRow * bytes.length := by
  induction bytes using List.reverseRecOn generalizing next with
  | nil =>
    rw [← Option.some.inj processed]
    exact Nat.zero_le _
  | append_singleton bytes c ih =>
    have earlier := ih fun front d back state split =>
      fits front d (back ++ [c]) state (by rw [split, List.append_assoc, List.cons_append])
    unfold CmdSpy.process at processed earlier
    rw [processLoop_append] at processed
    obtain ⟨state, reached, last⟩ := Option.bind_eq_some_iff.mp processed
    have before := earlier state reached
    rw [List.length_append, List.length_singleton, Nat.mul_add, Nat.mul_one]
    by_cases stop : state.stop = true
    · rw [processLoop_stop [c] state stop] at last
      rw [← Option.some.inj last]
      omega
    · have going : state.stop = false := by simpa using stop
      rw [processLoop, if_neg stop] at last
      obtain ⟨final, stepped, same⟩ := Option.bind_eq_some_iff.mp last
      have grown := processByte_tops state final c stepped
      have added := sum_scrolls_le state.vte c (fits bytes c [] state rfl reached going)
      rw [← Option.some.inj same]
      omega

/-- Work and memory are proportional to the input if and only if no final byte that scrolls by its
parameter arrives with one above 768. -/
theorem proportional_iff (spy : QWoCmdSpy) (bytes : List uchar) :
    Proportional spy bytes ↔ ∀ front c back state, bytes = front ++ c :: back →
      process (reset spy) front = some state → state.stop = false → ScrollsUp state.vte c →
      count state.vte 0 ≤ fixRow := by
  refine ⟨?_, ?_⟩
  · intro proportional front c back state split reached going given
    have each := proportional.each front c back state split reached going
    rw [scrolls_of_scrollsUp frontend state.vte c given, List.forall_mem_singleton] at each
    exact each
  · intro fits
    refine ⟨tops_le spy bytes fits, ?_⟩
    intro front c back state split reached going
    exact scrolls_le state.vte c (fits front c back state split reached going)

theorem scrollUp_some (n : Nat) (spy : QWoCmdSpy) (rows : spy.lines ≠ []) :
    ∃ next, CmdSpy.scrollUp n spy = some next := by
  induction n generalizing spy with
  | zero => exact ⟨spy, rfl⟩
  | succ n ih =>
    obtain ⟨first, rest, lines⟩ := List.exists_cons_of_ne_nil rows
    unfold CmdSpy.scrollUp
    rw [lines]
    exact ih _ (by simp)

theorem processByte_scrollsUp (spy : QWoCmdSpy) (c : uchar) (given : ScrollsUp spy.vte c) (rows : spy.lines ≠ []) :
    ∃ next, processByte spy c = some next ∧ next.tops.length = spy.tops.length + (count spy.vte 0).toNat := by
  obtain ⟨y, processed⟩ := process_scrollsUp frontend spy.vte c given
  have called : calls (Vte.process frontend spy.vte c) = [.scroll (count spy.vte 0)] := by
    rw [processed]
    exact calls_trmScrollUp y _ _
  obtain ⟨next, scrolled⟩ :=
    scrollUp_some (count spy.vte 0).toNat { spy with vte := Vte.process frontend spy.vte c } rows
  have stepped : processByte spy c = some next := by
    rw [PlainText.processByte_calls, called, List.foldlM_cons]
    exact congrArg (Option.bind · _) scrolled
  refine ⟨next, stepped, ?_⟩
  rw [processByte_tops spy next c stepped, scrolls_of_scrollsUp frontend spy.vte c given]
  simp

/-- `ESC [ 9999 S`. -/
def scrollFar : QByteArray := "\x1b[9999S".toList.map byte

/-- Seven bytes make 9999 rows of 1024 characters. -/
theorem far_not_proportional : ¬ Proportional unset scrollFar ∧
    ∃ next, process (reset unset) scrollFar = some next ∧ next.tops.length = 9999 := by
  have before : (process fresh (scrollFar.take 6)).map (fun spy => (spy.vte.mode, spy.vte.csiData.spaceLeft,
      count spy.vte 0, spy.stop, spy.tops.length, spy.lines.length)) = some (.csi, true, 9999, false, 0, 768) := by
    decide +kernel
  obtain ⟨state, reached, fields⟩ := Option.map_eq_some_iff.mp before
  simp only [Prod.mk.injEq] at fields
  obtain ⟨mode, space, parameter, going, tops, lines⟩ := fields
  have given : ScrollsUp state.vte (byte 'S') := ⟨mode, space, .inl rfl⟩
  have bytes : scrollFar = scrollFar.take 6 ++ [byte 'S'] := by decide
  have rows : state.lines ≠ [] := by
    intro none
    rw [none] at lines
    cases lines
  obtain ⟨next, stepped, grown⟩ := processByte_scrollsUp state (byte 'S') given rows
  have whole : process (reset unset) scrollFar = some next := by
    unfold CmdSpy.process at reached ⊢
    rw [bytes, processLoop_append]
    refine Option.bind_eq_some_iff.mpr ⟨state, reached, ?_⟩
    rw [processLoop, if_neg (ne_true_of_eq_false going), stepped]
    rfl
  rw [tops, parameter] at grown
  refine ⟨?_, next, whole, grown⟩
  intro proportional
  have few := proportional.rows next whole
  rw [grown] at few
  exact absurd few (by decide)

end Woterm.Terminal.Scrolling
