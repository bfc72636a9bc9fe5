import Woterm.Terminal.Geometry

/-!
The characters that the terminal parser puts, for one byte and along a run. Moving, scrolling and
clearing put none.
-/

namespace Woterm.Terminal.Codes
open Woterm.Terminal.Data Woterm.Terminal.Vte Woterm.Terminal.Geometry

def codeOf : Event → Option UInt32
  | .putChar c _ _ => some c
  | _ => none

/-- The code points of the `put_char` callbacks for the last byte. -/
def codes (v : VTE) : List UInt32 := v.events.filterMap codeOf

theorem closed_true : Closed fun _ => True :=
  ⟨fun _ _ _ _ _ => trivial, fun _ _ => trivial, fun _ _ _ _ => trivial, fun _ _ => trivial⟩

theorem codes_of_puts (v : VTE) (quiet : puts v = []) : codes v = [] := by
  unfold codes
  rw [List.filterMap_eq_nil_iff]
  intro event member
  have none := List.filterMap_eq_nil_iff.mp quiet event member
  cases event <;> simp_all [codeOf, putOf]

theorem codes_emit (event : Event) (v : VTE) : codes (emit event v) = codes v ++ (codeOf event).toList := by
  cases code : codeOf event <;> simp [codes, emit, code]

theorem codes_hc (v : VTE) : codes (hc v) = codes v := by
  unfold hc
  split_ifs
  · exact (codes_emit _ v).trans (List.append_nil _)
  · rfl

theorem codes_sc (v : VTE) : codes (sc v) = codes v := by
  unfold sc
  split_ifs
  · exact (codes_emit _ v).trans (List.append_nil _)
  · rfl

theorem codes_setChar (c : UInt32) (charWidth : Int) (v : VTE) : codes (setChar c charWidth v) = codes v ++ [c] := by
  unfold setChar Vte.hidden
  dsimp only
  rw [codes_sc, codes_emit, codes_hc]
  rfl

theorem codes_setCharPost (charWidth : Int) (v : VTE) : codes (setCharPost charWidth v) = codes v := by
  unfold setCharPost
  split_ifs
  · rfl
  · exact (codes_sc _).trans (codes_hc v)

theorem codes_writeChar (c : UInt32) (charWidth : Int) (v : VTE) (quiet : puts v = []) :
    codes (writeChar c charWidth v) = [c] := by
  have before := (setCharPre_calm closed_true charWidth v trivial).puts.trans quiet
  unfold writeChar
  rw [codes_setCharPost, codes_setChar, codes_of_puts _ before, List.nil_append]

theorem codes_writeMark (v : VTE) (quiet : puts v = []) : codes (writeMark v) = [] :=
  codes_of_puts _ ((writeMark_calm closed_true v trivial).puts.trans quiet)

/-! ## Runs -/

variable (frontend : Frontend)

def run (v : VTE) (bytes : List uchar) : VTE := bytes.foldl (process frontend) v

/-- The code points put along a run. -/
def putCodes : VTE → List uchar → List UInt32
  | _, [] => []
  | v, c :: bytes => codes (process frontend v c) ++ putCodes (process frontend v c) bytes

theorem run_append (v : VTE) (first second : List uchar) :
    run frontend v (first ++ second) = run frontend (run frontend v first) second :=
  List.foldl_append

theorem putCodes_append (v : VTE) (first second : List uchar) :
    putCodes frontend v (first ++ second) =
      putCodes frontend v first ++ putCodes frontend (run frontend v first) second := by
  induction first generalizing v with
  | nil => rfl
  | cons c first ih =>
    rw [List.cons_append, putCodes, putCodes, ih, List.append_assoc]
    rfl

end Woterm.Terminal.Codes
