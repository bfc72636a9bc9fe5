import Woterm.Terminal.ArraySafety
import Woterm.Terminal.CmdSpy
import Woterm.Terminal.Codes
import Woterm.Terminal.Decoder

/-!
The terminal parser decodes UTF-8 text exactly: the bytes of a character are collected in the
buffer, and with the last of them the character is put.
-/

namespace Woterm.Terminal.Utf8Text
open Woterm.Lib Woterm.Terminal.Data Woterm.Terminal.Vte Woterm.Terminal.Decoder
open Woterm.Terminal.ArraySafety Woterm.Terminal.Codes Woterm.Terminal.Geometry

/-! ## Bytes of text -/

/-- The parser reads UTF-8 text and holds the first bytes of a character. -/
structure Holding (buffer : List uchar) (v : VTE) : Prop where
  ground : v.mode = .ground
  utf8 : v.flags .UTF8 = true
  buffer : v.utf8Buffer = buffer

theorem Holding.released {buffer : List uchar} {v w : VTE} (holding : Holding buffer v) (same : view w = view v) :
    Holding [] (resetUtf8Buffer w) :=
  ⟨(congrArg View.mode same).trans holding.ground, (congrArg View.utf8 same).trans holding.utf8, rfl⟩

variable (frontend : Frontend)

/-- What is put for a code point: one that has no width is replaced. -/
def shown (code : UInt32) : UInt32 := if frontend.getCharWidth code < 1 then 65533 else code

/-- What a byte of text does: the bytes held after it, and what is put. -/
def collect (buffer : List uchar) (c : uchar) : List uchar × List UInt32 :=
  if buffer.length = 7 then ([], [])
  else
    match utf8Scan (buffer ++ [c]) 0 0 with
    | some code => ([], [shown frontend code])
    | none => (buffer ++ [c], [])

/-- A control character counts as text inside of a character. -/
def Textual (buffer : List uchar) (c : uchar) : Prop := buffer ≠ [] ∨ isControl c = false

theorem handleText_collect (buffer : List uchar) (c : uchar) (v : VTE) (holding : Holding buffer v)
    (quiet : puts v = []) :
    Holding (collect frontend buffer c).1 (handleText frontend c v) ∧
      codes (handleText frontend c v) = (collect frontend buffer c).2 := by
  have silent : codes v = [] := codes_of_puts v quiet
  unfold handleText collect
  rw [if_pos holding.utf8, holding.buffer]
  split_ifs with full
  · exact ⟨holding.released (view_writeMark v), codes_writeMark v quiet⟩
  · have pushed : Holding (buffer ++ [c]) { v with utf8Buffer := buffer ++ [c] } :=
      ⟨holding.ground, holding.utf8, rfl⟩
    dsimp only
    cases utf8Scan (buffer ++ [c]) 0 0 with
    | none => exact ⟨pushed, silent⟩
    | some code =>
      dsimp only
      unfold shown
      split_ifs
      · exact ⟨pushed.released (view_writeChar _ _ _), codes_writeChar _ _ _ quiet⟩
      · exact ⟨pushed.released (view_writeChar _ _ _), codes_writeChar _ _ _ quiet⟩

theorem process_text (buffer : List uchar) (c : uchar) (v : VTE) (holding : Holding buffer v)
    (textual : Textual buffer c) :
    Holding (collect frontend buffer c).1 (process frontend v c) ∧
      codes (process frontend v c) = (collect frontend buffer c).2 := by
  have text : (v.utf8Buffer.isEmpty && isControl c) = false := by
    rw [holding.buffer]
    rcases textual with inside | other
    · simp [inside]
    · simp [other]
  have handled : process frontend v c = handleText frontend c { v with events := [] } := by
    simp [process, dispatch, holding.ground, text]
  have held : Holding buffer { v with events := [] } := ⟨holding.ground, holding.utf8, holding.buffer⟩
  rw [handled]
  exact handleText_collect frontend buffer c _ held rfl

/-! ## Characters -/

theorem leads_low : ∀ lead ∈ Utf8Ranges.leads,
    lead.marker = 0 ∧ lead.owed = [] ∧ lead.range.high = 0x7f ∨ 0xc2 ≤ lead.range.low := by
  decide

theorem encodeChar_textual (c : Char) (text : 0x20 ≤ c.val.toNat) (first : uchar) (rest : List uchar)
    (shape : String.utf8EncodeChar c = first :: rest) : isControl first = false := by
  have bounds : 0x20 ≤ first.toNat ∧ first.toNat ≤ 0x7f ∨ 0xc2 ≤ first.toNat := by
    obtain ⟨lead, member, start, tail, same, ⟨low, high⟩, follows, spelled⟩ := Utf8Ranges.spells_char c
    obtain ⟨rfl, rfl⟩ := List.cons.inj (shape.symm.trans same)
    rcases leads_low lead member with ⟨marker, owed, most⟩ | least
    · rw [owed] at follows
      cases follows
      rw [spelled, marker] at text
      exact .inl ⟨text, most ▸ high⟩
    · exact .inr (le_trans least low)
  rw [isControl_eq_false_iff]
  omega

theorem run_rest (c : Char) (text : 0x20 ≤ c.val.toNat) (front back : List uchar) (v : VTE)
    (shape : String.utf8EncodeChar c = front ++ back) (more : back ≠ []) (holding : Holding front v) :
    putCodes frontend v back = [shown frontend c.val] ∧ Holding [] (run frontend v back) := by
  induction back generalizing front v with
  | nil => exact absurd rfl more
  | cons b back ih =>
    have textual : Textual front b := by
      cases front with
      | nil => exact .inr (encodeChar_textual c text b back shape)
      | cons first front => exact .inl (List.cons_ne_nil first front)
    have room : front.length ≠ 7 := by
      have size := congrArg List.length shape
      rw [String.length_utf8EncodeChar, List.length_append, List.length_cons] at size
      have least := Char.utf8Size_le_four c
      omega
    obtain ⟨held, put⟩ := process_text frontend front b v holding textual
    unfold collect at held put
    rw [if_neg room] at held put
    by_cases last : back = []
    · subst last
      have scanned : utf8Scan (front ++ [b]) 0 0 = some c.val :=
        (utf8Scan_iff _ _).mpr ⟨c, [], by rw [shape, List.append_nil], rfl⟩
      rw [scanned] at held put
      exact ⟨by rw [putCodes, put]; rfl, held⟩
    · have unfinished : utf8Scan (front ++ [b]) 0 0 = none := by
        rw [Option.eq_none_iff_forall_ne_some]
        intro code found
        obtain ⟨d, rest, start, -⟩ := (utf8Scan_iff _ _).mp found
        have whole : String.utf8EncodeChar c ++ [] = String.utf8EncodeChar d ++ (rest ++ back) := by
          rw [List.append_nil, ← List.append_assoc, ← start, shape, List.append_cons]
        have ended := (Utf8.encodeChar_append_inj _ _ _ _ whole).2
        exact last (List.append_eq_nil_iff.mp ended.symm).2
      rw [unfinished] at held put
      have later := ih (front ++ [b]) _ (by rw [shape, List.append_cons]) last held
      rw [putCodes, put]
      exact later

theorem run_char (c : Char) (text : 0x20 ≤ c.val.toNat) (v : VTE) (holding : Holding [] v) :
    putCodes frontend v (String.utf8EncodeChar c) = [shown frontend c.val] ∧
      Holding [] (run frontend v (String.utf8EncodeChar c)) :=
  run_rest frontend c text [] _ v rfl (Utf8.encodeChar_ne_nil c) holding

/-- Along UTF-8 text, each character is put once, in order, and no byte is held at the end. -/
theorem run_text (text : List Char) (visible : ∀ c ∈ text, 0x20 ≤ c.val.toNat) (v : VTE) (holding : Holding [] v) :
    putCodes frontend v (Utf8.encode text) = text.map (fun c => shown frontend c.val) ∧
      Holding [] (run frontend v (Utf8.encode text)) := by
  induction text generalizing v with
  | nil => exact ⟨rfl, holding⟩
  | cons c text ih =>
    obtain ⟨put, held⟩ := run_char frontend c (visible c List.mem_cons_self) v holding
    obtain ⟨later, final⟩ := ih (fun d member => visible d (List.mem_cons_of_mem c member)) _ held
    rw [Utf8.encode_cons, putCodes_append, run_append, put, later]
    exact ⟨rfl, final⟩

/-- With the callbacks of the spy, the parser puts exactly the characters of the text, whether it
inserts or replaces. -/
theorem text_decoded (text : List Char) (visible : ∀ c ∈ text, 0x20 ≤ c.val.toNat) (v : VTE)
    (ground : v.mode = .ground) (utf8 : v.flags .UTF8 = true) (empty : v.utf8Buffer.length = 0) :
    putCodes CmdSpy.frontend v (Utf8.encode text) = text.map Char.val ∧
      (run CmdSpy.frontend v (Utf8.encode text)).mode = .ground ∧
      (run CmdSpy.frontend v (Utf8.encode text)).utf8Buffer.length = 0 := by
  have holding : Holding [] v := ⟨ground, utf8, List.length_eq_zero_iff.mp empty⟩
  obtain ⟨put, held⟩ := run_text CmdSpy.frontend text visible v holding
  exact ⟨put, held.ground, by rw [held.buffer]; rfl⟩

theorem text_decoded_fresh :
    putCodes CmdSpy.frontend CmdSpy.fresh.vte (Utf8.encode "aé€😀".toList) = [0x61, 0xe9, 0x20ac, 0x1f600] :=
  (text_decoded "aé€😀".toList (by decide) CmdSpy.fresh.vte (by decide) (by decide) (by decide)).1

end Woterm.Terminal.Utf8Text
