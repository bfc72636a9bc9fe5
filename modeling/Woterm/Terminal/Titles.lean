import Woterm.Lib.Text
import Woterm.Lib.Utf8
import Woterm.Terminal.CmdSpy
import Woterm.Terminal.Codes
import Woterm.Terminal.Strings

/-!
Titles from the introducer to the terminator. A title arrives if its bytes fit in the buffer and
none of them looks like a control character; otherwise what arrives is shorter, or nothing.
-/

namespace Woterm.Terminal.Titles
open Woterm.Lib Woterm.Lib.CString Woterm.Terminal.Data Woterm.Terminal.Vte Woterm.Terminal.Step
open Woterm.Terminal.Log Woterm.Terminal.Codes Woterm.Terminal.Strings

variable (frontend : Frontend)

/-- The titles set along a run. -/
def runTitles : VTE → List uchar → List (List uchar)
  | _, [] => []
  | v, c :: bytes => titles (process frontend v c) ++ runTitles (process frontend v c) bytes

theorem runTitles_append (v : VTE) (first second : List uchar) :
    runTitles frontend v (first ++ second) =
      runTitles frontend v first ++ runTitles frontend (run frontend v first) second := by
  induction first generalizing v with
  | nil => rfl
  | cons c first ih =>
    rw [List.cons_append, runTitles, runTitles, ih, List.append_assoc]
    rfl

/-- Neither a title is set nor a character put. -/
structure Quiet (v : VTE) (bytes : List uchar) : Prop where
  titles : runTitles frontend v bytes = []
  codes : putCodes frontend v bytes = []

theorem Quiet.nil (v : VTE) : Quiet frontend v [] := ⟨rfl, rfl⟩

theorem Quiet.cons {v : VTE} {c : uchar} {bytes : List uchar} (silent : (process frontend v c).events = [])
    (quiet : Quiet frontend (process frontend v c) bytes) : Quiet frontend v (c :: bytes) := by
  refine ⟨?_, ?_⟩
  · rw [runTitles, quiet.titles, Strings.titles, silent]
    rfl
  · rw [putCodes, quiet.codes, Codes.codes, silent]
    rfl

theorem Quiet.append {v : VTE} {first second : List uchar} (before : Quiet frontend v first)
    (after : Quiet frontend (run frontend v first) second) : Quiet frontend v (first ++ second) := by
  refine ⟨?_, ?_⟩
  · rw [runTitles_append, before.titles, after.titles, List.append_nil]
  · rw [putCodes_append, before.codes, after.codes, List.append_nil]

/-! ## The string is read -/

theorem run_body {type : StringType} (more body : List uchar) (v : VTE) (reading : Reading type body v)
    (others : ∀ c ∈ more, endsString c = false) (room : body.length + more.length ≤ 254) :
    Reading type (body ++ more) (run frontend v more) ∧ (run frontend v more).utf8Buffer = v.utf8Buffer ∧
      Quiet frontend v more := by
  induction more generalizing body v with
  | nil => exact ⟨by rwa [List.append_nil], rfl, Quiet.nil frontend v⟩
  | cons c more ih =>
    rw [List.length_cons] at room
    obtain ⟨other, later⟩ := List.forall_mem_cons.mp others
    have kept := process_eq_keep frontend v c reading.mode other
    obtain ⟨next, buffer, silent⟩ := keep_reading reading other (by omega)
    rw [← kept] at next buffer silent
    obtain ⟨last, same, quiet⟩ := ih (body ++ [c]) _ next later (by rw [List.length_append, List.length_singleton]; omega)
    refine ⟨?_, same.trans buffer, Quiet.cons frontend silent quiet⟩
    rw [List.append_assoc] at last
    exact last

theorem run_open (v : VTE) (empty : v.utf8Buffer = []) :
    Reading .osc [] (run frontend v [0x1b, byte ']']) ∧ (run frontend v [0x1b, byte ']']).utf8Buffer = [] ∧
      Quiet frontend v [0x1b, byte ']'] := by
  have first := process_escaped frontend empty
  generalize reached : process frontend v 0x1b = w at first
  have second : process frontend w (byte ']') = openString .osc { w with events := [] } :=
    process_osc frontend (by rw [first])
  have opened : run frontend v [0x1b, byte ']'] = openString .osc { w with events := [] } := by
    rw [← second, ← reached]
    rfl
  have buffer : w.utf8Buffer = [] := by
    rw [first]
    exact (arrival_utf8Buffer v).trans empty
  rw [opened]
  refine ⟨⟨rfl, rfl⟩, buffer, ?_⟩
  apply Quiet.cons frontend
  · rw [reached, first]
    exact arrival_log v
  · apply Quiet.cons frontend _ (Quiet.nil frontend _)
    rw [reached, second]
    rfl

/-! ## The forms -/

def number (digit : Fin 3) : uchar := [byte '0', byte '1', byte '2'].get digit

/-- The accepted forms of a title. -/
inductive Form where
  | bell (digit : Fin 3)
  | terminated (digit : Fin 3)
  | title
deriving DecidableEq, Repr

def introducer : Form → List uchar
  | .bell digit => [0x1b, byte ']', number digit, byte ';']
  | .terminated digit => [0x1b, byte ']', number digit, byte ';']
  | .title => [0x1b, byte 'k']

def terminator : Form → List uchar
  | .bell _ => [0x07]
  | .terminated _ => [0x1b, byte '\\']
  | .title => [0x1b, byte '\\']

/-- The title is set, once and as it is, and nothing is put. -/
def Arrives (v : VTE) (form : Form) (title : List uchar) : Prop :=
  runTitles frontend v (introducer form ++ title ++ terminator form) = [title] ∧
    putCodes frontend v (introducer form ++ title ++ terminator form) = []

theorem number_spec (digit : Fin 3) : endsString (number digit) = false ∧ NulFree [number digit] ∧
    byte ';' ∉ [number digit] ∧ (atoi [number digit] = 0 ∨ atoi [number digit] = 1 ∨ atoi [number digit] = 2) := by
  revert digit
  decide

theorem titleOf_numbered (digit : Fin 3) (finished : Bool) (title : List uchar) (clean : NulFree title) :
    titleOf (stored .osc finished ([number digit] ++ byte ';' :: title)) = some title := by
  obtain ⟨-, number, plain, known⟩ := number_spec digit
  rw [titleOf_separated finished _ title number clean plain, if_pos known]

/-- The parser has read a title up to its terminator. -/
structure Complete (digit : Fin 3) (title : List uchar) (v : VTE) : Prop where
  reading : Reading .osc ([number digit] ++ byte ';' :: title) v
  empty : v.utf8Buffer = []

theorem run_numbered (v : VTE) (empty : v.utf8Buffer = []) (digit : Fin 3)
    (title : List uchar) (others : ∀ c ∈ title, endsString c = false) (room : title.length ≤ 252) :
    Complete digit title (run frontend v ([0x1b, byte ']', number digit, byte ';'] ++ title)) ∧
      Quiet frontend v ([0x1b, byte ']', number digit, byte ';'] ++ title) := by
  obtain ⟨opened, between, silent⟩ := run_open frontend v empty
  have body : ∀ c ∈ number digit :: byte ';' :: title, endsString c = false := by
    simp only [List.forall_mem_cons]
    exact ⟨(number_spec digit).1, by decide, others⟩
  obtain ⟨reading, buffer, quiet⟩ := run_body frontend (number digit :: byte ';' :: title) [] _ opened body
    (by simp only [List.length_nil, List.length_cons]; omega)
  have split : [0x1b, byte ']', number digit, byte ';'] ++ title =
      [0x1b, byte ']'] ++ (number digit :: byte ';' :: title) := rfl
  rw [split, run_append]
  exact ⟨⟨reading, buffer.trans between⟩, silent.append frontend quiet⟩

theorem puts_parseString (v : VTE) (silent : v.events = []) : Geometry.puts (resetEscape (parseString v)) = [] := by
  have none : Geometry.puts v = [] := by
    rw [Geometry.puts, silent]
    rfl
  exact (Geometry.parseString_still v).puts.trans none

theorem complete_bell {digit : Fin 3} {title : List uchar} {v : VTE} (complete : Complete digit title v)
    (clean : NulFree title) : runTitles frontend v [0x07] = [title] ∧ putCodes frontend v [0x07] = [] := by
  have data := complete.reading.finished
  have finished : (arrival v).strData.finished = true := by
    rw [data]
    rfl
  refine ⟨?_, ?_⟩
  · rw [runTitles, runTitles, List.append_nil, titles_bell frontend complete.empty finished, data,
      titleOf_numbered digit true title clean]
    rfl
  · rw [putCodes, putCodes, List.append_nil, process_bell frontend complete.empty, Vte.control, if_pos finished]
    exact codes_of_puts _ (puts_parseString _ (arrival_log v))

theorem complete_terminated {digit : Fin 3} {title : List uchar} {v : VTE} (complete : Complete digit title v)
    (clean : NulFree title) :
    runTitles frontend v [0x1b, byte '\\'] = [title] ∧ putCodes frontend v [0x1b, byte '\\'] = [] := by
  have data := complete.reading.finished
  have escaped := process_escaped frontend complete.empty
  generalize reached : process frontend v 0x1b = w at escaped
  have mode : w.mode = .esc := by rw [escaped]
  have kept : w.strData = stored .osc true ([number digit] ++ byte ';' :: title) := by rw [escaped, ← data]
  have silent : w.events = [] := by
    rw [escaped]
    exact arrival_log v
  have finished : w.strData.finished = true := by
    rw [kept]
    rfl
  refine ⟨?_, ?_⟩
  · rw [runTitles, runTitles, runTitles, reached, titles_st frontend mode finished, kept,
      titleOf_numbered digit true title clean, Strings.titles, silent]
    rfl
  · have last : codes (process frontend w (byte '\\')) = [] := by
      apply codes_of_puts
      rw [Bounds.process_esc frontend w _ mode .ST (by decide), escape, if_pos finished]
      exact puts_parseString _ rfl
    rw [putCodes, putCodes, putCodes, reached, last, Codes.codes, silent]
    rfl

theorem arrives_of_fits (v : VTE) (empty : v.utf8Buffer = []) (form : Form)
    (numbered : form ≠ .title) (title : List uchar) (others : ∀ c ∈ title, endsString c = false)
    (clean : NulFree title) (room : title.length ≤ 252) : Arrives frontend v form title := by
  unfold Arrives
  cases form with
  | bell digit =>
    obtain ⟨complete, quiet⟩ := run_numbered frontend v empty digit title others room
    obtain ⟨arrived, silent⟩ := complete_bell frontend complete clean
    rw [introducer, terminator, runTitles_append, putCodes_append, quiet.titles, quiet.codes]
    exact ⟨arrived, silent⟩
  | terminated digit =>
    obtain ⟨complete, quiet⟩ := run_numbered frontend v empty digit title others room
    obtain ⟨arrived, silent⟩ := complete_terminated frontend complete clean
    rw [introducer, terminator, runTitles_append, putCodes_append, quiet.titles, quiet.codes]
    exact ⟨arrived, silent⟩
  | title => exact absurd rfl numbered

/-! ## The string is not read to its end -/

/-- With `left` bytes to come before the terminator, every title in sight has less than `n` bytes. -/
structure Brief (n left : Nat) (v : VTE) : Prop where
  awake : v.mode ≠ .esc
  inside : v.mode = .string → ∃ type body, v.strData = stored type false body ∧ NulFree body ∧ body.length + left ≤ n
  outside : v.mode ≠ .string → ∀ title, titleOf v.strData = some title → title.length < n

variable {n left : Nat} {v : VTE} {c : uchar}

theorem Brief.short (brief : Brief n left v) (title : List uchar) (known : titleOf (arrival v).strData = some title) :
    title.length < n := by
  by_cases inside : v.mode = .string
  · obtain ⟨type, body, data, clean, room⟩ := brief.inside inside
    rw [Reading.finished ⟨inside, data⟩] at known
    have less := titleOf_lt type true body title clean known
    omega
  · rw [strData_arrival inside] at known
    exact brief.outside inside title known

theorem brief_of_opened {w : VTE} {type : StringType} (room : left ≤ n) (awake : w.mode ≠ .esc)
    (data : w.strData = { stringType := type }) : Brief n left w := by
  refine ⟨awake, fun _ => ⟨type, [], data, by simp [NulFree], ?_⟩, fun _ title known => ?_⟩
  · rw [List.length_nil, Nat.zero_add]
    exact room
  · rw [data, titleOf_opened] at known
    cases known

/-- The step: no byte of text brings a longer title in sight, and none sets one. -/
theorem brief_process (brief : Brief n (left + 1) v) (room : left ≤ n) (text : 0x20 ≤ c) :
    Brief n left (process frontend v c) ∧ titles (process frontend v c) = [] := by
  have other : c ≠ 0x1b := by
    rintro rfl
    exact absurd text (by decide)
  have silent : titles (process frontend v c) = [] := by
    apply titles_of_not_looks
    rintro (⟨rfl, -⟩ | ⟨escape, -⟩)
    · exact absurd text (by decide)
    · exact brief.awake escape
  refine ⟨?_, silent⟩
  have short := brief.short
  cases process_effect frontend v c with
  | kept inside ends same =>
    obtain ⟨type, body, data, clean, space⟩ := brief.inside inside
    rw [same]
    by_cases full : 254 ≤ body.length
    · obtain ⟨ground, cleared⟩ := keep_full ⟨inside, data⟩ ends full
      exact brief_of_opened room (by rw [ground]; decide) cleared
    · obtain ⟨reading, -, -⟩ := keep_reading ⟨inside, data⟩ ends (by omega)
      refine ⟨by rw [reading.mode]; decide, fun _ => ⟨type, body ++ [c], reading.data, ?_, ?_⟩,
        fun outside => absurd reading.mode outside⟩
      · have some_byte : c ≠ 0 := by
          rintro rfl
          exact absurd text (by decide)
        simp only [NulFree, List.mem_append, List.mem_singleton, not_or]
        exact ⟨clean, some_byte.symm⟩
      · rw [List.length_append, List.length_singleton]
        omega
  | opened type opens mode data => exact brief_of_opened room (by rw [mode]; decide) data
  | escaped code between mode data => exact absurd code other
  | cleared type mode awake data => exact brief_of_opened room (fun escape => brief.awake (awake escape)) data
  | passed mode awake data =>
    refine ⟨fun escape => brief.awake (awake escape), fun inside => absurd inside mode, fun _ title known => ?_⟩
    rw [data] at known
    exact short title known

/-- The run: until the terminator nothing is set, and no longer title gets in sight. -/
theorem run_brief (bytes : List uchar) (v : VTE) (brief : Brief n bytes.length v) (room : bytes.length ≤ n)
    (text : ∀ c ∈ bytes, 0x20 ≤ c) : Brief n 0 (run frontend v bytes) ∧ runTitles frontend v bytes = [] := by
  induction bytes generalizing v with
  | nil => exact ⟨brief, rfl⟩
  | cons c bytes ih =>
    obtain ⟨first, later⟩ := List.forall_mem_cons.mp text
    rw [List.length_cons] at room brief
    obtain ⟨next, silent⟩ := brief_process frontend brief (by omega) first
    obtain ⟨last, none⟩ := ih _ next (by omega) later
    exact ⟨last, by rw [runTitles, silent, none]; rfl⟩

theorem titles_short (brief : Brief n left v) (c : uchar) : ∀ title ∈ titles (process frontend v c), title.length < n := by
  rcases titles_process frontend v c with none | ⟨title, -, -, known, single⟩
  · rw [none]
    simp
  · rw [single, List.forall_mem_singleton]
    exact brief.short title known

theorem terminator_short (brief : Brief n 0 v) (form : Form) :
    ∀ title ∈ runTitles frontend v (terminator form), title.length < n := by
  have st : ∀ title ∈ runTitles frontend v [0x1b, byte '\\'], title.length < n := by
    have short := brief.short
    have first := titles_short frontend brief 0x1b
    have second : ∀ title ∈ titles (process frontend (process frontend v 0x1b) (byte '\\')), title.length < n := by
      rcases titles_process frontend (process frontend v 0x1b) (byte '\\') with none | ⟨title, -, -, known, single⟩
      · rw [none]
        simp
      · rw [single, List.forall_mem_singleton]
        cases process_effect frontend v 0x1b with
        | kept inside ends same => exact absurd ends (by decide)
        | opened type opens mode data =>
          rw [Reading.finished ⟨mode, data.trans (stored_nil type).symm⟩] at known
          exact absurd (titleOf_lt type true [] title (by simp [NulFree]) known) (Nat.not_lt_zero _)
        | escaped code between mode data =>
          rw [strData_arrival (by rw [mode]; decide), data] at known
          exact short title known
        | cleared type mode awake data =>
          rw [strData_arrival mode, data, titleOf_opened] at known
          cases known
        | passed mode awake data =>
          rw [strData_arrival mode, data] at known
          exact short title known
    rw [runTitles, runTitles, runTitles, List.append_nil, List.forall_mem_append]
    exact ⟨first, second⟩
  cases form with
  | bell digit =>
    rw [terminator, runTitles, runTitles, List.append_nil]
    exact titles_short frontend brief 0x07
  | terminated digit => exact st
  | title => exact st

theorem not_arrives_of_brief (title bytes : List uchar) (brief : Brief title.length bytes.length v)
    (room : bytes.length ≤ title.length) (text : ∀ c ∈ bytes, 0x20 ≤ c) (form : Form) :
    title ∉ runTitles frontend v (bytes ++ terminator form) := by
  obtain ⟨last, silent⟩ := run_brief frontend bytes v brief room text
  rw [runTitles_append, silent, List.nil_append]
  intro member
  exact absurd (terminator_short frontend last form title member) (Nat.lt_irrefl _)

theorem endsString_text : ∀ c, 0x20 ≤ c → endsString c = isControlC1 c := forall_uchar (by decide +kernel)

theorem brief_of_stop (digit : Fin 3) (front back : List uchar) (complete : Complete digit front v) (clean : NulFree front)
    (c : uchar) (text : 0x20 ≤ c) (stop : endsString c = true ∨ front.length = 252) :
    Brief (front ++ c :: back).length back.length (process frontend v c) ∧ titles (process frontend v c) = [] := by
  have longer : front.length < (front ++ c :: back).length ∧ back.length ≤ (front ++ c :: back).length := by
    rw [List.length_append, List.length_cons]
    omega
  have busy : v.mode ≠ .esc := by
    rw [complete.reading.mode]
    decide
  refine ⟨?_, ?_⟩
  · cases process_effect frontend v c with
    | kept inside ends same =>
      have full : 254 ≤ ([number digit] ++ byte ';' :: front).length := by
        rcases stop with stops | last
        · rw [ends] at stops
          cases stops
        · simp [last]
      obtain ⟨ground, cleared⟩ := keep_full complete.reading ends full
      rw [same]
      exact brief_of_opened longer.2 (by rw [ground]; decide) cleared
    | opened type opens mode data => exact brief_of_opened longer.2 (by rw [mode]; decide) data
    | escaped code between mode data =>
      rw [code] at text
      exact absurd text (by decide)
    | cleared type mode awake data => exact brief_of_opened longer.2 (fun escape => busy (awake escape)) data
    | passed mode awake data =>
      refine ⟨fun escape => busy (awake escape), fun inside => absurd inside mode, fun _ title known => ?_⟩
      rw [data, complete.reading.finished, titleOf_numbered digit true front clean] at known
      rw [← Option.some.inj known]
      exact longer.1
  · apply titles_of_not_looks
    rintro (⟨rfl, -⟩ | ⟨escape, -⟩)
    · exact absurd text (by decide)
    · exact busy escape

/-! ## Every title -/

theorem not_arrives_title (v : VTE) (empty : v.utf8Buffer = []) (title : List uchar)
    (text : ∀ c ∈ title, 0x20 ≤ c) : ¬ Arrives frontend v .title title := by
  have first := process_escaped frontend empty
  generalize reached : process frontend v 0x1b = w at first
  have second := process_title frontend (by rw [first] : w.mode = .esc)
  have introduced : run frontend v [0x1b, byte 'k'] = resetEscape (openString .title { w with events := [] }) := by
    rw [← second, ← reached]
    rfl
  have silent : runTitles frontend v [0x1b, byte 'k'] = [] := by
    have quiet : w.events = [] := by
      rw [first]
      exact arrival_log v
    rw [runTitles, runTitles, runTitles, reached, second, Strings.titles, quiet]
    rfl
  have brief : Brief title.length title.length (run frontend v [0x1b, byte 'k']) := by
    rw [introduced]
    exact brief_of_opened (le_refl _) (fun escape => by cases escape) rfl
  rintro ⟨arrived, -⟩
  apply not_arrives_of_brief frontend title title brief (le_refl _) text .title
  rw [introducer, List.append_assoc, runTitles_append, silent, List.nil_append] at arrived
  rw [arrived]
  exact List.mem_singleton_self title

theorem not_arrives_of_stop (v : VTE) (empty : v.utf8Buffer = []) (form : Form) (digit : Fin 3)
    (numbered : introducer form = [0x1b, byte ']', number digit, byte ';']) (front back : List uchar) (c : uchar)
    (text : ∀ b ∈ front ++ c :: back, 0x20 ≤ b) (others : ∀ b ∈ front, endsString b = false) (room : front.length ≤ 252)
    (stop : endsString c = true ∨ front.length = 252) : ¬ Arrives frontend v form (front ++ c :: back) := by
  simp only [List.forall_mem_append, List.forall_mem_cons] at text
  obtain ⟨before, here, behind⟩ := text
  have clean : NulFree front := fun zero => absurd (before 0 zero) (by decide)
  obtain ⟨complete, quiet⟩ := run_numbered frontend v empty digit front others room
  obtain ⟨brief, silent⟩ := brief_of_stop frontend digit front back complete clean c here stop
  rintro ⟨arrived, -⟩
  apply not_arrives_of_brief frontend (front ++ c :: back) back brief _ behind form
  · have split : introducer form ++ (front ++ c :: back) ++ terminator form =
        ([0x1b, byte ']', number digit, byte ';'] ++ front) ++ (c :: (back ++ terminator form)) := by
      rw [numbered]
      simp
    rw [split, runTitles_append, quiet.titles, List.nil_append, runTitles, silent, List.nil_append] at arrived
    rw [arrived]
    exact List.mem_singleton_self _
  · rw [List.length_append, List.length_cons]
    omega

/-- A character that is no control character. -/
def Visible (c : Char) : Prop := 0x20 ≤ c.val.toNat ∧ ¬ (0x7f ≤ c.val.toNat ∧ c.val.toNat ≤ 0x9f)

instance (c : Char) : Decidable (Visible c) := inferInstanceAs (Decidable (_ ∧ _))

theorem encode_text (text : List Char) (visible : ∀ c ∈ text, Visible c) : ∀ b ∈ Utf8.encode text, 0x20 ≤ b := by
  intro b member
  obtain ⟨c, listed, inside⟩ := List.mem_flatMap.mp member
  have lower : 0x20 ≤ c.toNat := (visible c listed).1
  apply UInt8.le_iff_toNat_le.mpr
  by_cases ascii : c.toNat < 128
  · rw [Utf8.encodeChar_ascii c ascii, List.mem_singleton] at inside
    rw [inside, Utf8.toNat_toUInt8 c ascii]
    exact lower
  · exact le_trans (by decide) (Utf8.encodeChar_high c (by omega) b inside)

/-- A title arrives complete if and only if it comes with a number, fits in the buffer and has no
byte that looks like a control character. -/
theorem arrives_iff (v : VTE) (empty : v.utf8Buffer.length = 0) (form : Form)
    (text : List Char) (visible : ∀ c ∈ text, Visible c) :
    Arrives frontend v form (Utf8.encode text) ↔
      form ≠ .title ∧ (Utf8.encode text).length ≤ 252 ∧ ∀ b ∈ Utf8.encode text, isControlC1 b = false := by
  have between : v.utf8Buffer = [] := List.length_eq_zero_iff.mp empty
  have bytes := encode_text text visible
  generalize Utf8.encode text = title at bytes ⊢
  refine ⟨?_, ?_⟩
  · intro arrives
    have numbered : form ≠ .title := by
      rintro rfl
      exact not_arrives_title frontend v between title bytes arrives
    obtain ⟨digit, introduced⟩ : ∃ digit, introducer form = [0x1b, byte ']', number digit, byte ';'] := by
      cases form with
      | bell digit => exact ⟨digit, rfl⟩
      | terminated digit => exact ⟨digit, rfl⟩
      | title => exact absurd rfl numbered
    rcases Text.exists_stop (fun b => !endsString b) 252 title with ⟨short, all⟩ | ⟨front, c, back, rfl, short, all, stop⟩
    · refine ⟨numbered, short, fun b member => ?_⟩
      rw [← endsString_text b (bytes b member)]
      simpa using all b member
    · simp only [Bool.not_eq_true', Bool.not_eq_false'] at all stop
      exact absurd arrives
        (not_arrives_of_stop frontend v between form digit introduced front back c bytes all short stop)
  · rintro ⟨numbered, short, plain⟩
    have others : ∀ b ∈ title, endsString b = false := by
      intro b member
      rw [endsString_text b (bytes b member)]
      exact plain b member
    exact arrives_of_fits frontend v between form numbered title others
      (fun zero => absurd (bytes 0 zero) (by decide)) short

theorem arrives_iff_text : CmdSpy.fresh.vte.utf8Buffer.length = 0 ∧ (∀ c ∈ "vi: café; 中".toList, Visible c) ∧
    Arrives CmdSpy.frontend CmdSpy.fresh.vte (.terminated 0) (Utf8.encode "vi: café; 中".toList) := by
  have empty : CmdSpy.fresh.vte.utf8Buffer.length = 0 := by decide
  have visible : ∀ c ∈ "vi: café; 中".toList, Visible c := by decide
  refine ⟨empty, visible, (arrives_iff CmdSpy.frontend _ empty _ _ visible).mpr ?_⟩
  exact ⟨by decide, by decide, by decide⟩

/-- Of a title with a letter whose second byte is 0x80, the beginning arrives; behind `ESC k` nothing does. -/
theorem titles_incomplete : ¬ Arrives CmdSpy.frontend CmdSpy.fresh.vte (.bell 0) (Utf8.encode "ÀB".toList) ∧
    ¬ Arrives CmdSpy.frontend CmdSpy.fresh.vte .title (Utf8.encode "vi".toList) := by
  have cut : runTitles CmdSpy.frontend CmdSpy.fresh.vte
      (introducer (.bell 0) ++ Utf8.encode "ÀB".toList ++ terminator (.bell 0)) = [[0xc3]] := by
    decide +kernel
  have lost : runTitles CmdSpy.frontend CmdSpy.fresh.vte
      (introducer .title ++ Utf8.encode "vi".toList ++ terminator .title) = [] := by
    decide +kernel
  refine ⟨?_, ?_⟩
  · rintro ⟨arrived, -⟩
    rw [cut] at arrived
    exact absurd arrived (by decide +kernel)
  · rintro ⟨arrived, -⟩
    rw [lost] at arrived
    cases arrived

end Woterm.Terminal.Titles
