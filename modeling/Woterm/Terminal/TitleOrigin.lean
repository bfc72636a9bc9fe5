import Woterm.Terminal.CmdSpy
import Woterm.Terminal.Codes
import Woterm.Terminal.Strings

/-!
Where titles come from. A string that something else than its terminator ended stays finished, so
that a later bell or string terminator sets its title. The history of the stream says in which
states the string at hand is the one that the terminator belongs to.
-/

namespace Woterm.Terminal.TitleOrigin
open Woterm.Lib Woterm.Terminal.Data Woterm.Terminal.Vte Woterm.Terminal.Step Woterm.Terminal.Log
open Woterm.Terminal.Codes (run run_append)
open Woterm.Terminal.Strings Woterm.Terminal.ArraySafety

variable (frontend : Frontend) (start : VTE)

/-- The state after a reset and some bytes. -/
def state (bytes : List uchar) : VTE := run frontend (Vte.reset start) bytes

theorem state_concat (bytes : List uchar) (c : uchar) :
    state frontend start (bytes ++ [c]) = process frontend (state frontend start bytes) c :=
  run_append frontend _ bytes [c]

theorem state_append (first second : List uchar) :
    state frontend start (first ++ second) = run frontend (state frontend start first) second :=
  run_append frontend _ first second

theorem state_tracked (bytes : List uchar) : Tracked (state frontend start bytes) :=
  (tracked_reset start).run frontend bytes

/-! ## Terminated strings -/

def oscIntroducers : List (List uchar) := [[0x9d], [0x1b, byte ']']]

def introducers : List (List uchar) := oscIntroducers ++ [[0x1b, byte 'k']]

def terminators : List (List uchar) := [[0x07], [0x1b, byte '\\']]

/-- The bytes end with an introducer, a body without control characters and a terminator, where the
introducer and the terminator are no bytes of an unfinished character. -/
def Terminated (bytes : List uchar) : Prop :=
  ∃ before introducer body terminator, bytes = before ++ introducer ++ body ++ terminator ∧
    introducer ∈ introducers ∧ terminator ∈ terminators ∧ (∀ c ∈ body, isControl c = false) ∧
    (state frontend start before).utf8Buffer = [] ∧ (state frontend start (before ++ introducer ++ body)).utf8Buffer = []

/-- The byte sets a title only as the end of a terminated string, and a bell elsewhere only rings. -/
def Sourced (front : List uchar) (c : uchar) : Prop :=
  (titles (process frontend (state frontend start front) c) ≠ [] → Terminated frontend start (front ++ [c])) ∧
    (c = 0x07 → ¬ Terminated frontend start (front ++ [c]) →
      (process frontend (state frontend start front) c).events = [.bell])

/-- An operating system command is being read, whose introducer came in one piece and whose body
has no control character so far. -/
def Undisturbed (front : List uchar) : Prop :=
  ∃ before introducer body, front = before ++ introducer ++ body ∧ introducer ∈ oscIntroducers ∧
    (∀ c ∈ body, isControl c = false) ∧ Reading .osc body (state frontend start front)

/-- A bell arrives in an undisturbed command, or where no string was left finished; a string
terminator that finds a title is right behind an undisturbed command. -/
def Trusted (front : List uchar) (c : uchar) : Prop :=
  (c = 0x07 → (state frontend start front).utf8Buffer = [] ∧ (Undisturbed frontend start front ∨
    (state frontend start front).mode ≠ .string ∧ (state frontend start front).strData.finished = false)) ∧
  (c = byte '\\' → (state frontend start front).mode = .esc → (state frontend start front).strData.finished = true →
    titleOf (state frontend start front).strData ≠ none →
    ∃ earlier, front = earlier ++ [0x1b] ∧ Undisturbed frontend start earlier)

/-! ## What the introducer leads to -/

/-- Nothing is left of a string. -/
structure Idle (v : VTE) : Prop where
  ground : v.mode = .ground
  unfinished : v.strData.finished = false

theorem process_text_idle (v : VTE) (c : uchar) (text : isControl c = false) (idle : Idle v) :
    Idle (process frontend v c) := by
  have handled : process frontend v c = handleText frontend c { v with events := [] } := by
    simp [process, dispatch, idle.ground, text]
  obtain ⟨mode, data⟩ := held_handleText frontend c { v with events := [] }
  rw [handled]
  exact ⟨mode.trans idle.ground, (congrArg StringData.finished data).trans idle.unfinished⟩

theorem run_idle (body : List uchar) (v : VTE) (text : ∀ c ∈ body, isControl c = false) (idle : Idle v) :
    Idle (run frontend v body) := by
  induction body generalizing v with
  | nil => exact idle
  | cons c body ih =>
    obtain ⟨first, later⟩ := List.forall_mem_cons.mp text
    exact ih _ later (process_text_idle frontend v c first idle)

theorem run_reading (body done : List uchar) (v : VTE) (text : ∀ c ∈ body, isControl c = false)
    (reading : Reading .osc done v) : Reading .osc (done ++ body) (run frontend v body) ∨ Idle (run frontend v body) := by
  induction body generalizing done v with
  | nil =>
    rw [List.append_nil]
    exact .inl reading
  | cons c body ih =>
    obtain ⟨first, later⟩ := List.forall_mem_cons.mp text
    have other : endsString c = false := by
      by_contra ends
      rw [Bool.not_eq_false] at ends
      rw [control_of_endsString c ends] at first
      cases first
    have kept := process_eq_keep frontend v c reading.mode other
    by_cases full : 254 ≤ done.length
    · obtain ⟨ground, cleared⟩ := keep_full reading other full
      rw [← kept] at ground cleared
      exact .inr (run_idle frontend body _ later ⟨ground, by rw [cleared]⟩)
    · have next := (keep_reading reading other (by omega)).1
      rw [← kept] at next
      rw [List.append_cons]
      exact ih (done ++ [c]) _ later next

theorem run_introducer (introducer : List uchar) (known : introducer ∈ introducers) (v : VTE) (between : v.utf8Buffer = []) :
    introducer ∈ oscIntroducers ∧ Reading .osc [] (run frontend v introducer) ∨ Idle (run frontend v introducer) := by
  have escaped : (process frontend v 0x1b).mode = .esc := by rw [process_escaped frontend between]
  simp only [introducers, oscIntroducers, List.cons_append, List.nil_append, List.mem_cons, List.not_mem_nil, or_false]
    at known
  rcases known with rfl | rfl | rfl
  · have opened : run frontend v [0x9d] = openString .osc (arrival v) :=
      process_eq_control frontend v 0x9d .OSC between (by decide) (fun _ => by decide)
    rw [opened]
    exact .inl ⟨by decide, rfl, rfl⟩
  · have opened : run frontend v [0x1b, byte ']'] = openString .osc { process frontend v 0x1b with events := [] } :=
      process_osc frontend escaped
    rw [opened]
    exact .inl ⟨by decide, rfl, rfl⟩
  · have opened : run frontend v [0x1b, byte 'k'] =
        resetEscape (openString .title { process frontend v 0x1b with events := [] }) := process_title frontend escaped
    rw [opened]
    exact .inr ⟨rfl, rfl⟩

/-- Behind an introducer and a body without control characters, an undisturbed command is being
read, or nothing is left of the string. -/
theorem undisturbed_or_idle (before introducer body : List uchar) (known : introducer ∈ introducers)
    (text : ∀ c ∈ body, isControl c = false) (between : (state frontend start before).utf8Buffer = []) :
    Undisturbed frontend start (before ++ introducer ++ body) ∨
      Idle (state frontend start (before ++ introducer ++ body)) := by
  rw [state_append, state_append]
  rcases run_introducer frontend introducer known _ between with ⟨osc, reading⟩ | idle
  · refine (run_reading frontend body [] _ text reading).imp_left fun last => ?_
    refine ⟨before, introducer, body, rfl, osc, text, ?_⟩
    rw [state_append, state_append]
    exact last
  · exact .inr (run_idle frontend body _ text idle)

/-! ## The history of a string -/

theorem stored_body {type other : StringType} {finished done : Bool} {body text : List uchar}
    (same : stored type finished body = stored other done text) : type = other ∧ body = text := by
  have length : body.length = text.length := congrArg StringData.nextStrData same
  have cells : body ++ List.replicate (256 - body.length) 0 = text ++ List.replicate (256 - text.length) 0 :=
    congrArg StringData.strData same
  exact ⟨congrArg StringData.stringType same, (List.append_inj cells length).1⟩

variable (front : List uchar)

/-- In the string mode, the input ends with the byte that opened the string and with its body. -/
theorem string_history (inside : (state frontend start front).mode = .string) :
    ∃ type body before c, Reading type body (state frontend start front) ∧ front = before ++ c :: body ∧
      Opens (state frontend start before) c type := by
  induction front using List.reverseRecOn with
  | nil =>
    have ground : (state frontend start []).mode = .ground := congrArg View.mode (view_ris { start with events := [] })
    rw [ground] at inside
    cases inside
  | append_singleton front c ih =>
    rw [state_concat] at inside ⊢
    cases process_effect frontend (state frontend start front) c with
    | kept within other same =>
      obtain ⟨type, body, before, opener, reading, rfl, opens⟩ := ih within
      rw [same] at inside ⊢
      by_cases full : 254 ≤ body.length
      · rw [(keep_full reading other full).1] at inside
        cases inside
      · refine ⟨type, body ++ [c], before, opener, (keep_reading reading other (by omega)).1, ?_, opens⟩
        rw [List.append_assoc, List.cons_append]
    | opened type opens mode data => exact ⟨type, [], front, c, ⟨mode, data⟩, rfl, opens⟩
    | escaped code between mode data =>
      rw [mode] at inside
      cases inside
    | cleared type mode awake data => exact absurd inside mode
    | passed mode awake data => exact absurd inside mode

theorem between_of_escaped (escaped : (state frontend start (front ++ [0x1b])).mode = .esc) :
    (state frontend start front).utf8Buffer = [] := by
  by_contra busy
  have ground := ((state_tracked frontend start front).ground busy).1
  have text : process frontend (state frontend start front) 0x1b =
      handleText frontend 0x1b { state frontend start front with events := [] } := by
    simp [process, dispatch, ground, busy]
  rw [state_concat, text, (held_handleText frontend _ _).1] at escaped
  rw [show ({ state frontend start front with events := [] } : VTE).mode = .ground from ground] at escaped
  cases escaped

theorem terminated_of_undisturbed (front terminator : List uchar) (undisturbed : Undisturbed frontend start front)
    (known : terminator ∈ terminators) : Terminated frontend start (front ++ terminator) := by
  obtain ⟨before, introducer, body, rfl, osc, text, reading⟩ := undisturbed
  obtain ⟨type, other, earlier, c, again, split, opens⟩ := string_history frontend start _ reading.mode
  obtain ⟨rfl, rfl⟩ := stored_body (reading.data.symm.trans again.data)
  have same : before ++ introducer = earlier ++ [c] := by
    rw [List.append_cons] at split
    exact List.append_cancel_right split
  have outside : (state frontend start (before ++ introducer ++ body)).utf8Buffer = [] := by
    by_contra busy
    have ground := ((state_tracked frontend start _).ground busy).1
    rw [reading.mode] at ground
    cases ground
  refine ⟨before, introducer, body, terminator, rfl, List.mem_append_left _ osc, known, text, ?_, outside⟩
  simp only [oscIntroducers, List.mem_cons, List.not_mem_nil, or_false] at osc
  rcases osc with rfl | rfl
  · obtain ⟨rfl, last⟩ := List.append_inj_left' same rfl, List.append_inj_right' same rfl
    obtain rfl := List.singleton_inj.mp last
    rcases opens with ⟨between, -⟩ | ⟨-, listed⟩
    · exact between
    · exact absurd listed (by decide)
  · have split : (before ++ [0x1b]) ++ [byte ']'] = earlier ++ [c] := by
      rw [← same, List.append_assoc]
      rfl
    obtain rfl := List.append_inj_left' split rfl
    obtain rfl := List.singleton_inj.mp (List.append_inj_right' split rfl)
    rcases opens with ⟨-, listed⟩ | ⟨escaped, -⟩
    · exact absurd listed (by decide)
    · exact between_of_escaped frontend start before escaped

/-! ## Bells -/

theorem events_bell {v : VTE} (between : v.utf8Buffer = []) (outside : v.mode ≠ .string)
    (unfinished : v.strData.finished = false) : (process frontend v 0x07).events = [.bell] := by
  rw [process_bell frontend between, arrival_of_ne outside, Vte.control]
  dsimp only
  rw [unfinished, if_neg Bool.false_ne_true]
  rfl

theorem bell_of_events {v : VTE} {c : uchar} (rings : (process frontend v c).events = [.bell]) :
    v.utf8Buffer = [] ∧ v.mode ≠ .string ∧ v.strData.finished = false := by
  have told := process_told frontend v c
  have heard : log (process frontend v c) = [.bell] := by
    rw [log, rings]
    rfl
  rw [heard] at told
  cases told with
  | clear events cleared =>
    obtain ⟨x1, y1, x2, y2, cursor, other, -⟩ := cleared .bell List.mem_cons_self
    cases other
  | bell rings between unfinished =>
    have outside : v.mode ≠ .string := by
      intro inside
      rw [arrival_string inside] at unfinished
      cases unfinished
    rw [strData_arrival outside] at unfinished
    exact ⟨between, outside, unfinished⟩

/-! ## Every byte -/

theorem terminated_split (c : uchar) (terminated : Terminated frontend start (front ++ [c])) :
    ∃ read, (c = 0x07 ∧ front = read ∨ c = byte '\\' ∧ front = read ++ [0x1b]) ∧
      (state frontend start read).utf8Buffer = [] ∧
      (Undisturbed frontend start read ∨ Idle (state frontend start read)) := by
  obtain ⟨before, introducer, body, terminator, split, known, ends, text, between, last⟩ := terminated
  refine ⟨before ++ introducer ++ body, ?_, last, undisturbed_or_idle frontend start _ _ _ known text between⟩
  simp only [terminators, List.mem_cons, List.not_mem_nil, or_false] at ends
  rcases ends with rfl | rfl
  · exact .inl ⟨List.singleton_inj.mp (List.append_inj_right' split rfl), List.append_inj_left' split rfl⟩
  · have again : front ++ [c] = (before ++ introducer ++ body ++ [0x1b]) ++ [byte '\\'] := by
      rw [split, List.append_assoc _ [0x1b]]
      rfl
    exact .inr ⟨List.singleton_inj.mp (List.append_inj_right' again rfl), List.append_inj_left' again rfl⟩

theorem trusted_of_sourced (c : uchar) (sourced : Sourced frontend start front c) : Trusted frontend start front c := by
  obtain ⟨origin, elsewhere⟩ := sourced
  refine ⟨?_, ?_⟩
  · rintro rfl
    by_cases terminated : Terminated frontend start (front ++ [0x07])
    · obtain ⟨read, ends, between, reading⟩ := terminated_split frontend start front 0x07 terminated
      rcases ends with ⟨-, rfl⟩ | ⟨other, -⟩
      · refine ⟨between, reading.imp_right fun idle => ⟨?_, idle.unfinished⟩⟩
        rw [idle.ground]
        decide
      · exact absurd other (by decide)
    · obtain ⟨between, outside, unfinished⟩ := bell_of_events frontend (elsewhere rfl terminated)
      exact ⟨between, .inr ⟨outside, unfinished⟩⟩
  · rintro rfl escaped finished known
    have set : titles (process frontend (state frontend start front) (byte '\\')) ≠ [] := by
      rw [titles_st frontend escaped finished]
      cases found : titleOf (state frontend start front).strData with
      | none => exact absurd found known
      | some title => exact List.cons_ne_nil _ _
    obtain ⟨read, ends, between, reading⟩ := terminated_split frontend start front _ (origin set)
    rcases ends with ⟨other, -⟩ | ⟨-, rfl⟩
    · exact absurd other (by decide)
    · refine ⟨read, rfl, reading.resolve_right fun idle => ?_⟩
      have outside : (state frontend start read).mode ≠ .string := by
        rw [idle.ground]
        decide
      rw [state_concat, process_escaped frontend between, arrival_of_ne outside] at finished
      have unfinished : (state frontend start read).strData.finished = true := finished
      rw [idle.unfinished] at unfinished
      cases unfinished

theorem sourced_of_trusted (c : uchar) (trusted : Trusted frontend start front c) : Sourced frontend start front c := by
  obtain ⟨bell, terminator⟩ := trusted
  refine ⟨?_, ?_⟩
  · intro set
    rcases titles_process frontend (state frontend start front) c with none | ⟨title, looks, finished, known, -⟩
    · exact absurd none set
    · rcases looks with ⟨rfl, -⟩ | ⟨escaped, rfl⟩
      · rcases (bell rfl).2 with undisturbed | ⟨outside, unfinished⟩
        · exact terminated_of_undisturbed frontend start front [0x07] undisturbed (by decide)
        · rw [strData_arrival outside, unfinished] at finished
          cases finished
      · have outside : (state frontend start front).mode ≠ .string := by
          rw [escaped]
          decide
        rw [strData_arrival outside] at finished known
        have some_title : titleOf (state frontend start front).strData ≠ none := by
          rw [known]
          exact Option.some_ne_none title
        obtain ⟨earlier, rfl, undisturbed⟩ := terminator rfl escaped finished some_title
        rw [List.append_assoc]
        exact terminated_of_undisturbed frontend start earlier [0x1b, byte '\\'] undisturbed (by decide)
  · rintro rfl elsewhere
    obtain ⟨between, undisturbed | ⟨outside, unfinished⟩⟩ := bell rfl
    · exact absurd (terminated_of_undisturbed frontend start front [0x07] undisturbed (by decide)) elsewhere
    · exact events_bell frontend between outside unfinished

/-- After a reset, titles come from terminated strings only and other bells only ring, if and only
if every bell and every string terminator arrives where its string is the one at hand. -/
theorem sourced_iff (bytes : List uchar) :
    (∀ front c back, bytes = front ++ c :: back → Sourced frontend start front c) ↔
      ∀ front c back, bytes = front ++ c :: back → Trusted frontend start front c := by
  refine ⟨?_, ?_⟩
  · intro sourced front c back split
    exact trusted_of_sourced frontend start front c (sourced front c back split)
  · intro trusted front c back split
    exact sourced_of_trusted frontend start front c (trusted front c back split)

/-- A bell behind a command that a control sequence ended. -/
def interrupted : List uchar := "\x1b]0;x\x1b[m".toList.map byte

/-- The bell sets the title of the command. -/
theorem bell_sets_title :
    titles (process CmdSpy.frontend (state CmdSpy.frontend CmdSpy.blank interrupted) 0x07) = [[byte 'x']] ∧
      ¬ Sourced CmdSpy.frontend CmdSpy.blank interrupted 0x07 := by
  have left : (state CmdSpy.frontend CmdSpy.blank interrupted).mode = .ground ∧
      (state CmdSpy.frontend CmdSpy.blank interrupted).strData.finished = true := by
    decide +kernel
  refine ⟨by decide +kernel, fun sourced => ?_⟩
  rcases ((trusted_of_sourced _ _ _ _ sourced).1 rfl).2 with ⟨_, _, _, _, _, _, reading⟩ | ⟨-, unfinished⟩
  · rw [reading.mode] at left
    exact absurd left.1 (by decide)
  · rw [left.2] at unfinished
    cases unfinished

end Woterm.Terminal.TitleOrigin
