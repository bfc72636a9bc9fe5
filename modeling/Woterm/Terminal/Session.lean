import Woterm.Lib.Run
import Woterm.Terminal.PlainText

/-!
A spy over a whole session: it is reset before a command, fed while the command runs, and read
afterwards. A reset forgets all but the width of the screen, and reading takes the rows away.
-/

namespace Woterm.Terminal.Session
open Woterm.Lib Woterm.Lib.Typewriter Woterm.Qt Woterm.Terminal.Data Woterm.Terminal.TextBytes
open Woterm.Terminal.CmdSpy Woterm.Terminal.Sizes Woterm.Terminal.PlainText

/-! ## What a reset forgets -/

/-- Equal in all that later behaviour depends on. The flag `m_stop` is not a part of it, since every
call of `process` clears it. -/
structure Alike (first second : QWoCmdSpy) : Prop where
  vte : first.vte = second.vte
  lines : first.lines = second.lines
  tops : first.tops = second.tops

/-- After a reset the two spies are alike, and whatever comes later is handled alike. -/
structure Forgotten (first second : QWoCmdSpy) : Prop where
  state : Alike (reset first) (reset second)
  later : ∀ buf, process (reset first) buf = process (reset second) buf

theorem Alike.process {first second : QWoCmdSpy} (alike : Alike first second) (buf : QByteArray) :
    CmdSpy.process first buf = CmdSpy.process second buf := by
  have same : { first with stop := false } = { second with stop := false } := by
    rw [alike.vte, alike.lines, alike.tops]
  rw [CmdSpy.process, same, CmdSpy.process]

theorem reset_congr (v w : VTE) (width : v.width = w.width) (height : v.height = w.height) :
    Vte.reset v = Vte.reset w := by
  have same : Vte.risState { v with events := [] } = Vte.risState { w with events := [] } := by
    simp only [Vte.risState, width, height]
  unfold Vte.reset Vte.ris
  rw [same]

variable {spy : QWoCmdSpy} (rest : List Operation) (first second : QWoCmdSpy)

theorem reset_alike (width : first.vte.width = second.vte.width)
    (height : first.vte.height = second.vte.height) : Alike (reset first) (reset second) :=
  ⟨reset_congr first.vte second.vte width height, rfl, rfl⟩

/-- What is reported for some input after a reset. -/
def report (spy : QWoCmdSpy) (buf : QByteArray) : Option (List QString) :=
  (process (reset spy) buf).map fun final => (output final).1

theorem report_ne (narrow wide : Nat) (positive : 1 < narrow) (wider : narrow < wide)
    (short : wide ≤ fixCollumn) (narrowed : first.vte.width = narrow) (widened : second.vte.width = wide)
    (height : first.vte.height = 768 ∧ second.vte.height = 768) :
    report first (joined [List.replicate (narrow + 1) (byte 'x')]) ≠
      report second (joined [List.replicate (narrow + 1) (byte 'x')]) := by
  have printable := printable_replicate (narrow + 1)
  intro same
  unfold report at same
  rw [output_joined first positive (by omega) narrowed height.1 _ printable,
    output_joined second (by omega) short widened height.2 _ printable, characters_replicate,
    characters_replicate] at same
  exact reported_pieces_ne narrow wide positive wider (Option.some.inj same)

theorem width_of_reports (one : Reachable first) (other : Reachable second)
    (same : ∀ buf, report first buf = report second buf) : first.vte.width = second.vte.width := by
  have height := And.intro (reachable_usual first one).height (reachable_usual second other).height
  obtain ⟨n, wide, short, columns⟩ := reachable_width first one
  obtain ⟨m, wide', short', columns'⟩ := reachable_width second other
  rw [columns, columns']
  by_contra different
  rcases lt_or_gt_of_ne different with less | more
  · exact report_ne first second n m wide (by omega) short' columns columns' height (same _)
  · exact report_ne second first m n wide' (by omega) short columns' columns height.symm (same _).symm

/-- After any two inputs to new spies, a reset makes them forget the difference if and only if they
left the screen equally wide. -/
theorem forgotten_iff (a b : QByteArray) (first second : QWoCmdSpy) (one : process fresh a = some first)
    (other : process fresh b = some second) : Forgotten first second ↔ first.vte.width = second.vte.width := by
  have reached : Reachable first := .process a .constructed one
  have reached' : Reachable second := .process b .constructed other
  refine ⟨?_, ?_⟩
  · intro forgotten
    apply width_of_reports first second reached reached'
    intro buf
    rw [report, forgotten.later buf, report]
  · intro width
    have height : first.vte.height = second.vte.height :=
      (reachable_usual first reached).height.trans (reachable_usual second reached').height.symm
    have alike := reset_alike first second width height
    exact ⟨alike, alike.process⟩

/-- Both spies were switched to 80 columns, and one was given some lines behind that. -/
theorem forgotten_iff_lines : ∃ first second,
    process fresh (narrowScreen ++ joined [[byte 'l', byte 's'], [byte 'a']]) = some first ∧
      process fresh narrowScreen = some second ∧ Forgotten first second := by
  have size : (process fresh (narrowScreen ++ joined [[byte 'l', byte 's'], [byte 'a']])).map
      (fun spy => spy.vte.width) = some 80 := by
    decide +kernel
  obtain ⟨first, one, columns⟩ := Option.map_eq_some_iff.mp size
  obtain ⟨second, other, columns', _⟩ := narrowScreen_size
  exact ⟨first, second, one, other, (forgotten_iff _ _ first second one other).mpr (columns.trans columns'.symm)⟩

/-- One spy was switched to 80 columns, the other was given nothing; a line of 81 characters is
then reported in two pieces by the one and in one piece by the other. -/
theorem switch_not_forgotten : ∃ first second, process fresh narrowScreen = some first ∧
    process fresh [] = some second ∧ ¬ Forgotten first second ∧
      report first (joined [List.replicate 81 (byte 'x')]) ≠
        report second (joined [List.replicate 81 (byte 'x')]) := by
  obtain ⟨first, one, columns, height⟩ := narrowScreen_size
  have other : process fresh [] = some fresh := rfl
  have differ := report_ne first fresh 80 1024 (by decide) (by decide) (by decide) columns rfl ⟨height, rfl⟩
  refine ⟨first, fresh, one, other, ?_, differ⟩
  intro forgotten
  apply differ
  rw [report, forgotten.later, report]

/-! ## The order of the operations -/

/-- The operations of the spy. -/
inductive Operation where
  | reset
  | process (buf : QByteArray)
  | output

def operate (spy : QWoCmdSpy) : Operation → Option QWoCmdSpy
  | .reset => some (CmdSpy.reset spy)
  | .process buf => CmdSpy.process spy buf
  | .output => some (CmdSpy.output spy).2

/-- If the operation is `process`, all rows are there, and no row is missed while it works. -/
def Entered (spy : QWoCmdSpy) (operation : Operation) : Prop :=
  ∀ buf, operation = .process buf → spy.lines.length = fixRow ∧ ∃ next, CmdSpy.process spy buf = some next

/-- No input comes before the next reset. -/
def Pending (operations : List Operation) : Prop :=
  ∀ middle buf back, operations = middle ++ .process buf :: back → .reset ∈ middle

/-- After every output there is a reset before the next input. -/
def Refilled (operations : List Operation) : Prop :=
  ∀ front middle buf back, operations = front ++ .output :: (middle ++ .process buf :: back) → .reset ∈ middle

theorem refilled_cons (operation : Operation) (rest : List Operation) (other : operation ≠ .output) :
    Refilled (operation :: rest) ↔ Refilled rest := by
  refine ⟨?_, ?_⟩
  · intro refilled front middle buf back split
    exact refilled (operation :: front) middle buf back (by rw [split, List.cons_append])
  · intro refilled front middle buf back split
    cases front with
    | nil => exact absurd (List.cons.inj split).1 other
    | cons _ front => exact refilled front middle buf back (List.cons.inj split).2

theorem refilled_output : Refilled (.output :: rest) ↔ Pending rest ∧ Refilled rest := by
  refine ⟨?_, ?_⟩
  · intro refilled
    refine ⟨?_, ?_⟩
    · intro middle buf back split
      exact refilled [] middle buf back (by rw [split, List.nil_append])
    · intro front middle buf back split
      exact refilled (.output :: front) middle buf back (by rw [split, List.cons_append])
  · intro both front middle buf back split
    cases front with
    | nil => exact both.1 middle buf back (List.cons.inj split).2
    | cons _ front => exact both.2 front middle buf back (List.cons.inj split).2

theorem pending_reset : Pending (.reset :: rest) := by
  intro middle buf back split
  cases middle with
  | nil => cases split
  | cons first middle =>
    obtain ⟨rfl, -⟩ := List.cons.inj split
    exact List.mem_cons_self

theorem pending_output : Pending (.output :: rest) ↔ Pending rest := by
  refine ⟨?_, ?_⟩
  · intro pending middle buf back split
    have member := pending (.output :: middle) buf back (by rw [split, List.cons_append])
    simpa using member
  · intro pending middle buf back split
    cases middle with
    | nil => cases split
    | cons first middle => exact List.mem_cons_of_mem first (pending middle buf back (List.cons.inj split).2)

theorem not_pending_process (buf : QByteArray) (rest : List Operation) : ¬ Pending (.process buf :: rest) := by
  intro pending
  have member := pending [] buf rest rfl
  simp at member

/-! ## The rows along a session -/

/-- The spy shows some sheet on a screen of its full width. -/
def Ready (spy : QWoCmdSpy) : Prop := ∃ sheet, Shows fixCollumn sheet spy

/-- The spy was read, and has no rows. -/
structure Drained (spy : QWoCmdSpy) : Prop where
  lines : spy.lines = []
  going : spy.stop = false
  width : spy.vte.width = fixCollumn
  height : spy.vte.height = fixRow

theorem Ready.rows (ready : Ready spy) : spy.lines.length = fixRow := by
  obtain ⟨sheet, row, made, lands, rows⟩ := ready
  obtain ⟨above, length, -, lines⟩ := rows.text
  have below := rows.below
  rw [lines, List.length_append, List.length_cons, List.length_replicate, length, fixRow]
  omega

theorem Ready.drained (ready : Ready spy) : Drained (output spy).2 := by
  obtain ⟨sheet, row, made, lands, rows⟩ := ready
  exact ⟨rfl, rows.going, lands.plain.width, lands.plain.height⟩

theorem ready_reset (spy : QWoCmdSpy) (going : spy.stop = false) (width : spy.vte.width = fixCollumn)
    (height : spy.vte.height = fixRow) : Ready (reset spy) := by
  have shows := reset_shows spy (by decide : 1 < fixCollumn) width height
  have same : { reset spy with stop := false } = reset spy := by
    unfold reset
    rw [← going]
  rw [same] at shows
  exact ⟨{}, shows⟩

theorem Ready.process (ready : Ready spy) (buf : QByteArray) (plain : ∀ c ∈ buf, Printable c ∨ c = 0x0d ∨ c = 0x0a) :
    ∃ next, CmdSpy.process spy buf = some next ∧ Ready next := by
  obtain ⟨sheet, shows⟩ := ready
  have text : ∀ c ∈ buf, Text c := by
    intro c member
    rcases plain c member with printable | rfl | rfl
    · exact .inl printable
    · exact .inr (.inl rfl)
    · exact .inr (.inr (.inl rfl))
  obtain ⟨next, processed, shown⟩ := processLoop_shows (by decide) (le_refl fixCollumn) buf text sheet spy shows
  obtain ⟨row, made, lands, rows⟩ := shows
  have same : { spy with stop := false } = spy := by rw [← rows.going]
  exact ⟨next, by rw [CmdSpy.process, same, processed], _, shown⟩

theorem Ready.reset (ready : Ready spy) : Ready (CmdSpy.reset spy) := by
  have drained := ready.drained
  exact ready_reset spy drained.going drained.width drained.height

theorem entered_other (spy : QWoCmdSpy) (operation : Operation) (other : ∀ buf, operation ≠ .process buf) :
    Entered spy operation :=
  fun buf same => absurd same (other buf)

theorem admits_step (spy next : QWoCmdSpy) (operation : Operation) (rest : List Operation)
    (entered : Entered spy operation) (taken : operate spy operation = some next) :
    Run.Admits operate Entered spy (operation :: rest) ↔ Run.Admits operate Entered next rest := by
  rw [Run.admits_cons, taken]
  refine ⟨?_, ?_⟩
  · exact fun both => both.2 next rfl
  · intro later
    refine ⟨entered, ?_⟩
    rintro _ ⟨⟩
    exact later

/-- The run: all rows are there whenever input arrives, if they are put back after each output. -/
theorem admits_iff (operations : List Operation)
    (plain : ∀ buf, .process buf ∈ operations → ∀ c ∈ buf, Printable c ∨ c = 0x0d ∨ c = 0x0a) (spy : QWoCmdSpy) :
    (Ready spy → (Run.Admits operate Entered spy operations ↔ Refilled operations)) ∧
      (Drained spy → (Run.Admits operate Entered spy operations ↔ Pending operations ∧ Refilled operations)) := by
  induction operations generalizing spy with
  | nil =>
    have admits : Run.Admits operate Entered spy [] := by
      intro front input back state split
      simp at split
    have refilled : Refilled [] := by
      intro front middle buf back split
      simp at split
    have pending : Pending [] := by
      intro middle buf back split
      simp at split
    exact ⟨fun _ => iff_of_true admits refilled, fun _ => iff_of_true admits ⟨pending, refilled⟩⟩
  | cons operation rest ih =>
    have ih := ih fun buf member => plain buf (List.mem_cons_of_mem _ member)
    cases operation with
    | reset =>
      have entered := entered_other spy .reset fun _ => Operation.noConfusion
      have step := admits_step spy (CmdSpy.reset spy) .reset rest entered rfl
      have put := refilled_cons .reset rest Operation.noConfusion
      refine ⟨?_, ?_⟩
      · intro ready
        rw [step, put]
        exact (ih _).1 ready.reset
      · intro drained
        rw [step, put, (ih _).1 (ready_reset spy drained.going drained.width drained.height)]
        exact ⟨fun refilled => ⟨pending_reset rest, refilled⟩, And.right⟩
    | output =>
      have entered := entered_other spy .output fun _ => Operation.noConfusion
      have step := admits_step spy (CmdSpy.output spy).2 .output rest entered rfl
      refine ⟨?_, ?_⟩
      · intro ready
        rw [step, refilled_output]
        exact (ih _).2 ready.drained
      · intro drained
        have again : Drained (CmdSpy.output spy).2 := ⟨rfl, drained.going, drained.width, drained.height⟩
        rw [step, refilled_output, pending_output, (ih _).2 again]
        exact ⟨fun both => ⟨both.1, both⟩, And.right⟩
    | process buf =>
      refine ⟨?_, ?_⟩
      · intro ready
        obtain ⟨next, processed, kept⟩ := ready.process buf (plain buf List.mem_cons_self)
        have entered : Entered spy (.process buf) := by
          rintro _ ⟨⟩
          exact ⟨ready.rows, next, processed⟩
        rw [admits_step spy next _ rest entered processed, refilled_cons _ _ Operation.noConfusion]
        exact (ih next).1 kept
      · intro drained
        refine iff_of_false ?_ fun both => not_pending_process buf rest both.1
        intro admits
        obtain ⟨rows, -⟩ := admits [] (.process buf) rest spy rfl rfl buf rfl
        rw [drained.lines] at rows
        cases rows

/-- Over every sequence of operations, all rows are there whenever `process` is entered, if and only
if after every `output` there is a `reset` before the next `process`. -/
theorem entered_iff (operations : List Operation)
    (plain : ∀ buf, .process buf ∈ operations → ∀ c ∈ buf, (0x20 ≤ c ∧ c ≤ 0x7e) ∨ c = 0x0d ∨ c = 0x0a) :
    Run.Admits operate Entered fresh operations ↔
      ∀ front middle buf back, operations = front ++ .output :: (middle ++ .process buf :: back) →
        .reset ∈ middle :=
  (admits_iff operations plain fresh).1 (ready_reset unset rfl rfl rfl)

/-- A command, its output, and the next command after a reset. -/
theorem entered_iff_commands : Run.Admits operate Entered fresh
    [.process [byte 'a'], .output, .reset, .process [byte 'b', 0x0a]] := by
  refine (entered_iff _ ?_).mpr ?_
  · intro buf member
    simp only [List.mem_cons, Operation.process.injEq, reduceCtorEq, false_or, List.not_mem_nil, or_false] at member
    rcases member with rfl | rfl
    · decide
    · decide
  · have last : Refilled [.process [byte 'b', 0x0a]] := by
      intro front middle buf back split
      have few := congrArg List.length split
      simp only [List.length_append, List.length_cons, List.length_nil] at few
      omega
    have behind : Refilled [.reset, .process [byte 'b', 0x0a]] := (refilled_cons _ _ Operation.noConfusion).mpr last
    have all := (refilled_output _).mpr ⟨pending_reset [.process [byte 'b', 0x0a]], behind⟩
    exact (refilled_cons _ _ Operation.noConfusion).mpr all

/-- Input that arrives after an output finds no row. -/
theorem late_input_fails : ¬ Run.Admits operate Entered fresh [.process [byte 'a'], .output, .process [byte 'b']] ∧
    Run.after operate fresh [.process [byte 'a'], .output, .process [byte 'b']] = none := by
  have lost : Run.after operate fresh [.process [byte 'a'], .output, .process [byte 'b']] = none := by
    apply Option.isNone_iff_eq_none.mp
    decide +kernel
  refine ⟨?_, lost⟩
  intro admits
  have first : (Run.after operate fresh [.process [byte 'a'], .output]).isSome = true := by
    decide +kernel
  obtain ⟨spy, reached⟩ := Option.isSome_iff_exists.mp first
  obtain ⟨-, next, processed⟩ :=
    admits [.process [byte 'a'], .output] (.process [byte 'b']) [] spy rfl reached [byte 'b'] rfl
  have continued : Run.after operate fresh ([.process [byte 'a'], .output] ++ [.process [byte 'b']]) = some next := by
    rw [Run.after_append, reached, Option.bind_some, Run.after_cons]
    exact congrArg (Option.bind · _) processed
  rw [List.cons_append, List.cons_append, List.nil_append, lost] at continued
  cases continued

end Woterm.Terminal.Session
