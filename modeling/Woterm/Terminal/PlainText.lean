import Woterm.Lib.Typewriter
import Woterm.Terminal.Sizes
import Woterm.Terminal.TextBytes

/-!
The spy writes plain text like a typewriter. Its rows, those that scrolled off and those on the
screen, are the rows of the sheet, filled with blanks, and then blank rows up to the end of the
screen.
-/

namespace Woterm.Terminal.PlainText
open Woterm.Lib Woterm.Lib.Typewriter Woterm.Qt Woterm.Qt.QString Woterm.Terminal.Data
open Woterm.Terminal.TextBytes Woterm.Terminal.CmdSpy Woterm.Terminal.Sizes

/-! ## The calls -/

/-- What the spy does on a call. -/
def perform (spy : QWoCmdSpy) : Call → Option QWoCmdSpy
  | .put c x y => CmdSpy.putChar c { x := x, y := y } spy
  | .scroll n => CmdSpy.scrollUp n.toNat spy
  | .title => some { spy with stop := true }

theorem foldlM_handle (events : List Event) (spy : QWoCmdSpy) :
    events.foldlM handle spy = (events.filterMap callOf).foldlM perform spy := by
  induction events generalizing spy with
  | nil => rfl
  | cons event events ih =>
    have one : handle spy event = (callOf event).toList.foldlM perform spy := by
      cases event <;> simp [handle, callOf, perform, CmdSpy.putChar]
    rw [List.foldlM_cons, one]
    cases call : callOf event with
    | none => simp [call, ih]
    | some performed => simp [call, ih]

variable (sheet : Sheet Char) (spy : QWoCmdSpy)

theorem processByte_calls (c : uchar) :
    processByte spy c = (calls (Vte.process frontend spy.vte c)).foldlM perform
      { spy with vte := Vte.process frontend spy.vte c } :=
  foldlM_handle _ _

/-! ## Rows -/

/-- A row filled with blanks. -/
def pad (row : QString) : QString := row ++ List.replicate (fixCollumn - row.length) ' '

theorem pad_overwrite (row : QString) (x : Nat) (c : Char) (short : row.length ≤ fixCollumn)
    (right : x < fixCollumn) : assign (pad row) x c = pad (overwrite ' ' row x c) := by
  have full : x < (pad row).length := by
    simp only [pad, List.length_append, List.length_replicate]
    omega
  rw [assign, if_pos full]
  unfold pad overwrite
  by_cases inside : x < row.length
  · rw [if_pos inside, List.set_append_left _ _ inside, List.length_set]
  · have gap : x - row.length < (List.replicate (fixCollumn - row.length) ' ').length := by
      rw [List.length_replicate]
      omega
    have length : fixCollumn - (row ++ List.replicate (x - row.length) ' ' ++ [c]).length =
        fixCollumn - row.length - (x - row.length + 1) := by
      simp only [List.length_append, List.length_replicate, List.length_singleton]
      omega
    rw [if_neg inside, List.set_append_right _ _ (by omega), List.set_eq_take_cons_drop c gap,
      List.take_replicate, List.drop_replicate, min_eq_left (by omega), length]
    simp

theorem overwrite_length (row : QString) (x : Nat) (c : Char) (short : row.length ≤ fixCollumn)
    (right : x < fixCollumn) : (overwrite ' ' row x c).length ≤ fixCollumn := by
  unfold overwrite
  split_ifs
  · rwa [List.length_set]
  · simp only [List.length_append, List.length_replicate, List.length_singleton]
    omega

theorem modify_middle {α : Type*} (front back : List α) (a : α) (f : α → α) :
    (front ++ a :: back).modify front.length f = front ++ f a :: back := by
  induction front with
  | nil => rfl
  | cons b front ih => simp [ih]

/-- The spy shows the sheet, with the current row at the given row of the screen. -/
structure Rows (sheet : Sheet Char) (row : Nat) (spy : QWoCmdSpy) : Prop where
  going : spy.stop = false
  below : row < 768
  short : sheet.current.length ≤ fixCollumn
  text : ∃ above, above.length = row ∧ sheet.rows.map pad = spy.tops ++ above ∧
    spy.lines = above ++ pad sheet.current :: List.replicate (767 - row) emptyLine

theorem perform_put (row : Nat) (spy : QWoCmdSpy) (c : UInt32) (x column : Nat) (rows : Rows sheet row spy)
    (right : x < fixCollumn) :
    ∃ next, perform spy (.put c x row) = some next ∧ next.vte = spy.vte ∧
      Rows { sheet with current := overwrite ' ' sheet.current x (qchar c), column := column } row next := by
  obtain ⟨above, length, scrolled, lines⟩ := rows.text
  have inside : 0 ≤ (x : Int) ∧ 0 ≤ (row : Int) ∧ (row : Int) < spy.lines.length := by
    have below := rows.below
    rw [lines, List.length_append, List.length_cons, List.length_replicate]
    omega
  refine ⟨_, if_pos inside, rfl, rows.going, rows.below, overwrite_length _ _ _ rows.short right, above, length,
    scrolled, ?_⟩
  simp only [Int.toNat_natCast]
  rw [lines, ← length, modify_middle, pad_overwrite _ _ _ rows.short right]

theorem perform_advance (row : Nat) (spy : QWoCmdSpy) (rows : Rows sheet row spy) :
    ∃ next, (advance row).foldlM perform spy = some next ∧ next.vte = spy.vte ∧
      Rows sheet.lineFeed (nextRow row) next := by
  obtain ⟨above, length, scrolled, lines⟩ := rows.text
  have below := rows.below
  have contents : sheet.lineFeed.rows.map pad = spy.tops ++ (above ++ [pad sheet.current]) := by
    rw [← List.append_assoc, ← scrolled]
    simp [Sheet.lineFeed, Sheet.contents]
  unfold advance nextRow
  split_ifs with last
  · cases above with
    | nil => simp [last] at length
    | cons first above =>
      have shown : spy.lines = first :: (above ++ [pad sheet.current]) := by
        rw [lines, last]
        rfl
      refine ⟨{ spy with tops := spy.tops ++ [first], lines := above ++ [pad sheet.current] ++ [emptyLine] }, ?_,
        rfl, rows.going, by omega, Nat.zero_le _, above ++ [pad sheet.current], ?_, ?_, ?_⟩
      · simp [perform, CmdSpy.scrollUp, shown]
      · simp only [List.length_cons] at length
        simp only [List.length_append, List.length_singleton]
        omega
      · rw [contents]
        simp
      · rw [min_eq_right (by omega)]
        rfl
  · refine ⟨spy, rfl, rfl, rows.going, by omega, Nat.zero_le _, above ++ [pad sheet.current], ?_, contents, ?_⟩
    · rw [List.length_append, List.length_singleton]
      omega
    · have more : 767 - row = (767 - min (row + 1) 767) + 1 := by omega
      rw [lines, more, List.replicate_succ, List.append_assoc]
      rfl

/-! ## The simulation -/

/-- The character of an ASCII byte. -/
def character (c : uchar) : Char := Char.ofNat c.toNat

def Text (c : uchar) : Prop := Printable c ∨ c = 0x0d ∨ c = 0x0a ∨ c = 0x08

/-- The typewriter on a byte of text. -/
def typed (width : Nat) (sheet : Sheet Char) (c : uchar) : Sheet Char :=
  if c = 0x0d then sheet.carriageReturn
  else if c = 0x0a then sheet.lineFeed
  else if c = 0x08 then backspace width sheet
  else put width ' ' sheet (character c)

/-- The spy shows the sheet, and its cursor is at the column of the sheet. -/
def Shows (width : Nat) (sheet : Sheet Char) (spy : QWoCmdSpy) : Prop :=
  ∃ row made, Lands width [] sheet.column row made spy.vte ∧ Rows sheet row spy

theorem Shows.of_lands {width row : Nat} {sheet : Sheet Char} {made : List Call} {v : VTE} {spy : QWoCmdSpy}
    (same : spy.vte = v) (lands : Lands width [] sheet.column row made v) (rows : Rows sheet row spy) :
    Shows width sheet spy := by
  subst same
  exact ⟨row, made, lands, rows⟩

theorem qchar_printable (c : uchar) (printable : Printable c) : qchar c.toUInt32 = character c := by
  have upper : c.toNat ≤ 0x7e := UInt8.le_iff_toNat_le.mp printable.2
  have code : c.toUInt32.toNat % 65536 = c.toNat := by
    rw [UInt8.toNat_toUInt32]
    omega
  simp only [qchar, code, character]
  rw [if_neg (by omega)]

theorem Rows.at_column {sheet : Sheet Char} {row : Nat} {spy : QWoCmdSpy} (rows : Rows sheet row spy)
    (column : Nat) : Rows { sheet with column := column } row spy :=
  ⟨rows.going, rows.below, rows.short, rows.text⟩

theorem Rows.at_state {sheet : Sheet Char} {row : Nat} {spy : QWoCmdSpy} (rows : Rows sheet row spy) (v : VTE) :
    Rows sheet row { spy with vte := v } :=
  ⟨rows.going, rows.below, rows.short, rows.text⟩

variable {width : Nat}

theorem processByte_put (wide : 1 < width) (narrow : width ≤ fixCollumn) (sheet : Sheet Char) (spy : QWoCmdSpy)
    (c : uchar) (printable : Printable c) (shows : Shows width sheet spy) :
    ∃ next, processByte spy c = some next ∧ Shows width (put width ' ' sheet (character c)) next := by
  obtain ⟨row, made, lands, rows⟩ := shows
  have processed := process_put c sheet.column row made spy.vte printable (by omega) rows.below lands
  have started := rows.at_state (Vte.process frontend spy.vte c)
  rw [processByte_calls]
  unfold put
  split_ifs at processed ⊢ with room
  · obtain ⟨next, written, kept, rows⟩ :=
      perform_put sheet row _ c.toUInt32 sheet.column (sheet.column + 1) started (by omega)
    rw [qchar_printable c printable] at rows
    rw [processed.calls]
    exact ⟨next, by simpa using written, Shows.of_lands kept processed rows⟩
  · obtain ⟨middle, moved, same, fed⟩ := perform_advance sheet row _ started
    obtain ⟨next, written, kept, rows⟩ :=
      perform_put sheet.lineFeed (nextRow row) middle c.toUInt32 0 1 fed (by omega)
    rw [qchar_printable c printable] at rows
    rw [processed.calls, List.foldlM_append, moved]
    exact ⟨next, by simpa using written, Shows.of_lands (kept.trans same) processed rows⟩

theorem processByte_carriageReturn (wide : 1 < width) (sheet : Sheet Char) (spy : QWoCmdSpy)
    (shows : Shows width sheet spy) :
    ∃ next, processByte spy 0x0d = some next ∧ Shows width sheet.carriageReturn next := by
  obtain ⟨row, made, lands, rows⟩ := shows
  have processed := process_carriageReturn sheet.column row made spy.vte wide rows.below lands
  rw [processByte_calls, processed.calls]
  exact ⟨_, rfl, row, [], processed, (rows.at_state _).at_column 0⟩

theorem processByte_lineFeed (wide : 1 < width) (sheet : Sheet Char) (spy : QWoCmdSpy)
    (shows : Shows width sheet spy) :
    ∃ next, processByte spy 0x0a = some next ∧ Shows width sheet.lineFeed next := by
  obtain ⟨row, made, lands, rows⟩ := shows
  have processed := process_lineFeed sheet.column row made spy.vte (by omega) rows.below lands
  obtain ⟨next, moved, kept, fed⟩ := perform_advance sheet row _ (rows.at_state (Vte.process frontend spy.vte 0x0a))
  rw [processByte_calls, processed.calls]
  exact ⟨next, moved, Shows.of_lands kept processed fed⟩

theorem processByte_backspace (wide : 1 < width) (sheet : Sheet Char) (spy : QWoCmdSpy)
    (shows : Shows width sheet spy) :
    ∃ next, processByte spy 0x08 = some next ∧ Shows width (backspace width sheet) next := by
  obtain ⟨row, made, lands, rows⟩ := shows
  have processed := process_backspace sheet.column row made spy.vte wide rows.below lands
  rw [processByte_calls, processed.calls]
  exact ⟨_, rfl, row, [], processed, (rows.at_state _).at_column _⟩

theorem typed_printable (c : uchar) (printable : Printable c) :
    typed width sheet c = put width ' ' sheet (character c) := by
  have lower := printable.1
  unfold typed
  rw [if_neg, if_neg, if_neg]
  all_goals
    intro same
    subst same
    exact absurd lower (by decide)

/-- The step: on a byte of text, the spy does what the typewriter does. -/
theorem processByte_shows (wide : 1 < width) (narrow : width ≤ fixCollumn) (sheet : Sheet Char) (spy : QWoCmdSpy)
    (c : uchar) (text : Text c) (shows : Shows width sheet spy) :
    ∃ next, processByte spy c = some next ∧ Shows width (typed width sheet c) next := by
  rcases text with printable | rfl | rfl | rfl
  · rw [typed_printable sheet c printable]
    exact processByte_put wide narrow sheet spy c printable shows
  · exact processByte_carriageReturn wide sheet spy shows
  · exact processByte_lineFeed wide sheet spy shows
  · exact processByte_backspace wide sheet spy shows

/-- The run: if every byte does to the spy what some writing does to the sheet, all bytes do. -/
theorem processLoop_simulates (write : Sheet Char → uchar → Sheet Char) (bytes : List uchar)
    (step : ∀ sheet spy, ∀ c ∈ bytes, Shows width sheet spy →
      ∃ next, processByte spy c = some next ∧ Shows width (write sheet c) next)
    (sheet : Sheet Char) (spy : QWoCmdSpy) (shows : Shows width sheet spy) :
    ∃ next, processLoop bytes spy = some next ∧ Shows width (bytes.foldl write sheet) next := by
  induction bytes generalizing sheet spy with
  | nil => exact ⟨spy, rfl, shows⟩
  | cons c bytes ih =>
    obtain ⟨middle, processed, shown⟩ := step sheet spy c List.mem_cons_self shows
    have later := fun sheet spy other member => step sheet spy other (List.mem_cons_of_mem c member)
    obtain ⟨next, reached, last⟩ := ih later (write sheet c) middle shown
    obtain ⟨_, _, _, rows⟩ := shows
    refine ⟨next, ?_, last⟩
    rw [processLoop, rows.going, if_neg Bool.false_ne_true, processed, Option.bind_some, reached]

theorem processLoop_shows (wide : 1 < width) (narrow : width ≤ fixCollumn) (bytes : List uchar)
    (text : ∀ c ∈ bytes, Text c) (sheet : Sheet Char) (spy : QWoCmdSpy) (shows : Shows width sheet spy) :
    ∃ next, processLoop bytes spy = some next ∧ Shows width (bytes.foldl (typed width) sheet) next :=
  processLoop_simulates (typed width) bytes
    (fun sheet spy c member => processByte_shows wide narrow sheet spy c (text c member)) sheet spy shows

/-! ## Reset and output -/

theorem core_reset (v : VTE) : core (Vte.reset v) = core (Vte.risState v) := by
  unfold Vte.reset Vte.ris Vte.announceCharsets Vte.notifyDECSCLM Vte.notifyDECSCNM Vte.notifyKPAM Vte.notifyKAM
  simp only [core_sc, core_emit, core_emitAll]
  rfl

theorem reset_shows (wide : 1 < width) (columns : spy.vte.width = width) (height : spy.vte.height = 768) :
    Shows width {} { reset spy with stop := false } := by
  have plain : Plain width [] (Vte.risState spy.vte) := by
    refine ⟨rfl, rfl, rfl, rfl, rfl, rfl, rfl, rfl, ?_, columns, height⟩
    rw [Vte.risState, height]
    rfl
  have home : Lands width [] 0 0 (calls (Vte.risState spy.vte)) (Vte.risState spy.vte) := by
    refine ⟨plain, ?_, rfl, ?_, rfl⟩
    · rw [min_eq_left (by omega)]
      rfl
    · rw [if_pos (by omega)]
      rfl
  have rows : Rows {} 0 { reset spy with stop := false } :=
    ⟨rfl, by omega, Nat.zero_le _, [], rfl, rfl, rfl⟩
  exact Shows.of_lands rfl (home.congr (core_reset spy.vte)) rows

/-- The rows that are not blank, simplified. -/
def reported (rows : List QString) : List QString :=
  (rows.map simplified).filter fun line => !line.isEmpty

theorem reported_append (first second : List QString) :
    reported (first ++ second) = reported first ++ reported second := by
  unfold reported
  rw [List.map_append, List.filter_append]

theorem simplified_pad (row : QString) : simplified (pad row) = simplified row := by
  apply Text.simplify_append_blanks
  intro c member
  rw [(List.mem_replicate.mp member).2]
  rfl

theorem reported_pad (rows : List QString) : reported (rows.map pad) = reported rows := by
  unfold reported
  rw [List.map_map]
  congr 1
  apply List.map_congr_left
  exact fun row _ => simplified_pad row

theorem reported_blank (n : Nat) : reported (List.replicate n emptyLine) = [] := by
  have blank : simplified emptyLine = [] := simplified_pad []
  simp [reported, blank]

theorem output_shows (shows : Shows width sheet spy) : (output spy).1 = reported sheet.contents := by
  obtain ⟨row, _, _, rows⟩ := shows
  obtain ⟨above, _, scrolled, lines⟩ := rows.text
  have all : spy.tops ++ spy.lines =
      sheet.contents.map pad ++ List.replicate (767 - row) emptyLine := by
    rw [lines, ← List.append_assoc, ← scrolled]
    simp [Sheet.contents]
  calc
    (output spy).1 = reported (spy.tops ++ spy.lines) := rfl
    _ = reported (sheet.contents.map pad ++ List.replicate (767 - row) emptyLine) := by rw [all]
    _ = reported sheet.contents ++ [] := by rw [reported_append, reported_pad, reported_blank]
    _ = reported sheet.contents := List.append_nil _

/-! ## Lines -/

/-- Lines joined by CR LF. -/
def joined (lines : List (List uchar)) : QByteArray := [0x0d, 0x0a].intercalate lines

theorem typed_line (line : List uchar) (printable : ∀ c ∈ line, Printable c) (sheet : Sheet Char) :
    line.foldl (typed width) sheet = (line.map character).foldl (put width ' ') sheet := by
  rw [List.foldl_map]
  apply List.foldl_ext
  intro sheet c member
  exact typed_printable sheet c (printable c member)

theorem typed_joined (lines : List (List uchar)) (printable : ∀ line ∈ lines, ∀ c ∈ line, Printable c)
    (sheet : Sheet Char) :
    (joined lines).foldl (typed width) sheet = typeLines width ' ' (lines.map (List.map character)) sheet := by
  induction lines generalizing sheet with
  | nil => rfl
  | cons first rest ih =>
    have start : first.foldl (typed width) sheet = _ :=
      typed_line first (printable first List.mem_cons_self) sheet
    have later := ih fun line member => printable line (List.mem_cons_of_mem first member)
    cases rest with
    | nil => simpa [joined, typeLines] using start
    | cons second rest =>
      unfold joined at later ⊢
      rw [List.intercalate_cons_cons, List.foldl_append, List.foldl_append, start, later]
      rfl

theorem text_joined (lines : List (List uchar)) (printable : ∀ line ∈ lines, ∀ c ∈ line, Printable c) :
    ∀ c ∈ joined lines, Text c := by
  apply Text.forall_mem_intercalate
  · intro c member
    rcases List.mem_pair.mp member with rfl | rfl
    · exact .inr (.inl rfl)
    · exact .inr (.inr (.inl rfl))
  · exact fun line member c inside => .inl (printable line member c inside)

theorem reported_layout (width : Nat) (lines : List QString) :
    reported (lines.flatMap (layout width)) = reported (lines.flatMap (pieces width)) := by
  induction lines with
  | nil => rfl
  | cons line lines ih =>
    rw [List.flatMap_cons, List.flatMap_cons, reported_append, reported_append, ih]
    unfold layout
    split_ifs with empty
    · rw [empty, pieces_nil]
      rfl
    · rfl

/-- On a screen of any width, the pieces of that width of the lines are reported. -/
theorem output_joined (wide : 1 < width) (narrow : width ≤ fixCollumn) (columns : spy.vte.width = width)
    (height : spy.vte.height = 768) (lines : List (List uchar)) (printable : ∀ line ∈ lines, ∀ c ∈ line, Printable c) :
    (process (reset spy) (joined lines)).map (fun final => (output final).1) =
      some (reported ((lines.map (List.map character)).flatMap (pieces width))) := by
  obtain ⟨final, processed, shown⟩ := processLoop_shows wide narrow (joined lines) (text_joined lines printable)
    {} _ (reset_shows spy wide columns height)
  have positive : 0 < width := by omega
  rw [process, processed, Option.map_some, output_shows _ _ shown, typed_joined lines printable,
    ← reported_layout]
  cases lines with
  | nil => rfl
  | cons first rest =>
    rw [contents_typeLines width ' ' positive _ (by simp)]

/-- After a reset, the spy reports the pieces of 1024 columns of the lines, in order and without the
blank ones. -/
def Recorded (spy : QWoCmdSpy) (lines : List (List uchar)) : Prop :=
  (process (reset spy) (joined lines)).map (fun final => (output final).1) =
    some ((((lines.map (List.map character)).flatMap (pieces fixCollumn)).map simplified).filter
      fun piece => !piece.isEmpty)

/-- One text is recorded if and only if the screen cuts it as 1024 columns do, up to blanks. -/
theorem recorded_pieces_iff (wide : 1 < width) (narrow : width ≤ fixCollumn) (columns : spy.vte.width = width)
    (height : spy.vte.height = 768) (lines : List (List uchar)) (printable : ∀ line ∈ lines, ∀ c ∈ line, Printable c) :
    Recorded spy lines ↔ reported ((lines.map (List.map character)).flatMap (pieces width)) =
      reported ((lines.map (List.map character)).flatMap (pieces fixCollumn)) := by
  rw [Recorded, output_joined spy wide narrow columns height lines printable]
  exact Option.some_inj

theorem printable_replicate (n : Nat) : ∀ line ∈ [List.replicate n (byte 'x')], ∀ c ∈ line, Printable c := by
  intro line member c inside
  rw [List.mem_singleton.mp member] at inside
  rw [(List.mem_replicate.mp inside).2]
  exact ⟨by decide, by decide⟩

theorem reported_pieces_ne (narrow wide : Nat) (positive : 1 < narrow) (wider : narrow < wide) :
    reported (pieces narrow (List.replicate (narrow + 1) 'x')) ≠
      reported (pieces wide (List.replicate (narrow + 1) 'x')) := by
  have solid (n : Nat) : simplified (List.replicate (n + 1) 'x') = List.replicate (n + 1) 'x' := by
    apply Text.simplify_solid
    · simp
    · intro c member
      rw [(List.mem_replicate.mp member).2]
      rfl
  have cut : pieces narrow (List.replicate (narrow + 1) 'x') = [List.replicate narrow 'x', ['x']] := by
    rw [List.replicate_succ', pieces_full narrow (by omega) _ _ List.length_replicate (by simp),
      pieces_short narrow (by omega) ['x'] (by simp) (le_of_lt positive)]
  have whole : pieces wide (List.replicate (narrow + 1) 'x') = [List.replicate (narrow + 1) 'x'] := by
    apply pieces_short wide (by omega) _ (by simp)
    rw [List.length_replicate]
    exact wider
  obtain ⟨n, rfl⟩ : ∃ n, narrow = n + 1 := ⟨narrow - 1, by omega⟩
  intro same
  simp only [cut, whole, reported] at same
  simp [solid] at same

theorem characters_replicate (n : Nat) :
    ([List.replicate n (byte 'x')].map (List.map character)).flatMap (pieces width) =
      pieces width (List.replicate n 'x') := by
  have text : (List.replicate n (byte 'x')).map character = List.replicate n 'x' := List.map_replicate
  rw [List.map_singleton, List.flatMap_singleton, text]

theorem not_recorded (wide : 1 < width) (narrow : width < fixCollumn) (columns : spy.vte.width = width)
    (height : spy.vte.height = 768) : ¬ Recorded spy [List.replicate (width + 1) (byte 'x')] := by
  rw [recorded_pieces_iff spy wide (le_of_lt narrow) columns height _ (printable_replicate _), characters_replicate,
    characters_replicate]
  exact reported_pieces_ne width fixCollumn wide narrow

/-- Plain text is recorded if and only if the screen is as wide as it was constructed: a reset
keeps a width of 80 or 132 columns. -/
theorem recorded_iff (spy : QWoCmdSpy) (reachable : Reachable spy) :
    (∀ lines : List (List uchar), (∀ line ∈ lines, ∀ c ∈ line, 0x20 ≤ c ∧ c ≤ 0x7e) → Recorded spy lines) ↔
      spy.vte.width = fixCollumn := by
  have usual := reachable_usual spy reachable
  refine ⟨?_, ?_⟩
  · intro recorded
    by_contra other
    obtain ⟨width, wide, narrow, columns⟩ := reachable_switched spy reachable other
    have narrower : width < fixCollumn := lt_trans narrow (by decide)
    exact not_recorded spy wide narrower columns usual.height (recorded _ (printable_replicate _))
  · intro columns lines printable
    exact (recorded_pieces_iff spy (by decide) (le_refl _) columns usual.height lines printable).mpr rfl

theorem recorded_iff_fresh : Reachable fresh ∧ Recorded fresh [[byte 'l', byte 's'], [], [byte '0']] :=
  ⟨.constructed, (recorded_iff fresh .constructed).mpr rfl _ (by decide)⟩

/-- The switch to 80 columns. -/
def narrowScreen : QByteArray := "\x1b[?3l".toList.map byte

theorem narrowScreen_size :
    ∃ spy, process fresh narrowScreen = some spy ∧ spy.vte.width = (80 : Nat) ∧ spy.vte.height = 768 := by
  have size : (process fresh narrowScreen).map (fun spy => (spy.vte.width, spy.vte.height)) = some (80, 768) := by
    decide +kernel
  obtain ⟨spy, processed, fields⟩ := Option.map_eq_some_iff.mp size
  obtain ⟨columns, height⟩ := Prod.mk.inj fields
  exact ⟨spy, processed, columns, height⟩

/-- A line of 81 characters is reported in two pieces, if the screen was switched before the reset. -/
theorem narrow_not_recorded : ∃ spy, process fresh narrowScreen = some spy ∧
    ¬ Recorded spy [List.replicate 81 (byte 'x')] := by
  obtain ⟨spy, processed, columns, height⟩ := narrowScreen_size
  exact ⟨spy, processed, not_recorded spy (by decide) (by decide) columns height⟩

end Woterm.Terminal.PlainText
