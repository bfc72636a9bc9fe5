import Woterm.Terminal.Parameters

/-!
Which control sequences stay out of the text. A byte that the parser does not take as an argument
ends the sequence at once, so what follows it is shown.
-/

namespace Woterm.Terminal.Containment
open Woterm.Lib Woterm.Lib.Run Woterm.Terminal.Data Woterm.Terminal.Vte Woterm.Terminal.Codes
open Woterm.Terminal.Parameters

/-! ## Which bytes are accepted -/

def Stored (c : uchar) : Prop := isDigit c = true ∨ c = byte ';'

theorem accept_some (data next : ControlData) (c : uchar) (taken : accept data c = some next) :
    data.ctrlNextData < 30 ∧ (c = byte '?' ∧ data.ctrlNextData = 0 ∧ next.ctrlNextData = 0 ∨
      Stored c ∧ next.ctrlNextData = data.ctrlNextData + 1) := by
  unfold accept ControlData.addArg at taken
  split_ifs at taken with space question separator digit
  · obtain rfl := Option.some.inj taken
    exact ⟨of_decide_eq_true space, .inl ⟨question.1, question.2, question.2⟩⟩
  · obtain rfl := Option.some.inj taken
    exact ⟨of_decide_eq_true space, .inr ⟨.inr separator, rfl⟩⟩
  · obtain rfl := Option.some.inj taken
    exact ⟨of_decide_eq_true space, .inr ⟨.inl digit, rfl⟩⟩

theorem accept_question (data : ControlData) (start : data.ctrlNextData = 0) :
    ∃ next, accept data (byte '?') = some next ∧ next.ctrlNextData = 0 := by
  have space : data.spaceLeft = true := by rw [ControlData.spaceLeft, start]; rfl
  refine ⟨{ data with decMode := true }, ?_, start⟩
  rw [accept, if_pos space, ControlData.addArg, if_pos ⟨rfl, start⟩]

theorem accept_stored (data : ControlData) (c : uchar) (room : data.ctrlNextData < 30) (stored : Stored c) :
    ∃ next, accept data c = some next ∧ next.ctrlNextData = data.ctrlNextData + 1 := by
  have space : data.spaceLeft = true := decide_eq_true room
  unfold accept ControlData.addArg
  rw [if_pos space]
  rcases stored with digit | rfl
  · obtain ⟨question, separator⟩ := digit_other c digit
    rw [if_neg fun both => question both.1, if_neg separator, if_pos digit]
    exact ⟨_, rfl, rfl⟩
  · rw [if_neg fun both => absurd both.1 (by decide), if_pos rfl]
    exact ⟨_, rfl, rfl⟩

/-- Question marks before anything is stored, and then digits and separators as long as there is space. -/
def Fits (stored : Nat) (bytes : List uchar) : Prop :=
  ∃ marks rest, bytes = List.replicate marks (byte '?') ++ rest ∧ (marks ≠ 0 → stored = 0) ∧
    (∀ c ∈ rest, Stored c) ∧ stored + rest.length ≤ 30

theorem fits_of_accept (bytes : List uchar) (data next : ControlData) (room : data.ctrlNextData ≤ 30)
    (taken : after accept data bytes = some next) : Fits data.ctrlNextData bytes := by
  induction bytes generalizing data with
  | nil => exact ⟨0, [], rfl, fun marked => absurd rfl marked, by simp, room⟩
  | cons c bytes ih =>
    rw [after_cons] at taken
    obtain ⟨middle, first, later⟩ := Option.bind_eq_some_iff.mp taken
    obtain ⟨space, ⟨rfl, start, same⟩ | ⟨stored, more⟩⟩ := accept_some data middle c first
    · obtain ⟨marks, rest, rfl, -, digits, short⟩ := ih middle (by omega) later
      exact ⟨marks + 1, rest, rfl, fun _ => start, digits, by omega⟩
    · obtain ⟨marks, rest, rfl, marked, digits, short⟩ := ih middle (by omega) later
      have unmarked : marks = 0 := by
        by_contra other
        have := marked other
        omega
      subst unmarked
      refine ⟨0, c :: rest, rfl, fun marked => absurd rfl marked, ?_, ?_⟩
      · exact List.forall_mem_cons.mpr ⟨stored, digits⟩
      · rw [List.length_cons]
        omega

theorem accept_of_fits (bytes : List uchar) (data : ControlData) (fits : Fits data.ctrlNextData bytes) :
    ∃ next, after accept data bytes = some next := by
  induction bytes generalizing data with
  | nil => exact ⟨data, rfl⟩
  | cons c bytes ih =>
    obtain ⟨marks, rest, shape, start, digits, short⟩ := fits
    have step : ∃ middle, accept data c = some middle ∧ Fits middle.ctrlNextData bytes := by
      cases marks with
      | zero =>
        rw [List.replicate_zero, List.nil_append] at shape
        subst shape
        rw [List.length_cons] at short
        obtain ⟨stored, later⟩ := List.forall_mem_cons.mp digits
        obtain ⟨middle, taken, more⟩ := accept_stored data c (by omega) stored
        exact ⟨middle, taken, 0, bytes, rfl, fun marked => absurd rfl marked, later, by omega⟩
      | succ marks =>
        obtain ⟨rfl, rfl⟩ := List.cons.inj shape
        obtain ⟨middle, taken, same⟩ := accept_question data (start (Nat.succ_ne_zero marks))
        have := start (Nat.succ_ne_zero marks)
        exact ⟨middle, taken, marks, rest, rfl, fun _ => same, digits, by omega⟩
    obtain ⟨middle, taken, fits⟩ := step
    obtain ⟨next, reached⟩ := ih middle fits
    exact ⟨next, by rw [after_cons, taken, Option.bind_some, reached]⟩

theorem fits_high (marks : Nat) (rest : List uchar) (digits : ∀ c ∈ rest, Stored c) (c : uchar)
    (member : c ∈ List.replicate marks (byte '?') ++ rest) : 0x30 ≤ c.toNat := by
  rcases List.mem_append.mp member with mark | inside
  · rw [(List.mem_replicate.mp mark).2]
    decide
  · rcases digits c inside with digit | rfl
    · exact ((isDigit_iff c).mp digit).1
    · decide

/-! ## Sequences -/

variable (frontend : Frontend)

/-- Nothing of the sequence is put, and the parser is back on the ground with its last byte and not before. -/
structure Contained (v : VTE) (sequence : List uchar) : Prop where
  silent : putCodes frontend v sequence = []
  inside : ∀ front back, sequence = front ++ back → front ≠ [] → back ≠ [] →
    (run frontend v front).mode ≠ .ground
  returns : (run frontend v sequence).mode = .ground

theorem process_refused (v : VTE) (data : ControlData) (c : uchar) (text : isControl c = false)
    (refused : accept data c = none) : (process frontend (inSequence v data) c).mode = .ground := by
  rw [process_inSequence frontend v data c text]
  have refused : accept (inSequence v data).csiData c = none := refused
  unfold accept at refused
  unfold handleCsi
  split_ifs at refused ⊢ with space
  · rw [refused]
    dsimp only
    split <;> rfl
  · rfl

theorem codes_inSequence (v : VTE) (data : ControlData) (c : uchar) (text : isControl c = false) :
    codes (process frontend (inSequence v data) c) = [] := by
  rw [process_inSequence frontend v data c text]
  apply codes_of_puts
  exact (Geometry.handleCsi_calm closed_true frontend c (inSequence v data) trivial (fun _ _ _ _ => trivial)
    fun _ _ => trivial).puts

theorem accept_letter (data : ControlData) (c : uchar) (last : 0x40 ≤ c ∧ c ≤ 0x7e) : accept data c = none := by
  unfold accept
  split_ifs
  · exact Bounds.addArg_letter data c (letter_final c last).2
  · rfl

theorem putCodes_introducer (v : VTE) (ground : v.mode = .ground) (empty : v.utf8Buffer = []) :
    putCodes frontend v [0x1b, byte '['] = [] := by
  rw [putCodes, process_escape frontend v ground empty, putCodes, process_bracket]
  rfl

theorem putCodes_accept (v : VTE) (data next : ControlData) (bytes : List uchar)
    (text : ∀ c ∈ bytes, isControl c = false) (taken : after accept data bytes = some next) :
    putCodes frontend (inSequence v data) bytes = [] := by
  induction bytes generalizing data with
  | nil => rfl
  | cons c bytes ih =>
    rw [after_cons] at taken
    obtain ⟨middle, first, later⟩ := Option.bind_eq_some_iff.mp taken
    have quiet := codes_inSequence frontend v data c (text c List.mem_cons_self)
    rw [putCodes, quiet, process_accept frontend v data middle c (text c List.mem_cons_self) first]
    exact ih middle (fun d member => text d (List.mem_cons_of_mem c member)) later

theorem not_contained (v : VTE) (ground : v.mode = .ground) (empty : v.utf8Buffer = []) (body : List uchar)
    (c : uchar) (text : ∀ d ∈ body, isControl d = false) (refused : after accept {} body = none) :
    ¬ Contained frontend v ([0x1b, byte '['] ++ body ++ [c]) := by
  intro contained
  obtain ⟨front, d, back, data, rfl, taken, stopped⟩ := after_eq_none accept {} body refused
  have before : ∀ e ∈ front, isControl e = false := fun e member => text e (List.mem_append_left _ member)
  have reached : run frontend v ([0x1b, byte '['] ++ front ++ [d]) = process frontend (inSequence v data) d := by
    rw [run_append, run_parameters frontend v ground empty front data before taken]
    rfl
  have early := contained.inside ([0x1b, byte '['] ++ front ++ [d]) (back ++ [c]) (by simp) (by simp) (by simp)
  rw [reached] at early
  exact early (process_refused frontend v data d (text d (by simp)) stopped)

theorem contained_of_accept (v : VTE) (ground : v.mode = .ground) (empty : v.utf8Buffer = []) (body : List uchar)
    (c : uchar) (last : 0x40 ≤ c ∧ c ≤ 0x7e) (text : ∀ d ∈ body, isControl d = false) (data : ControlData)
    (taken : after accept {} body = some data) : Contained frontend v ([0x1b, byte '['] ++ body ++ [c]) := by
  have letter := (letter_final c last).1
  have arrived := run_parameters frontend v ground empty body data text taken
  refine ⟨?_, ?_, ?_⟩
  · rw [putCodes_append, putCodes_append, arrived, putCodes_introducer frontend v ground empty,
      run_introducer frontend v ground empty, putCodes_accept frontend v {} data body text taken, putCodes,
      codes_inSequence frontend v data c letter]
    rfl
  · intro front back split started more
    obtain ⟨before, d, rfl⟩ := List.eq_nil_or_concat' back |>.resolve_left more
    rw [← List.append_assoc] at split
    obtain ⟨shape, -⟩ := List.append_inj' split rfl
    simp only [List.cons_append, List.nil_append] at shape
    rcases front with _ | ⟨e, _ | ⟨f, front⟩⟩
    · exact absurd rfl started
    · obtain ⟨rfl, -⟩ := List.cons.inj shape
      change (process frontend v 0x1b).mode ≠ .ground
      rw [process_escape frontend v ground empty]
      exact TerminalMode.noConfusion
    · simp only [List.cons_append, List.cons.injEq] at shape
      obtain ⟨rfl, rfl, rfl⟩ := shape
      rw [after_append] at taken
      obtain ⟨middle, first, -⟩ := Option.bind_eq_some_iff.mp taken
      have earlier := fun d member => text d (List.mem_append_left before member)
      change (run frontend v ([0x1b, byte '['] ++ front)).mode ≠ .ground
      rw [run_parameters frontend v ground empty front middle earlier first]
      exact TerminalMode.noConfusion
  · rw [run_append, arrived]
    exact process_refused frontend v data c letter (accept_letter data c last)

/-- Every byte of a well-formed control sequence stays out of the text, and the sequence ends with
its final byte, if and only if it has no intermediate bytes and the parameter bytes are question
marks with at most 30 digits and separators behind them. -/
theorem contained_iff (v : VTE) (ground : v.mode = .ground) (empty : v.utf8Buffer.length = 0)
    (parameters intermediates : List uchar) (c : uchar) (parameter : ∀ d ∈ parameters, 0x30 ≤ d ∧ d ≤ 0x3f)
    (intermediate : ∀ d ∈ intermediates, 0x20 ≤ d ∧ d ≤ 0x2f) (last : 0x40 ≤ c ∧ c ≤ 0x7e) :
    Contained frontend v ([0x1b, byte '['] ++ (parameters ++ intermediates) ++ [c]) ↔
      intermediates = [] ∧ ∃ marks rest, parameters = List.replicate marks (byte '?') ++ rest ∧
        (∀ d ∈ rest, isDigit d = true ∨ d = byte ';') ∧ rest.length ≤ 30 := by
  have clean := List.length_eq_zero_iff.mp empty
  have text : ∀ d ∈ parameters ++ intermediates, isControl d = false := by
    intro d member
    have range : 0x20 ≤ d.toNat ∧ d.toNat ≤ 0x3f := by
      rcases List.mem_append.mp member with inside | behind
      · obtain ⟨lower, upper⟩ := parameter d inside
        exact ⟨le_trans (by decide) (UInt8.le_iff_toNat_le.mp lower), UInt8.le_iff_toNat_le.mp upper⟩
      · obtain ⟨lower, upper⟩ := intermediate d behind
        exact ⟨UInt8.le_iff_toNat_le.mp lower, le_trans (UInt8.le_iff_toNat_le.mp upper) (by decide)⟩
    rw [isControl_eq_false_iff]
    omega
  refine ⟨?_, ?_⟩
  · intro contained
    cases taken : after accept {} (parameters ++ intermediates) with
    | none => exact absurd contained (not_contained frontend v ground clean _ c text taken)
    | some data =>
      obtain ⟨marks, rest, shape, -, digits, short⟩ := fits_of_accept _ {} data (Nat.zero_le 30) taken
      have plain : intermediates = [] := by
        rw [List.eq_nil_iff_forall_not_mem]
        intro d member
        have high := fits_high marks rest digits d (by rw [← shape]; exact List.mem_append_right _ member)
        have low := UInt8.le_iff_toNat_le.mp (intermediate d member).2
        exact absurd (le_trans high low) (by decide)
      subst plain
      rw [List.append_nil] at shape
      exact ⟨rfl, marks, rest, shape, digits, le_trans (Nat.le_add_left _ _) short⟩
  · rintro ⟨rfl, marks, rest, rfl, digits, short⟩
    obtain ⟨data, taken⟩ := accept_of_fits (List.replicate marks (byte '?') ++ rest ++ []) {}
      ⟨marks, rest, List.append_nil _, fun _ => rfl, digits, le_trans (le_of_eq (Nat.zero_add _)) short⟩
    exact contained_of_accept frontend v ground clean _ c last text data taken

/-- The cursor position with both coordinates. -/
theorem contained_iff_position :
    Contained CmdSpy.frontend CmdSpy.fresh.vte
      ([0x1b, byte '['] ++ ([byte '2', byte ';', byte '7'] ++ []) ++ [byte 'H']) :=
  (contained_iff CmdSpy.frontend CmdSpy.fresh.vte (by decide) (by decide) [byte '2', byte ';', byte '7'] [] (byte 'H')
    (by decide) (by decide) (by decide)).mpr ⟨rfl, 0, _, rfl, by decide, by decide⟩

/-- A request with `>`, as a server sends it for the version of the terminal, ends at the `>`, and
its final byte is put. -/
theorem version_request_leaks :
    ¬ Contained CmdSpy.frontend CmdSpy.fresh.vte ([0x1b, byte '['] ++ ([byte '>'] ++ []) ++ [byte 'c']) := by
  intro contained
  exact absurd contained.silent (by decide +kernel)

end Woterm.Terminal.Containment
