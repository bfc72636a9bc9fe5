import Woterm.Lib.Run
import Woterm.Terminal.Bounds
import Woterm.Terminal.CmdSpy
import Woterm.Terminal.Codes

/-!
The parameters of a control sequence are decoded as they are written. The digits stand in one
buffer that is zero when the sequence begins, and the byte that a separator skips ends the number
before it.
-/

namespace Woterm.Terminal.Parameters
open Woterm.Lib Woterm.Lib.CString Woterm.Lib.Run Woterm.Lib.Word32 Woterm.Terminal.Data Woterm.Terminal.Vte
open Woterm.Terminal.Codes

/-! ## Parameter bytes -/

/-- A byte that is taken as a part of the arguments. -/
def accept (data : ControlData) (c : uchar) : Option ControlData :=
  if data.spaceLeft then data.addArg c else none

/-- The text is in the buffer, with a NUL for each separator, and the arguments start as given. -/
structure Layout (text : List uchar) (args : List Nat) (data : ControlData) : Prop where
  written : data.ctrlData = text ++ List.replicate (32 - text.length) 0
  next : data.ctrlNextData = text.length
  args : data.ctrlArgs = args

theorem Layout.spaceLeft {text : List uchar} {args : List Nat} {data : ControlData} (layout : Layout text args data)
    (room : text.length < 30) : data.spaceLeft = true := by
  rw [ControlData.spaceLeft, layout.next, decide_eq_true room]

theorem digit_other (c : uchar) (digit : isDigit c = true) : c ≠ byte '?' ∧ c ≠ byte ';' := by
  refine ⟨?_, ?_⟩ <;>
  · rintro rfl
    exact absurd digit (by decide)

theorem accept_digit (text : List uchar) (args : List Nat) (data : ControlData) (c : uchar)
    (layout : Layout text args data) (room : text.length < 30) (digit : isDigit c = true) :
    ∃ next, accept data c = some next ∧ Layout (text ++ [c]) args next ∧ next.decMode = data.decMode := by
  obtain ⟨question, separator⟩ := digit_other c digit
  have more : 32 - text.length = (32 - (text ++ [c]).length) + 1 := by
    rw [List.length_append, List.length_singleton]
    omega
  have taken : accept data c = some { data with
      ctrlData := data.ctrlData.set data.ctrlNextData c
      ctrlNextData := data.ctrlNextData + 1 } := by
    rw [accept, if_pos (layout.spaceLeft room), ControlData.addArg, if_neg (fun both => question both.1),
      if_neg separator, if_pos digit]
  refine ⟨_, taken, ⟨?_, ?_, layout.args⟩, rfl⟩
  · simp only [layout.written, layout.next]
    rw [List.set_append_right _ _ (le_refl _), Nat.sub_self, more, List.replicate_succ, List.set_cons_zero,
      List.append_cons]
  · rw [List.length_append, List.length_singleton, ← layout.next]

theorem accept_separator (text : List uchar) (args : List Nat) (data : ControlData) (layout : Layout text args data)
    (room : text.length < 30) :
    ∃ next, accept data (byte ';') = some next ∧ Layout (text ++ [0]) (args ++ [text.length + 1]) next ∧
      next.decMode = data.decMode := by
  have more : 32 - text.length = (32 - (text ++ [0]).length) + 1 := by
    rw [List.length_append, List.length_singleton]
    omega
  have taken : accept data (byte ';') = some { data with
      ctrlNextData := data.ctrlNextData + 1
      ctrlArgs := data.ctrlArgs ++ [data.ctrlNextData + 1] } := by
    have other : ¬ (byte ';' = byte '?' ∧ data.ctrlNextData = 0) := fun both => absurd both.1 (by decide)
    rw [accept, if_pos (layout.spaceLeft room), ControlData.addArg, if_neg other, if_pos rfl]
  refine ⟨_, taken, ⟨?_, ?_, ?_⟩, rfl⟩
  · simp only [layout.written]
    rw [more, List.replicate_succ, List.append_cons]
  · rw [List.length_append, List.length_singleton, ← layout.next]
  · simp only [layout.next, layout.args]

theorem accept_numeral (numeral text : List uchar) (args : List Nat) (data : ControlData)
    (layout : Layout text args data) (decimal : ∀ c ∈ numeral, isDigit c = true)
    (room : text.length + numeral.length ≤ 30) :
    ∃ next, after accept data numeral = some next ∧ Layout (text ++ numeral) args next ∧
      next.decMode = data.decMode := by
  induction numeral generalizing text data with
  | nil => exact ⟨data, rfl, by rwa [List.append_nil], rfl⟩
  | cons c numeral ih =>
    rw [List.length_cons] at room
    obtain ⟨middle, taken, written, same⟩ :=
      accept_digit text args data c layout (by omega) (decimal c List.mem_cons_self)
    have longer : (text ++ [c]).length + numeral.length ≤ 30 := by
      rw [List.length_append, List.length_singleton]
      omega
    obtain ⟨next, reached, final, kept⟩ := ih (text ++ [c]) middle written
      (fun d member => decimal d (List.mem_cons_of_mem c member)) longer
    refine ⟨next, ?_, ?_, kept.trans same⟩
    · rw [after_cons, taken, Option.bind_some, reached]
    · rwa [List.append_cons]

theorem accept_numerals (first : List uchar) (numerals : List (List uchar)) (text : List uchar) (args : List Nat)
    (data : ControlData) (layout : Layout text args data)
    (decimal : ∀ numeral ∈ first :: numerals, ∀ c ∈ numeral, isDigit c = true)
    (room : text.length + ([byte ';'].intercalate (first :: numerals)).length ≤ 30) :
    ∃ next, after accept data ([byte ';'].intercalate (first :: numerals)) = some next ∧
      Layout (text ++ [0].intercalate (first :: numerals))
        (args ++ (offsets text.length (first :: numerals)).tail) next ∧ next.decMode = data.decMode := by
  induction numerals generalizing first text args data with
  | nil =>
    rw [List.intercalate_singleton] at room ⊢
    simpa [offsets] using accept_numeral first text args data layout (decimal first List.mem_cons_self) room
  | cons second numerals ih =>
    rw [List.intercalate_cons_cons] at room ⊢
    simp only [List.length_append, List.length_singleton] at room
    obtain ⟨digits, taken, written, same⟩ :=
      accept_numeral first text args data layout (decimal first List.mem_cons_self) (by omega)
    obtain ⟨skipped, passed, separated, kept⟩ :=
      accept_separator (text ++ first) args digits written (by rw [List.length_append]; omega)
    have length : (text ++ first ++ [0]).length = text.length + first.length + 1 := by simp [Nat.add_assoc]
    obtain ⟨next, reached, final, last⟩ := ih second (text ++ first ++ [0]) _ skipped separated
      (fun numeral member => decimal numeral (List.mem_cons_of_mem first member)) (by rw [length]; omega)
    refine ⟨next, ?_, ?_, last.trans (kept.trans same)⟩
    · rw [List.append_assoc, after_append, taken, Option.bind_some, List.singleton_append, after_cons, passed,
        Option.bind_some, reached]
    · rw [length] at final
      simpa [offsets, Nat.add_assoc] using final

/-! ## The arguments -/

/-- `get_arg` with its `int` index. -/
def argument (data : ControlData) (arg : Int) : Int := if 0 ≤ arg then data.getArg arg.toNat else 0

/-- The control data says what was written. -/
structure Decoded (question : Bool) (numerals : List (List uchar)) (data : ControlData) : Prop where
  nargs : data.nargs = numerals.length
  values : ∀ (i : Nat) (numeral : List uchar), numerals[i]? = some numeral → argument data i = digitsValue numeral
  others : ∀ i : Int, i < 0 ∨ numerals.length ≤ i → argument data i = 0
  decMode : data.decMode = question

theorem nulFree_decimal (numeral : List uchar) (decimal : ∀ c ∈ numeral, isDigit c = true) : NulFree numeral :=
  fun member => absurd (decimal 0 member) (by decide)

theorem atoi_small (numeral : List uchar) (decimal : ∀ c ∈ numeral, isDigit c = true)
    (small : digitsValue numeral < 2147483648) : atoi numeral = digitsValue numeral := by
  rw [atoi_digits numeral decimal, min_eq_left (by omega), wrap]
  omega

/-- A number of the text is the argument that starts where it does. -/
theorem getArg_layout (numerals : List (List uchar)) (data : ControlData)
    (layout : Layout ([0].intercalate numerals) (offsets 0 numerals) data)
    (clean : ∀ numeral ∈ numerals, NulFree numeral) (room : ([0].intercalate numerals).length < 32) (i : Nat)
    (numeral : List uchar) (known : numerals[i]? = some numeral) : data.getArg i = atoi numeral := by
  have zeros : List.replicate (32 - ([0].intercalate numerals).length) (0 : uchar) =
      0 :: List.replicate (31 - ([0].intercalate numerals).length) 0 := by
    rw [← List.replicate_succ]
    congr 1
    omega
  obtain ⟨start, offset, found⟩ := cstr_offset numerals clean []
    (List.replicate (31 - ([0].intercalate numerals).length) 0) i numeral known
  have starts : data.ctrlArgs[i]? = some start := by
    rw [layout.args]
    exact offset
  rw [ControlData.getArg, starts]
  dsimp only
  rw [layout.written, zeros]
  exact congrArg atoi found

theorem layout_decoded (numerals : List (List uchar)) (data : ControlData)
    (layout : Layout ([0].intercalate numerals) (offsets 0 numerals) data)
    (decimal : ∀ numeral ∈ numerals, ∀ c ∈ numeral, isDigit c = true)
    (small : ∀ numeral ∈ numerals, digitsValue numeral < 2147483648)
    (room : ([0].intercalate numerals).length < 32) : Decoded data.decMode numerals data := by
  have count : data.ctrlArgs.length = numerals.length := by rw [layout.args, offsets_length]
  refine ⟨count, ?_, ?_, rfl⟩
  · intro i numeral known
    have member := List.mem_of_getElem? known
    have clean := fun text given => nulFree_decimal text (decimal text given)
    rw [argument, if_pos (Int.natCast_nonneg i), Int.toNat_natCast, getArg_layout numerals data layout clean room i
      numeral known, atoi_small numeral (decimal numeral member) (small numeral member)]
  · intro i outside
    unfold argument
    split_ifs with inside
    · have absent : data.ctrlArgs[i.toNat]? = none := by
        rw [List.getElem?_eq_none_iff, count]
        omega
      rw [ControlData.getArg, absent]
    · rfl

/-! ## The whole sequence -/

variable (frontend : Frontend)

/-- A control sequence up to its final byte. -/
def introduced (question : Bool) (numerals : List (List uchar)) : List uchar :=
  [0x1b, byte '['] ++ (if question then [byte '?'] else []) ++ [byte ';'].intercalate numerals

/-- What a final byte does before the parser leaves the sequence. -/
def perform (c : uchar) (v : VTE) : VTE :=
  match finalTable.lookup c with
  | some found => final frontend found v
  | none => v

/-- The parser is in a control sequence with the given data. -/
def inSequence (v : VTE) (data : ControlData) : VTE := { v with events := [], mode := .csi, csiData := data }

variable (v : VTE)

theorem process_escape (ground : v.mode = .ground) (empty : v.utf8Buffer = []) :
    process frontend v 0x1b = { v with events := [], mode := .esc } := by
  have known : controlTable.lookup 0x1b = some .ESC := by decide
  have control : isControl 0x1b = true := by decide
  simp [process, dispatch, ground, empty, control, handleControl, known, Vte.control]

theorem process_bracket : process frontend { v with events := [], mode := .esc } (byte '[') = inSequence v {} := by
  have known : escapeTable.lookup (byte '[') = some .CSI := by decide
  have text : isControl (byte '[') = false := by decide
  simp [process, dispatch, text, handleEsc, known, Vte.escape, resetEscape, inSequence]

theorem run_introducer (ground : v.mode = .ground) (empty : v.utf8Buffer = []) :
    run frontend v [0x1b, byte '['] = inSequence v {} := by
  change process frontend (process frontend v 0x1b) (byte '[') = inSequence v {}
  rw [process_escape frontend v ground empty, process_bracket]

theorem process_inSequence (data : ControlData) (c : uchar) (text : isControl c = false) :
    process frontend (inSequence v data) c = handleCsi frontend c (inSequence v data) := by
  simp [process, dispatch, inSequence, text]

theorem process_accept (data next : ControlData) (c : uchar) (text : isControl c = false)
    (taken : accept data c = some next) : process frontend (inSequence v data) c = inSequence v next := by
  unfold accept at taken
  split_ifs at taken with space
  rw [process_inSequence frontend v data c text]
  have space : (inSequence v data).csiData.spaceLeft = true := space
  have taken : (inSequence v data).csiData.addArg c = some next := taken
  rw [handleCsi, if_pos space, taken]
  rfl

theorem run_accept (data next : ControlData) (bytes : List uchar) (text : ∀ c ∈ bytes, isControl c = false)
    (taken : after accept data bytes = some next) : run frontend (inSequence v data) bytes = inSequence v next := by
  induction bytes generalizing data with
  | nil => rw [← Option.some.inj taken]; rfl
  | cons c bytes ih =>
    rw [after_cons] at taken
    obtain ⟨middle, first, rest⟩ := Option.bind_eq_some_iff.mp taken
    have later := ih middle (fun d member => text d (List.mem_cons_of_mem c member)) rest
    rw [← later, ← process_accept frontend v data middle c (text c List.mem_cons_self) first]
    rfl

theorem run_parameters (ground : v.mode = .ground) (empty : v.utf8Buffer = []) (body : List uchar) (data : ControlData)
    (text : ∀ c ∈ body, isControl c = false) (taken : after accept {} body = some data) :
    run frontend v ([0x1b, byte '['] ++ body) = inSequence v data := by
  rw [run_append, run_introducer frontend v ground empty, run_accept frontend v {} data body text taken]

theorem digit_text (c : uchar) (digit : isDigit c = true) : isControl c = false := by
  rw [isControl_eq_false_iff]
  rw [isDigit_iff] at digit
  omega

theorem letter_final (c : uchar) (last : 0x40 ≤ c ∧ c ≤ 0x7e) :
    isControl c = false ∧ c ≠ byte '?' ∧ c ≠ byte ';' ∧ isDigit c = false := by
  have lower : 0x40 ≤ c.toNat := UInt8.le_iff_toNat_le.mp last.1
  have upper : c.toNat ≤ 0x7e := UInt8.le_iff_toNat_le.mp last.2
  have marks : (byte '?').toNat = 0x3f ∧ (byte ';').toNat = 0x3b := ⟨rfl, rfl⟩
  rw [isControl_eq_false_iff, ← Bool.not_eq_true, isDigit_iff, ne_eq, ne_eq, ← UInt8.toNat_inj, ← UInt8.toNat_inj]
  omega

theorem process_final (data : ControlData) (c : uchar) (last : 0x40 ≤ c ∧ c ≤ 0x7e) (space : data.spaceLeft = true) :
    process frontend (inSequence v data) c = resetEscape (perform frontend c (inSequence v data)) := by
  obtain ⟨text, letter⟩ := letter_final c last
  have space : (inSequence v data).csiData.spaceLeft = true := space
  rw [process_inSequence frontend v data c text, handleCsi, if_pos space, Bounds.addArg_letter _ c letter]
  unfold perform
  cases finalTable.lookup c <;> rfl

theorem question_layout (question : Bool) :
    ∃ data, after accept {} (if question then [byte '?'] else []) = some data ∧ Layout [] [0] data ∧
      data.decMode = question := by
  cases question with
  | false => exact ⟨{}, rfl, ⟨rfl, rfl, rfl⟩, rfl⟩
  | true => exact ⟨{ decMode := true }, rfl, ⟨rfl, rfl, rfl⟩, rfl⟩

/-- From any state of the parser on the ground, the final byte of a control sequence finds the
arguments as they are written. -/
theorem parameters_decoded (v : VTE) (ground : v.mode = .ground) (empty : v.utf8Buffer.length = 0) (question : Bool)
    (numerals : List (List uchar)) (given : numerals ≠ [])
    (decimal : ∀ numeral ∈ numerals, ∀ c ∈ numeral, isDigit c = true)
    (small : ∀ numeral ∈ numerals, digitsValue numeral < 2147483648)
    (short : ([byte ';'].intercalate numerals).length ≤ 29) (c : uchar) (last : 0x40 ≤ c ∧ c ≤ 0x7e) :
    ∃ data, Decoded question numerals data ∧
      run frontend v (introduced question numerals) = inSequence v data ∧
      process frontend (inSequence v data) c = resetEscape (perform frontend c (inSequence v data)) := by
  obtain ⟨start, asked, opened, marked⟩ := question_layout question
  obtain ⟨first, rest, rfl⟩ := List.exists_cons_of_ne_nil given
  obtain ⟨data, taken, layout, kept⟩ := accept_numerals first rest [] [0] start opened decimal (by
    rw [List.length_nil]
    omega)
  have length : ([0].intercalate (first :: rest)).length = ([byte ';'].intercalate (first :: rest)).length :=
    Text.length_intercalate_congr _ _ _ rfl
  have decoded := layout_decoded (first :: rest) data layout decimal small (by omega)
  have space := layout.spaceLeft (by rw [List.nil_append]; omega)
  rw [kept, marked] at decoded
  have text : ∀ d ∈ (if question then [byte '?'] else []) ++ [byte ';'].intercalate (first :: rest),
      isControl d = false := by
    rw [List.forall_mem_append]
    refine ⟨?_, Text.forall_mem_intercalate _ _ (by decide) ?_⟩
    · cases question <;> decide
    · exact fun numeral member d inside => digit_text d (decimal numeral member d inside)
  have whole : after accept {} ((if question then [byte '?'] else []) ++ [byte ';'].intercalate (first :: rest)) =
      some data := by
    rw [after_append, asked, Option.bind_some, taken]
  refine ⟨data, decoded, ?_, process_final frontend v data c last space⟩
  rw [introduced, List.append_assoc]
  exact run_parameters frontend v ground (List.length_eq_zero_iff.mp empty) _ data text whole

/-- `ESC [ ? 25 ; ; 7 h`. -/
theorem parameters_decoded_fresh :
    ∃ data, Decoded true [[byte '2', byte '5'], [], [byte '7']] data ∧
      run CmdSpy.frontend CmdSpy.fresh.vte (introduced true [[byte '2', byte '5'], [], [byte '7']]) =
        inSequence CmdSpy.fresh.vte data ∧
      process CmdSpy.frontend (inSequence CmdSpy.fresh.vte data) (byte 'h') =
        resetEscape (perform CmdSpy.frontend (byte 'h') (inSequence CmdSpy.fresh.vte data)) :=
  parameters_decoded CmdSpy.frontend CmdSpy.fresh.vte (by decide) (by decide) true
    [[byte '2', byte '5'], [], [byte '7']] (by decide) (by decide) (by decide) (by decide) (byte 'h') (by decide)

end Woterm.Terminal.Parameters
