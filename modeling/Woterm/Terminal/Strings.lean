import Woterm.Terminal.ArraySafety
import Woterm.Terminal.Bounds
import Woterm.Terminal.Log

/-!
Strings in the stream: what is stored of them, which title they give, and what each byte does to
the mode and to the string.
-/

namespace Woterm.Terminal.Strings
open Woterm.Lib Woterm.Lib.CString Woterm.Terminal.Data Woterm.Terminal.Vte Woterm.Terminal.Step
open Woterm.Terminal.ArraySafety Woterm.Terminal.Log

/-! ## What is stored -/

/-- The data of a string with the body so far. -/
def stored (type : StringType) (finished : Bool) (body : List uchar) : StringData where
  strData := body ++ List.replicate (256 - body.length) 0
  nextStrData := body.length
  stringType := type
  finished := finished

theorem stored_nil (type : StringType) : stored type false [] = { stringType := type } := rfl

theorem addChar_stored (type : StringType) (finished : Bool) (body : List uchar) (c : uchar) :
    (stored type finished body).addChar c =
      if 254 ≤ body.length then none else some (stored type finished (body ++ [c])) := by
  have next : (stored type finished body).nextStrData = body.length := rfl
  unfold StringData.addChar
  rw [next]
  split_ifs with full
  · rfl
  · have cells : 256 - body.length = 255 - body.length + 1 := by omega
    have fewer : 256 - (body ++ [c]).length = 255 - body.length := by
      rw [List.length_append, List.length_singleton]
      omega
    have written : (body ++ List.replicate (256 - body.length) 0).set body.length c =
        body ++ [c] ++ List.replicate (256 - (body ++ [c]).length) 0 := by
      rw [List.set_append_right _ _ (le_refl _), Nat.sub_self, cells, List.replicate_succ, List.set_cons_zero, fewer,
        List.append_assoc]
      rfl
    simp only [stored, written, List.length_append, List.length_singleton]

theorem parseLoop_skip (front rest : List uchar) (s : Nat) (data : StringData) (clean : NulFree front)
    (plain : byte ';' ∉ front) (room : data.args.length < 32) :
    StringData.parseLoop 1 (front ++ rest) s 0 data = StringData.parseLoop 1 rest (s + front.length) 0 data := by
  induction front generalizing s with
  | nil => rfl
  | cons c front ih =>
    have some_byte : c ≠ 0 := fun same => clean (same ▸ List.mem_cons_self)
    have other : c ≠ byte ';' := fun same => plain (same ▸ List.mem_cons_self)
    have later := ih (s + 1) (fun member => clean (List.mem_cons_of_mem c member))
      (fun member => plain (List.mem_cons_of_mem c member))
    rw [List.cons_append, StringData.parseLoop, if_neg (by simp [some_byte, room]), if_neg other, later,
      List.length_cons, Nat.add_assoc, Nat.add_comm 1]

/-- The data after its first separator was found. -/
def separated (type : StringType) (finished : Bool) (front back : List uchar) : StringData where
  strData := front ++ 0 :: (back ++ List.replicate (256 - (front ++ byte ';' :: back).length) 0)
  nextStrData := (front ++ byte ';' :: back).length
  stringType := type
  finished := finished
  args := [0, front.length + 1]

theorem parse_separated (type : StringType) (finished : Bool) (front back : List uchar) (clean : NulFree front)
    (plain : byte ';' ∉ front) :
    (stored type finished (front ++ byte ';' :: back)).parse 0 1 = (1, separated type finished front back) := by
  have room : (stored type finished (front ++ byte ';' :: back)).args.length < 32 := (by decide : 1 < 32)
  have cells : (stored type finished (front ++ byte ';' :: back)).strData =
      front ++ (byte ';' :: (back ++ List.replicate (256 - (front ++ byte ';' :: back).length) 0)) := by
    simp only [stored, List.append_assoc, List.cons_append]
  have done (rest : List uchar) (s : Nat) (data : StringData) : StringData.parseLoop 1 rest s 1 data = (1, data) := by
    cases rest with
    | nil => rfl
    | cons c rest => rw [StringData.parseLoop, if_pos (.inr (.inl (Nat.lt_irrefl 1)))]
  unfold StringData.parse
  rw [cells, List.drop_zero, parseLoop_skip front _ 0 _ clean plain room, StringData.parseLoop,
    if_neg (by simp [room, (by decide : byte ';' ≠ 0)]), if_pos rfl, done, Nat.zero_add, cells,
    List.set_append_right _ _ (le_refl _), Nat.sub_self]
  rfl

theorem parse_whole (type : StringType) (finished : Bool) (body : List uchar) (clean : NulFree body)
    (plain : byte ';' ∉ body) : ((stored type finished body).parse 0 1).1 = 0 := by
  have room : (stored type finished body).args.length < 32 := (by decide : 1 < 32)
  have cells : (stored type finished body).strData = body ++ List.replicate (256 - body.length) 0 := rfl
  unfold StringData.parse
  rw [cells, List.drop_zero, parseLoop_skip body _ 0 _ clean plain room]
  cases 256 - body.length with
  | zero => rfl
  | succ n => rw [List.replicate_succ, StringData.parseLoop, if_pos (.inl rfl)]

theorem cstr_padded (text : List uchar) (n : Nat) (clean : NulFree text) : cstr (text ++ List.replicate n 0) = text := by
  cases n with
  | zero => rw [List.replicate_zero, List.append_nil, cstr_eq_self text clean]
  | succ n => rw [List.replicate_succ, cstr_append_nul text _ clean]

theorem getArg_separated (type : StringType) (finished : Bool) (front back : List uchar) (clean : NulFree front)
    (rest : NulFree back) : (separated type finished front back).getArg 0 = front ∧
      (separated type finished front back).getArg 1 = back := by
  refine ⟨cstr_append_nul front _ clean, ?_⟩
  have behind : (front ++ 0 :: (back ++ List.replicate (256 - (front ++ byte ';' :: back).length) 0)).drop
      (front.length + 1) = back ++ List.replicate (256 - (front ++ byte ';' :: back).length) 0 := by
    rw [← List.drop_drop, List.drop_left]
    rfl
  calc (separated type finished front back).getArg 1
      = cstr (back ++ List.replicate (256 - (front ++ byte ';' :: back).length) 0) := congrArg cstr behind
    _ = back := cstr_padded back _ rest

/-! ## Titles -/

/-- The title of a string is what stands behind the first separator, if the number before it is
that of a title. -/
theorem titleOf_separated (finished : Bool) (front back : List uchar) (clean : NulFree front) (rest : NulFree back)
    (plain : byte ';' ∉ front) : titleOf (stored .osc finished (front ++ byte ';' :: back)) =
      if atoi front = 0 ∨ atoi front = 1 ∨ atoi front = 2 then some back else none := by
  obtain ⟨number, text⟩ := getArg_separated .osc finished front back clean rest
  have type : (stored .osc finished (front ++ byte ';' :: back)).stringType = .osc := rfl
  unfold titleOf
  rw [type, parse_separated .osc finished front back clean plain]
  dsimp only
  rw [number, text]
  simp only [true_and]

theorem titleOf_lt (type : StringType) (finished : Bool) (body title : List uchar) (clean : NulFree body)
    (known : titleOf (stored type finished body) = some title) : title.length < body.length := by
  by_cases member : byte ';' ∈ body
  · obtain ⟨front, back, rfl, plain⟩ := List.eq_append_cons_of_mem member
    have before : NulFree front := fun zero => clean (List.mem_append_left _ zero)
    have behind : NulFree back := fun zero => clean (List.mem_append_right _ (List.mem_cons_of_mem _ zero))
    obtain ⟨number, text⟩ := getArg_separated type finished front back before behind
    have long : front.length < (front ++ byte ';' :: back).length ∧ back.length < (front ++ byte ';' :: back).length := by
      rw [List.length_append, List.length_cons]
      omega
    have data : (stored type finished (front ++ byte ';' :: back)).stringType = type := rfl
    unfold titleOf at known
    rw [data, parse_separated type finished front back before plain] at known
    cases type with
    | osc =>
      dsimp only at known
      split_ifs at known
      rw [← Option.some.inj known, text]
      exact long.2
    | title =>
      dsimp only at known
      split_ifs at known
      rw [← Option.some.inj known, number]
      exact long.1
    | none | pm | dcs | apc => cases known
  · have data : (stored type finished body).stringType = type := rfl
    have absent := parse_whole type finished body clean member
    unfold titleOf at known
    rw [data] at known
    cases type with
    | osc => simp [absent] at known
    | title => simp [absent] at known
    | none | pm | dcs | apc => cases known

theorem titleOf_opened (type : StringType) : titleOf { stringType := type } = none := by
  cases known : titleOf { stringType := type } with
  | none => rfl
  | some title => exact absurd (titleOf_lt type false [] title (by simp [NulFree]) known) (Nat.not_lt_zero _)

/-! ## What a byte does to the mode and to the string -/

/-- The byte opens a string that is read in the string mode. -/
def Opens (v : VTE) (c : uchar) (type : StringType) : Prop :=
  v.utf8Buffer = [] ∧ (c, type) ∈ [(0x90, StringType.dcs), (0x9d, .osc), (0x9e, .pm), (0x9f, .apc)] ∨
  v.mode = .esc ∧ (c, type) ∈ [(byte 'P', StringType.dcs), (byte '_', .apc), (byte '^', .pm), (byte ']', .osc)]

/-- The cases of a byte, as far as the mode and the string go. -/
inductive Effect (v : VTE) (c : uchar) (w : VTE) : Prop where
  | kept (inside : v.mode = .string) (other : endsString c = false) (same : w = keep c v)
  | opened (type : StringType) (opens : Opens v c type) (mode : w.mode = .string) (data : w.strData = { stringType := type })
  | escaped (code : c = 0x1b) (between : v.utf8Buffer = []) (mode : w.mode = .esc)
    (data : w.strData = (arrival v).strData)
  | cleared (type : StringType) (mode : w.mode ≠ .string) (awake : w.mode = .esc → v.mode = .esc)
    (data : w.strData = { stringType := type })
  | passed (mode : w.mode ≠ .string) (awake : w.mode = .esc → v.mode = .esc) (data : w.strData = (arrival v).strData)

variable (frontend : Frontend) {v w : VTE} {c : uchar}

theorem arrival_mode (v : VTE) : (arrival v).mode ≠ .string ∧ ((arrival v).mode = .esc → v.mode = .esc) := by
  by_cases inside : v.mode = .string
  · have ground : (arrival v).mode = .ground := by
      rw [arrival_string inside]
      rfl
    rw [ground]
    exact ⟨by decide, fun escape => by cases escape⟩
  · rw [arrival_of_ne inside]
    exact ⟨inside, id⟩

theorem effect_of_same (mode : w.mode = (arrival v).mode) (data : w.strData = (arrival v).strData) : Effect v c w := by
  refine .passed ?_ ?_ data
  · rw [mode]
    exact (arrival_mode v).1
  · rw [mode]
    exact (arrival_mode v).2

theorem effect_of_view (same : view w = view (arrival v)) : Effect v c w :=
  effect_of_same (congrArg View.mode same) (congrArg View.strData same)

theorem effect_of_ground (ground : w.mode = .ground) (data : w.strData = (arrival v).strData) : Effect v c w :=
  .passed (by rw [ground]; decide) (fun escape => by rw [ground] at escape; cases escape) data

theorem effect_of_clear (type : StringType) (ground : w.mode = .ground) (data : w.strData = { stringType := type }) :
    Effect v c w :=
  .cleared type (by rw [ground]; decide) (fun escape => by rw [ground] at escape; cases escape) data

theorem control_effect (found : Control) (between : v.utf8Buffer = []) (known : controlTable.lookup c = some found) :
    Effect v c (control frontend found (arrival v)) := by
  have entry := Geometry.lookup_mem c found controlTable known
  have escapes : ∀ entry ∈ controlTable, entry.2 = .ESC → entry.1 = 0x1b := by decide
  have opens : ∀ entry ∈ controlTable,
      ∀ kind ∈ [(Control.DCS, StringType.dcs), (.OSC, .osc), (.PM, .pm), (.APC, .apc)], entry.2 = kind.1 →
        (entry.1, kind.2) ∈ [(0x90, StringType.dcs), (0x9d, .osc), (0x9e, .pm), (0x9f, .apc)] := by
    decide
  cases found with
  | BEL =>
    by_cases finished : (arrival v).strData.finished = true
    · apply effect_of_clear .none
      · rfl
      · simp only [Vte.control, if_pos finished]
        exact congrArg View.strData (view_parseString (arrival v))
    · apply effect_of_ground
      · rfl
      · simp only [Vte.control, if_neg finished]
        rfl
  | BS => exact effect_of_view (view_moveCursor _ _ _)
  | HT => exact effect_of_view (view_moveCursor _ _ _)
  | LF => exact effect_of_view (view_nel _)
  | CR =>
    apply effect_of_view
    simp only [Vte.control]
    split_ifs
    · exact view_moveCursor _ _ _
    · rfl
  | SO => exact effect_of_view rfl
  | SI => exact effect_of_view rfl
  | SUB => exact effect_of_clear .none rfl rfl
  | CAN => exact effect_of_clear .none rfl rfl
  | ESC => exact .escaped (escapes _ entry rfl) between rfl rfl
  | IND => exact effect_of_view (view_ind _)
  | NEL => exact effect_of_ground rfl (congrArg View.strData (view_nel (arrival v)))
  | HTS => exact effect_of_view rfl
  | RI => exact effect_of_view (view_ri _)
  | DCS => exact .opened .dcs (.inl ⟨between, opens _ entry (.DCS, .dcs) (by decide) rfl⟩) rfl rfl
  | DECID => exact effect_of_ground rfl rfl
  | CSI => exact .passed (fun string => by cases string) (fun escape => by cases escape) rfl
  | OSC => exact .opened .osc (.inl ⟨between, opens _ entry (.OSC, .osc) (by decide) rfl⟩) rfl rfl
  | PM => exact .opened .pm (.inl ⟨between, opens _ entry (.PM, .pm) (by decide) rfl⟩) rfl rfl
  | APC => exact .opened .apc (.inl ⟨between, opens _ entry (.APC, .apc) (by decide) rfl⟩) rfl rfl

theorem escape_effect (found : Escape) (inside : v.mode = .esc) (known : escapeTable.lookup c = some found) :
    Effect v c (escape found (arrival v)) := by
  have entry := Geometry.lookup_mem c found escapeTable known
  have opens : ∀ entry ∈ escapeTable,
      ∀ kind ∈ [(Escape.DCS, StringType.dcs), (.APC, .apc), (.PM, .pm), (.OSC, .osc)], entry.2 = kind.1 →
        (entry.1, kind.2) ∈ [(byte 'P', StringType.dcs), (byte '_', .apc), (byte '^', .pm), (byte ']', .osc)] := by
    decide
  cases found with
  | CSI | HASH | UTF8 | charset n => exact .passed (fun string => by cases string) (fun escape => by cases escape) rfl
  | DCS => exact .opened .dcs (.inr ⟨inside, opens _ entry (.DCS, .dcs) (by decide) rfl⟩) rfl rfl
  | APC => exact .opened .apc (.inr ⟨inside, opens _ entry (.APC, .apc) (by decide) rfl⟩) rfl rfl
  | PM => exact .opened .pm (.inr ⟨inside, opens _ entry (.PM, .pm) (by decide) rfl⟩) rfl rfl
  | OSC => exact .opened .osc (.inr ⟨inside, opens _ entry (.OSC, .osc) (by decide) rfl⟩) rfl rfl
  | title => exact effect_of_clear .title rfl rfl
  | IND => exact effect_of_ground rfl (congrArg View.strData (view_ind (arrival v)))
  | NEL => exact effect_of_ground rfl (congrArg View.strData (view_nel (arrival v)))
  | RI => exact effect_of_ground rfl (congrArg View.strData (view_ri (arrival v)))
  | RIS => exact effect_of_clear .none rfl (congrArg View.strData (view_ris (arrival v)))
  | DECRC => exact effect_of_ground rfl (congrArg View.strData (view_decrc (arrival v)))
  | ST =>
    by_cases finished : (arrival v).strData.finished = true
    · apply effect_of_clear .none
      · rfl
      · simp only [escape, if_pos finished]
        exact congrArg View.strData (view_parseString (arrival v))
    · apply effect_of_ground
      · rfl
      · simp only [escape, if_neg finished]
        rfl
  | LS2 | LS3 | HTS | DECID | DECPAM | DECPNM | DECSC => exact effect_of_ground rfl rfl

theorem strData_changeModes (state : Bool) (v : VTE) : (changeModes frontend state v).strData = v.strData := by
  have changed := congrArg View.strData
    (view_changeModes frontend v.csiData.decMode state (arguments v.csiData) v)
  refine changed.trans ?_
  split_ifs <;> rfl

theorem strData_final (found : Final) (v : VTE) : (final frontend found v).strData = v.strData := by
  have of_view {w : VTE} (same : view w = view v) : w.strData = v.strData := congrArg View.strData same
  cases found with
  | CUU | CUD | CUF | CUB | CNL | CPL | CHA | CUP | CHT | CBT | VPA => exact of_view (view_moveCursor _ _ v)
  | SU | SD | IL | DL => exact of_view (view_trmScroll _ v)
  | RM | SM => exact strData_changeModes frontend _ v
  | DECRC => exact congrArg View.strData (view_decrc v)
  | DECSTBM => exact of_view (view_setMargins v)
  | ICH => exact of_view (view_trmInsertChars _ _ v)
  | DCH => exact of_view (view_trmDeleteChars _ _ v)
  | ECH => exact of_view (view_trmClearRegion _ _ _ _ v)
  | ED => exact of_view (view_eraseDisplay v)
  | EL => exact of_view (view_eraseLine v)
  | SGR | DECSC => rfl
  | DA =>
    simp only [final]
    split_ifs <;> rfl
  | TBC | DSR =>
    simp only [final]
    split <;> rfl

theorem held_handleText (c : uchar) (v : VTE) :
    (handleText frontend c v).mode = v.mode ∧ (handleText frontend c v).strData = v.strData := by
  unfold handleText
  split_ifs
  · exact ⟨congrArg View.mode (view_writeMark v), congrArg View.strData (view_writeMark v)⟩
  · dsimp only
    split
    · split_ifs
      · exact ⟨congrArg View.mode (view_writeChar _ _ _), congrArg View.strData (view_writeChar _ _ _)⟩
      · exact ⟨congrArg View.mode (view_writeChar _ _ _), congrArg View.strData (view_writeChar _ _ _)⟩
    · exact ⟨rfl, rfl⟩
  · exact ⟨congrArg View.mode (view_writeChar _ _ v), congrArg View.strData (view_writeChar _ _ v)⟩
  · exact ⟨rfl, rfl⟩

/-- The rule for strings. -/
theorem process_effect (v : VTE) (c : uchar) : Effect v c (process frontend v c) := by
  apply Cases.process (motive := fun w => Effect v c w)
  exact {
    keep := fun inside other => .kept inside other rfl
    control := fun found between known => control_effect frontend found between known
    idle := fun _ => effect_of_view rfl
    escape := fun found inside known => escape_effect found inside known
    argument := fun _ _ => effect_of_same rfl rfl
    final := fun found _ _ _ => effect_of_ground rfl (strData_final frontend found (arrival v))
    dropped := fun _ => effect_of_ground rfl rfl
    hash := fun _ => by
      unfold handleHash
      split
      · exact effect_of_ground rfl rfl
      · split_ifs
        · exact effect_of_ground rfl (congrArg View.strData (view_decaln (arrival v)))
        · exact effect_of_ground rfl rfl
    charset := fun _ => by
      unfold handleCharset
      split
      · exact effect_of_ground rfl rfl
      · exact effect_of_ground rfl rfl
    utf8 := fun _ => by
      unfold handleUtf8
      split_ifs
      · exact effect_of_ground rfl rfl
      · exact effect_of_ground rfl rfl
      · exact effect_of_ground rfl rfl
    text := fun _ _ => effect_of_same (held_handleText frontend c _).1 (held_handleText frontend c _).2 }

theorem strData_arrival (outside : v.mode ≠ .string) : (arrival v).strData = v.strData := by
  rw [arrival_of_ne outside]

/-! ## Reading a string -/

/-- The parser is inside of a string, with its body so far. -/
structure Reading (type : StringType) (body : List uchar) (v : VTE) : Prop where
  mode : v.mode = .string
  data : v.strData = stored type false body

theorem keep_reading {type : StringType} {body : List uchar} (reading : Reading type body v) (other : endsString c = false)
    (room : body.length < 254) :
    Reading type (body ++ [c]) (keep c v) ∧ (keep c v).utf8Buffer = v.utf8Buffer ∧ (keep c v).events = [] := by
  have added : v.strData.addChar c = some (stored type false (body ++ [c])) := by
    rw [reading.data, addChar_stored, if_neg (by omega)]
  unfold endsString at other
  unfold keep handleString
  rw [if_neg (by rw [other]; exact Bool.false_ne_true), added]
  exact ⟨⟨reading.mode, rfl⟩, rfl, rfl⟩

theorem keep_full {type : StringType} {body : List uchar} (reading : Reading type body v) (other : endsString c = false)
    (full : 254 ≤ body.length) : (keep c v).mode = .ground ∧ (keep c v).strData = {} := by
  have refused : v.strData.addChar c = none := by
    rw [reading.data, addChar_stored, if_pos full]
  unfold endsString at other
  unfold keep handleString
  rw [if_neg (by rw [other]; exact Bool.false_ne_true), refused]
  exact ⟨rfl, rfl⟩

theorem Reading.finished {type : StringType} {body : List uchar} (reading : Reading type body v) :
    (arrival v).strData = stored type true body := by
  rw [arrival_string reading.mode, reading.data]
  rfl

/-! ## Introducers -/

theorem process_osc (inside : v.mode = .esc) : process frontend v (byte ']') = openString .osc { v with events := [] } :=
  Bounds.process_esc frontend v _ inside .OSC (by decide)

theorem process_title (inside : v.mode = .esc) :
    process frontend v (byte 'k') = resetEscape (openString .title { v with events := [] }) :=
  Bounds.process_esc frontend v _ inside .title (by decide)

/-! ## Titles along a run -/

def titleEvent : Event → Option (List uchar)
  | .setWindowTitle title => some title
  | _ => none

/-- The titles that the last byte set. -/
def titles (v : VTE) : List (List uchar) := v.events.filterMap titleEvent

theorem titles_eq (v : VTE) : titles v = (log v).filterMap titleEvent := by
  apply filterMap_log
  intro event quiet
  cases event <;> first | rfl | cases quiet

/-- A byte sets at most one title, that of the finished string that it makes the parser look at. -/
theorem titles_process (v : VTE) (c : uchar) : titles (process frontend v c) = [] ∨
    ∃ title, LooksAtString v c ∧ (arrival v).strData.finished = true ∧ titleOf (arrival v).strData = some title ∧
      titles (process frontend v c) = [title] := by
  rw [titles_eq]
  have told := process_told frontend v c
  generalize log (process frontend v c) = events at told
  cases told with
  | silent => exact .inl rfl
  | line cursor => exact .inl rfl
  | scroll y cursor scrolls => exact .inl rfl
  | clear events cleared =>
    refine .inl (List.filterMap_eq_nil_iff.mpr fun event member => ?_)
    obtain ⟨x1, y1, x2, y2, cursor, rfl, -⟩ := cleared event member
    rfl
  | erase y erases => exact .inl rfl
  | title title looks finished known => exact .inr ⟨title, looks, finished, known, rfl⟩
  | bell rings between unfinished => exact .inl rfl

theorem titles_of_not_looks (elsewhere : ¬ LooksAtString v c) : titles (process frontend v c) = [] := by
  rcases titles_process frontend v c with none | ⟨title, looks, -⟩
  · exact none
  · exact absurd looks elsewhere

theorem process_bell (between : v.utf8Buffer = []) : process frontend v 0x07 = control frontend .BEL (arrival v) :=
  process_eq_control frontend v 0x07 .BEL between (by decide) (fun _ => by decide)

theorem titles_parseString (v : VTE) (quiet : log v = []) : titles (parseString v) = (titleOf v.strData).toList := by
  rw [titles_eq, log_parseString, quiet, List.nil_append]
  cases titleOf v.strData <;> rfl

theorem titles_bell (between : v.utf8Buffer = []) (finished : (arrival v).strData.finished = true) :
    titles (process frontend v 0x07) = (titleOf (arrival v).strData).toList := by
  rw [process_bell frontend between, Vte.control, if_pos finished]
  exact titles_parseString _ (log_arrival v)

theorem titles_st (inside : v.mode = .esc) (finished : v.strData.finished = true) :
    titles (process frontend v (byte '\\')) = (titleOf v.strData).toList := by
  rw [Bounds.process_esc frontend v _ inside .ST (by decide), escape, if_pos finished]
  exact titles_parseString _ rfl

end Woterm.Terminal.Strings
