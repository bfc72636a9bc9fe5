import Woterm.Terminal.Containment
import Woterm.Terminal.PlainText

/-!
Sequences that change how text looks, but not what it says: colors and other attributes, character
sets, the keypad, and the modes for cursor keys, cursor and bracketed paste. The spy records the
same text with them and without.
-/

namespace Woterm.Terminal.Decoration
open Woterm.Lib Woterm.Lib.Run Woterm.Lib.Typewriter Woterm.Qt Woterm.Terminal.Data Woterm.Terminal.Vte
open Woterm.Terminal.Codes Woterm.Terminal.TextBytes Woterm.Terminal.CmdSpy Woterm.Terminal.Sizes
open Woterm.Terminal.Parameters Woterm.Terminal.Containment Woterm.Terminal.PlainText

/-! ## What text depends on -/

/-- The part of the state that decides where text goes. -/
structure Surface where
  utf8 : Bool
  wraps : Bool
  inserts : Bool
  returns : Bool
  origin : Bool
  buffer : List uchar
  top : Int
  bottom : Int
  width : Int
  height : Int
  x : Int
  y : Int
  cs : CursorState

def surface (v : VTE) : Surface where
  utf8 := v.flags .UTF8
  wraps := v.flags .DECAWM
  inserts := v.flags .IRM
  returns := v.flags .LNM
  origin := v.flags .DECOM
  buffer := v.utf8Buffer
  top := v.top
  bottom := v.bottom
  width := v.width
  height := v.height
  x := v.cursor.x
  y := v.cursor.y
  cs := v.cursor.cs

theorem surface_hc (v : VTE) : surface (hc v) = surface v := by
  unfold hc
  split_ifs <;> rfl

theorem surface_sc (v : VTE) : surface (sc v) = surface v := by
  unfold sc
  split_ifs <;> rfl

/-- The flags that decide where text goes. -/
def shaping : List TerminalFlag := [.UTF8, .DECAWM, .IRM, .LNM, .DECOM]

theorem surface_setFlag (flag : TerminalFlag) (state : Bool) (v : VTE) (other : flag ∉ shaping) :
    surface (setFlag flag state v) = surface v := by
  have kept (shape : TerminalFlag) (member : shape ∈ shaping) :
      Function.update v.flags flag state shape = v.flags shape := by
    apply Function.update_of_ne
    rintro rfl
    exact other member
  unfold surface setFlag
  simp only [kept .UTF8 (by decide), kept .DECAWM (by decide), kept .IRM (by decide), kept .LNM (by decide),
    kept .DECOM (by decide)]

variable {width : Nat}

theorem lands_of_surface {column row : Nat} {made : List Call} {v w : VTE} (same : surface w = surface v)
    (ground : w.mode = .ground) (lands : Lands width [] column row made v) :
    Lands width [] column row (calls w) w := by
  have plain := lands.plain
  exact ⟨⟨ground, (congrArg Surface.utf8 same).trans plain.utf8, (congrArg Surface.wraps same).trans plain.wraps,
    (congrArg Surface.inserts same).trans plain.replaces, (congrArg Surface.returns same).trans plain.returns,
    (congrArg Surface.origin same).trans plain.whole, (congrArg Surface.buffer same).trans plain.buffer,
    (congrArg Surface.top same).trans plain.top, (congrArg Surface.bottom same).trans plain.bottom,
    (congrArg Surface.width same).trans plain.width, (congrArg Surface.height same).trans plain.height⟩,
    (congrArg Surface.x same).trans lands.x, (congrArg Surface.y same).trans lands.y,
    (congrArg Surface.cs same).trans lands.cs, rfl⟩

/-! ## Bytes that the spy does not notice -/

/-- No byte makes a call that the spy listens to. -/
def Unnoticed : VTE → List uchar → Prop
  | _, [] => True
  | v, c :: bytes => calls (process frontend v c) = [] ∧ Unnoticed (process frontend v c) bytes

/-- The bytes are a sequence that leaves the text as it is. -/
structure Passes (v : VTE) (bytes : List uchar) : Prop where
  unnoticed : Unnoticed v bytes
  ground : (run frontend v bytes).mode = .ground
  surface : surface (run frontend v bytes) = surface v

variable {v next : VTE} {c : uchar}

theorem Passes.cons (bytes : List uchar) (arrived : process frontend v c = next) (silent : calls next = [])
    (same : Decoration.surface next = Decoration.surface v) (later : Passes next bytes) : Passes v (c :: bytes) := by
  subst arrived
  exact ⟨⟨silent, later.unnoticed⟩, later.ground, later.surface.trans same⟩

theorem Passes.last (arrived : process frontend v c = next) (silent : calls next = []) (ground : next.mode = .ground)
    (same : Decoration.surface next = Decoration.surface v) : Passes v [c] := by
  subst arrived
  exact ⟨⟨silent, trivial⟩, ground, same⟩

theorem Passes.escape (v : VTE) (ground : v.mode = .ground) (empty : v.utf8Buffer = []) (bytes : List uchar)
    (later : Passes { v with events := [], mode := .esc } bytes) : Passes v (0x1b :: bytes) :=
  .cons bytes (process_escape frontend v ground empty) rfl rfl later

theorem Passes.accept (v : VTE) (data next : ControlData) (body bytes : List uchar)
    (text : ∀ c ∈ body, isControl c = false) (taken : after accept data body = some next)
    (later : Passes (inSequence v next) bytes) : Passes (inSequence v data) (body ++ bytes) := by
  induction body generalizing data with
  | nil =>
    obtain rfl := Option.some.inj taken
    exact later
  | cons c body ih =>
    rw [after_cons] at taken
    obtain ⟨middle, first, rest⟩ := Option.bind_eq_some_iff.mp taken
    have arrived := process_accept frontend v data middle c (text c List.mem_cons_self) first
    have behind := ih middle (fun d member => text d (List.mem_cons_of_mem c member)) rest
    exact .cons (body ++ bytes) arrived rfl rfl behind

theorem passes_sequence (v : VTE) (ground : v.mode = .ground) (empty : v.utf8Buffer = []) (body : List uchar)
    (data : ControlData) (c : uchar) (text : ∀ d ∈ body, isControl d = false)
    (taken : after accept {} body = some data) (last : 0x40 ≤ c ∧ c ≤ 0x7e)
    (silent : calls (process frontend (inSequence v data) c) = [])
    (same : surface (process frontend (inSequence v data) c) = surface v) :
    Passes v ([0x1b, byte '['] ++ body ++ [c]) := by
  have returned := process_refused frontend v data c (letter_final c last).1 (accept_letter data c last)
  apply Passes.escape v ground empty
  apply Passes.cons _ (process_bracket frontend v) rfl rfl
  exact Passes.accept v {} data body [c] text taken (.last rfl silent returned same)

/-! ## The sequences -/

theorem stored_text (c : uchar) (stored : Stored c) : isControl c = false := by
  rcases stored with digit | rfl
  · exact digit_text c digit
  · decide

theorem passes_attributes (v : VTE) (ground : v.mode = .ground) (empty : v.utf8Buffer = []) (params : List uchar)
    (stored : ∀ c ∈ params, Stored c) (short : params.length ≤ 29) :
    Passes v ([0x1b, byte '['] ++ params ++ [byte 'm']) := by
  obtain ⟨data, taken⟩ := accept_of_fits params {} ⟨0, params, rfl, fun _ => rfl, stored, by
    rw [Nat.zero_add]
    omega⟩
  -- the attributes are set, or the sequence is dropped if its parameters took all the space
  obtain ⟨drawn, handled, silent, same⟩ : ∃ drawn, process frontend (inSequence v data) (byte 'm') = resetEscape drawn ∧
      calls drawn = [] ∧ surface drawn = surface v := by
    rw [process_inSequence frontend v data _ (by decide), handleCsi]
    split_ifs
    · rw [Bounds.addArg_letter _ _ (by decide)]
      exact ⟨setAttributes (inSequence v data), rfl, rfl, rfl⟩
    · exact ⟨inSequence v data, rfl, rfl, rfl⟩
  apply passes_sequence v ground empty params data (byte 'm') (fun c member => stored_text c (stored c member)) taken
    (by decide)
  · rw [handled]
    exact silent
  · rw [handled]
    exact same

/-- The private modes that do not move text: cursor keys, the cursor, and one that the parser does not know. -/
def harmless : List Int := [1, 25, 2004]

theorem harmless_flag : ∀ k ∈ harmless, ∀ entry ∈ modeTable.find? fun entry => entry.1 = k && entry.2.1 = true,
    entry.2.2 = .DECCKM ∨ entry.2.2 = .DECTCEM := by
  decide

theorem notifyTCEM_unseen (v : VTE) : calls (notifyTCEM v) = calls v ∧ surface (notifyTCEM v) = surface v := by
  unfold notifyTCEM
  dsimp only
  refine ⟨?_, (surface_sc _).trans (surface_hc v)⟩
  rw [calls_sc, calls_emit, calls_hc]
  exact List.append_nil _

theorem modifyMode_harmless (k : Int) (known : k ∈ harmless) (state : Bool) (v : VTE) :
    calls (modifyMode frontend true state v k) = calls v ∧
      surface (modifyMode frontend true state v k) = surface v := by
  unfold modifyMode
  cases found : modeTable.find? fun entry => entry.1 = k && entry.2.1 = true with
  | none => exact ⟨rfl, rfl⟩
  | some entry =>
    obtain ⟨number, dec, flag⟩ := entry
    obtain rfl | rfl : flag = .DECCKM ∨ flag = .DECTCEM := harmless_flag k known _ found
    · exact ⟨rfl, surface_setFlag .DECCKM state v (by decide)⟩
    · obtain ⟨silent, same⟩ := notifyTCEM_unseen (setFlag .DECTCEM state v)
      exact ⟨silent, same.trans (surface_setFlag .DECTCEM state v (by decide))⟩

/-- The digits of the harmless modes, with the question mark. -/
def harmlessBytes : List (List uchar) := ["?1", "?25", "?2004"].map fun text => text.toList.map byte

theorem harmless_data : ∀ body ∈ harmlessBytes, ∃ data, after accept {} body = some data ∧ data.spaceLeft = true ∧
    data.decMode = true ∧ ∃ k ∈ harmless, arguments data = [k] := by
  intro body member
  simp only [harmlessBytes, List.map_cons, List.map_nil, List.mem_cons, List.not_mem_nil, or_false] at member
  rcases member with rfl | rfl | rfl
  · exact ⟨_, rfl, rfl, rfl, 1, by decide, by decide⟩
  · exact ⟨_, rfl, rfl, rfl, 25, by decide, by decide⟩
  · exact ⟨_, rfl, rfl, rfl, 2004, by decide, by decide⟩

theorem harmless_text : ∀ body ∈ harmlessBytes, ∀ d ∈ body, isControl d = false := by decide

theorem passes_mode (v : VTE) (ground : v.mode = .ground) (empty : v.utf8Buffer = []) (body : List uchar)
    (member : body ∈ harmlessBytes) (c : uchar) (last : c = byte 'h' ∨ c = byte 'l') :
    Passes v ([0x1b, byte '['] ++ body ++ [c]) := by
  obtain ⟨data, taken, space, dec, k, known, args⟩ := harmless_data body member
  have text := harmless_text body member
  have letter : 0x40 ≤ c ∧ c ≤ 0x7e := by
    rcases last with rfl | rfl <;> decide
  obtain ⟨state, performed⟩ : ∃ state,
      perform frontend c (inSequence v data) = changeModes frontend state (inSequence v data) := by
    rcases last with rfl | rfl
    · exact ⟨true, rfl⟩
    · exact ⟨false, rfl⟩
  have changed : changeModes frontend state (inSequence v data) =
      modifyMode frontend true state (inSequence v data) k := by
    have args : arguments (inSequence v data).csiData = [k] := args
    have dec : (inSequence v data).csiData.decMode = true := dec
    rw [changeModes, args, dec]
    rfl
  obtain ⟨silent, same⟩ := modifyMode_harmless k known state (inSequence v data)
  have handled := process_final frontend v data c letter space
  rw [performed, changed] at handled
  apply passes_sequence v ground empty body data c text taken letter
  · rw [handled]
    exact silent
  · rw [handled]
    exact same

theorem passes_keypad (v : VTE) (ground : v.mode = .ground) (empty : v.utf8Buffer = []) (c : uchar)
    (switch : c = byte '=' ∨ c = byte '>') : Passes v [0x1b, c] := by
  obtain ⟨state, switched⟩ : ∃ state, process frontend { v with events := [], mode := .esc } c =
      resetEscape (notifyKPAM (setFlag .DECKPAM state { v with events := [], mode := .esc })) := by
    rcases switch with rfl | rfl
    · exact ⟨true, Bounds.process_esc frontend _ _ rfl .DECPAM (by decide)⟩
    · exact ⟨false, Bounds.process_esc frontend _ _ rfl .DECPNM (by decide)⟩
  apply Passes.escape v ground empty
  exact .last switched rfl rfl (surface_setFlag .DECKPAM state _ (by decide))

theorem handleCharset_unseen (c : uchar) (v : VTE) : calls (handleCharset c v) = calls v ∧
    (handleCharset c v).mode = .ground ∧ surface (handleCharset c v) = surface v := by
  unfold handleCharset
  split
  · exact ⟨(calls_emit _ _).trans (List.append_nil _), rfl, rfl⟩
  · exact ⟨rfl, rfl, rfl⟩

/-- The parser waits for the name of a character set. -/
def inCharset (v : VTE) (n : Nat) : VTE :=
  { v with events := [], csiData := {}, definingCharset := n, mode := .charset }

theorem process_inCharset (v : VTE) (n : Nat) (c : uchar) (text : isControl c = false) :
    Vte.process frontend (inCharset v n) c = handleCharset c (inCharset v n) := by
  simp [Vte.process, dispatch, text, inCharset]

theorem passes_charset (v : VTE) (ground : v.mode = .ground) (empty : v.utf8Buffer = []) (set c : uchar)
    (designation : set = byte '(' ∨ set = byte ')') (printable : Printable c) : Passes v [0x1b, set, c] := by
  obtain ⟨n, designated⟩ : ∃ n, Vte.process frontend { v with events := [], mode := .esc } set = inCharset v n := by
    rcases designation with rfl | rfl
    · exact ⟨0, Bounds.process_esc frontend _ _ rfl (.charset 0) (by decide)⟩
    · exact ⟨1, Bounds.process_esc frontend _ _ rfl (.charset 1) (by decide)⟩
  have text : isControl c = false := by
    obtain ⟨lower, upper⟩ := printable
    simp only [UInt8.le_iff_toNat_le, UInt8.reduceToNat] at lower upper
    rw [isControl_eq_false_iff]
    omega
  have named := process_inCharset v n c text
  obtain ⟨silent, left, same⟩ := handleCharset_unseen c (inCharset v n)
  apply Passes.escape v ground empty
  exact .cons [c] designated rfl rfl (.last named silent left same)

/-! ## Decorated text -/

/-- The sequences that decorate text. -/
inductive Sequence : List uchar → Prop
  | attributes (params : List uchar) (stored : ∀ c ∈ params, isDigit c = true ∨ c = byte ';')
      (short : params.length ≤ 29) : Sequence ([0x1b, byte '['] ++ params ++ [byte 'm'])
  | charset (set c : uchar) (designation : set = byte '(' ∨ set = byte ')') (printable : Printable c) :
      Sequence [0x1b, set, c]
  | keypad (c : uchar) (switch : c = byte '=' ∨ c = byte '>') : Sequence [0x1b, c]
  | mode (body : List uchar) (member : body ∈ harmlessBytes) (c : uchar) (last : c = byte 'h' ∨ c = byte 'l') :
      Sequence ([0x1b, byte '['] ++ body ++ [c])

/-- The second text is the first with sequences inserted. -/
inductive Decorated : List uchar → List uchar → Prop
  | nil : Decorated [] []
  | text (c : uchar) (w w' : List uchar) : Decorated w w' → Decorated (c :: w) (c :: w')
  | insert (sequence w w' : List uchar) : Sequence sequence → Decorated w w' → Decorated w (sequence ++ w')

theorem passes_of_sequence (v : VTE) (ground : v.mode = .ground) (empty : v.utf8Buffer = []) (bytes : List uchar)
    (sequence : Sequence bytes) : Passes v bytes := by
  cases sequence with
  | attributes params stored short => exact passes_attributes v ground empty params stored short
  | charset set c designation printable => exact passes_charset v ground empty set c designation printable
  | keypad c switch => exact passes_keypad v ground empty c switch
  | mode body member c last => exact passes_mode v ground empty body member c last

theorem processLoop_unnoticed (first second : List uchar) (spy : QWoCmdSpy) (going : spy.stop = false)
    (unnoticed : Unnoticed spy.vte first) : processLoop (first ++ second) spy =
      processLoop second { spy with vte := run frontend spy.vte first } := by
  induction first generalizing spy with
  | nil => rfl
  | cons c bytes ih =>
    have one : processByte spy c = some { spy with vte := process frontend spy.vte c } := by
      rw [processByte_calls, unnoticed.1]
      rfl
    rw [List.cons_append, processLoop, if_neg (ne_true_of_eq_false going), one, Option.bind_some,
      ih { spy with vte := process frontend spy.vte c } going unnoticed.2]
    rfl

theorem processLoop_decorated (wide : 1 < width) (narrow : width ≤ fixCollumn) (w w' : List uchar)
    (decorated : Decorated w w') (text : ∀ c ∈ w, Text c) (sheet : Sheet Char) (spy : QWoCmdSpy)
    (shows : Shows width sheet spy) :
    ∃ next, processLoop w' spy = some next ∧ Shows width (w.foldl (typed width) sheet) next := by
  induction decorated generalizing sheet spy with
  | nil => exact ⟨spy, rfl, shows⟩
  | text c w w' _ ih =>
    obtain ⟨middle, processed, shown⟩ :=
      processByte_shows wide narrow sheet spy c (text c List.mem_cons_self) shows
    obtain ⟨_, _, _, rows⟩ := shows
    rw [processLoop, if_neg (ne_true_of_eq_false rows.going), processed, Option.bind_some]
    exact ih (fun other member => text other (List.mem_cons_of_mem c member)) _ middle shown
  | insert bytes w w' sequence _ ih =>
    obtain ⟨row, _, lands, rows⟩ := shows
    have passes := passes_of_sequence spy.vte lands.plain.mode lands.plain.buffer bytes sequence
    rw [processLoop_unnoticed bytes w' spy rows.going passes.unnoticed]
    exact ih text sheet _ ⟨row, _, lands_of_surface passes.surface passes.ground lands, rows.at_state _⟩

/-- After a reset, the spy records a decorated text as it records the plain one. -/
def SameRecord (spy : QWoCmdSpy) (w w' : QByteArray) : Prop :=
  ∃ plain decorated, CmdSpy.process (reset spy) w = some plain ∧ CmdSpy.process (reset spy) w' = some decorated ∧
    (output decorated).1 = (output plain).1

theorem sameRecord_width (spy : QWoCmdSpy) (wide : 1 < width) (narrow : width ≤ fixCollumn)
    (columns : spy.vte.width = width) (height : spy.vte.height = 768) (w w' : List uchar)
    (text : ∀ c ∈ w, Text c) (decorated : Decorated w w') : SameRecord spy w w' := by
  have started := reset_shows spy wide columns height
  obtain ⟨plain, plainly, shown⟩ := processLoop_shows wide narrow w text {} _ started
  obtain ⟨adorned, reached, same⟩ := processLoop_decorated wide narrow w w' decorated text {} _ started
  exact ⟨plain, adorned, plainly, reached, (output_shows _ _ same).trans (output_shows _ _ shown).symm⟩

theorem decoration_transparent (spy : QWoCmdSpy) (reachable : Reachable spy) (w w' : List uchar)
    (text : ∀ c ∈ w, Printable c ∨ c = 0x0d ∨ c = 0x0a) (decorated : Decorated w w') : SameRecord spy w w' := by
  have usual := reachable_usual spy reachable
  have text : ∀ c ∈ w, Text c := by
    intro c member
    rcases text c member with printable | ret | feed
    · exact .inl printable
    · exact .inr (.inl ret)
    · exact .inr (.inr (.inl feed))
  obtain ⟨width, wide, narrow, columns⟩ := reachable_width spy reachable
  exact sameRecord_width spy wide narrow columns usual.height w w' text decorated

/-- A colored letter, with the cursor hidden. -/
theorem decoration_transparent_fresh : Reachable fresh ∧
    SameRecord fresh [byte 'a', 0x0d] ("\x1b[1;31ma\x1b[?25l\r".toList.map byte) :=
  ⟨.constructed, decoration_transparent fresh .constructed _ _ (by decide)
    (.insert _ _ _ (.attributes ("1;31".toList.map byte) (by decide) (by decide))
      (.text _ _ _ (.insert _ _ _ (.mode ("?25".toList.map byte) (by decide) (byte 'l') (.inr rfl))
        (.text _ _ _ .nil))))⟩

end Woterm.Terminal.Decoration
