import Woterm.Lib.Run
import Woterm.Lib.Slots
import Woterm.Terminal.Vte

/-!
The buffers of the terminal parser as the fixed arrays that they are, with counters and pointers
into them. Every access is checked, and one outside of its array has no result. Only what the
buffers depend on is kept here: the mode, the flag of UTF-8 and the charsets of the two cursors.
-/

namespace Woterm.Terminal.Arrays
open Woterm.Lib Woterm.Lib.Slots Woterm.Terminal.Data Woterm.Terminal.Vte

/-! ## Control sequences -/

/-- `ControlData`, with pointers into `ctrl_data` as offsets. -/
structure ControlData where
  ctrlData : Vector uchar 32
  ctrlNextData : Nat
  ctrlArgs : Vector Nat 32
  nargs : Nat
  decMode : Bool

namespace ControlData

/-- `reset`, which leaves all of `ctrl_args` but the first as they are. -/
def reset (data : ControlData) : ControlData where
  ctrlData := Vector.replicate 32 0
  ctrlNextData := 0
  ctrlArgs := data.ctrlArgs.set 0 0
  nargs := 1
  decMode := false

def getArg (data : ControlData) (arg : Nat) : Option Int :=
  if arg < data.nargs then do
    let start ← data.ctrlArgs[arg]?
    let text ← stringAt data.ctrlData start
    return atoi text
  else some 0

/-- All arguments. The cases of `handle_csi` read some of them. -/
def arguments (data : ControlData) : Option (List Int) := (List.range data.nargs).mapM data.getArg

def spaceLeft (data : ControlData) : Bool := data.ctrlNextData < 30

/-- `add_arg`, with its result. -/
def addArg (data : ControlData) (c : uchar) : Option (ControlData × Bool) :=
  if c = byte '?' ∧ data.ctrlNextData = 0 then some ({ data with decMode := true }, true)
  else if c = byte ';' then do
    -- the pointer passes a cell without writing it, so the argument before ends with a NUL
    let args ← store data.ctrlArgs data.nargs (data.ctrlNextData + 1)
    return ({ data with
      ctrlNextData := data.ctrlNextData + 1
      ctrlArgs := args
      nargs := data.nargs + 1 }, true)
  else if isDigit c then do
    let cells ← store data.ctrlData data.ctrlNextData c
    return ({ data with ctrlData := cells, ctrlNextData := data.ctrlNextData + 1 }, true)
  else some (data, false)

/-- The data without what is left in the unused cells. -/
def view (data : ControlData) : Data.ControlData where
  ctrlData := data.ctrlData.toList
  ctrlNextData := data.ctrlNextData
  ctrlArgs := data.ctrlArgs.toList.take data.nargs
  decMode := data.decMode

/-- The pointer stays two cells before the end, arguments start before it, and NULs follow it. -/
structure Fits (data : ControlData) : Prop where
  next : data.ctrlNextData ≤ 30
  count : data.nargs ≤ data.ctrlNextData + 1
  starts : ∀ start ∈ data.view.ctrlArgs, start ≤ 30
  nul : ∀ i, data.ctrlNextData ≤ i → i < 32 → data.ctrlData[i]? = some 0

variable (data : ControlData)

theorem reset_view : data.reset.view = {} := by
  have first : (data.ctrlArgs.set 0 0).toList.take 1 = [0] := take_set data.ctrlArgs 0 0 (by decide)
  unfold view reset
  rw [first, Vector.toList_replicate]

theorem reset_fits : data.reset.Fits where
  next := Nat.zero_le 30
  count := Nat.le_refl 1
  starts := by
    rw [reset_view]
    simp
  nul := by
    intro i _ inside
    simp [reset, inside]

theorem getArg_eq (fits : data.Fits) (arg : Nat) : data.getArg arg = some (data.view.getArg arg) := by
  have limit : data.nargs ≤ 31 := fits.count.trans (Nat.succ_le_succ fits.next)
  unfold getArg
  split_ifs with given
  · have inside : arg < 32 := by omega
    have loaded : data.ctrlArgs[arg]? = some data.ctrlArgs[arg] := Vector.getElem?_eq_getElem inside
    have viewed : data.view.ctrlArgs[arg]? = some data.ctrlArgs[arg] := by
      rw [view, List.getElem?_take_of_lt given, Vector.getElem?_toList, loaded]
    have start : data.ctrlArgs[arg] ≤ 31 := (fits.starts _ (List.mem_of_getElem? viewed)).trans (by decide)
    have text := stringAt_eq data.ctrlData _ 31 start (fits.nul 31 (fits.next.trans (by decide)) (by decide))
    simp only [loaded, Option.bind_eq_bind, Option.bind_some, text]
    rw [Data.ControlData.getArg, viewed]
    rfl
  · have beyond : data.view.ctrlArgs[arg]? = none := by
      rw [view, List.getElem?_take_eq_none (Nat.le_of_not_lt given)]
    rw [Data.ControlData.getArg, beyond]

theorem view_nargs (fits : data.Fits) : data.view.nargs = data.nargs := by
  have limit : data.nargs ≤ 32 := fits.count.trans (Nat.succ_le_succ (fits.next.trans (by decide)))
  simp [Data.ControlData.nargs, view, limit]

theorem arguments_eq (fits : data.Fits) : data.arguments = some (Vte.arguments data.view) := by
  unfold arguments Vte.arguments
  rw [view_nargs data fits, funext (getArg_eq data fits)]
  exact List.mapM_pure

theorem addArg_spec (fits : data.Fits) (room : data.spaceLeft = true) (c : uchar) :
    (∃ next, data.addArg c = some (next, true) ∧ next.Fits ∧ data.view.addArg c = some next.view) ∨
      data.addArg c = some (data, false) ∧ data.view.addArg c = none := by
  have before : data.ctrlNextData < 30 := of_decide_eq_true room
  have limit : data.nargs < 32 := by
    have count := fits.count
    omega
  have same : data.view.ctrlNextData = data.ctrlNextData := rfl
  unfold addArg Data.ControlData.addArg
  rw [same]
  by_cases question : c = byte '?' ∧ data.ctrlNextData = 0
  · rw [if_pos question, if_pos question]
    exact .inl ⟨_, rfl, ⟨fits.next, fits.count, fits.starts, fits.nul⟩, rfl⟩
  rw [if_neg question, if_neg question]
  by_cases separator : c = byte ';'
  · rw [if_pos separator, if_pos separator, store_eq _ _ _ limit]
    have shown := take_set data.ctrlArgs data.nargs (data.ctrlNextData + 1) limit
    refine .inl ⟨_, rfl, ⟨before, Nat.succ_le_succ fits.count, ?_, ?_⟩, ?_⟩
    · intro start member
      simp only [view, shown, List.mem_append, List.mem_singleton] at member
      rcases member with old | rfl
      · exact fits.starts start old
      · exact before
    · intro i after inside
      exact fits.nul i (Nat.le_of_succ_le after) inside
    · simp only [view, shown]
  rw [if_neg separator, if_neg separator]
  by_cases digit : isDigit c = true
  · rw [if_pos digit, if_pos digit, store_eq _ _ _ (by omega)]
    have nul := behind_set data.ctrlData data.ctrlNextData c 0 (by omega) fits.nul
    refine .inl ⟨_, rfl, ⟨before, fits.count.trans (Nat.le_succ _), fits.starts, nul⟩, ?_⟩
    simp only [view, Vector.toList_set]
  · rw [if_neg digit, if_neg digit]
    exact .inr ⟨rfl, rfl⟩

end ControlData

/-! ## Strings -/

/-- `StringData`, with pointers into `str_data` as offsets. -/
structure StringData where
  strData : Vector uchar 256
  nextStrData : Nat
  stringType : StringType
  finished : Bool
  args : Vector Nat 32
  nargs : Nat

namespace StringData

def reset (data : StringData) (type : StringType) : StringData where
  strData := Vector.replicate 256 0
  nextStrData := 0
  stringType := type
  finished := false
  args := data.args.set 0 0
  nargs := 1

/-- The loop of `parse` at the offset `s`, with `left` bytes of the array from there on. -/
def parseLoop (n : Nat) : Nat → Nat → Nat → StringData → Option (Nat × StringData)
  | 0, _, _, _ => none
  | left + 1, s, i, data => do
    let c ← data.strData[s]?
    if c = 0 ∨ ¬ i < n ∨ ¬ data.nargs < 32 then some (i, data)
    else if c = byte ';' then do
      let cells ← store data.strData s 0
      let args ← store data.args data.nargs (s + 1)
      parseLoop n left (s + 1) (i + 1) { data with strData := cells, args := args, nargs := data.nargs + 1 }
    else parseLoop n left (s + 1) i data

def parse (data : StringData) (s n : Nat) : Option (Nat × StringData) := parseLoop n (256 - s) s 0 data

/-- `get_arg`; the null pointer is no result, as the parser reads from what it gets. -/
def getArg (data : StringData) (arg : Nat) : Option Nat :=
  if arg < data.nargs then data.args[arg]? else none

/-- The text of an argument. -/
def text (data : StringData) (arg : Nat) : Option (List uchar) := do
  let start ← data.getArg arg
  stringAt data.strData start

/-- `add_char`; no string if the buffer is full. -/
def addChar (data : StringData) (c : uchar) : Option (Option StringData) :=
  if 254 ≤ data.nextStrData then some none
  else do
    let cells ← store data.strData data.nextStrData c
    return some { data with strData := cells, nextStrData := data.nextStrData + 1 }

/-- What `parse_string` does with a string before it resets it. -/
def parsed (data : StringData) : Option StringData :=
  match data.stringType with
  | .osc => do
    let (found, data) ← data.parse 0 1
    if found = 1 then
      let number ← data.text 0
      match atoi number with
      | 0 | 1 | 2 =>
        let _title ← data.text 1
        return data
      | 4 =>
        -- the rest is cut once more, so the color is argument 1 and what it becomes argument 2
        let start ← data.getArg 1
        let (found, data) ← data.parse start 1
        if found = 1 then
          let _color ← data.text 1
          let _spec ← data.text 2
          return data
        else return data
      | 104 =>
        let _color ← data.text 1
        return data
      | _ => return data
    else return data
  | .title => do
    let (found, data) ← data.parse 0 1
    if found = 1 then
      let _title ← data.text 0
      return data
    else return data
  | _ => some data

/-- The data without what is left in the unused cells. -/
def view (data : StringData) : Data.StringData where
  strData := data.strData.toList
  nextStrData := data.nextStrData
  stringType := data.stringType
  finished := data.finished
  args := data.args.toList.take data.nargs

/-- The pointer stays two cells before the end, NULs follow it, and nothing is parsed yet. -/
structure Fits (data : StringData) : Prop where
  next : data.nextStrData ≤ 254
  nul : ∀ i, data.nextStrData ≤ i → i < 256 → data.strData[i]? = some 0
  count : data.nargs = 1
  first : data.args[0]? = some 0

/-- While a string is parsed, the arguments so far and the rest end before the last cell. -/
structure Parsing (data : StringData) : Prop where
  nul : data.strData[255]? = some 0
  count : data.nargs ≤ 32
  starts : ∀ arg start, arg < data.nargs → data.args[arg]? = some start → start ≤ 255

variable (data : StringData)

theorem reset_view (type : StringType) : (data.reset type).view = { stringType := type } := by
  have first : (data.args.set 0 0).toList.take 1 = [0] := take_set data.args 0 0 (by decide)
  unfold view reset
  rw [first, Vector.toList_replicate]

theorem reset_fits (type : StringType) : (data.reset type).Fits where
  next := Nat.zero_le 254
  nul := by
    intro i _ inside
    simp [reset, inside]
  count := rfl
  first := by simp [reset]

theorem addChar_spec (fits : data.Fits) (c : uchar) :
    ∃ result, data.addChar c = some result ∧ result.map view = data.view.addChar c ∧
      ∀ next ∈ result, next.Fits := by
  have same : data.view.nextStrData = data.nextStrData := rfl
  unfold addChar Data.StringData.addChar
  rw [same]
  by_cases full : 254 ≤ data.nextStrData
  · rw [if_pos full, if_pos full]
    exact ⟨none, rfl, rfl, by simp⟩
  · rw [if_neg full, if_neg full, store_eq _ _ _ (by omega)]
    refine ⟨_, rfl, ?_, ?_⟩
    · simp only [Option.map_some, view, Vector.toList_set]
    · rintro _ ⟨rfl⟩
      have nul := behind_set data.strData data.nextStrData c 0 (by omega) fits.nul
      exact ⟨Nat.lt_of_not_le full, nul, fits.count, fits.first⟩

theorem Fits.parsing {data : StringData} (fits : data.Fits) : data.Parsing where
  nul := fits.nul 255 (fits.next.trans (by decide)) (by decide)
  count := fits.count.trans_le (by decide)
  starts := by
    intro arg start given loaded
    have only : arg = 0 := by
      have count := fits.count
      omega
    rw [only, fits.first] at loaded
    exact Option.some.inj loaded ▸ Nat.zero_le 255

theorem Parsing.before_last {data : StringData} (parsing : data.Parsing) (s : Nat) (inside : s ≤ 255) (c : uchar)
    (loaded : data.strData[s]? = some c) (text : c ≠ 0) : s < 255 := by
  refine Nat.lt_of_le_of_ne inside fun last => text ?_
  have nul := parsing.nul
  rw [← last, loaded] at nul
  exact Option.some.inj nul

theorem Parsing.separate {data : StringData} (parsing : data.Parsing) (s : Nat) (inside : s < 255)
    (room : data.nargs < 32) :
    Parsing { data with
      strData := data.strData.set s 0
      args := data.args.set data.nargs (s + 1)
      nargs := data.nargs + 1 } where
  nul := by
    simp only [Vector.getElem?_set_ne _ (Nat.ne_of_lt inside)]
    exact parsing.nul
  count := room
  starts := by
    intro arg start given loaded
    by_cases last : data.nargs = arg
    · simp only [← last, Vector.getElem?_set_self] at loaded
      exact Option.some.inj loaded ▸ inside
    · simp only [Vector.getElem?_set_ne _ last] at loaded
      have before : arg < data.nargs + 1 := given
      exact parsing.starts arg start (by omega) loaded

theorem parseLoop_spec (n left s i : Nat) (data : StringData) (parsing : data.Parsing)
    (rest : s + left = 256) (inside : s ≤ 255) :
    ∃ found next, parseLoop n left s i data = some (found, next) ∧ next.Parsing ∧
      next.nargs + i = data.nargs + found := by
  induction left generalizing s i data with
  | zero => omega
  | succ left ih =>
    -- the last cell holds a NUL, so a loop that goes on is not there yet
    have loaded : data.strData[s]? = some data.strData[s] := Vector.getElem?_eq_getElem (by omega)
    simp only [parseLoop, loaded, Option.bind_eq_bind, Option.bind_some]
    split_ifs with stop separator
    · exact ⟨i, data, rfl, parsing, rfl⟩
    · obtain ⟨text, _, room⟩ := by simpa only [not_or, not_not] using stop
      have before := parsing.before_last s inside _ loaded text
      rw [store_eq _ _ _ (by omega), store_eq _ _ _ room]
      obtain ⟨found, next, result, kept, count⟩ :=
        ih (s + 1) (i + 1) _ (parsing.separate s before room) (by omega) (by omega)
      refine ⟨found, next, result, kept, ?_⟩
      have added : next.nargs + (i + 1) = data.nargs + 1 + found := count
      omega
    · obtain ⟨text, _, _⟩ := by simpa only [not_or, not_not] using stop
      have before := parsing.before_last s inside _ loaded text
      exact ih (s + 1) i data parsing (by omega) (by omega)

theorem parse_spec (parsing : data.Parsing) (s n : Nat) (inside : s ≤ 255) :
    ∃ found next, data.parse s n = some (found, next) ∧ next.Parsing ∧ next.nargs = data.nargs + found :=
  parseLoop_spec n (256 - s) s 0 data parsing (by omega) inside

theorem getArg_spec (parsing : data.Parsing) (arg : Nat) (given : arg < data.nargs) :
    ∃ start, data.getArg arg = some start ∧ start ≤ 255 := by
  have inside : arg < 32 := given.trans_le parsing.count
  have loaded : data.args[arg]? = some data.args[arg] := Vector.getElem?_eq_getElem inside
  exact ⟨data.args[arg], (if_pos given).trans loaded, parsing.starts arg _ given loaded⟩

theorem text_spec (parsing : data.Parsing) (arg : Nat) (given : arg < data.nargs) :
    ∃ text, data.text arg = some text := by
  obtain ⟨start, found, inside⟩ := getArg_spec data parsing arg given
  have text := stringAt_eq data.strData start 255 inside parsing.nul
  exact ⟨_, by rw [StringData.text, found, Option.bind_eq_bind, Option.bind_some, text]⟩

/-- No case of `parse_string` reads outside of the string and its arguments. -/
theorem parsed_spec (fits : data.Fits) : ∃ next, data.parsed = some next := by
  obtain ⟨found, next, parsed, parsing, count⟩ := parse_spec data fits.parsing 0 1 (by decide)
  rw [fits.count] at count
  unfold StringData.parsed
  split
  · rw [parsed]
    simp only [Option.bind_eq_bind, Option.bind_some]
    split_ifs with one
    · obtain ⟨number, numbered⟩ := text_spec next parsing 0 (by omega)
      obtain ⟨second, titled⟩ := text_spec next parsing 1 (by omega)
      obtain ⟨start, pointed, inside⟩ := getArg_spec next parsing 1 (by omega)
      obtain ⟨again, last, reparsed, kept, more⟩ := parse_spec next parsing start 1 inside
      simp only [numbered, titled, pointed, reparsed, Option.bind_some]
      split
      · exact ⟨next, rfl⟩
      · exact ⟨next, rfl⟩
      · exact ⟨next, rfl⟩
      · split_ifs with two
        · obtain ⟨color, colored⟩ := text_spec last kept 1 (by omega)
          obtain ⟨spec, specified⟩ := text_spec last kept 2 (by omega)
          simp only [colored, specified, Option.bind_some]
          exact ⟨last, rfl⟩
        · exact ⟨last, rfl⟩
      · exact ⟨next, rfl⟩
      · exact ⟨next, rfl⟩
    · exact ⟨next, rfl⟩
  · rw [parsed]
    simp only [Option.bind_eq_bind, Option.bind_some]
    split_ifs with one
    · obtain ⟨title, titled⟩ := text_spec next parsing 0 (by omega)
      rw [titled]
      exact ⟨next, rfl⟩
    · exact ⟨next, rfl⟩
  · exact ⟨data, rfl⟩

end StringData

/-! ## UTF-8 -/

/-- `utf8_decode`. -/
def utf8Decode (c : uchar) (state : Nat) (codep : UInt32) : Option (Nat × UInt32) := do
  let type ← utf8Masks[c.toNat]?
  let codep := if state ≠ 0 then (c.toUInt32 &&& (0x3f : UInt32)) ||| (codep <<< 6)
    else UInt32.ofNat (0xff >>> type) &&& c.toUInt32
  let state ← utf8States[state + type]?
  return (state, codep)

/-- The loop over `left` bytes of the buffer from the index `i` on. -/
def utf8Scan (cells : Vector uchar 8) : Nat → Nat → Nat → UInt32 → Option (Option UInt32)
  | 0, _, _, _ => some none
  | left + 1, i, state, codep => do
    let c ← cells[i]?
    let (state, codep) ← utf8Decode c state codep
    if state = 0 then return some codep
    else utf8Scan cells left (i + 1) state codep

theorem utf8Masks_length : utf8Masks.length = 256 := by decide +kernel

theorem utf8Masks_le : ∀ type ∈ utf8Masks, type ≤ 11 := by decide +kernel

theorem utf8States_le : ∀ state ∈ utf8States, state ≤ 96 := by decide

/-- The automaton stays in the table: no state exceeds 96 and no class 11. -/
theorem utf8Decode_spec (c : uchar) (state : Nat) (codep : UInt32) (reached : state ≤ 96) :
    utf8Decode c state codep = some (Vte.utf8Decode c state codep) ∧ (Vte.utf8Decode c state codep).1 ≤ 96 := by
  have range : utf8States.length = 108 := rfl
  have inside : c.toNat < utf8Masks.length := utf8Masks_length ▸ c.toNat_lt
  have type : utf8Masks[c.toNat] ≤ 11 := utf8Masks_le _ (List.getElem_mem inside)
  have known : state + utf8Masks[c.toNat] < utf8States.length := by omega
  simp only [utf8Decode, Vte.utf8Decode, List.getD_eq_getElem?_getD, List.getElem?_eq_getElem inside,
    Option.getD_some, Option.bind_eq_bind, Option.bind_some, List.getElem?_eq_getElem known]
  exact ⟨rfl, utf8States_le _ (List.getElem_mem known)⟩

theorem utf8Scan_eq (cells : Vector uchar 8) (left i state : Nat) (codep : UInt32) (reached : state ≤ 96)
    (inside : i + left ≤ 8) :
    utf8Scan cells left i state codep = some (Vte.utf8Scan ((cells.toList.drop i).take left) state codep) := by
  induction left generalizing i state codep with
  | zero => rfl
  | succ left ih =>
    have here : i < 8 := by omega
    have loaded : cells[i]? = some cells[i] := Vector.getElem?_eq_getElem here
    have seen : cells.toList.drop i = cells[i] :: cells.toList.drop (i + 1) := by
      rw [List.drop_eq_getElem_cons (by simpa using here), Vector.getElem_toList]
    obtain ⟨decoded, next⟩ := utf8Decode_spec cells[i] state codep reached
    rw [seen, List.take_succ_cons]
    simp only [utf8Scan, Vte.utf8Scan, loaded, decoded, Option.bind_eq_bind, Option.bind_some]
    split_ifs with complete
    · rfl
    · exact ih (i + 1) _ _ next (by omega)

/-! ## The parser -/

structure Buffers where
  mode : TerminalMode
  utf8 : Bool
  definingCharset : Nat
  charsets : Vector Charset 4
  savedCharsets : Vector Charset 4
  csiData : ControlData
  strData : StringData
  utf8Buffer : Vector uchar 8
  nextUtf8 : Nat

namespace Buffers

def resetEscape (b : Buffers) : Buffers := { b with csiData := b.csiData.reset, mode := .ground }

def resetUtf8Buffer (b : Buffers) : Buffers := { b with utf8Buffer := Vector.replicate 8 0, nextUtf8 := 0 }

def resetString (b : Buffers) (type : StringType) : Buffers := { b with strData := b.strData.reset type }

/-- The start of a string of some type. -/
def openString (b : Buffers) (type : StringType) : Buffers :=
  { b.resetEscape.resetString type with mode := .string }

/-- The loop over the charsets of the cursor. -/
def announceCharsets (b : Buffers) : Option (List Charset) := (List.range 4).mapM fun i => b.charsets[i]?

/-- The part of `RIS` that resets the buffers. -/
def ris (b : Buffers) : Option Buffers := do
  let b := { b with mode := .ground, utf8 := true, charsets := Vector.replicate 4 .us }
  let b := { b with savedCharsets := b.charsets }
  let b := (b.resetEscape.resetUtf8Buffer.resetString .none)
  let b := { b with definingCharset := 0 }
  let _charsets ← b.announceCharsets
  return b

def decsc (b : Buffers) : Buffers := { b with savedCharsets := b.charsets }

def decrc (b : Buffers) : Option Buffers := do
  let b := { b with charsets := b.savedCharsets }
  let _charsets ← b.announceCharsets
  return b

def parseString (b : Buffers) : Option Buffers := do
  let data ← b.strData.parsed
  return { b with strData := data.reset .none }

def control (c : Control) (b : Buffers) : Option Buffers :=
  match c with
  | .BEL => if b.strData.finished then b.parseString.map resetEscape else some b.resetEscape
  | .BS | .HT | .LF | .CR | .SO | .SI | .IND | .HTS | .RI => some b
  | .SUB | .CAN => some (b.resetEscape.resetString .none)
  | .ESC => some { b with mode := .esc }
  | .NEL | .DECID => some b.resetEscape
  | .DCS => some (b.openString .dcs)
  | .CSI => some { b.resetEscape with mode := .csi }
  | .OSC => some (b.openString .osc)
  | .PM => some (b.openString .pm)
  | .APC => some (b.openString .apc)

def handleControl (c : uchar) (b : Buffers) : Option Buffers :=
  match controlTable.lookup c with
  | some found => control found b
  | none => some b

def escape (c : Escape) (b : Buffers) : Option Buffers :=
  match c with
  | .CSI => some { b.resetEscape with mode := .csi }
  | .HASH => some { b.resetEscape with mode := .hash }
  | .UTF8 => some { b.resetEscape with mode := .utf8 }
  | .DCS => some (b.openString .dcs)
  | .APC => some (b.openString .apc)
  | .PM => some (b.openString .pm)
  | .OSC => some (b.openString .osc)
  | .title => some (b.openString .title).resetEscape
  | .LS2 | .LS3 | .IND | .NEL | .HTS | .RI | .DECID | .DECPAM | .DECPNM => some b.resetEscape
  | .RIS => b.ris.map resetEscape
  | .DECSC => some b.decsc.resetEscape
  | .DECRC => b.decrc.map resetEscape
  | .charset n => some { b.resetEscape with definingCharset := n, mode := .charset }
  | .ST => if b.strData.finished then b.parseString.map resetEscape else some b.resetEscape

def handleEsc (c : uchar) (b : Buffers) : Option Buffers :=
  match escapeTable.lookup c with
  | some found => escape found b
  | none => some b.resetEscape

/-- `set_modes` and `reset_modes`: the change of columns resets the cursor. -/
def changeModes (args : List Int) (b : Buffers) : Buffers :=
  if b.csiData.decMode ∧ 3 ∈ args then { b with charsets := Vector.replicate 4 .us } else b

/-- The cases of `handle_csi`, after they have read their arguments. -/
def final (c : Final) (args : List Int) (b : Buffers) : Option Buffers :=
  match c with
  | .SM | .RM => some (b.changeModes args)
  | .DECSC => some b.decsc
  | .DECRC => b.decrc
  | _ => some b

def handleCsi (c : uchar) (b : Buffers) : Option Buffers :=
  if b.csiData.spaceLeft then do
    let (data, used) ← b.csiData.addArg c
    if used then return { b with csiData := data }
    else
      match finalTable.lookup c with
      | some found =>
        let args ← data.arguments
        let b ← final found args b
        return b.resetEscape
      | none => return b.resetEscape
  else some b.resetEscape

def handleCharset (c : uchar) (b : Buffers) : Option Buffers :=
  match charsetTable.lookup c with
  | some cs => do
    let cells ← store b.charsets b.definingCharset cs
    let _charset ← cells[b.definingCharset]?
    return resetEscape { b with charsets := cells }
  | none => some b.resetEscape

def handleUtf8 (c : uchar) (b : Buffers) : Buffers :=
  if c = byte '@' then resetEscape (resetUtf8Buffer { b with utf8 := false })
  else if c = byte 'G' then resetEscape (resetUtf8Buffer { b with utf8 := true })
  else b.resetEscape

/-- `handle_string`, with its result. -/
def handleString (c : uchar) (b : Buffers) : Option (Buffers × Bool) :=
  if c = 0x07 || c = 0x18 || c = 0x1a || c = 0x1b || isControlC1 c then
    some ({ b.resetEscape with strData := { b.strData with finished := true } }, false)
  else do
    match ← b.strData.addChar c with
    | some data => return ({ b with strData := data }, true)
    | none => return (b.resetEscape.resetString .none, true)

def handleText (c : uchar) (b : Buffers) : Option Buffers :=
  if b.utf8 then
    if b.nextUtf8 = 7 then some b.resetUtf8Buffer
    else do
      let cells ← store b.utf8Buffer b.nextUtf8 c
      let b := { b with utf8Buffer := cells, nextUtf8 := b.nextUtf8 + 1 }
      match ← utf8Scan b.utf8Buffer b.nextUtf8 0 0 0 with
      | some _codepoint => return b.resetUtf8Buffer
      | none => return b
  else some b

def dispatch (c : uchar) (b : Buffers) : Option Buffers :=
  if b.nextUtf8 = 0 ∧ isControl c then b.handleControl c
  else
    match b.mode with
    | .esc => b.handleEsc c
    | .csi => b.handleCsi c
    | .hash => some b.resetEscape
    | .charset => b.handleCharset c
    | .utf8 => some (b.handleUtf8 c)
    | .ground | .string => b.handleText c

/-- `VTE::process` on one byte. -/
def process (b : Buffers) (c : uchar) : Option Buffers :=
  if b.mode = .string then do
    let (b, used) ← b.handleString c
    if used then return b
    else b.dispatch c
  else b.dispatch c

/-- `VTE::reset`. -/
def reset (b : Buffers) : Option Buffers := b.ris

end Buffers

end Woterm.Terminal.Arrays
