import Woterm.Zmodem
import Woterm.Zmodem.Crc
import Woterm.Zmodem.Line

/-!
Headers (`zm.c`): the type of a frame and four bytes, sent in one of three formats and found again behind whatever
else is on the line.
-/

namespace Woterm.Zmodem.Header
open Woterm.Qt Woterm.Zmodem.Line
open Woterm.Zmodem.Crc (Check check16 check32)

def ZBIN : UInt8 := 65
def ZHEX : UInt8 := 66
def ZBIN32 : UInt8 := 67

/-- The types that the code of the headers itself knows. -/
def ZACK : UInt8 := 3
def ZFIN : UInt8 := 8
def ZDATA : UInt8 := 10
def ZCAN : UInt8 := 16

/-- `Rxhdr` or `Txhdr`, `ZP0` first. -/
abbrev Hdr := Vector UInt8 4

def stohdr (pos : Nat) : Hdr := Vector.ofFn fun i => UInt8.ofNat (pos >>> (8 * i.val))

def rclhdr (hdr : Hdr) : Nat :=
  ((hdr[3].toNat <<< 8 ||| hdr[2].toNat) <<< 8 ||| hdr[1].toNat) <<< 8 ||| hdr[0].toNat

/-! ## Sending -/

/-- The options `Txfcs32` and `Znulls` beside those of the line. -/
structure Sending where
  escaping : Escaping
  fcs32 : Bool
  nulls : Nat
deriving DecidableEq, Repr

/-- The type, the four bytes and the check of them. -/
def checked (check : Check) (type : UInt8) (hdr : Hdr) : QByteArray :=
  let bytes := type :: hdr.toList
  bytes ++ check.trailer (bytes.foldl check.enter check.init)

def zsbh16 (e : Escaping) (o : Output) (type : UInt8) (hdr : Hdr) : Output :=
  (checked check16 type hdr).foldl (zsendline e) (xsendline o ZBIN)

def zsbh32 (e : Escaping) (o : Output) (type : UInt8) (hdr : Hdr) : Output :=
  (checked check32 type hdr).foldl (zsendline e) (xsendline o ZBIN32)

def zsbhdr (s : Sending) (o : Output) (type : UInt8) (hdr : Hdr) : Output :=
  let o := if type = ZDATA then (List.replicate s.nulls 0).foldl xsendline o else o
  let o := xsendline (xsendline o ZPAD) ZDLE
  if s.fcs32 then zsbh32 s.escaping o type hdr else zsbh16 s.escaping o type hdr

def digits : Vector UInt8 16 := #v[48, 49, 50, 51, 52, 53, 54, 55, 56, 57, 97, 98, 99, 100, 101, 102]

def zputhex (c : UInt8) : QByteArray :=
  [digits.get (Fin.ofNat 16 ((c &&& 0xf0) >>> 4).toNat), digits.get (Fin.ofNat 16 (c &&& 0x0f).toNat)]

/-- What uncorks the other end, in case that a fake `XOFF` has stopped it. -/
def uncork (type : UInt8) : QByteArray := if type ≠ ZFIN ∧ type ≠ ZACK then [XON] else []

/-- The seventh bit and above are cut off for the line, but not for the choice of the end. -/
def zshhdr (o : Output) (type : UInt8) (hdr : Hdr) : Output :=
  { o with
    bytes := o.bytes ++ [ZPAD, ZPAD, ZDLE, ZHEX] ++ (checked check16 (type &&& 0x7f) hdr).flatMap zputhex ++
      [0x0d, 0x8a] ++ uncork type }

/-! ## Receiving -/

/-- What `noxrd7` passes over, the parity bit cut off. -/
def passed (ctlesc : Bool) (c : UInt8) : Bool :=
  c == XON || c == XOFF || ctlesc && isControl c && !(c == 0x0d || c == 0x0a || c == ZDLE)

def noxrd7 (ctlesc : Bool) : QByteArray → Option UInt8 × QByteArray
  | [] => (none, [])
  | c :: line => if passed ctlesc (c &&& 0x7f) then noxrd7 ctlesc line else (some (c &&& 0x7f), line)

/-- A digit as `zgeth1` reads it, which takes some other characters for digits, too. -/
def hexValue (c : UInt8) : Option Nat :=
  let n : Int := c.toNat - 48
  let n := if n > 9 then n - 39 else n
  if 0 ≤ n ∧ n < 16 then some n.toNat else none

def zgethex (ctlesc : Bool) (line : QByteArray) : Reading × QByteArray :=
  match noxrd7 ctlesc line with
  | (none, line) => (.timeout, line)
  | (some c, line) =>
    match hexValue c with
    | none => (.error, line)
    | some n =>
      match noxrd7 ctlesc line with
      | (none, line) => (.timeout, line)
      | (some c, line) =>
        match hexValue c with
        | none => (.error, line)
        | some m => (.byte (UInt8.ofNat (m + n <<< 4)), line)

/-- Some bytes, up to the first thing that is none. -/
def readBytes (read : QByteArray → Reading × QByteArray) : Nat → QByteArray →
    QByteArray × Option Reading × QByteArray
  | 0, line => ([], none, line)
  | n + 1, line =>
    match read line with
    | (.byte c, line) =>
      let (bytes, stop, line) := readBytes read n line
      (c :: bytes, stop, line)
    | (stop, line) => ([], some stop, line)

/-- The four bytes are stored as they come, whatever happens behind them. -/
def storeHdr (hdr : Hdr) (bytes : QByteArray) : Hdr := Vector.ofFn fun i => bytes[i.val + 1]?.getD (hdr.get i)

def readHeader (check : Check) (read : QByteArray → Reading × QByteArray) (hdr : Hdr) (line : QByteArray) :
    Reading × Hdr × QByteArray :=
  let (bytes, stop, line) := readBytes read (5 + check.count) line
  let hdr := storeHdr hdr bytes
  match stop, bytes with
  | some stop, _ => (stop, hdr, line)
  | none, [] => (.error, hdr, line)
  | none, type :: _ =>
    if bytes.foldl check.enter check.init = check.good then (.byte type, hdr, line) else (.error, hdr, line)

def zrbhdr (ctlesc : Bool) : Hdr → QByteArray → Reading × Hdr × QByteArray := readHeader check16 (zdlread ctlesc)

def zrbhdr32 (ctlesc : Bool) : Hdr → QByteArray → Reading × Hdr × QByteArray := readHeader check32 (zdlread ctlesc)

/-- One byte behind the header is taken, and one more behind a carriage return. -/
def dropEnd : QByteArray → QByteArray
  | [] => []
  | c :: line => if c = 0x8d ∨ c = 0x0d then line.drop 1 else line

def zrhhdr (ctlesc : Bool) (hdr : Hdr) (line : QByteArray) : Reading × Hdr × QByteArray :=
  match readHeader check16 (zgethex ctlesc) hdr line with
  | (.byte type, hdr, line) => (.byte type, hdr, dropEnd line)
  | failed => failed

/-- `Rxframeind`. -/
inductive Frameind where
  | bin
  | hex
  | bin32
deriving DecidableEq, Repr

/-- Where `zgethdr` stands: at `again`, behind a `CAN`, at `splat` or behind the `ZDLE` of a header. The number is
`cancount`. -/
inductive Place where
  | again (cancount : Nat)
  | gotcan (cancount : Nat)
  | splat
  | frame
deriving DecidableEq, Repr

/-- What the search for a header ends with. -/
inductive Found where
  | header (ind : Frameind)
  | code (code : Reading)
  | exceeded
deriving DecidableEq, Repr

inductive Next where
  | go (place : Place) (garbage : Nat)
  | stop (found : Found)
deriving DecidableEq, Repr

def agn2 (garbage : Nat) : Next := if garbage - 1 = 0 then .stop .exceeded else .go (.again 5) (garbage - 1)

def gotcan (cancount garbage : Nat) : Next :=
  if cancount - 1 = 0 then .stop (.code (.byte ZCAN)) else .go (.gotcan (cancount - 1)) garbage

/-- One byte of the search. -/
def look (ctlesc : Bool) (garbage : Nat) (c : UInt8) : Place → Next
  | .again cancount =>
    if c = CAN then gotcan cancount garbage
    else if c = ZPAD ∨ c = ZPAD ||| 0x80 then .go .splat garbage
    else agn2 garbage
  | .gotcan cancount =>
    if c = ZCRCW then .stop (.code .error)
    else if c = CAN then
      if cancount - 1 = 0 then .stop (.code (.byte ZCAN)) else .go (.again (cancount - 1)) garbage
    else agn2 garbage
  | .splat =>
    if passed ctlesc (c &&& 0x7f) then .go .splat garbage
    else if c &&& 0x7f = ZPAD then .go .splat garbage
    else if c &&& 0x7f = ZDLE then .go .frame garbage
    else agn2 garbage
  | .frame =>
    if passed ctlesc (c &&& 0x7f) then .go .frame garbage
    else if c &&& 0x7f = ZBIN then .stop (.header .bin)
    else if c &&& 0x7f = ZBIN32 then .stop (.header .bin32)
    else if c &&& 0x7f = ZHEX then .stop (.header .hex)
    else if c &&& 0x7f = CAN then gotcan 5 garbage
    else agn2 garbage

def search (ctlesc : Bool) (place : Place) (garbage : Nat) : QByteArray → Found × QByteArray
  | [] => (.code .timeout, [])
  | c :: line =>
    match look ctlesc garbage c place with
    | .go place garbage => search ctlesc place garbage line
    | .stop found => (found, line)

/-- What `zgethdr` returns, and what it leaves in `hdr`, `*Rxpos` and `Rxframeind`. -/
structure Got where
  code : Reading
  hdr : Hdr
  rxpos : Option Nat
  frameind : Option Frameind
  line : QByteArray
deriving DecidableEq, Repr

def rxposOf (hdr : Hdr) : Nat :=
  ((hdr[3].toNat <<< 8 + hdr[2].toNat) <<< 8 + hdr[1].toNat) <<< 8 + hdr[0].toNat

def zrhdr (ctlesc : Bool) : Frameind → Hdr → QByteArray → Reading × Hdr × QByteArray
  | .bin => zrbhdr ctlesc
  | .bin32 => zrbhdr32 ctlesc
  | .hex => zrhhdr ctlesc

/-- `garbage` is `Zrwindow + Baudrate`. -/
def zgethdr (ctlesc : Bool) (garbage : Nat) (hdr : Hdr) (line : QByteArray) : Got :=
  match search ctlesc (.again 5) garbage line with
  | (.exceeded, line) => { code := .error, hdr, rxpos := none, frameind := none, line }
  | (.code code, line) => { code, hdr, rxpos := some 0, frameind := none, line }
  | (.header ind, line) =>
    let (code, hdr, line) := zrhdr ctlesc ind hdr line
    { code := if code = .can then .byte ZCAN else code, hdr, rxpos := some (rxposOf hdr), frameind := some ind, line }

/-! ## What is left of the line -/

variable (s : Sending) (ctlesc : Bool)

variable {read : QByteArray → Reading × QByteArray} (garbage : Nat) (line : QByteArray) (o : Output) (type : UInt8)
  (hdr : Hdr)

theorem noxrd7_suffix : (noxrd7 ctlesc line).2 <:+ line := by
  fun_induction noxrd7 ctlesc line with
  | case1 => exact List.suffix_rfl
  | case2 _ _ _ ih => exact ih.trans (List.suffix_cons _ _)
  | case3 => exact List.suffix_cons _ _

theorem zgethex_suffix : (zgethex ctlesc line).2 <:+ line := by
  have first := noxrd7_suffix ctlesc line
  rw [zgethex]
  split
  next read => rwa [read] at first
  next read =>
    rw [read] at first
    split
    next => exact first
    next =>
      have second := noxrd7_suffix ctlesc (noxrd7 ctlesc line).2
      rw [read] at second
      split
      next again =>
        rw [again] at second
        exact second.trans first
      next again =>
        rw [again] at second
        split <;> exact second.trans first

theorem readBytes_suffix (suffix : ∀ line, (read line).2 <:+ line) (n : Nat)
    (line : QByteArray) : (readBytes read n line).2.2 <:+ line := by
  induction n generalizing line with
  | zero => exact List.suffix_rfl
  | succ n ih =>
    have taken := suffix line
    rw [readBytes]
    split
    next found =>
      rw [found] at taken
      exact (ih _).trans taken
    next found => rwa [found] at taken

theorem readHeader_suffix (check : Check) (suffix : ∀ line, (read line).2 <:+ line) (hdr : Hdr) (line : QByteArray) :
    (readHeader check read hdr line).2.2 <:+ line := by
  have taken := readBytes_suffix suffix (5 + check.count) line
  rw [readHeader]
  split
  next found =>
    rw [found] at taken
    dsimp only
    split
    · exact taken
    · exact taken
    · split <;> exact taken

theorem dropEnd_suffix : dropEnd line <:+ line := by
  cases line with
  | nil => exact List.suffix_rfl
  | cons c line =>
    rw [dropEnd]
    split
    · exact (List.drop_suffix 1 line).trans (List.suffix_cons c line)
    · exact List.suffix_cons c line

theorem zrhdr_suffix (ind : Frameind) (hdr : Hdr) (line : QByteArray) : (zrhdr ctlesc ind hdr line).2.2 <:+ line := by
  have binary : ∀ line, (zdlread ctlesc line).2 <:+ line := fun line =>
    (zdlread_suffix ctlesc line).trans (List.tail_suffix line)
  cases ind with
  | bin => exact readHeader_suffix check16 binary hdr line
  | bin32 => exact readHeader_suffix check32 binary hdr line
  | hex =>
    have taken := readHeader_suffix check16 (zgethex_suffix ctlesc) hdr line
    rw [zrhdr, zrhhdr]
    split
    next found =>
      rw [found] at taken
      exact (dropEnd_suffix _).trans taken
    next => exact taken

theorem search_suffix (place : Place) (garbage : Nat) (line : QByteArray) :
    (search ctlesc place garbage line).2 <:+ line ∧
      ((search ctlesc place garbage line).1 ≠ .code .timeout →
        (search ctlesc place garbage line).2.length < line.length) := by
  induction line generalizing place garbage with
  | nil => exact ⟨List.suffix_rfl, fun other => absurd rfl other⟩
  | cons c line ih =>
    rw [search]
    split
    next place garbage _ =>
      obtain ⟨behind, shorter⟩ := ih place garbage
      exact ⟨behind.trans (List.suffix_cons c line), fun other => Nat.lt_succ_of_lt (shorter other)⟩
    next => exact ⟨List.suffix_cons c line, fun _ => Nat.lt_succ_self _⟩

/-- A header takes something from the line unless the line ends. -/
theorem zgethdr_suffix (line : QByteArray) :
    (zgethdr ctlesc garbage hdr line).line <:+ line ∧
      ((zgethdr ctlesc garbage hdr line).code ≠ .timeout →
        (zgethdr ctlesc garbage hdr line).line.length < line.length) := by
  obtain ⟨behind, shorter⟩ := search_suffix ctlesc (.again 5) garbage line
  rw [zgethdr]
  split
  next rest found =>
    rw [found] at behind shorter
    exact ⟨behind, fun _ => shorter nofun⟩
  next code rest found =>
    rw [found] at behind shorter
    exact ⟨behind, fun other => shorter fun finished => other (Found.code.inj finished)⟩
  next ind rest found =>
    rw [found] at behind shorter
    have taken := zrhdr_suffix ctlesc ind hdr rest
    exact ⟨taken.trans behind, fun _ => Nat.lt_of_le_of_lt taken.length_le (shorter nofun)⟩

/-! ## Positions -/

theorem rxposOf_eq_rclhdr : rxposOf hdr = rclhdr hdr := by
  have join : ∀ (high : Nat) (low : UInt8), high <<< 8 + low.toNat = high <<< 8 ||| low.toNat := fun high low =>
    Nat.shiftLeft_add_eq_or_of_lt low.toNat_lt high
  rw [rxposOf, rclhdr, join, join, join]

theorem rclhdr_stohdr (pos : Nat) : rclhdr (stohdr pos) = pos % 2 ^ 32 := by
  rw [← rxposOf_eq_rclhdr]
  simp only [rxposOf, stohdr, Vector.getElem_ofFn, UInt8.toNat_ofNat', Nat.shiftLeft_eq, Nat.shiftRight_eq_div_pow]
  omega

/-! ## Reading bytes -/

theorem readBytes_encodes {code bytes : QByteArray} (encodes : Encodes read code bytes) (line : QByteArray) :
    readBytes read bytes.length (code ++ line) = (bytes, none, line) := by
  induction encodes with
  | nil => rfl
  | cons carries _ ih =>
    rw [List.length_cons, readBytes, List.append_assoc, carries]
    simp only [ih]

theorem storeHdr_own (old hdr : Hdr) (type : UInt8) (back : QByteArray) :
    storeHdr old (type :: (hdr.toList ++ back)) = hdr := by
  apply Vector.ext
  intro i inside
  have here : (hdr.toList ++ back)[i]? = some hdr[i] := by
    rw [List.getElem?_append_left (by simpa using inside)]
    simp [inside]
  rw [storeHdr, Vector.getElem_ofFn, List.getElem?_cons_succ, here, Option.getD_some]

theorem length_checked (check : Check) : (checked check type hdr).length = 5 + check.count := by
  rw [checked, List.length_append, check.counted, List.length_cons, Vector.length_toList]

theorem readHeader_encodes (check : Check) {code : QByteArray}
    {type : UInt8} {hdr : Hdr} (encodes : Encodes read code (checked check type hdr)) (old : Hdr) (line : QByteArray) :
    readHeader check read old (code ++ line) = (.byte type, hdr, line) := by
  have bytes := readBytes_encodes encodes line
  rw [length_checked] at bytes
  have closes : (checked check type hdr).foldl check.enter check.init = check.good := by
    rw [checked, List.foldl_append, check.closes]
  rw [readHeader, bytes]
  change (if (checked check type hdr).foldl check.enter check.init = check.good then _ else _) = _
  rw [if_pos closes]
  exact congrArg (fun hdr => (Reading.byte type, hdr, line)) (storeHdr_own old hdr type _)

/-! ## Hexadecimal digits -/

theorem zputhex_carries (c : UInt8) : Carries (zgethex ctlesc) (zputhex c) c := by
  have digit : ∀ ctlesc, ∀ i : Fin 16, passed ctlesc (digits.get i &&& 0x7f) = false ∧
      hexValue (digits.get i &&& 0x7f) = some i.val := by decide +kernel
  have join : ∀ c : UInt8, UInt8.ofNat ((Fin.ofNat 16 (c &&& 0x0f).toNat).val +
      (Fin.ofNat 16 ((c &&& 0xf0) >>> 4).toNat).val <<< 4) = c := forall_byte (by decide +kernel)
  intro line
  have high := digit ctlesc (Fin.ofNat 16 ((c &&& 0xf0) >>> 4).toNat)
  have low := digit ctlesc (Fin.ofNat 16 (c &&& 0x0f).toNat)
  simp only [zgethex, zputhex, List.cons_append, List.nil_append, noxrd7, high.1, high.2, low.1, low.2,
    Bool.false_eq_true, if_false, join]

theorem zputhexs_encodes (bytes : QByteArray) : Encodes (zgethex ctlesc) (bytes.flatMap zputhex) bytes := by
  induction bytes with
  | nil => exact .nil
  | cons c bytes ih => exact .cons (zputhex_carries ctlesc c) ih

/-! ## The search -/

/-- Bytes that the search passes over, and what they cost of the garbage that it puts up with. -/
def Skipped (ctlesc : Bool) (noise : QByteArray) (cost : Nat) : Prop :=
  ∀ garbage line, cost < garbage →
    search ctlesc (.again 5) garbage (noise ++ line) = search ctlesc (.again 5) (garbage - cost) line

theorem Skipped.nil : Skipped ctlesc [] 0 := fun _ _ _ => rfl

theorem Skipped.append {ctlesc : Bool} {one two : QByteArray} {cost cost' : Nat} (first : Skipped ctlesc one cost)
    (second : Skipped ctlesc two cost') : Skipped ctlesc (one ++ two) (cost + cost') := by
  intro garbage line short
  rw [List.append_assoc, first garbage _ (by omega), second (garbage - cost) line (by omega), Nat.sub_sub]

theorem skipped_byte (c : UInt8) (noCan : c ≠ CAN) (noPad : c ≠ ZPAD) (noPad8 : c ≠ ZPAD ||| 0x80) :
    Skipped ctlesc [c] 1 := by
  intro garbage line short
  have step : look ctlesc garbage c (.again 5) = .go (.again 5) (garbage - 1) := by
    rw [look, if_neg noCan, if_neg (by simp [noPad, noPad8]), agn2, if_neg (by omega)]
  rw [List.singleton_append, search, step]

/-- Bytes of which none begins a header or counts for an abort. -/
def Noise (noise : QByteArray) : Prop := ∀ c ∈ noise, c ≠ CAN ∧ c ≠ ZPAD ∧ c ≠ ZPAD ||| 0x80

theorem Noise.skipped {noise : QByteArray} (clean : Noise noise) (ctlesc : Bool) :
    Skipped ctlesc noise noise.length := by
  induction noise with
  | nil => exact .nil ctlesc
  | cons c noise ih =>
    obtain ⟨noCan, noPad, noPad8⟩ := clean c List.mem_cons_self
    rw [List.length_cons, Nat.add_comm, ← List.singleton_append]
    exact (skipped_byte ctlesc c noCan noPad noPad8).append
      (ih fun other member => clean other (List.mem_cons_of_mem c member))

/-- The letter of a format. -/
def Frameind.letter : Frameind → UInt8
  | .bin => ZBIN
  | .hex => ZHEX
  | .bin32 => ZBIN32

theorem search_header (pads : Nat) (ind : Frameind) (line : QByteArray) :
    search ctlesc (.again 5) garbage (ZPAD :: (List.replicate pads ZPAD ++ ZDLE :: ind.letter :: line)) =
      (.header ind, line) := by
  have start : look ctlesc garbage ZPAD (.again 5) = .go .splat garbage := rfl
  have skip : search ctlesc .splat garbage (List.replicate pads ZPAD ++ ZDLE :: ind.letter :: line) =
      search ctlesc .splat garbage (ZDLE :: ind.letter :: line) := by
    induction pads with
    | zero => rfl
    | succ pads ih =>
      have stay : look ctlesc garbage ZPAD .splat = .go .splat garbage := by cases ctlesc <;> rfl
      rw [List.replicate_succ, List.cons_append, search, stay]
      exact ih
  have escape : look ctlesc garbage ZDLE .splat = .go .frame garbage := by cases ctlesc <;> rfl
  have letter : look ctlesc garbage ind.letter .frame = .stop (.header ind) := by cases ctlesc <;> cases ind <;> rfl
  rw [search, start]
  change search ctlesc .splat garbage _ = _
  rw [skip, search, escape]
  change search ctlesc .frame garbage _ = _
  rw [search, letter]

/-! ## One header -/

/-- A header that is on the line in one of the formats, with what precedes it and what is behind it. -/
theorem zgethdr_framed (old : Hdr) (noise : QByteArray) (cost : Nat)
    (skipped : Skipped ctlesc noise cost) (short : cost < garbage) (pads : Nat) (ind : Frameind)
    (code line rest : QByteArray) (type : UInt8) (hdr : Hdr)
    (read : zrhdr ctlesc ind old (code ++ line) = (.byte type, hdr, rest)) :
    zgethdr ctlesc garbage old
        (noise ++ ZPAD :: (List.replicate pads ZPAD ++ ZDLE :: ind.letter :: (code ++ line))) =
      { code := .byte type, hdr, rxpos := some (rclhdr hdr), frameind := some ind, line := rest } := by
  rw [zgethdr, skipped garbage _ short, search_header]
  simp [read, rxposOf_eq_rclhdr]

def Sending.frameind (s : Sending) : Frameind := if s.fcs32 then .bin32 else .bin

def Sending.check (s : Sending) : Check := if s.fcs32 then check32 else check16

/-- The NULs before a header of data. -/
def Sending.lead (s : Sending) (type : UInt8) : QByteArray := if type = ZDATA then List.replicate s.nulls 0 else []

theorem foldl_xsendline (bytes : QByteArray) : bytes.foldl xsendline o = { o with bytes := o.bytes ++ bytes } := by
  induction bytes generalizing o with
  | nil => simp
  | cons c bytes ih => rw [List.foldl_cons, ih, xsendline, List.append_assoc, List.singleton_append]

theorem zsbhdr_eq :
    zsbhdr s o type hdr = (checked s.check type hdr).foldl (zsendline s.escaping)
      { o with bytes := o.bytes ++ (s.lead type ++ [ZPAD, ZDLE, s.frameind.letter]) } := by
  have start : (if type = ZDATA then (List.replicate s.nulls 0).foldl xsendline o else o) =
      { o with bytes := o.bytes ++ s.lead type } := by
    by_cases data : type = ZDATA
    · rw [if_pos data, foldl_xsendline, Sending.lead, if_pos data]
    · rw [if_neg data, Sending.lead, if_neg data, List.append_nil]
  rw [zsbhdr, start]
  obtain ⟨escaping, fcs32, nulls⟩ := s
  cases fcs32 <;>
    simp [zsbh16, zsbh32, xsendline, Sending.check, Sending.frameind, Frameind.letter]

theorem zrhdr_encodes {code : QByteArray} {type : UInt8} {hdr : Hdr}
    (encodes : Encodes (zdlread ctlesc) code (checked s.check type hdr)) (old : Hdr) (line : QByteArray) :
    zrhdr ctlesc s.frameind old (code ++ line) = (.byte type, hdr, line) := by
  obtain ⟨escaping, fcs32, nulls⟩ := s
  cases fcs32 <;> exact readHeader_encodes _ encodes old line

theorem noise_lead : Noise (s.lead type) := by
  intro c member
  have zero : c = 0 := by
    unfold Sending.lead at member
    split at member
    · exact List.eq_of_mem_replicate member
    · cases member
  rw [zero]
  decide

theorem length_lead : (s.lead type).length ≤ s.nulls := by
  unfold Sending.lead
  split <;> simp

/-- A header, and whether it is sent in binary. -/
structure Sent where
  binary : Bool
  type : UInt8
  hdr : Hdr
deriving DecidableEq, Repr

def send (s : Sending) (o : Output) (sent : Sent) : Output :=
  if sent.binary then zsbhdr s o sent.type sent.hdr else zshhdr o sent.type sent.hdr

/-- The hexadecimal format has seven bits for the type. -/
def Sent.shown (sent : Sent) : UInt8 := if sent.binary then sent.type else sent.type &&& 0x7f

/-- What is still on the line behind a header that has been read. -/
def Sent.left (sent : Sent) : QByteArray := if sent.binary then [] else uncork sent.type

theorem zsbhdr_read (agreed : ctlesc = true → s.escaping.Full) (o : Output) (type : UInt8) (hdr : Hdr) :
    ∃ code, (zsbhdr s o type hdr).bytes = o.bytes ++ code ∧
      ∀ garbage noise cost old line, Skipped ctlesc noise cost → cost + s.nulls < garbage →
        zgethdr ctlesc garbage old (noise ++ (code ++ line)) =
          { code := .byte type, hdr, rxpos := some (rclhdr hdr), frameind := some s.frameind, line } := by
  obtain ⟨code, written, encodes⟩ := zsendlines_encodes s.escaping ctlesc agreed
    { o with bytes := o.bytes ++ (s.lead type ++ [ZPAD, ZDLE, s.frameind.letter]) } (checked s.check type hdr)
  refine ⟨s.lead type ++ ZPAD :: ZDLE :: s.frameind.letter :: code, ?_,
    fun garbage noise cost old line skipped short => ?_⟩
  · rw [zsbhdr_eq, written]
    simp
  · have fits := length_lead s type
    have found := zgethdr_framed ctlesc garbage old (noise ++ s.lead type) (cost + (s.lead type).length)
      (skipped.append ((noise_lead s type).skipped ctlesc)) (by omega) 0 s.frameind code line line type hdr
      (zrhdr_encodes s ctlesc encodes old line)
    simpa using found

theorem zshhdr_read :
    ∃ code, (zshhdr o type hdr).bytes = o.bytes ++ code ∧
      ∀ garbage noise cost old line, Skipped ctlesc noise cost → cost < garbage →
        zgethdr ctlesc garbage old (noise ++ (code ++ line)) =
          { code := .byte (type &&& 0x7f), hdr, rxpos := some (rclhdr hdr), frameind := some .hex,
            line := uncork type ++ line } := by
  refine ⟨[ZPAD, ZPAD, ZDLE, ZHEX] ++ ((checked check16 (type &&& 0x7f) hdr).flatMap zputhex ++
    ([0x0d, 0x8a] ++ uncork type)), by simp [zshhdr], fun garbage noise cost old line skipped short => ?_⟩
  have encodes := zputhexs_encodes ctlesc (checked check16 (type &&& 0x7f) hdr)
  have read : zrhdr ctlesc .hex old ((checked check16 (type &&& 0x7f) hdr).flatMap zputhex ++
      ([0x0d, 0x8a] ++ (uncork type ++ line))) = (.byte (type &&& 0x7f), hdr, uncork type ++ line) := by
    rw [zrhdr, zrhhdr, readHeader_encodes check16 encodes old]
    rfl
  have found := zgethdr_framed ctlesc garbage old noise cost skipped short 1 .hex _ _ _ _ hdr read
  simpa [Frameind.letter] using found

/-! ## The announcement of a transfer -/

def ZRQINIT : UInt8 := 0
def ZRINIT : UInt8 := 1

theorem zputhex_low (low : type < 16) :
    ∃ c, zputhex (type &&& 0x7f) = [48, c] ∧
    answer c = if type = ZRINIT then 1 else if type = ZRQINIT then 0 else -1 := by
  have facts : ∀ type : UInt8, type < 16 → zputhex (type &&& 0x7f) = [48, (zputhex (type &&& 0x7f)).getLastD 0] ∧
      answer ((zputhex (type &&& 0x7f)).getLastD 0) =
        if type = ZRINIT then 1 else if type = ZRQINIT then 0 else -1 := forall_byte (by decide +kernel)
  exact ⟨_, facts type low⟩

/-- What the terminal takes for the start of a transfer: behind text without `ZPAD`, a header tells the receiver's and
the sender's first header from all others. -/
theorem isZmodemCommand_zshhdr (text rest : QByteArray) (type : UInt8) (hdr : Hdr) (lastsent : UInt8)
    (low : type < 16) (clean : ZPAD ∉ text) (near : text.length < 300) :
    isZmodemCommand false (text ++ (zshhdr { lastsent } type hdr).bytes ++ rest) =
      some (if type = ZRINIT then 1 else if type = ZRQINIT then 0 else -1) := by
  obtain ⟨c, shown, meaning⟩ := zputhex_low type low
  obtain ⟨after, found⟩ : ∃ after, text ++ (zshhdr { lastsent } type hdr).bytes ++ rest =
      text ++ header ++ c :: after := by
    refine ⟨(hdr.toList ++ check16.trailer (((type &&& 0x7f) :: hdr.toList).foldl check16.enter check16.init)).flatMap
      zputhex ++ ([0x0d, 0x8a] ++ (uncork type ++ rest)), ?_⟩
    simp only [zshhdr, checked, List.cons_append, List.flatMap_cons, shown]
    simp [header, ZPAD, ZDLE, ZHEX]
  have clear : Lib.Occurrence.Clear header (text ++ header ++ c :: after) text.length := by
    intro k before starts
    obtain ⟨tail, split⟩ := starts
    rw [List.append_assoc, List.drop_append_of_le_length before.le, List.drop_eq_getElem_cons before] at split
    have first : ZPAD = text[k] := (List.cons.inj split).1
    exact clean (first ▸ List.getElem_mem before)
  rw [found, isZmodemCommand_first _ text (c :: after) rfl near clear, List.headD_cons, meaning]

theorem isZmodemCommand_zshhdr_sz :
    isZmodemCommand false ([114, 122, 13] ++ (zshhdr {} ZRQINIT (stohdr 0)).bytes ++ []) = some 0 :=
  isZmodemCommand_zshhdr [114, 122, 13] [] ZRQINIT (stohdr 0) 0 (by decide) (by decide) (by decide)

end Woterm.Zmodem.Header
