import Woterm.Zmodem.Header

/-!
Data subpackets (`zm.c`): bytes, an end and a check, sent behind a header and read with the check that the format of
the header stands for.
-/

namespace Woterm.Zmodem.Data
open Woterm.Qt Woterm.Zmodem.Line Woterm.Zmodem.Header
open Woterm.Zmodem.Crc (Check check16 check32 trailer16 trailer32)

/-! ## Sending -/

/-- `ZDLE` and the end, which nothing escapes. -/
def sendEnd (o : Output) (frameend : UInt8) : Output := xsendline (xsendline o ZDLE) frameend

def uncorkData (o : Output) (frameend : UInt8) : Output := if frameend = ZCRCW then xsendline o XON else o

/-- The loop of `zsdata` from `buf` on, to the end of the array: a byte goes out before `--length` is looked at, which
is a `size_t`. Behind the array it has no result but what is already sent. -/
def sendBuf (e : Escaping) :
    QByteArray → Nat → Output → BitVec check16.width → Except Output (Output × BitVec check16.width)
  | [], _, o, _ => .error o
  | c :: buf, length, o, crc =>
    let o := zsendline e o c
    let crc := check16.enter crc c
    let length := if length = 0 then 2 ^ 64 - 1 else length - 1
    if length > 0 then sendBuf e buf length o crc else .ok (o, crc)

def zsdata (e : Escaping) (o : Output) (buf : QByteArray) (length : Nat) (frameend : UInt8) : Except Output Output := do
  let (o, crc) ← sendBuf e buf length o check16.init
  let o := sendEnd o frameend
  let crc := check16.enter crc frameend
  return uncorkData ((trailer16 crc).foldl (zsendline e) o) frameend

/-- A byte of the check in `zsda32`. -/
def sendCrc (e : Escaping) (o : Output) (c : UInt8) : Output := if !isControl c then sendlast o c else zsendline e o c

def zsda32 (e : Escaping) (o : Output) (buf : QByteArray) (frameend : UInt8) : Output :=
  let o := sendEnd (zsendlineS e o buf) frameend
  let crc := check32.enter (buf.foldl check32.enter check32.init) frameend
  uncorkData ((trailer32 crc).foldl (sendCrc e) o) frameend

/-- `ZSDATA`, by `Crc32t`. -/
def ZSDATA (e : Escaping) (crc32t : Bool) (o : Output) (buf : QByteArray) (length : Nat) (frameend : UInt8) :
    Except Output Output :=
  if crc32t then .ok (zsda32 e o (buf.take length) frameend) else zsdata e o buf length frameend

/-! ## Receiving -/

variable (ctlesc : Bool) (e : Escaping) (check : Check) (frameend : UInt8)

theorem readBytes_shorter (n : Nat) (line : QByteArray) (c : UInt8)
    (stopped : (readBytes (zdlread ctlesc) n line).2.1 = some (.frameEnd c)) :
    (readBytes (zdlread ctlesc) n line).2.2.length < line.length := by
  induction n generalizing line with
  | zero => cases stopped
  | succ n ih =>
    have taken := zdlread_suffix ctlesc line
    rw [readBytes] at stopped ⊢
    split at stopped
    next b rest read =>
      rw [read] at taken
      exact Nat.lt_of_lt_of_le (ih rest stopped) (taken.trans (List.tail_suffix line)).length_le
    next stop rest _ read =>
      rw [read] at taken
      cases line with
      | nil =>
        have finished : stop = .timeout := (congrArg Prod.fst read).symm
        rw [finished] at stopped
        cases stopped
      | cons head line =>
        obtain rfl := Option.some.inj stopped
        exact Nat.lt_succ_of_le taken.length_le

/-- From `crcfoo` on, with an end `d`. Another end among the bytes of the check takes its place. -/
def crcfoo (check : Check) (ctlesc : Bool) (d : UInt8) (crc : BitVec check.width) (line : QByteArray) :
    Reading × QByteArray :=
  let crc := check.enter crc d
  match _ : readBytes (zdlread ctlesc) check.count line with
  | (bytes, none, rest) => (if bytes.foldl check.enter crc = check.good then .frameEnd d else .error, rest)
  | (bytes, some (.frameEnd c), rest) => crcfoo check ctlesc c (bytes.foldl check.enter crc) rest
  | (_, some stop, rest) => (stop, rest)
termination_by line.length
decreasing_by
  rename_i read
  have shorter := readBytes_shorter ctlesc check.count line c
  rw [read] at shorter
  exact shorter rfl

/-- What `zrdata` returns and stores. The code `can` stands for `ZCAN`. -/
structure Received where
  code : Reading
  buf : QByteArray
  bytesReceived : Nat
  line : QByteArray
deriving DecidableEq, Repr

/-- The loop of `zrdata` and `zrdat32`, with the number of rounds left. -/
def readData (check : Check) (ctlesc : Bool) : Nat → QByteArray → BitVec check.width → QByteArray → Received
  | 0, buf, _, line => { code := .error, buf, bytesReceived := 0, line }
  | rounds + 1, buf, crc, line =>
    match zdlread ctlesc line with
    | (.byte c, line) => readData check ctlesc rounds (buf ++ [c]) (check.enter crc c) line
    | (.frameEnd d, line) =>
      match crcfoo check ctlesc d crc line with
      | (.frameEnd d, line) => { code := .frameEnd d, buf, bytesReceived := buf.length, line }
      | (code, line) => { code, buf, bytesReceived := 0, line }
    | (code, line) => { code, buf, bytesReceived := 0, line }

/-- `while (buf <= end)` makes one round more than there are bytes asked for. -/
def zrdat32 (ctlesc : Bool) (length : Nat) (line : QByteArray) : Received :=
  readData check32 ctlesc (length + 1) [] check32.init line

def zrdata (ctlesc : Bool) (rxframeind : Option Frameind) (length : Nat) (line : QByteArray) : Received :=
  if rxframeind = some .bin32 then zrdat32 ctlesc length line
  else readData check16 ctlesc (length + 1) [] check16.init line

/-! ## One subpacket -/

/-- The ends of a subpacket. -/
def IsEnd (c : UInt8) : Prop := c = ZCRCE ∨ c = ZCRCG ∨ c = ZCRCQ ∨ c = ZCRCW

instance (c : UInt8) : Decidable (IsEnd c) := inferInstanceAs (Decidable (_ ∨ _))

theorem isEnd_ZCRCE : IsEnd ZCRCE := .inl rfl

theorem isEnd_ZCRCG : IsEnd ZCRCG := .inr (.inl rfl)

theorem isEnd_ZCRCW : IsEnd ZCRCW := .inr (.inr (.inr rfl))

theorem zdlread_end (ends : IsEnd frameend) (line : QByteArray) :
    zdlread ctlesc (ZDLE :: frameend :: line) = (.frameEnd frameend, line) := by
  rcases ends with rfl | rfl | rfl | rfl <;> rfl

theorem crcfoo_encodes (ctlesc : Bool) (d : UInt8) (crc : BitVec check.width) {code bytes : QByteArray}
    (encodes : Encodes (zdlread ctlesc) code bytes) (counted : bytes.length = check.count) (line : QByteArray) :
    crcfoo check ctlesc d crc (code ++ line) =
      (if bytes.foldl check.enter (check.enter crc d) = check.good then .frameEnd d else .error, line) := by
  have read := readBytes_encodes encodes line
  rw [counted] at read
  unfold crcfoo
  split
  all_goals
    rename_i found
    rw [read] at found
    cases found
  rfl

theorem readData_encodes (ctlesc : Bool) {code bytes : QByteArray} (encodes : Encodes (zdlread ctlesc) code bytes)
    (rounds : Nat) (buf : QByteArray) (crc : BitVec check.width) (line : QByteArray) :
    readData check ctlesc (rounds + bytes.length) buf crc (code ++ line) =
      readData check ctlesc rounds (buf ++ bytes) (bytes.foldl check.enter crc) line := by
  induction encodes generalizing buf crc with
  | nil => simp
  | cons carries _ ih =>
    rw [List.length_cons, ← Nat.add_assoc, readData, List.append_assoc, carries]
    simp only [ih, List.append_assoc, List.singleton_append, List.foldl_cons]

/-- The pieces of a subpacket on the line: what the loop makes of them depends on the check alone. -/
theorem readData_pieces (ctlesc : Bool) (length : Nat) {code crcCode buf crc : QByteArray}
    (encodes : Encodes (zdlread ctlesc) code buf) (frameend : UInt8) (ends : IsEnd frameend)
    (crcEncodes : Encodes (zdlread ctlesc) crcCode crc) (counted : crc.length = check.count)
    (fits : buf.length ≤ length) (line : QByteArray) :
    readData check ctlesc (length + 1) [] check.init (code ++ ZDLE :: frameend :: (crcCode ++ line)) =
      if (buf ++ frameend :: crc).foldl check.enter check.init = check.good then
        { code := .frameEnd frameend, buf, bytesReceived := buf.length, line }
      else { code := .error, buf, bytesReceived := 0, line } := by
  have rounds : length + 1 = length - buf.length + 1 + buf.length := by omega
  rw [rounds, readData_encodes check ctlesc encodes, readData, zdlread_end ctlesc frameend ends, List.nil_append]
  simp only [crcfoo_encodes check ctlesc frameend _ crcEncodes counted, List.foldl_append, List.foldl_cons]
  by_cases good : crc.foldl check.enter (check.enter (buf.foldl check.enter check.init) frameend) = check.good
  · simp only [if_pos good]
  · simp only [if_neg good]

/-- The check of a subpacket. -/
def closing (check : Check) (buf : QByteArray) (frameend : UInt8) : QByteArray :=
  check.trailer (check.enter (buf.foldl check.enter check.init) frameend)

theorem closing_good (buf : QByteArray) (frameend : UInt8) :
    (buf ++ frameend :: closing check buf frameend).foldl check.enter check.init = check.good := by
  rw [List.foldl_append, List.foldl_cons, closing, check.closes]

theorem sendCrc_eq : sendCrc e = zsendline e := by
  funext o c
  unfold sendCrc
  split
  next printable =>
    have plain : zsendlineTab e c = .plain := by rw [zsendlineTab, if_pos printable]
    rw [zsendline, plain]
  next => rfl

/-- What is left on the line behind a subpacket. -/
def uncorked (frameend : UInt8) : QByteArray := if frameend = ZCRCW then [XON] else []

/-- `ZSDATA` in one shape for both checks. -/
def sendPacket (e : Escaping) (check : Check) (o : Output) (buf : QByteArray) (frameend : UInt8) : Output :=
  uncorkData ((closing check buf frameend).foldl (zsendline e) (sendEnd (buf.foldl (zsendline e) o) frameend)) frameend

/-- The check that `Crc32t` or `Rxframeind` stands for. -/
def checkOf (crc32 : Bool) : Check := if crc32 then check32 else check16

theorem sendBuf_filled (c : UInt8) (buf behind : QByteArray) (o : Output) (crc : BitVec check16.width) :
    sendBuf e (c :: buf ++ behind) (buf.length + 1) o crc =
      .ok ((c :: buf).foldl (zsendline e) o, (c :: buf).foldl check16.enter crc) := by
  induction buf generalizing c o crc with
  | nil => rfl
  | cons next buf ih => exact ih next (zsendline e o c) (check16.enter crc c)

/-- From a length of 0 on, which becomes the greatest there is, the loop sends all that the array holds and leaves
it. -/
theorem sendBuf_leaves (buf : QByteArray) (length : Nat) (o : Output) (crc : BitVec check16.width)
    (outside : length = 0 ∧ buf.length < 2 ^ 64 ∨ buf.length < length) :
    sendBuf e buf length o crc = .error (buf.foldl (zsendline e) o) := by
  induction buf generalizing length o crc with
  | nil => rfl
  | cons c buf ih =>
    rw [List.length_cons] at outside
    have more : buf.length < if length = 0 then 2 ^ 64 - 1 else length - 1 := by split <;> omega
    rw [sendBuf, if_pos (Nat.zero_lt_of_lt more)]
    exact ih _ _ _ (.inr more)

theorem zsdata_runs_away (o : Output) (buf : QByteArray) (size : buf.length < 2 ^ 64) (frameend : UInt8) :
    zsdata e o buf 0 frameend = .error (buf.foldl (zsendline e) o) := by
  rw [zsdata, sendBuf_leaves e buf 0 o _ (.inl ⟨rfl, size⟩)]
  rfl

theorem ZSDATA_eq (crc32t : Bool) (o : Output) (buf behind : QByteArray) (frameend : UInt8)
    (filled : crc32t = true ∨ buf ≠ []) :
    ZSDATA e crc32t o (buf ++ behind) buf.length frameend =
      .ok (sendPacket e (checkOf crc32t) o buf frameend) := by
  cases crc32t with
  | true =>
    rw [ZSDATA, if_pos rfl, List.take_left', zsda32, zsendlineS_eq, sendCrc_eq]
    · rfl
    · rfl
  | false =>
    obtain ⟨c, buf, rfl⟩ := List.exists_cons_of_ne_nil (filled.resolve_left (by decide))
    rw [ZSDATA, if_neg (by decide), zsdata, List.length_cons, sendBuf_filled]
    rfl

theorem uncorkData_bytes (o : Output) (frameend : UInt8) :
    (uncorkData o frameend).bytes = o.bytes ++ uncorked frameend := by
  unfold uncorkData uncorked
  split
  · rfl
  · exact (List.append_nil _).symm

theorem zrdata_eq (ind : Option Frameind) (length : Nat) (line : QByteArray) :
    zrdata ctlesc ind length line =
      readData (checkOf (ind = some .bin32)) ctlesc (length + 1) [] (checkOf (ind = some .bin32)).init line := by
  match ind with
  | none | some .bin | some .hex | some .bin32 => rfl

/-- A subpacket with any bytes is received as it was sent, if sender and receiver mean the same check. -/
theorem sendPacket_read (ctlesc : Bool) (agreed : ctlesc = true → e.Full) (check : Check) (o : Output)
    (buf : QByteArray) (frameend : UInt8) (ends : IsEnd frameend) :
    ∃ code, (sendPacket e check o buf frameend).bytes = o.bytes ++ code ∧
      ∀ length line, buf.length ≤ length →
        readData check ctlesc (length + 1) [] check.init (code ++ line) =
          { code := .frameEnd frameend, buf, bytesReceived := buf.length, line := uncorked frameend ++ line } := by
  obtain ⟨code, written, encodes⟩ := zsendlines_encodes e ctlesc agreed o buf
  obtain ⟨crcCode, crcWritten, crcEncodes⟩ := zsendlines_encodes e ctlesc agreed
    (sendEnd (buf.foldl (zsendline e) o) frameend) (closing check buf frameend)
  refine ⟨code ++ ZDLE :: frameend :: (crcCode ++ uncorked frameend), ?_, fun length line fits => ?_⟩
  · rw [sendPacket, uncorkData_bytes, crcWritten, sendEnd, xsendline, xsendline, written]
    simp
  · have read := readData_pieces check ctlesc length encodes frameend ends crcEncodes (check.counted _) fits
      (uncorked frameend ++ line)
    rw [if_pos (closing_good check buf frameend)] at read
    simpa using read

/-- A stretch of changed bytes no longer than the check is noticed, wherever it lies: in the data, at the end or in
the check itself. -/
theorem zrdata_refuses (ctlesc : Bool) (ind : Option Frameind) (length : Nat) (buf : QByteArray) (frameend : UInt8)
    (code crcCode buf' crc' : QByteArray) (frameend' : UInt8) (encodes : Encodes (zdlread ctlesc) code buf')
    (ends : IsEnd frameend') (crcEncodes : Encodes (zdlread ctlesc) crcCode crc')
    (counted : crc'.length = (checkOf (ind = some .bin32)).count) (fits : buf'.length ≤ length)
    (front one two back : QByteArray)
    (sent : buf ++ frameend :: closing (checkOf (ind = some .bin32)) buf frameend = front ++ one ++ back)
    (got : buf' ++ frameend' :: crc' = front ++ two ++ back) (lengths : one.length = two.length)
    (short : one.length ≤ (checkOf (ind = some .bin32)).count) (changed : one ≠ two) (line : QByteArray) :
    zrdata ctlesc ind length (code ++ ZDLE :: frameend' :: (crcCode ++ line)) =
      { code := .error, buf := buf', bytesReceived := 0, line } := by
  generalize check_eq : checkOf (ind = some .bin32) = check at counted sent short
  have differ := check.detects check.init front one two back lengths short changed
  rw [← sent, closing_good, ← got] at differ
  rw [zrdata_eq, check_eq, readData_pieces check ctlesc length encodes frameend' ends crcEncodes counted fits,
    if_neg differ.symm]

theorem encodes_printable (bytes : QByteArray) (printable : ∀ c ∈ bytes, isControl c = false) :
    Encodes (zdlread ctlesc) bytes bytes := by
  induction bytes with
  | nil => exact .nil
  | cons c bytes ih =>
    exact .cons (carries_plain ctlesc c (.inl (printable c List.mem_cons_self)))
      (ih fun other member => printable other (List.mem_cons_of_mem c member))

theorem zrdata_refuses_letter :
    zrdata false none 10 ([66] ++ ZDLE :: ZCRCW :: ([227, 48] ++ [])) =
      { code := .error, buf := [66], bytesReceived := 0, line := [] } :=
  zrdata_refuses false none 10 [65] ZCRCW [66] [227, 48] [66] [227, 48] ZCRCW
    (encodes_printable false [66] (by decide)) (by decide) (encodes_printable false [227, 48] (by decide)) rfl
    (by decide) [] [65] [66] [ZCRCW, 227, 48] (by decide +kernel) rfl rfl (by decide +kernel) (by decide) []

/-! ## Whatever is on the line -/

/-- What calls of `zdlread` one after the other give, bytes and ends, and the line behind them. -/
inductive Gives (ctlesc : Bool) : QByteArray → QByteArray → QByteArray → Prop where
  | nil {line : QByteArray} : Gives ctlesc line [] line
  | cons {line next bytes rest : QByteArray} {c : UInt8} :
      zdlread ctlesc line = (.byte c, next) ∨ zdlread ctlesc line = (.frameEnd c, next) →
      Gives ctlesc next bytes rest → Gives ctlesc line (c :: bytes) rest

theorem Gives.append {ctlesc : Bool} {line middle rest one two : QByteArray} (first : Gives ctlesc line one middle)
    (second : Gives ctlesc middle two rest) : Gives ctlesc line (one ++ two) rest := by
  induction first with
  | nil => exact second
  | cons read _ ih => exact .cons read (ih second)

/-- What holds of a subpacket whatever the line holds. One that is accepted is all that `zdlread` gave: the bytes, then
the end and the check among what follows them. -/
structure Sound (check : Check) (ctlesc : Bool) (rounds : Nat) (crc : BitVec check.width) (before line : QByteArray)
    (got : Received) : Prop where
  behind : got.line <:+ line
  stored : ∃ bytes, got.buf = before ++ bytes ∧ bytes.length ≤ rounds ∧
    ∀ d, got.code = .frameEnd d → IsEnd d ∧ bytes.length < rounds ∧ got.bytesReceived = got.buf.length ∧
      ∃ tail : QByteArray, Gives ctlesc line (bytes ++ tail) got.line ∧ d ∈ tail ∧ check.count < tail.length ∧
        (bytes ++ tail).foldl check.enter crc = check.good
  nothing : (∀ d, got.code ≠ .frameEnd d) → got.bytesReceived = 0

/-- A subpacket to send. -/
structure Packet where
  buf : QByteArray
  frameend : UInt8
  ends : IsEnd frameend

/-- A header and the subpackets behind it. -/
structure Frame where
  head : Sent
  packets : List Packet

/-- `Crc32t`, which both `zsbhdr` and `zshhdr` set. -/
def Frame.crc32t (s : Sending) (frame : Frame) : Bool := frame.head.binary && s.fcs32

def sendFrame (s : Sending) (o : Output) (frame : Frame) : Except Output Output :=
  frame.packets.foldlM
    (fun o packet => ZSDATA s.escaping (frame.crc32t s) o packet.buf packet.buf.length packet.frameend)
    (send s o frame.head)

/-- Frames one after the other, each with what comes onto the line before it. -/
def sendFrames (s : Sending) : Output → List (QByteArray × Frame) → Except Output Output
  | o, [] => .ok o
  | o, (noise, frame) :: items => do
    let o ← sendFrame s { o with bytes := o.bytes ++ noise } frame
    sendFrames s o items

/-- Some calls of `zrdata` with the same `Rxframeind`. -/
def readPackets (ctlesc : Bool) (ind : Option Frameind) (length : Nat) :
    Nat → QByteArray → List (Reading × QByteArray) × QByteArray
  | 0, line => ([], line)
  | n + 1, line =>
    let got := zrdata ctlesc ind length line
    let (packets, line) := readPackets ctlesc ind length n got.line
    ((got.code, got.buf) :: packets, line)

/-- A call of `zgethdr` for each number, and this number of calls of `zrdata` behind it. -/
def readFrames (ctlesc : Bool) (garbage length : Nat) :
    List Nat → Hdr → QByteArray → List (Reading × Option Nat × List (Reading × QByteArray))
  | [], _, _ => []
  | n :: counts, old, line =>
    let got := zgethdr ctlesc garbage old line
    let (packets, line) := readPackets ctlesc got.frameind length n got.line
    (got.code, got.rxpos, packets) :: readFrames ctlesc garbage length counts got.hdr line

def Packet.seen (packet : Packet) : Reading × QByteArray := (.frameEnd packet.frameend, packet.buf)

def Frame.seen (frame : Frame) : Reading × Option Nat × List (Reading × QByteArray) :=
  (.byte frame.head.shown, some (rclhdr frame.head.hdr), frame.packets.map Packet.seen)

/-- Nothing, or the byte that uncorks. -/
def IsRest (rest : QByteArray) : Prop := rest = [] ∨ rest = [XON]

theorem isRest_uncorked : IsRest (uncorked frameend) := by
  unfold uncorked
  split
  · exact .inr rfl
  · exact .inl rfl

theorem isRest_left (sent : Sent) : IsRest sent.left := by
  unfold Sent.left uncork
  split_ifs
  · exact .inl rfl
  · exact .inr rfl
  · exact .inl rfl

theorem IsRest.skipped {rest : QByteArray} (small : IsRest rest) (ctlesc : Bool) :
    ∃ cost ≤ 1, Skipped ctlesc rest cost := by
  rcases small with rfl | rfl
  · exact ⟨0, Nat.zero_le 1, .nil ctlesc⟩
  · exact ⟨1, Nat.le_refl 1, skipped_byte ctlesc XON (by decide) (by decide) (by decide)⟩

/-- A byte that uncorks is passed over before data. -/
theorem IsRest.zrdata {rest : QByteArray} (small : IsRest rest) (ctlesc : Bool) (ind : Option Frameind) (length : Nat)
    (line : QByteArray) : zrdata ctlesc ind length (rest ++ line) = zrdata ctlesc ind length line := by
  rcases small with rfl | rfl
  · rfl
  · have skip : zdlread ctlesc (XON :: line) = zdlread ctlesc line := rfl
    rw [zrdata_eq, zrdata_eq, List.singleton_append, readData, skip, readData]

/-- The format in which a header is received stands for the check with which its data was sent. -/
theorem zgethdr_send (s : Sending) (ctlesc : Bool) (agreed : ctlesc = true → s.escaping.Full) (o : Output)
    (frame : Frame) :
    ∃ code, (send s o frame.head).bytes = o.bytes ++ code ∧
      ∀ garbage noise cost old line, Skipped ctlesc noise cost → cost + s.nulls < garbage →
        ∃ ind, decide (ind = some .bin32) = frame.crc32t s ∧
          zgethdr ctlesc garbage old (noise ++ (code ++ line)) =
            { code := .byte frame.head.shown, hdr := frame.head.hdr, rxpos := some (rclhdr frame.head.hdr),
              frameind := ind, line := frame.head.left ++ line } := by
  obtain ⟨⟨binary, type, hdr⟩, packets⟩ := frame
  cases binary with
  | true =>
    obtain ⟨code, written, read⟩ := zsbhdr_read s ctlesc agreed o type hdr
    refine ⟨code, written, fun garbage noise cost old line skipped short =>
      ⟨some s.frameind, ?_, read garbage noise cost old line skipped short⟩⟩
    obtain ⟨escaping, fcs32, nulls⟩ := s
    cases fcs32 <;> rfl
  | false =>
    obtain ⟨code, written, read⟩ := zshhdr_read ctlesc o type hdr
    exact ⟨code, written, fun garbage noise cost old line skipped short =>
      ⟨some .hex, rfl, read garbage noise cost old line skipped (by omega)⟩⟩

theorem readPackets_send (ctlesc : Bool) (agreed : ctlesc = true → e.Full) (crc32t : Bool) (length : Nat)
    (packets : List Packet) (filled : ∀ packet ∈ packets, crc32t = true ∨ packet.buf ≠ [])
    (fits : ∀ packet ∈ packets, packet.buf.length ≤ length) (o : Output) :
    ∃ code last,
      packets.foldlM (fun o packet => ZSDATA e crc32t o packet.buf packet.buf.length packet.frameend) o = .ok last ∧
      last.bytes = o.bytes ++ code ∧
      ∀ ind rest line, decide (ind = some .bin32) = crc32t → IsRest rest → ∃ behind, IsRest behind ∧
        readPackets ctlesc ind length packets.length (rest ++ (code ++ line)) =
          (packets.map Packet.seen, behind ++ line) := by
  induction packets generalizing o with
  | nil => exact ⟨[], o, rfl, (List.append_nil _).symm, fun _ rest line _ small => ⟨rest, small, rfl⟩⟩
  | cons packet packets ih =>
    obtain ⟨code, written, read⟩ := sendPacket_read e ctlesc agreed (checkOf crc32t) o packet.buf packet.frameend
      packet.ends
    obtain ⟨codes, last, sent, lastBytes, reads⟩ := ih
      (fun other member => filled other (List.mem_cons_of_mem packet member))
      (fun other member => fits other (List.mem_cons_of_mem packet member))
      (sendPacket e (checkOf crc32t) o packet.buf packet.frameend)
    refine ⟨code ++ codes, last, ?_, ?_, fun ind rest line same small => ?_⟩
    · have first := ZSDATA_eq e crc32t o packet.buf [] packet.frameend (filled packet List.mem_cons_self)
      rw [List.append_nil] at first
      rw [List.foldlM_cons, first]
      exact sent
    · rw [lastBytes, written, List.append_assoc]
    · obtain ⟨behind, ended, later⟩ := reads ind (uncorked packet.frameend) line same (isRest_uncorked packet.frameend)
      refine ⟨behind, ended, ?_⟩
      have first : zrdata ctlesc ind length (rest ++ (code ++ (codes ++ line))) =
          { code := .frameEnd packet.frameend, buf := packet.buf, bytesReceived := packet.buf.length,
            line := uncorked packet.frameend ++ (codes ++ line) } := by
        rw [small.zrdata, zrdata_eq, same]
        exact read length (codes ++ line) (fits packet List.mem_cons_self)
      rw [List.length_cons, readPackets, List.append_assoc, first]
      simp only [later, List.map_cons, Packet.seen]

theorem readFrames_sendFrames_from (s : Sending) (ctlesc : Bool) (agreed : ctlesc = true → s.escaping.Full)
    (garbage length : Nat) (items : List (QByteArray × Frame)) (clean : ∀ item ∈ items, Noise item.1)
    (short : ∀ item ∈ items, item.1.length + 1 + s.nulls < garbage)
    (filled : ∀ item ∈ items, ∀ packet ∈ item.2.packets, item.2.crc32t s = true ∨ packet.buf ≠ [])
    (fits : ∀ item ∈ items, ∀ packet ∈ item.2.packets, packet.buf.length ≤ length) (o : Output) :
    ∃ code last, sendFrames s o items = .ok last ∧ last.bytes = o.bytes ++ code ∧
      ∀ rest old, IsRest rest →
        readFrames ctlesc garbage length (items.map fun item => item.2.packets.length) old (rest ++ code) =
          items.map fun item => item.2.seen := by
  induction items generalizing o with
  | nil => exact ⟨[], o, rfl, (List.append_nil _).symm, fun _ _ _ => rfl⟩
  | cons item items ih =>
    obtain ⟨noise, frame⟩ := item
    obtain ⟨headCode, headWritten, headRead⟩ := zgethdr_send s ctlesc agreed { o with bytes := o.bytes ++ noise } frame
    have spare : noise.length + 1 + s.nulls < garbage := short (noise, frame) List.mem_cons_self
    obtain ⟨dataCode, middle, dataSent, dataWritten, dataRead⟩ := readPackets_send s.escaping ctlesc agreed
      (frame.crc32t s) length frame.packets (filled (noise, frame) List.mem_cons_self)
      (fits (noise, frame) List.mem_cons_self) (send s { o with bytes := o.bytes ++ noise } frame.head)
    obtain ⟨codes, last, laterSent, lastBytes, laterRead⟩ := ih
      (fun other member => clean other (List.mem_cons_of_mem _ member))
      (fun other member => short other (List.mem_cons_of_mem _ member))
      (fun other member => filled other (List.mem_cons_of_mem _ member))
      (fun other member => fits other (List.mem_cons_of_mem _ member)) middle
    refine ⟨noise ++ (headCode ++ (dataCode ++ codes)), last, ?_, ?_, fun rest old small => ?_⟩
    · rw [sendFrames, sendFrame, dataSent]
      exact laterSent
    · rw [lastBytes, dataWritten, headWritten]
      simp
    · obtain ⟨cost, cheap, skipped⟩ := small.skipped ctlesc
      have passed := (clean (noise, frame) List.mem_cons_self).skipped ctlesc
      obtain ⟨ind, same, header⟩ := headRead garbage (rest ++ noise) (cost + noise.length) old (dataCode ++ codes)
        (skipped.append passed) (by omega)
      obtain ⟨behind, ended, packets⟩ := dataRead ind frame.head.left codes same (isRest_left frame.head)
      rw [List.append_assoc] at header
      rw [List.map_cons, readFrames, header]
      simp only [packets, laterRead behind frame.head.hdr ended, List.map_cons, Frame.seen]

/-- Whatever frames are sent in whatever formats, with noise before their headers, they are received in their order,
with their positions and all of their data. An empty subpacket needs the 32 bit check. -/
theorem readFrames_sendFrames (s : Sending) (ctlesc : Bool) (agreed : ctlesc = true → s.escaping.Full)
    (garbage length : Nat) (items : List (QByteArray × Frame)) (clean : ∀ item ∈ items, Noise item.1)
    (short : ∀ item ∈ items, item.1.length + 1 + s.nulls < garbage)
    (filled : ∀ item ∈ items, ∀ packet ∈ item.2.packets, item.2.crc32t s = true ∨ packet.buf ≠ [])
    (fits : ∀ item ∈ items, ∀ packet ∈ item.2.packets, packet.buf.length ≤ length) (old : Hdr) (lastsent : UInt8) :
    ∃ last, sendFrames s { lastsent } items = .ok last ∧
      readFrames ctlesc garbage length (items.map fun item => item.2.packets.length) old last.bytes =
        items.map fun item => item.2.seen := by
  obtain ⟨code, last, sent, written, read⟩ :=
    readFrames_sendFrames_from s ctlesc agreed garbage length items clean short filled fits { lastsent }
  refine ⟨last, sent, ?_⟩
  rw [written]
  exact read [] old (.inl rfl)

/-- The request of `sz`, and a frame of data. -/
def greeting : List (QByteArray × Frame) :=
  [([114, 122, 13], ⟨⟨false, ZRQINIT, stohdr 0⟩, []⟩),
    ([], ⟨⟨true, ZDATA, stohdr 6168⟩, [⟨[24, 64, 13, 17], ZCRCG, isEnd_ZCRCG⟩, ⟨[], ZCRCW, isEnd_ZCRCW⟩]⟩)]

theorem readFrames_sendFrames_greeting :
    ∃ last, sendFrames ⟨⟨true, false⟩, true, 0⟩ { lastsent := 0 } greeting = .ok last ∧
      readFrames true 3800 8192 (greeting.map fun item => item.2.packets.length) (stohdr 0) last.bytes =
        greeting.map fun item => item.2.seen :=
  readFrames_sendFrames ⟨⟨true, false⟩, true, 0⟩ true (fun _ => by decide) 3800 8192 greeting
    (by unfold Noise greeting; decide) (by unfold greeting; decide) (by unfold greeting; simp [Frame.crc32t])
    (by unfold greeting; simp) (stohdr 0) 0

end Woterm.Zmodem.Data
