import Woterm.Zmodem.Sender

/-!
The receiver of a file (`lrz.c`): `rzfile` from the point on where the file is open, with the blocks that it keeps for
later and the attention string that it answers errors with.
-/

namespace Woterm.Zmodem.Receiver
open Woterm.Qt Woterm.Zmodem.Line Woterm.Zmodem.Header Woterm.Zmodem.Data
open Woterm.Lib (Reaches)
open Woterm.Zmodem.Crc (check16)
open Woterm.Zmodem.Sender (Listening MAX_BLOCK ZSKIP ZNAK ZRPOS ZEOF)

def ZFILE : UInt8 := 4
def CPMEOF : UInt8 := 26

/-! ## The model -/

/-- A block that came out of its turn. -/
structure Oosb where
  pos : Nat
  data : QByteArray
deriving DecidableEq, Repr

/-- What is written to the sender: a header by `zshhdr`, or bytes of the attention string. -/
inductive Reply where
  | header (type : UInt8) (hdr : Hdr)
  | bytes (bytes : QByteArray)
deriving DecidableEq, Repr

/-- What `rzfile` returns. -/
inductive Verdict where
  | zeof
  | zskip
  | error
deriving DecidableEq, Repr

/-- Where `rzfile` stands: at the start of its loop, at `nxthdr`, at `skip_oosb`, at `moredata`, or in `zmputs` before
some bytes. -/
inductive Phase where
  | rpos
  | nxthdr
  | skipOosb
  | moredata
  | zmputs (s : QByteArray)
  | done (verdict : Verdict)
deriving DecidableEq, Repr

/-- The file's record and the file, the variables of the program and of `rzfile`, what is still to be read and what has
been written. -/
structure Rx where
  bytesReceived : Nat
  file : QByteArray
  eofSeen : Bool
  n : Nat
  anker : List Oosb
  rxhdr : Hdr
  frameind : Option Frameind
  line : QByteArray
  out : List Reply
deriving DecidableEq, Repr

/-- What does not change during a file: the line's options, `Thisbinary`, the array `Attn` and whether the file can be
closed. -/
structure Setting where
  listening : Listening
  thisbinary : Bool
  attn : QByteArray
  closes : Bool
deriving DecidableEq, Repr

/-- The attention string ends at its first NUL. -/
def Setting.attention (setting : Setting) : QByteArray := setting.attn.takeWhile (· ≠ 0)

/-- The text of a block, and whether `CPMEOF` ends it. -/
def textOf : QByteArray → QByteArray × Bool
  | [] => ([], false)
  | c :: rest =>
    if c = 0x0d then textOf rest
    else if c = CPMEOF then ([], true)
    else
      let (text, finished) := textOf rest
      (c :: text, finished)

def putsec (setting : Setting) (rx : Rx) (buf : QByteArray) : Rx :=
  if buf = [] then rx
  else if setting.thisbinary then { rx with file := rx.file ++ buf }
  else if rx.eofSeen then rx
  else { rx with file := rx.file ++ (textOf buf).1, eofSeen := (textOf buf).2 }

/-- `putsec`, and the bytes are counted. -/
def accept (setting : Setting) (rx : Rx) (buf : QByteArray) : Rx :=
  { putsec setting rx buf with bytesReceived := rx.bytesReceived + buf.length }

/-- A walk along the saved blocks up to one whose turn it is. Those whose turn is over are dropped on the way. -/
def walk (received : Nat) : List Oosb → List Oosb × Option Oosb
  | [] => ([], none)
  | block :: rest =>
    if block.pos = received then (block :: rest, some block)
    else
      let (kept, found) := walk received rest
      (if block.pos < received then kept else block :: kept, found)

def isPause (c : UInt8) : Bool := c == 0xdd || c == 0xde

/-- One round of the loop in `zmputs`: a pause is made, but the string stays where it is. -/
def zmputs (rx : Rx) (s : QByteArray) : Phase × Rx :=
  if s = [] then (.rpos, rx)
  else
    match s.dropWhile fun c => !isPause c with
    | [] => (.rpos, { rx with out := rx.out ++ [.bytes s] })
    | pause :: rest =>
      let before := s.takeWhile fun c => !isPause c
      (.zmputs (pause :: rest), if before = [] then rx else { rx with out := rx.out ++ [.bytes before] })

/-- `if (--n < 0) return MYERROR`. -/
def retry (rx : Rx) (go : Rx → Phase × Rx) : Phase × Rx :=
  if rx.n = 0 then (.done .error, rx) else go { rx with n := rx.n - 1 }

def hear (rx : Rx) (got : Got) : Rx := { rx with rxhdr := got.hdr, frameind := got.frameind, line := got.line }

def reply (rx : Rx) (type : UInt8) : Rx := { rx with out := rx.out ++ [.header type (stohdr rx.bytesReceived)] }

def readPacket (setting : Setting) (rx : Rx) : Received × Rx :=
  let got := zrdata setting.listening.ctlesc rx.frameind MAX_BLOCK rx.line
  (got, { rx with line := got.line })

def isFrameEnd : Reading → Bool
  | .frameEnd _ => true
  | _ => false

/-- A block that is ahead is kept. -/
def save (rx : Rx) (pos : Nat) (got : Received) : Rx :=
  if isFrameEnd got.code && rx.bytesReceived < pos then { rx with anker := ⟨pos, got.buf⟩ :: rx.anker } else rx

/-- A header in `rzfile`. -/
def onHeader (setting : Setting) (rx : Rx) : Phase × Rx :=
  let got := zgethdr setting.listening.ctlesc setting.listening.garbage rx.rxhdr rx.line
  let rx := hear rx got
  match got.code with
  | .timeout => retry rx fun rx => (.rpos, (readPacket setting rx).2)
  | .error => retry rx fun rx => (.zmputs setting.attention, rx)
  | .frameEnd _ | .can => (.done .error, rx)
  | .byte type =>
    if type = ZNAK then retry rx fun rx => (.rpos, (readPacket setting rx).2)
    else if type = ZFILE then (.rpos, (readPacket setting rx).2)
    else if type = ZEOF then
      if rclhdr rx.rxhdr ≠ rx.bytesReceived then (.nxthdr, rx)
      else (.done (if setting.closes then .zeof else .error), rx)
    else if type = ZSKIP then (.done .zskip, rx)
    else if type = ZDATA then
      if rclhdr rx.rxhdr ≠ rx.bytesReceived then
        retry rx fun rx =>
          let (got, rx) := readPacket setting rx
          (.zmputs setting.attention, save rx (rclhdr rx.rxhdr) got)
      else (.moredata, rx)
    else (.done .error, rx)

/-- A subpacket that follows the data so far. -/
def onPacket (setting : Setting) (rx : Rx) : Phase × Rx :=
  let (got, rx) := readPacket setting rx
  match got.code with
  | .byte _ => (.rpos, rx)
  | .can => (.done .error, rx)
  | .error => retry rx fun rx => (.zmputs setting.attention, rx)
  | .timeout => retry rx fun rx => (.rpos, rx)
  | .frameEnd d =>
    let rx := accept setting { rx with n := 20 } got.buf
    if d = ZCRCW then (.nxthdr, reply rx (ZACK ||| 0x80))
    else if d = ZCRCQ then (.moredata, reply rx ZACK)
    else if d = ZCRCG then (.moredata, rx)
    else (.nxthdr, rx)

def step (setting : Setting) : Phase × Rx → Phase × Rx
  | (.rpos, rx) => (.skipOosb, reply rx ZRPOS)
  | (.nxthdr, rx) =>
    match walk rx.bytesReceived rx.anker with
    | (anker, none) => (.skipOosb, { rx with anker })
    | (anker, some block) => (.nxthdr, accept setting { rx with anker } block.data)
  | (.skipOosb, rx) => onHeader setting rx
  | (.moredata, rx) => onPacket setting rx
  | (.zmputs s, rx) => zmputs rx s
  | (.done verdict, rx) => (.done verdict, rx)

/-- `rzfile` behind `procheader`, which has opened a file with some bytes in it. -/
def begin (file : QByteArray) (anker : List Oosb) (line : QByteArray) : Phase × Rx :=
  (.rpos,
    { bytesReceived := file.length, file, eofSeen := false, n := 20, anker, rxhdr := stohdr 0, frameind := none, line,
      out := [] })

/-! ## Pieces of the line -/

/-- A piece of line in which a header is found behind anything that can be passed over. -/
def HeaderCode (l : Listening) (ind : Frameind) (type : UInt8) (hdr : Hdr) (code : QByteArray) : Prop :=
  ∀ noise cost old line, Skipped l.ctlesc noise cost → cost < l.garbage →
    zgethdr l.ctlesc l.garbage old (noise ++ (code ++ line)) =
      { code := .byte type, hdr, rxpos := some (rclhdr hdr), frameind := some ind, line }

/-- A piece of line that is received as a subpacket. -/
def PacketCode (l : Listening) (ind : Frameind) (packet : Packet) (code : QByteArray) : Prop :=
  ∀ line,
    zrdata l.ctlesc (some ind) MAX_BLOCK (code ++ line) =
      { code := .frameEnd packet.frameend, buf := packet.buf, bytesReceived := packet.buf.length,
        line := uncorked packet.frameend ++ line }

inductive PacketCodes (l : Listening) (ind : Frameind) : List Packet → QByteArray → Prop where
  | nil : PacketCodes l ind [] []
  | cons {packet : Packet} {code : QByteArray} {packets : List Packet} {codes : QByteArray} :
      PacketCode l ind packet code → PacketCodes l ind packets codes →
        PacketCodes l ind (packet :: packets) (code ++ codes)

theorem headerCode_zsbhdr (s : Sending) (l : Listening) (agreed : l.ctlesc = true → s.escaping.Full)
    (quick : s.nulls = 0) (o : Output) (type : UInt8) (hdr : Hdr) :
    ∃ code, (zsbhdr s o type hdr).bytes = o.bytes ++ code ∧ HeaderCode l s.frameind type hdr code := by
  obtain ⟨code, written, read⟩ := zsbhdr_read s l.ctlesc agreed o type hdr
  exact ⟨code, written, fun noise cost old line skipped short =>
    read l.garbage noise cost old line skipped (by omega)⟩

theorem packetCode_sendPacket (e : Escaping) (l : Listening) (agreed : l.ctlesc = true → e.Full) (ind : Frameind)
    (o : Output) (packet : Packet) (small : packet.buf.length ≤ MAX_BLOCK) :
    ∃ code, (sendPacket e (checkOf (ind = .bin32)) o packet.buf packet.frameend).bytes = o.bytes ++ code ∧
      PacketCode l ind packet code := by
  obtain ⟨code, written, read⟩ := sendPacket_read e l.ctlesc agreed (checkOf (ind = .bin32)) o packet.buf
    packet.frameend packet.ends
  refine ⟨code, written, fun line => ?_⟩
  rw [zrdata_eq, show checkOf (some ind = some .bin32) = checkOf (ind = .bin32) by cases ind <;> rfl]
  exact read MAX_BLOCK line small

/-- A piece of line that is refused as a subpacket, and what is left of it. -/
def Breaks (l : Listening) (ind : Frameind) (damaged junk : QByteArray) : Prop :=
  ∀ line,
    (zrdata l.ctlesc (some ind) MAX_BLOCK (damaged ++ line)).code = .error ∧
      (zrdata l.ctlesc (some ind) MAX_BLOCK (damaged ++ line)).line = junk ++ line

/-- More data follows behind the subpacket. -/
def Continues (packet : Packet) : Prop := packet.frameend = ZCRCG ∨ packet.frameend = ZCRCQ

def dataOf (packets : List Packet) : QByteArray := packets.flatMap fun packet => packet.buf

/-- What a sender may put onto the line for a file from some place on: everything up to the end of the file, or
a part of it that breaks off, after which it starts again behind what has been received. The number is how often the
receiver still asks again. -/
inductive Transmission (l : Listening) (file : QByteArray) : Nat → Nat → QByteArray → Prop where
  | whole {n pos : Nat} {ind ind' : Frameind} {header code eof : QByteArray} {packets : List Packet} :
      HeaderCode l ind ZDATA (stohdr pos) header → Sender.Stream packets → PacketCodes l ind packets code →
      dataOf packets = file.drop pos → HeaderCode l ind' ZEOF (stohdr file.length) eof →
        Transmission l file n pos (header ++ (code ++ eof))
  | broken {n m pos cost : Nat} {ind : Frameind} {header code damaged junk line : QByteArray} {packets : List Packet} :
      HeaderCode l ind ZDATA (stohdr pos) header → (∀ packet ∈ packets, Continues packet) →
      PacketCodes l ind packets code → dataOf packets <+: file.drop pos → Breaks l ind damaged junk →
      Skipped l.ctlesc junk cost → cost < l.garbage → (if packets = [] then n else 20) = m + 1 →
      Transmission l file m (pos + (dataOf packets).length) line →
        Transmission l file n pos (header ++ (code ++ (damaged ++ line)))

/-! ## Data that arrives -/

/-- The state after some data. -/
def gain (rx : Rx) (buf line : QByteArray) (out : List Reply) : Rx :=
  { rx with bytesReceived := rx.bytesReceived + buf.length, file := rx.file ++ buf, n := 20, line, out }

variable {file : QByteArray} (setting : Setting) (rx : Rx)

theorem accept_binary (binary : setting.thisbinary = true) (rx : Rx) (buf : QByteArray) :
    accept setting rx buf = { rx with bytesReceived := rx.bytesReceived + buf.length, file := rx.file ++ buf } := by
  unfold accept putsec
  by_cases empty : buf = []
  · simp [empty]
  · rw [if_neg empty, if_pos binary]

theorem onPacket_continues (binary : setting.thisbinary = true) (rx : Rx) {ind : Frameind} {packet : Packet}
    {code : QByteArray} (coded : PacketCode setting.listening ind packet code) (same : rx.frameind = some ind)
    (line : QByteArray) (here : rx.line = code ++ line) (goes : Continues packet) :
    ∃ out, onPacket setting rx = (.moredata, gain rx packet.buf line out) := by
  have read := coded line
  rw [← here, ← same] at read
  rcases goes with ends | ends
  · rw [ends] at read
    refine ⟨rx.out, ?_⟩
    simp only [onPacket, readPacket, read, accept_binary setting binary]
    rfl
  · rw [ends] at read
    refine ⟨rx.out ++ [.header ZACK (stohdr (rx.bytesReceived + packet.buf.length))], ?_⟩
    simp only [onPacket, readPacket, read, accept_binary setting binary]
    rfl

theorem onPacket_last (binary : setting.thisbinary = true) (rx : Rx) {ind : Frameind} {packet : Packet}
    {code : QByteArray} (coded : PacketCode setting.listening ind packet code) (same : rx.frameind = some ind)
    (line : QByteArray) (here : rx.line = code ++ line) (ends : packet.frameend = ZCRCE) :
    onPacket setting rx = (.nxthdr, gain rx packet.buf line rx.out) := by
  have read := coded line
  rw [← here, ← same, ends] at read
  simp only [onPacket, readPacket, read, accept_binary setting binary]
  rfl

theorem moredata_continues (binary : setting.thisbinary = true) {ind : Frameind} {packets : List Packet}
    {code : QByteArray} (coded : PacketCodes setting.listening ind packets code)
    (goes : ∀ packet ∈ packets, Continues packet) (rx : Rx) (same : rx.frameind = some ind) (line : QByteArray)
    (here : rx.line = code ++ line) :
    ∃ after, Reaches (step setting) (.moredata, rx) (.moredata, after) ∧
      after.bytesReceived = rx.bytesReceived + (dataOf packets).length ∧ after.file = rx.file ++ dataOf packets ∧
      after.n = (if packets = [] then rx.n else 20) ∧ after.anker = rx.anker ∧ after.frameind = some ind ∧
      after.line = line := by
  induction coded generalizing rx with
  | nil => exact ⟨rx, .refl _, rfl, (List.append_nil _).symm, rfl, rfl, same, here⟩
  | @cons packet code packets codes first _ ih =>
    obtain ⟨out, taken⟩ := onPacket_continues setting binary rx first same (codes ++ line)
      (by rw [here, List.append_assoc]) (goes packet List.mem_cons_self)
    obtain ⟨after, reached, received, file, retries, anker, kept, left⟩ :=
      ih (fun other member => goes other (List.mem_cons_of_mem packet member)) (gain rx packet.buf (codes ++ line) out)
        same rfl
    refine ⟨after, reached.head taken, ?_, ?_, ?_, anker, kept, left⟩
    · rw [received, gain, dataOf, dataOf, List.flatMap_cons, List.length_append, Nat.add_assoc]
    · rw [file, gain, dataOf, dataOf, List.flatMap_cons, List.append_assoc]
    · rw [retries, if_neg (List.cons_ne_nil _ _)]
      exact ite_self _

theorem moredata_stream (binary : setting.thisbinary = true) {ind : Frameind} {packets : List Packet}
    {code : QByteArray} (coded : PacketCodes setting.listening ind packets code) (stream : Sender.Stream packets)
    (rx : Rx) (same : rx.frameind = some ind) (line : QByteArray) (here : rx.line = code ++ line) :
    ∃ after, Reaches (step setting) (.moredata, rx) (.nxthdr, after) ∧
      after.bytesReceived = rx.bytesReceived + (dataOf packets).length ∧ after.file = rx.file ++ dataOf packets ∧
      after.anker = rx.anker ∧ after.line = line := by
  induction stream generalizing rx code with
  | @last packet ends =>
    obtain _ | ⟨first, nothing⟩ := coded
    cases nothing
    have taken := onPacket_last setting binary rx first same line (by rw [here, List.append_nil]) ends
    refine ⟨gain rx packet.buf line rx.out, .of_step taken, ?_, ?_, rfl, rfl⟩
    · rw [gain, dataOf, List.flatMap_singleton]
    · rw [gain, dataOf, List.flatMap_singleton]
  | @more packet packets ends _ ih =>
    obtain _ | ⟨first, others⟩ := coded
    rename_i code codes
    obtain ⟨out, taken⟩ := onPacket_continues setting binary rx first same (codes ++ line)
      (by rw [here, List.append_assoc]) (.inl ends)
    obtain ⟨after, reached, received, file, anker, left⟩ :=
      ih others (gain rx packet.buf (codes ++ line) out) same rfl
    refine ⟨after, reached.head taken, ?_, ?_, anker, left⟩
    · rw [received, gain, dataOf, dataOf, List.flatMap_cons, List.length_append, Nat.add_assoc]
    · rw [file, gain, dataOf, dataOf, List.flatMap_cons, List.append_assoc]

/-! ## Headers and errors -/

theorem onHeader_data {ind : Frameind} {header front line : QByteArray} {cost : Nat}
    (coded : HeaderCode setting.listening ind ZDATA (stohdr rx.bytesReceived) header) (low : rx.bytesReceived < 2 ^ 32)
    (skipped : Skipped setting.listening.ctlesc front cost) (short : cost < setting.listening.garbage)
    (here : rx.line = front ++ (header ++ line)) :
    onHeader setting rx =
      (.moredata, { rx with rxhdr := stohdr rx.bytesReceived, frameind := some ind, line }) := by
  have read := coded front cost rx.rxhdr line skipped short
  have place : rclhdr (stohdr rx.bytesReceived) = rx.bytesReceived := by rw [rclhdr_stohdr, Nat.mod_eq_of_lt low]
  rw [← here] at read
  simp only [onHeader, read, hear, place, ne_eq, not_true_eq_false, if_false]
  rfl

theorem onHeader_eof (closes : setting.closes = true) (rx : Rx) {ind : Frameind} {header : QByteArray}
    (coded : HeaderCode setting.listening ind ZEOF (stohdr rx.bytesReceived) header) (low : rx.bytesReceived < 2 ^ 32)
    (patient : 0 < setting.listening.garbage) (line : QByteArray) (here : rx.line = header ++ line) :
    onHeader setting rx =
      (.done .zeof, { rx with rxhdr := stohdr rx.bytesReceived, frameind := some ind, line }) := by
  have read := coded [] 0 rx.rxhdr line (.nil _) patient
  have place : rclhdr (stohdr rx.bytesReceived) = rx.bytesReceived := by rw [rclhdr_stohdr, Nat.mod_eq_of_lt low]
  rw [List.nil_append, ← here] at read
  simp only [onHeader, read, hear, place, ne_eq, not_true_eq_false, if_false, closes]
  rfl

theorem zmputs_plain (s : QByteArray) (plain : ∀ c ∈ s, isPause c = false) :
    ∃ out, zmputs rx s = (.rpos, { rx with out }) := by
  unfold zmputs
  by_cases empty : s = []
  · exact ⟨rx.out, if_pos empty⟩
  · have all : (s.dropWhile fun c => !isPause c) = [] := by
      rw [List.dropWhile_eq_nil_iff]
      intro c member
      rw [plain c member]
      rfl
    rw [if_neg empty, all]
    exact ⟨_, rfl⟩

theorem onPacket_broken {ind : Frameind} {damaged junk line : QByteArray}
    (breaks : Breaks setting.listening ind damaged junk) (same : rx.frameind = some ind)
    (here : rx.line = damaged ++ line) (m : Nat) (left : rx.n = m + 1) :
    onPacket setting rx = (.zmputs setting.attention, { rx with n := m, line := junk ++ line }) := by
  obtain ⟨code, rest⟩ := breaks line
  rw [← here, ← same] at code rest
  simp only [onPacket, readPacket, code, rest, retry, left, Nat.add_one_ne_zero, if_false, Nat.add_sub_cancel]

/-! ## The whole file -/

/-- A pass of the sender that arrives. -/
theorem rzfile_pass (binary : setting.thisbinary = true) (closes : setting.closes = true) (file : QByteArray)
    (low : file.length < 2 ^ 32) {ind ind' : Frameind} {header code eof : QByteArray} {packets : List Packet} (rx : Rx)
    (opens : HeaderCode setting.listening ind ZDATA (stohdr rx.bytesReceived) header) (stream : Sender.Stream packets)
    (coded : PacketCodes setting.listening ind packets code) (data : dataOf packets = file.drop rx.bytesReceived)
    (ends : HeaderCode setting.listening ind' ZEOF (stohdr file.length) eof) (within : rx.bytesReceived ≤ file.length)
    (front : QByteArray) (cost : Nat) (skipped : Skipped setting.listening.ctlesc front cost)
    (short : cost < setting.listening.garbage) (kept : rx.file = file.take rx.bytesReceived) (nothing : rx.anker = [])
    (here : rx.line = front ++ (header ++ (code ++ eof))) :
    ∃ after, Reaches (step setting) (.rpos, rx) (.done .zeof, after) ∧ after.file = file := by
  have first := onHeader_data setting (reply rx ZRPOS) opens (by change rx.bytesReceived < _; omega) skipped short here
  obtain ⟨after, reached, total, all, anker, left⟩ := moredata_stream setting binary coded stream
    { reply rx ZRPOS with rxhdr := stohdr rx.bytesReceived, frameind := some ind, line := code ++ eof } rfl eof rfl
  have complete : after.bytesReceived = file.length := by
    rw [total, data, List.length_drop]
    change rx.bytesReceived + _ = _
    omega
  have walked : step setting (.nxthdr, after) = (.skipOosb, { after with anker := [] }) := by
    rw [step, show after.anker = [] from anker.trans nothing]
    rfl
  have last := onHeader_eof setting closes { after with anker := [] } (complete.symm ▸ ends) (complete.symm ▸ low)
    (by omega) [] (by rw [List.append_nil]; exact left)
  refine ⟨_, .head rfl (.head first (reached.trans (.head walked (.of_step last)))), ?_⟩
  change after.file = file
  rw [all, data]
  change rx.file ++ _ = _
  rw [kept, List.take_append_drop]

theorem rzfile_transmission (binary : setting.thisbinary = true) (closes : setting.closes = true)
    (plain : ∀ c ∈ setting.attention, isPause c = false) (file : QByteArray) (low : file.length < 2 ^ 32) {n pos : Nat}
    {line : QByteArray} (sent : Transmission setting.listening file n pos line) (within : pos ≤ file.length) (rx : Rx)
    (front : QByteArray) (cost : Nat) (skipped : Skipped setting.listening.ctlesc front cost)
    (short : cost < setting.listening.garbage) (received : rx.bytesReceived = pos) (kept : rx.file = file.take pos)
    (retries : rx.n = n) (nothing : rx.anker = []) (here : rx.line = front ++ line) :
    ∃ after, Reaches (step setting) (.rpos, rx) (.done .zeof, after) ∧ after.file = file := by
  induction sent generalizing rx front cost with
  | whole opens stream coded data ends =>
    subst received
    exact rzfile_pass setting binary closes file low rx opens stream coded data ends within front cost skipped short
      kept nothing here
  | @broken n m pos cost' ind header code damaged junk line packets opens goes coded part breaks passed cheap asks _
      ih =>
    subst received
    have first :=
      onHeader_data setting (reply rx ZRPOS) opens (by change rx.bytesReceived < _; omega) skipped short here
    obtain ⟨after, reached, total, all, left, anker, frameind, rest⟩ := moredata_continues setting binary coded goes
      { reply rx ZRPOS with rxhdr := stohdr rx.bytesReceived, frameind := some ind, line := code ++ (damaged ++ line) }
      rfl (damaged ++ line) rfl
    have failed := onPacket_broken setting after breaks frameind rest m (by rw [left, ← asks, ← retries]; rfl)
    obtain ⟨out, asked⟩ := zmputs_plain { after with n := m, line := junk ++ line } setting.attention plain
    have fits : (dataOf packets).length ≤ file.length - rx.bytesReceived := List.length_drop ▸ part.length_le
    have grown : after.file = file.take (rx.bytesReceived + (dataOf packets).length) := by
      rw [all, List.take_add, ← List.prefix_iff_eq_take.mp part]
      exact congrArg (· ++ _) kept
    obtain ⟨final, ended, whole⟩ := ih (by omega) { after with n := m, line := junk ++ line, out } junk cost' passed
      cheap total grown rfl (anker.trans nothing) rfl
    exact ⟨final, .head rfl (.head first (reached.trans (.head failed (.head asked ended)))), whole⟩

/-- A transfer that begins anew, or behind what is already there, ends with the whole file, if the sender goes back
whenever the line breaks off and some data arrives before the receiver is tired of asking. -/
theorem rzfile_recovers (setting : Setting) (binary : setting.thisbinary = true) (closes : setting.closes = true)
    (plain : ∀ c ∈ setting.attention, isPause c = false) (file : QByteArray) (low : file.length < 2 ^ 32) (pos : Nat)
    (within : pos ≤ file.length) (front line : QByteArray) (cost : Nat)
    (skipped : Skipped setting.listening.ctlesc front cost) (short : cost < setting.listening.garbage)
    (sent : Transmission setting.listening file 20 pos line) :
    ∃ after, Reaches (step setting) (begin (file.take pos) [] (front ++ line)) (.done .zeof, after) ∧
      after.file = file :=
  rzfile_transmission setting binary closes plain file low sent within _ front cost skipped short
    (by rw [List.length_take, Nat.min_eq_left within]) rfl rfl rfl rfl

/-- A sender on a line without options, with the 16 bit check. -/
def short : Sending := ⟨⟨false, false⟩, false, 0⟩

def listening : Listening := ⟨false, 3800⟩

/-- The header of data or of the end at some place. -/
def shortHeader (type : UInt8) (pos : Nat) : QByteArray := (zsbhdr short { lastsent := 0 } type (stohdr pos)).bytes

def letter : Packet := ⟨[65], ZCRCE, isEnd_ZCRCE⟩

def letterCode : QByteArray := (sendPacket short.escaping check16 { lastsent := 0 } letter.buf letter.frameend).bytes

/-- The end and the check of `A`, but behind another letter. -/
def damagedLetter : QByteArray := [66, ZDLE, ZCRCE, 211, 83]

theorem headerCode_shortHeader (type : UInt8) (pos : Nat) :
    HeaderCode listening .bin type (stohdr pos) (shortHeader type pos) := by
  obtain ⟨code, written, coded⟩ := headerCode_zsbhdr short listening nofun rfl { lastsent := 0 } type (stohdr pos)
  rw [shortHeader, written]
  exact coded

theorem packetCode_letterCode : PacketCode listening .bin letter letterCode := by
  obtain ⟨code, written, coded⟩ :=
    packetCode_sendPacket short.escaping listening nofun .bin { lastsent := 0 } letter (by decide)
  rw [letterCode, show check16 = checkOf (Frameind.bin = .bin32) from rfl, written]
  exact coded

theorem breaks_damagedLetter : Breaks listening .bin damagedLetter [] := by
  intro line
  have read := readData_pieces check16 false MAX_BLOCK (encodes_printable false [66] (by decide)) ZCRCE (by decide)
    (encodes_printable false [211, 83] (by decide)) rfl (by decide) line
  rw [if_neg (by decide +kernel)] at read
  have refused : zrdata false (some .bin) MAX_BLOCK (damagedLetter ++ line) = _ := (zrdata_eq _ _ _ _).trans read
  rw [listening, refused]
  exact ⟨rfl, rfl⟩

theorem rzfile_recovers_letter :
    ∃ after, Reaches (step ⟨listening, true, [3], true⟩)
      (begin (List.take 0 [65]) [] ([] ++ (shortHeader ZDATA 0 ++ ([] ++ (damagedLetter ++
        (shortHeader ZDATA 0 ++ ((letterCode ++ []) ++ shortHeader ZEOF 1)))))))
      (.done .zeof, after) ∧ after.file = [65] :=
  rzfile_recovers ⟨listening, true, [3], true⟩ rfl rfl (by decide) [65] (by decide) 0 (by decide) [] _ 0 (.nil _)
    (by decide)
    (.broken (headerCode_shortHeader ZDATA 0) (List.forall_mem_nil _) .nil List.nil_prefix breaks_damagedLetter (.nil _)
      (by decide) rfl
      (.whole (headerCode_shortHeader ZDATA 0) (.last rfl) (.cons packetCode_letterCode .nil) rfl
        (headerCode_shortHeader ZEOF 1)))

/-! ## An attention string with a pause -/

/-- The string stays where the pause is. -/
def Pausing (state : Phase × Rx) : Prop := ∃ s, state.1 = .zmputs s ∧ ∃ c ∈ s, isPause c = true

theorem zmputs_pausing (s : QByteArray) (pause : ∃ c ∈ s, isPause c = true) : Pausing (zmputs rx s) := by
  obtain ⟨c, member, paused⟩ := pause
  unfold zmputs
  rw [if_neg (List.ne_nil_of_mem member)]
  split
  next none =>
    have passed := List.dropWhile_eq_nil_iff.mp none c member
    rw [paused] at passed
    cases passed
  next first rest found =>
    refine ⟨first :: rest, rfl, first, List.mem_cons_self, ?_⟩
    have stopped := List.head?_dropWhile_not (fun c => !isPause c) s
    rw [found] at stopped
    simpa using stopped

/-- With a pause in the attention string, a receiver that refuses a subpacket, and would ask again, never leaves
`zmputs`. -/
theorem rzfile_hangs (setting : Setting) (pause : ∃ c ∈ setting.attention, isPause c = true) (rx : Rx)
    (retries : 0 < rx.n) (refused : (readPacket setting rx).1.code = .error) (final : Phase × Rx)
    (reached : Reaches (step setting) (.moredata, rx) final) :
    final = (.moredata, rx) ∨ ∃ s, final.1 = .zmputs s := by
  have failed : step setting (.moredata, rx) =
      (.zmputs setting.attention, { (readPacket setting rx).2 with n := rx.n - 1 }) := by
    have left : (readPacket setting rx).2.n ≠ 0 := retries.ne'
    rw [step, onPacket]
    simp only [refused, retry, if_neg left]
    rfl
  have stays := reached.invariant (fun state => state = (.moredata, rx) ∨ Pausing state) (by
    rintro state (rfl | pausing)
    · exact .inr (failed ▸ ⟨setting.attention, rfl, pause⟩)
    · obtain ⟨phase, rx⟩ := state
      obtain ⟨s, rfl, paused⟩ := pausing
      exact .inr (zmputs_pausing rx s paused)) (.inl rfl)
  exact stays.imp_right fun ⟨s, here, _⟩ => ⟨s, here⟩

/-- A receiver in the middle of a file, with a damaged subpacket on the line. -/
def damaged : Rx := { (begin [67] [] (damagedLetter ++ [])).2 with frameind := some .bin, n := 1 }

theorem rzfile_hangs_pause :
    (step ⟨listening, false, [0x03, 0xde, 0], true⟩)^[9] (.moredata, damaged) = (.moredata, damaged) ∨
      ∃ s, ((step ⟨listening, false, [0x03, 0xde, 0], true⟩)^[9] (.moredata, damaged)).1 = .zmputs s :=
  rzfile_hangs ⟨listening, false, [0x03, 0xde, 0], true⟩ (by decide) damaged (by decide) (breaks_damagedLetter []).1 _
    ⟨9, rfl⟩

/-! ## Whatever arrives -/

/-- What the receiver is about to take for the file is true of it: data that passes the check holds the bytes at its
place, and the end is where the file ends. -/
def Honest (setting : Setting) (file : QByteArray) : Phase × Rx → Prop
  | (.moredata, rx) =>
    isFrameEnd (readPacket setting rx).1.code = true → (readPacket setting rx).1.buf <+: file.drop rx.bytesReceived
  | (.skipOosb, rx) =>
    let got := zgethdr setting.listening.ctlesc setting.listening.garbage rx.rxhdr rx.line
    (got.code = .byte ZDATA → isFrameEnd (readPacket setting (hear rx got)).1.code = true →
        (readPacket setting (hear rx got)).1.buf <+: file.drop (rclhdr got.hdr)) ∧
      (got.code = .byte ZEOF → rclhdr got.hdr = file.length)
  | _ => True

/-- The invariant of the receiver. -/
structure Faithful (file : QByteArray) (state : Phase × Rx) : Prop where
  begun : state.2.file = file.take state.2.bytesReceived
  within : state.2.bytesReceived ≤ file.length
  anker : ∀ block ∈ state.2.anker, block.data <+: file.drop block.pos
  finished : state.1 = .done .zeof → state.2.bytesReceived = file.length

theorem Faithful.accept {setting : Setting} (binary : setting.thisbinary = true) {file : QByteArray} {phase : Phase}
    {rx : Rx} (faithful : Faithful file (phase, rx)) (buf : QByteArray) (next : buf <+: file.drop rx.bytesReceived)
    (then_ : Phase) (on : then_ ≠ .done .zeof) : Faithful file (then_, accept setting rx buf) := by
  have fits : buf.length ≤ file.length - rx.bytesReceived := List.length_drop ▸ next.length_le
  have within : rx.bytesReceived ≤ file.length := faithful.within
  rw [accept_binary setting binary]
  refine ⟨?_, by change rx.bytesReceived + buf.length ≤ _; omega, faithful.anker, fun ended => absurd ended on⟩
  change rx.file ++ buf = file.take (rx.bytesReceived + buf.length)
  rw [List.take_add, ← List.prefix_iff_eq_take.mp next]
  exact congrArg (· ++ buf) faithful.begun

theorem walk_subset (received : Nat) (blocks : List Oosb) :
    (walk received blocks).1 ⊆ blocks ∧
      ∀ block, (walk received blocks).2 = some block → block ∈ blocks ∧ block.pos = received := by
  induction blocks with
  | nil => exact ⟨List.Subset.refl _, nofun⟩
  | cons head blocks ih =>
    obtain ⟨subset, found⟩ := ih
    rw [walk]
    split
    next same =>
      refine ⟨List.Subset.refl _, fun block here => ?_⟩
      obtain rfl := Option.some.inj here
      exact ⟨List.mem_cons_self, same⟩
    next =>
      refine ⟨?_, fun block here => ⟨List.mem_cons_of_mem head (found block here).1, (found block here).2⟩⟩
      dsimp only
      split
      · exact List.subset_cons_of_subset head subset
      · exact List.cons_subset_cons head subset

theorem Faithful.dropping {state next : Phase × Rx} (faithful : Faithful file state)
    (kept : next.2.file = state.2.file) (received : next.2.bytesReceived = state.2.bytesReceived)
    (saved : next.2.anker ⊆ state.2.anker) (on : next.1 ≠ .done .zeof) : Faithful file next where
  begun := by rw [kept, received, faithful.begun]
  within := received ▸ faithful.within
  anker block member := faithful.anker block (saved member)
  finished ended := absurd ended on

theorem Faithful.same {state next : Phase × Rx} (faithful : Faithful file state) (kept : next.2.file = state.2.file)
    (received : next.2.bytesReceived = state.2.bytesReceived) (saved : next.2.anker = state.2.anker)
    (on : next.1 ≠ .done .zeof) : Faithful file next :=
  faithful.dropping kept received (fun _ member => saved ▸ member) on

theorem Faithful.retry {state : Phase × Rx} (faithful : Faithful file state) (go : Rx → Phase × Rx)
    (goes : ∀ rx, Faithful file (.rpos, rx) → rx.line = state.2.line → rx.frameind = state.2.frameind →
      rx.rxhdr = state.2.rxhdr → rx.bytesReceived = state.2.bytesReceived → Faithful file (go rx)) :
    Faithful file (retry state.2 go) := by
  unfold Receiver.retry
  split
  · exact faithful.same rfl rfl rfl nofun
  · exact goes _ (faithful.same rfl rfl rfl nofun) rfl rfl rfl rfl

theorem Faithful.zmputs {phase : Phase} {rx : Rx} (faithful : Faithful file (phase, rx)) (s : QByteArray) :
    Faithful file (zmputs rx s) := by
  unfold Receiver.zmputs
  split
  · exact faithful.same rfl rfl rfl nofun
  · split
    · exact faithful.same rfl rfl rfl nofun
    · dsimp only
      split <;> exact faithful.same rfl rfl rfl nofun

theorem Faithful.save {phase : Phase} {rx : Rx} (faithful : Faithful file (phase, rx)) (pos : Nat) (got : Received)
    (true_ : isFrameEnd got.code = true → got.buf <+: file.drop pos) : Faithful file (phase, save rx pos got) := by
  unfold Receiver.save
  split
  next ahead =>
    refine ⟨faithful.begun, faithful.within, fun block member => ?_, faithful.finished⟩
    rcases List.mem_cons.mp member with rfl | before
    · rw [Bool.and_eq_true] at ahead
      exact true_ ahead.1
    · exact faithful.anker block before
  next => exact faithful

theorem Faithful.onPacket {setting : Setting} (binary : setting.thisbinary = true) {file : QByteArray} {rx : Rx}
    (faithful : Faithful file (.moredata, rx)) (honest : Honest setting file (.moredata, rx)) :
    Faithful file (onPacket setting rx) := by
  have after : Faithful file (.moredata, (readPacket setting rx).2) :=
    faithful.same rfl rfl rfl nofun
  have received : (readPacket setting rx).2.bytesReceived = rx.bytesReceived := rfl
  rw [Honest] at honest
  unfold Receiver.onPacket
  rcases found : readPacket setting rx with ⟨got, next⟩
  rw [found] at honest after received
  dsimp only at honest received ⊢
  split
  next => exact after.same rfl rfl rfl nofun
  next => exact after.same rfl rfl rfl nofun
  next => exact after.retry _ fun rx' kept _ _ _ _ => kept.same rfl rfl rfl nofun
  next => exact after.retry _ fun rx' kept _ _ _ _ => kept
  next d accepted =>
    have true_ : got.buf <+: file.drop next.bytesReceived := received ▸ honest (by rw [accepted]; rfl)
    have reset : Faithful file (.moredata, { next with n := 20 }) :=
      after.same rfl rfl rfl nofun
    split_ifs
    · exact (reset.accept binary got.buf true_ .nxthdr nofun).same rfl rfl rfl nofun
    · exact (reset.accept binary got.buf true_ .moredata nofun).same rfl rfl rfl nofun
    · exact reset.accept binary got.buf true_ .moredata nofun
    · exact reset.accept binary got.buf true_ .nxthdr nofun

theorem Faithful.onHeader {setting : Setting} {rx : Rx} (faithful : Faithful file (.skipOosb, rx))
    (honest : Honest setting file (.skipOosb, rx)) : Faithful file (onHeader setting rx) := by
  obtain ⟨data, eof⟩ := honest
  unfold Receiver.onHeader
  generalize found : zgethdr setting.listening.ctlesc setting.listening.garbage rx.rxhdr rx.line = got at data eof
  have after : Faithful file (.skipOosb, hear rx got) := faithful.same rfl rfl rfl nofun
  have read : ∀ rx', Faithful file (.rpos, rx') → Faithful file (.rpos, (readPacket setting rx').2) := fun rx' kept =>
    kept.same rfl rfl rfl nofun
  dsimp only
  split
  next => exact after.retry _ fun rx' kept _ _ _ _ => read rx' kept
  next => exact after.retry _ fun rx' kept _ _ _ _ => kept.same rfl rfl rfl nofun
  next => exact after.same rfl rfl rfl nofun
  next => exact after.same rfl rfl rfl nofun
  next type code =>
    split_ifs with nak name end_ elsewhere closes skip data_ place
    · exact after.retry _ fun rx' kept _ _ _ _ => read rx' kept
    · exact read _ (after.same rfl rfl rfl nofun)
    · exact after.same rfl rfl rfl nofun
    · have here : rclhdr got.hdr = rx.bytesReceived := of_not_not elsewhere
      refine ⟨after.begun, after.within, after.anker, fun _ => ?_⟩
      exact here.symm.trans (eof (by rw [code, end_]))
    · exact after.same rfl rfl rfl nofun
    · exact after.same rfl rfl rfl nofun
    · apply after.retry
      intro rx' kept line frameind hdr received
      have same : (readPacket setting rx').1 = (readPacket setting (hear rx got)).1 := by
        simp only [readPacket, line, frameind]
      have next : Faithful file (.zmputs setting.attention, (readPacket setting rx').2) :=
        kept.same rfl rfl rfl nofun
      refine next.save _ _ fun accepted => ?_
      change _ <+: file.drop (rclhdr rx'.rxhdr)
      rw [hdr, same]
      exact data (by rw [code, data_]) (same ▸ accepted)
    · exact after.same rfl rfl rfl nofun
    · exact after.same rfl rfl rfl nofun

theorem Faithful.step {setting : Setting} (binary : setting.thisbinary = true) {file : QByteArray} {state : Phase × Rx}
    (faithful : Faithful file state) (honest : Honest setting file state) : Faithful file (step setting state) := by
  obtain ⟨phase, rx⟩ := state
  cases phase with
  | rpos => exact faithful.same rfl rfl rfl nofun
  | nxthdr =>
    obtain ⟨subset, found⟩ := walk_subset rx.bytesReceived rx.anker
    rw [Receiver.step]
    rcases walked : walk rx.bytesReceived rx.anker with ⟨anker, _ | block⟩
    · rw [walked] at subset
      exact faithful.dropping rfl rfl subset nofun
    · rw [walked] at subset found
      obtain ⟨member, place⟩ := found block rfl
      have rest : Faithful file (.nxthdr, { rx with anker }) := faithful.dropping rfl rfl subset nofun
      exact rest.accept binary block.data (place ▸ faithful.anker block member) .nxthdr nofun
  | skipOosb => exact faithful.onHeader honest
  | moredata => exact faithful.onPacket binary honest
  | zmputs s => exact faithful.zmputs s
  | done verdict => exact faithful

/-- Whatever happens to the line, as long as nothing false passes the check and what is saved from before is true of
the file: the file is at any time a beginning of the one that is sent, and it is the whole file when the receiver ends
well. -/
theorem rzfile_faithful (setting : Setting) (binary : setting.thisbinary = true) (file : QByteArray) (pos : Nat)
    (within : pos ≤ file.length) (anker : List Oosb) (saved : ∀ block ∈ anker, block.data <+: file.drop block.pos)
    (line : QByteArray)
    (honest : ∀ state, Reaches (step setting) (begin (file.take pos) anker line) state → Honest setting file state)
    (final : Phase × Rx) (reached : Reaches (step setting) (begin (file.take pos) anker line) final) :
    final.2.file <+: file ∧ (final.1 = .done .zeof → final.2.file = file) := by
  have start : Faithful file (begin (file.take pos) anker line) :=
    ⟨by rw [begin, List.length_take, Nat.min_eq_left within], List.length_take_le' _ _, saved, nofun⟩
  have faithful : Faithful file final := by
    obtain ⟨n, rfl⟩ := reached
    induction n with
    | zero => exact start
    | succ n ih =>
      rw [Function.iterate_succ_apply']
      exact ih.step binary (honest _ ⟨n, rfl⟩)
  refine ⟨faithful.begun ▸ List.take_prefix _ _, fun ended => ?_⟩
  rw [faithful.begun, faithful.finished ended, List.take_length]

/-- A file of two letters, of which the second was saved before. -/
def saved : Rx := (begin [] [⟨1, [66]⟩] (shortHeader ZDATA 0 ++ (letterCode ++ shortHeader ZEOF 2))).2

def asked : Rx := reply saved ZRPOS

def opened : Rx := { asked with frameind := some .bin, line := letterCode ++ shortHeader ZEOF 2 }

def taken : Rx := gain opened letter.buf (shortHeader ZEOF 2) opened.out

def joined : Rx := { taken with bytesReceived := 2, file := [65, 66] }

theorem saved_states (state : Phase × Rx)
    (reached : Reaches (step ⟨listening, true, [3], true⟩) (.rpos, saved) state) :
    state.1 = .rpos ∨ state.1 = .nxthdr ∨ state.1 = .done .zeof ∨ state = (.skipOosb, asked) ∨
      state = (.moredata, opened) ∨ state = (.skipOosb, { joined with anker := [] }) := by
  have first : onHeader ⟨listening, true, [3], true⟩ asked = (.moredata, opened) :=
    onHeader_data _ asked (headerCode_shortHeader ZDATA 0) (by decide) (.nil _) (by decide) rfl
  have second : onPacket ⟨listening, true, [3], true⟩ opened = (.nxthdr, taken) :=
    onPacket_last _ rfl opened packetCode_letterCode rfl _ rfl rfl
  have last : (onHeader ⟨listening, true, [3], true⟩ { joined with anker := [] }).1 = .done .zeof :=
    congrArg Prod.fst (onHeader_eof _ rfl { joined with anker := [] } (headerCode_shortHeader ZEOF 2) (by decide)
      (by decide) [] (List.append_nil _).symm)
  have known := reached.invariant (fun state => state = (.rpos, saved) ∨ state = (.nxthdr, taken) ∨
    state = (.nxthdr, joined) ∨ state.1 = .done .zeof ∨ state = (.skipOosb, asked) ∨ state = (.moredata, opened) ∨
    state = (.skipOosb, { joined with anker := [] })) (by
      rintro state (rfl | rfl | rfl | ended | rfl | rfl | rfl)
      · simp [step, asked]
      · exact .inr (.inr (.inl rfl))
      · exact .inr (.inr (.inr (.inr (.inr (.inr rfl)))))
      · obtain ⟨phase, rx⟩ := state
        obtain rfl : phase = .done .zeof := ended
        exact .inr (.inr (.inr (.inl rfl)))
      · exact .inr (.inr (.inr (.inr (.inr (.inl first)))))
      · exact .inr (.inl second)
      · exact .inr (.inr (.inr (.inl last)))) (.inl rfl)
  rcases known with rfl | rfl | rfl | known
  · exact .inl rfl
  · exact .inr (.inl rfl)
  · exact .inr (.inl rfl)
  · exact .inr (.inr known)

theorem honest_saved (state : Phase × Rx)
    (reached : Reaches (step ⟨listening, true, [3], true⟩) (.rpos, saved) state) :
    Honest ⟨listening, true, [3], true⟩ [65, 66] state := by
  have data := packetCode_letterCode (shortHeader ZEOF 2)
  rcases saved_states state reached with phase | phase | phase | rfl | rfl | rfl
  · obtain ⟨_, rx⟩ := state
    cases phase
    trivial
  · obtain ⟨_, rx⟩ := state
    cases phase
    trivial
  · obtain ⟨_, rx⟩ := state
    cases phase
    trivial
  · have read : zgethdr listening.ctlesc listening.garbage asked.rxhdr asked.line = _ :=
      headerCode_shortHeader ZDATA 0 [] 0 (stohdr 0) (letterCode ++ shortHeader ZEOF 2) (.nil _) (by decide)
    simp only [Honest, read, hear, readPacket, data]
    exact ⟨fun _ _ => ⟨[66], rfl⟩, nofun⟩
  · simp only [Honest, readPacket, opened, data]
    exact fun _ => ⟨[66], rfl⟩
  · have read := headerCode_shortHeader ZEOF 2 [] 0 (stohdr 0) [] (.nil _) (by decide)
    rw [List.nil_append, List.append_nil] at read
    have found : zgethdr listening.ctlesc listening.garbage joined.rxhdr joined.line = _ := read
    simp only [Honest, found]
    exact ⟨nofun, fun _ => by decide⟩

theorem rzfile_faithful_saved :
    let final := (step ⟨listening, true, [3], true⟩)^[6] (.rpos, saved)
    final.2.file <+: [65, 66] ∧ (final.1 = .done .zeof → final.2.file = [65, 66]) :=
  rzfile_faithful ⟨listening, true, [3], true⟩ rfl [65, 66] 0 (by decide) [⟨1, [66]⟩]
    (by rintro block (_ | ⟨_, ⟨⟩⟩); exact ⟨[], rfl⟩) _ honest_saved _ ⟨6, rfl⟩

end Woterm.Zmodem.Receiver
