import Woterm.Lib.Reaches
import Woterm.Zmodem.Data

/-!
The sender of a file (`lsz.c`): `zsendfdata` with the length of its blocks and with `getinsync`, which answers the
receiver. `Txwindow` is 0 in this program and nothing jumps to `intrjmp`, so that the sender only listens behind
a subpacket with `ZCRCW` and behind `ZEOF`.
-/

namespace Woterm.Zmodem.Sender
open Woterm.Qt Woterm.Zmodem.Line Woterm.Zmodem.Header Woterm.Zmodem.Data
open Woterm.Lib (Reaches)

def ZSKIP : UInt8 := 5
def ZNAK : UInt8 := 6
def ZABORT : UInt8 := 7
def ZRPOS : UInt8 := 9
def ZEOF : UInt8 := 11

/-! ## What is written -/

/-- A call of `zsbhdr` or `zshhdr`, or one of `ZSDATA`. -/
inductive Command where
  | header (sent : Sent)
  | data (packet : Packet)

/-- The line and `Crc32t`. -/
structure Written where
  out : Output
  crc32t : Bool

def perform (s : Sending) (w : Written) : Command → Except Output Written
  | .header sent => .ok { out := send s w.out sent, crc32t := sent.binary && s.fcs32 }
  | .data packet => do
    let out ← ZSDATA s.escaping w.crc32t w.out packet.buf packet.buf.length packet.frameend
    return { w with out }

/-! ## The length of a block -/

def MAX_BLOCK : Nat := 8192
def OVERHEAD : Nat := 18
def OVER_ERR : Nat := 20

/-- `start_blklen` and `max_blklen`. -/
structure Limits where
  start : Nat
  max : Nat
deriving DecidableEq, Repr

/-- As `main` sets them. -/
def limits : Limits := ⟨MAX_BLOCK, MAX_BLOCK⟩

/-- The static variables of `calc_blklen`. -/
structure Calc where
  totalBytes : Nat := 0
  calcsDone : Nat := 0
  lastErrorCount : Nat := 0
  lastBlklen : Nat := 0
  lastBytesPerError : Nat := 0
deriving DecidableEq, Repr

/-- `for (i=32;i<=max_blklen;i*=2)`. -/
def sizes (max : Nat) : List Nat := ((List.range 64).map fun k => 32 * 2 ^ k).takeWhile (· ≤ max)

def transmitted (totalBytes bytesPerError i : Nat) : Nat :=
  let ok := totalBytes / i + 1
  let failed := (i + OVERHEAD) * ok / bytesPerError
  totalBytes + ok * OVERHEAD + failed * (i + OVERHEAD + OVER_ERR)

/-- `best_bytes` and `best_size`. -/
def better (totalBytes bytesPerError : Nat) (best : Nat × Nat) (i : Nat) : Nat × Nat :=
  let bytes := transmitted totalBytes bytesPerError i
  if bytes < best.1 ∨ best.1 = 0 then (bytes, i) else best

/-- From `calcit` on. -/
def calcit (limits : Limits) (c : Calc) (bytesPerError : Nat) : Calc × Nat :=
  let best := ((sizes limits.max).foldl (better c.totalBytes bytesPerError) (0, 0)).2
  let best := if best > 2 * c.lastBlklen then 2 * c.lastBlklen else best
  ({ c with lastBlklen := best }, best)

/-- A length cut in half, but not below 32 and not above 512. -/
def reduced (length : Nat) : Nat := if length / 2 < 32 then 32 else if length / 2 > 512 then 512 else length / 2

def calcBlklen (limits : Limits) (errorCount totalSent : Nat) (c : Calc) : Calc × Nat :=
  if c.totalBytes = 0 then ({ c with totalBytes := totalSent }, 0)
  else
    let done := c.calcsDone
    let c := { c with calcsDone := done + 1 }
    if done < 5 then
      let length := if errorCount ≠ 0 ∧ limits.start > 1024 then 1024 else limits.start
      ({ c with lastBlklen := length }, length)
    else if errorCount = 0 then
      if limits.start = limits.max then (c, limits.start) else calcit limits c 2141483647
    else if errorCount ≠ c.lastErrorCount then
      let length := if errorCount &&& 2 ≠ 0 then reduced c.lastBlklen else c.lastBlklen
      ({ c with lastBlklen := length, lastErrorCount := errorCount, lastBytesPerError := 0 }, length)
    else
      let bytesPerError := max (totalSent / errorCount) 100
      let d := (c.lastBytesPerError - bytesPerError) + (bytesPerError - c.lastBytesPerError)
      if d < 4 then (c, c.lastBlklen)
      else calcit limits { c with lastBytesPerError := bytesPerError } bytesPerError

/-! ## The sender -/

/-- What `getinsync` returns. -/
inductive Sync where
  | error
  | zrpos
  | zack
  | zrinit
  | zskip
deriving DecidableEq, Repr

/-- What `zsendfdata` returns: `OK`, `MYERROR` or its variable `c`. -/
inductive Verdict where
  | ok
  | error
  | code (c : Sync)
deriving DecidableEq, Repr

/-- The file's record, the variables of the program and of `zsendfdata`, what is still to be read and what has been
written. -/
structure Tx where
  lengths : Calc
  totalSent : Nat
  blklen : Nat
  errorCount : Nat
  bytesSent : Nat
  eofSeen : Bool
  /-- Where `input_f` stands. -/
  offset : Nat
  bytcnt : Nat
  lrxpos : Nat
  lastsync : Nat
  txhdr : Hdr
  rxhdr : Hdr
  c : Option Sync
  line : QByteArray
  out : List Command

/-- The receiver's part in the options: `Zctlesc` and `Zrwindow + Baudrate`. -/
structure Listening where
  ctlesc : Bool
  garbage : Nat
deriving DecidableEq, Repr

def zfilbuf (file : QByteArray) (tx : Tx) : QByteArray × Tx :=
  let buf := (file.drop tx.offset).take tx.blklen
  let offset := tx.offset + buf.length
  let finished : Bool := buf.length < tx.blklen || file.length ≤ offset
  (buf, { tx with offset, eofSeen := tx.eofSeen || finished })

/-- `ZRPOS` moves the sender only as long as it has not seen the end of the file. -/
def reposition (tx : Tx) (rxpos : Nat) : Tx :=
  if tx.eofSeen then tx
  else
    { tx with
      offset := rxpos, bytcnt := rxpos, lrxpos := rxpos, bytesSent := rxpos,
      errorCount := if tx.lastsync = rxpos then tx.errorCount + 1 else tx.errorCount, lastsync := rxpos }

def Tx.heard (tx : Tx) (got : Got) : Tx := { tx with rxhdr := got.hdr, line := got.line }

/-- `error_count++` and `ZNAK` with whatever is in `Txhdr`. -/
def Tx.complained (tx : Tx) (got : Got) : Tx :=
  { tx.heard got with errorCount := tx.errorCount + 1, out := tx.out ++ [.header ⟨true, ZNAK, tx.txhdr⟩] }

def Tx.acknowledged (tx : Tx) (got : Got) : Tx := { tx.heard got with lrxpos := got.rxpos.getD 0 }

/-- With the flag 0. -/
def getinsync (l : Listening) (tx : Tx) : Sync × Tx :=
  let got := zgethdr l.ctlesc l.garbage tx.rxhdr tx.line
  let rxpos := got.rxpos.getD 0
  match _ : got.code with
  | .timeout => (.error, tx.heard got)
  | .byte type =>
    if type = ZCAN ∨ type = ZABORT ∨ type = ZFIN then (.error, tx.heard got)
    else if type = ZRPOS then (.zrpos, reposition (tx.heard got) rxpos)
    else if type = ZACK then
      if tx.bytesSent = rxpos then (.zack, tx.acknowledged got) else getinsync l (tx.acknowledged got)
    else if type = ZRINIT then (.zrinit, tx.heard got)
    else if type = ZSKIP then (.zskip, tx.heard got)
    else getinsync l (tx.complained got)
  | .frameEnd _ | .can | .error => getinsync l (tx.complained got)
termination_by tx.line.length
decreasing_by
  all_goals
    have shorter := (zgethdr_suffix l.ctlesc l.garbage tx.rxhdr tx.line).2
    exact shorter (by simp_all [got])

/-- Where `zsendfdata` stands: before the header of data, before a block, at `waitack`, behind the last block, or in
a call of `zsdata` that does not come back. -/
inductive Phase where
  | header
  | block
  | waitack
  | eof
  | runaway
  | done (verdict : Verdict)
deriving DecidableEq, Repr

/-- The end of a block. `junkcount` is 0, and nothing counts it up. -/
def frameendOf (tx : Tx) : { c : UInt8 // IsEnd c } :=
  if tx.eofSeen then ⟨ZCRCE, isEnd_ZCRCE⟩
  else if tx.bytcnt = tx.lastsync then ⟨ZCRCW, isEnd_ZCRCW⟩
  else ⟨ZCRCG, isEnd_ZCRCG⟩

def sendHeader (tx : Tx) (type : UInt8) : Tx :=
  { tx with txhdr := stohdr tx.bytesSent, out := tx.out ++ [.header ⟨true, type, stohdr tx.bytesSent⟩] }

def readBlock (limits : Limits) (file : QByteArray) (tx : Tx) : QByteArray × Tx :=
  let (lengths, blklen) := calcBlklen limits tx.errorCount tx.totalSent tx.lengths
  zfilbuf file { tx with lengths, blklen, totalSent := tx.totalSent + (blklen + OVERHEAD) }

/-- The block is read before its end is chosen. Behind a binary header `Crc32t` is `Txfcs32`. -/
def sendBlock (txfcs32 : Bool) (limits : Limits) (file : QByteArray) (tx : Tx) : Phase × Tx :=
  let (buf, tx) := readBlock limits file tx
  let frameend := frameendOf tx
  if buf = [] ∧ txfcs32 = false then (.runaway, tx)
  else
    let sent := tx.bytesSent + buf.length
    let tx := { tx with out := tx.out ++ [.data ⟨buf, frameend.1, frameend.2⟩], bytesSent := sent, bytcnt := sent }
    (if frameend.1 = ZCRCW then .waitack else if tx.eofSeen then .eof else .block, tx)

def step (txfcs32 : Bool) (limits : Limits) (l : Listening) (file : QByteArray) : Phase × Tx → Phase × Tx
  | (.header, tx) => (.block, sendHeader tx ZDATA)
  | (.block, tx) => sendBlock txfcs32 limits file tx
  | (.waitack, tx) =>
    match getinsync l tx with
    | (c, tx) =>
      let tx := { tx with c := some c }
      match c with
      | .error => (.done .error, tx)
      | .zskip => (.done (.code .zskip), tx)
      | .zack | .zrpos => (.header, tx)
      | .zrinit => (.done .ok, tx)
  | (.eof, tx) =>
    -- `c` is not set here, so that a `ZSKIP` returns what it was before
    match getinsync l (sendHeader tx ZEOF) with
    | (.zack, tx) => (.eof, tx)
    | (.zrpos, tx) => (.header, tx)
    | (.zrinit, tx) => (.done .ok, tx)
    | (.zskip, tx) => (.done (tx.c.elim .ok .code), tx)
    | (.error, tx) => (.done .error, tx)
  | (.runaway, tx) => (.runaway, tx)
  | (.done verdict, tx) => (.done verdict, tx)

/-- `zsendfdata` as `zsendfile` calls it on `ZRPOS`. -/
def begin (tx : Tx) (rxpos : Nat) : Phase × Tx :=
  (.header,
    { tx with
      offset := rxpos, bytcnt := rxpos, bytesSent := rxpos, lastsync := (rxpos + (2 ^ 64 - 1)) % 2 ^ 64, lrxpos := 0 })

/-! ## The length of a block is bounded -/

/-- After the first length there is always a last one. -/
def Calc.Valid (max : Nat) (c : Calc) : Prop := c.calcsDone = 0 ∨ (32 ≤ c.lastBlklen ∧ c.lastBlklen ≤ max)

theorem sizes_bounds (max i : Nat) (member : i ∈ sizes max) : 32 ≤ i ∧ i ≤ max := by
  have small : i ≤ max := by simpa using List.mem_takeWhile_imp member
  obtain ⟨k, _, rfl⟩ := List.mem_map.mp ((List.takeWhile_prefix _).subset member)
  exact ⟨Nat.le_mul_of_pos_right 32 (Nat.two_pow_pos k), small⟩

theorem foldl_better (totalBytes bytesPerError : Nat) (best : Nat × Nat) (list : List Nat) :
    (list.foldl (better totalBytes bytesPerError) best).2 = best.2 ∨
      (list.foldl (better totalBytes bytesPerError) best).2 ∈ list := by
  induction list generalizing best with
  | nil => exact .inl rfl
  | cons i list ih =>
    rw [List.foldl_cons]
    have next : (better totalBytes bytesPerError best i).2 = best.2 ∨
        (better totalBytes bytesPerError best i).2 = i := by
      rw [better]
      split
      · exact .inr rfl
      · exact .inl rfl
    rcases ih (better totalBytes bytesPerError best i) with same | later
    · rcases next with old | new
      · exact .inl (same.trans old)
      · exact .inr (by rw [same, new]; exact List.mem_cons_self)
    · exact .inr (List.mem_cons_of_mem i later)

theorem best_bounds (totalBytes bytesPerError max : Nat) (room : 32 ≤ max) :
    32 ≤ ((sizes max).foldl (better totalBytes bytesPerError) (0, 0)).2 ∧
      ((sizes max).foldl (better totalBytes bytesPerError) (0, 0)).2 ≤ max := by
  obtain ⟨rest, all⟩ : ∃ rest, sizes max = 32 :: rest := by
    have range : List.range 64 = 0 :: (List.range 63).map (· + 1) := by decide
    exact ⟨_, by rw [sizes, range, List.map_cons, List.takeWhile_cons_of_pos (by simpa using room)]; rfl⟩
  have first : better totalBytes bytesPerError (0, 0) 32 = (transmitted totalBytes bytesPerError 32, 32) := by
    rw [better, if_pos (.inr rfl)]
  apply sizes_bounds max
  rw [all, List.foldl_cons, first]
  rcases foldl_better totalBytes bytesPerError (transmitted totalBytes bytesPerError 32, 32) rest with same | later
  · rw [same]
    exact List.mem_cons_self
  · exact List.mem_cons_of_mem 32 later

theorem calcit_bounds (limits : Limits) (c : Calc) (bytesPerError : Nat) (room : 32 ≤ limits.max)
    (last : 32 ≤ c.lastBlklen) :
    32 ≤ (calcit limits c bytesPerError).2 ∧ (calcit limits c bytesPerError).2 ≤ limits.max ∧
      (calcit limits c bytesPerError).1.lastBlklen = (calcit limits c bytesPerError).2 := by
  obtain ⟨low, high⟩ := best_bounds c.totalBytes bytesPerError limits.max room
  rw [calcit]
  dsimp only
  split
  · refine ⟨?_, ?_, rfl⟩ <;> omega
  · exact ⟨low, high, rfl⟩

theorem reduced_bounds (max length : Nat) (low : 32 ≤ length) (high : length ≤ max) :
    32 ≤ reduced length ∧ reduced length ≤ max := by
  unfold reduced
  split_ifs <;> constructor <;> omega

/-- A block has between 32 bytes and the greatest length, except before anything is known of the size of the files. -/
theorem calcBlklen_bounds (limits : Limits) (first : 32 ≤ limits.start) (room : limits.start ≤ limits.max)
    (errorCount totalSent : Nat) (c : Calc) (valid : c.Valid limits.max) :
    (calcBlklen limits errorCount totalSent c).1.Valid limits.max ∧
      if c.totalBytes = 0 then
        (calcBlklen limits errorCount totalSent c).2 = 0 ∧
          (calcBlklen limits errorCount totalSent c).1.totalBytes = totalSent
      else
        (calcBlklen limits errorCount totalSent c).1.totalBytes = c.totalBytes ∧
          32 ≤ (calcBlklen limits errorCount totalSent c).2 ∧
          (calcBlklen limits errorCount totalSent c).2 ≤ limits.max := by
  rw [calcBlklen]
  by_cases unknown : c.totalBytes = 0
  · rw [if_pos unknown, if_pos unknown]
    exact ⟨valid, rfl, rfl⟩
  · rw [if_neg unknown, if_neg unknown]
    dsimp only
    by_cases early : c.calcsDone < 5
    · rw [if_pos early]
      have bounds : 32 ≤ (if errorCount ≠ 0 ∧ limits.start > 1024 then 1024 else limits.start) ∧
          (if errorCount ≠ 0 ∧ limits.start > 1024 then 1024 else limits.start) ≤ limits.max := by
        split_ifs <;> constructor <;> omega
      exact ⟨.inr bounds, rfl, bounds⟩
    · have last : 32 ≤ c.lastBlklen ∧ c.lastBlklen ≤ limits.max := valid.resolve_left (by omega)
      have picked : ∀ (known : Calc) (bytesPerError : Nat), known.lastBlklen = c.lastBlklen →
          known.totalBytes = c.totalBytes →
          (calcit limits known bytesPerError).1.Valid limits.max ∧
            (calcit limits known bytesPerError).1.totalBytes = c.totalBytes ∧
            32 ≤ (calcit limits known bytesPerError).2 ∧ (calcit limits known bytesPerError).2 ≤ limits.max := by
        intro known bytesPerError same total
        obtain ⟨low, high, stored⟩ := calcit_bounds limits known bytesPerError (by omega) (by omega)
        exact ⟨.inr (by rw [stored]; exact ⟨low, high⟩), total, low, high⟩
      rw [if_neg early]
      by_cases clean : errorCount = 0
      · rw [if_pos clean]
        split_ifs
        · exact ⟨.inr last, rfl, first, room⟩
        · exact picked _ _ rfl rfl
      · rw [if_neg clean]
        by_cases another : errorCount ≠ c.lastErrorCount
        · rw [if_pos another]
          have bounds : 32 ≤ (if errorCount &&& 2 ≠ 0 then reduced c.lastBlklen else c.lastBlklen) ∧
              (if errorCount &&& 2 ≠ 0 then reduced c.lastBlklen else c.lastBlklen) ≤ limits.max := by
            split_ifs
            · exact reduced_bounds limits.max c.lastBlklen last.1 last.2
            · exact last
          exact ⟨.inr bounds, rfl, bounds⟩
        · rw [if_neg another]
          split_ifs
          · exact ⟨.inr last, rfl, last⟩
          · exact picked _ _ rfl rfl

/-! ## Listening -/

/-- The data in some commands. -/
def dataOf (out : List Command) : QByteArray :=
  out.flatMap fun
    | .header _ => []
    | .data packet => packet.buf

/-- Every header of data or of the end names the place that the data before it leads to. -/
def Placed (start : Nat) (out : List Command) : Prop :=
  ∀ front sent back, out = front ++ .header sent :: back → sent.type = ZDATA ∨ sent.type = ZEOF →
    sent.hdr = stohdr (start + (dataOf front).length)

theorem dataOf_append (one two : List Command) : dataOf (one ++ two) = dataOf one ++ dataOf two := List.flatMap_append

variable {txfcs32 : Bool} {file : QByteArray} {start : Nat} {phase : Phase} {tx : Tx}

theorem Placed.concat {out : List Command} (placed : Placed start out) (command : Command)
    (there : ∀ sent, command = .header sent → sent.type = ZDATA ∨ sent.type = ZEOF →
      sent.hdr = stohdr (start + (dataOf out).length)) : Placed start (out ++ [command]) := by
  intro front sent back split kind
  rcases List.eq_nil_or_concat back with rfl | ⟨back, last, rfl⟩
  · obtain ⟨rfl, same⟩ := List.append_inj' split rfl
    exact there sent (List.singleton_inj.mp same) kind
  · rw [List.concat_eq_append, ← List.cons_append, ← List.append_assoc] at split
    exact placed front sent back (List.append_inj_left' split rfl) kind

/-- A call that comes back, with a block that fits `txbuf`. -/
def Command.Fine (txfcs32 : Bool) : Command → Prop
  | .header sent => sent.binary = true
  | .data packet => packet.buf.length ≤ MAX_BLOCK ∧ (txfcs32 = true ∨ packet.buf ≠ [])

theorem perform_fine (s : Sending) (w : Written) (same : w.crc32t = s.fcs32) (command : Command)
    (fine : command.Fine s.fcs32) : ∃ w', perform s w command = .ok w' ∧ w'.crc32t = s.fcs32 := by
  cases command with
  | header sent => exact ⟨_, rfl, by rw [show sent.binary = true from fine, Bool.true_and]⟩
  | data packet =>
    have sent := ZSDATA_eq s.escaping s.fcs32 w.out packet.buf [] packet.frameend fine.2
    rw [List.append_nil] at sent
    rw [perform, same, sent]
    exact ⟨_, rfl, rfl⟩

theorem performs_fine (s : Sending) (commands : List Command) (fine : ∀ command ∈ commands, command.Fine s.fcs32)
    (w : Written) (same : w.crc32t = s.fcs32) :
    ∃ w', commands.foldlM (perform s) w = .ok w' ∧ w'.crc32t = s.fcs32 := by
  induction commands generalizing w with
  | nil => exact ⟨w, rfl, same⟩
  | cons command commands ih =>
    obtain ⟨next, performed, still⟩ := perform_fine s w same command (fine command List.mem_cons_self)
    obtain ⟨last, all, kept⟩ := ih (fun other member => fine other (List.mem_cons_of_mem command member)) next still
    refine ⟨last, ?_, kept⟩
    rw [List.foldlM_cons, performed]
    exact all

/-- The invariant of the sender: the bytes of the file go out in their order, and once the end of the file has been
seen there is nothing more to send. -/
structure Once (txfcs32 : Bool) (file : QByteArray) (start : Nat) (phase : Phase) (tx : Tx) : Prop where
  sent : dataOf tx.out = (file.drop start).take (tx.offset - start)
  begun : start ≤ tx.offset
  within : tx.offset ≤ max start file.length
  bytesSent : tx.bytesSent = tx.offset
  bytcnt : tx.bytcnt = tx.offset
  finished : tx.eofSeen = true → file.length ≤ tx.offset
  streaming : tx.eofSeen = false →
    tx.lastsync = (start + (2 ^ 64 - 1)) % 2 ^ 64 ∧ (phase = .header ∨ phase = .block ∨ phase = .runaway)
  awake : phase ≠ .waitack
  placed : Placed start tx.out
  fine : ∀ command ∈ tx.out, command.Fine txfcs32
  valid : tx.lengths.Valid MAX_BLOCK

theorem Once.length_sent (once : Once txfcs32 file start phase tx) : start + (dataOf tx.out).length = tx.bytesSent := by
  have begun := once.begun
  have within := once.within
  rw [once.sent, once.bytesSent, List.length_take, List.length_drop]
  omega

theorem Once.concat (once : Once txfcs32 file start phase tx) (sent : Sent) (binary : sent.binary = true)
    (there : sent.type = ZDATA ∨ sent.type = ZEOF → sent.hdr = stohdr tx.bytesSent) (next : Phase)
    (streaming : tx.eofSeen = false → next = .header ∨ next = .block ∨ next = .runaway) (awake : next ≠ .waitack) :
    Once txfcs32 file start next { tx with out := tx.out ++ [.header sent] } where
  sent := by
    have none : dataOf [.header sent] = [] := rfl
    rw [dataOf_append, none, List.append_nil, once.sent]
  begun := once.begun
  within := once.within
  bytesSent := once.bytesSent
  bytcnt := once.bytcnt
  finished := once.finished
  streaming running := ⟨(once.streaming running).1, streaming running⟩
  awake := awake
  placed := by
    apply once.placed.concat
    intro other same kind
    obtain rfl := Command.header.inj same
    rw [once.length_sent, there kind]
  fine command member := by
    rcases List.mem_append.mp member with before | here
    · exact once.fine command before
    · obtain rfl := List.mem_singleton.mp here
      exact binary
  valid := once.valid

theorem Once.sendHeader (once : Once txfcs32 file start phase tx) (type : UInt8) (next : Phase)
    (streaming : tx.eofSeen = false → next = .header ∨ next = .block ∨ next = .runaway) (awake : next ≠ .waitack) :
    Once txfcs32 file start next (sendHeader tx type) :=
  { once.concat ⟨true, type, stohdr tx.bytesSent⟩ rfl (fun _ => rfl) next streaming awake with }

theorem Once.complained (once : Once txfcs32 file start phase tx) (finished : tx.eofSeen = true) (got : Got) :
    Once txfcs32 file start phase (tx.complained got) :=
  { once.concat ⟨true, ZNAK, tx.txhdr⟩ rfl (fun kind => absurd kind (by simp only; decide)) phase
      (fun running => absurd (finished.symm.trans running) nofun) once.awake with }

theorem Once.heard (once : Once txfcs32 file start phase tx) (got : Got) :
    Once txfcs32 file start phase (tx.heard got) :=
  { once with }

theorem Once.acknowledged (once : Once txfcs32 file start phase tx) (got : Got) :
    Once txfcs32 file start phase (tx.acknowledged got) :=
  { once with }

/-- Behind the end of the file no answer moves the sender. -/
theorem Once.getinsync (l : Listening) {tx : Tx} (once : Once txfcs32 file start phase tx)
    (finished : tx.eofSeen = true) :
    Once txfcs32 file start phase (getinsync l tx).2 ∧ (Sender.getinsync l tx).2.eofSeen = true := by
  fun_induction Sender.getinsync l tx with
  | case1 tx got | case2 tx got | case6 tx got | case7 tx got => exact ⟨once.heard got, finished⟩
  | case3 tx got rxpos =>
    have stays : reposition (tx.heard got) rxpos = tx.heard got := if_pos finished
    rw [stays]
    exact ⟨once.heard got, finished⟩
  | case4 tx got => exact ⟨once.acknowledged got, finished⟩
  | case5 tx got _ _ _ _ _ ih => exact ih (once.acknowledged got) finished
  | case8 tx got _ _ _ _ _ _ _ ih => exact ih (once.complained finished got) finished
  | case9 tx got _ _ ih => exact ih (once.complained finished got) finished
  | case10 tx got _ ih => exact ih (once.complained finished got) finished
  | case11 tx got _ ih => exact ih (once.complained finished got) finished

theorem Once.moves (once : Once txfcs32 file start phase tx) (finished : tx.eofSeen = true) (next : Phase)
    (awake : next ≠ .waitack) : Once txfcs32 file start next tx :=
  { once with
    streaming := fun running => absurd (finished.symm.trans running) nofun
    awake := awake }

/-- The sender that has not seen the end of the file never waits. -/
theorem Once.never_waits (once : Once txfcs32 file start phase tx) (low : start < 2 ^ 32)
    (large : file.length + 1 < 2 ^ 64) (running : tx.eofSeen = false) : tx.bytcnt ≠ tx.lastsync := by
  have begun := once.begun
  have within := once.within
  rw [once.bytcnt, (once.streaming running).1]
  omega

theorem take_next (file : QByteArray) (start offset n : Nat) (begun : start ≤ offset) :
    (file.drop start).take (offset - start) ++ (file.drop offset).take n =
      (file.drop start).take (offset + ((file.drop offset).take n).length - start) := by
  have back : offset + ((file.drop offset).take n).length - start =
      offset - start + ((file.drop offset).take n).length := by omega
  have own : (file.drop offset).take ((file.drop offset).take n).length = (file.drop offset).take n :=
    (List.prefix_iff_eq_take.mp (List.take_prefix n _)).symm
  rw [back, List.take_add, List.drop_drop, Nat.add_sub_cancel' begun, own]

theorem frameendOf_streaming (tx : Tx) (waits : tx.eofSeen = false → tx.bytcnt ≠ tx.lastsync) :
    (frameendOf tx).1 = if tx.eofSeen then ZCRCE else ZCRCG := by
  unfold frameendOf
  cases finished : tx.eofSeen with
  | true => rfl
  | false => rw [if_neg (by decide), if_neg (waits finished), if_neg (by decide)]

/-- How much is still to be done: the bytes of the file, and the blocks without a length that come before anything is
known of the size of the files. -/
def todo (file : QByteArray) (tx : Tx) : Nat :=
  file.length - tx.offset + if tx.lengths.totalBytes = 0 then if tx.totalSent = 0 then 2 else 1 else 0

/-- What happens with one block. -/
structure Block (txfcs32 : Bool) (file : QByteArray) (tx : Tx) (packet : Packet) (next : Phase × Tx) : Prop where
  sent : (txfcs32 = true ∨ packet.buf ≠ []) ∧ next.1 = (if next.2.eofSeen then .eof else .block) ∧
      next.2.out = tx.out ++ [.data packet] ∨
    txfcs32 = false ∧ packet.buf = [] ∧ next.1 = .runaway ∧ next.2.out = tx.out
  piece : ∃ n, packet.buf = (file.drop tx.offset).take n
  small : packet.buf.length ≤ MAX_BLOCK
  offset : next.2.offset = tx.offset + packet.buf.length
  bytesSent : next.2.bytesSent = tx.bytesSent + packet.buf.length
  bytcnt : tx.bytcnt = tx.bytesSent → next.2.bytcnt = next.2.bytesSent
  finished : next.2.eofSeen = true ↔ tx.eofSeen = true ∨ file.length ≤ next.2.offset
  ended : packet.frameend = if next.2.eofSeen then ZCRCE else ZCRCG
  lastsync : next.2.lastsync = tx.lastsync
  line : next.2.line = tx.line
  valid : next.2.lengths.Valid MAX_BLOCK
  progress : next.2.eofSeen = false → todo file next.2 < todo file tx

theorem readBlock_over (limits : Limits) (file : QByteArray) (tx : Tx) :
    (readBlock limits file tx).2.eofSeen = true ↔
      tx.eofSeen = true ∨ file.length ≤ (readBlock limits file tx).2.offset := by
  generalize calculated : calcBlklen limits tx.errorCount tx.totalSent tx.lengths = result
  obtain ⟨lengths, blklen⟩ := result
  simp only [readBlock, calculated, zfilbuf, Bool.or_eq_true, decide_eq_true_eq, List.length_take, List.length_drop]
  exact or_congr_right ⟨fun ends => by omega, .inr⟩

theorem readBlock_progress (file : QByteArray) (tx : Tx) (valid : tx.lengths.Valid MAX_BLOCK)
    (running : (readBlock limits file tx).2.eofSeen = false) :
    todo file (readBlock limits file tx).2 < todo file tx := by
  have goes : ¬ (tx.eofSeen = true ∨ file.length ≤ (readBlock limits file tx).2.offset) := by
    rw [← readBlock_over, running]
    decide
  obtain ⟨_, bounds⟩ :=
    calcBlklen_bounds limits (by decide) (by decide) tx.errorCount tx.totalSent tx.lengths valid
  generalize calculated : calcBlklen limits tx.errorCount tx.totalSent tx.lengths = result at bounds
  obtain ⟨lengths, blklen⟩ := result
  have offset : (readBlock limits file tx).2.offset = tx.offset + min blklen (file.length - tx.offset) := by
    simp [readBlock, calculated, zfilbuf]
  have total : (readBlock limits file tx).2.lengths = lengths := by simp only [readBlock, calculated, zfilbuf]
  have sent : (readBlock limits file tx).2.totalSent = tx.totalSent + (blklen + OVERHEAD) := by
    simp only [readBlock, calculated, zfilbuf]
  rw [offset] at goes
  rw [todo, todo, offset, total, sent]
  by_cases unknown : tx.lengths.totalBytes = 0
  · rw [if_pos unknown] at bounds ⊢
    obtain ⟨zero, counted⟩ := bounds
    dsimp only at zero counted
    rw [counted, OVERHEAD]
    by_cases unsent : tx.totalSent = 0
    · rw [if_pos unsent, if_pos unsent, if_neg (by omega)]
      omega
    · rw [if_neg unsent, if_neg unsent]
      omega
  · rw [if_neg unknown] at bounds ⊢
    dsimp only at bounds
    rw [if_neg (by omega)]
    omega

theorem of_readBlock {file buf : QByteArray} {tx after : Tx} (valid : tx.lengths.Valid MAX_BLOCK)
    (found : readBlock limits file tx = (buf, after)) :
    (∃ n ≤ MAX_BLOCK, buf = (file.drop tx.offset).take n) ∧ after.offset = tx.offset + buf.length ∧
      after.lengths.Valid MAX_BLOCK ∧ after.out = tx.out ∧ after.bytesSent = tx.bytesSent ∧ after.bytcnt = tx.bytcnt ∧
      after.lastsync = tx.lastsync ∧ after.line = tx.line := by
  obtain ⟨stillValid, bounds⟩ :=
    calcBlklen_bounds limits (by decide) (by decide) tx.errorCount tx.totalSent tx.lengths valid
  generalize calculated : calcBlklen limits tx.errorCount tx.totalSent tx.lengths = result at stillValid bounds
  obtain ⟨lengths, blklen⟩ := result
  have short : blklen ≤ MAX_BLOCK := by
    split at bounds
    · exact bounds.1.le.trans (Nat.zero_le _)
    · exact bounds.2.2
  simp only [readBlock, calculated, zfilbuf, Prod.mk.injEq] at found
  obtain ⟨rfl, rfl⟩ := found
  exact ⟨⟨blklen, short, rfl⟩, rfl, stillValid, rfl, rfl, rfl, rfl, rfl⟩

theorem sendBlock_block (file : QByteArray) (tx : Tx) (valid : tx.lengths.Valid MAX_BLOCK)
    (waits : tx.eofSeen = false → tx.bytcnt ≠ tx.lastsync) :
    ∃ packet, Block txfcs32 file tx packet (sendBlock txfcs32 limits file tx) := by
  have finished := readBlock_over limits file tx
  have progress := readBlock_progress file tx valid
  rcases found : readBlock limits file tx with ⟨buf, after⟩
  obtain ⟨⟨n, short, piece⟩, offset, stillValid, out, bytesSent, bytcnt, lastsync, line⟩ := of_readBlock valid found
  rw [found] at finished progress
  have ends : (frameendOf after).1 = if after.eofSeen then ZCRCE else ZCRCG := by
    apply frameendOf_streaming
    intro running
    rw [bytcnt, lastsync]
    apply waits
    by_contra seen
    rw [finished.mpr (.inl (by simpa using seen))] at running
    cases running
  have notW : ¬ (frameendOf after).1 = ZCRCW := by
    rw [ends]
    split <;> decide
  let packet : Packet := ⟨buf, (frameendOf after).1, (frameendOf after).2⟩
  -- whether the block goes out or not, the rest of the state is what `readBlock` leaves
  have block : ∀ (phase : Phase) (commands : List Command) (sent counted : Nat),
      ((txfcs32 = true ∨ buf ≠ []) ∧ phase = (if after.eofSeen then .eof else .block) ∧
          commands = tx.out ++ [.data packet] ∨
        txfcs32 = false ∧ buf = [] ∧ phase = .runaway ∧ commands = tx.out) →
      sent = tx.bytesSent + buf.length → (tx.bytcnt = tx.bytesSent → counted = sent) →
      Block txfcs32 file tx packet (phase, { after with out := commands, bytesSent := sent, bytcnt := counted }) := by
    intro phase commands sent counted carried total same
    exact {
      sent := carried
      piece := ⟨n, piece⟩
      small := by
        change buf.length ≤ _
        rw [piece, List.length_take]
        omega
      offset := offset
      bytesSent := total
      bytcnt := same
      finished := finished
      ended := ends
      lastsync := lastsync
      line := line
      valid := stillValid
      progress := progress }
  refine ⟨packet, ?_⟩
  simp only [sendBlock, found, if_neg notW]
  split
  next empty =>
    obtain ⟨rfl, narrow⟩ := empty
    exact block .runaway after.out after.bytesSent after.bytcnt (.inr ⟨narrow, rfl, rfl, out⟩) bytesSent
      fun same => by rw [bytcnt, bytesSent, same]
  next filled =>
    refine block _ _ _ _ (.inl ⟨?_, rfl, by rw [out]⟩) (by rw [bytesSent]) fun _ => rfl
    cases txfcs32 with
    | true => exact .inl rfl
    | false => exact .inr fun empty => filled ⟨empty, rfl⟩

theorem Once.sendBlock (once : Once txfcs32 file start .block tx) (low : start < 2 ^ 32)
    (large : file.length + 1 < 2 ^ 64) :
    Once txfcs32 file start (sendBlock txfcs32 limits file tx).1 (sendBlock txfcs32 limits file tx).2 := by
  obtain ⟨packet, block⟩ := sendBlock_block file tx once.valid (once.never_waits low large)
  obtain ⟨n, piece⟩ := block.piece
  have fits : packet.buf.length ≤ file.length - tx.offset := by
    rw [piece, List.length_take, List.length_drop]
    omega
  have begun := once.begun
  have within := once.within
  exact {
    sent := by
      have goes : dataOf (Sender.sendBlock txfcs32 limits file tx).2.out = dataOf tx.out ++ packet.buf := by
        rcases block.sent with ⟨_, _, out⟩ | ⟨_, empty, _, out⟩
        · rw [out, dataOf_append]
          exact congrArg (dataOf tx.out ++ ·) (List.append_nil packet.buf)
        · rw [out, empty, List.append_nil]
      rw [goes, block.offset, once.sent, piece, take_next file start tx.offset n begun]
    begun := by rw [block.offset]; omega
    within := by rw [block.offset]; omega
    bytesSent := by rw [block.bytesSent, block.offset, once.bytesSent]
    bytcnt := by
      rw [block.bytcnt (once.bytcnt.trans once.bytesSent.symm), block.bytesSent, block.offset, once.bytesSent]
    finished := fun seen => (block.finished.mp seen).elim
      (fun before => (once.finished before).trans (by rw [block.offset]; omega)) id
    streaming := fun running => by
      have before : tx.eofSeen = false := by
        by_contra seen
        rw [block.finished.mpr (.inl (by simpa using seen))] at running
        cases running
      rw [block.lastsync]
      refine ⟨(once.streaming before).1, .inr ?_⟩
      rcases block.sent with ⟨_, phase, _⟩ | ⟨_, _, phase, _⟩
      · rw [phase, running]
        exact .inl rfl
      · exact .inr phase
    awake := by
      rcases block.sent with ⟨_, phase, _⟩ | ⟨_, _, phase, _⟩
      · rw [phase]
        split <;> nofun
      · rw [phase]
        nofun
    placed := by
      rcases block.sent with ⟨_, _, out⟩ | ⟨_, _, _, out⟩
      · rw [out]
        exact once.placed.concat _ nofun
      · rw [out]
        exact once.placed
    fine := fun command member => by
      rcases block.sent with ⟨filled, _, out⟩ | ⟨_, _, _, out⟩
      · rw [out] at member
        rcases List.mem_append.mp member with before | here
        · exact once.fine command before
        · obtain rfl := List.mem_singleton.mp here
          exact ⟨block.small, filled⟩
      · exact once.fine command (out ▸ member)
    valid := block.valid }

theorem Once.step {state : Phase × Tx} (once : Once txfcs32 file start state.1 state.2) (low : start < 2 ^ 32)
    (large : file.length + 1 < 2 ^ 64) (l : Listening) :
    Once txfcs32 file start (step txfcs32 limits l file state).1 (step txfcs32 limits l file state).2 := by
  obtain ⟨phase, tx⟩ := state
  cases phase with
  | header => exact once.sendHeader ZDATA .block (fun _ => .inr (.inl rfl)) nofun
  | block => exact once.sendBlock low large
  | runaway => exact once
  | waitack => exact absurd rfl once.awake
  | eof =>
    have finished : tx.eofSeen = true := by
      by_contra running
      rcases (once.streaming (by simpa using running)).2 with same | same | same <;> cases same
    obtain ⟨kept, still⟩ :=
      (once.sendHeader ZEOF .eof (fun running => (once.streaming running).2) nofun).getinsync l finished
    rcases found : Sender.getinsync l (Sender.sendHeader tx ZEOF) with ⟨c, after⟩
    rw [found] at kept still
    cases c <;> simp only [Sender.step, found] <;> exact kept.moves still _ nofun
  | done verdict => exact once

theorem Once.reaches (low : start < 2 ^ 32) (large : file.length + 1 < 2 ^ 64) (l : Listening)
    {state final : Phase × Tx} (once : Once txfcs32 file start state.1 state.2)
    (reached : Reaches (Sender.step txfcs32 limits l file) state final) : Once txfcs32 file start final.1 final.2 :=
  reached.invariant (fun state => Once txfcs32 file start state.1 state.2) (fun _ once => once.step low large l) once

theorem Once.begin (file : QByteArray) (start : Nat) (tx : Tx) (fresh : tx.out = []) (unseen : tx.eofSeen = false)
    (valid : tx.lengths.Valid MAX_BLOCK) : Once txfcs32 file start (begin tx start).1 (begin tx start).2 where
  sent := by
    rw [Sender.begin, fresh]
    simp [dataOf]
  begun := Nat.le_refl _
  within := Nat.le_max_left _ _
  bytesSent := rfl
  bytcnt := rfl
  finished seen := absurd (unseen.symm.trans seen) nofun
  streaming _ := ⟨rfl, .inl rfl⟩
  awake := nofun
  placed front sent back split := by
    rw [Sender.begin, fresh] at split
    cases front <;> cases split
  fine command member := by
    rw [Sender.begin, fresh] at member
    cases member
  valid := valid

/-- With the 32 bit check every block comes to an end. -/
theorem never_runs_away (l : Listening) (file : QByteArray) {state final : Phase × Tx} (comes : state.1 ≠ .runaway)
    (reached : Reaches (step true limits l file) state final) : final.1 ≠ .runaway := by
  refine reached.invariant (fun state => state.1 ≠ .runaway) (fun state comes => ?_) comes
  obtain ⟨phase, tx⟩ := state
  cases phase with
  | header => rintro ⟨⟩
  | block =>
    simp only [Sender.step, sendBlock, Bool.true_eq_false, and_false, if_false]
    split_ifs <;> rintro ⟨⟩
  | waitack =>
    rw [Sender.step]
    split
    dsimp only
    split <;> rintro ⟨⟩
  | eof =>
    rw [Sender.step]
    split <;> rintro ⟨⟩
  | runaway => exact comes
  | done verdict => rintro ⟨⟩

/-- Whatever the receiver answers, the sender sends no byte of the file twice: its data is a beginning of what it was
asked for, every header names the right place, and there is nothing left when it ends. All that it sends is written to
its end, except an empty block without the 32 bit check. -/
theorem zsendfdata_once (s : Sending) (file : QByteArray) (start : Nat) (low : start < 2 ^ 32)
    (large : file.length + 1 < 2 ^ 64) (l : Listening) (tx : Tx) (fresh : tx.out = []) (unseen : tx.eofSeen = false)
    (valid : tx.lengths.Valid MAX_BLOCK) (w : Written) (same : w.crc32t = s.fcs32) (final : Phase × Tx)
    (reached : Reaches (step s.fcs32 limits l file) (begin tx start) final) :
    dataOf final.2.out <+: file.drop start ∧ Placed start final.2.out ∧
      (∀ packet, .data packet ∈ final.2.out → packet.buf.length ≤ MAX_BLOCK) ∧
      (∃ w', final.2.out.foldlM (perform s) w = .ok w') ∧ (s.fcs32 = true → final.1 ≠ .runaway) ∧
      ∀ verdict, final.1 = .done verdict → dataOf final.2.out = file.drop start := by
  have once := (Once.begin file start tx fresh unseen valid).reaches low large l reached
  refine ⟨?_, once.placed, fun packet member => (once.fine _ member).1, ?_, fun long => ?_, fun verdict ended => ?_⟩
  · rw [once.sent]
    exact List.take_prefix _ _
  · obtain ⟨w', performed, _⟩ := performs_fine s final.2.out once.fine w same
    exact ⟨w', performed⟩
  · rw [long] at reached
    exact never_runs_away l file (show Phase.header ≠ .runaway by rintro ⟨⟩) reached
  · have finished : final.2.eofSeen = true := by
      by_contra running
      rcases (once.streaming (by simpa using running)).2 with same | same | same <;>
        · rw [ended] at same
          cases same
    have all := once.finished finished
    rw [once.sent, List.take_of_length_le]
    rw [List.length_drop]
    omega

/-- The state of the program before its first file, with the answers that it will hear. -/
def initial (line : QByteArray) : Tx where
  lengths := {}
  totalSent := 0
  blklen := MAX_BLOCK
  errorCount := 0
  bytesSent := 0
  eofSeen := false
  offset := 0
  bytcnt := 0
  lrxpos := 0
  lastsync := 0
  txhdr := stohdr 0
  rxhdr := stohdr 0
  c := none
  line
  out := []

theorem zsendfdata_once_asked_again :
    let s : Sending := ⟨⟨true, false⟩, true, 0⟩
    let final := (step true limits ⟨true, 3800⟩ [1, 2, 3])^[8]
      (begin (initial (zshhdr { lastsent := 0 } ZRPOS (stohdr 1)).bytes) 0)
    dataOf final.2.out <+: [1, 2, 3] ∧ Placed 0 final.2.out ∧
      (∀ packet, .data packet ∈ final.2.out → packet.buf.length ≤ MAX_BLOCK) ∧
      (∃ w', final.2.out.foldlM (perform s) ⟨{ lastsent := 0 }, true⟩ = .ok w') ∧ (true = true → final.1 ≠ .runaway) ∧
      ∀ verdict, final.1 = .done verdict → dataOf final.2.out = [1, 2, 3] :=
  zsendfdata_once ⟨⟨true, false⟩, true, 0⟩ [1, 2, 3] 0 (by decide) (by decide) ⟨true, 3800⟩
    (initial (zshhdr { lastsent := 0 } ZRPOS (stohdr 1)).bytes) rfl rfl (.inl rfl) ⟨{ lastsent := 0 }, true⟩ rfl _
    ⟨8, rfl⟩

/-! ## The sender ends -/

/-- The subpackets of one pass: all of them but the last go on. -/
inductive Stream : List Packet → Prop where
  | last {packet : Packet} : packet.frameend = ZCRCE → Stream [packet]
  | more {packet : Packet} {packets : List Packet} :
      packet.frameend = ZCRCG → Stream packets → Stream (packet :: packets)

/-- From a block on, the rest of the file goes out without listening. -/
theorem blocks_reach_eof (file : QByteArray) (start : Nat) (low : start < 2 ^ 32) (large : file.length + 1 < 2 ^ 64)
    (l : Listening) (tx : Tx) (once : Once txfcs32 file start .block tx) :
    (∃ packets after, Reaches (step txfcs32 limits l file) (.block, tx) (.eof, after) ∧
      after.out = tx.out ++ packets.map .data ∧ Stream packets ∧
      (packets.flatMap fun packet => packet.buf) = file.drop tx.offset ∧ after.line = tx.line) ∨
    txfcs32 = false ∧ ∃ after, Reaches (step txfcs32 limits l file) (.block, tx) (.runaway, after) := by
  induction left : todo file tx using Nat.strongRecOn generalizing tx with
  | ind _ ih =>
    obtain ⟨packet, block⟩ := sendBlock_block file tx once.valid (once.never_waits low large)
    obtain ⟨length, piece⟩ := block.piece
    have first : step txfcs32 limits l file (.block, tx) = sendBlock txfcs32 limits file tx := rfl
    have next := once.sendBlock low large
    rcases found : sendBlock txfcs32 limits file tx with ⟨phase, after⟩
    rw [found] at block next first
    have offset : after.offset = tx.offset + packet.buf.length := block.offset
    rcases block.sent with ⟨_, goes, sent⟩ | ⟨narrow, _, rfl, _⟩
    · have out : after.out = tx.out ++ [.data packet] := sent
      cases finished : after.eofSeen with
      | true =>
        obtain rfl : phase = .eof := by simpa [finished] using goes
        have reached : file.length ≤ tx.offset + packet.buf.length := offset ▸ next.finished finished
        refine .inl ⟨[packet], after, .of_step first, out, .last (by simpa [finished] using block.ended), ?_,
          block.line⟩
        rw [List.flatMap_singleton, piece, List.take_of_length_le]
        rw [piece, List.length_take, List.length_drop] at reached
        rw [List.length_drop]
        omega
      | false =>
        obtain rfl : phase = .block := by simpa [finished] using goes
        rcases ih (todo file after) (left ▸ block.progress finished) after next rfl with
          ⟨packets, last, reached, others, stream, data, line⟩ | ⟨narrow, last, reached⟩
        · refine .inl ⟨packet :: packets, last, reached.head first, ?_,
            .more (by simpa [finished] using block.ended) stream, ?_, line.trans block.line⟩
          · rw [others, out, List.map_cons, List.append_assoc, List.singleton_append]
          · rw [List.flatMap_cons, data, offset, ← List.drop_drop]
            nth_rewrite 1 [show packet.buf = (file.drop tx.offset).take packet.buf.length from
              List.prefix_iff_eq_take.mp (piece ▸ List.take_prefix length _)]
            exact List.take_append_drop _ _
        · exact .inr ⟨narrow, last, reached.head first⟩
    · exact .inr ⟨narrow, after, .of_step first⟩

theorem header_reaches_eof (file : QByteArray) (start : Nat) (low : start < 2 ^ 32) (large : file.length + 1 < 2 ^ 64)
    (l : Listening) (tx : Tx) (once : Once txfcs32 file start .header tx) :
    (∃ packets after, Reaches (step txfcs32 limits l file) (.header, tx) (.eof, after) ∧
      after.out = tx.out ++ .header ⟨true, ZDATA, stohdr tx.bytesSent⟩ :: packets.map .data ∧ Stream packets ∧
      (packets.flatMap fun packet => packet.buf) = file.drop tx.offset ∧ after.line = tx.line) ∨
    txfcs32 = false ∧ ∃ after, Reaches (step txfcs32 limits l file) (.header, tx) (.runaway, after) := by
  have header := once.sendHeader ZDATA .block (fun _ => .inr (.inl rfl)) nofun
  rcases blocks_reach_eof file start low large l _ header with
    ⟨packets, after, reached, out, stream, data, line⟩ | ⟨narrow, after, reached⟩
  · refine .inl ⟨packets, after, reached.head rfl, ?_, stream, data, line⟩
    rw [out, sendHeader, List.append_assoc, List.singleton_append]
  · exact .inr ⟨narrow, after, reached.head rfl⟩

/-- Without the 32 bit check, a pass over a file of which nothing is left runs away: all of `txbuf` goes out after the
header, and what stands behind it in memory. -/
theorem zsendfdata_runs_away (s : Sending) (narrow : s.fcs32 = false) (file : QByteArray) (l : Listening) (tx : Tx)
    (nothing : file.length ≤ tx.offset) (w : Written) (txbuf : QByteArray) (size : txbuf.length = MAX_BLOCK) :
    ∃ after w', Reaches (step s.fcs32 limits l file) (.header, tx) (.runaway, after) ∧
      after.out = tx.out ++ [.header ⟨true, ZDATA, stohdr tx.bytesSent⟩] ∧
      perform s w (.header ⟨true, ZDATA, stohdr tx.bytesSent⟩) = .ok w' ∧
      ZSDATA s.escaping w'.crc32t w'.out txbuf 0 (frameendOf after).1 =
        .error (txbuf.foldl (zsendline s.escaping) w'.out) := by
  have empty : (readBlock limits file (sendHeader tx ZDATA)).1 = [] := by
    have past : file.drop (sendHeader tx ZDATA).offset = [] := List.drop_eq_nil_of_le nothing
    simp only [readBlock, zfilbuf, past, List.take_nil]
  have second : step s.fcs32 limits l file (.block, sendHeader tx ZDATA) =
      (.runaway, (readBlock limits file (sendHeader tx ZDATA)).2) := by
    simp only [step, sendBlock, empty, narrow, and_self, if_true]
  refine ⟨_, _, .head rfl (.of_step second), rfl, rfl, ?_⟩
  rw [narrow, ZSDATA, if_neg (by simp)]
  exact zsdata_runs_away s.escaping _ txbuf (by rw [size]; decide) _

theorem zsendfdata_runs_away_resumed :
    ∃ after w', Reaches (step false limits ⟨false, 3800⟩ [1, 2, 3]) (begin (initial []) 3) (.runaway, after) ∧
      after.out = [.header ⟨true, ZDATA, stohdr 3⟩] ∧
      perform ⟨⟨false, false⟩, false, 0⟩ ⟨{ lastsent := 0 }, false⟩ (.header ⟨true, ZDATA, stohdr 3⟩) = .ok w' ∧
      ZSDATA ⟨false, false⟩ w'.crc32t w'.out (List.replicate MAX_BLOCK 65) 0 (frameendOf after).1 =
        .error ((List.replicate MAX_BLOCK 65).foldl (zsendline ⟨false, false⟩) w'.out) :=
  zsendfdata_runs_away ⟨⟨false, false⟩, false, 0⟩ rfl [1, 2, 3] ⟨false, 3800⟩ (begin (initial []) 3).2 (by decide)
    ⟨{ lastsent := 0 }, false⟩ (List.replicate MAX_BLOCK 65) List.length_replicate

end Woterm.Zmodem.Sender
