import Woterm.Ssh.Authfile

/-!
Loading an encrypted private key: the growing buffer of `sshbuf.c`, `sshkey_load_file`, and the
decryption in front of the parser that `sshkey_load_private_type_fd` and `sshkey_load_private` share.
Memory allocation and the operations on the file succeed.

The decryption passes the end offset of the buffer as the length of the data, although the data starts
behind the flag: it runs over the end of the data by the seven bytes of the flag.
-/

namespace Woterm.Ssh.Keyfile
open Woterm.Lib Woterm.Qt Woterm.Utils Woterm.Ssh.Authfile

inductive SshErr where
  | noBufferSpace
  | messageIncomplete
  | invalidFormat
  | fileChanged
deriving DecidableEq, Repr

def sshbufSizeMax : Nat := 0x8000000
def sshbufSizeInit : Nat := 256
def sshbufSizeInc : Nat := 256
def sshbufPackMin : Nat := 8192
def maxKeyFileSize : Nat := 1024 * 1024

/-- The macro `ROUNDUP`. -/
def roundup (x y : Nat) : Nat := (x + (y - 1)) / y * y

/-- A writable buffer. `alloc` is the number of its bytes, and the fields are related as
`sshbuf_check_sanity` demands. -/
structure Sshbuf where
  d : List UInt8
  off : Nat
  size : Nat
  maxSize : Nat
  off_le : off ≤ size
  size_le : size ≤ d.length
  alloc_le : d.length ≤ maxSize
  max_le : maxSize ≤ sshbufSizeMax

namespace Sshbuf

def len (buf : Sshbuf) : Nat := buf.size - buf.off

def new : Sshbuf where
  d := List.replicate sshbufSizeInit 0
  off := 0
  size := 0
  maxSize := sshbufSizeMax
  off_le := Nat.le_refl 0
  size_le := Nat.zero_le _
  alloc_le := by
    rw [List.length_replicate]
    decide
  max_le := Nat.le_refl _

/-- `sshbuf_check_reserve`. -/
def canReserve (buf : Sshbuf) (len : Nat) : Prop := len ≤ buf.maxSize ∧ buf.size - buf.off ≤ buf.maxSize - len

instance (buf : Sshbuf) (len : Nat) : Decidable (buf.canReserve len) := inferInstanceAs (Decidable (_ ∧ _))

/-- The packed buffer: `memmove` to the start. -/
def pack (buf : Sshbuf) : Sshbuf where
  d := (buf.d.take buf.size).drop buf.off ++ buf.d.drop (buf.size - buf.off)
  off := 0
  size := buf.size - buf.off
  maxSize := buf.maxSize
  off_le := Nat.zero_le _
  size_le := by
    have := buf.size_le
    simp
    omega
  alloc_le := by
    have := buf.size_le
    have := buf.off_le
    have := buf.alloc_le
    simp
    omega
  max_le := buf.max_le

def maybePack (buf : Sshbuf) (force : Bool) : Sshbuf :=
  if buf.off = 0 then buf
  else if force || (sshbufPackMin ≤ buf.off && buf.size / 2 ≤ buf.off) then buf.pack
  else buf

/-- More memory behind the bytes, filled with zero. -/
def grow (buf : Sshbuf) (rlen : Nat) (fits : rlen ≤ buf.maxSize) : Sshbuf where
  d := buf.d ++ List.replicate (rlen - buf.d.length) 0
  off := buf.off
  size := buf.size
  maxSize := buf.maxSize
  off_le := buf.off_le
  size_le := by
    have := buf.size_le
    simp
    omega
  alloc_le := by
    have := buf.alloc_le
    simp
    omega
  max_le := buf.max_le

theorem maybePack_fits (buf : Sshbuf) (len : Nat) (room : buf.canReserve len) :
    let packed := buf.maybePack (buf.maxSize < buf.size + len)
    packed.maxSize = buf.maxSize ∧ len + packed.size ≤ buf.maxSize := by
  obtain ⟨first, second⟩ := room
  unfold maybePack
  dsimp only
  split_ifs with zero force
  · exact ⟨rfl, by omega⟩
  · exact ⟨rfl, by simp only [pack]; omega⟩
  · refine ⟨rfl, ?_⟩
    simp only [Bool.or_eq_true, decide_eq_true_eq, not_or] at force
    omega

theorem grow_room (buf : Sshbuf) (rlen : Nat) (fits : rlen ≤ buf.maxSize) (len : Nat)
    (room : len + buf.size ≤ rlen) : len + (buf.grow rlen fits).size ≤ (buf.grow rlen fits).d.length := by
  simp only [grow, List.length_append, List.length_replicate]
  omega

theorem le_roundup (x : Nat) : x ≤ roundup x sshbufSizeInc := by
  unfold roundup sshbufSizeInc
  omega

/-- `sshbuf_allocate`: a buffer with room for `len` more bytes. -/
def allocate (buf : Sshbuf) (len : Nat) : Except SshErr { buf : Sshbuf // len + buf.size ≤ buf.d.length } :=
  if room : buf.canReserve len then
    let packed := buf.maybePack (buf.maxSize < buf.size + len)
    if enough : len + packed.size ≤ packed.d.length then .ok ⟨packed, enough⟩
    else
      let need := len + packed.size - packed.d.length
      have wanted : packed.d.length + need = len + packed.size := by omega
      have rounded := le_roundup (packed.d.length + need)
      -- whole units, unless these would be more than is allowed at all
      if unit : roundup (packed.d.length + need) sshbufSizeInc ≤ packed.maxSize then
        .ok ⟨packed.grow _ unit, grow_room _ _ _ _ (wanted ▸ rounded)⟩
      else
        have fits : packed.d.length + need ≤ packed.maxSize := by
          obtain ⟨same, limit⟩ := maybePack_fits buf len room
          rw [wanted, same]
          exact limit
        .ok ⟨packed.grow _ fits, grow_room _ _ _ _ (Nat.le_of_eq wanted.symm)⟩
  else .error .noBufferSpace

/-- `sshbuf_reserve` and the copy of the bytes to the reserved place. -/
def append (buf : Sshbuf) (v : List UInt8) (room : v.length + buf.size ≤ buf.d.length) : Sshbuf where
  d := buf.d.take buf.size ++ v ++ buf.d.drop (buf.size + v.length)
  off := buf.off
  size := buf.size + v.length
  maxSize := buf.maxSize
  off_le := Nat.le_trans buf.off_le (Nat.le_add_right _ _)
  size_le := by
    simp
    omega
  alloc_le := by
    have := buf.alloc_le
    simp
    omega
  max_le := buf.max_le

def put (buf : Sshbuf) (v : List UInt8) : Except SshErr Sshbuf := do
  let reserved ← buf.allocate v.length
  return reserved.val.append v reserved.property

def consume (buf : Sshbuf) (len : Nat) : Except SshErr Sshbuf :=
  if len = 0 then .ok buf
  else if short : buf.len < len then .error .messageIncomplete
  else if buf.off + len = buf.size then
    .ok { buf with
      off := 0
      size := 0
      off_le := Nat.le_refl 0
      size_le := Nat.zero_le _ }
  else
    .ok { buf with
      off := buf.off + len
      off_le := by
        simp only [Sshbuf.len] at short
        have := buf.off_le
        omega }

end Sshbuf

/-- The loop of `sshkey_load_file` over the rest of the file, 1024 bytes at a time. -/
def loadLoop (blob : Sshbuf) (rest : List UInt8) : Except SshErr Sshbuf :=
  if rest.isEmpty then .ok blob
  else do
    let blob ← blob.put (rest.take 1024)
    if maxKeyFileSize < blob.len then .error .invalidFormat
    else loadLoop blob (rest.drop 1024)
termination_by rest.length
decreasing_by
  rename_i nonempty _
  have := List.length_pos_iff.mpr (mt List.isEmpty_iff.mpr nonempty)
  simp
  omega

def sshkeyLoadFile (content : List UInt8) (blob : Sshbuf) : Except SshErr Sshbuf :=
  if maxKeyFileSize < content.length then .error .invalidFormat
  else do
    let blob ← loadLoop blob content
    if blob.len = content.length then .ok blob else .error .fileChanged

/-- The buffer that the parser receives, with the bytes that the decryption has left in it. -/
structure Decrypted where
  buffer : Sshbuf
  memory : Memory

/-- The decryption; no result when it leaves the memory of the buffer. -/
def decrypt (buffer : Sshbuf) : Option Decrypted :=
  let len := wotermFileFlag.length - 1
  if (wotermFileFlag.take len).isPrefixOf (buffer.d.drop buffer.off) then
    -- what `sshbuf_consume` returns is not looked at
    let buffer := (buffer.consume len).toOption.getD buffer
    (rc4Crypt keyTable { bytes := buffer.d } buffer.off buffer.size).map fun memory => { buffer, memory }
  else some { buffer, memory := { bytes := buffer.d } }

/-- What both callers do before they parse the key. -/
def loadDecrypted (content : List UInt8) : Except SshErr (Option Decrypted) := do
  let buffer ← sshkeyLoadFile content Sshbuf.new
  return decrypt buffer

def sshkeyLoadPrivateTypeFd (content : List UInt8) : Except SshErr (Option Decrypted) := loadDecrypted content

def sshkeyLoadPrivate (content : List UInt8) : Except SshErr (Option Decrypted) := loadDecrypted content

/-! ## The buffer of a file -/

/-- The units that `size` bytes need, at least the initial one. -/
def units (size : Nat) : Nat := max sshbufSizeInit (roundup size sshbufSizeInc)

theorem units_enough (size len : Nat) (enough : len + size ≤ units size) : units size = units (size + len) := by
  unfold units roundup sshbufSizeInit sshbufSizeInc at *
  omega

theorem units_grown (size len : Nat) (short : ¬ len + size ≤ units size) :
    units size + (roundup (units size + (len + size - units size)) sshbufSizeInc - units size) =
      units (size + len) := by
  unfold units roundup sshbufSizeInit sshbufSizeInc at *
  omega

/-- A buffer that holds exactly these bytes, from its start, in as many units as they need. -/
structure Holds (blob : Sshbuf) (bytes : List UInt8) : Prop where
  off : blob.off = 0
  limit : blob.maxSize = sshbufSizeMax
  size : blob.size = bytes.length
  data : ∃ rest, blob.d = bytes ++ rest
  alloc : blob.d.length = units bytes.length

theorem Holds.new : Holds Sshbuf.new [] where
  off := rfl
  limit := rfl
  size := rfl
  data := ⟨_, rfl⟩
  alloc := by
    rw [Sshbuf.new, List.length_replicate]
    rfl

variable (blob : Sshbuf) (payload : List UInt8)

theorem allocate_holds (bytes : List UInt8) (held : Holds blob bytes) (len : Nat)
    (small : bytes.length + len ≤ 2 * maxKeyFileSize) :
    ∃ next, blob.allocate len = .ok next ∧ next.val.off = 0 ∧ next.val.maxSize = sshbufSizeMax ∧
      next.val.size = bytes.length ∧ (∃ rest, next.val.d = bytes ++ rest) ∧
      next.val.d.length = units (bytes.length + len) := by
  obtain ⟨off, limit, size, ⟨rest, data⟩, alloc⟩ := held
  have packed : blob.maybePack (blob.maxSize < blob.size + len) = blob := if_pos off
  have room : blob.canReserve len := by
    unfold Sshbuf.canReserve
    rw [limit, size, off]
    unfold sshbufSizeMax
    unfold maxKeyFileSize at small
    omega
  unfold Sshbuf.allocate
  rw [dif_pos room]
  dsimp only
  split_ifs with enough unit
  · refine ⟨⟨_, enough⟩, rfl, ?_⟩
    rw [packed] at enough
    dsimp only
    rw [packed]
    rw [size, alloc] at enough
    exact ⟨off, limit, size, ⟨rest, data⟩, alloc.trans (units_enough _ _ enough)⟩
  · refine ⟨_, rfl, ?_⟩
    rw [packed] at enough
    dsimp only [Sshbuf.grow]
    rw [packed]
    refine ⟨off, limit, size, ⟨_, by rw [data, List.append_assoc]⟩, ?_⟩
    rw [size, alloc] at enough
    rw [List.length_append, List.length_replicate, size, alloc]
    exact units_grown _ _ enough
  · rw [packed, limit] at unit
    rw [packed] at enough
    unfold roundup sshbufSizeInc sshbufSizeMax at unit
    unfold maxKeyFileSize at small
    omega

theorem put_holds (bytes : List UInt8) (held : Holds blob bytes) (v : List UInt8)
    (small : bytes.length + v.length ≤ 2 * maxKeyFileSize) :
    ∃ next, blob.put v = .ok next ∧ Holds next (bytes ++ v) := by
  obtain ⟨⟨next, room⟩, found, off, limit, size, ⟨rest, data⟩, alloc⟩ :=
    allocate_holds blob bytes held v.length small
  refine ⟨next.append v room, ?_, ?_⟩
  · rw [Sshbuf.put, found]
    rfl
  · have front : next.d.take next.size = bytes := by rw [size, data, List.take_left]
    refine ⟨off, limit, ?_, ⟨next.d.drop (next.size + v.length), ?_⟩, ?_⟩
    · rw [List.length_append, ← size]
      rfl
    · exact congrArg (· ++ v ++ next.d.drop (next.size + v.length)) front
    · rw [List.length_append, ← alloc]
      simp [Sshbuf.append]
      omega

theorem loadLoop_holds (blob : Sshbuf) (bytes rest : List UInt8) (held : Holds blob bytes)
    (small : bytes.length + rest.length ≤ maxKeyFileSize) :
    ∃ next, loadLoop blob rest = .ok next ∧ Holds next (bytes ++ rest) := by
  rw [loadLoop]
  split
  · rename_i empty
    exact ⟨blob, rfl, by rw [List.isEmpty_iff.mp empty, List.append_nil]; exact held⟩
  · rename_i nonempty
    have split : (rest.take 1024).length + (rest.drop 1024).length = rest.length := by simp; omega
    have progress : (rest.drop 1024).length < rest.length := by
      have := List.length_pos_iff.mpr (mt List.isEmpty_iff.mpr nonempty)
      simp
      omega
    obtain ⟨more, added, larger⟩ := put_holds blob bytes held (rest.take 1024) (by omega)
    have below : ¬ maxKeyFileSize < more.len := by
      rw [Sshbuf.len, larger.size, List.length_append]
      omega
    obtain ⟨next, loaded, final⟩ := loadLoop_holds more (bytes ++ rest.take 1024) (rest.drop 1024) larger
      (by rw [List.length_append]; omega)
    refine ⟨next, ?_, ?_⟩
    · rw [added]
      exact (if_neg below).trans loaded
    · rw [List.append_assoc, List.take_append_drop] at final
      exact final
termination_by rest.length

theorem sshkeyLoadFile_holds (content : List UInt8) (small : content.length ≤ maxKeyFileSize) :
    ∃ blob, sshkeyLoadFile content Sshbuf.new = .ok blob ∧ Holds blob content := by
  obtain ⟨blob, loaded, held⟩ := loadLoop_holds Sshbuf.new [] content Holds.new (by simpa using small)
  rw [List.nil_append] at held
  have whole : blob.len = content.length := by rw [Sshbuf.len, held.size, held.off, Nat.sub_zero]
  refine ⟨blob, ?_, held⟩
  rw [sshkeyLoadFile, if_neg (Nat.not_lt.mpr small), loaded]
  exact if_pos whole

/-! ## The decryption -/

/-- The bytes that the parser sees. -/
def Decrypted.data (result : Decrypted) : List UInt8 :=
  (result.memory.bytes.take result.buffer.size).drop result.buffer.off

/-- The decryption has used no byte outside of the data and leaves the plain text there. -/
def Inside (payload : List UInt8) (loaded : Option Decrypted) : Prop :=
  ∃ result, loaded = some result ∧
    (∀ i ∈ result.memory.touched, result.buffer.off ≤ i ∧ i < result.buffer.size) ∧
    result.data = rc4 payload wotermKey

theorem consume_flag (held : Holds blob (wotermFlag ++ payload)) :
    ∃ next, blob.consume 7 = .ok next ∧ next.d = blob.d ∧ next.off = (if payload = [] then 0 else 7) ∧
      next.size = if payload = [] then 0 else 7 + payload.length := by
  have size : blob.size = 7 + payload.length := by
    rw [held.size, List.length_append]
    rfl
  have enough : ¬ blob.len < 7 := by
    rw [Sshbuf.len, size, held.off]
    omega
  have off := held.off
  unfold Sshbuf.consume
  rw [if_neg (by decide), dif_neg enough]
  by_cases empty : payload = []
  · rw [if_pos (by rw [size, off, empty]; rfl), if_pos empty, if_pos empty]
    exact ⟨_, rfl, rfl, rfl, rfl⟩
  · have more := List.length_pos_iff.mpr empty
    rw [if_neg (by omega), if_neg empty, if_neg empty]
    refine ⟨_, rfl, rfl, ?_, size⟩
    dsimp only
    rw [off]

theorem decrypt_eq (held : Holds blob (wotermFlag ++ payload)) :
    ∃ next, decrypt blob = (rc4Crypt keyTable { bytes := blob.d } next.off next.size).map
        (fun memory => { buffer := next, memory }) ∧
      next.off = (if payload = [] then 0 else 7) ∧ next.size = if payload = [] then 0 else 7 + payload.length := by
  obtain ⟨next, consumed, same, off, size⟩ := consume_flag blob payload held
  obtain ⟨rest, data⟩ := held.data
  have flagged : (wotermFileFlag.take (wotermFileFlag.length - 1)).isPrefixOf (blob.d.drop blob.off) = true := by
    rw [held.off, data, List.append_assoc]
    exact List.isPrefixOf_iff_prefix.mpr (List.prefix_append _ _)
  refine ⟨next, ?_, off, size⟩
  have length : wotermFileFlag.length - 1 = 7 := rfl
  rw [length] at flagged
  simp only [decrypt, length, flagged, if_true, consumed, Except.toOption, Option.getD_some, same]

theorem decrypt_empty (held : Holds blob wotermFlag) : Inside [] (decrypt blob) := by
  obtain ⟨next, run, off, size⟩ := decrypt_eq blob [] (by rw [List.append_nil]; exact held)
  rw [if_pos rfl] at off size
  refine ⟨{ buffer := next, memory := { bytes := blob.d } }, ?_, ?_, ?_⟩
  · rw [run, size]
    rfl
  · intro i member
    cases member
  · rw [Decrypted.data, size, List.take_zero, List.drop_nil]
    rfl

theorem decrypt_overflow (held : Holds blob (wotermFlag ++ payload))
    (nonempty : payload ≠ []) (short : blob.d.length < 14 + payload.length) : decrypt blob = none := by
  obtain ⟨next, run, off, size⟩ := decrypt_eq blob payload held
  rw [if_neg nonempty] at off size
  have inside : 7 ≤ blob.d.length := by
    have := blob.size_le
    rw [held.size, List.length_append] at this
    exact Nat.le_trans (Nat.le_add_right 7 _) this
  have beyond := Memory.maskLoop_eq_none cryptStep (7 + payload.length) { s := keyTable } 7 { bytes := blob.d }
    (by dsimp only; omega) inside
  rw [run, off, size, Authfile.rc4Crypt, beyond]
  rfl

theorem decrypt_runs (held : Holds blob (wotermFlag ++ payload))
    (nonempty : payload ≠ []) (long : 14 + payload.length ≤ blob.d.length) :
    ∃ result, decrypt blob = some result ∧ result.data = rc4 payload wotermKey ∧
      result.buffer.size ∈ result.memory.touched := by
  obtain ⟨next, run, off, size⟩ := decrypt_eq blob payload held
  rw [if_neg nonempty] at off size
  obtain ⟨rest, data⟩ := held.data
  have flag : wotermFlag.length = 7 := rfl
  have behind : 7 ≤ rest.length := by
    rw [data, List.length_append, List.length_append, flag] at long
    omega
  have length : (payload ++ rest.take 7).length = 7 + payload.length := by
    rw [List.length_append, List.length_take]
    omega
  have memory : blob.d = wotermFlag ++ (payload ++ rest.take 7) ++ rest.drop 7 := by
    rw [data, List.append_assoc, List.append_assoc, List.append_assoc, List.take_append_drop]
  obtain ⟨used, crypt, range⟩ := rc4Crypt_append wotermFlag (payload ++ rest.take 7) (rest.drop 7) []
  obtain ⟨later, stream⟩ := rc4_append payload (rest.take 7) wotermKey
  rw [length, flag, ← memory] at crypt
  rw [off, size, crypt] at run
  refine ⟨_, run, ?_, ?_⟩
  · have bytes : wotermFlag ++ rc4 (payload ++ rest.take 7) wotermKey ++ rest.drop 7 =
        (wotermFlag ++ rc4 payload wotermKey) ++ (later ++ rest.drop 7) := by
      rw [stream, List.append_assoc, List.append_assoc, List.append_assoc]
    have front : 7 + payload.length = (wotermFlag ++ rc4 payload wotermKey).length := by
      rw [List.length_append, length_rc4]
      rfl
    rw [Decrypted.data, off, size, bytes, front, List.take_left]
    rfl
  · rw [size]
    dsimp only
    rw [List.nil_append, range, length, flag]
    omega

theorem not_inside (held : Holds blob (wotermFlag ++ payload))
    (nonempty : payload ≠ []) : ¬ Inside payload (decrypt blob) := by
  rintro ⟨result, run, range, -⟩
  by_cases long : 14 + payload.length ≤ blob.d.length
  · obtain ⟨other, again, -, used⟩ := decrypt_runs blob payload held nonempty long
    cases run.symm.trans again
    exact Nat.lt_irrefl _ (range _ used).2
  · rw [decrypt_overflow blob payload held nonempty (Nat.lt_of_not_le long)] at run
    cases run

/-- Decrypting a key stays inside of the data exactly when there is nothing to decrypt. Otherwise it runs
on by seven bytes, out of the memory of the buffer when that ends there. -/
theorem inside_iff_empty (content : List UInt8) (small : content.length ≤ maxKeyFileSize)
    (flagged : wotermFlag.isPrefixOf content = true) :
    ∀ load ∈ [sshkeyLoadPrivateTypeFd, sshkeyLoadPrivate], ∃ loaded, load content = .ok loaded ∧
      (Inside (content.drop 7) loaded ↔ content = wotermFlag) ∧
      (loaded = none ↔ content ≠ wotermFlag ∧ units content.length < content.length + 7) ∧
      ∀ result ∈ loaded, result.data = rc4 (content.drop 7) wotermKey := by
  obtain ⟨payload, rfl⟩ := List.isPrefixOf_iff_prefix.mp flagged
  obtain ⟨blob, loaded, held⟩ := sshkeyLoadFile_holds _ small
  have rest : (wotermFlag ++ payload).drop 7 = payload := rfl
  have length : (wotermFlag ++ payload).length = 7 + payload.length := by
    rw [List.length_append]
    rfl
  have empty : wotermFlag ++ payload = wotermFlag ↔ payload = [] := List.append_right_eq_self
  have alloc := held.alloc
  intro load member
  have same : load (wotermFlag ++ payload) = .ok (decrypt blob) := by
    have both : load = loadDecrypted := by
      rcases List.mem_pair.mp member with rfl | rfl <;> rfl
    rw [both, loadDecrypted, loaded]
    rfl
  refine ⟨decrypt blob, same, ?_⟩
  rw [rest, ne_eq, empty, ← alloc, length]
  by_cases nothing : payload = []
  · subst nothing
    rw [List.append_nil] at held
    obtain ⟨result, run, range, data⟩ := decrypt_empty blob held
    rw [run]
    refine ⟨iff_of_true ⟨result, rfl, range, data⟩ rfl, ⟨nofun, fun short => absurd rfl short.1⟩, ?_⟩
    rintro other ⟨⟩
    exact data
  · refine ⟨iff_of_false (not_inside blob payload held nothing) nothing, ?_⟩
    by_cases long : 14 + payload.length ≤ blob.d.length
    · obtain ⟨result, run, data, -⟩ := decrypt_runs blob payload held nothing long
      rw [run]
      refine ⟨⟨nofun, fun short => ?_⟩, ?_⟩
      · have := short.2
        omega
      · rintro other ⟨⟩
        exact data
    · have short := Nat.lt_of_not_le long
      rw [decrypt_overflow blob payload held nothing short]
      exact ⟨⟨fun _ => ⟨nothing, by omega⟩, fun _ => rfl⟩, nofun⟩

theorem inside_iff_empty_flag : ∃ loaded, sshkeyLoadPrivate wotermFlag = .ok loaded ∧ Inside [] loaded := by
  obtain ⟨loaded, run, inside, -⟩ := inside_iff_empty wotermFlag (by decide) (by decide) sshkeyLoadPrivate (by simp)
  exact ⟨loaded, run, inside.mpr rfl⟩

/-- A file of exactly one unit: the last seven bytes lie behind the memory of the buffer. -/
theorem whole_unit_overflows : sshkeyLoadPrivate (wotermFlag ++ List.replicate 249 0) = .ok none := by
  have length : (wotermFlag ++ List.replicate 249 0).length = 256 := by
    rw [List.length_append, List.length_replicate]
    rfl
  obtain ⟨blob, loaded, held⟩ := sshkeyLoadFile_holds (wotermFlag ++ List.replicate 249 0) (by rw [length]; decide)
  have alloc : blob.d.length = 256 := by
    rw [held.alloc, length]
    rfl
  have beyond : blob.d.length < 14 + (List.replicate 249 (0 : UInt8)).length := by
    rw [alloc, List.length_replicate]
    decide
  have none := decrypt_overflow blob (List.replicate 249 0) held (List.cons_ne_nil _ _) beyond
  rw [sshkeyLoadPrivate, loadDecrypted, loaded, ← none]
  rfl

end Woterm.Ssh.Keyfile
