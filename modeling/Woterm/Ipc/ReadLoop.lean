import Woterm.Ipc.Fragments
import Woterm.Ipc.LocalSocket

/-!
`read_cb` over a whole run, for Unix sockets. The header of a frame is received with a plain `recv`,
which may return fewer than its four bytes; the payload is received with `MSG_WAITALL`, which returns
all of it. All messages arrive exactly when every header is received whole: the loop takes a shorter
one for a header all the same, and is out of step with the frames from then on.
-/

namespace Woterm.Ipc.ReadLoop
open Woterm.Lib.Word32 Woterm.Lib.CString FunArg FunArgWriter LocalSocket
open Woterm.Ipc.Fragments (frames ping)

/-- How many bytes the `recv` of each header returns, when as many are left. -/
structure Delivery where
  size : Nat → Nat
  positive : ∀ i, 0 < size i
  le_int : ∀ i, size i ≤ intsize

/-- One call of the callback: the strings that its pointers point to, or an error. -/
inductive Call where
  | received (argc : Int) (argv : List (Option (List Byte)))
  | failed (err : Int)
deriving DecidableEq, Repr

/-- What becomes of the loop: it waits for more bytes, has returned, or has read outside of its buffer. -/
inductive Outcome where
  | waiting
  | returned
  | overrun
deriving DecidableEq, Repr

inductive Round where
  | stop (calls : List Call) (outcome : Outcome)
  | next (call : Call) (pbuf stream : List Byte)

/-- `length` after the first `recv`: the bytes that were not received are still zero. -/
def headerLength (header : List Byte) : Option Int := load (header ++ (toBytes 0).drop header.length) 0

/-- The buffer for a payload, with what is in it: the old one if it is large enough, or a new block. -/
def bufferFor (heap : Nat → Byte) (pbuf : List Byte) (length : Int) : List Byte :=
  if (pbuf.length : Int) < length then (List.range length.toNat).map heap else pbuf

/-- The rest of a round, after the header. `heap` is what the block that `malloc` returns holds. -/
def readPayload (heap : Nat → Byte) (pbuf unread : List Byte) (length : Int) : Round :=
  if length = 0 then .stop [.failed (-2)] .returned
  else if length < 0 ∨ (unread.length : Int) < length then .stop [] .waiting
  else
    let filled := unread.take length.toNat ++ (bufferFor heap pbuf length).drop length.toNat
    match readCb filled with
    | none => .stop [] .overrun
    | some none => .stop [.failed (-2)] .returned
    | some (some (argc, argv)) =>
      .next (.received argc (argv.map (stringAt filled))) filled (unread.drop length.toNat)

/-- One round, with the bytes still to be received, of which the header gets `size`. -/
def readRound (size : Nat) (heap : Nat → Byte) (pbuf stream : List Byte) : Round :=
  match headerLength (stream.take size) with
  | none => .stop [] .overrun
  | some length => readPayload heap pbuf (stream.drop size) length

/-- The loop from its round `i` on. Every round takes a byte at least, so more rounds than there are bytes are
never needed. The callback never returns an error. -/
def readLoop (delivery : Delivery) (heap : Nat → Byte) : Nat → Nat → List Byte → List Byte → List Call × Outcome
  | 0, _, _, _ => ([], .waiting)
  | rounds + 1, i, pbuf, stream =>
    if stream.isEmpty then ([], .waiting)
    else
      match readRound (delivery.size i) heap pbuf stream with
      | .stop calls outcome => (calls, outcome)
      | .next call pbuf rest =>
        let later := readLoop delivery heap rounds (i + 1) pbuf rest
        (call :: later.1, later.2)

def run (delivery : Delivery) (heap : Nat → Byte) (stream : List Byte) : List Call × Outcome :=
  readLoop delivery heap stream.length 0 [] stream

def callOf (funArgs : Message) : Call := .received funArgs.length (funArgs.map some)

/-- A message that `read_cb` takes, with a frame whose size an `int` can hold. -/
structure Readable (funArgs : Message) : Prop where
  few : funArgs.length < 100
  clean : ∀ arg ∈ funArgs, NulFree arg
  small : (write funArgs).length < 2147483648

theorem headerLength_toBytes (value : Int) (lower : -2147483648 ≤ value) (upper : value < 2147483648) :
    headerLength (toBytes value) = some value := load_zero value _ lower upper

variable (delivery : Delivery) (heap : Nat → Byte)

theorem readPayload_frame (pbuf rest : List Byte) (funArgs : Message) (readable : Readable funArgs) :
    ∃ next, readPayload heap pbuf ((write funArgs).drop intsize ++ rest) (payloadSize funArgs) =
      .next (callOf funArgs) next rest := by
  have count : ((write funArgs).drop intsize).length = (payloadSize funArgs : Int).toNat := by
    rw [List.length_drop, write_length, intsize, Int.toNat_natCast]
    omega
  have positive : 0 < payloadSize funArgs := Nat.succ_pos _
  obtain ⟨argv, read, strings⟩ := readCb_payload_append funArgs
    ((bufferFor heap pbuf (payloadSize funArgs)).drop (payloadSize funArgs : Int).toNat)
    readable.clean readable.small readable.few
  refine ⟨(write funArgs).drop intsize ++
    (bufferFor heap pbuf (payloadSize funArgs)).drop (payloadSize funArgs : Int).toNat, ?_⟩
  rw [readPayload, if_neg (by omega), if_neg (by rw [List.length_append, count]; omega)]
  simp only [List.take_left' count, List.drop_left' count, read, strings]
  rfl

theorem readRound_whole (pbuf rest : List Byte) (funArgs : Message) (readable : Readable funArgs) :
    ∃ next, readRound intsize heap pbuf (write funArgs ++ rest) = .next (callOf funArgs) next rest := by
  have size := write_length funArgs
  have small := readable.small
  have header : (write funArgs ++ rest).take intsize = toBytes (payloadSize funArgs) := by
    rw [write_eq, List.append_assoc]
    exact List.take_left' (toBytes_length _)
  have payload : (write funArgs ++ rest).drop intsize = (write funArgs).drop intsize ++ rest :=
    List.drop_append_of_le_length (by rw [size, intsize]; omega)
  rw [readRound, header, payload, headerLength_toBytes _ (by omega) (by omega)]
  exact readPayload_frame heap pbuf rest funArgs readable

theorem write_ne_nil (funArgs : Message) (rest : List Byte) : (write funArgs ++ rest).isEmpty = false := by
  have size := write_length funArgs
  rw [List.isEmpty_eq_false_iff, ← List.length_pos_iff, List.length_append]
  omega

theorem readLoop_nil (rounds i : Nat) (pbuf : List Byte) :
    readLoop delivery heap rounds i pbuf [] = ([], .waiting) := by
  cases rounds <;> rfl

theorem readLoop_whole (messages : List Message) (readable : ∀ funArgs ∈ messages, Readable funArgs) (rounds i : Nat)
    (pbuf rest : List Byte) (whole : ∀ k < messages.length, delivery.size (i + k) = intsize) :
    ∃ next, readLoop delivery heap (messages.length + rounds) i pbuf (frames messages ++ rest) =
      (messages.map callOf ++ (readLoop delivery heap rounds (i + messages.length) next rest).1,
        (readLoop delivery heap rounds (i + messages.length) next rest).2) := by
  induction messages generalizing i pbuf with
  | nil => exact ⟨pbuf, by simp [frames]⟩
  | cons funArgs messages ih =>
    obtain ⟨filled, round⟩ := readRound_whole heap pbuf (frames messages ++ rest) funArgs
      (readable funArgs List.mem_cons_self)
    have first : delivery.size i = intsize := whole 0 (Nat.succ_pos _)
    obtain ⟨next, later⟩ := ih (fun other member => readable other (List.mem_cons_of_mem _ member)) (i + 1) filled
      (fun k below => by
        rw [Nat.add_assoc, Nat.add_comm 1 k]
        exact whole (k + 1) (Nat.succ_lt_succ below))
    have count : (funArgs :: messages).length + rounds = messages.length + rounds + 1 := by
      rw [List.length_cons]
      omega
    have shift : i + 1 + messages.length = i + (funArgs :: messages).length := by
      rw [List.length_cons]
      omega
    have stream : frames (funArgs :: messages) ++ rest = write funArgs ++ (frames messages ++ rest) := by
      simp [frames]
    refine ⟨next, ?_⟩
    rw [count, stream, readLoop, write_ne_nil, first, round]
    dsimp only
    rw [if_neg Bool.false_ne_true, later, shift, List.map_cons, List.cons_append]

theorem ping_readable : Readable ping where
  few := by decide
  clean := by unfold NulFree; decide
  small := by decide

theorem readPayload_many (pbuf payload rest : List Byte) (length argc : Int) (positive : 0 < length)
    (count : payload.length = length.toNat) (number : load payload 0 = some argc) (many : 100 ≤ argc) :
    readPayload heap pbuf (payload ++ rest) length = .stop [.failed (-2)] .returned := by
  have refused : readCb (payload ++ (bufferFor heap pbuf length).drop length.toNat) = some none := by
    rw [readCb, load_append _ _ argc number]
    exact if_pos many
  rw [readPayload, if_neg (by omega), if_neg (by rw [List.length_append, count]; omega)]
  simp only [List.take_left' count, refused]

theorem readRound_short (size : Nat) (heap : Nat → Byte) (pbuf rest : List Byte) (positive : 0 < size)
    (short : size < intsize) : readRound size heap pbuf (write ping ++ rest) = .stop [.failed (-2)] .returned := by
  have sizes : size = 1 ∨ size = 2 ∨ size = 3 := by
    unfold intsize at short
    omega
  -- the first fourteen of the bytes behind the header, and what they begin with
  have shifted (header payload more : List Byte) (argc : Int) (cut : write ping = header ++ (payload ++ more))
      (length : headerLength header = some 14) (count : payload.length = 14) (number : load payload 0 = some argc)
      (many : 100 ≤ argc) :
      readRound header.length heap pbuf (write ping ++ rest) = .stop [.failed (-2)] .returned := by
    rw [cut, List.append_assoc, List.append_assoc, readRound, List.take_left, List.drop_left, length]
    exact readPayload_many heap pbuf payload (more ++ rest) 14 argc (by decide) count number many
  rcases sizes with rfl | rfl | rfl
  · exact shifted [14] [0, 0, 0, 1, 0, 0, 0, 5, 0, 0, 0, 112, 105, 110] [103, 0, 0] 16777216 (by decide) (by decide)
      (by decide) (by decide) (by decide)
  · exact shifted [14, 0] [0, 0, 1, 0, 0, 0, 5, 0, 0, 0, 112, 105, 110, 103] [0, 0] 65536 (by decide) (by decide)
      (by decide) (by decide) (by decide)
  · exact shifted [14, 0, 0] [0, 1, 0, 0, 0, 5, 0, 0, 0, 112, 105, 110, 103, 0] [0] 256 (by decide) (by decide)
      (by decide) (by decide) (by decide)

theorem run_short (n i : Nat) (below : i < n) (whole : ∀ k < i, delivery.size k = intsize)
    (short : delivery.size i < intsize) :
    run delivery heap (frames (List.replicate n ping)) =
      (List.replicate i (callOf ping) ++ [.failed (-2)], .returned) := by
  obtain ⟨more, rfl⟩ := Nat.exists_eq_add_of_lt below
  have stream : frames (List.replicate (i + more + 1) ping) =
      frames (List.replicate i ping) ++ (write ping ++ frames (List.replicate more ping)) := by
    rw [Nat.add_assoc, List.replicate_add, List.replicate_succ]
    simp [frames]
  have rounds := Fragments.frames_length_ge (List.replicate i ping)
  rw [List.length_replicate] at rounds
  have total : ∃ left, (frames (List.replicate (i + more + 1) ping)).length = i + (left + 1) := by
    have size := write_length ping
    refine ⟨(frames (List.replicate (i + more + 1) ping)).length - i - 1, ?_⟩
    rw [stream, List.length_append, List.length_append]
    omega
  obtain ⟨left, length⟩ := total
  obtain ⟨next, read⟩ := readLoop_whole delivery heap (List.replicate i ping)
    (fun funArgs member => List.eq_of_mem_replicate member ▸ ping_readable) (left + 1) 0 []
    (write ping ++ frames (List.replicate more ping))
    (fun k inside => by
      rw [Nat.zero_add]
      exact whole k (by simpa using inside))
  have last : readLoop delivery heap (left + 1) i next (write ping ++ frames (List.replicate more ping)) =
      ([.failed (-2)], .returned) := by
    rw [readLoop, write_ne_nil, if_neg Bool.false_ne_true,
      readRound_short _ heap next _ (delivery.positive i) short]
  rw [List.length_replicate, Nat.zero_add, last, List.map_replicate] at read
  rw [run, length, stream, read]

theorem run_whole (messages : List Message) (readable : ∀ funArgs ∈ messages, Readable funArgs)
    (whole : ∀ i < messages.length, delivery.size i = intsize) :
    run delivery heap (frames messages) = (messages.map callOf, .waiting) := by
  have rounds := Fragments.frames_length_ge messages
  obtain ⟨next, read⟩ := readLoop_whole delivery heap messages readable ((frames messages).length - messages.length)
    0 [] [] (fun k below => by rw [Nat.zero_add]; exact whole k below)
  rw [List.append_nil, Nat.add_sub_cancel' rounds, readLoop_nil] at read
  rw [run, read, List.append_nil]

/-- All messages of a run of `n` are handed over, exactly once and in order, if and only if its `n` headers are
received whole. -/
theorem run_delivers_all_iff (delivery : Delivery) (n : Nat) :
    (∀ heap messages, messages.length = n → (∀ funArgs ∈ messages, Readable funArgs) →
      run delivery heap (frames messages) = (messages.map callOf, .waiting)) ↔
      ∀ i < n, delivery.size i = intsize := by
  refine ⟨?_, ?_⟩
  · intro delivers
    by_contra cut
    push Not at cut
    have first := Nat.find_spec cut
    have least (k : Nat) (below : k < Nat.find cut) : delivery.size k = intsize := by
      by_contra other
      exact Nat.find_min cut below ⟨Nat.lt_trans below first.1, other⟩
    have short := Nat.lt_of_le_of_ne (delivery.le_int _) first.2
    have all := delivers (fun _ => 0) (List.replicate n ping) List.length_replicate
      fun funArgs member => List.eq_of_mem_replicate member ▸ ping_readable
    rw [run_short delivery (fun _ => 0) n (Nat.find cut) first.1 least short] at all
    cases congrArg Prod.snd all
  · rintro whole heap messages rfl readable
    exact run_whole delivery heap messages readable whole

def halves : Delivery := ⟨fun _ => 2, fun _ => by decide, fun _ => by decide⟩

theorem halves_refused : run halves (fun _ => 0) (frames [ping]) = ([.failed (-2)], .returned) :=
  run_short halves (fun _ => 0) 1 0 Nat.one_pos nofun (by decide)

end Woterm.Ipc.ReadLoop
