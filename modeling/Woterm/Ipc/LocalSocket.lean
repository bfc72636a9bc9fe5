import Woterm.Ipc.FunArg

/-!
The C side of the message channel. `ipc_call` lays the frame out by pointer writes in
a buffer it picks by size, a local array or a heap block of unknown content; `read_cb`
walks the payload and hands out pointers into it. Both variants of `ipc_call` run the
same code on different buffer limits. Sizes are those of frames an `int` can count.
-/

namespace Woterm.Ipc.LocalSocket
open Woterm.Lib.Word32 Woterm.Lib.CString FunArg

/-- The outcome of one `ipc_call`: the bytes sent, and how the buffer was obtained and released. -/
structure Sent where
  bytes : List Byte
  fromMalloc : Bool
  freed : Bool
  deriving DecidableEq, Repr

def callLength (argv : List (List Byte)) : Nat :=
  argv.foldl (fun length arg => length + intsize + strlen arg + 1) (intsize + 1)

/-- The copy loop: the buffer and the pointer into it after each argument. -/
def copyArgs : List (List Byte) → List Byte → Nat → Option (List Byte × Nat)
  | [], pbuf, ptr => some (pbuf, ptr)
  | arg :: argv, pbuf, ptr => do
      let sz := strlen arg + 1
      let pbuf ← store pbuf ptr (toBytes sz)
      let ptr := ptr + intsize
      let pbuf ← store pbuf ptr (arg.take (sz - 1))
      let ptr := ptr + (sz - 1)
      let pbuf ← store pbuf ptr [0]
      copyArgs argv pbuf (ptr + 1)

/-- `ipc_call` with a local array of `limit` bytes; `heap` is what `malloc` returns holds, and
`frees` the test that guards `free`. No result means a write outside the buffer. -/
def ipcCallWith (limit : Nat) (frees : Nat → Bool) (heap : Nat → Byte) (argv : List (List Byte)) :
    Option Sent := do
  let length := callLength argv
  let fromMalloc := decide (limit ≤ length + intsize)
  let pbuf := if fromMalloc then (List.range (length + intsize)).map heap else List.replicate limit 0
  let pbuf ← store pbuf 0 (toBytes length)
  let pbuf ← store pbuf intsize (toBytes argv.length)
  let (pbuf, ptr) ← copyArgs argv pbuf (intsize + intsize)
  let pbuf ← store pbuf ptr [0]
  some ⟨pbuf.take (length + intsize), fromMalloc, frees length⟩

/-- `ipc_call` for Unix sockets: `char buf[512]`, freed when `length >= 512`. -/
def ipcCallUnix (heap : Nat → Byte) (argv : List (List Byte)) : Option Sent :=
  ipcCallWith 512 (fun length => decide (512 ≤ length)) heap argv

/-- `ipc_call` for named pipes: `char buf[MAX_SIZE]` with `MAX_SIZE` one, freed when
`length + intsize > MAX_SIZE`. -/
def ipcCallWin32 (heap : Nat → Byte) (argv : List (List Byte)) : Option Sent :=
  ipcCallWith 1 (fun length => decide (1 < length + intsize)) heap argv

/-- The argument loop of `read_cb`: one pointer into the payload for each argument. -/
def argvLoop (pbuf : List Byte) : Nat → Nat → Option (List Nat)
  | 0, _ => some []
  | argc + 1, ptr => do
      let length ← load pbuf ptr
      let next := (ptr : Int) + intsize + length
      -- a pointer before the payload
      if next < 0 then none
      else
        let later ← argvLoop pbuf argc next.toNat
        some ((ptr + intsize) :: later)

/-- What `read_cb` gives its callback for one payload: `none` for a read outside the payload,
`some none` when it refuses a hundred arguments or more. -/
def readCb (pbuf : List Byte) : Option (Option (Int × List Nat)) := do
  let argc ← load pbuf 0
  if 100 ≤ argc then some none
  else
    let argv ← argvLoop pbuf argc.toNat intsize
    some (some (argc, argv))

def stringAt (pbuf : List Byte) (ptr : Nat) : Option (List Byte) :=
  if (0 : Byte) ∈ pbuf.drop ptr then some (cstr (pbuf.drop ptr)) else none

open FunArgWriter

variable (limit : Nat) (argv : List (List Byte)) (funArgs : Message)

theorem callLength_eq (clean : ∀ arg ∈ argv, NulFree arg) : callLength argv = payloadSize argv := by
  have general : ∀ (rest : List (List Byte)) (start : Nat), (∀ arg ∈ rest, NulFree arg) →
      rest.foldl (fun length arg => length + intsize + strlen arg + 1) start =
        start + (rest.flatMap argument).length := by
    intro rest
    induction rest with
    | nil => simp
    | cons arg rest ih =>
      intro start good
      rw [List.foldl_cons, ih _ (fun other member => good other (by simp [member])),
        strlen_eq_length arg (good arg (by simp)), List.flatMap_cons, List.length_append,
        argument_length, intsize]
      omega
  rw [callLength, general argv _ clean, payloadSize_eq]
  rfl

theorem copyArgs_cons (arg : List Byte) (argv : List (List Byte)) (written free : List Byte)
    (clean : NulFree arg) (fits : arg.length + 5 ≤ free.length) :
    copyArgs (arg :: argv) (written ++ free) written.length =
      copyArgs argv (written ++ argument arg ++ free.drop (argument arg).length)
        (written ++ argument arg).length := by
  have size := strlen_eq_length arg clean
  have count : toBytes ((strlen arg + 1 : Nat) : Int) = toBytes (arg.length + 1) := by rw [size]; rfl
  have first := store_fill written free (toBytes (arg.length + 1)) (by rw [toBytes_length]; omega)
  have second := store_fill (written ++ toBytes (arg.length + 1)) (free.drop 4) arg
    (by simp only [List.length_drop]; omega)
  have third := store_fill (written ++ toBytes (arg.length + 1) ++ arg) ((free.drop 4).drop arg.length) [0]
    (by simp only [List.length_drop, List.length_singleton]; omega)
  rw [toBytes_length] at first
  rw [List.length_append, toBytes_length] at second
  rw [List.length_append, List.length_append, toBytes_length] at third
  have text : arg.take (strlen arg + 1 - 1) = arg := by rw [size, Nat.add_sub_cancel, List.take_length]
  simp only [copyArgs, count, text, first, Option.bind_eq_bind, Option.bind_some, intsize, second]
  rw [size, Nat.add_sub_cancel, third]
  have place : (written ++ argument arg).length = written.length + 4 + arg.length + 1 := by
    rw [List.length_append, argument_length]
    omega
  have rest : free.drop (argument arg).length = ((free.drop 4).drop arg.length).drop 1 := by
    rw [argument_length, List.drop_drop, List.drop_drop]
    congr 1
    omega
  rw [place, rest]
  simp [argument]

theorem copyArgs_fills (written free : List Byte)
    (clean : ∀ arg ∈ argv, NulFree arg) (fits : (argv.flatMap argument).length ≤ free.length) :
    copyArgs argv (written ++ free) written.length =
      some (written ++ argv.flatMap argument ++ free.drop (argv.flatMap argument).length,
        (written ++ argv.flatMap argument).length) := by
  induction argv generalizing written free with
  | nil => simp [copyArgs]
  | cons arg argv ih =>
    rw [List.flatMap_cons, List.length_append, argument_length] at fits
    have room : (argv.flatMap argument).length ≤ (free.drop (argument arg).length).length := by
      rw [List.length_drop, argument_length]
      omega
    rw [copyArgs_cons arg argv written free (clean arg (by simp)) (by omega),
      ih _ _ (fun other member => clean other (by simp [member])) room]
    simp [List.drop_drop]

theorem buffer_room (heap : Nat → Byte) (argv : List (List Byte)) (clean : ∀ arg ∈ argv, NulFree arg) :
    (write argv).length ≤ (if decide (limit ≤ callLength argv + intsize) = true then
      (List.range (callLength argv + intsize)).map heap else List.replicate limit 0).length := by
  rw [callLength_eq argv clean, write_length]
  by_cases large : limit ≤ payloadSize argv + intsize
  · rw [if_pos (decide_eq_true large)]
    simp [intsize]
  · rw [if_neg (by simpa using large), List.length_replicate]
    simp only [intsize] at large
    omega

theorem write_parts :
    toBytes (payloadSize argv) ++ toBytes argv.length ++ argv.flatMap argument ++ [0] = write argv := by
  rw [write_eq, body_eq]
  simp

theorem ipcCallWith_eq (frees : Nat → Bool) (heap : Nat → Byte) (argv : List (List Byte))
    (clean : ∀ arg ∈ argv, NulFree arg) :
    ipcCallWith limit frees heap argv =
      some ⟨write argv, decide (limit ≤ callLength argv + intsize), frees (callLength argv)⟩ := by
  have length := callLength_eq argv clean
  have total := payloadSize_eq argv
  have room := buffer_room limit heap argv clean
  generalize buffer : (if decide (limit ≤ callLength argv + intsize) = true then
    (List.range (callLength argv + intsize)).map heap else List.replicate limit 0) = pbuf at room
  rw [write_length] at room
  have first := store_fill [] pbuf (toBytes (payloadSize argv)) (by rw [toBytes_length]; omega)
  have second := store_fill (toBytes (payloadSize argv)) (pbuf.drop 4) (toBytes argv.length)
    (by rw [toBytes_length, List.length_drop]; omega)
  have third := copyArgs_fills argv (toBytes (payloadSize argv) ++ toBytes argv.length)
    ((pbuf.drop 4).drop 4) clean (by simp only [List.length_drop]; omega)
  have last := store_fill (toBytes (payloadSize argv) ++ toBytes argv.length ++ argv.flatMap argument)
    (((pbuf.drop 4).drop 4).drop (argv.flatMap argument).length) [0]
    (by simp only [List.length_drop, List.length_singleton]; omega)
  simp only [List.nil_append, List.length_nil, toBytes_length] at first second
  rw [List.length_append, toBytes_length, toBytes_length] at third
  rw [write_parts] at last
  simp only [ipcCallWith, buffer]
  simp only [length, first, Option.bind_eq_bind, Option.bind_some, intsize, second, third, last]
  rw [← write_length, List.take_left]

theorem ipcCallWith_sends (frees : Nat → Bool) (heap : Nat → Byte)
    (argv : List (List Byte)) (clean : ∀ arg ∈ argv, NulFree arg) :
    ∃ result, ipcCallWith limit frees heap argv = some result ∧ result.bytes = write argv :=
  ⟨_, ipcCallWith_eq limit frees heap argv clean, rfl⟩

theorem argvLoop_written (before after : List Byte)
    (clean : ∀ arg ∈ funArgs, NulFree arg) (small : ∀ arg ∈ funArgs, arg.length + 1 < 2147483648) :
    ∃ argv, argvLoop (before ++ (funArgs.flatMap argument ++ after)) funArgs.length before.length =
        some argv ∧
      argv.map (stringAt (before ++ (funArgs.flatMap argument ++ after))) = funArgs.map some := by
  induction funArgs generalizing before with
  | nil => exact ⟨[], rfl, rfl⟩
  | cons arg rest ih =>
    have size := small arg (by simp)
    have memory : before ++ ((arg :: rest).flatMap argument ++ after) =
        before ++ argument arg ++ (rest.flatMap argument ++ after) := by simp
    have header := load_toBytes before (arg ++ ([0] ++ (rest.flatMap argument ++ after)))
      ((arg.length : Int) + 1) (by omega) (by omega)
    have encoded : before ++ (toBytes ((arg.length : Int) + 1) ++
        (arg ++ ([0] ++ (rest.flatMap argument ++ after)))) =
        before ++ argument arg ++ (rest.flatMap argument ++ after) := by simp [argument]
    rw [encoded] at header
    obtain ⟨argv, loop, strings⟩ := ih (before ++ argument arg)
      (fun other member => clean other (by simp [member]))
      (fun other member => small other (by simp [member]))
    have place : ((before.length : Int) + intsize + ((arg.length : Int) + 1)).toNat =
        (before ++ argument arg).length := by
      rw [List.length_append, argument_length, intsize]
      omega
    refine ⟨(before.length + intsize) :: argv, ?_, ?_⟩
    · have inside : ¬ (before.length : Int) + intsize + ((arg.length : Int) + 1) < 0 := by
        rw [intsize]
        omega
      rw [memory, List.length_cons, argvLoop]
      simp only [header, Option.bind_eq_bind, Option.bind_some, if_neg inside, place, loop]
    · rw [memory, List.map_cons, strings]
      have text : stringAt (before ++ argument arg ++ (rest.flatMap argument ++ after))
          (before.length + intsize) = some arg := by
        rw [← encoded, ← List.append_assoc, stringAt, intsize,
          List.drop_left' (by rw [List.length_append, toBytes_length]), if_pos (by simp)]
        exact congrArg some (cstr_append_nul arg _ (clean arg (by simp)))
      rw [text, List.map_cons]

theorem readCb_payload_append (stale : List Byte) (clean : ∀ arg ∈ funArgs, NulFree arg)
    (small : (write funArgs).length < 2147483648) (few : funArgs.length < 100) :
    ∃ argv, readCb ((write funArgs).drop intsize ++ stale) = some (some ((funArgs.length : Int), argv)) ∧
      argv.map (stringAt ((write funArgs).drop intsize ++ stale)) = funArgs.map some := by
  have payload : (write funArgs).drop intsize ++ stale =
      toBytes funArgs.length ++ (funArgs.flatMap argument ++ ([0] ++ stale)) := by
    rw [write_eq, intsize, List.drop_left' (toBytes_length _), body_eq]
    simp only [List.append_assoc]
  have size := write_length funArgs
  have total := payloadSize_eq funArgs
  have each : ∀ arg ∈ funArgs, arg.length + 1 < 2147483648 := by
    intro arg member
    have inside := argument_le_size funArgs arg member
    omega
  obtain ⟨argv, loop, strings⟩ := argvLoop_written funArgs (toBytes funArgs.length) ([0] ++ stale) clean each
  rw [toBytes_length] at loop
  refine ⟨argv, ?_, by rw [payload]; exact strings⟩
  have argc := load_zero (funArgs.length : Int) (funArgs.flatMap argument ++ ([0] ++ stale)) (by omega) (by omega)
  rw [payload, readCb, argc]
  simp only [Option.bind_eq_bind, Option.bind_some, Int.toNat_natCast, intsize, loop]
  rw [if_neg (by omega)]

theorem readCb_payload (clean : ∀ arg ∈ funArgs, NulFree arg)
    (small : (write funArgs).length < 2147483648) (few : funArgs.length < 100) :
    ∃ argv, readCb ((write funArgs).drop intsize) = some (some ((funArgs.length : Int), argv)) ∧
      argv.map (stringAt ((write funArgs).drop intsize)) = funArgs.map some := by
  simpa using readCb_payload_append funArgs [] clean small few

/-- The three ends of the channel agree on the format: both variants of `ipc_call` send the
frame of the writer, the reader takes exactly that frame off its buffer, and `read_cb` finds
the same arguments in its payload. -/
theorem ends_agree (funArgs : Message) (clean : ∀ arg ∈ funArgs, NulFree arg)
    (small : (write funArgs).length < 2147483648) :
    (∀ heap, ∃ result, ipcCallUnix heap funArgs = some result ∧ result.bytes = write funArgs) ∧
    (∀ heap, ∃ result, ipcCallWin32 heap funArgs = some result ∧ result.bytes = write funArgs) ∧
    (∀ rest, FunArgReader.next (write funArgs ++ rest) = .received funArgs rest) ∧
    (funArgs.length < 100 → ∃ argv,
      readCb ((write funArgs).drop intsize) = some (some ((funArgs.length : Int), argv)) ∧
      argv.map (stringAt ((write funArgs).drop intsize)) = funArgs.map some) :=
  ⟨fun heap => ipcCallWith_sends _ _ heap funArgs clean,
    fun heap => ipcCallWith_sends _ _ heap funArgs clean,
    fun rest => next_write funArgs rest clean small,
    readCb_payload funArgs clean small⟩

theorem ends_agree_ping :
    (∃ result, ipcCallUnix (fun _ => 7) [[112, 105, 110, 103]] = some result ∧
      result.bytes = write [[112, 105, 110, 103]]) ∧
    FunArgReader.next (write [[112, 105, 110, 103]] ++ [1, 2]) = .received [[112, 105, 110, 103]] [1, 2] := by
  have agree := ends_agree [[112, 105, 110, 103]] (by unfold NulFree; decide) (by decide)
  exact ⟨agree.1 _, agree.2.2.1 _⟩

end Woterm.Ipc.LocalSocket
