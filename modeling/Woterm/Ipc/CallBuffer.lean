import Woterm.Ipc.LocalSocket
import Woterm.Lib.Memory

/-!
The buffer behind `ipc_call`. The call is run once more over a block of memory that records
every byte written to it; the bytes sent are those of the plain model. The block is filled
from its first byte to the last one sent, each byte once. What can go wrong is its release:
`malloc` is chosen by the size of the frame, `free` on Unix by the size of the payload alone.
-/

namespace Woterm.Ipc.CallBuffer
open Woterm.Lib Woterm.Lib.Word32 Woterm.Lib.CString FunArg FunArgWriter LocalSocket

/-- What a caller can pass: C strings, and no more of them than an `int` can count. -/
structure Arguments where
  argv : List (List Byte)
  clean : ∀ arg ∈ argv, NulFree arg
  counted : callLength argv + intsize < 2147483648

structure Call where
  buffer : Memory
  sent : Sent
  deriving DecidableEq, Repr

def copyInto : List (List Byte) → Memory → Nat → Option (Memory × Nat)
  | [], pbuf, ptr => some (pbuf, ptr)
  | arg :: argv, pbuf, ptr => do
      let sz := strlen arg + 1
      let pbuf ← pbuf.writeString ptr (toBytes sz)
      let ptr := ptr + intsize
      let pbuf ← pbuf.writeString ptr (arg.take (sz - 1))
      let ptr := ptr + (sz - 1)
      let pbuf ← pbuf.writeString ptr [0]
      copyInto argv pbuf (ptr + 1)

/-- `ipc_call` on a recorded buffer: the array of `limit` bytes or a block of just the frame's size. -/
def callWith (limit : Nat) (frees : Nat → Bool) (heap : Nat → Byte) (argv : List (List Byte)) : Option Call := do
  let length := callLength argv
  let fromMalloc := decide (limit ≤ length + intsize)
  let pbuf : Memory :=
    ⟨if fromMalloc then (List.range (length + intsize)).map heap else List.replicate limit 0, []⟩
  let pbuf ← pbuf.writeString 0 (toBytes length)
  let pbuf ← pbuf.writeString intsize (toBytes argv.length)
  let (pbuf, ptr) ← copyInto argv pbuf (intsize + intsize)
  let pbuf ← pbuf.writeString ptr [0]
  some ⟨pbuf, pbuf.bytes.take (length + intsize), fromMalloc, frees length⟩

def callUnix (heap : Nat → Byte) (argv : List (List Byte)) : Option Call :=
  callWith 512 (fun length => decide (512 ≤ length)) heap argv

def callWin32 (heap : Nat → Byte) (argv : List (List Byte)) : Option Call :=
  callWith 1 (fun length => decide (1 < length + intsize)) heap argv

/-- A call that stays in its buffer, writes all it sends and nothing else, and releases
the buffer exactly when it came from `malloc`. -/
def Clean (argv : List (List Byte)) (call : Option Call) : Prop :=
  ∃ done, call = some done ∧
    done.buffer.touched = List.range (callLength argv + intsize) ∧
    callLength argv + intsize ≤ done.buffer.bytes.length ∧
    (done.sent.freed = true ↔ done.sent.fromMalloc = true)

theorem copyInto_cons (arg : List Byte) (argv : List (List Byte)) (written free : List Byte) (clean : NulFree arg)
    (fits : (argument arg).length ≤ free.length) :
    copyInto (arg :: argv) (Memory.filled written free) written.length =
      copyInto argv (Memory.filled (written ++ argument arg) (free.drop (argument arg).length))
        (written ++ argument arg).length := by
  rw [argument_length] at fits
  have size := strlen_eq_length arg clean
  have header : toBytes ((arg.length + 1 : Nat) : Int) = toBytes (arg.length + 1) := rfl
  have count := Memory.writeString_filled written free (toBytes (arg.length + 1)) (by rw [toBytes_length]; omega)
  have letters := Memory.writeString_filled (written ++ toBytes (arg.length + 1)) (free.drop 4) arg
    (by rw [List.length_drop]; omega)
  have nul := Memory.writeString_filled (written ++ toBytes (arg.length + 1) ++ arg)
    ((free.drop 4).drop arg.length) [0] (by simp only [List.length_drop, List.length_singleton]; omega)
  have encoded : written ++ toBytes (arg.length + 1) ++ arg ++ [0] = written ++ argument arg := by
    simp [argument]
  have rest : ((free.drop 4).drop arg.length).drop 1 = free.drop (argument arg).length := by
    rw [argument_length, List.drop_drop, List.drop_drop]
    congr 1
    omega
  have place : written.length + 4 + arg.length + 1 = (written ++ argument arg).length := by
    rw [List.length_append, argument_length]
    omega
  simp only [List.length_append, toBytes_length] at count letters nul
  rw [encoded, List.length_singleton, rest] at nul
  rw [← place]
  simp only [copyInto, size, header, Nat.add_sub_cancel, List.take_length, count, letters, nul, intsize,
    Option.bind_eq_bind, Option.bind_some]

theorem copyInto_filled (argv : List (List Byte)) (written free : List Byte) (clean : ∀ arg ∈ argv, NulFree arg)
    (fits : (argv.flatMap argument).length ≤ free.length) :
    copyInto argv (Memory.filled written free) written.length =
      some (Memory.filled (written ++ argv.flatMap argument) (free.drop (argv.flatMap argument).length),
        (written ++ argv.flatMap argument).length) := by
  induction argv generalizing written free with
  | nil => simp [copyInto]
  | cons arg argv ih =>
    rw [List.flatMap_cons, List.length_append] at fits
    rw [copyInto_cons arg argv written free (clean arg (by simp)) (by omega),
      ih _ _ (fun other member => clean other (by simp [member])) (by rw [List.length_drop]; omega)]
    simp [List.drop_drop]

theorem callWith_fills (limit : Nat) (frees : Nat → Bool) (heap : Nat → Byte) (argv : List (List Byte))
    (clean : ∀ arg ∈ argv, NulFree arg) :
    ∃ free, callWith limit frees heap argv =
      some ⟨Memory.filled (write argv) free,
        write argv, decide (limit ≤ callLength argv + intsize), frees (callLength argv)⟩ := by
  have length := callLength_eq argv clean
  have total := payloadSize_eq argv
  have room := buffer_room limit heap argv clean
  generalize buffer : (if decide (limit ≤ callLength argv + intsize) = true then
    (List.range (callLength argv + intsize)).map heap else List.replicate limit 0) = pbuf at room
  rw [write_length] at room
  have first := Memory.writeString_filled [] pbuf (toBytes (payloadSize argv)) (by rw [toBytes_length]; omega)
  have second := Memory.writeString_filled (toBytes (payloadSize argv)) (pbuf.drop 4) (toBytes argv.length)
    (by rw [toBytes_length, List.length_drop]; omega)
  have third := copyInto_filled argv (toBytes (payloadSize argv) ++ toBytes argv.length)
    ((pbuf.drop 4).drop 4) clean (by simp only [List.length_drop]; omega)
  have last := Memory.writeString_filled
    (toBytes (payloadSize argv) ++ toBytes argv.length ++ argv.flatMap argument)
    (((pbuf.drop 4).drop 4).drop (argv.flatMap argument).length) [0]
    (by simp only [List.length_drop, List.length_singleton]; omega)
  have start : Memory.filled [] pbuf = ⟨pbuf, []⟩ := rfl
  simp only [List.nil_append, List.length_nil, toBytes_length, start] at first second
  rw [List.length_append, toBytes_length, toBytes_length] at third
  rw [write_parts] at last
  generalize ((pbuf.drop 4).drop 4).drop (argv.flatMap argument).length = free at third last
  refine ⟨free.drop 1, ?_⟩
  have sent : (Memory.filled (write argv) (free.drop 1)).bytes.take (payloadSize argv + 4) = write argv := by
    rw [Memory.filled, ← write_length, List.take_left]
  simp only [callWith, buffer]
  simp only [length, first, Option.bind_eq_bind, Option.bind_some, intsize, second, third, last]
  rw [List.length_singleton, sent]

theorem clean_callWith (limit : Nat) (frees : Nat → Bool) (heap : Nat → Byte) (message : Arguments) :
    Clean message.argv (callWith limit frees heap message.argv) ↔
      (frees (callLength message.argv) = true ↔ limit ≤ callLength message.argv + intsize) := by
  obtain ⟨free, call⟩ := callWith_fills limit frees heap message.argv message.clean
  have size : (write message.argv).length = callLength message.argv + intsize := by
    rw [write_length, callLength_eq _ message.clean]
    rfl
  rw [call, Clean]
  constructor
  · rintro ⟨done, same, _, _, released⟩
    obtain rfl := Option.some.inj same
    simpa only [decide_eq_true_eq] using released
  · intro agree
    refine ⟨_, rfl, ?_, ?_, ?_⟩
    · rw [Memory.filled, size]
    · rw [Memory.filled, List.length_append, size]
      exact Nat.le_add_right _ _
    · simpa only [decide_eq_true_eq] using agree

/-- On named pipes every call is clean. On Unix sockets those are not whose frame is just large enough for
`malloc` while their payload is still too small for `free`. -/
theorem ipc_call_clean_iff (message : Arguments) (heap : Nat → Byte) :
    Clean message.argv (callWin32 heap message.argv) ∧
    (Clean message.argv (callUnix heap message.argv) ↔
      ¬ (508 ≤ callLength message.argv ∧ callLength message.argv < 512)) := by
  constructor
  · rw [callWin32, clean_callWith, decide_eq_true_eq, intsize]
    omega
  · rw [callUnix, clean_callWith, decide_eq_true_eq, intsize]
    omega

/-- One argument of 498 bytes makes a payload of 508: its block is never released. -/
def leaking : Arguments where
  argv := [List.replicate 498 120]
  clean := by
    intro arg member zero
    rw [List.mem_singleton.mp member] at zero
    exact absurd (List.eq_of_mem_replicate zero) (by decide)
  counted := by decide +kernel

theorem ipc_call_leaks :
    (callUnix (fun _ => 0) leaking.argv).map (fun call => (call.sent.fromMalloc, call.sent.freed)) =
      some (true, false) ∧
    ¬ Clean leaking.argv (callUnix (fun _ => 0) leaking.argv) := by
  have leaks : (callUnix (fun _ => 0) leaking.argv).map
      (fun call => (call.sent.fromMalloc, call.sent.freed)) = some (true, false) := by
    have payload : callLength leaking.argv = 508 := by decide +kernel
    obtain ⟨free, call⟩ := callWith_fills 512 (fun length => decide (512 ≤ length)) (fun _ => 0) _ leaking.clean
    rw [callUnix, call, Option.map_some, payload]
    rfl
  refine ⟨leaks, ?_⟩
  rintro ⟨done, call, _, _, released⟩
  rw [call, Option.map_some, Option.some.injEq, Prod.mk.injEq] at leaks
  rw [leaks.1, leaks.2] at released
  exact absurd (released.mpr rfl) (by decide)

end Woterm.Ipc.CallBuffer
