import Woterm.Lib.Word32
import Woterm.Qt

/-!
The message format between the terminal window and its `ssh` child, as
`FunArgWriter` and `FunArgReader` handle it. A message is a list of byte
strings; the conversions between these and `QString` are taken to be lossless.

A `QByteArray` is followed by one readable NUL byte. Every byte after that one
is outside the object, and a read that reaches it is reported as `overrun`.
-/

namespace Woterm.Ipc.FunArg
open Woterm.Lib.Word32 Woterm.Lib.CString
open Woterm.Qt (QByteArray)

abbrev Message := List QByteArray

/-- `sizeof(int)`. -/
def intsize : Nat := 4

namespace FunArgWriter

/-- One argument: its length with the NUL, its bytes, the NUL. -/
def argument (arg : QByteArray) : List Byte :=
  toBytes (arg.length + 1) ++ arg ++ [0]

/-- The local array `fun` of `write` after its loop. -/
def body (funArgs : Message) : List Byte :=
  funArgs.foldl (fun data arg => data ++ argument arg) (toBytes funArgs.length)

/-- The bytes handed to the socket. -/
def write (funArgs : Message) : List Byte :=
  toBytes ((body funArgs).length + 1) ++ body funArgs ++ [0]

end FunArgWriter

/-- `QByteArray::mid`: a start past the end gives nothing, a length that is negative
or too large is cut to the end of the array. -/
def mid (bytes : QByteArray) (position : Nat) (length : Int) : QByteArray :=
  if length < 0 then bytes.drop position
  else (bytes.drop position).take length.toNat

namespace FunArgReader

/-- What one call of `next` does. `received` also covers an empty list with its frame consumed. -/
inductive Next where
  | waiting
  | received (data : Message) (rest : QByteArray)
  | fatal
  | overrun
  deriving DecidableEq, Repr

/-- `arg.append(pbuf, length)`: a negative length means the length of the C string. -/
def appendArg (memory : List Byte) (position length : Int) : Option QByteArray :=
  if length = 0 then some []
  else if position < 0 ∨ memory.length ≤ position then none
  else if length < 0 then some (cstr (memory.drop position.toNat))
  else if position + length ≤ memory.length then
    some ((memory.drop position.toNat).take length.toNat)
  else none

/-- The argument loop, from `pbuf` on. -/
def args (memory : List Byte) : Nat → Int → Option Message
  | 0, _ => some []
  | count + 1, pbuf => do
      let length ← load memory pbuf
      let arg ← appendArg memory (pbuf + intsize) length
      let data ← args memory count (pbuf + intsize + length)
      some (cstr arg :: data)

/-- `next` on the buffered bytes. -/
def next (buf : QByteArray) : Next :=
  if buf.length ≤ 0 then .waiting
  else match load (buf ++ [0]) 0 with
    | none => .overrun
    | some length =>
      if (buf.length : Int) < length then .waiting
      else if ((mid buf intsize length).length : Int) ≠ length then .fatal
      else
        let funArgs := mid buf intsize length ++ [0]
        match load funArgs 0 with
        | none => .overrun
        | some count =>
          match args funArgs count.toNat intsize with
          | none => .overrun
          | some data => .received data (buf.drop (length + intsize).toNat)

end FunArgReader

open FunArgWriter FunArgReader

/-- Size of the counted part of a frame, the trailing NUL included. -/
def payloadSize (funArgs : Message) : Nat := (body funArgs).length + 1

variable (funArgs : Message)

theorem body_eq : body funArgs = toBytes funArgs.length ++ funArgs.flatMap argument := by
  have general : ∀ (rest : Message) (data : List Byte),
      rest.foldl (fun data arg => data ++ argument arg) data = data ++ rest.flatMap argument := by
    intro rest
    induction rest with
    | nil => simp
    | cons arg rest ih =>
      intro data
      simp only [List.foldl_cons, ih, List.flatMap_cons, List.append_assoc]
  exact general funArgs _

theorem argument_length (arg : QByteArray) : (argument arg).length = arg.length + 5 := by
  simp only [argument, List.length_append, toBytes_length, List.length_singleton]
  omega

theorem write_length : (write funArgs).length = payloadSize funArgs + 4 := by
  simp only [write, payloadSize, List.length_append, toBytes_length, List.length_singleton]
  omega

theorem payloadSize_ge (some_arg : funArgs ≠ []) : 10 ≤ payloadSize funArgs := by
  cases funArgs with
  | nil => exact absurd rfl some_arg
  | cons arg rest =>
    simp only [payloadSize, body_eq, List.flatMap_cons, List.length_append, toBytes_length,
      argument_length]
    omega

theorem write_eq : write funArgs = toBytes (payloadSize funArgs) ++ (body funArgs ++ [0]) := by
  simp [write, payloadSize]

theorem payloadSize_eq : payloadSize funArgs = 5 + (funArgs.flatMap argument).length := by
  simp only [payloadSize, body_eq, List.length_append, toBytes_length]
  omega

theorem count_le_size : funArgs.length ≤ (funArgs.flatMap argument).length := by
  induction funArgs with
  | nil => simp
  | cons arg rest ih =>
    simp only [List.flatMap_cons, List.length_append, List.length_cons, argument_length]
    omega

theorem argument_le_size (arg : QByteArray) (member : arg ∈ funArgs) :
    arg.length + 5 ≤ (funArgs.flatMap argument).length := by
  rw [← argument_length]
  exact (List.sublist_flatten_of_mem (List.mem_map_of_mem member)).length_le

theorem args_written (before after : List Byte) (clean : ∀ arg ∈ funArgs, NulFree arg)
    (small : ∀ arg ∈ funArgs, arg.length + 1 < 2147483648) :
    args (before ++ (funArgs.flatMap argument ++ after)) funArgs.length before.length =
      some funArgs := by
  induction funArgs generalizing before with
  | nil => rfl
  | cons arg rest ih =>
    have memory : before ++ ((arg :: rest).flatMap argument ++ after) =
        before ++ (toBytes (arg.length + 1) ++ (arg ++ ([0] ++ (rest.flatMap argument ++ after)))) := by
      simp [argument]
    have size := small arg (by simp)
    have header := load_toBytes before (arg ++ ([0] ++ (rest.flatMap argument ++ after)))
      ((arg.length : Int) + 1) (by omega) (by omega)
    have text : appendArg (before ++ (toBytes ((arg.length : Int) + 1) ++
        (arg ++ ([0] ++ (rest.flatMap argument ++ after))))) ((before.length : Int) + intsize)
        ((arg.length : Int) + 1) = some (arg ++ [0]) := by
      have start : ((before.length : Int) + intsize).toNat =
          (before ++ toBytes ((arg.length : Int) + 1)).length := by
        simp only [List.length_append, toBytes_length, intsize]
        omega
      rw [appendArg, if_neg (by omega), if_neg, if_neg (by omega), if_pos, start, ← List.append_assoc,
        List.drop_left]
      · have count : ((arg.length : Int) + 1).toNat = (arg ++ [0]).length := by
          simp only [List.length_append, List.length_singleton]
          omega
        rw [count, ← List.append_assoc, List.take_left]
      · simp only [List.length_append, toBytes_length, List.length_singleton, intsize]
        omega
      · simp only [List.length_append, toBytes_length, List.length_singleton, intsize]
        omega
    have later := ih (before ++ argument arg) (fun other member => clean other (by simp [member]))
      (fun other member => small other (by simp [member]))
    have place : ((before.length : Int) + intsize + ((arg.length : Int) + 1)) =
        (before ++ argument arg).length := by
      simp only [List.length_append, argument_length, intsize]
      omega
    have same : before ++ (toBytes ((arg.length : Int) + 1) ++
        (arg ++ ([0] ++ (rest.flatMap argument ++ after)))) =
        before ++ argument arg ++ (rest.flatMap argument ++ after) := by
      simp [argument]
    rw [memory]
    simp only [List.length_cons, args, header, text, Option.bind_eq_bind, Option.bind_some]
    rw [place, same, later]
    simp [cstr_append_nul arg [] (clean arg (by simp))]

theorem next_write (rest : List Byte) (clean : ∀ arg ∈ funArgs, NulFree arg)
    (small : (write funArgs).length < 2147483648) : next (write funArgs ++ rest) = .received funArgs rest := by
  have size := write_length funArgs
  have bound : ((payloadSize funArgs : Nat) : Int) < 2147483648 := by omega
  have nonempty : ¬ (write funArgs ++ rest).length ≤ 0 := by
    simp only [List.length_append]
    omega
  have header : load (write funArgs ++ rest ++ [0]) 0 = some (payloadSize funArgs : Int) := by
    rw [write_eq, List.append_assoc, List.append_assoc]
    exact load_zero _ _ (by omega) bound
  have enough : ¬ ((write funArgs ++ rest).length : Int) < (payloadSize funArgs : Int) := by
    simp only [List.length_append]
    omega
  have payload : mid (write funArgs ++ rest) intsize (payloadSize funArgs) = body funArgs ++ [0] := by
    have drop : (write funArgs ++ rest).drop intsize = (body funArgs ++ [0]) ++ rest := by
      rw [write_eq, List.append_assoc]
      exact List.drop_left' (toBytes_length _)
    have length : (payloadSize funArgs : Int).toNat = (body funArgs ++ [0]).length := by
      simp [payloadSize]
    rw [mid, if_neg (by omega), drop, length, List.take_left]
  have whole : ¬ ((body funArgs ++ [0]).length : Int) ≠ (payloadSize funArgs : Int) := by
    simp [payloadSize]
  have left : (write funArgs ++ rest).drop ((payloadSize funArgs : Int) + intsize).toNat = rest := by
    have count : ((payloadSize funArgs : Int) + intsize).toNat = (write funArgs).length := by
      rw [size]
      simp only [intsize]
      omega
    rw [count, List.drop_left]
  have bodySize := payloadSize_eq funArgs
  have few := count_le_size funArgs
  have count : load (body funArgs ++ [0] ++ [0]) 0 = some (funArgs.length : Int) := by
    rw [body_eq, List.append_assoc, List.append_assoc]
    exact load_zero _ _ (by omega) (by omega)
  have each : ∀ arg ∈ funArgs, arg.length + 1 < 2147483648 := by
    intro arg member
    have inside := argument_le_size funArgs arg member
    omega
  have loop : args (body funArgs ++ [0] ++ [0]) funArgs.length intsize = some funArgs := by
    have read := args_written funArgs (toBytes funArgs.length) [0, 0] clean each
    rw [toBytes_length] at read
    rw [body_eq]
    simpa [intsize] using read
  simp only [next, if_neg nonempty, header, if_neg enough, if_neg whole, payload, count,
    Int.toNat_natCast, loop, left]

end Woterm.Ipc.FunArg
