import Mathlib.Data.List.TakeWhile
import Mathlib.Tactic.Ring

/-!
A C `int` seen through `memcpy`: four bytes, least significant first, in two's
complement. Byte memory is a list; a read or a write that leaves the list has no
result, so an access outside its object can never be mistaken for a value.
-/

namespace Woterm.Lib.Word32

abbrev Byte := UInt8

/-- The four bytes of an `int`, least significant first. -/
def toBytes (value : Int) : List Byte :=
  let word := (value % 4294967296).toNat
  [UInt8.ofNat (word % 256), UInt8.ofNat (word / 256 % 256),
    UInt8.ofNat (word / 65536 % 256), UInt8.ofNat (word / 16777216 % 256)]

/-- Signed 32-bit arithmetic: the representative of a value in `[-2^31, 2^31)`. -/
def wrap (value : Int) : Int :=
  (value + 2147483648) % 4294967296 - 2147483648

/-- The `int` whose bytes are these four. -/
def ofBytes (b0 b1 b2 b3 : Byte) : Int :=
  wrap (b0.toNat + 256 * b1.toNat + 65536 * b2.toNat + 16777216 * b3.toNat)

/-- `memcpy(&value, memory + position, sizeof(int))`. -/
def load (memory : List Byte) (position : Int) : Option Int :=
  if position < 0 then none
  else match memory.drop position.toNat with
    | b0 :: b1 :: b2 :: b3 :: _ => some (ofBytes b0 b1 b2 b3)
    | _ => none

/-- `memcpy(memory + position, data, size)`: the bytes around the copy stay as they are. -/
def store (memory : List Byte) (position : Nat) (data : List Byte) : Option (List Byte) :=
  if position + data.length ≤ memory.length then
    some (memory.take position ++ data ++ memory.drop (position + data.length))
  else none

theorem toBytes_length (value : Int) : (toBytes value).length = 4 := rfl

private theorem byte_value (n : Nat) : ((UInt8.ofNat (n % 256)).toNat : Int) = (n : Int) % 256 := by
  simp

theorem ofBytes_toBytes (value : Int) (lower : -2147483648 ≤ value) (upper : value < 2147483648) :
    ofBytes (UInt8.ofNat ((value % 4294967296).toNat % 256))
      (UInt8.ofNat ((value % 4294967296).toNat / 256 % 256))
      (UInt8.ofNat ((value % 4294967296).toNat / 65536 % 256))
      (UInt8.ofNat ((value % 4294967296).toNat / 16777216 % 256)) = value := by
  simp only [ofBytes, byte_value, wrap]
  omega

theorem load_toBytes (before after : List Byte) (value : Int)
    (lower : -2147483648 ≤ value) (upper : value < 2147483648) :
    load (before ++ (toBytes value ++ after)) before.length = some value := by
  have start : ¬ ((before.length : Int) < 0) := by omega
  simp only [load, if_neg start, Int.toNat_natCast, List.drop_left, toBytes, List.cons_append]
  exact congrArg some (ofBytes_toBytes value lower upper)

theorem load_zero (value : Int) (after : List Byte)
    (lower : -2147483648 ≤ value) (upper : value < 2147483648) :
    load (toBytes value ++ after) 0 = some value := by
  simpa using load_toBytes [] after value lower upper

theorem load_inside {memory : List Byte} {position value : Int} (read : load memory position = some value) :
    0 ≤ position ∧ position + 4 ≤ memory.length := by
  unfold load at read
  split at read
  · cases read
  · split at read
    next b0 b1 b2 b3 rest found =>
      have size := congrArg List.length found
      rw [List.length_drop] at size
      simp only [List.length_cons] at size
      omega
    next => cases read

theorem load_append (memory after : List Byte) {position : Int} (value : Int)
    (read : load memory position = some value) : load (memory ++ after) position = some value := by
  obtain ⟨start, fits⟩ := load_inside read
  unfold load at read ⊢
  rw [if_neg (by omega)] at read ⊢
  rw [List.drop_append_of_le_length (by omega)]
  match memory.drop position.toNat, read with
  | b0 :: b1 :: b2 :: b3 :: rest, read => exact read

theorem store_fill (written free data : List Byte) (fits : data.length ≤ free.length) :
    store (written ++ free) written.length data = some (written ++ data ++ free.drop data.length) := by
  have inside : written.length + data.length ≤ (written ++ free).length := by
    simp only [List.length_append]
    omega
  have rest : (written ++ free).drop (written.length + data.length) = free.drop data.length := by
    rw [List.drop_append, List.drop_eq_nil_of_le (by omega), List.nil_append, Nat.add_sub_cancel_left]
  rw [store, if_pos inside, rest, List.take_left]

end Woterm.Lib.Word32
