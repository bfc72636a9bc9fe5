import Woterm.Lib.CString
import Woterm.Lib.KeyStream

/-!
A block of memory as C code sees it: bytes that are read and written at an index, and a record of the
indices used so far. An access outside of the block has no result.
-/

namespace Woterm.Lib

structure Memory where
  bytes : List UInt8
  touched : List Nat := []
deriving DecidableEq, Repr

namespace Memory

def read (memory : Memory) (i : Nat) : Option (UInt8 × Memory) :=
  memory.bytes[i]?.map fun byte => (byte, { memory with touched := memory.touched ++ [i] })

def write (memory : Memory) (i : Nat) (byte : UInt8) : Option Memory :=
  if i < memory.bytes.length then
    some { bytes := memory.bytes.set i byte, touched := memory.touched ++ [i] }
  else none

/-- The string at an index: bytes are read up to and including a NUL. -/
def readString (memory : Memory) (i : Nat) : Nat → Option (List UInt8 × Memory)
  | 0 => none
  | fuel + 1 => do
    let (byte, memory) ← memory.read i
    if byte = 0 then return ([], memory)
    let (bytes, memory) ← memory.readString (i + 1) fuel
    return (byte :: bytes, memory)

def writeString (memory : Memory) (i : Nat) : List UInt8 → Option Memory
  | [] => some memory
  | byte :: bytes => do
    let memory ← memory.write i byte
    memory.writeString (i + 1) bytes

/-- A loop over `count` bytes from index `start` on that combines each with the next byte of a stream. -/
def maskLoop {σ : Type*} (next : σ → σ × UInt8) : Nat → σ → Nat → Memory → Option Memory
  | 0, _, _, memory => some memory
  | count + 1, state, start, memory => do
    let (byte, memory) ← memory.read start
    let memory ← memory.write start (byte ^^^ (next state).2)
    maskLoop next count (next state).1 (start + 1) memory

variable {σ : Type*} (next : σ → σ × UInt8)

theorem read_append (front back : List UInt8) (byte : UInt8) (touched : List Nat) :
    read ⟨front ++ byte :: back, touched⟩ front.length =
      some (byte, ⟨front ++ byte :: back, touched ++ [front.length]⟩) := by
  simp [read]

theorem write_append (front back : List UInt8) (old byte : UInt8) (touched : List Nat) :
    write ⟨front ++ old :: back, touched⟩ front.length byte =
      some ⟨front ++ byte :: back, touched ++ [front.length]⟩ := by
  simp [write]

theorem readString_append (front bytes : List UInt8) (touched : List Nat) (fuel : Nat) (stops : 0 ∈ bytes)
    (enough : bytes.length ≤ fuel) :
    ∃ used, readString ⟨front ++ bytes, touched⟩ front.length fuel =
      some (CString.cstr bytes, ⟨front ++ bytes, used⟩) := by
  induction bytes generalizing front touched fuel with
  | nil => cases stops
  | cons byte bytes ih =>
    cases fuel with
    | zero => cases enough
    | succ fuel =>
      rw [readString, read_append]
      by_cases zero : byte = 0
      · refine ⟨touched ++ [front.length], ?_⟩
        rw [Option.bind_eq_bind, Option.bind_some]
        dsimp only
        rw [if_pos zero, zero]
        rfl
      · have later : 0 ∈ bytes := by simpa [Ne.symm zero] using stops
        obtain ⟨used, rest⟩ := ih (front ++ [byte]) (touched ++ [front.length]) fuel later
          (Nat.le_of_succ_le_succ enough)
        rw [List.append_assoc, List.length_append] at rest
        refine ⟨used, ?_⟩
        rw [Option.bind_eq_bind, Option.bind_some]
        dsimp only
        rw [if_neg zero]
        simp only [List.cons_append, List.nil_append, List.length_cons, List.length_nil, Nat.zero_add] at rest
        simp [rest, CString.cstr, zero]

theorem writeString_append (front old new back : List UInt8) (touched : List Nat) (same : old.length = new.length) :
    ∃ used, writeString ⟨front ++ old ++ back, touched⟩ front.length new = some ⟨front ++ new ++ back, used⟩ := by
  induction new generalizing front old touched with
  | nil =>
    rw [List.eq_nil_of_length_eq_zero same]
    exact ⟨touched, rfl⟩
  | cons byte new ih =>
    obtain ⟨first, old, rfl⟩ := List.exists_cons_of_length_eq_add_one same
    obtain ⟨used, rest⟩ := ih (front ++ [byte]) old (touched ++ [front.length]) (Nat.succ.inj same)
    refine ⟨used, ?_⟩
    rw [writeString, List.append_assoc, List.cons_append, write_append, Option.bind_eq_bind, Option.bind_some]
    simpa using rest

/-- A block written from its first byte on, each byte once, with the rest still free. -/
def filled (written free : List UInt8) : Memory := ⟨written ++ free, List.range written.length⟩

theorem writeString_filled (written free data : List UInt8) (fits : data.length ≤ free.length) :
    (filled written free).writeString written.length data = some (filled (written ++ data) (free.drop data.length)) := by
  induction data generalizing written free with
  | nil => simp [writeString]
  | cons byte data ih =>
    cases free with
    | nil => simp at fits
    | cons old free =>
      have rest := ih (written ++ [byte]) free (Nat.le_of_succ_le_succ fits)
      rw [writeString, filled, write_append, Option.bind_eq_bind, Option.bind_some]
      simpa [filled, List.range_succ] using rest

theorem writeString_eq_none (memory : Memory) (i : Nat) (data : List UInt8)
    (beyond : memory.bytes.length < i + data.length) (inside : i ≤ memory.bytes.length) :
    memory.writeString i data = none := by
  induction data generalizing memory i with
  | nil => exact absurd beyond (Nat.not_lt.mpr inside)
  | cons byte data ih =>
    rw [writeString, write]
    by_cases last : i < memory.bytes.length
    · rw [if_pos last, Option.bind_eq_bind, Option.bind_some]
      apply ih
      · simpa only [List.length_set, List.length_cons, Nat.add_assoc, Nat.add_comm 1] using beyond
      · rw [List.length_set]
        exact last
    · rw [if_neg last]
      rfl

/-- The loop masks the bytes it is given, in place, and uses no other. -/
theorem maskLoop_append (data front back : List UInt8) (state : σ) (touched : List Nat) :
    ∃ used, maskLoop next data.length state front.length ⟨front ++ data ++ back, touched⟩ =
        some ⟨front ++ KeyStream.mask next state data ++ back, touched ++ used⟩ ∧
      ∀ i, i ∈ used ↔ front.length ≤ i ∧ i < front.length + data.length := by
  induction data generalizing front state touched with
  | nil => exact ⟨[], by simp [maskLoop, KeyStream.mask], by simp⟩
  | cons byte data ih =>
    obtain ⟨used, run, range⟩ := ih (front ++ [byte ^^^ (next state).2]) (next state).1
      (touched ++ [front.length] ++ [front.length])
    refine ⟨front.length :: front.length :: used, ?_, ?_⟩
    · simp only [List.length_append, List.length_cons, List.length_nil, List.append_assoc, List.cons_append,
        List.nil_append] at run
      simp only [List.length_cons, maskLoop, List.append_assoc, List.cons_append, read_append, write_append,
        Option.bind_eq_bind, Option.bind_some, KeyStream.mask, List.nil_append]
      rw [Nat.add_zero] at run
      exact run
    · intro i
      simp only [List.mem_cons, range, List.length_append, List.length_cons, List.length_nil]
      omega

theorem maskLoop_eq_none (count : Nat) (state : σ) (start : Nat) (memory : Memory)
    (beyond : memory.bytes.length < start + count) (inside : start ≤ memory.bytes.length) :
    maskLoop next count state start memory = none := by
  induction count generalizing state start memory with
  | zero => omega
  | succ count ih =>
    by_cases last : start < memory.bytes.length
    · have step := ih (next state).1 (start + 1)
        { bytes := memory.bytes.set start (memory.bytes[start] ^^^ (next state).2)
          touched := memory.touched ++ [start] ++ [start] }
        (by simp; omega) (by simp; omega)
      simpa [maskLoop, read, write, last] using step
    · have absent : memory.read start = none := by simp [read, Nat.le_of_not_lt last]
      rw [maskLoop, absent]
      rfl

end Memory

end Woterm.Lib
