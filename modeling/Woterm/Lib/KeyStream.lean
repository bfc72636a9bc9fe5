import Mathlib.Data.List.Basic

/-! Stream ciphers: every byte is combined with the next byte of a stream that does not
depend on the data. -/

namespace Woterm.Lib.KeyStream

variable {σ : Type*}

def mask (next : σ → σ × UInt8) : σ → List UInt8 → List UInt8
  | _, [] => []
  | state, byte :: data => (byte ^^^ (next state).2) :: mask next (next state).1 data

variable (next : σ → σ × UInt8) (state : σ)

theorem mask_mask (data : List UInt8) : mask next state (mask next state data) = data := by
  induction data generalizing state with
  | nil => rfl
  | cons byte data ih =>
    have twice : byte ^^^ (next state).2 ^^^ (next state).2 = byte := by
      rw [UInt8.xor_assoc, UInt8.xor_self, UInt8.xor_zero]
    simp only [mask, twice, ih]

theorem length_mask (data : List UInt8) : (mask next state data).length = data.length := by
  induction data generalizing state with
  | nil => rfl
  | cons byte data ih => rw [mask, List.length_cons, ih, List.length_cons]

theorem mask_append (data more : List UInt8) :
    ∃ later, mask next state (data ++ more) = mask next state data ++ mask next later more := by
  induction data generalizing state with
  | nil => exact ⟨state, rfl⟩
  | cons byte data ih =>
    obtain ⟨later, same⟩ := ih (next state).1
    exact ⟨later, by rw [List.cons_append, mask, mask, same, List.cons_append]⟩

theorem mask_take (data : List UInt8) (n : Nat) : mask next state (data.take n) = (mask next state data).take n := by
  induction data generalizing state n with
  | nil => rw [List.take_nil, mask, List.take_nil]
  | cons byte data ih =>
    cases n with
    | zero => rfl
    | succ n => rw [List.take_succ_cons, mask, mask, List.take_succ_cons, ih]

/-- The first bytes of the stream itself. -/
def stream (next : σ → σ × UInt8) : Nat → σ → List UInt8
  | 0, _ => []
  | n + 1, state => (next state).2 :: stream next n (next state).1

theorem length_stream (n : Nat) (state : σ) : (stream next n state).length = n := by
  induction n generalizing state with
  | zero => rfl
  | succ n ih => rw [stream, List.length_cons, ih]

theorem stream_add (n more : Nat) (state : σ) :
    ∃ later, stream next (n + more) state = stream next n state ++ stream next more later := by
  induction n generalizing state with
  | zero => exact ⟨state, by rw [Nat.zero_add, stream, List.nil_append]⟩
  | succ n ih =>
    obtain ⟨later, same⟩ := ih (next state).1
    exact ⟨later, by rw [Nat.succ_add, stream, stream, same, List.cons_append]⟩

/-- Two generators that run in step give the same stream. -/
theorem mask_simulation {τ : Type*} (other : τ → τ × UInt8) (abstract : σ → τ)
    (step : ∀ state, other (abstract state) = (abstract (next state).1, (next state).2)) (state : σ)
    (data : List UInt8) : mask other (abstract state) data = mask next state data := by
  induction data generalizing state with
  | nil => rfl
  | cons byte data ih => rw [mask, mask, step, ih]

end Woterm.Lib.KeyStream
