import Woterm.Lib.Utf8Ranges
import Woterm.Terminal.Vte

/-!
The UTF-8 automaton of the terminal parser is exact. Each of its states stands for the bytes that
an encoded character still calls for, so a scan yields a code point if and only if the bytes start
with the encoding of a character.
-/

namespace Woterm.Terminal.Decoder
open Woterm.Lib Woterm.Lib.Utf8Ranges Woterm.Terminal.Data Woterm.Terminal.Vte

/-! ## The tables -/

/-- The classes of the bytes, by their ranges. -/
def mask (n : Nat) : Nat :=
  if n < 0x80 then 0 else if n < 0x90 then 1 else if n < 0xa0 then 9 else if n < 0xc0 then 7
  else if n < 0xc2 then 8 else if n < 0xe0 then 2 else if n = 0xe0 then 10 else if n = 0xed then 4
  else if n < 0xf0 then 3 else if n = 0xf0 then 11 else if n < 0xf4 then 6 else if n = 0xf4 then 5 else 8

theorem utf8Masks_eq : utf8Masks = (List.range 256).map mask := by
  decide +kernel

theorem utf8Masks_getD (n : Nat) (small : n < 256) : utf8Masks.getD n 0 = mask n := by
  simp [utf8Masks_eq, List.getD, small]

/-- The next state of the automaton. -/
def next (state n : Nat) : Nat := utf8States.getD (state + mask n) 12

/-- What the states of the automaton wait for. -/
def awaited : List (Nat × List Range) :=
  [(0, []), (24, [tail]), (36, [tail, tail]), (48, [⟨0xa0, 0xbf⟩, tail]), (60, [⟨0x80, 0x9f⟩, tail]),
   (72, [⟨0x90, 0xbf⟩, tail, tail]), (84, [tail, tail, tail]), (96, [⟨0x80, 0x8f⟩, tail, tail])]

theorem next_first : ∀ n : Fin 256,
    (∃ lead ∈ leads, lead.range.Has n ∧ (next 0 n, lead.owed) ∈ awaited ∧
      (0xff >>> mask n) &&& n.val = n - lead.marker) ∨
    (∀ lead ∈ leads, ¬ lead.range.Has n) ∧ next 0 n = 12 := by
  decide +kernel

theorem next_tail : ∀ entry ∈ awaited, ∀ range ∈ entry.2.head?, ∀ n : Fin 256,
    if range.Has n then (next entry.1 n, entry.2.tail) ∈ awaited else next entry.1 n = 12 := by
  decide +kernel

theorem next_rejected : ∀ n : Fin 256, next 12 n = 12 := by
  decide +kernel

theorem awaited_zero : ∀ entry ∈ awaited, entry.1 = 0 ↔ entry.2 = [] := by
  decide

/-! ## One byte -/

theorem utf8Decode_state (c : uchar) (state : Nat) (codep : UInt32) :
    (utf8Decode c state codep).1 = next state c.toNat := by
  unfold utf8Decode next
  dsimp only
  rw [utf8Masks_getD c.toNat c.toNat_lt]

theorem utf8Decode_first (c : uchar) (codep : UInt32) :
    (utf8Decode c 0 codep).2.toNat = (0xff >>> mask c.toNat) &&& c.toNat := by
  have small : 0xff >>> mask c.toNat < 4294967296 :=
    lt_of_le_of_lt (Nat.shiftRight_le 0xff (mask c.toNat)) (by decide)
  unfold utf8Decode
  dsimp only
  rw [if_neg (by decide), utf8Masks_getD c.toNat c.toNat_lt, UInt32.toNat_and, UInt32.toNat_ofNat_of_lt' small,
    UInt8.toNat_toUInt32]

theorem utf8Decode_tail (c : uchar) (state : Nat) (codep : UInt32) (inside : state ≠ 0)
    (small : codep.toNat < 67108864) :
    (utf8Decode c state codep).2.toNat = 64 * codep.toNat + c.toNat % 64 := by
  have bits : c.toNat &&& 63 = c.toNat % 64 := Nat.and_two_pow_sub_one_eq_mod c.toNat 6
  have shifted : codep.toNat <<< 6 = 64 * codep.toNat := by
    rw [Nat.shiftLeft_eq, Nat.mul_comm]
  have room : c.toNat % 64 < 2 ^ 6 := Nat.mod_lt _ (by decide)
  have kept : codep.toNat <<< 6 % 2 ^ 32 = codep.toNat <<< 6 := by
    apply Nat.mod_eq_of_lt
    omega
  calc (utf8Decode c state codep).2.toNat
      = (c.toNat &&& 63) ||| codep.toNat <<< 6 % 2 ^ 32 := by
        unfold utf8Decode
        dsimp only
        rw [if_pos inside, UInt32.toNat_or, UInt32.toNat_and, UInt32.toNat_shiftLeft, UInt8.toNat_toUInt32]
        rfl
    _ = codep.toNat <<< 6 + c.toNat % 64 := by
        rw [bits, kept, Nat.or_comm, Nat.shiftLeft_add_eq_or_of_lt room]
    _ = 64 * codep.toNat + c.toNat % 64 := by rw [shifted]

/-! ## The scan -/

/-- A scan goes on from a state, or ends if the character is complete. -/
def resume (state : Nat) (codep : UInt32) (bytes : List uchar) : Option UInt32 :=
  if state = 0 then some codep else utf8Scan bytes state codep

theorem utf8Scan_cons (c : uchar) (bytes : List uchar) (state : Nat) (codep : UInt32) :
    utf8Scan (c :: bytes) state codep = resume (next state c.toNat) (utf8Decode c state codep).2 bytes := by
  rw [utf8Scan, ← utf8Decode_state c state codep, resume]

theorem utf8Scan_rejected (bytes : List uchar) (codep : UInt32) : utf8Scan bytes 12 codep = none := by
  induction bytes generalizing codep with
  | nil => rfl
  | cons c bytes ih =>
    have rejected : next 12 c.toNat = 12 := next_rejected ⟨c.toNat, c.toNat_lt⟩
    rw [utf8Scan_cons, rejected, resume, if_neg (by decide), ih]

theorem resume_rejected (bytes : List uchar) (codep : UInt32) : resume 12 codep bytes = none := by
  rw [resume, if_neg (by decide), utf8Scan_rejected]

/-- From a state, the scan reads what the state waits for. -/
theorem resume_iff (owed : List Range) (state : Nat) (codep : UInt32) (bytes : List uchar) (found : UInt32)
    (awaits : (state, owed) ∈ awaited) (small : (codep.toNat + 1) * 64 ^ owed.length ≤ 4294967296) :
    resume state codep bytes = some found ↔ Reads owed codep.toNat bytes found.toNat := by
  induction owed generalizing state codep bytes with
  | nil =>
    have accepted : state = 0 := (awaited_zero _ awaits).mpr rfl
    rw [resume, if_pos accepted, reads_done, Option.some.injEq, ← UInt32.toNat_inj, eq_comm]
  | cons range owed ih =>
    have waiting : state ≠ 0 := fun done => List.cons_ne_nil range owed ((awaited_zero _ awaits).mp done)
    have total : (64 * codep.toNat + 64) * 64 ^ owed.length ≤ 4294967296 := by
      calc (64 * codep.toNat + 64) * 64 ^ owed.length
          = (codep.toNat + 1) * 64 ^ (owed.length + 1) := by ring
        _ ≤ 4294967296 := small
    have room : 64 * codep.toNat + 64 ≤ 4294967296 :=
      le_trans (Nat.le_mul_of_pos_right _ (Nat.pow_pos (by decide))) total
    rw [resume, if_neg waiting]
    cases bytes with
    | nil => exact iff_of_false (by simp [utf8Scan]) (not_reads_nil range owed _ _)
    | cons c bytes =>
      have step := next_tail _ awaits range rfl ⟨c.toNat, c.toNat_lt⟩
      have value := utf8Decode_tail c state codep waiting (by omega)
      rw [reads_cons, utf8Scan_cons]
      split_ifs at step with has
      · have bound : ((utf8Decode c state codep).2.toNat + 1) * 64 ^ owed.length ≤ 4294967296 := by
          have larger : 64 * codep.toNat + c.toNat % 64 + 1 ≤ 64 * codep.toNat + 64 := by omega
          rw [value]
          exact le_trans (Nat.mul_le_mul_right _ larger) total
        rw [ih _ _ _ step bound, value]
        exact (and_iff_right has).symm
      · rw [step, resume_rejected]
        exact iff_of_false (by simp) fun reads => has reads.1

theorem leads_small : ∀ lead ∈ leads,
    (lead.range.high - lead.marker + 1) * 64 ^ lead.owed.length ≤ 4294967296 := by
  decide

theorem utf8Scan_iff (bytes : List uchar) (found : UInt32) :
    utf8Scan bytes 0 0 = some found ↔
      ∃ (c : Char) (back : List uchar), bytes = String.utf8EncodeChar c ++ back ∧ c.val = found := by
  simp only [← UInt32.toNat_inj]
  cases bytes with
  | nil =>
    refine iff_of_false (by simp [utf8Scan]) ?_
    rintro ⟨c, back, split, -⟩
    exact Utf8.encodeChar_ne_nil c (List.append_eq_nil_iff.mp split.symm).1
  | cons c bytes =>
    have value := utf8Decode_first c 0
    rw [char_prefix_iff, utf8Scan_cons]
    rcases next_first ⟨c.toNat, c.toNat_lt⟩ with ⟨lead, member, has, awaits, bits⟩ | ⟨outside, rejected⟩
    · have bound : ((utf8Decode c 0 0).2.toNat + 1) * 64 ^ lead.owed.length ≤ 4294967296 := by
        rw [value, bits]
        have high : c.toNat ≤ lead.range.high := has.2
        exact le_trans (Nat.mul_le_mul_right _ (by dsimp only; omega)) (leads_small lead member)
      rw [resume_iff lead.owed _ _ _ _ awaits bound, value, bits]
      refine ⟨fun reads => ⟨lead, member, has, reads⟩, ?_⟩
      rintro ⟨other, another, also, reads⟩
      rwa [lead_unique lead other member another c.toNat has also]
    · rw [rejected, resume_rejected]
      exact iff_of_false (by simp) fun ⟨lead, member, has, _⟩ => outside lead member has

end Woterm.Terminal.Decoder
