import Mathlib.Data.List.Induction
import Mathlib.Logic.Function.Basic

/-!
Cyclic redundancy checks that are computed from a table, a byte at a time: the register is shifted to the left and
bytes enter at its low end, or it is shifted to the right and bytes enter at the table's index. The width of the
register and the table are arbitrary.
-/

namespace Woterm.Lib.Crc

variable {w : Nat}

/-- The bytes in a register, the first one highest. -/
def valueLeft (bytes : List UInt8) : BitVec w :=
  bytes.foldl (fun value b => value <<< 8 ^^^ b.toBitVec.setWidth w) 0

/-- The bytes in a register, the first one lowest. -/
def valueRight : List UInt8 → BitVec w
  | [] => 0
  | b :: bytes => b.toBitVec.setWidth w ^^^ valueRight bytes <<< 8

/-- The low bytes of a register, the lowest one first. -/
def lowBytes : Nat → BitVec w → List UInt8
  | 0, _ => []
  | n + 1, value => UInt8.ofBitVec (value.setWidth 8) :: lowBytes n (value >>> 8)

theorem length_lowBytes (n : Nat) (value : BitVec w) : (lowBytes n value).length = n := by
  induction n generalizing value with
  | zero => rfl
  | succ n ih => rw [lowBytes, List.length_cons, ih]

theorem valueLeft_concat (bytes : List UInt8) (b : UInt8) :
    (valueLeft (bytes ++ [b]) : BitVec w) = valueLeft bytes <<< 8 ^^^ b.toBitVec.setWidth w := by
  rw [valueLeft, List.foldl_append]
  rfl

theorem valueLeft_reverse (bytes : List UInt8) : (valueLeft bytes.reverse : BitVec w) = valueRight bytes := by
  induction bytes with
  | nil => rfl
  | cons b bytes ih => rw [List.reverse_cons, valueLeft_concat, ih, valueRight, BitVec.xor_comm]

theorem getLsbD_valueRight (bytes : List UInt8) (i : Nat) (high : 8 * bytes.length ≤ i) :
    (valueRight bytes : BitVec w).getLsbD i = false := by
  induction bytes generalizing i with
  | nil => exact BitVec.getLsbD_zero
  | cons b bytes ih =>
    rw [List.length_cons] at high
    rw [valueRight, BitVec.getLsbD_xor, BitVec.getLsbD_shiftLeft, BitVec.getLsbD_setWidth,
      ih (i - 8) (by omega), BitVec.getLsbD_of_ge b.toBitVec i (by omega)]
    simp

theorem getLsbD_valueLeft (bytes : List UInt8) (i : Nat) (high : 8 * bytes.length ≤ i) :
    (valueLeft bytes : BitVec w).getLsbD i = false := by
  rw [← List.reverse_reverse bytes, valueLeft_reverse]
  exact getLsbD_valueRight _ i (by rwa [List.length_reverse])

theorem valueRight_lowBytes (n : Nat) (value : BitVec w) (fits : ∀ i, 8 * n ≤ i → value.getLsbD i = false) :
    valueRight (lowBytes n value) = value := by
  induction n generalizing value with
  | zero =>
    apply BitVec.eq_of_getLsbD_eq
    intro i _
    rw [fits i (by omega)]
    exact BitVec.getLsbD_zero
  | succ n ih =>
    have rest : ∀ i, 8 * n ≤ i → (value >>> 8).getLsbD i = false := by
      intro i high
      rw [BitVec.getLsbD_ushiftRight]
      exact fits (8 + i) (by omega)
    rw [lowBytes, valueRight, ih _ rest]
    apply BitVec.eq_of_getLsbD_eq
    intro i inside
    simp only [BitVec.getLsbD_xor, BitVec.getLsbD_setWidth, BitVec.getLsbD_shiftLeft, BitVec.getLsbD_ushiftRight]
    by_cases low : i < 8
    · simp [low, inside]
    · simp [low, inside, show 8 + (i - 8) = i by omega]

theorem valueRight_injective (one two : List UInt8) (lengths : one.length = two.length)
    (fits : 8 * one.length ≤ w) (same : (valueRight one : BitVec w) = valueRight two) : one = two := by
  induction one generalizing two with
  | nil => exact (List.eq_nil_of_length_eq_zero lengths.symm).symm
  | cons b one ih =>
    cases two with
    | nil => cases lengths
    | cons c two =>
      simp only [List.length_cons] at lengths fits
      have bits (i : Nat) := congrArg (fun value : BitVec w => value.getLsbD i) same
      simp only [valueRight, BitVec.getLsbD_xor, BitVec.getLsbD_setWidth, BitVec.getLsbD_shiftLeft] at bits
      have first : b = c := by
        apply UInt8.toBitVec_inj.mp
        apply BitVec.eq_of_getLsbD_eq
        intro i small
        have here := bits i
        simpa [small, show i < w by omega] using here
      have rest : (valueRight one : BitVec w) = valueRight two := by
        apply BitVec.eq_of_getLsbD_eq
        intro i inside
        by_cases low : i + 8 < w
        · have here := bits (i + 8)
          simpa [low, BitVec.getLsbD_of_ge, show ¬ i + 8 < 8 by omega] using here
        · rw [getLsbD_valueRight one i (by omega), getLsbD_valueRight two i (by omega)]
      rw [first, ih two (Nat.succ.inj lengths) (by omega) rest]

theorem valueLeft_injective (one two : List UInt8) (lengths : one.length = two.length)
    (fits : 8 * one.length ≤ w) (same : (valueLeft one : BitVec w) = valueLeft two) : one = two := by
  rw [← List.reverse_reverse one, ← List.reverse_reverse two, valueLeft_reverse, valueLeft_reverse] at same
  apply List.reverse_inj.mp
  exact valueRight_injective _ _ (by simpa using lengths) (by simpa using fits) same

section Left

variable (table : BitVec 8 → BitVec w)

def left (crc : BitVec w) (b : UInt8) : BitVec w :=
  table (crc.extractLsb' (w - 8) 8) ^^^ crc <<< 8 ^^^ b.toBitVec.setWidth w

/-- What is added at places that are not looked up only moves. -/
theorem left_xor (crc value : BitVec w) (b : UInt8) (clear : value.extractLsb' (w - 8) 8 = 0) :
    left table (crc ^^^ value) b = left table crc 0 ^^^ (value <<< 8 ^^^ b.toBitVec.setWidth w) := by
  have zero : (0 : UInt8).toBitVec.setWidth w = 0#w := by simp
  rw [left, left, BitVec.extractLsb'_xor, clear, BitVec.shiftLeft_xor_distrib, zero]
  simp only [BitVec.xor_zero, BitVec.xor_assoc]
  rw [show (0 : BitVec 8) = 0#8 from rfl, BitVec.xor_zero]

theorem foldl_left (crc : BitVec w) (bytes : List UInt8) (fits : 8 * bytes.length ≤ w) :
    bytes.foldl (left table) crc =
      (List.replicate bytes.length 0).foldl (left table) crc ^^^ valueLeft bytes := by
  induction bytes using List.reverseRecOn with
  | nil => exact (BitVec.xor_zero).symm
  | append_singleton bytes b ih =>
    rw [List.length_append, List.length_singleton] at fits
    have clear : (valueLeft bytes : BitVec w).extractLsb' (w - 8) 8 = 0 := by
      apply BitVec.eq_of_getLsbD_eq
      intro i small
      rw [BitVec.getLsbD_extractLsb', getLsbD_valueLeft bytes _ (by omega)]
      simp
    rw [List.foldl_append, ih (by omega), valueLeft_concat, List.length_append, List.length_singleton,
      List.replicate_succ', List.foldl_append]
    exact left_xor table _ _ b clear

theorem foldl_left_own (crc : BitVec w) (bytes : List UInt8) (fits : 8 * bytes.length ≤ w)
    (own : valueLeft bytes = (List.replicate bytes.length 0).foldl (left table) crc) :
    bytes.foldl (left table) crc = 0 := by
  rw [foldl_left table crc bytes fits, own]
  exact BitVec.xor_self

/-- The register can be recovered when the low bytes of the table differ. -/
theorem left_injective (wide : 8 ≤ w) (differ : Function.Injective fun i => (table i).setWidth 8) (b : UInt8) :
    Function.Injective fun crc => left table crc b := by
  intro one two same
  have bits (i : Nat) := congrArg (fun value : BitVec w => value.getLsbD i) same
  simp only [left, BitVec.getLsbD_xor, BitVec.getLsbD_setWidth, BitVec.getLsbD_shiftLeft] at bits
  have top : one.extractLsb' (w - 8) 8 = two.extractLsb' (w - 8) 8 := by
    apply differ
    apply BitVec.eq_of_getLsbD_eq
    intro i small
    have here := bits i
    simpa [small, show i < w by omega] using here
  apply BitVec.eq_of_getLsbD_eq
  intro i inside
  by_cases high : w - 8 ≤ i
  · have here := congrArg (fun value : BitVec 8 => value.getLsbD (i - (w - 8))) top
    simpa [BitVec.getLsbD_extractLsb', show i - (w - 8) < 8 by omega, show w - 8 + (i - (w - 8)) = i by omega]
      using here
  · have here := bits (i + 8)
    rw [top] at here
    simpa [show i + 8 < w by omega, BitVec.getLsbD_of_ge, show ¬ i + 8 < 8 by omega] using here

end Left

section Right

variable (table : BitVec 8 → BitVec w)

def right (crc : BitVec w) (b : UInt8) : BitVec w :=
  table ((crc ^^^ b.toBitVec.setWidth w).setWidth 8) ^^^ crc >>> 8

theorem right_xor (wide : 8 ≤ w) (crc value : BitVec w) (b : UInt8)
    (clear : ∀ i, w - 8 ≤ i → value.getLsbD i = false) :
    right table (crc ^^^ (b.toBitVec.setWidth w ^^^ value <<< 8)) 0 = right table crc b ^^^ value := by
  have index : (crc ^^^ (b.toBitVec.setWidth w ^^^ value <<< 8) ^^^ (0 : UInt8).toBitVec.setWidth w).setWidth 8 =
      (crc ^^^ b.toBitVec.setWidth w).setWidth 8 := by
    apply BitVec.eq_of_getLsbD_eq
    intro i small
    simp [small, show i < w by omega]
  have moved : (crc ^^^ (b.toBitVec.setWidth w ^^^ value <<< 8)) >>> 8 = crc >>> 8 ^^^ value := by
    apply BitVec.eq_of_getLsbD_eq
    intro i inside
    simp only [BitVec.getLsbD_ushiftRight, BitVec.getLsbD_xor, BitVec.getLsbD_setWidth, BitVec.getLsbD_shiftLeft]
    by_cases high : 8 + i < w
    · simp [high, BitVec.getLsbD_of_ge]
    · rw [clear i (by omega)]
      simp [high, BitVec.getLsbD_of_ge]
  rw [right, right, index, moved, BitVec.xor_assoc]

theorem foldl_right (wide : 8 ≤ w) (crc : BitVec w) (bytes : List UInt8) (fits : 8 * bytes.length ≤ w) :
    bytes.foldl (right table) crc =
      (List.replicate bytes.length 0).foldl (right table) (crc ^^^ valueRight bytes) := by
  induction bytes generalizing crc with
  | nil => rw [valueRight]; exact (BitVec.xor_zero (x := crc)).symm
  | cons b bytes ih =>
    rw [List.length_cons] at fits
    have clear : ∀ i, w - 8 ≤ i → (valueRight bytes : BitVec w).getLsbD i = false :=
      fun i high => getLsbD_valueRight bytes i (by omega)
    rw [List.foldl_cons, ih _ (by omega), valueRight, List.length_cons, List.replicate_succ, List.foldl_cons,
      right_xor table wide crc _ b clear]

theorem right_injective (wide : 8 ≤ w) (differ : Function.Injective fun i => (table i).extractLsb' (w - 8) 8)
    (b : UInt8) : Function.Injective fun crc => right table crc b := by
  intro one two same
  have bits (i : Nat) := congrArg (fun value : BitVec w => value.getLsbD i) same
  simp only [right, BitVec.getLsbD_xor, BitVec.getLsbD_ushiftRight] at bits
  have index : (one ^^^ b.toBitVec.setWidth w).setWidth 8 = (two ^^^ b.toBitVec.setWidth w).setWidth 8 := by
    apply differ
    apply BitVec.eq_of_getLsbD_eq
    intro i small
    have here := bits (w - 8 + i)
    simpa [BitVec.getLsbD_extractLsb', small, BitVec.getLsbD_of_ge one (8 + (w - 8 + i)) (by omega),
      BitVec.getLsbD_of_ge two (8 + (w - 8 + i)) (by omega)] using here
  apply BitVec.eq_of_getLsbD_eq
  intro i inside
  by_cases low : i < 8
  · have here := congrArg (fun value : BitVec 8 => value.getLsbD i) index
    simpa [low, inside] using here
  · have here := bits (i - 8)
    rw [index] at here
    simpa [show 8 + (i - 8) = i by omega] using here

end Right

/-! ## Errors -/

section Errors

variable {σ : Type*} {step : σ → UInt8 → σ} (invertible : ∀ b, Function.Injective fun state => step state b)
include invertible

theorem foldl_injective (bytes : List UInt8) : Function.Injective fun state => bytes.foldl step state := by
  induction bytes with
  | nil => exact Function.injective_id
  | cons b bytes ih => exact ih.comp (invertible b)

/-- Two messages that differ in a stretch that the register tells apart end in different registers. -/
theorem foldl_ne_of_stretch (start : σ) (front one two back : List UInt8)
    (apart : ∀ state, one.foldl step state ≠ two.foldl step state) :
    (front ++ one ++ back).foldl step start ≠ (front ++ two ++ back).foldl step start := by
  intro same
  simp only [List.foldl_append] at same
  exact apart _ (foldl_injective invertible back same)

end Errors

section Stretches

variable (table : BitVec 8 → BitVec w) (wide : 8 ≤ w)
include wide

theorem left_detects (differ : Function.Injective fun i => (table i).setWidth 8) (start : BitVec w)
    (front one two back : List UInt8) (lengths : one.length = two.length) (fits : 8 * one.length ≤ w)
    (changed : one ≠ two) :
    (front ++ one ++ back).foldl (left table) start ≠ (front ++ two ++ back).foldl (left table) start := by
  apply foldl_ne_of_stretch (left_injective table wide differ)
  intro state same
  rw [foldl_left table state one fits, foldl_left table state two (by omega), lengths] at same
  exact changed (valueLeft_injective one two lengths fits (BitVec.xor_right_inj _ |>.mp same))

theorem right_detects (differ : Function.Injective fun i => (table i).extractLsb' (w - 8) 8) (start : BitVec w)
    (front one two back : List UInt8) (lengths : one.length = two.length) (fits : 8 * one.length ≤ w)
    (changed : one ≠ two) :
    (front ++ one ++ back).foldl (right table) start ≠ (front ++ two ++ back).foldl (right table) start := by
  apply foldl_ne_of_stretch (right_injective table wide differ)
  intro state same
  rw [foldl_right table wide state one fits, foldl_right table wide state two (by omega), lengths] at same
  have values := foldl_injective (right_injective table wide differ) _ same
  exact changed (valueRight_injective one two lengths fits (BitVec.xor_right_inj _ |>.mp values))

end Stretches

end Woterm.Lib.Crc
