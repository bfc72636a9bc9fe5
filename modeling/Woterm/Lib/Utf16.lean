import Mathlib.Order.Basic
import Mathlib.Data.List.Lex

/-! UTF-16 code units and the order of texts by their code units. -/

namespace Woterm.Lib.Utf16

/-- One unit below U+10000, a surrogate pair from there on. -/
def encodeChar (c : Char) : List Nat :=
  if c.toNat < 0x10000 then [c.toNat]
  else [0xd800 + (c.toNat - 0x10000) / 0x400, 0xdc00 + (c.toNat - 0x10000) % 0x400]

def encode (text : List Char) : List Nat := text.flatMap encodeChar

/-- Units of one text in front of the units of another, compared unit by unit. -/
def LessEq (first second : List Char) : Prop := encode first ≤ encode second

instance (first second : List Char) : Decidable (LessEq first second) :=
  inferInstanceAs (Decidable (encode first ≤ encode second))

theorem toNat_inj (c d : Char) (same : c.toNat = d.toNat) : c = d :=
  Char.ext (UInt32.toNat_inj.mp same)

theorem encodeChar_append_inj (c d : Char) (first second : List Nat)
    (same : encodeChar c ++ first = encodeChar d ++ second) : c = d ∧ first = second := by
  have cValid : c.toNat < 0xd800 ∨ 0xdfff < c.toNat ∧ c.toNat < 0x110000 := c.valid
  have dValid : d.toNat < 0xd800 ∨ 0xdfff < d.toNat ∧ d.toNat < 0x110000 := d.valid
  unfold encodeChar at same
  split_ifs at same with low low' low' <;>
    simp only [List.cons_append, List.nil_append, List.cons.injEq] at same
  · exact ⟨toNat_inj c d same.1, same.2⟩
  · omega
  · omega
  · exact ⟨toNat_inj c d (by omega), same.2.2⟩

theorem encode_injective : Function.Injective encode := by
  intro first second same
  induction first generalizing second with
  | nil =>
    cases second with
    | nil => rfl
    | cons d second =>
      simp only [encode, List.flatMap_nil, List.flatMap_cons, encodeChar] at same
      split_ifs at same <;> simp at same
  | cons c first ih =>
    cases second with
    | nil =>
      simp only [encode, List.flatMap_nil, List.flatMap_cons, encodeChar] at same
      split_ifs at same <;> simp at same
    | cons d second =>
      simp only [encode, List.flatMap_cons] at same
      obtain ⟨head, tail⟩ := encodeChar_append_inj c d _ _ same
      rw [head, ih tail]

instance : IsTrans (List Char) LessEq := ⟨fun _ _ _ first second => le_trans first second⟩

instance : Std.Antisymm LessEq :=
  ⟨fun _ _ forward backward => encode_injective (le_antisymm forward backward)⟩

instance : Std.Total LessEq := ⟨fun first second => le_total (encode first) (encode second)⟩

end Woterm.Lib.Utf16
