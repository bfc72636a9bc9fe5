import Mathlib.Data.List.Forall2
import Woterm.Lib.Utf8

/-!
UTF-8 by ranges: the first byte of an encoded character says how many bytes follow, which values
they may have, and with which bits the number of the character starts.
-/

namespace Woterm.Lib.Utf8Ranges

structure Range where
  low : Nat
  high : Nat
deriving DecidableEq, Repr

def Range.Has (range : Range) (n : Nat) : Prop := range.low ≤ n ∧ n ≤ range.high

instance (range : Range) (n : Nat) : Decidable (range.Has n) := inferInstanceAs (Decidable (_ ∧ _))

theorem within {low high n : Nat} (bounds : low ≤ n ∧ n ≤ high) : Range.Has ⟨low, high⟩ n := bounds

def tail : Range := ⟨0x80, 0xbf⟩

/-- A kind of first byte: its values, the marker bits in it, and the bytes that it calls for. -/
structure Lead where
  range : Range
  marker : Nat
  owed : List Range
deriving DecidableEq, Repr

def leads : List Lead :=
  [⟨⟨0x00, 0x7f⟩, 0x00, []⟩, ⟨⟨0xc2, 0xdf⟩, 0xc0, [tail]⟩,
   ⟨⟨0xe0, 0xe0⟩, 0xe0, [⟨0xa0, 0xbf⟩, tail]⟩, ⟨⟨0xe1, 0xec⟩, 0xe0, [tail, tail]⟩,
   ⟨⟨0xed, 0xed⟩, 0xe0, [⟨0x80, 0x9f⟩, tail]⟩, ⟨⟨0xee, 0xef⟩, 0xe0, [tail, tail]⟩,
   ⟨⟨0xf0, 0xf0⟩, 0xf0, [⟨0x90, 0xbf⟩, tail, tail]⟩, ⟨⟨0xf1, 0xf3⟩, 0xf0, [tail, tail, tail]⟩,
   ⟨⟨0xf4, 0xf4⟩, 0xf0, [⟨0x80, 0x8f⟩, tail, tail]⟩]

theorem leads_apart : ∀ lead ∈ leads, ∀ other ∈ leads,
    lead = other ∨ lead.range.high < other.range.low ∨ other.range.high < lead.range.low := by
  decide

theorem lead_unique (lead other : Lead) (member : lead ∈ leads) (another : other ∈ leads) (n : Nat)
    (has : lead.range.Has n) (also : other.range.Has n) : lead = other := by
  obtain ⟨low, high⟩ := has
  obtain ⟨least, most⟩ := also
  rcases leads_apart lead member other another with same | below | above
  · exact same
  · omega
  · omega

/-- A number with the six bits of each of some more bytes behind it. -/
def spell (value : Nat) (bytes : List UInt8) : Nat :=
  bytes.foldl (fun value byte => 64 * value + byte.toNat % 64) value

def Follows (range : Range) (byte : UInt8) : Prop := range.Has byte.toNat

/-- The bytes are a first byte with those it calls for, and they spell the number. -/
def Spells (bytes : List UInt8) (value : Nat) : Prop :=
  ∃ lead ∈ leads, ∃ first rest, bytes = first :: rest ∧ lead.range.Has first.toNat ∧
    List.Forall₂ Follows lead.owed rest ∧ value = spell (first.toNat - lead.marker) rest

variable (value : Nat) (c : Char)

theorem exists_char (valid : value.isValidChar) : ∃ c : Char, c.val.toNat = value :=
  ⟨Char.ofNatAux value valid, rfl⟩

theorem byte_eq (n : Nat) (byte : UInt8) (same : n = byte.toNat) : UInt8.ofNat n = byte := by
  rw [same, UInt8.ofNat_toNat]

/-! ## Encoding by the number of bytes -/

theorem encodeChar_two (first second : UInt8) (lower : 0xc2 ≤ first.toNat) (upper : first.toNat ≤ 0xdf)
    (follows : Follows tail second) (value : c.val.toNat = spell (first.toNat - 0xc0) [second]) :
    String.utf8EncodeChar c = [first, second] := by
  obtain ⟨low, high⟩ := follows
  simp only [tail, spell, List.foldl_cons, List.foldl_nil] at low high value
  have larger : ¬ c.val.toNat ≤ 127 := by omega
  have small : c.val.toNat ≤ 2047 := by omega
  simp only [String.utf8EncodeChar, if_neg larger, if_pos small]
  rw [byte_eq _ first (by omega), byte_eq _ second (by omega)]

theorem encodeChar_three (first second third : UInt8) (lower : 0xe0 ≤ first.toNat) (upper : first.toNat ≤ 0xef)
    (follows : Follows tail second) (last : Follows tail third)
    (value : c.val.toNat = spell (first.toNat - 0xe0) [second, third]) (long : 0x800 ≤ c.val.toNat) :
    String.utf8EncodeChar c = [first, second, third] := by
  obtain ⟨low, high⟩ := follows
  obtain ⟨least, most⟩ := last
  simp only [tail, spell, List.foldl_cons, List.foldl_nil] at low high least most value
  have larger : ¬ c.val.toNat ≤ 2047 := by omega
  have small : c.val.toNat ≤ 65535 := by omega
  simp only [String.utf8EncodeChar, if_neg (show ¬ c.val.toNat ≤ 127 by omega), if_neg larger, if_pos small]
  rw [byte_eq _ first (by omega), byte_eq _ second (by omega), byte_eq _ third (by omega)]

theorem encodeChar_four (first second third fourth : UInt8) (lower : 0xf0 ≤ first.toNat) (upper : first.toNat ≤ 0xf4)
    (follows : Follows tail second) (next : Follows tail third) (last : Follows tail fourth)
    (value : c.val.toNat = spell (first.toNat - 0xf0) [second, third, fourth]) (long : 0x10000 ≤ c.val.toNat) :
    String.utf8EncodeChar c = [first, second, third, fourth] := by
  obtain ⟨low, high⟩ := follows
  obtain ⟨least, most⟩ := next
  obtain ⟨bottom, top⟩ := last
  simp only [tail, spell, List.foldl_cons, List.foldl_nil] at low high least most bottom top value
  simp only [String.utf8EncodeChar, if_neg (show ¬ c.val.toNat ≤ 127 by omega),
    if_neg (show ¬ c.val.toNat ≤ 2047 by omega), if_neg (show ¬ c.val.toNat ≤ 65535 by omega)]
  rw [byte_eq _ first (by omega), byte_eq _ second (by omega), byte_eq _ third (by omega),
    byte_eq _ fourth (by omega)]

theorem toNat_byte (n : Nat) (small : n < 256) : (UInt8.ofNat n).toNat = n := by
  rw [UInt8.toNat_ofNat', Nat.mod_eq_of_lt small]

/-! ## What the encoding spells -/

theorem spells_one (small : value ≤ 127) : Spells [UInt8.ofNat value] value := by
  have byte := toNat_byte value (by omega)
  refine ⟨⟨⟨0x00, 0x7f⟩, 0x00, []⟩, by simp [leads], _, [], rfl, within ?_, .nil, ?_⟩
  · omega
  · rw [byte]
    rfl

theorem spells_two (lower : 127 < value) (upper : value ≤ 2047) :
    Spells [UInt8.ofNat (value / 64 % 32 + 192), UInt8.ofNat (value % 64 + 128)] value := by
  have first := toNat_byte (value / 64 % 32 + 192) (by omega)
  have second := toNat_byte (value % 64 + 128) (by omega)
  refine ⟨⟨⟨0xc2, 0xdf⟩, 0xc0, [tail]⟩, by simp [leads], _, _, rfl, within ?_, .cons (within ?_) .nil, ?_⟩
  · omega
  · omega
  · simp only [spell, List.foldl_cons, List.foldl_nil, first, second]
    omega

theorem spells_three (lead : Lead) (member : lead ∈ leads) (second : Range) (marker : lead.marker = 0xe0)
    (owed : lead.owed = [second, tail]) (starts : lead.range.Has (value / 4096 + 224))
    (follows : second.Has (value / 64 % 64 + 128)) (small : value ≤ 65535) :
    Spells [UInt8.ofNat (value / 4096 % 16 + 224), UInt8.ofNat (value / 64 % 64 + 128),
      UInt8.ofNat (value % 64 + 128)] value := by
  have top : value / 4096 % 16 = value / 4096 := Nat.mod_eq_of_lt (by omega)
  have first := toNat_byte (value / 4096 + 224) (by omega)
  have middle := toNat_byte (value / 64 % 64 + 128) (by omega)
  have last := toNat_byte (value % 64 + 128) (by omega)
  rw [top]
  refine ⟨lead, member, _, _, rfl, by rwa [first], ?_, ?_⟩
  · rw [owed]
    refine .cons ?_ (.cons (within ?_) .nil)
    · rwa [Follows, middle]
    · omega
  · simp only [spell, List.foldl_cons, List.foldl_nil, first, middle, last, marker]
    omega

theorem spells_four (lead : Lead) (member : lead ∈ leads) (second : Range) (marker : lead.marker = 0xf0)
    (owed : lead.owed = [second, tail, tail]) (starts : lead.range.Has (value / 262144 + 240))
    (follows : second.Has (value / 4096 % 64 + 128)) (small : value < 1114112) :
    Spells [UInt8.ofNat (value / 262144 % 8 + 240), UInt8.ofNat (value / 4096 % 64 + 128),
      UInt8.ofNat (value / 64 % 64 + 128), UInt8.ofNat (value % 64 + 128)] value := by
  have top : value / 262144 % 8 = value / 262144 := Nat.mod_eq_of_lt (by omega)
  have first := toNat_byte (value / 262144 + 240) (by omega)
  have next := toNat_byte (value / 4096 % 64 + 128) (by omega)
  have middle := toNat_byte (value / 64 % 64 + 128) (by omega)
  have last := toNat_byte (value % 64 + 128) (by omega)
  rw [top]
  refine ⟨lead, member, _, _, rfl, by rwa [first], ?_, ?_⟩
  · rw [owed]
    refine .cons ?_ (.cons (within ?_) (.cons (within ?_) .nil))
    · rwa [Follows, next]
    · omega
    · omega
  · simp only [spell, List.foldl_cons, List.foldl_nil, first, next, middle, last, marker]
    omega

/-- Neither an overlong form nor a surrogate is needed, so every character finds its lead. -/
theorem spells_char : Spells (String.utf8EncodeChar c) c.val.toNat := by
  have valid : c.val.toNat < 55296 ∨ 57343 < c.val.toNat ∧ c.val.toNat < 1114112 := c.valid
  unfold String.utf8EncodeChar
  generalize c.val.toNat = value at valid
  dsimp only
  split_ifs with one two three
  · exact spells_one value one
  · exact spells_two value (by omega) two
  · rcases (by omega : value / 4096 = 0 ∨ 1 ≤ value / 4096 ∧ value / 4096 ≤ 12 ∨ value / 4096 = 13 ∨
      14 ≤ value / 4096) with top | top | top | top
    · exact spells_three value ⟨⟨0xe0, 0xe0⟩, 0xe0, [⟨0xa0, 0xbf⟩, tail]⟩ (by simp [leads]) _ rfl rfl
        (within (by omega)) (within (by omega)) three
    · exact spells_three value ⟨⟨0xe1, 0xec⟩, 0xe0, [tail, tail]⟩ (by simp [leads]) _ rfl rfl
        (within (by omega)) (within (by omega)) three
    · exact spells_three value ⟨⟨0xed, 0xed⟩, 0xe0, [⟨0x80, 0x9f⟩, tail]⟩ (by simp [leads]) _ rfl rfl
        (within (by omega)) (within (by omega)) three
    · exact spells_three value ⟨⟨0xee, 0xef⟩, 0xe0, [tail, tail]⟩ (by simp [leads]) _ rfl rfl
        (within (by omega)) (within (by omega)) three
  · rcases (by omega : value / 262144 = 0 ∨ 1 ≤ value / 262144 ∧ value / 262144 ≤ 3 ∨ value / 262144 = 4)
      with top | top | top
    · exact spells_four value ⟨⟨0xf0, 0xf0⟩, 0xf0, [⟨0x90, 0xbf⟩, tail, tail]⟩ (by simp [leads]) _ rfl rfl
        (within (by omega)) (within (by omega)) (by omega)
    · exact spells_four value ⟨⟨0xf1, 0xf3⟩, 0xf0, [tail, tail, tail]⟩ (by simp [leads]) _ rfl rfl
        (within (by omega)) (within (by omega)) (by omega)
    · exact spells_four value ⟨⟨0xf4, 0xf4⟩, 0xf0, [⟨0x80, 0x8f⟩, tail, tail]⟩ (by simp [leads]) _ rfl rfl
        (within (by omega)) (within (by omega)) (by omega)

/-! ## What is spelled is encoded -/

theorem char_two (first second : UInt8) (starts : Range.Has ⟨0xc2, 0xdf⟩ first.toNat)
    (follows : Follows tail second) :
    ∃ c : Char, String.utf8EncodeChar c = [first, second] ∧ c.val.toNat = spell (first.toNat - 0xc0) [second] := by
  obtain ⟨lower, upper⟩ := starts
  have valid : (spell (first.toNat - 0xc0) [second]).isValidChar := by
    simp only [spell, Nat.isValidChar, List.foldl_cons, List.foldl_nil] at upper ⊢
    omega
  obtain ⟨c, value⟩ := exists_char _ valid
  exact ⟨c, encodeChar_two c first second lower upper follows value, value⟩

/-- The second byte rules out overlong forms and surrogates. -/
theorem char_three (first second third : UInt8) (starts : Range.Has ⟨0xe0, 0xef⟩ first.toNat)
    (follows : Follows tail second) (last : Follows tail third) (long : first.toNat = 0xe0 → 0xa0 ≤ second.toNat)
    (scalar : first.toNat = 0xed → second.toNat ≤ 0x9f) :
    ∃ c : Char, String.utf8EncodeChar c = [first, second, third] ∧
      c.val.toNat = spell (first.toNat - 0xe0) [second, third] := by
  obtain ⟨lower, upper⟩ := starts
  obtain ⟨least, most⟩ := follows
  have bounds : 0x800 ≤ spell (first.toNat - 0xe0) [second, third] ∧
      (spell (first.toNat - 0xe0) [second, third]).isValidChar := by
    simp only [spell, tail, Nat.isValidChar, List.foldl_cons, List.foldl_nil] at lower upper least most ⊢
    omega
  obtain ⟨c, value⟩ := exists_char _ bounds.2
  refine ⟨c, encodeChar_three c first second third lower upper ⟨least, most⟩ last value ?_, value⟩
  rw [value]
  exact bounds.1

theorem char_four (first second third fourth : UInt8) (starts : Range.Has ⟨0xf0, 0xf4⟩ first.toNat)
    (follows : Follows tail second) (next : Follows tail third) (last : Follows tail fourth)
    (long : first.toNat = 0xf0 → 0x90 ≤ second.toNat) (scalar : first.toNat = 0xf4 → second.toNat ≤ 0x8f) :
    ∃ c : Char, String.utf8EncodeChar c = [first, second, third, fourth] ∧
      c.val.toNat = spell (first.toNat - 0xf0) [second, third, fourth] := by
  obtain ⟨lower, upper⟩ := starts
  obtain ⟨least, most⟩ := follows
  have bounds : 0x10000 ≤ spell (first.toNat - 0xf0) [second, third, fourth] ∧
      (spell (first.toNat - 0xf0) [second, third, fourth]).isValidChar := by
    simp only [spell, tail, Nat.isValidChar, List.foldl_cons, List.foldl_nil] at lower upper least most ⊢
    omega
  obtain ⟨c, value⟩ := exists_char _ bounds.2
  refine ⟨c, encodeChar_four c first second third fourth lower upper ⟨least, most⟩ next last value ?_, value⟩
  rw [value]
  exact bounds.1

theorem char_of_spells (bytes : List UInt8) (value : Nat) (spells : Spells bytes value) :
    ∃ c : Char, String.utf8EncodeChar c = bytes ∧ c.val.toNat = value := by
  obtain ⟨lead, member, first, rest, rfl, ⟨lower, upper⟩, follows, rfl⟩ := spells
  simp only [leads, List.mem_cons, List.not_mem_nil, or_false] at member
  rcases member with rfl | rfl | rfl | rfl | rfl | rfl | rfl | rfl | rfl
  · obtain _ | _ := follows
    obtain ⟨c, value⟩ := exists_char first.toNat (.inl (by simp only at upper; omega))
    refine ⟨c, ?_, value⟩
    have small : c.val.toNat ≤ 127 := by rwa [value]
    rw [String.utf8EncodeChar, if_pos small, byte_eq _ first value]
  · obtain _ | ⟨follows, _ | _⟩ := follows
    exact char_two first _ ⟨lower, upper⟩ follows
  · obtain _ | ⟨⟨least, most⟩, _ | ⟨last, _ | _⟩⟩ := follows
    simp only at lower upper least most
    exact char_three first _ _ (within (by omega)) (within (by omega)) last (by omega) (by omega)
  · obtain _ | ⟨⟨least, most⟩, _ | ⟨last, _ | _⟩⟩ := follows
    simp only [tail] at lower upper least most
    exact char_three first _ _ (within (by omega)) (within (by omega)) last (by omega) (by omega)
  · obtain _ | ⟨⟨least, most⟩, _ | ⟨last, _ | _⟩⟩ := follows
    simp only at lower upper least most
    exact char_three first _ _ (within (by omega)) (within (by omega)) last (by omega) (by omega)
  · obtain _ | ⟨⟨least, most⟩, _ | ⟨last, _ | _⟩⟩ := follows
    simp only [tail] at lower upper least most
    exact char_three first _ _ (within (by omega)) (within (by omega)) last (by omega) (by omega)
  · obtain _ | ⟨⟨least, most⟩, _ | ⟨next, _ | ⟨last, _ | _⟩⟩⟩ := follows
    simp only at lower upper least most
    exact char_four first _ _ _ (within (by omega)) (within (by omega)) next last (by omega) (by omega)
  · obtain _ | ⟨⟨least, most⟩, _ | ⟨next, _ | ⟨last, _ | _⟩⟩⟩ := follows
    simp only [tail] at lower upper least most
    exact char_four first _ _ _ (within (by omega)) (within (by omega)) next last (by omega) (by omega)
  · obtain _ | ⟨⟨least, most⟩, _ | ⟨next, _ | ⟨last, _ | _⟩⟩⟩ := follows
    simp only at lower upper least most
    exact char_four first _ _ _ (within (by omega)) (within (by omega)) next last (by omega) (by omega)

/-! ## Reading from the left -/

/-- The bytes start with some that have the ranges, and these spell the number behind the given one. -/
def Reads (owed : List Range) (value : Nat) (bytes : List UInt8) (found : Nat) : Prop :=
  ∃ front back, bytes = front ++ back ∧ List.Forall₂ Follows owed front ∧ found = spell value front

theorem reads_done (bytes : List UInt8) (found : Nat) : Reads [] value bytes found ↔ found = value := by
  refine ⟨?_, ?_⟩
  · rintro ⟨front, back, -, follows, rfl⟩
    cases follows
    rfl
  · rintro rfl
    exact ⟨[], bytes, rfl, .nil, rfl⟩

theorem not_reads_nil (range : Range) (owed : List Range) (value found : Nat) :
    ¬ Reads (range :: owed) value [] found := by
  rintro ⟨front, back, split, follows, -⟩
  obtain ⟨rfl, rfl⟩ := List.append_eq_nil_iff.mp split.symm
  cases follows

theorem reads_cons (range : Range) (owed : List Range) (value : Nat) (byte : UInt8) (bytes : List UInt8)
    (found : Nat) :
    Reads (range :: owed) value (byte :: bytes) found ↔
      Follows range byte ∧ Reads owed (64 * value + byte.toNat % 64) bytes found := by
  refine ⟨?_, ?_⟩
  · rintro ⟨front, back, split, follows, rfl⟩
    obtain _ | ⟨first, later⟩ := follows
    obtain ⟨rfl, rfl⟩ := List.cons.inj split
    exact ⟨first, _, back, rfl, later, rfl⟩
  · rintro ⟨first, front, back, rfl, later, rfl⟩
    exact ⟨byte :: front, back, rfl, .cons first later, rfl⟩

theorem char_prefix_iff (first : UInt8) (bytes : List UInt8) (value : Nat) :
    (∃ (c : Char) (back : List UInt8), first :: bytes = String.utf8EncodeChar c ++ back ∧ c.val.toNat = value) ↔
      ∃ lead ∈ leads, lead.range.Has first.toNat ∧ Reads lead.owed (first.toNat - lead.marker) bytes value := by
  refine ⟨?_, ?_⟩
  · rintro ⟨c, back, split, rfl⟩
    obtain ⟨lead, member, byte, rest, shape, starts, follows, spelled⟩ := spells_char c
    rw [shape] at split
    obtain ⟨rfl, rfl⟩ := List.cons.inj split
    exact ⟨lead, member, starts, rest, back, rfl, follows, spelled⟩
  · rintro ⟨lead, member, starts, front, back, rfl, follows, spelled⟩
    obtain ⟨c, encoded, number⟩ := char_of_spells (first :: front) value
      ⟨lead, member, first, front, rfl, starts, follows, spelled⟩
    exact ⟨c, back, by rw [encoded, List.cons_append], number⟩

end Woterm.Lib.Utf8Ranges
