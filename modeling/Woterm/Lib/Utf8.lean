import Mathlib.Data.List.Basic

/-!
UTF-8 text as a byte list. Decoding accepts every byte list: a byte order mark at the start
is passed over and a byte that starts no valid sequence becomes the replacement character.
-/

namespace Woterm.Lib.Utf8

def encode (text : List Char) : List UInt8 := text.flatMap String.utf8EncodeChar

def replacement : Char := Char.ofNat 0xfffd

/-- Decoding with `skip` bytes of the current character still to be passed over. -/
def decodeFrom : Nat → List UInt8 → List Char
  | _, [] => []
  | skip + 1, _ :: bytes => decodeFrom skip bytes
  | 0, byte :: bytes =>
    match (byte :: bytes).toByteArray.utf8DecodeChar? 0 with
    | some c => c :: decodeFrom (c.utf8Size - 1) bytes
    | none => replacement :: decodeFrom 0 bytes

def byteOrderMark : List UInt8 := [0xef, 0xbb, 0xbf]

def decode (bytes : List UInt8) : List Char :=
  if byteOrderMark.isPrefixOf bytes then decodeFrom 0 (bytes.drop 3) else decodeFrom 0 bytes

@[simp] theorem encode_nil : encode [] = [] := rfl

variable (c : Char) (text : List Char)

@[simp] theorem encode_cons : encode (c :: text) = String.utf8EncodeChar c ++ encode text := by
  simp [encode]

@[simp] theorem encode_append (first second : List Char) :
    encode (first ++ second) = encode first ++ encode second := by
  simp [encode]

theorem decodeFrom_skip (front bytes : List UInt8) :
    decodeFrom front.length (front ++ bytes) = decodeFrom 0 bytes := by
  induction front with
  | nil => rfl
  | cons byte front ih => simpa [decodeFrom] using ih

theorem decodeFrom_encodeChar (bytes : List UInt8) :
    decodeFrom 0 (String.utf8EncodeChar c ++ bytes) = c :: decodeFrom 0 bytes := by
  have size := String.length_utf8EncodeChar c
  have known : (String.utf8EncodeChar c ++ bytes).toByteArray.utf8DecodeChar? 0 = some c := by
    rw [List.toByteArray_append]
    exact ByteArray.utf8DecodeChar?_utf8EncodeChar_append
  cases shape : String.utf8EncodeChar c with
  | nil =>
    have positive := Char.utf8Size_pos c
    simp [shape] at size
    omega
  | cons byte front =>
    rw [shape] at known size
    simp only [List.cons_append] at known ⊢
    have left : c.utf8Size - 1 = front.length := by
      simp only [List.length_cons] at size
      omega
    rw [decodeFrom, known]
    simp only [left, decodeFrom_skip]

theorem encodeChar_append_inj (c d : Char) (first second : List UInt8)
    (same : String.utf8EncodeChar c ++ first = String.utf8EncodeChar d ++ second) : c = d ∧ first = second := by
  have read := congrArg (decodeFrom 0) same
  rw [decodeFrom_encodeChar, decodeFrom_encodeChar] at read
  obtain ⟨rfl, -⟩ := List.cons.inj read
  exact ⟨rfl, List.append_cancel_left same⟩

theorem decodeFrom_encode (bytes : List UInt8) : decodeFrom 0 (encode text ++ bytes) = text ++ decodeFrom 0 bytes := by
  induction text with
  | nil => rfl
  | cons c text ih => rw [encode_cons, List.append_assoc, decodeFrom_encodeChar, ih, List.cons_append]

theorem encode_injective : Function.Injective encode := by
  intro first second same
  have read (text : List Char) : decodeFrom 0 (encode text) = text := by
    simpa [decodeFrom] using decodeFrom_encode text []
  rw [← read first, same, read second]

theorem encode_eq_nil : encode text = [] ↔ text = [] :=
  encode_injective.eq_iff' encode_nil

theorem decode_encode (start : text.head? ≠ some (Char.ofNat 0xfeff)) : decode (encode text) = text := by
  have whole : decodeFrom 0 (encode text) = text := by
    simpa [decodeFrom] using decodeFrom_encode text []
  have unmarked : byteOrderMark.isPrefixOf (encode text) = false := by
    by_contra marked
    obtain ⟨rest, same⟩ := List.isPrefixOf_iff_prefix.mp (eq_true_of_ne_false marked)
    have first : decodeFrom 0 (byteOrderMark ++ rest) = Char.ofNat 0xfeff :: decodeFrom 0 rest :=
      decodeFrom_encodeChar (Char.ofNat 0xfeff) rest
    rw [same, whole] at first
    exact start (by rw [first]; rfl)
  rw [decode, unmarked]
  exact whole

theorem encodeChar_ascii (ascii : c.toNat < 128) : String.utf8EncodeChar c = [c.toUInt8] := by
  have small : c.val ≤ 127 := by
    rw [UInt32.le_iff_toNat_le]
    exact Nat.le_of_lt_succ ascii
  exact String.utf8EncodeChar_eq_singleton (Char.utf8Size_eq_one_iff.mpr small)

theorem encode_ascii (ascii : ∀ c ∈ text, c.toNat < 128) : encode text = text.map Char.toUInt8 := by
  induction text with
  | nil => rfl
  | cons c text ih =>
    rw [encode_cons, encodeChar_ascii c (ascii c (by simp)), ih fun d member => ascii d (by simp [member])]
    rfl

theorem encodeChar_high (high : 128 ≤ c.toNat) (byte : UInt8) (member : byte ∈ String.utf8EncodeChar c) :
    128 ≤ byte.toNat := by
  have value : c.val.toNat = c.toNat := rfl
  have least : ¬ c.val.toNat ≤ 127 := by omega
  simp only [String.utf8EncodeChar, if_neg least] at member
  split_ifs at member <;> simp only [List.mem_cons, List.not_mem_nil, or_false] at member <;>
    rcases member with rfl | rfl | rfl | rfl <;> simp only [UInt8.toNat_ofNat'] <;> omega

theorem toNat_toUInt8 (ascii : c.toNat < 128) : c.toUInt8.toNat = c.toNat :=
  Nat.mod_eq_of_lt (show c.toNat < 256 by omega)

theorem toUInt8_inj (c d : Char) (first : c.toNat < 128) (second : d.toNat < 128)
    (same : c.toUInt8 = d.toUInt8) : c = d := by
  have equal : c.toNat = d.toNat := by rw [← toNat_toUInt8 c first, ← toNat_toUInt8 d second, same]
  exact Char.ext (UInt32.toNat_inj.mp equal)

theorem mem_encodeChar (c d : Char) (ascii : c.toNat < 128) :
    c.toUInt8 ∈ String.utf8EncodeChar d ↔ c = d := by
  refine ⟨?_, ?_⟩
  · intro member
    by_cases low : d.toNat < 128
    · rw [encodeChar_ascii d low, List.mem_singleton] at member
      exact toUInt8_inj c d ascii low member
    · have large := encodeChar_high d (by omega) _ member
      rw [toNat_toUInt8 c ascii] at large
      omega
  · intro same
    subst same
    simp [encodeChar_ascii c ascii]

theorem mem_encode (ascii : c.toNat < 128) (text : List Char) : c.toUInt8 ∈ encode text ↔ c ∈ text := by
  simp [encode, List.mem_flatMap, mem_encodeChar c _ ascii]

theorem encodeChar_ne_nil : String.utf8EncodeChar c ≠ [] := by
  intro empty
  have known := (encode_eq_nil [c]).mp (by simp [empty])
  simp at known

theorem head_encode (ascii : c.toNat < 128) (text : List Char) (head : (encode text).head? = some c.toUInt8) :
    text.head? = some c := by
  cases text with
  | nil => simp at head
  | cons d text =>
    rw [encode_cons, List.head?_append_of_ne_nil _ (encodeChar_ne_nil d)] at head
    rw [List.head?_cons, ← (mem_encodeChar c d ascii).mp (List.mem_of_mem_head? head)]

theorem getLast_encode (ascii : c.toNat < 128) (text : List Char) (last : (encode text).getLast? = some c.toUInt8) :
    text.getLast? = some c := by
  rcases List.eq_nil_or_concat' text with rfl | ⟨front, d, rfl⟩
  · simp at last
  · rw [encode_append, encode_cons, encode_nil, List.append_nil,
      List.getLast?_append_of_ne_nil _ (encodeChar_ne_nil d)] at last
    rw [List.getLast?_concat, ← (mem_encodeChar c d ascii).mp (List.mem_of_mem_getLast? last)]

theorem mem_of_mem_decodeFrom (ascii : c.toNat < 128) (skip : Nat) (bytes : List UInt8)
    (member : c ∈ decodeFrom skip bytes) : c.toUInt8 ∈ bytes := by
  induction bytes generalizing skip with
  | nil => cases skip <;> simp [decodeFrom] at member
  | cons byte bytes ih =>
    cases skip with
    | succ skip => exact List.mem_cons_of_mem _ (ih skip member)
    | zero =>
      rw [decodeFrom] at member
      cases read : (byte :: bytes).toByteArray.utf8DecodeChar? 0 with
      | none =>
        rw [read] at member
        rcases List.mem_cons.mp member with rfl | later
        · exact absurd ascii (by decide)
        · exact List.mem_cons_of_mem _ (ih 0 later)
      | some d =>
        rw [read] at member
        rcases List.mem_cons.mp member with rfl | later
        · have shape := ByteArray.eq_of_utf8DecodeChar?_eq_some read
          have inside := congrArg (fun array => array.data.toList) shape
          simp only [List.data_toByteArray, ByteArray.data_append, Array.toList_append,
            encodeChar_ascii c ascii] at inside
          rw [inside]
          simp
        · exact List.mem_cons_of_mem _ (ih _ later)

theorem mem_of_mem_decode (ascii : c.toNat < 128) (bytes : List UInt8) (member : c ∈ decode bytes) :
    c.toUInt8 ∈ bytes := by
  unfold decode at member
  split at member
  · exact List.mem_of_mem_drop (mem_of_mem_decodeFrom c ascii 0 _ member)
  · exact mem_of_mem_decodeFrom c ascii 0 _ member

end Woterm.Lib.Utf8
