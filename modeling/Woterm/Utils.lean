import Woterm.Lib.KeyStream
import Woterm.Qt

/-!
`QWoUtils`: RC4 and the stream format of the files the program keeps.
-/

namespace Woterm.Utils
open Woterm.Lib Woterm.Qt

/-- The array `s` of RC4 with the two indices that walk it. -/
structure Rc4 where
  s : Vector UInt8 256
  i : Fin 256
  j : Fin 256

def index (n : Nat) : Fin 256 := Fin.ofNat 256 n

/-- One round of the second loop of `rc4_init`. -/
def rc4InitStep (k : Vector UInt8 256) (state : Vector UInt8 256 × Fin 256) (i : Fin 256) :
    Vector UInt8 256 × Fin 256 :=
  let j := index (state.2.val + (state.1.get i).toNat + (k.get i).toNat)
  (state.1.swap i j, j)

def rc4Init (key : QByteArray) : Vector UInt8 256 :=
  let s := Vector.ofFn fun i : Fin 256 => UInt8.ofNat i.val
  let k := Vector.ofFn fun i : Fin 256 => key.getD (i.val % key.length) 0
  ((List.finRange 256).foldl (rc4InitStep k) (s, 0)).1

/-- One round of `rc4_crypt`: the new state and the byte `s[t]`. -/
def rc4Next (state : Rc4) : Rc4 × UInt8 :=
  let i := index (state.i.val + 1)
  let j := index (state.j.val + (state.s.get i).toNat)
  let s := state.s.swap i j
  let t := index ((s.get i).toNat + (s.get j).toNat)
  ({ s, i, j }, s.get t)

def rc4Crypt (s : Vector UInt8 256) (data : QByteArray) : QByteArray :=
  KeyStream.mask rc4Next { s, i := 0, j := 0 } data

def rc4 (data key : QByteArray) : QByteArray := rc4Crypt (rc4Init key) data

theorem rc4_rc4 (data key : QByteArray) : rc4 (rc4 data key) key = data :=
  KeyStream.mask_mask _ _ _

theorem length_rc4 (data key : QByteArray) : (rc4 data key).length = data.length := KeyStream.length_mask _ _ _

theorem rc4_append (data more key : QByteArray) : ∃ later, rc4 (data ++ more) key = rc4 data key ++ later := by
  obtain ⟨state, stream⟩ := KeyStream.mask_append rc4Next { s := rc4Init key, i := 0, j := 0 } data more
  exact ⟨_, stream⟩

def wotermKey : QByteArray := QString.toUtf8 "woterm.2019".toList

def wotermFlag : QByteArray := QString.toUtf8 "woterm:".toList

def toWotermStream (data : QByteArray) : QByteArray :=
  if wotermFlag.isPrefixOf data then data else wotermFlag ++ rc4 data wotermKey

def fromWotermStream (data : QByteArray) : QByteArray :=
  if wotermFlag.isPrefixOf data then rc4 (data.drop 7) wotermKey else data

theorem fromWotermStream_flag (data : QByteArray) :
    fromWotermStream (wotermFlag ++ data) = rc4 data wotermKey := by
  have flagged : wotermFlag.isPrefixOf (wotermFlag ++ data) = true := by simp
  have seven : (wotermFlag ++ data).drop 7 = data := rfl
  rw [fromWotermStream, if_pos flagged, seven]

theorem fromWotermStream_toWotermStream (data : QByteArray)
    (unflagged : wotermFlag.isPrefixOf data = false) : fromWotermStream (toWotermStream data) = data := by
  rw [toWotermStream, if_neg (by simp [unflagged]), fromWotermStream_flag, rc4_rc4]

/-- The digits of base64, of its file name form when `url` is set. -/
def base64Digit (url : Bool) (n : Nat) : Char :=
  if n < 26 then Char.ofNat ('A'.toNat + n)
  else if n < 52 then Char.ofNat ('a'.toNat + (n - 26))
  else if n < 62 then Char.ofNat ('0'.toNat + (n - 52))
  else if n = 62 then (if url then '-' else '+')
  else (if url then '_' else '/')

/-- `QByteArray::toBase64`, with the trailing `=` or without. -/
def toBase64 (url equals : Bool) : QByteArray → QString
  | a :: b :: c :: rest =>
    base64Digit url (a.toNat / 4) :: base64Digit url (a.toNat % 4 * 16 + b.toNat / 16) ::
      base64Digit url (b.toNat % 16 * 4 + c.toNat / 64) :: base64Digit url (c.toNat % 64) ::
      toBase64 url equals rest
  | [a, b] =>
    [base64Digit url (a.toNat / 4), base64Digit url (a.toNat % 4 * 16 + b.toNat / 16),
      base64Digit url (b.toNat % 16 * 4)] ++ (if equals then ['='] else [])
  | [a] =>
    [base64Digit url (a.toNat / 4), base64Digit url (a.toNat % 4 * 16)] ++ (if equals then ['=', '='] else [])
  | [] => []

theorem forall_base64Digit (good : Char → Prop) (url : Bool) (digits : ∀ n < 64, good (base64Digit url n)) (n : Nat) :
    good (base64Digit url n) := by
  by_cases small : n < 64
  · exact digits n small
  · have last : base64Digit url n = base64Digit url 63 := by
      have large : ¬ n < 26 ∧ ¬ n < 52 ∧ ¬ n < 62 ∧ ¬ n = 62 := by omega
      simp [base64Digit, large]
    rw [last]
    exact digits 63 (by decide)

theorem base64Digit_ne (url : Bool) (n : Nat) : base64Digit url n ≠ '\n' :=
  forall_base64Digit (· ≠ '\n') url (by cases url <;> decide) n

theorem forall_mem_toBase64 (good : Char → Prop) (url equals : Bool) (digit : ∀ n, good (base64Digit url n))
    (padding : equals = true → good '=') (data : QByteArray) : ∀ c ∈ toBase64 url equals data, good c := by
  fun_induction toBase64 url equals data with
  | case1 a b c rest ih => simpa [digit] using ih
  | case2 a b => cases equals <;> simp_all
  | case3 a => cases equals <;> simp_all
  | case4 => simp

theorem toBase64_single (url equals : Bool) (data : QByteArray) : Single (toBase64 url equals data) := by
  intro member
  exact forall_mem_toBase64 (· ≠ '\n') url equals (base64Digit_ne url) (by simp) data _ member rfl

/-- The value of a digit of base64; other characters have none. -/
def base64Value (url : Bool) (c : Char) : Option Nat :=
  if 'A' ≤ c ∧ c ≤ 'Z' then some (c.toNat - 'A'.toNat)
  else if 'a' ≤ c ∧ c ≤ 'z' then some (c.toNat - 'a'.toNat + 26)
  else if '0' ≤ c ∧ c ≤ '9' then some (c.toNat - '0'.toNat + 52)
  else if c = (if url then '-' else '+') then some 62
  else if c = (if url then '_' else '/') then some 63
  else none

/-- The loop of `QByteArray::fromBase64`: the bits read and not yet written, and how many they are. Characters
that are no digits are passed over. -/
def fromBase64 (url : Bool) : Nat → Nat → QString → QByteArray
  | _, _, [] => []
  | buf, nbits, c :: rest =>
    match base64Value url c with
    | none => fromBase64 url buf nbits rest
    | some d =>
      if 8 ≤ nbits + 6 then
        UInt8.ofNat ((buf * 64 + d) / 2 ^ (nbits - 2)) ::
          fromBase64 url ((buf * 64 + d) % 2 ^ (nbits - 2)) (nbits - 2) rest
      else fromBase64 url (buf * 64 + d) (nbits + 6) rest

theorem base64Value_base64Digit (url : Bool) (n : Nat) (digit : n < 64) :
    base64Value url (base64Digit url n) = some n := by
  have all : ∀ url, ∀ n < 64, base64Value url (base64Digit url n) = some n := by decide +kernel
  exact all url n digit

section
variable (url : Bool) (buf nbits n : Nat) (rest : QString)

theorem fromBase64_keep (digit : n < 64) (few : nbits < 2) :
    fromBase64 url buf nbits (base64Digit url n :: rest) = fromBase64 url (buf * 64 + n) (nbits + 6) rest := by
  rw [fromBase64, base64Value_base64Digit url n digit]
  exact if_neg (by omega)

theorem fromBase64_write (digit : n < 64) (byte : UInt8)
    (same : (buf * 64 + n) / 2 ^ nbits = byte.toNat) :
    fromBase64 url buf (nbits + 2) (base64Digit url n :: rest) =
      byte :: fromBase64 url ((buf * 64 + n) % 2 ^ nbits) nbits rest := by
  rw [fromBase64, base64Value_base64Digit url n digit]
  dsimp only
  rw [if_pos (by omega), Nat.add_sub_cancel, same, UInt8.ofNat_toNat]

theorem fromBase64_equals : fromBase64 url buf nbits ('=' :: rest) = fromBase64 url buf nbits rest := by
  have none : base64Value url '=' = none := by cases url <;> decide
  rw [fromBase64, none]

end

theorem fromBase64_toBase64 (url equals : Bool) (data : QByteArray) :
    fromBase64 url 0 0 (toBase64 url equals data) = data := by
  fun_induction toBase64 url equals data with
  | case1 a b c rest ih =>
    have a_lt := a.toNat_lt
    have b_lt := b.toNat_lt
    have c_lt := c.toNat_lt
    rw [fromBase64_keep _ _ _ _ _ (by omega) (by decide), fromBase64_write _ _ 4 _ _ (by omega) a (by omega),
      fromBase64_write _ _ 2 _ _ (by omega) b (by omega), fromBase64_write _ _ 0 _ _ (by omega) c (by omega),
      Nat.pow_zero, Nat.mod_one, ih]
  | case2 a b =>
    have a_lt := a.toNat_lt
    have b_lt := b.toNat_lt
    rw [List.cons_append, List.cons_append, List.cons_append, fromBase64_keep _ _ _ _ _ (by omega) (by decide),
      fromBase64_write _ _ 4 _ _ (by omega) a (by omega), fromBase64_write _ _ 2 _ _ (by omega) b (by omega)]
    cases equals
    · rfl
    · exact congrArg (fun more => a :: b :: more) (fromBase64_equals url _ _ [])
  | case3 a =>
    have a_lt := a.toNat_lt
    rw [List.cons_append, List.cons_append, fromBase64_keep _ _ _ _ _ (by omega) (by decide),
      fromBase64_write _ _ 4 _ _ (by omega) a (by omega)]
    cases equals
    · rfl
    · exact congrArg (fun more => a :: more) ((fromBase64_equals url _ _ ['=']).trans (fromBase64_equals url _ _ []))
  | case4 => rfl

def nameToPath (name : QString) : QString := toBase64 true false (QString.toUtf8 name)

def pathToName (path : QString) : QString := QString.ofByteArray (fromBase64 true 0 0 path)

theorem pathToName_nameToPath (name : QString) (clean : NulFree name)
    (start : name.head? ≠ some (Char.ofNat 0xfeff)) : pathToName (nameToPath name) = name := by
  rw [pathToName, nameToPath, fromBase64_toBase64]
  exact ofByteArray_toUtf8 name clean start

theorem nameToPath_ne_nil (name : QString) (named : name ≠ []) : nameToPath name ≠ [] := by
  intro empty
  have bytes : QString.toUtf8 name = [] := by
    rw [← fromBase64_toBase64 true false (QString.toUtf8 name), ← nameToPath, empty]
    rfl
  exact named ((Utf8.encode_eq_nil name).mp bytes)

theorem nameToPath_chars (name : QString) : ∀ c ∈ nameToPath name, c ≠ '/' ∧ c ≠ '.' := by
  have digit := forall_base64Digit (fun c => c ≠ '/' ∧ c ≠ '.') true (by decide)
  exact forall_mem_toBase64 _ true false digit (by simp) _

end Woterm.Utils
