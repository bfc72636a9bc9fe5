import Mathlib.Data.Nat.Digits.Defs
import Woterm.Lib.CString
import Woterm.Lib.Text
import Woterm.Lib.Utf8
import Woterm.Lib.Utf16

/-!
The Qt text operations the program uses. A `QString` is a list of Unicode scalar values, with a `?` for an unpaired
surrogate, as `toUtf8` writes it. A `QByteArray` is a list of bytes and an `int` is an `Int32`.
-/

namespace Woterm.Qt
open Woterm.Lib Woterm.Lib.Text

abbrev QString := List Char
abbrev QByteArray := List UInt8

namespace QChar

/-- `QChar::isSpace`: the ASCII blanks, NEL and the separator categories of Unicode. -/
def isSpace (c : Char) : Bool :=
  let code := c.toNat
  code == 0x20 || (0x09 ≤ code && code ≤ 0x0d) || code == 0x85 || code == 0xa0 || code == 0x1680 ||
    (0x2000 ≤ code && code ≤ 0x200a) || code == 0x2028 || code == 0x2029 || code == 0x202f ||
    code == 0x205f || code == 0x3000

end QChar

namespace QString

def toUtf8 (text : QString) : QByteArray := Utf8.encode text

/-- The constructor `QString(const QByteArray &)`: UTF-8 up to the first NUL. -/
def ofByteArray (bytes : QByteArray) : QString := Utf8.decode (CString.cstr bytes)

def trimmed (text : QString) : QString := trim QChar.isSpace text

def simplified (text : QString) : QString := simplify QChar.isSpace ' ' text

def endsWith (text ending : QString) : Bool := ending.isSuffixOf text

def startsWith (text start : QString) : Bool := start.isPrefixOf text

/-- The position is counted in UTF-16 units; of a pair that it divides the second unit is left. -/
def mid : QString → Nat → QString
  | text, 0 => text
  | [], _ + 1 => []
  | c :: rest, 1 => if c.toNat < 0x10000 then rest else '?' :: rest
  | c :: rest, n + 2 => if c.toNat < 0x10000 then mid rest (n + 1) else mid rest n
termination_by structural _ position => position

/-- The texts in front of and behind the first place of a character: `indexOf` with `mid` up to and from there. -/
def cut (text : QString) (c : Char) : Option (QString × QString) :=
  (text.idxOf? c).map fun i => (text.take i, text.drop (i + 1))

def split (text : QString) (separator : Char) : List QString := text.splitOn separator

def join (parts : List QString) (separator : QString) : QString := separator.intercalate parts

/-- `QString::arg(int)`. -/
def number (n : Int32) : QString :=
  if n.toInt < 0 then '-' :: Nat.toDigits 10 n.toInt.natAbs else Nat.toDigits 10 n.toInt.natAbs

def digits (text : QString) : Option Nat :=
  if text.isEmpty || !text.all Char.isDigit then none else some (Nat.ofDigitChars 10 text 0)

def signed : QString → Option Int
  | '-' :: rest => (digits rest).map (fun n : Nat => -(n : Int))
  | '+' :: rest => (digits rest).map Int.ofNat
  | rest => (digits rest).map Int.ofNat

/-- `QString::toInt`; nothing when the text is no decimal number or the number is no `int`. -/
def toIntOk (text : QString) : Option Int32 :=
  match signed (trimmed text) with
  | some n => if -2147483648 ≤ n ∧ n ≤ 2147483647 then some (Int32.ofInt n) else none
  | none => none

def toInt (text : QString) : Int32 := (toIntOk text).getD 0

end QString

namespace QRegExp

/-- One element of a pattern in the syntax `QRegExp::Wildcard`. -/
inductive Glob where
  | star
  | any
  | one (c : Char)
  | set (negative : Bool) (ranges : List (Char × Char))
deriving DecidableEq, Repr

/-- Where the pattern is being read: outside of brackets, or inside of them with the ranges
so far, the character that may still start a range and whether a `-` follows it. -/
inductive Reading where
  | outside
  | opened
  | inside (negative : Bool) (ranges : List (Char × Char)) (pending : Option Char) (dash : Bool)

def addPending (ranges : List (Char × Char)) (pending : Option Char) : List (Char × Char) :=
  match pending with
  | some c => ranges ++ [(c, c)]
  | none => ranges

/-- One character of a set; a `-` after a character starts a range. -/
def readSet (negative : Bool) (ranges : List (Char × Char)) (pending : Option Char) (dash : Bool)
    (c : Char) : Reading :=
  match pending, dash with
  | some low, true => .inside negative (ranges ++ [(low, c)]) none false
  | some low, false =>
    if c = '-' then .inside negative ranges (some low) true
    else .inside negative (ranges ++ [(low, low)]) (some c) false
  | none, _ => .inside negative ranges (some c) false

/-- The pattern, or nothing when a bracket is not closed. -/
def compile : Reading → List Char → Option (List Glob)
  | .outside, [] => some []
  | .outside, '*' :: rest => (compile .outside rest).map (Glob.star :: ·)
  | .outside, '?' :: rest => (compile .outside rest).map (Glob.any :: ·)
  | .outside, '[' :: rest => compile .opened rest
  | .outside, c :: rest => (compile .outside rest).map (Glob.one c :: ·)
  | .opened, '^' :: rest => compile (.inside true [] none false) rest
  | .opened, c :: rest => compile (readSet false [] none false c) rest
  | .inside negative ranges pending dash, c :: rest =>
    if c = ']' ∧ (ranges ≠ [] ∨ pending.isSome) then
      if dash then none
      else (compile .outside rest).map (Glob.set negative (addPending ranges pending) :: ·)
    else compile (readSet negative ranges pending dash c) rest
  | _, [] => none

def accepts : Glob → Char → Bool
  | .star, _ | .any, _ => true
  | .one d, c => c = d
  | .set negative ranges, c => (ranges.any fun (low, high) => low ≤ c && c ≤ high) != negative

def matchGlobs : List Glob → List Char → Bool
  | [], text => text.isEmpty
  | .star :: globs, text => text.tails.any (matchGlobs globs)
  | _ :: _, [] => false
  | glob :: globs, c :: text => accepts glob c && matchGlobs globs text

/-- `QRegExp::exactMatch`, which never holds for an invalid pattern. -/
def exactMatch (pattern text : QString) : Bool :=
  match compile .outside pattern with
  | some globs => matchGlobs globs text
  | none => false

end QRegExp

abbrev Single (text : QString) : Prop := '\n' ∉ text
abbrev NulFree (text : QString) : Prop := '\x00' ∉ text
abbrev Trimmed (text : QString) : Prop := Text.Trimmed QChar.isSpace text

open QString

theorem mid_append (front rest : QString) (n : Nat) (small : ∀ c ∈ front, c.toNat < 0x10000) :
    mid (front ++ rest) (front.length + n) = mid rest n := by
  induction front with
  | nil => rw [List.nil_append, List.length_nil, Nat.zero_add]
  | cons c front ih =>
    rw [List.forall_mem_cons] at small
    have step (n : Nat) : mid (c :: (front ++ rest)) (n + 1) = mid (front ++ rest) n := by
      cases n <;> exact if_pos small.1
    rw [List.cons_append, List.length_cons, Nat.add_right_comm, step, ih small.2]

variable (n : Int32) (text : QString) (c : Char)

theorem mem_of_mem_mid (position : Nat) (c : Char) (member : c ∈ mid text position) : c = '?' ∨ c ∈ text := by
  fun_induction mid text position with
  | case1 => exact .inr member
  | case2 => cases member
  | case3 => exact .inr (List.mem_cons_of_mem _ member)
  | case4 => exact (List.mem_cons.mp member).imp_right (List.mem_cons_of_mem _)
  | case5 _ _ _ _ ih => exact (ih member).imp_right (List.mem_cons_of_mem _)
  | case6 _ _ _ _ ih => exact (ih member).imp_right (List.mem_cons_of_mem _)

theorem cut_append (front rest : QString) (c : Char) (absent : c ∉ front) :
    cut (front ++ c :: rest) c = some (front, rest) := by
  rw [cut, idxOf?_append_cons front rest c absent, Option.map_some, List.take_left, ← List.drop_drop, List.drop_left]
  rfl

theorem toUtf8_append (first second : QString) : toUtf8 (first ++ second) = toUtf8 first ++ toUtf8 second :=
  Utf8.encode_append first second

theorem toUtf8_nulFree (clean : NulFree text) : CString.NulFree (toUtf8 text) := by
  intro member
  exact clean ((Utf8.mem_encode '\x00' (by decide) text).mp member)

theorem toUtf8_single (single : Single text) : (10 : UInt8) ∉ toUtf8 text := by
  intro member
  exact single ((Utf8.mem_encode '\n' (by decide) text).mp member)

/-- Text that is written as UTF-8 is read back, if it has no NUL and does not start with a
byte order mark. -/
theorem ofByteArray_toUtf8 (clean : NulFree text) (start : text.head? ≠ some (Char.ofNat 0xfeff)) :
    ofByteArray (toUtf8 text) = text := by
  rw [ofByteArray, CString.cstr_eq_self _ (toUtf8_nulFree text clean)]
  exact Utf8.decode_encode text start

theorem ofByteArray_nulFree (bytes : QByteArray) : NulFree (ofByteArray bytes) := by
  intro member
  exact CString.cstr_nulFree bytes (Utf8.mem_of_mem_decode '\x00' (by decide) _ member)

theorem ofByteArray_single (bytes : QByteArray) (single : (10 : UInt8) ∉ bytes) :
    Single (ofByteArray bytes) := by
  intro member
  have inside := Utf8.mem_of_mem_decode '\n' (by decide) _ member
  exact single ((List.takeWhile_prefix _).subset inside)

theorem digits_toDigits (n : Nat) : digits (Nat.toDigits 10 n) = some n := by
  have nonempty : (Nat.toDigits 10 n).isEmpty = false := by
    simp [Nat.toDigits_ne_nil]
  have all : (Nat.toDigits 10 n).all Char.isDigit = true := by
    rw [List.all_eq_true]
    intro c member
    exact Nat.isDigit_of_mem_toDigits (by decide) (by decide) member
  simp [digits, nonempty, all, Nat.ofDigitChars_ten_toDigits]

theorem isDigit_range (digit : c.isDigit = true) : 48 ≤ c.toNat ∧ c.toNat ≤ 57 := by
  simpa [Char.isDigit, UInt32.le_iff_toNat_le] using digit

theorem digit_bytes (n : Nat) (c : Char) (member : c ∈ Nat.toDigits 10 n) :
    48 ≤ c.toUInt8.toNat ∧ c.toUInt8.toNat ≤ 57 ∧ c.toUInt8.toNat = c.toNat := by
  have range := isDigit_range c (Nat.isDigit_of_mem_toDigits (by decide) (by decide) member)
  have same := Utf8.toNat_toUInt8 c (by omega)
  omega

theorem toUtf8_toDigits (n : Nat) : toUtf8 (Nat.toDigits 10 n) = (Nat.toDigits 10 n).map Char.toUInt8 := by
  apply Utf8.encode_ascii
  intro c member
  have range := isDigit_range c (Nat.isDigit_of_mem_toDigits (by decide) (by decide) member)
  omega

theorem isSpace_of_isDigit (digit : c.isDigit = true) : QChar.isSpace c = false := by
  have range := isDigit_range c digit
  simp only [QChar.isSpace, Bool.or_eq_false_iff, Bool.and_eq_false_iff, beq_eq_false_iff_ne,
    decide_eq_false_iff_not]
  omega

theorem isSpace_small (blank : QChar.isSpace c = true) : c.toNat < 0x10000 := by
  simp only [QChar.isSpace, Bool.or_eq_true, Bool.and_eq_true, beq_iff_eq, decide_eq_true_eq] at blank
  omega

theorem number_chars (member : c ∈ number n) : c.isDigit = true ∨ c = '-' := by
  have digit (member : c ∈ Nat.toDigits 10 n.toInt.natAbs) : c.isDigit = true :=
    Nat.isDigit_of_mem_toDigits (by decide) (by decide) member
  unfold number at member
  split at member
  · rcases List.mem_cons.mp member with rfl | later
    · simp
    · exact Or.inl (digit later)
  · exact Or.inl (digit member)

theorem number_solid (member : c ∈ number n) : QChar.isSpace c = false := by
  rcases number_chars n c member with digit | rfl
  · exact isSpace_of_isDigit c digit
  · decide

theorem number_ne_nil : number n ≠ [] := by
  unfold number
  split
  · simp
  · exact Nat.toDigits_ne_nil

theorem number_length : (number n).length ≤ 11 := by
  have lower := Int32.le_toInt n
  have upper := Int32.toInt_lt n
  have digits : (Nat.toDigits 10 n.toInt.natAbs).length ≤ 10 := by
    apply Nat.toDigits_length 10 _ 10 (by decide)
    omega
  unfold number
  split
  · rw [List.length_cons]
    omega
  · omega

theorem signed_toDigits (n : Nat) : signed (Nat.toDigits 10 n) = some (n : Int) := by
  have known := digits_toDigits n
  cases shape : Nat.toDigits 10 n with
  | nil => exact absurd shape Nat.toDigits_ne_nil
  | cons c rest =>
    have digit : c.isDigit = true :=
      Nat.isDigit_of_mem_toDigits (b := 10) (n := n) (by decide) (by decide) (by simp [shape])
    have range := isDigit_range c digit
    have plus : c ≠ '+' := by rintro rfl; simp at range
    have minus : c ≠ '-' := by rintro rfl; simp at range
    rw [shape] at known
    rw [signed, known]
    · rfl
    · rintro rest' same
      exact minus (List.cons.inj same).1
    · rintro rest' same
      exact plus (List.cons.inj same).1

theorem signed_number : signed (number n) = some n.toInt := by
  unfold number
  split
  · rename_i negative
    rw [signed, digits_toDigits, Option.map_some]
    congr 1
    omega
  · rw [signed_toDigits]
    congr 1
    omega

theorem toIntOk_number : toIntOk (number n) = some n := by
  have lower := n.le_toInt
  have upper := n.toInt_lt
  have whole : trimmed (number n) = number n :=
    trim_eq_self _ (Text.Trimmed.of_forall _ (number_solid n))
  have range : -2147483648 ≤ n.toInt ∧ n.toInt ≤ 2147483647 := by omega
  simp only [toIntOk, whole, signed_number, if_pos range, Int32.ofInt_toInt]

theorem toInt_number : toInt (number n) = n := by
  rw [toInt, toIntOk_number, Option.getD_some]

end Woterm.Qt
