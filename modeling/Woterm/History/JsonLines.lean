import Mathlib.Tactic.IntervalCases
import Woterm.Qt

/-!
The lines of a history file. Each is an object with a command and a path, in the compact form of
`QJsonDocument`. The model of the history only assumes that what is written can be read back; the
compact form with a reader for it is one instance.
-/

namespace Woterm.History.JsonLines
open Woterm.Lib Woterm.Qt

structure HistoryCommand where
  cmd : QString
  path : QString
deriving DecidableEq, Repr

/-- How the program uses `QJsonDocument`. `fromJson` gives the values of `command` and `path` in an
object, and nothing if the line is no object. -/
structure Json where
  toJson : HistoryCommand → QByteArray
  fromJson : QByteArray → Option HistoryCommand

/-- One object per line is written and read back. -/
structure Faithful (json : Json) : Prop where
  read : ∀ hc, json.fromJson (json.toJson hc) = some hc
  line : ∀ hc, 10 ∉ json.toJson hc
  blank : json.fromJson [] = none

/-! ## Strings -/

/-- The characters with an escape of their own. -/
def marks : List (Char × Char) :=
  [('"', '"'), ('\\', '\\'), ('\x08', 'b'), ('\x0c', 'f'), ('\n', 'n'), ('\r', 'r'), ('\t', 't')]

def hexDigits : List Char := "0123456789abcdef".toList

/-- A character inside of quotes. -/
def spelled (c : Char) : QString :=
  match marks.lookup c with
  | some mark => ['\\', mark]
  | none =>
    if c.toNat < 0x20 then
      "\\u00".toList ++ (hexDigits.drop (c.toNat / 16)).take 1 ++ (hexDigits.drop (c.toNat % 16)).take 1
    else [c]

def prepend (c : Char) (read : QString × QString) : QString × QString := (c :: read.1, read.2)

/-- The text up to the closing quote, and what follows it. -/
def unspell : QString → Option (QString × QString)
  | [] => none
  | '"' :: rest => some ([], rest)
  | '\\' :: 'u' :: _ :: _ :: high :: low :: rest =>
    (unspell rest).map (prepend (Char.ofNat (16 * hexDigits.idxOf high + hexDigits.idxOf low)))
  | '\\' :: mark :: rest =>
    match marks.find? fun entry => entry.2 = mark with
    | some (c, _) => (unspell rest).map (prepend c)
    | none => none
  | c :: rest => (unspell rest).map (prepend c)

theorem unspell_control (n : Nat) (small : n < 32) (rest : QString) :
    unspell (spelled (Char.ofNat n) ++ rest) = (unspell rest).map (prepend (Char.ofNat n)) := by
  interval_cases n <;> rfl

theorem unspell_plain (c : Char) (rest : QString) (quote : c ≠ '"') (backslash : c ≠ '\\') :
    unspell (c :: rest) = (unspell rest).map (prepend c) := by
  rw [unspell]
  · exact quote
  · intros
    contradiction
  · intros
    contradiction

theorem spelled_plain (c : Char) (visible : 32 ≤ c.toNat) (quote : c ≠ '"') (backslash : c ≠ '\\') :
    spelled c = [c] := by
  have known : ∀ entry ∈ marks, entry.1.toNat < 32 ∨ entry.1 = '"' ∨ entry.1 = '\\' := by decide
  have unmarked : marks.lookup c = none := by
    rw [List.lookup_eq_none_iff]
    intro entry member
    rw [bne_iff_ne]
    rintro rfl
    rcases known entry member with control | same | same
    · omega
    · exact quote same
    · exact backslash same
  rw [spelled, unmarked]
  exact if_neg (by omega)

/-- A property of the spelling of every character: control characters are finitely many. -/
theorem spelled_cases {P : Char → Prop} (control : ∀ n < 32, P (Char.ofNat n)) (quote : P '"') (backslash : P '\\')
    (plain : ∀ c : Char, 32 ≤ c.toNat → c ≠ '"' → c ≠ '\\' → P c) (c : Char) : P c := by
  by_cases small : c.toNat < 32
  · have known := control c.toNat small
    rwa [Char.ofNat_toNat] at known
  · by_cases quoted : c = '"'
    · exact quoted ▸ quote
    · by_cases slashed : c = '\\'
      · exact slashed ▸ backslash
      · exact plain c (by omega) quoted slashed

theorem unspell_spelled (c : Char) (rest : QString) :
    unspell (spelled c ++ rest) = (unspell rest).map (prepend c) := by
  cases c using spelled_cases with
  | control n small => exact unspell_control n small rest
  | quote => rfl
  | backslash => rfl
  | plain c visible quote backslash =>
    rw [spelled_plain c visible quote backslash]
    exact unspell_plain c rest quote backslash

theorem newline_spelled (c : Char) : '\n' ∉ spelled c := by
  cases c using spelled_cases with
  | control n small => interval_cases n <;> decide
  | quote => decide
  | backslash => decide
  | plain c visible quote backslash =>
    rw [spelled_plain c visible quote backslash, List.mem_singleton]
    rintro rfl
    exact absurd visible (by decide)

theorem unspell_text (text rest : QString) : unspell (text.flatMap spelled ++ '"' :: rest) = some (text, rest) := by
  induction text with
  | nil => rfl
  | cons c text ih =>
    rw [List.flatMap_cons, List.append_assoc, unspell_spelled, ih]
    rfl

/-! ## Objects -/

/-- The text up to the command, between the command and the path, and behind the path. -/
def opening : QString := "\x7b\"command\":\"".toList

def middle : QString := ",\"path\":\"".toList

def closing : QString := "\x7d".toList

def objectText (hc : HistoryCommand) : QString :=
  opening ++ (hc.cmd.flatMap spelled ++ '"' :: (middle ++ (hc.path.flatMap spelled ++ '"' :: closing)))

/-- What follows a text that has to come first. -/
def expect (front text : QString) : Option QString :=
  if front.isPrefixOf text then some (text.drop front.length) else none

theorem expect_append (front text : QString) : expect front (front ++ text) = some text := by
  simp [expect]

def readObject (text : QString) : Option HistoryCommand := do
  let (cmd, text) ← unspell (← expect opening text)
  let (path, text) ← unspell (← expect middle text)
  if text = closing then some ⟨cmd, path⟩ else none

theorem readObject_objectText (hc : HistoryCommand) : readObject (objectText hc) = some hc := by
  simp [readObject, objectText, expect_append, unspell_text]

/-- The form that `QJsonDocument::toJson` writes, with the keys in order. -/
def compact : Json where
  toJson hc := (objectText hc).toUtf8
  fromJson line := readObject (Utf8.decode line)

theorem compact_faithful : Faithful compact := by
  refine ⟨?_, ?_, ?_⟩
  · intro hc
    have start : (objectText hc).head? ≠ some (Char.ofNat 0xfeff) := by
      change some (Char.ofNat 0x7b) ≠ _
      decide
    change readObject (Utf8.decode (Utf8.encode (objectText hc))) = some hc
    rw [Utf8.decode_encode _ start, readObject_objectText]
  · intro hc member
    have inside : '\n' ∈ objectText hc := (Utf8.mem_encode '\n' (by decide) _).mp member
    have texts : '\n' ∉ opening ∧ '\n' ∉ middle ∧ '\n' ∉ closing := by decide
    have quoted (text : QString) : '\n' ∉ text.flatMap spelled := by
      intro member
      obtain ⟨c, -, there⟩ := List.mem_flatMap.mp member
      exact newline_spelled c there
    simp [objectText, texts, quoted] at inside
  · decide

end Woterm.History.JsonLines
