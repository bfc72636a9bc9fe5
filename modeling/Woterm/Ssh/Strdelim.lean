import Mathlib.Data.List.DropRight
import Mathlib.Data.List.TakeWhile
import Mathlib.Tactic.SplitIfs

/-!
The tokenizer `strdelim` of `misc.c` and the patterns of `match.c`. A C string is the list of
its bytes before the NUL, and a `char *` that may be `NULL` is an option.
-/

namespace Woterm.Ssh.Strdelim

abbrev CStr := List UInt8

/-- `WHITESPACE`: blank, tab, carriage return and line feed. -/
def isWhite (byte : UInt8) : Bool := byte = 32 || byte = 9 || byte = 13 || byte = 10

def quote : UInt8 := 34

def equals : UInt8 := 61

/-- The bytes at which `strpbrk` stops. -/
def isDelimiter (splitEquals : Bool) (byte : UInt8) : Bool :=
  isWhite byte || byte = quote || (splitEquals && byte = equals)

def plain (splitEquals : Bool) (byte : UInt8) : Bool := !isDelimiter splitEquals byte

/-- `strdelim_internal`: the token, and where the next call goes on. -/
def strdelimInternal (splitEquals : Bool) : Option CStr → Option CStr × Option CStr
  | none => (none, none)
  | some text =>
    let old := text.takeWhile (plain splitEquals)
    match text.dropWhile (plain splitEquals) with
    | [] => (some text, none)
    | delimiter :: after =>
      if delimiter = quote then
        let inside := after.takeWhile (· ≠ quote)
        match after.dropWhile (· ≠ quote) with
        | [] => (none, none)
        | _ :: rest => (some (old ++ inside), some (rest.dropWhile isWhite))
      else
        let rest := after.dropWhile isWhite
        if splitEquals && delimiter ≠ equals && rest.head? = some equals then
          (some old, some ((rest.drop 1).dropWhile isWhite))
        else (some old, some rest)

def strdelim (s : Option CStr) : Option CStr × Option CStr := strdelimInternal true s

def star : UInt8 := 42

def question : UInt8 := 63

/-- One character of the pattern that is not `*`, and what decides about the rest. -/
def matchOne (c : UInt8) (s : CStr) (rest : CStr → Bool) : Bool :=
  match s with
  | [] => false
  | byte :: more => if c ≠ question ∧ c ≠ byte then false else rest more

/-- `match_pattern`: a pattern with `*` and `?` against the whole of `s`. -/
def matchPattern : CStr → CStr → Bool
  | s, [] => s.isEmpty
  | s, [c] => if c = star then true else matchOne c s fun more => more.isEmpty
  | s, c :: next :: rest =>
    if c = star then
      if next ≠ question ∧ next ≠ star then
        s.tails.any fun tail =>
          match tail with
          | [] => false
          | byte :: more => byte = next && matchPattern more rest
      else s.tails.any fun tail => !tail.isEmpty && matchPattern tail (next :: rest)
    else matchOne c s fun more => matchPattern more (next :: rest)

def toLower (byte : UInt8) : UInt8 := if 65 ≤ byte ∧ byte ≤ 90 then byte + 32 else byte

/-- One subpattern of `match_pattern_list`: whether it is negated, and its text. -/
def subpattern (part : CStr) : Bool × CStr :=
  if part.head? = some 33 then (true, part.drop 1) else (false, part)

/-- The loop over the subpatterns: a negated match ends it with -1, and a subpattern that does
not fit the buffer `sub` of 1024 bytes ends it with 0. -/
def matchSubpatterns (string : CStr) : List CStr → Int → Int
  | [], positive => positive
  | part :: parts, positive =>
    let (negated, text) := subpattern part
    if 1023 ≤ text.length then 0
    else if matchPattern string text then
      if negated then -1 else matchSubpatterns string parts 1
    else matchSubpatterns string parts positive

/-- `match_pattern_list`. The loop makes no round after a comma at the end of the list. -/
def matchPatternList (string pattern : CStr) (dolower : Bool) : Int :=
  let lowered := if dolower then pattern.map toLower else pattern
  let parts := lowered.splitOn 44
  matchSubpatterns string (if parts.getLast? = some [] then parts.dropLast else parts) 0

/-! ## Plain words -/

theorem isDelimiter_iff (byte : UInt8) :
    isDelimiter true byte = true ↔
      byte = 32 ∨ byte = 9 ∨ byte = 13 ∨ byte = 10 ∨ byte = 34 ∨ byte = 61 := by
  simp only [isDelimiter, isWhite, Bool.true_and, Bool.or_eq_true, decide_eq_true_eq, or_assoc]
  rfl

/-- A word that the tokenizer takes whole. -/
def Plain (word : CStr) : Prop := ∀ byte ∈ word, isDelimiter true byte = false

theorem strdelim_last (word : CStr) (clean : Plain word) : strdelim (some word) = (some word, none) := by
  have all : ∀ byte ∈ word, plain true byte = true := by
    intro byte member
    simp [plain, clean byte member]
  have rest : word.dropWhile (plain true) = [] := by
    rw [List.dropWhile_eq_nil_iff]
    exact all
  simp only [strdelim, strdelimInternal, rest]

/-- Where the tokenizer goes on after a word and a blank: one `=` is passed over. -/
def afterBlank (text : CStr) : CStr :=
  let rest := text.dropWhile isWhite
  if rest.head? = some equals then (rest.drop 1).dropWhile isWhite else rest

theorem strdelim_word (word text : CStr) (clean : Plain word) :
    strdelim (some (word ++ 32 :: text)) = (some word, some (afterBlank text)) := by
  have all : ∀ byte ∈ word, plain true byte = true := by
    intro byte member
    simp [plain, clean byte member]
  have stop : plain true 32 = false := by decide
  have taken : (word ++ 32 :: text).takeWhile (plain true) = word := by
    rw [List.takeWhile_append_of_pos all, List.takeWhile_cons_of_neg (by simp [stop]), List.append_nil]
  have dropped : (word ++ 32 :: text).dropWhile (plain true) = 32 :: text := by
    rw [List.dropWhile_append_of_pos all, List.dropWhile_cons_of_neg (by simp [stop])]
  have blank : ¬ (32 : UInt8) = quote := by decide
  have other : (32 : UInt8) ≠ equals := by decide
  simp only [strdelim, strdelimInternal, taken, dropped, if_neg blank, afterBlank]
  by_cases skipped : (text.dropWhile isWhite).head? = some equals
  · simp [other, skipped]
  · simp [skipped]

theorem afterBlank_plain (byte : UInt8) (text : CStr) (start : isDelimiter true byte = false) :
    afterBlank (byte :: text) = byte :: text := by
  simp only [isDelimiter, Bool.true_and, Bool.or_eq_false_iff, decide_eq_false_iff_not] at start
  obtain ⟨⟨white, _⟩, other⟩ := start
  have kept : (byte :: text).dropWhile isWhite = byte :: text := by
    rw [List.dropWhile_cons_of_neg (by simp [white])]
  simp [afterBlank, kept, other]

theorem strdelim_indent (byte : UInt8) (rest : CStr) (start : isDelimiter true byte = false) :
    strdelim (some (32 :: 32 :: byte :: rest)) = (some [], some (byte :: rest)) := by
  have first := strdelim_word [] (32 :: byte :: rest) (by simp [Plain])
  have skipped : afterBlank (32 :: byte :: rest) = afterBlank (byte :: rest) := by
    simp only [afterBlank]
    rw [List.dropWhile_cons_of_pos (by decide)]
  rw [skipped, afterBlank_plain byte rest start] at first
  exact first

theorem strdelim_start (byte : UInt8) (rest : CStr) (start : isDelimiter true byte = false) :
    (strdelim (some (byte :: rest))).1 = none ∨
      ∃ token, (strdelim (some (byte :: rest))).1 = some (byte :: token) := by
  have kept : plain true byte = true := by simp [plain, start]
  simp only [strdelim, strdelimInternal, List.takeWhile_cons_of_pos kept, List.dropWhile_cons_of_pos kept]
  split
  · simp
  · split
    · split
      · simp
      · simp
    · split_ifs <;> simp

theorem afterBlank_suffix (text : CStr) : afterBlank text <:+ text := by
  have first := List.dropWhile_suffix (l := text) isWhite
  unfold afterBlank
  dsimp only
  split_ifs
  · exact ((List.dropWhile_suffix isWhite).trans (List.drop_suffix 1 _)).trans first
  · exact first

/-- A token is made of bytes of the text. It has no quotes, and without quotes in the text it
is plain. -/
theorem strdelim_token (text token : CStr) (rest : Option CStr)
    (found : strdelim (some text) = (some token, rest)) :
    token ⊆ text ∧ quote ∉ token ∧ (quote ∉ text → Plain token) := by
  have front : text.takeWhile (plain true) ⊆ text := (List.takeWhile_prefix _).subset
  have old : Plain (text.takeWhile (plain true)) := by
    intro byte member
    simpa [plain] using List.mem_takeWhile_imp member
  have unquoted : quote ∉ text.takeWhile (plain true) := fun member =>
    absurd (old quote member) (by decide)
  have split := List.takeWhile_append_dropWhile (p := plain true) (l := text)
  simp only [strdelim, strdelimInternal] at found
  cases after : text.dropWhile (plain true) with
  | nil =>
    rw [after, List.append_nil] at split
    simp only [after, Prod.mk.injEq, Option.some.injEq] at found
    rw [split] at old unquoted
    rw [← found.1]
    exact ⟨List.Subset.refl text, unquoted, fun _ => old⟩
  | cons delimiter more =>
    have inside : more ⊆ text := by
      rw [← split, after]
      intro byte member
      simp [member]
    simp only [after] at found
    by_cases quoted : delimiter = quote
    · rw [if_pos quoted] at found
      have within : more.takeWhile (· ≠ quote) ⊆ text :=
        fun byte member => inside ((List.takeWhile_prefix _).subset member)
      have closed : quote ∉ more.takeWhile (· ≠ quote) := fun member => by
        simpa using List.mem_takeWhile_imp member
      cases ending : more.dropWhile (· ≠ quote) with
      | nil =>
        simp only [ending, Prod.mk.injEq, reduceCtorEq, false_and] at found
      | cons closing last =>
        simp only [ending, Prod.mk.injEq, Option.some.injEq] at found
        rw [← found.1]
        refine ⟨List.append_subset.mpr ⟨front, within⟩, ?_, ?_⟩
        · rw [List.mem_append, not_or]
          exact ⟨unquoted, closed⟩
        · intro absent
          rw [← split, after, quoted] at absent
          simp at absent
    · rw [if_neg quoted] at found
      have token : text.takeWhile (plain true) = token := by
        split_ifs at found <;> exact Option.some.inj (congrArg Prod.fst found)
      rw [← token]
      exact ⟨front, unquoted, fun _ => old⟩

theorem matchPattern_cons (s pattern : CStr) (c : UInt8) (literal : c ≠ star) :
    matchPattern s (c :: pattern) = matchOne c s fun more => matchPattern more pattern := by
  cases pattern with
  | nil => simp [matchPattern, literal]
  | cons next rest => simp [matchPattern, literal]

theorem matchPattern_literal (s pattern : CStr) (literal : ∀ byte ∈ pattern, byte ≠ star ∧ byte ≠ question) :
    matchPattern s pattern = true ↔ s = pattern := by
  induction pattern generalizing s with
  | nil => simp [matchPattern]
  | cons c pattern ih =>
    obtain ⟨noStar, noQuestion⟩ := literal c (by simp)
    have later := fun s => ih s (fun byte member => literal byte (by simp [member]))
    rw [matchPattern_cons s pattern c noStar]
    cases s with
    | nil => simp [matchOne]
    | cons byte s =>
      by_cases same : c = byte
      · simp [matchOne, same, later]
      · simp [matchOne, noQuestion, same, Ne.symm same]

end Woterm.Ssh.Strdelim
