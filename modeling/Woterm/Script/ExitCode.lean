import Woterm.Script.ShellProcess
import Woterm.Terminal.PlainText

/-!
The exit code of a command is read off the screen: `extractExitCode` sends `echo $?` and looks in the rows
that the spy recorded for the first one that ends with these words; the next row is the code. Here the rows
are those that the spy makes of the bytes: lines before, the prompt with the echoed words, the number, lines
after. The code is found whatever these lines are, provided the echo stands in one row.
-/

namespace Woterm.Script.ExitCode
open Woterm.Lib Woterm.Lib.Text Woterm.Lib.Typewriter Woterm.Qt Woterm.Qt.QString
open Woterm.Terminal Woterm.Terminal.Data Woterm.Terminal.TextBytes Woterm.Terminal.Sizes Woterm.Terminal.CmdSpy
open Woterm.Terminal.PlainText ShellProcess

/-- The words that are echoed behind the prompt. -/
def echo : QString := "echo $?".toList

/-- The bytes that come back for the probe. -/
def reply (pre : List (List uchar)) (prompt : List uchar) (n : Int32) (post : List (List uchar)) : QByteArray :=
  joined (pre ++ [prompt ++ echo.map byte, (number n).map byte] ++ post)

/-- Lines of printable ASCII that fit in a row and do not look like the echo, a prompt that leaves room for the
echo, and any lines of printable ASCII behind them. -/
structure Plain (pre : List (List uchar)) (prompt : List uchar) (post : List (List uchar)) : Prop where
  before : ∀ line ∈ pre, (∀ c ∈ line, Printable c) ∧ line.length ≤ 1024 ∧
    endsWith (simplified (line.map character)) echo = false
  prompted : (∀ c ∈ prompt, Printable c) ∧ prompt.length ≤ 1000
  after : ∀ line ∈ post, ∀ c ∈ line, Printable c

/-- The scan over what the spy recorded since its reset finds the number. -/
def Scraped (spy : QWoCmdSpy) (pre : List (List uchar)) (prompt : List uchar) (n : Int32)
    (post : List (List uchar)) : Prop :=
  (process (reset spy) (reply pre prompt n post)).map (fun final => shownCode (output final).1) = some n

theorem codeLine_cons (first second : QString) (rest : List QString) (plain : endsWith first echo = false) :
    codeLine (first :: second :: rest) = codeLine (second :: rest) := by
  rw [codeLine]
  exact if_neg fun found => Bool.false_ne_true (plain.symm.trans found)

theorem codeLine_first (front rest : List QString) (line code : QString)
    (others : ∀ other ∈ front, endsWith other echo = false) (found : endsWith line echo = true) :
    codeLine (front ++ line :: code :: rest) = code := by
  induction front with
  | nil =>
    rw [List.nil_append, codeLine]
    exact if_pos found
  | cons first front ih =>
    have later := ih fun other member => others other (List.mem_cons_of_mem _ member)
    have plain := others first List.mem_cons_self
    cases front with
    | nil => exact (codeLine_cons _ _ _ plain).trans later
    | cons second front => exact (codeLine_cons _ _ _ plain).trans later

theorem codeLine_none (lines : List QString) (others : ∀ line ∈ lines, endsWith line echo = false) :
    codeLine lines = [] := by
  induction lines with
  | nil => rfl
  | cons first lines ih =>
    have later := ih fun other member => others other (List.mem_cons_of_mem _ member)
    cases lines with
    | nil => rfl
    | cons second lines => exact (codeLine_cons _ _ _ (others first List.mem_cons_self)).trans later

theorem shownCode_first (front rest : List QString) (line : QString) (n : Int32)
    (others : ∀ other ∈ front, endsWith other echo = false) (found : endsWith line echo = true) :
    shownCode (front ++ line :: number n :: rest) = n := by
  rw [shownCode, codeLine_first front rest line (number n) others found, if_neg, toIntOk_number, Option.getD_some]
  simpa using number_ne_nil n

theorem endsWith_echo (prompt : QString) : endsWith (simplified (prompt ++ echo)) echo = true := by
  obtain ⟨front, joined⟩ := @simplify_append_solid _ QChar.isSpace ' ' prompt "echo".toList (by decide) (by decide)
  have some_word : words QChar.isSpace (prompt ++ "echo".toList) ≠ [] :=
    words_ne_nil _ 'o' (by simp) (by decide)
  have whole := @simplify_append_word _ QChar.isSpace ' ' ' ' (prompt ++ "echo".toList) "$?".toList some_word
    (by decide) (by decide) (by decide)
  rw [joined, List.append_assoc, List.append_assoc] at whole
  have ending : simplified (prompt ++ echo) = front ++ echo := whole
  rw [ending, endsWith]
  exact List.isSuffixOf_iff_suffix.mpr (List.suffix_append _ _)

variable (spy : QWoCmdSpy) (width : Nat)

theorem reported_short (positive : 0 < width) (lines : List QString)
    (short : ∀ line ∈ lines, line.length ≤ width) : reported (lines.flatMap (pieces width)) = reported lines := by
  induction lines with
  | nil => rfl
  | cons line lines ih =>
    have first : reported (pieces width line) = reported [line] := by
      by_cases empty : line = []
      · rw [empty, pieces_nil]
        rfl
      · rw [pieces_short width positive line empty (short line List.mem_cons_self)]
    rw [List.flatMap_cons, reported_append, first, ih fun other member => short other (List.mem_cons_of_mem _ member),
      ← reported_append]
    rfl

theorem reported_cons (line : QString) (lines : List QString) (filled : simplified line ≠ []) :
    reported (line :: lines) = simplified line :: reported lines := by
  simp [reported, filled]

theorem characters_ascii (text : QString) (ascii : ∀ c ∈ text, c.toNat < 128) : (text.map byte).map character = text := by
  rw [List.map_map]
  refine (List.map_congr_left fun c member => ?_).trans (List.map_id text)
  rw [Function.comp, character, byte, Utf8.toNat_toUInt8 c (ascii c member), Char.ofNat_toNat]
  rfl

theorem number_ascii (n : Int32) (c : Char) (member : c ∈ number n) : 32 ≤ c.toNat ∧ c.toNat < 127 := by
  rcases number_chars n c member with digit | rfl
  · have range := isDigit_range c digit
    omega
  · decide

theorem printable_number (n : Int32) : ∀ c ∈ (number n).map byte, Printable c := by
  intro c member
  obtain ⟨d, inside, rfl⟩ := List.mem_map.mp member
  have range := number_ascii n d inside
  have same := Utf8.toNat_toUInt8 d (by omega)
  simp only [Printable, byte, UInt8.le_iff_toNat_le, same, UInt8.toNat_ofNat]
  omega

theorem printable_reply (pre : List (List uchar)) (prompt : List uchar) (n : Int32) (post : List (List uchar))
    (plain : Plain pre prompt post) :
    ∀ line ∈ pre ++ [prompt ++ echo.map byte, (number n).map byte] ++ post, ∀ c ∈ line, Printable c := by
  have words : ∀ c ∈ echo.map byte, Printable c := by decide
  intro line member
  simp only [List.mem_append, List.mem_cons, List.not_mem_nil, or_false] at member
  rcases member with (before | rfl | rfl) | after
  · exact (plain.before line before).1
  · exact fun c inside => (List.mem_append.mp inside).elim (plain.prompted.1 c) (words c)
  · exact printable_number n
  · exact plain.after line after

/-- On a screen of any width, the number of one reply is found if and only if it is found in the rows of that width. -/
theorem scraped_rows_iff (wide : 1 < width) (narrow : width ≤ fixCollumn)
    (columns : spy.vte.width = width) (height : spy.vte.height = 768) (pre : List (List uchar)) (prompt : List uchar)
    (n : Int32) (post : List (List uchar)) (plain : Plain pre prompt post) :
    Scraped spy pre prompt n post ↔
      shownCode (reported ((pre.map (List.map character)).flatMap (pieces width)) ++
        reported (pieces width (prompt.map character ++ echo)) ++ reported (pieces width (number n)) ++
        reported ((post.map (List.map character)).flatMap (pieces width))) = n := by
  have lines := output_joined spy wide narrow columns height _ (printable_reply pre prompt n post plain)
  have shown := congrArg (Option.map shownCode) lines
  rw [Option.map_map, Option.map_some] at shown
  have words : (echo.map byte).map character = echo := characters_ascii echo (by decide)
  have digits : ((number n).map byte).map character = number n :=
    characters_ascii _ fun c member => lt_trans (number_ascii n c member).2 (by decide)
  simp only [List.map_append, List.map_cons, List.map_nil, List.flatMap_append, List.flatMap_cons, List.flatMap_nil,
    List.append_nil, reported_append, words, digits, ← List.append_assoc] at shown
  exact (Eq.congr_left shown).trans Option.some_inj

theorem scraped_wide (columns : spy.vte.width = fixCollumn) (height : spy.vte.height = 768)
    (pre : List (List uchar)) (prompt : List uchar) (n : Int32) (post : List (List uchar))
    (plain : Plain pre prompt post) : Scraped spy pre prompt n post := by
  have found := endsWith_echo (prompt.map character)
  have filled : simplified (prompt.map character ++ echo) ≠ [] := by
    intro empty
    rw [empty] at found
    exact absurd found (by decide)
  have before : reported ((pre.map (List.map character)).flatMap (pieces fixCollumn)) =
      reported (pre.map (List.map character)) := by
    refine reported_short fixCollumn (by decide) _ fun line member => ?_
    obtain ⟨bytes, inside, rfl⟩ := List.mem_map.mp member
    rw [List.length_map]
    exact (plain.before bytes inside).2.1
  have others : ∀ other ∈ reported (pre.map (List.map character)), endsWith other echo = false := by
    intro other member
    obtain ⟨line, inside, rfl⟩ := List.mem_map.mp (List.mem_filter.mp member).1
    obtain ⟨bytes, known, rfl⟩ := List.mem_map.mp inside
    exact (plain.before bytes known).2.2
  have row : reported (pieces fixCollumn (prompt.map character ++ echo)) =
      [simplified (prompt.map character ++ echo)] := by
    have size : (prompt.map character ++ echo).length ≤ fixCollumn := by
      have room := plain.prompted.2
      rw [List.length_append, List.length_map]
      exact le_trans (Nat.add_le_add_right room _) (by decide)
    have shown : prompt.map character ++ echo ≠ [] := List.append_ne_nil_of_right_ne_nil _ (by decide)
    rw [pieces_short fixCollumn (by decide) _ shown size, reported_cons _ _ filled]
    rfl
  have code : reported (pieces fixCollumn (number n)) = [number n] := by
    have solid : simplified (number n) = number n := simplify_solid ' ' _ (number_ne_nil n) (number_solid n)
    have size : (number n).length ≤ fixCollumn := le_trans (number_length n) (by decide)
    rw [pieces_short fixCollumn (by decide) _ (number_ne_nil n) size,
      reported_cons _ _ (by rw [solid]; exact number_ne_nil n), solid]
    rfl
  rw [scraped_rows_iff spy fixCollumn (by decide) le_rfl columns height pre prompt n post plain, before, row, code,
    List.append_assoc, List.append_assoc]
  exact shownCode_first _ _ _ n others found

/-- A prompt after which the echo does not fit in a row of this width. -/
def longPrompt (width : Nat) : List uchar := List.replicate (width - 5) (byte 'x')

theorem plain_longPrompt (narrow : width < 1000) : Plain [] (longPrompt width) [] where
  before := by simp
  prompted := by
    constructor
    · intro c member
      rw [List.eq_of_mem_replicate member]
      decide
    · rw [longPrompt, List.length_replicate]
      omega
  after := by simp

theorem pieces_longPrompt (wide : 5 < width) :
    pieces width ((longPrompt width).map character ++ echo) =
      [List.replicate (width - 5) 'x' ++ "echo ".toList, "$?".toList] := by
  have letters : (longPrompt width).map character = List.replicate (width - 5) 'x' := by
    rw [longPrompt, List.map_replicate]
    rfl
  have cut : List.replicate (width - 5) 'x' ++ echo =
      List.replicate (width - 5) 'x' ++ "echo ".toList ++ "$?".toList := by
    rw [List.append_assoc]
    rfl
  have full : (List.replicate (width - 5) 'x' ++ "echo ".toList).length = width := by
    rw [List.length_append, List.length_replicate]
    exact Nat.sub_add_cancel (le_of_lt wide)
  rw [letters, cut, pieces_full width (by omega) _ _ full (by decide),
    pieces_short width (by omega) "$?".toList (by decide) (le_trans (by decide) (le_of_lt wide))]

theorem simplified_cut (n : Nat) :
    simplified (List.replicate n 'x' ++ "echo ".toList) = List.replicate n 'x' ++ "echo".toList := by
  have blank : List.replicate n 'x' ++ "echo ".toList = List.replicate n 'x' ++ "echo".toList ++ [' '] := by
    rw [List.append_assoc]
    rfl
  have solid : ∀ c ∈ List.replicate n 'x' ++ "echo".toList, QChar.isSpace c = false := by
    have word : ∀ c ∈ "echo".toList, QChar.isSpace c = false := by decide
    intro c member
    rcases List.mem_append.mp member with inside | last
    · rw [List.eq_of_mem_replicate inside]
      decide
    · exact word c last
  rw [blank, simplified, simplify_append_blanks ' ' _ _ (by decide),
    simplify_solid ' ' _ (List.append_ne_nil_of_right_ne_nil _ (by decide)) solid]

/-- On a narrower screen a prompt can be so long that no row shows the whole echo. -/
theorem not_scraped (wide : 5 < width) (narrow : width < 1000)
    (columns : spy.vte.width = width) (height : spy.vte.height = 768) :
    ¬ Scraped spy [] (longPrompt width) 0 [] := by
  have first : endsWith (List.replicate (width - 5) 'x' ++ "echo".toList) echo = false := by
    rw [Bool.eq_false_iff]
    intro found
    obtain ⟨front, same⟩ := List.isSuffixOf_iff_suffix.mp found
    have last := congrArg List.getLast? same
    rw [List.getLast?_append_of_ne_nil _ (by decide), List.getLast?_append_of_ne_nil _ (by decide)] at last
    exact absurd last (by decide)
  have rows : reported (pieces width ((longPrompt width).map character ++ echo)) =
      [List.replicate (width - 5) 'x' ++ "echo".toList, "$?".toList] := by
    rw [pieces_longPrompt width wide, reported_cons _ _ (by rw [simplified_cut]; simp), simplified_cut]
    rfl
  have code : reported (pieces width (number 0)) = ["0".toList] := by
    rw [pieces_short width (by omega) (number 0) (by decide) (le_trans (by decide) (le_of_lt wide))]
    decide
  rw [scraped_rows_iff spy width (by omega) (le_trans (le_of_lt narrow) (by decide)) columns height [] _ 0 []
    (plain_longPrompt width narrow), rows, code]
  have silent : codeLine [List.replicate (width - 5) 'x' ++ "echo".toList, "$?".toList, "0".toList] = [] := by
    have others : ∀ line ∈ ["$?".toList, "0".toList], endsWith line echo = false := by decide
    exact codeLine_none _ (List.forall_mem_cons.mpr ⟨first, others⟩)
  have value : shownCode [List.replicate (width - 5) 'x' ++ "echo".toList, "$?".toList, "0".toList] = -1 := by
    rw [shownCode, silent]
    rfl
  exact fun scraped => absurd (value.symm.trans scraped) (by decide)

/-- The exit code is found in every reply if and only if the screen is as wide as it was constructed. -/
theorem scraped_iff (spy : QWoCmdSpy) (reachable : Reachable spy) :
    (∀ pre prompt n post, Plain pre prompt post → Scraped spy pre prompt n post) ↔ spy.vte.width = fixCollumn := by
  have usual := reachable_usual spy reachable
  constructor
  · intro always
    by_contra other
    have width : ∃ width : Nat, 5 < width ∧ width < 1000 ∧ spy.vte.width = width := by
      rcases usual.width with same | narrow | narrow
      · exact absurd same other
      · exact ⟨80, by decide, by decide, narrow⟩
      · exact ⟨132, by decide, by decide, narrow⟩
    obtain ⟨width, wide, narrow, columns⟩ := width
    exact not_scraped spy width wide narrow columns usual.height
      (always [] (longPrompt width) 0 [] (plain_longPrompt width narrow))
  · intro columns pre prompt n post plain
    exact scraped_wide spy columns usual.height pre prompt n post plain

theorem scraped_iff_fresh : Reachable fresh ∧ Scraped fresh [[]] ("$ ".toList.map byte) (-1) [[byte '0'], []] :=
  ⟨.constructed, (scraped_iff fresh .constructed).mpr rfl _ _ _ _ ⟨by decide, by decide, by decide⟩⟩

/-- After a switch to 80 columns, a prompt of 75 characters hides the code. -/
theorem narrow_not_scraped : ∃ spy, process fresh narrowScreen = some spy ∧
    Plain [] (List.replicate 75 (byte 'x')) [] ∧ ¬ Scraped spy [] (List.replicate 75 (byte 'x')) 0 [] := by
  obtain ⟨spy, processed, columns, height⟩ := narrowScreen_size
  exact ⟨spy, processed, plain_longPrompt 80 (by decide), not_scraped spy 80 (by decide) (by decide) columns height⟩

end Woterm.Script.ExitCode
