import Woterm.Terminal.PlainText

/-!
Words with tabs between them. The spy answers every question for the next tab stop with column 2,
so that all words but the first are written over each other.
-/

namespace Woterm.Terminal.Tabs
open Woterm.Lib Woterm.Lib.Typewriter Woterm.Qt Woterm.Qt.QString Woterm.Terminal.Data Woterm.Terminal.TextBytes
open Woterm.Terminal.CmdSpy Woterm.Terminal.Sizes Woterm.Terminal.PlainText

/-! ## The tab stop -/

variable {width : Nat}

theorem process_tab (column row : Nat) (made : List Call) (v : VTE) (wide : 2 < width) (below : row < 768)
    (lands : Lands width [] column row made v) : Lands width [] 2 row [] (Vte.process frontend v 0x09) := by
  rw [process_control _ v lands.plain (by decide)]
  have silent := lands.silent
  have known : Vte.controlTable.lookup 0x09 = some .HT := by decide
  have stop : frontend.getNextTab v.cursor.x 1 = ((2 : Nat) : Int) := rfl
  have moved := moveCursor_lands 2 row _ silent.plain wide below
  rw [silent.calls, ← silent.y] at moved
  simp only [Vte.handleControl, known, Vte.control]
  rw [stop]
  exact moved

/-- The carriage at the tab stop. -/
def tab (sheet : Sheet Char) : Sheet Char := { sheet with column := 2 }

/-- The typewriter on a character or a tab. -/
def write (width : Nat) (sheet : Sheet Char) (c : uchar) : Sheet Char :=
  if c = 0x09 then tab sheet else put width ' ' sheet (character c)

theorem processByte_tab (wide : 2 < width) (sheet : Sheet Char) (spy : QWoCmdSpy) (shows : Shows width sheet spy) :
    ∃ next, processByte spy 0x09 = some next ∧ Shows width (tab sheet) next := by
  obtain ⟨row, made, lands, rows⟩ := shows
  have processed := process_tab sheet.column row made spy.vte wide rows.below lands
  rw [processByte_calls, processed.calls]
  exact ⟨_, rfl, row, [], processed, (rows.at_state _).at_column 2⟩

theorem processByte_write (wide : 2 < width) (narrow : width ≤ fixCollumn) (sheet : Sheet Char) (spy : QWoCmdSpy)
    (c : uchar) (text : c = 0x09 ∨ Printable c) (shows : Shows width sheet spy) :
    ∃ next, processByte spy c = some next ∧ Shows width (write width sheet c) next := by
  unfold write
  split_ifs with stop
  · rw [stop]
    exact processByte_tab wide sheet spy shows
  · exact processByte_put (by omega) narrow sheet spy c (text.resolve_left stop) shows

/-! ## Words -/

/-- Words joined by tabs. -/
def tabbed (words : List (List uchar)) : QByteArray := [0x09].intercalate words

/-- A byte of a word. -/
def Solid (c : uchar) : Prop := 0x21 ≤ c ∧ c ≤ 0x7e

theorem solid_printable (c : uchar) (solid : Solid c) : Printable c :=
  ⟨UInt8.le_trans (by decide) solid.1, solid.2⟩

/-- A word from the tab stop on. -/
def typeWord (width : Nat) (sheet : Sheet Char) (word : QString) : Sheet Char :=
  word.foldl (put width ' ') (tab sheet)

theorem write_word (word : List uchar) (solid : ∀ c ∈ word, Solid c) (sheet : Sheet Char) :
    word.foldl (write width) sheet = (word.map character).foldl (put width ' ') sheet := by
  rw [List.foldl_map]
  apply List.foldl_ext
  intro sheet c member
  have other : c ≠ 0x09 := by
    rintro rfl
    exact absurd (solid _ member).1 (by decide)
  exact if_neg other

theorem write_tabbed (first : List uchar) (rest : List (List uchar)) (solid : ∀ word ∈ first :: rest, ∀ c ∈ word, Solid c)
    (sheet : Sheet Char) :
    (tabbed (first :: rest)).foldl (write width) sheet =
      (rest.map (List.map character)).foldl (typeWord width) ((first.map character).foldl (put width ' ') sheet) := by
  induction rest generalizing first sheet with
  | nil =>
    rw [tabbed, List.intercalate_singleton, write_word first (solid first List.mem_cons_self)]
    rfl
  | cons second rest ih =>
    have later := ih second (fun word member => solid word (List.mem_cons_of_mem first member))
      (tab ((first.map character).foldl (put width ' ') sheet))
    unfold tabbed at later ⊢
    rw [List.intercalate_cons_cons, List.foldl_append, List.foldl_append,
      write_word first (solid first List.mem_cons_self)]
    exact later

theorem tab_foldl_typeWord (words : List QString) (sheet : Sheet Char) :
    tab (words.foldl (typeWord width) sheet) =
      tab ((words.filter fun word => !word.isEmpty).foldl (typeWord width) sheet) := by
  have again (sheet : Sheet Char) (word : QString) : typeWord width (tab sheet) word = typeWord width sheet word := rfl
  induction words generalizing sheet with
  | nil => rfl
  | cons word words ih =>
    rw [List.foldl_cons, ih, List.filter_cons]
    split_ifs with filled
    · rfl
    · have empty : word = [] := by simpa using filled
      have still : typeWord width sheet word = tab sheet := by rw [empty]; rfl
      rw [still]
      cases words.filter fun word => !word.isEmpty with
      | nil => rfl
      | cons second words => rw [List.foldl_cons, List.foldl_cons, again]

/-! ## Rows that wrapped -/

/-- A character that is no blank. -/
def Ink (c : Char) : Prop := QChar.isSpace c = false

/-- No row is blank, but for a current row that nothing was written to. -/
structure Inked (sheet : Sheet Char) : Prop where
  rows : ∀ row ∈ sheet.rows, ∃ c ∈ row, Ink c
  current : sheet.rows ≠ [] ∨ 2 < sheet.column → ∃ c ∈ sheet.current, Ink c

theorem inked_put (wide : 2 < width) (sheet : Sheet Char) (c : Char) (ink : Ink c) (inked : Inked sheet) :
    Inked (put width ' ' sheet c) := by
  unfold put
  split_ifs with room
  · refine ⟨inked.rows, fun _ => ⟨c, ?_, ink⟩⟩
    simp only [overwrite]
    split_ifs with before
    · exact List.mem_set before c
    · simp
  · refine ⟨?_, fun _ => ⟨c, List.mem_singleton_self c, ink⟩⟩
    have last := inked.current (.inr (by omega))
    simp only [Sheet.contents, List.forall_mem_append, List.forall_mem_singleton]
    exact ⟨inked.rows, last⟩

theorem inked_foldl (wide : 2 < width) (text : QString) (ink : ∀ c ∈ text, Ink c) (sheet : Sheet Char)
    (inked : Inked sheet) : Inked (text.foldl (put width ' ') sheet) := by
  induction text generalizing sheet with
  | nil => exact inked
  | cons c text ih =>
    obtain ⟨first, later⟩ := List.forall_mem_cons.mp ink
    exact ih later _ (inked_put wide sheet c first inked)

theorem inked_tab (sheet : Sheet Char) (inked : Inked sheet) : Inked (tab sheet) :=
  ⟨inked.rows, fun given => inked.current (given.imp_right fun right => absurd right (Nat.lt_irrefl 2))⟩

theorem inked_typeWords (wide : 2 < width) (words : List QString) (ink : ∀ word ∈ words, ∀ c ∈ word, Ink c)
    (sheet : Sheet Char) (inked : Inked sheet) : Inked (words.foldl (typeWord width) sheet) := by
  induction words generalizing sheet with
  | nil => exact inked
  | cons word words ih =>
    obtain ⟨first, later⟩ := List.forall_mem_cons.mp ink
    exact ih later _ (inked_foldl wide word first _ (inked_tab sheet inked))

theorem simplified_ne_nil (row : QString) (inked : ∃ c ∈ row, Ink c) : simplified row ≠ [] := by
  obtain ⟨c, member, ink⟩ := inked
  exact Text.simplify_ne_nil ' ' row c member ink

theorem reported_wrapped (sheet : Sheet Char) (inked : Inked sheet) (wrapped : sheet.rows ≠ []) :
    2 ≤ (reported sheet.contents).length := by
  have all : ∀ row ∈ sheet.contents, ∃ c ∈ row, Ink c := by
    simp only [Sheet.contents, List.forall_mem_append, List.forall_mem_singleton]
    exact ⟨inked.rows, inked.current (.inl wrapped)⟩
  have kept : reported sheet.contents = sheet.contents.map simplified := by
    apply List.filter_eq_self.mpr
    rw [List.forall_mem_map]
    intro row member
    simpa using simplified_ne_nil row (all row member)
  have rows := List.length_pos_of_ne_nil wrapped
  rw [kept, List.length_map, Sheet.contents, List.length_append, List.length_singleton]
  omega

theorem rows_typeWords_le (words : List QString) (sheet : Sheet Char) :
    sheet.rows.length ≤ (words.foldl (typeWord width) sheet).rows.length := by
  induction words generalizing sheet with
  | nil => exact le_refl _
  | cons word words ih => exact (rows_foldl_le width ' ' word (tab sheet)).trans (ih _)

theorem wrapped_of_long (wide : 2 < width) (words : List QString) (sheet : Sheet Char)
    (long : ∃ word ∈ words, width < 2 + word.length) : (words.foldl (typeWord width) sheet).rows ≠ [] := by
  obtain ⟨word, member, long⟩ := long
  obtain ⟨front, back, rfl⟩ := List.append_of_mem member
  rw [List.foldl_append, List.foldl_cons]
  apply List.ne_nil_of_length_pos
  refine Nat.lt_of_lt_of_le ?_ (rows_typeWords_le back _)
  exact Nat.lt_of_le_of_lt (Nat.zero_le _)
    (rows_lt_of_long width ' ' word (tab (front.foldl (typeWord width) sheet)) (le_of_lt wide) long)

/-! ## One row -/

/-- The first two columns, where words from the tab stop on do not get. -/
def lead (first : QString) : QString := (first ++ [' ', ' ']).take 2

theorem lead_length (first : QString) : (lead first).length = 2 := by
  simp [lead]

/-- One row, with something written from the tab stop on. -/
structure Laid (front : QString) (sheet : Sheet Char) (body : QString) : Prop where
  rows : sheet.rows = []
  current : sheet.current = front ++ body
  filled : body ≠ []
  ink : ∀ c ∈ body, Ink c

theorem typeWord_fits (word : QString) (some_word : word ≠ []) (fits : 2 + word.length ≤ width) (sheet : Sheet Char) :
    typeWord width sheet word = { sheet with
      current := lead sheet.current ++ word ++ sheet.current.drop (2 + word.length)
      column := 2 + word.length } := by
  have front : (sheet.current ++ List.replicate (2 - sheet.current.length) ' ').take 2 = lead sheet.current := by
    unfold lead
    rcases sheet.current with _ | ⟨a, _ | ⟨b, rest⟩⟩
    · rfl
    · rfl
    · simp
  have behind : (sheet.current ++ List.replicate (2 - sheet.current.length) ' ').drop (2 + word.length) =
      sheet.current.drop (2 + word.length) := by
    rw [List.drop_append, List.drop_replicate, (by omega : 2 - sheet.current.length - _ = 0)]
    simp
  unfold typeWord
  rw [foldl_put_fits width ' ' word _ fits, foldl_stamp_filled ' ' word some_word, foldl_stamp]
  · simp only [tab, front, behind]
  · simp only [tab, List.length_append, List.length_replicate]
    omega

theorem laid_typeWord (front body word : QString) (long : front.length = 2) (some_word : word ≠ [])
    (fits : 2 + word.length ≤ width) (ink : ∀ c ∈ word, Ink c) (sheet : Sheet Char) (laid : Laid front sheet body) :
    Laid front (typeWord width sheet word) (word ++ body.drop word.length) := by
  have kept : lead (front ++ body) = front := by
    rw [lead, List.append_assoc, List.take_left' long]
  have behind : (front ++ body).drop (2 + word.length) = body.drop word.length := by
    rw [← List.drop_drop, List.drop_left' long]
  rw [typeWord_fits word some_word fits sheet]
  refine ⟨laid.rows, ?_, ?_, ?_⟩
  · simp only [laid.current, kept, behind, List.append_assoc]
  · exact List.append_ne_nil_of_left_ne_nil some_word _
  · rw [List.forall_mem_append]
    exact ⟨ink, fun c member => laid.ink c (List.mem_of_mem_drop member)⟩

theorem laid_typeWords (front body : QString) (long : front.length = 2) (words : List QString)
    (filled : ∀ word ∈ words, word ≠ []) (fits : ∀ word ∈ words, 2 + word.length ≤ width)
    (ink : ∀ word ∈ words, ∀ c ∈ word, Ink c) (sheet : Sheet Char) (laid : Laid front sheet body) :
    ∃ last, Laid front (words.foldl (typeWord width) sheet) last := by
  induction words generalizing sheet body with
  | nil => exact ⟨body, laid⟩
  | cons word words ih =>
    obtain ⟨some_word, filled⟩ := List.forall_mem_cons.mp filled
    obtain ⟨first, fits⟩ := List.forall_mem_cons.mp fits
    obtain ⟨solid, ink⟩ := List.forall_mem_cons.mp ink
    exact ih _ filled fits ink _ (laid_typeWord front body word long some_word first solid sheet laid)

/-- The words of such a row: behind a first word of one character there is a blank. -/
theorem words_laid (first body : QString) (ink : ∀ c ∈ first, Ink c) (filled : body ≠ []) (solid : ∀ c ∈ body, Ink c) :
    Text.words QChar.isSpace (lead first ++ body) =
      match first with
      | [] => [body]
      | [a] => [[a], body]
      | a :: b :: _ => [a :: b :: body] := by
  have alone := Text.words_solid body filled solid
  have blank : QChar.isSpace ' ' = true := by decide
  rcases first with _ | ⟨a, _ | ⟨b, rest⟩⟩
  · have twice : lead [] ++ body = [' '] ++ ' ' :: body := rfl
    rw [twice, Text.words_append_cons [' '] body ' ' blank, alone]
    rfl
  · have gap : lead [a] ++ body = [a] ++ ' ' :: body := rfl
    rw [gap, Text.words_append_cons [a] body ' ' blank, alone, Text.words_solid [a] (by simp) ink]
    rfl
  · have whole : lead (a :: b :: rest) ++ body = a :: b :: body := rfl
    rw [whole]
    apply Text.words_solid _ (by simp)
    simp only [List.forall_mem_cons] at ink ⊢
    exact ⟨ink.1, ink.2.1, solid⟩

/-! ## What is recorded -/

def filled {α : Type*} (words : List (List α)) : List (List α) := words.filter fun word => !word.isEmpty

/-- Words with a blank between neighbours. -/
def line (words : List QString) : QString := [' '].intercalate (filled words)

/-- The first word fits in the row, and behind it there is at most one more, in columns of its own. -/
def Fits {α : Type*} (width : Int) (first : List α) (later : List (List α)) : Prop :=
  first.length ≤ width ∧ (later = [] ∨ ∃ word, later = [word] ∧ first.length ≤ 1 ∧ 2 + word.length ≤ width)

theorem blank_not_mem (text : QString) (ink : ∀ c ∈ text, Ink c) : ' ' ∉ text := by
  intro member
  exact absurd (ink ' ' member) (by unfold Ink; decide)

theorem put_fits (first : QString) (short : first.length ≤ width) :
    first.foldl (put width ' ') {} = { current := first, column := first.length } := by
  rw [foldl_put_fits width ' ' first {} (by simpa using short), foldl_stamp ' ' first {} (Nat.zero_le _)]
  simp

theorem reported_row (row : QString) (inked : ∃ c ∈ row, Ink c) : reported [row] = [simplified row] := by
  simp [reported, simplified_ne_nil row inked]

theorem reported_first (first : QString) (ink : ∀ c ∈ first, Ink c) :
    reported [first] = [line [first]].filter fun line => !line.isEmpty := by
  by_cases empty : first = []
  · rw [empty]
    rfl
  · have whole : simplified first = first := Text.simplify_solid ' ' first empty ink
    simp [reported, whole, line, filled, empty]

variable (first : QString) (words : List QString)

theorem fits_of_simplified (ink : ∀ c ∈ first, Ink c) (solid : ∀ word ∈ words, ∀ c ∈ word, Ink c)
    (some_words : ∀ word ∈ words, word ≠ []) (later : words ≠ []) (body : QString) (some_body : body ≠ [])
    (inked : ∀ c ∈ body, Ink c) (same : simplified (lead first ++ body) = line (first :: words)) :
    first.length ≤ 1 ∧ words.length = 1 := by
  have row := words_laid first body ink some_body inked
  have all : filled words = words := by
    apply List.filter_eq_self.mpr
    simpa using some_words
  have expected : (line (first :: words)).count ' ' = (filled (first :: words)).length - 1 := by
    apply Text.count_intercalate
    intro word member
    apply blank_not_mem
    rcases List.mem_cons.mp (List.mem_filter.mp member).1 with rfl | inside
    · exact ink
    · exact solid word inside
  have some_later := List.length_pos_of_ne_nil later
  rw [← same, simplified, Text.simplify, row] at expected
  rcases first with _ | ⟨a, _ | ⟨b, rest⟩⟩
  · have shown : filled ([] :: words) = words := all
    rw [shown] at expected
    simp only [List.intercalate_singleton, List.count_eq_zero.mpr (blank_not_mem body inked)] at expected
    exact ⟨Nat.zero_le 1, by omega⟩
  · have shown : filled ([a] :: words) = [a] :: words := congrArg ([a] :: ·) all
    rw [shown] at expected
    have gaps : ([' '].intercalate [[a], body]).count ' ' = 1 := by
      apply Text.count_intercalate
      simp only [List.forall_mem_cons, List.not_mem_nil, false_imp_iff, implies_true, and_true]
      exact ⟨blank_not_mem [a] ink, blank_not_mem body inked⟩
    simp only [gaps, List.length_cons] at expected
    exact ⟨le_refl 1, by omega⟩
  · have shown : filled ((a :: b :: rest) :: words) = (a :: b :: rest) :: words := congrArg ((a :: b :: rest) :: ·) all
    have whole : ' ' ∉ a :: b :: body := by
      apply blank_not_mem
      simp only [List.forall_mem_cons] at ink ⊢
      exact ⟨ink.1, ink.2.1, inked⟩
    rw [shown] at expected
    simp only [List.intercalate_singleton, List.count_eq_zero.mpr whole, List.length_cons] at expected
    omega

theorem simplified_of_fits (ink : ∀ c ∈ first, Ink c) (word : QString) (some_word : word ≠ [])
    (solid : ∀ c ∈ word, Ink c) (short : first.length ≤ 1) :
    simplified (lead first ++ word) = line [first, word] := by
  have row := words_laid first word ink some_word solid
  rw [simplified, Text.simplify, row]
  rcases first with _ | ⟨a, _ | ⟨b, rest⟩⟩
  · simp [line, filled, some_word]
  · simp [line, filled, some_word]
  · simp at short

theorem reported_single_iff (ink : ∀ c ∈ first, Ink c) (solid : ∀ word ∈ words, ∀ c ∈ word, Ink c)
    (some_words : ∀ word ∈ words, word ≠ []) (short : first.length ≤ width)
    (fits : ∀ word ∈ words, 2 + word.length ≤ width) :
    reported (words.foldl (typeWord width) (first.foldl (put width ' ') {})).contents =
      ([line (first :: words)].filter fun line => !line.isEmpty) ↔ Fits width first words := by
  rw [put_fits first short]
  cases words with
  | nil => exact iff_of_true (reported_first first ink) ⟨by exact_mod_cast short, .inl rfl⟩
  | cons word words =>
    obtain ⟨some_word, some_later⟩ := List.forall_mem_cons.mp some_words
    obtain ⟨room, rooms⟩ := List.forall_mem_cons.mp fits
    obtain ⟨inked, later⟩ := List.forall_mem_cons.mp solid
    have start : Laid (lead first) (typeWord width { current := first, column := first.length } word)
        (word ++ first.drop (2 + word.length)) := by
      rw [typeWord_fits word some_word room]
      refine ⟨rfl, List.append_assoc _ _ _, List.append_ne_nil_of_left_ne_nil some_word _, ?_⟩
      rw [List.forall_mem_append]
      exact ⟨inked, fun c member => ink c (List.mem_of_mem_drop member)⟩
    refine ⟨?_, ?_⟩
    · intro same
      obtain ⟨body, laid⟩ :=
        laid_typeWords (lead first) _ (lead_length first) words some_later rooms later _ start
      obtain ⟨c, member⟩ := List.exists_mem_of_ne_nil body laid.filled
      have row : ∃ c ∈ lead first ++ body, Ink c := ⟨c, List.mem_append_right _ member, laid.ink c member⟩
      rw [List.foldl_cons, Sheet.contents, laid.rows, laid.current, List.nil_append, reported_row _ row] at same
      have equal : simplified (lead first ++ body) = line (first :: word :: words) := by
        have inside : simplified (lead first ++ body) ∈ [line (first :: word :: words)].filter fun line => !line.isEmpty := by
          rw [← same]
          exact List.mem_singleton_self _
        exact List.mem_singleton.mp (List.mem_filter.mp inside).1
      obtain ⟨single, count⟩ := fits_of_simplified first (word :: words) ink solid some_words (List.cons_ne_nil _ _)
        body laid.filled laid.ink equal
      have none : words = [] := List.length_eq_zero_iff.mp (Nat.succ.inj count)
      exact ⟨by exact_mod_cast short, .inr ⟨word, by rw [none], single, by exact_mod_cast room⟩⟩
    · intro given
      obtain ⟨other, single, narrow, -⟩ := given.2.resolve_left (List.cons_ne_nil _ _)
      obtain ⟨rfl, rfl⟩ := List.cons.inj single
      have behind : first.drop (2 + word.length) = [] := List.drop_of_length_le (by omega)
      rw [behind, List.append_nil] at start
      obtain ⟨c, member⟩ := List.exists_mem_of_ne_nil word some_word
      have row : ∃ c ∈ lead first ++ word, Ink c := ⟨c, List.mem_append_right _ member, inked c member⟩
      have shown := simplified_of_fits first ink word some_word inked narrow
      have filled := simplified_ne_nil _ row
      rw [List.foldl_cons, List.foldl_nil, Sheet.contents, start.rows, start.current, List.nil_append,
        reported_row _ row]
      rw [shown] at filled ⊢
      simp [filled]

theorem reported_iff (wide : 2 < width) (ink : ∀ c ∈ first, Ink c) (solid : ∀ word ∈ words, ∀ c ∈ word, Ink c)
    (some_words : ∀ word ∈ words, word ≠ []) :
    reported (words.foldl (typeWord width) (first.foldl (put width ' ') {})).contents =
      ([line (first :: words)].filter fun line => !line.isEmpty) ↔ Fits width first words := by
  have blank : Inked ({} : Sheet Char) := ⟨by simp, by simp⟩
  have inked := inked_typeWords wide words solid _ (inked_foldl wide first ink {} blank)
  -- a sheet that wrapped has two rows to report, and the line is one
  have wraps (wrapped : (words.foldl (typeWord width) (first.foldl (put width ' ') {})).rows ≠ []) :
      reported (words.foldl (typeWord width) (first.foldl (put width ' ') {})).contents ≠
        [line (first :: words)].filter fun line => !line.isEmpty := by
    intro same
    have several := reported_wrapped _ inked wrapped
    have single := List.length_filter_le (fun line : QString => !line.isEmpty) [line (first :: words)]
    rw [same] at several
    rw [List.length_singleton] at single
    omega
  by_cases short : first.length ≤ width
  · by_cases fits : ∀ word ∈ words, 2 + word.length ≤ width
    · exact reported_single_iff first words ink solid some_words short fits
    · have long : ∃ word ∈ words, width < 2 + word.length := by simpa using fits
      refine iff_of_false (wraps (wrapped_of_long wide words _ long)) ?_
      rintro ⟨-, rfl | ⟨word, rfl, -, room⟩⟩
      · simp at long
      · obtain ⟨other, member, long⟩ := long
        rw [List.mem_singleton.mp member] at long
        omega
  · have grown := rows_lt_of_long width ' ' first {} (Nat.zero_le _) (by simpa using short)
    have wrapped := Nat.lt_of_lt_of_le grown (@rows_typeWords_le width words _)
    refine iff_of_false (wraps (List.ne_nil_of_length_pos wrapped)) ?_
    rintro ⟨room, -⟩
    exact short (by exact_mod_cast room)

theorem filled_map (words : List (List uchar)) :
    filled (words.map (List.map character)) = (filled words).map (List.map character) := by
  unfold filled
  rw [List.filter_map]
  congr 1
  apply List.filter_congr
  intro word _
  simp

theorem line_filled : line (first :: filled words) = line (first :: words) := by
  have again : filled (first :: filled words) = filled (first :: words) := by
    unfold filled
    rw [List.filter_cons, List.filter_cons, List.filter_filter]
    simp only [Bool.and_self]
  rw [line, again, line]

theorem fits_map (columns : Int) (first : List uchar) (later : List (List uchar)) :
    Fits columns (first.map character) (later.map (List.map character)) ↔ Fits columns first later := by
  unfold Fits
  rw [List.length_map, List.map_eq_nil_iff]
  refine and_congr_right fun _ => or_congr_right ⟨?_, ?_⟩
  · rintro ⟨word, single, short, room⟩
    obtain ⟨other, rfl, rfl⟩ := List.map_eq_singleton_iff.mp single
    exact ⟨other, rfl, short, by simpa using room⟩
  · rintro ⟨word, rfl, short, room⟩
    exact ⟨word.map character, rfl, short, by simpa using room⟩

theorem ink_character (c : uchar) (solid : Solid c) : Ink (character c) := by
  have all : ∀ c : uchar, 0x21 ≤ c ∧ c ≤ 0x7e → QChar.isSpace (character c) = false :=
    forall_uchar (by decide +kernel)
  exact all c solid

/-- After a reset, the spy reports the words as one line, with a blank between neighbours. -/
def KeepsWords (spy : QWoCmdSpy) (words : List (List uchar)) : Prop :=
  (process (reset spy) (tabbed words)).map (fun final => (output final).1) =
    some ([line (words.map (List.map character))].filter fun line => !line.isEmpty)

theorem output_tabbed (spy : QWoCmdSpy) (wide : 2 < width) (narrow : width ≤ fixCollumn)
    (columns : spy.vte.width = width) (height : spy.vte.height = 768) (first : List uchar) (rest : List (List uchar))
    (solid : ∀ word ∈ first :: rest, ∀ c ∈ word, Solid c) :
    (process (reset spy) (tabbed (first :: rest))).map (fun final => (output final).1) =
      some (reported (((filled rest).map (List.map character)).foldl (typeWord width)
        ((first.map character).foldl (put width ' ') {})).contents) := by
  have text : ∀ c ∈ tabbed (first :: rest), c = 0x09 ∨ Printable c := by
    apply Text.forall_mem_intercalate
    · intro c member
      exact .inl (List.mem_singleton.mp member)
    · exact fun word member c inside => .inr (solid_printable c (solid word member c inside))
  obtain ⟨final, processed, shown⟩ := processLoop_simulates (write width) (tabbed (first :: rest))
    (fun sheet spy c member => processByte_write wide narrow sheet spy c (text c member)) {} _
    (reset_shows spy (by omega) columns height)
  have contents := congrArg Sheet.contents
    (@tab_foldl_typeWord width (rest.map (List.map character)) ((first.map character).foldl (put width ' ') {}))
  rw [process, processed, Option.map_some, output_shows _ _ shown, write_tabbed first rest solid, ← filled_map]
  exact congrArg (fun rows => some (reported rows)) contents

theorem keepsWords_cons_iff (spy : QWoCmdSpy) (wide : 2 < width) (narrow : width ≤ fixCollumn)
    (columns : spy.vte.width = width) (height : spy.vte.height = 768) (first : List uchar) (rest : List (List uchar))
    (solid : ∀ word ∈ first :: rest, ∀ c ∈ word, Solid c) :
    KeepsWords spy (first :: rest) ↔ Fits width first (filled rest) := by
  have ink (word : List uchar) (member : word ∈ first :: rest) : ∀ c ∈ word.map character, Ink c := by
    intro c inside
    obtain ⟨code, listed, rfl⟩ := List.mem_map.mp inside
    exact ink_character code (solid word member code listed)
  have later : ∀ word ∈ (filled rest).map (List.map character), word ≠ [] ∧ ∀ c ∈ word, Ink c := by
    intro word member
    obtain ⟨text, listed, rfl⟩ := List.mem_map.mp member
    obtain ⟨inside, some_text⟩ := List.mem_filter.mp listed
    refine ⟨?_, ink text (List.mem_cons_of_mem first inside)⟩
    simpa using some_text
  have compared := reported_iff (first.map character) ((filled rest).map (List.map character)) wide
    (ink first List.mem_cons_self) (fun word member => (later word member).2) (fun word member => (later word member).1)
  rw [fits_map, ← filled_map, line_filled, filled_map] at compared
  rw [KeepsWords, output_tabbed spy wide narrow columns height first rest solid, Option.some.injEq, List.map_cons,
    compared]

/-- Words that are joined by tabs are recorded if and only if at most one follows the first, which
leaves the columns from the tab stop on to it. -/
theorem keepsWords_iff (spy : QWoCmdSpy) (reachable : Reachable spy) (words : List (List uchar))
    (solid : ∀ word ∈ words, ∀ c ∈ word, 0x21 ≤ c ∧ c ≤ 0x7e) :
    KeepsWords spy words ↔ ∀ first rest, words = first :: rest → Fits spy.vte.width first (filled rest) := by
  have usual := reachable_usual spy reachable
  obtain ⟨width, wide, narrow, columns⟩ : ∃ width : Nat, 2 < width ∧ width ≤ fixCollumn ∧ spy.vte.width = width := by
    rcases usual.width with columns | columns | columns
    · exact ⟨1024, by decide, by decide, columns⟩
    · exact ⟨80, by decide, by decide, columns⟩
    · exact ⟨132, by decide, by decide, columns⟩
  cases words with
  | nil =>
    have shown := reset_shows spy (by omega) columns usual.height
    refine iff_of_true ?_ (fun first rest empty => by cases empty)
    exact congrArg some (output_shows _ _ shown)
  | cons first rest =>
    rw [keepsWords_cons_iff spy wide narrow columns usual.height first rest solid, columns]
    refine ⟨?_, fun fits => fits first rest rfl⟩
    intro fits other others same
    obtain ⟨rfl, rfl⟩ := List.cons.inj same
    exact fits

theorem keepsWords_iff_pair : Reachable fresh ∧ KeepsWords fresh [[byte 'a'], [], "bcd".toList.map byte] := by
  refine ⟨.constructed, (keepsWords_iff fresh .constructed _ (by decide)).mpr ?_⟩
  intro first rest same
  obtain ⟨rfl, rfl⟩ := List.cons.inj same
  exact ⟨by decide, .inr ⟨"bcd".toList.map byte, by decide, by decide, by decide⟩⟩

/-- The second word is written over the last character of the first one. -/
theorem words_overwritten : ¬ KeepsWords fresh ["abc".toList.map byte, "def".toList.map byte] := by
  have solid : ∀ word ∈ ["abc".toList.map byte, "def".toList.map byte], ∀ c ∈ word, 0x21 ≤ c ∧ c ≤ 0x7e := by decide
  rw [keepsWords_cons_iff fresh (by decide) (le_refl fixCollumn) rfl rfl _ _ solid]
  rintro ⟨-, none | ⟨word, -, short, -⟩⟩
  · exact absurd none (by decide)
  · exact absurd short (by decide)

end Woterm.Terminal.Tabs
