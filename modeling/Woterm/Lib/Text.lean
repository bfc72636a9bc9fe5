import Mathlib.Data.List.DropRight
import Mathlib.Data.List.TakeWhile

/-!
Plain text over an arbitrary alphabet: trimming, lines with their terminator, and
blank-separated words. What counts as a blank is a parameter throughout.
-/

namespace Woterm.Lib.Text

variable {α : Type*} {blank : α → Bool}

/-- What holds of all characters of a text is decided along the text, also over a finite alphabet. -/
instance (priority := 10000) decidableForallMem (holds : α → Prop) [DecidablePred holds] (text : List α) :
    Decidable (∀ a, a ∈ text → holds a) :=
  List.decidableBAll holds text

instance (priority := 10000) decidableForallMemOption (holds : α → Prop) [DecidablePred holds] (a : Option α) :
    Decidable (∀ b, b ∈ a → holds b) :=
  Option.decidableForallMem a

/-- Up to a limit all is good, or there is a first character that is not, or one too many. -/
theorem exists_stop (good : α → Bool) (limit : Nat) (text : List α) :
    (text.length ≤ limit ∧ ∀ a ∈ text, good a = true) ∨ ∃ front a back, text = front ++ a :: back ∧
      front.length ≤ limit ∧ (∀ a ∈ front, good a = true) ∧ (good a = false ∨ front.length = limit) := by
  induction text generalizing limit with
  | nil => exact .inl ⟨Nat.zero_le _, by simp⟩
  | cons a text ih =>
    cases first : good a with
    | false => exact .inr ⟨[], a, text, rfl, Nat.zero_le _, by simp, .inl first⟩
    | true =>
      cases limit with
      | zero => exact .inr ⟨[], a, text, rfl, Nat.le_refl 0, by simp, .inr rfl⟩
      | succ limit =>
        rcases ih limit with ⟨short, all⟩ | ⟨front, other, back, rfl, short, all, stop⟩
        · exact .inl ⟨Nat.succ_le_succ short, List.forall_mem_cons.mpr ⟨first, all⟩⟩
        · refine .inr ⟨a :: front, other, back, rfl, Nat.succ_le_succ short, List.forall_mem_cons.mpr ⟨first, all⟩, ?_⟩
          exact stop.imp_right (congrArg Nat.succ)

/-- Leading and trailing blanks removed. -/
def trim (blank : α → Bool) (text : List α) : List α :=
  (text.dropWhile blank).rdropWhile blank

/-- No blank at either end. -/
structure Trimmed (blank : α → Bool) (text : List α) : Prop where
  first : ∀ a ∈ text.head?, blank a = false
  last : ∀ a ∈ text.getLast?, blank a = false

instance (text : List α) : Decidable (Trimmed blank text) :=
  decidable_of_iff ((∀ a ∈ text.head?, blank a = false) ∧ ∀ a ∈ text.getLast?, blank a = false)
    ⟨fun ends => ⟨ends.1, ends.2⟩, fun ends => ⟨ends.first, ends.last⟩⟩

theorem Trimmed.nil : Trimmed blank ([] : List α) := ⟨by simp, by simp⟩

variable (separator : α) (text : List α) (a : α)

theorem Trimmed.of_forall (solid : ∀ a ∈ text, blank a = false) : Trimmed blank text :=
  ⟨fun a member => solid a (List.mem_of_mem_head? member),
    fun a member => solid a (List.mem_of_mem_getLast? member)⟩

theorem dropWhile_eq_self (first : ∀ a ∈ text.head?, blank a = false) : text.dropWhile blank = text := by
  cases text with
  | nil => rfl
  | cons a text => rw [List.dropWhile_cons_of_neg (by simp [first a rfl])]

theorem rdropWhile_eq_self (last : ∀ a ∈ text.getLast?, blank a = false) : text.rdropWhile blank = text := by
  rw [List.rdropWhile_eq_self_iff]
  intro nonempty
  have known := last _ (List.getLast?_eq_some_getLast nonempty)
  simp [known]

theorem rdropWhile_append (front text : List α) :
    (front ++ text).rdropWhile blank =
      if text.rdropWhile blank = [] then front.rdropWhile blank else front ++ text.rdropWhile blank := by
  induction text using List.reverseRecOn with
  | nil => simp
  | append_singleton text a ih =>
    rw [← List.append_assoc]
    by_cases known : blank a = true
    · rw [List.rdropWhile_concat_pos _ _ _ known, List.rdropWhile_concat_pos _ _ _ known, ih]
    · rw [List.rdropWhile_concat_neg _ _ _ known, List.rdropWhile_concat_neg _ _ _ known]
      simp

theorem trim_eq_self (trimmed : Trimmed blank text) : trim blank text = text := by
  rw [trim, dropWhile_eq_self text trimmed.first, rdropWhile_eq_self text trimmed.last]

theorem trimmed_trim : Trimmed blank (trim blank text) := by
  refine ⟨?_, ?_⟩
  · intro a member
    have front : trim blank text <+: text.dropWhile blank := List.rdropWhile_prefix _ _
    obtain ⟨rest, same⟩ := front
    cases kept : trim blank text with
    | nil => simp [kept] at member
    | cons b more =>
      rw [kept] at member same
      have head : a = b := by simpa using member.symm
      have start : text.dropWhile blank ≠ [] := by rw [← same]; simp
      have first := List.head_dropWhile_not blank start
      simp only [← same, List.cons_append, List.head_cons] at first
      rw [head, first]
  · intro a member
    obtain ⟨nonempty, same⟩ := List.mem_getLast?_eq_getLast member
    rw [same]
    have last := List.rdropWhile_last_not blank (text.dropWhile blank) nonempty
    simpa [trim] using last

theorem trim_blank_append (front text : List α) (blanks : ∀ a ∈ front, blank a = true) :
    trim blank (front ++ text) = trim blank text := by
  rw [trim, List.dropWhile_append_of_pos blanks, trim]

theorem Trimmed.prepend (front text : List α) (start : blank a = false) (nonempty : text ≠ [])
    (trimmed : Trimmed blank text) : Trimmed blank (a :: (front ++ text)) := by
  refine ⟨?_, ?_⟩
  · intro b member
    have same : a = b := by simpa using member
    rw [← same, start]
  · intro b member
    apply trimmed.last
    rw [← List.cons_append, List.getLast?_append] at member
    cases known : text.getLast? with
    | none => exact absurd (List.getLast?_eq_none_iff.mp known) nonempty
    | some c => simpa [known] using member

theorem head_trim (text : List α) (solid : blank a = false) : (trim blank (a :: text)).head? = some a := by
  have whole : (a :: text).dropWhile blank = [a] ++ text := List.dropWhile_cons_of_neg (by simp [solid])
  have single : [a].rdropWhile blank = [a] := List.rdropWhile_concat_neg _ [] a (by simp [solid])
  rw [trim, whole, rdropWhile_append, single]
  split <;> rfl

section
variable {β : Type*} {empty : β → Bool} {code : α → List β}

theorem dropWhile_flatMap (text : List α) (blanks : ∀ a, blank a = true → ∀ b ∈ code a, empty b = true)
    (solids : ∀ a, blank a = false → code a ≠ [] ∧ ∀ b ∈ code a, empty b = false) :
    (text.flatMap code).dropWhile empty = (text.dropWhile blank).flatMap code := by
  induction text with
  | nil => rfl
  | cons a text ih =>
    rw [List.flatMap_cons]
    cases known : blank a with
    | true => rw [List.dropWhile_append_of_pos (blanks a known), ih, List.dropWhile_cons_of_pos known]
    | false =>
      obtain ⟨nonempty, solid⟩ := solids a known
      obtain ⟨b, rest, shape⟩ := List.exists_cons_of_ne_nil nonempty
      rw [List.dropWhile_cons_of_neg (by simp [known]), List.flatMap_cons, shape, List.cons_append,
        List.dropWhile_cons_of_neg (by simp [solid b (by simp [shape])])]

/-- A code for characters in which blanks stay blank and nothing else gets blank can be trimmed before or after. -/
theorem trim_flatMap (text : List α) (blanks : ∀ a, blank a = true → ∀ b ∈ code a, empty b = true)
    (solids : ∀ a, blank a = false → code a ≠ [] ∧ ∀ b ∈ code a, empty b = false) :
    trim empty (text.flatMap code) = (trim blank text).flatMap code := by
  have back := dropWhile_flatMap (text.dropWhile blank).reverse
    (fun a known b member => blanks a known b (List.mem_reverse.mp member))
    fun a known => ⟨by simpa using (solids a known).1, fun b member => (solids a known).2 b (List.mem_reverse.mp member)⟩
  rw [trim, trim, dropWhile_flatMap text blanks solids, List.rdropWhile, List.rdropWhile, List.reverse_flatMap]
  exact (congrArg List.reverse back).trans (by rw [List.reverse_flatMap]; simp [Function.comp_def])

end

theorem mem_of_mem_trim (member : a ∈ trim blank text) : a ∈ text := by
  have inside : a ∈ text.dropWhile blank := (List.rdropWhile_prefix _ _).subset member
  exact (List.dropWhile_suffix _).subset inside

theorem takeWhile_append_stop {keep : α → Bool} (front : List α) (a : α) (after : List α) (stop : keep a = false) :
    (front ++ a :: after).takeWhile keep = front.takeWhile keep := by
  induction front with
  | nil => rw [List.nil_append, List.takeWhile_cons_of_neg (by simp [stop]), List.takeWhile_nil]
  | cons b front ih => rw [List.cons_append, List.takeWhile_cons, List.takeWhile_cons, ih]

theorem rtakeWhile_cons (keep : α → Bool) (a : α) (text : List α) :
    (a :: text).rtakeWhile keep = if ∀ b ∈ a :: text, keep b = true then a :: text else text.rtakeWhile keep := by
  have run : (a :: text).rtakeWhile keep = ((text.reverse ++ [a]).takeWhile keep).reverse := by
    rw [List.rtakeWhile, List.reverse_cons]
  by_cases later : ∀ b ∈ text, keep b = true
  · have all : ∀ b ∈ text.reverse, keep b = true := fun b member => later b (List.mem_reverse.mp member)
    rw [run, List.takeWhile_append_of_pos all]
    by_cases first : keep a = true
    · have every : ∀ b ∈ a :: text, keep b = true := by simpa [first] using later
      rw [List.takeWhile_cons_of_pos first, if_pos every]
      simp
    · rw [List.takeWhile_cons_of_neg first, if_neg fun every => first (every a List.mem_cons_self), List.rtakeWhile,
        List.takeWhile_eq_self_iff.mpr all, List.append_nil]
  · rw [if_neg fun every => later fun b member => every b (List.mem_cons_of_mem _ member), run, List.rtakeWhile,
      List.takeWhile_append, if_neg]
    intro whole
    apply later
    intro b member
    exact List.takeWhile_eq_self_iff.mp ((List.takeWhile_prefix _).eq_of_length whole) b (List.mem_reverse.mpr member)

theorem idxOf?_append_cons [DecidableEq α] (front back : List α) (a : α) (absent : a ∉ front) :
    (front ++ a :: back).idxOf? a = some front.length := by
  induction front with
  | nil => simp [List.idxOf?_cons]
  | cons first front ih =>
    rw [List.mem_cons, not_or] at absent
    have other : (first == a) = false := by simpa using Ne.symm absent.1
    rw [List.cons_append, List.idxOf?_cons, other, ih absent.2]
    rfl

/-- Every line followed by the terminator. -/
def unlines (stop : α) (lines : List (List α)) : List α := lines.flatMap (· ++ [stop])

theorem not_mem_unlines (a stop : α) (lines : List (List α)) (other : a ≠ stop) (free : ∀ line ∈ lines, a ∉ line) :
    a ∉ unlines stop lines := by
  intro member
  obtain ⟨line, inside, at_line⟩ := List.mem_flatMap.mp member
  rcases List.mem_append.mp at_line with within | last
  · exact free line inside within
  · exact other (List.mem_singleton.mp last)

theorem splitOn_unlines [DecidableEq α] (stop : α) (lines : List (List α))
    (single : ∀ line ∈ lines, stop ∉ line) : (unlines stop lines).splitOn stop = lines ++ [[]] := by
  induction lines with
  | nil => rfl
  | cons line lines ih =>
    have shape : unlines stop (line :: lines) = line ++ stop :: unlines stop lines := by
      simp [unlines]
    rw [shape, List.splitOn_append_cons_self_of_not_mem (single line (by simp)),
      ih (fun other member => single other (by simp [member])), List.cons_append]

theorem of_mem_splitOn [DecidableEq α] (stop : α) (text part : List α)
    (member : part ∈ text.splitOn stop) : stop ∉ part ∧ part ⊆ text := by
  induction text generalizing part with
  | nil =>
    have same : part = [] := by simpa using member
    simp [same]
  | cons a text ih =>
    rw [List.splitOn_cons_eq_if_modifyHead] at member
    split at member
    · rcases List.mem_cons.mp member with rfl | later
      · simp
      · exact ⟨(ih part later).1, List.subset_cons_of_subset a (ih part later).2⟩
    · rename_i different
      cases parts : text.splitOn stop with
      | nil => exact absurd parts (List.splitOn_ne_nil stop text)
      | cons first rest =>
        rw [parts] at member ih
        rcases List.mem_cons.mp member with rfl | later
        · obtain ⟨free, inside⟩ := ih first (by simp)
          have other : stop ≠ a := fun same => different (by simp [same])
          exact ⟨by simp [other, free], List.cons_subset_cons a inside⟩
        · obtain ⟨free, inside⟩ := ih part (by simp [later])
          exact ⟨free, List.subset_cons_of_subset a inside⟩

theorem trim_cons_blank (text : List α) (known : blank a = true) : trim blank (a :: text) = trim blank text :=
  trim_blank_append [a] text (by simp [known])

theorem trim_concat_blank (known : blank a = true) : trim blank (text ++ [a]) = trim blank text := by
  rw [trim, trim, List.dropWhile_append]
  split
  · rename_i empty
    rw [List.isEmpty_iff.mp empty]
    simp [known]
  · rw [List.rdropWhile_concat_pos _ _ _ known]

theorem splitOn_concat [DecidableEq α] (stop : α) (text : List α) (a : α) (other : a ≠ stop) :
    ∃ front last, text.splitOn stop = front ++ [last] ∧ (text ++ [a]).splitOn stop = front ++ [last ++ [a]] := by
  induction text with
  | nil => exact ⟨[], [], by simp, by simp [List.splitOn_cons_eq_if_modifyHead, other]⟩
  | cons b text ih =>
    obtain ⟨front, last, short, long⟩ := ih
    rw [List.cons_append, List.splitOn_cons_eq_if_modifyHead, List.splitOn_cons_eq_if_modifyHead, short, long]
    split
    · exact ⟨[] :: front, last, rfl, rfl⟩
    · cases front with
      | nil => exact ⟨[], b :: last, rfl, rfl⟩
      | cons first front => exact ⟨(b :: first) :: front, last, rfl, rfl⟩

section
variable [DecidableEq α] (stop : α) (word : List α) (nonempty : word ≠ [])
include nonempty

theorem mem_splitOn_dropWhile (text : List α) :
    word ∈ ((text.dropWhile blank).splitOn stop).map (trim blank) ↔
      word ∈ (text.splitOn stop).map (trim blank) := by
  induction text with
  | nil => rfl
  | cons a text ih =>
    by_cases known : blank a = true
    · rw [List.dropWhile_cons_of_pos known, ih, List.splitOn_cons_eq_if_modifyHead]
      split
      · simp [nonempty, trim]
      · cases parts : text.splitOn stop with
        | nil => exact absurd parts (List.splitOn_ne_nil stop text)
        | cons first rest => simp [trim_cons_blank a first known]
    · rw [List.dropWhile_cons_of_neg known]

theorem mem_splitOn_rdropWhile (text : List α) :
    word ∈ ((text.rdropWhile blank).splitOn stop).map (trim blank) ↔
      word ∈ (text.splitOn stop).map (trim blank) := by
  induction text using List.reverseRecOn with
  | nil => rfl
  | append_singleton text a ih =>
    by_cases known : blank a = true
    · rw [List.rdropWhile_concat_pos _ _ _ known, ih]
      by_cases same : a = stop
      · have parts : (text ++ [a]).splitOn stop = text.splitOn stop ++ [[]] := by
          rw [same]
          exact List.splitOnP_append_cons text [] (by simp)
        simp [parts, nonempty, trim]
      · obtain ⟨front, last, short, long⟩ := splitOn_concat stop text a same
        simp [short, long, trim_concat_blank last a known]
    · rw [List.rdropWhile_concat_neg _ _ _ known]

/-- The trimmed parts of a text are those of the trimmed text. -/
theorem mem_splitOn_trim (text : List α) :
    word ∈ ((trim blank text).splitOn stop).map (trim blank) ↔ word ∈ (text.splitOn stop).map (trim blank) :=
  (mem_splitOn_rdropWhile stop word nonempty _).trans (mem_splitOn_dropWhile stop word nonempty text)

end

/-- The maximal runs of non-blank characters. -/
def words (blank : α → Bool) (text : List α) : List (List α) :=
  (text.splitOnP blank).filter (fun word => !word.isEmpty)

/-- The words with one separator between neighbours. -/
def simplify (blank : α → Bool) (separator : α) (text : List α) : List α :=
  [separator].intercalate (words blank text)

theorem words_append_blanks (text pad : List α) (blanks : ∀ a ∈ pad, blank a = true) :
    words blank (text ++ pad) = words blank text := by
  induction pad generalizing text with
  | nil => simp
  | cons a pad ih =>
    have later := ih [] (fun b member => blanks b (by simp [member]))
    rw [words, List.splitOnP_append_cons _ _ (blanks a (by simp)), List.filter_append]
    simp only [words, List.nil_append] at later ⊢
    rw [later]
    simp

theorem words_append_cons (front text : List α) (a : α) (known : blank a = true) :
    words blank (front ++ a :: text) = words blank front ++ words blank text := by
  rw [words, List.splitOnP_append_cons _ _ known, List.filter_append]
  rfl

theorem words_solid (nonempty : text ≠ []) (solid : ∀ a ∈ text, blank a = false) : words blank text = [text] := by
  have single : text.splitOnP blank = [text] := List.splitOnP_eq_singleton (by simpa using solid)
  simp [words, single, nonempty]

theorem words_ne_nil (member : a ∈ text) (solid : blank a = false) : words blank text ≠ [] := by
  induction text with
  | nil => cases member
  | cons b text ih =>
    cases known : blank b with
    | true =>
      have later : a ∈ text := by
        rcases List.mem_cons.mp member with rfl | later
        · rw [solid] at known
          cases known
        · exact later
      have same : words blank (b :: text) = words blank [] ++ words blank text := words_append_cons [] text b known
      rw [same]
      exact List.append_ne_nil_of_right_ne_nil _ (ih later)
    | false =>
      obtain ⟨word, others, split⟩ := List.exists_cons_of_ne_nil (List.splitOnP_ne_nil blank text)
      rw [words, List.splitOnP_cons_eq_if_modifyHead, split, known]
      simp

theorem simplify_append_blanks (text pad : List α) (blanks : ∀ a ∈ pad, blank a = true) :
    simplify blank separator (text ++ pad) = simplify blank separator text := by
  rw [simplify, words_append_blanks text pad blanks, simplify]

theorem simplify_solid (nonempty : text ≠ []) (solid : ∀ a ∈ text, blank a = false) :
    simplify blank separator text = text := by
  rw [simplify, words_solid text nonempty solid, List.intercalate_singleton]

theorem simplify_ne_nil (member : a ∈ text) (solid : blank a = false) : simplify blank separator text ≠ [] := by
  obtain ⟨word, others, split⟩ := List.exists_cons_of_ne_nil (words_ne_nil text a member solid)
  have filled : word ≠ [] := by
    have listed : word ∈ words blank text := by
      rw [split]
      exact List.mem_cons_self
    simpa using (List.mem_filter.mp listed).2
  rw [simplify, split]
  cases others with
  | nil => rwa [List.intercalate_singleton]
  | cons second others =>
    rw [List.intercalate_cons_cons]
    simp

theorem intercalate_concat (separator : List α) (parts : List (List α)) (part : List α) :
    separator.intercalate (parts ++ [part]) =
      if parts = [] then part else separator.intercalate parts ++ separator ++ part := by
  induction parts with
  | nil => simp
  | cons first parts ih =>
    cases parts with
    | nil => simp
    | cons second parts =>
      rw [if_neg (List.cons_ne_nil _ _)] at ih ⊢
      rw [List.cons_append, List.cons_append, List.intercalate_cons_cons, ← List.cons_append, ih,
        List.intercalate_cons_cons]
      simp

theorem simplify_append_solid (text ending : List α) (nonempty : ending ≠ []) (solid : ∀ a ∈ ending, blank a = false) :
    ∃ front, simplify blank separator (text ++ ending) = front ++ ending := by
  have whole : text = text.rdropWhile (fun a => !blank a) ++ text.rtakeWhile (fun a => !blank a) := by
    rw [List.rdropWhile_append_rtakeWhile]
  have word : ∀ a ∈ text.rtakeWhile (fun a => !blank a) ++ ending, blank a = false := by
    intro a member
    rcases List.mem_append.mp member with inside | last
    · simpa using List.mem_rtakeWhile_imp inside
    · exact solid a last
  have last := words_solid _ (List.append_ne_nil_of_right_ne_nil _ nonempty) word
  rcases List.eq_nil_or_concat (text.rdropWhile fun a => !blank a) with none | ⟨front, a, some⟩
  · refine ⟨text.rtakeWhile fun a => !blank a, ?_⟩
    rw [simplify, whole, none, List.nil_append, List.rtakeWhile_idempotent, last, List.intercalate_singleton]
  · have known : blank a = true := by
      have stop := List.rdropWhile_last_not (fun a => !blank a) text (by rw [some]; simp)
      simpa [some] using stop
    rw [simplify, whole, some, List.concat_eq_append, List.append_assoc, List.append_assoc, List.singleton_append,
      words_append_cons _ _ _ known, last, intercalate_concat]
    split
    · exact ⟨_, rfl⟩
    · exact ⟨_, (List.append_assoc _ _ _).symm⟩

theorem simplify_append_word (separator a : α) (text word : List α) (some_word : words blank text ≠ [])
    (known : blank a = true) (nonempty : word ≠ []) (solid : ∀ a ∈ word, blank a = false) :
    simplify blank separator (text ++ a :: word) = simplify blank separator text ++ separator :: word := by
  rw [simplify, words_append_cons _ _ _ known, words_solid word nonempty solid, intercalate_concat, if_neg some_word,
    List.append_assoc, simplify]
  rfl

/-! ## Joining -/

theorem forall_mem_intercalate {P : α → Prop} (separator : List α) (parts : List (List α))
    (between : ∀ a ∈ separator, P a) (inside : ∀ part ∈ parts, ∀ a ∈ part, P a) :
    ∀ a ∈ separator.intercalate parts, P a := by
  induction parts with
  | nil => simp
  | cons first rest ih =>
    have start := inside first List.mem_cons_self
    have later := ih fun part member => inside part (List.mem_cons_of_mem first member)
    cases rest with
    | nil => rwa [List.intercalate_singleton]
    | cons second rest =>
      rw [List.intercalate_cons_cons, List.forall_mem_append, List.forall_mem_append]
      exact ⟨⟨start, between⟩, later⟩

theorem count_intercalate [DecidableEq α] (parts : List (List α)) (absent : ∀ part ∈ parts, separator ∉ part) :
    ([separator].intercalate parts).count separator = parts.length - 1 := by
  induction parts with
  | nil => rfl
  | cons first rest ih =>
    have start := List.count_eq_zero.mpr (absent first List.mem_cons_self)
    have later := ih fun part member => absent part (List.mem_cons_of_mem first member)
    cases rest with
    | nil => rw [List.intercalate_singleton, start, List.length_singleton]
    | cons second rest =>
      rw [List.intercalate_cons_cons, List.count_append, List.count_append, start, later, List.count_singleton_self]
      simp only [List.length_cons]
      omega

theorem trimmed_intercalate (separator : List α) (parts : List (List α)) (some_part : parts ≠ [])
    (words : ∀ part ∈ parts, part ≠ [] ∧ Trimmed blank part) :
    separator.intercalate parts ≠ [] ∧ Trimmed blank (separator.intercalate parts) := by
  induction parts with
  | nil => exact absurd rfl some_part
  | cons first rest ih =>
    obtain ⟨nonempty, trimmed⟩ := words first List.mem_cons_self
    cases rest with
    | nil =>
      rw [List.intercalate_singleton]
      exact ⟨nonempty, trimmed⟩
    | cons second rest =>
      obtain ⟨later, ends⟩ := ih (List.cons_ne_nil _ _) fun part member =>
        words part (List.mem_cons_of_mem first member)
      obtain ⟨a, front, rfl⟩ := List.exists_cons_of_ne_nil nonempty
      rw [List.intercalate_cons_cons, List.append_assoc, List.cons_append, ← List.append_assoc]
      exact ⟨List.cons_ne_nil _ _, Trimmed.prepend a _ _ (trimmed.first a rfl) later ends⟩

theorem length_intercalate_congr (first second : List α) (parts : List (List α))
    (same : first.length = second.length) :
    (first.intercalate parts).length = (second.intercalate parts).length := by
  induction parts with
  | nil => rfl
  | cons part parts ih =>
    cases parts with
    | nil => rfl
    | cons next parts => simp only [List.intercalate_cons_cons, List.length_append, ih, same]

end Woterm.Lib.Text
