import Mathlib.Algebra.Order.BigOperators.Group.List
import Woterm.Qt

/-!
`QString::arg`: all place markers with the lowest number are replaced. A marker is `%` with one or two digits
behind it, and `%L` asks for the form of the user's locale. Nothing protects the text that a first `arg` has put
in from the second one.
-/

namespace Woterm.Qt.Arg
open Woterm.Lib Woterm.Qt Woterm.Qt.QString

/-- What `arg` takes from Unicode, where digits are not only those of ASCII, and from the user's locale. -/
structure QLocale where
  digitValue : Char → Option Nat
  ascii : ∀ c : Char, c.toNat < 128 → digitValue c = if c.isDigit then some (c.toNat - 48) else none
  number : Int32 → QString
  plain : ∀ n, '%' ∉ number n

inductive Piece where
  | letter (c : Char)
  | marker (text : QString) (place : Nat) (localized : Bool)
deriving DecidableEq, Repr

variable (locale : QLocale)

/-- The number at the front of a text, of two digits at most, and how many these are. -/
def placeAt : QString → Option (Nat × Nat)
  | [] => none
  | c :: rest => (locale.digitValue c).map fun first =>
    match rest.head?.bind locale.digitValue with
    | some second => (10 * first + second, 2)
    | none => (first, 1)

/-- The marker that a `%` in front of this text makes: its number, its size behind the `%` and whether it has an `L`. -/
def markerAt (text : QString) : Option (Nat × Nat × Bool) :=
  if text.head? = some 'L' then (placeAt locale text.tail).map fun found => (found.1, found.2 + 1, true)
  else (placeAt locale text).map fun found => (found.1, found.2, false)

/-- The text cut into letters and markers, after some letters that belong to a marker already found. -/
def pieces : Nat → QString → List Piece
  | _, [] => []
  | skip + 1, _ :: rest => pieces skip rest
  | 0, c :: rest =>
    if c = '%' then
      match markerAt locale rest with
      | some (place, size, localized) => .marker (c :: rest.take size) place localized :: pieces size rest
      | none => .letter c :: pieces 0 rest
    else .letter c :: pieces 0 rest

def Piece.place : Piece → Option Nat
  | .letter _ => none
  | .marker _ place _ => some place

/-- The numbers of the markers of a text. -/
def places (text : QString) : List Nat := (pieces locale 0 text).filterMap Piece.place

/-- A piece with its marker replaced, if that has the lowest number. -/
def Piece.filled (lowest : Option Nat) (arg larg : QString) : Piece → QString
  | .letter c => [c]
  | .marker text place localized => if some place = lowest then if localized then larg else arg else text

def replaceArgEscapes (text arg larg : QString) : QString :=
  (pieces locale 0 text).flatMap (Piece.filled (places locale text).min? arg larg)

/-- `arg(const QString &)`. -/
def argText (text arg : QString) : QString := replaceArgEscapes locale text arg arg

/-- `arg(int)`. -/
def argInt (text : QString) (n : Int32) : QString := replaceArgEscapes locale text (number n) (locale.number n)

/-! ## Letters that end a marker -/

theorem placeAt_append (text rest : QString) (c : Char) (plain : locale.digitValue c = none) :
    placeAt locale (text ++ c :: rest) = placeAt locale text := by
  cases text with
  | nil => simp [placeAt, plain]
  | cons first text =>
    cases text with
    | nil => simp [placeAt, plain]
    | cons second text => rfl

theorem markerAt_append (text rest : QString) (c : Char) (plain : locale.digitValue c = none) (other : c ≠ 'L') :
    markerAt locale (text ++ c :: rest) = markerAt locale text := by
  unfold markerAt
  cases text with
  | nil => simp [other, placeAt, plain]
  | cons first text =>
    rw [List.cons_append, List.head?_cons, List.head?_cons, List.tail_cons, List.tail_cons,
      placeAt_append locale text rest c plain, ← List.cons_append, placeAt_append locale (first :: text) rest c plain]

theorem placeAt_size (text : QString) (place size : Nat) (found : placeAt locale text = some (place, size)) :
    size ≤ text.length := by
  cases text with
  | nil => cases found
  | cons c rest =>
    simp only [placeAt, Option.map_eq_some_iff] at found
    obtain ⟨first, _, same⟩ := found
    cases rest with
    | nil =>
      simp only [List.head?_nil, Option.bind_none, Prod.mk.injEq] at same
      simp [← same.2]
    | cons next rest =>
      have two : size ≤ 2 := by
        split at same <;> (have size_eq := (Prod.mk.inj same).2; omega)
      simp only [List.length_cons]
      omega

theorem markerAt_size (text : QString) (place size : Nat) (localized : Bool)
    (found : markerAt locale text = some (place, size, localized)) : size ≤ text.length := by
  unfold markerAt at found
  split at found
  · obtain ⟨⟨p, n⟩, known, same⟩ := Option.map_eq_some_iff.mp found
    obtain ⟨rfl, rfl, rfl⟩ := same
    cases text with
    | nil => cases known
    | cons c rest => exact Nat.succ_le_succ (placeAt_size locale rest p n known)
  · obtain ⟨⟨p, n⟩, known, same⟩ := Option.map_eq_some_iff.mp found
    obtain ⟨rfl, rfl, rfl⟩ := same
    exact placeAt_size locale text p n known

theorem pieces_append (text rest : QString) (c : Char) (plain : locale.digitValue c = none) (other : c ≠ 'L')
    (letter : c ≠ '%') (skip : Nat) (inside : skip ≤ text.length) :
    pieces locale skip (text ++ c :: rest) = pieces locale skip text ++ .letter c :: pieces locale 0 rest := by
  induction text generalizing skip with
  | nil =>
    obtain rfl := Nat.le_zero.mp inside
    simp [pieces, letter]
  | cons first text ih =>
    cases skip with
    | succ skip => exact ih skip (Nat.le_of_succ_le_succ inside)
    | zero =>
      rw [List.cons_append, pieces, pieces, markerAt_append locale text rest c plain other]
      split
      · split
        · rename_i place size localized found
          have size_le := markerAt_size locale text place size localized found
          rw [List.take_append_of_le_length size_le, ih size size_le, List.cons_append]
        · rw [ih 0 (Nat.zero_le _), List.cons_append]
      · rw [ih 0 (Nat.zero_le _), List.cons_append]

theorem flatMap_pieces (replace : Piece → QString) (text : QString) (skip : Nat)
    (kept : ∀ piece ∈ pieces locale skip text, replace piece = Piece.filled none [] [] piece) :
    (pieces locale skip text).flatMap replace = text.drop skip := by
  induction text generalizing skip with
  | nil => simp [pieces]
  | cons c text ih =>
    cases skip with
    | succ skip => exact ih skip kept
    | zero =>
      have walk (piece : Piece) (size : Nat) (cut : pieces locale 0 (c :: text) = piece :: pieces locale size text)
          (front : Piece.filled none [] [] piece = c :: text.take size) :
          (pieces locale 0 (c :: text)).flatMap replace = c :: text := by
        rw [cut] at kept ⊢
        rw [List.flatMap_cons, kept piece List.mem_cons_self, front,
          ih size fun piece member => kept piece (List.mem_cons_of_mem _ member), List.cons_append,
          List.take_append_drop]
      by_cases percent : c = '%'
      · cases found : markerAt locale text with
        | none => exact walk (.letter c) 0 (by rw [pieces, if_pos percent, found]) rfl
        | some marker =>
          exact walk (.marker (c :: text.take marker.2.1) marker.1 marker.2.2) marker.2.1
            (by rw [pieces, if_pos percent, found]) rfl
      · exact walk (.letter c) 0 (by rw [pieces, if_neg percent]) rfl

theorem percent_mem_marker (text : QString) (skip : Nat) (marked : QString) (place : Nat) (localized : Bool)
    (member : .marker marked place localized ∈ pieces locale skip text) : '%' ∈ marked := by
  fun_induction pieces locale skip text with
  | case1 => cases member
  | case2 skip c rest ih => exact ih member
  | case3 rest found size local' known ih =>
    rcases List.mem_cons.mp member with same | later
    · obtain ⟨rfl, _, _⟩ := Piece.marker.inj same
      exact List.mem_cons_self
    · exact ih later
  | case4 rest none ih =>
    rcases List.mem_cons.mp member with same | later
    · cases same
    · exact ih later
  | case5 c rest other ih =>
    rcases List.mem_cons.mp member with same | later
    · cases same
    · exact ih later

/-- Replaced markers take their `%` with them. -/
theorem count_replaced (text arg larg : QString) (lowest : Nat) (marked : lowest ∈ places locale text)
    (plain : '%' ∉ arg) (plainLocal : '%' ∉ larg) :
    ((pieces locale 0 text).flatMap (Piece.filled (some lowest) arg larg)).count '%' < text.count '%' := by
  have whole := flatMap_pieces locale _ text 0 fun _ _ => rfl
  rw [List.drop_zero] at whole
  have none_left (localized : Bool) : (if localized then larg else arg).count '%' = 0 := by
    cases localized
    · exact List.count_eq_zero.mpr plain
    · exact List.count_eq_zero.mpr plainLocal
  have less (piece : Piece) :
      (piece.filled (some lowest) arg larg).count '%' ≤ (piece.filled none [] []).count '%' := by
    cases piece with
    | letter c => exact Nat.le_refl _
    | marker marked place localized =>
      simp only [Piece.filled]
      split
      · rw [none_left]
        exact Nat.zero_le _
      · exact Nat.le_refl _
  calc ((pieces locale 0 text).flatMap (Piece.filled (some lowest) arg larg)).count '%'
      = ((pieces locale 0 text).map fun piece => (piece.filled (some lowest) arg larg).count '%').sum :=
        List.count_flatMap
    _ < ((pieces locale 0 text).map fun piece => (piece.filled none [] []).count '%').sum := by
        obtain ⟨piece, member, same⟩ := List.mem_filterMap.mp marked
        refine List.sum_lt_sum _ _ (fun piece _ => less piece) ⟨piece, member, ?_⟩
        cases piece with
        | letter c => cases same
        | marker found place localized =>
          obtain rfl := Option.some.inj same
          have percent := percent_mem_marker locale text 0 found place localized member
          simp only [Piece.filled, if_true, none_left]
          exact List.count_pos_iff.mpr percent
    _ = ((pieces locale 0 text).flatMap (Piece.filled none [] [])).count '%' := List.count_flatMap.symm
    _ = text.count '%' := by rw [whole]

/-! ## The two markers of `%1-%2` -/

/-- A text whose markers the second `arg` of `%1-%2` passes over. -/
def Unmarked (text : QString) : Prop := ∀ place ∈ places locale text, 2 < place

theorem ascii_none (c : Char) (low : c.toNat < 128) (other : c.isDigit = false) : locale.digitValue c = none := by
  rw [locale.ascii c low, other]
  rfl

variable (name : QString) (n : Int32)

theorem argText_dash : argText locale "%1-%2".toList name = name ++ "-%2".toList := by
  have one : locale.digitValue '1' = some 1 := locale.ascii '1' (by decide)
  have two : locale.digitValue '2' = some 2 := locale.ascii '2' (by decide)
  have dash : locale.digitValue '-' = none := ascii_none locale '-' (by decide) (by decide)
  have cut : pieces locale 0 "%1-%2".toList =
      [.marker "%1".toList 1 false, .letter '-', .marker "%2".toList 2 false] := by
    simp [pieces, markerAt, placeAt, one, two, dash]
  have numbers : places locale "%1-%2".toList = [1, 2] := by
    rw [places, cut]
    rfl
  rw [argText, replaceArgEscapes, numbers, cut]
  simp [Piece.filled]

theorem pieces_dash :
    pieces locale 0 (name ++ "-%2".toList) = pieces locale 0 name ++ [.letter '-', .marker "%2".toList 2 false] := by
  have two : locale.digitValue '2' = some 2 := locale.ascii '2' (by decide)
  have dash : locale.digitValue '-' = none := ascii_none locale '-' (by decide) (by decide)
  have tail : pieces locale 0 "%2".toList = [.marker "%2".toList 2 false] := by
    simp [pieces, markerAt, placeAt, two]
  have apart := pieces_append locale name "%2".toList '-' dash (by decide) (by decide) 0 (Nat.zero_le _)
  rw [tail] at apart
  exact apart

theorem places_dash : places locale (name ++ "-%2".toList) = places locale name ++ [2] := by
  rw [places, pieces_dash, List.filterMap_append]
  rfl

theorem argInt_dash :
    argInt locale (name ++ "-%2".toList) n =
      (pieces locale 0 name).flatMap (Piece.filled (places locale name ++ [2]).min? (number n) (locale.number n)) ++
        '-' :: Piece.filled (places locale name ++ [2]).min? (number n) (locale.number n)
          (.marker "%2".toList 2 false) := by
  rw [argInt, replaceArgEscapes, places_dash, pieces_dash, List.flatMap_append]
  simp [Piece.filled]

theorem argInt_unmarked (unmarked : Unmarked locale name) :
    argInt locale (name ++ "-%2".toList) n = name ++ '-' :: number n := by
  have lowest : (places locale name ++ [2]).min? = some 2 := by
    refine List.min?_eq_some_iff.mpr ⟨by simp, fun place member => ?_⟩
    rcases List.mem_append.mp member with inside | last
    · exact Nat.le_of_lt (unmarked place inside)
    · exact Nat.le_of_eq (List.mem_singleton.mp last).symm
  have kept (piece : Piece) (member : piece ∈ pieces locale 0 name) :
      piece.filled (some 2) (number n) (locale.number n) = piece.filled none [] [] := by
    cases piece with
    | letter c => rfl
    | marker text place localized =>
      have large := unmarked place (List.mem_filterMap.mpr ⟨_, member, rfl⟩)
      simp [Piece.filled, Nat.ne_of_gt large]
  rw [argInt_dash, lowest, flatMap_pieces locale _ name 0 kept]
  rfl

theorem percent_not_mem_number : '%' ∉ number n := by
  intro member
  rcases number_chars n '%' member with digit | dash
  · exact absurd digit (by decide)
  · exact absurd dash (by decide)

theorem marker_ne_digits (front name digits : QString) (some_digit : digits ≠ []) (no_percent : '%' ∉ digits) :
    front ++ '-' :: "%2".toList ≠ name ++ '-' :: digits := by
  intro same
  obtain ⟨first, last, rfl⟩ : ∃ first last, digits = first ++ [last] :=
    ⟨_, _, (List.dropLast_append_getLast some_digit).symm⟩
  have split : front ++ '-' :: "%2".toList = front ++ ['-'] ++ ['%'] ++ ['2'] := by simp
  rw [split, ← List.cons_append, ← List.append_assoc] at same
  have ends : (name ++ '-' :: first).getLast? = some '%' := by
    rw [← (List.append_inj' same rfl).1, List.getLast?_concat]
  rw [List.getLast?_append_cons] at ends
  rcases List.mem_cons.mp (List.mem_of_getLast? ends) with dash | inside
  · exact absurd dash (by decide)
  · exact no_percent (List.mem_append_left _ inside)

/-- The name of an earlier `arg` that has a marker is changed, or the marker of the number is left as it is. -/
theorem argInt_marked (marked : ¬ Unmarked locale name) (k : Nat) :
    argInt locale (name ++ "-%2".toList) n ≠ name ++ '-' :: Nat.toDigits 10 k := by
  have digit (c : Char) (member : c ∈ Nat.toDigits 10 k) : c.isDigit = true :=
    Nat.isDigit_of_mem_toDigits (by decide) (by decide) member
  have no_percent : '%' ∉ Nat.toDigits 10 k := fun member => absurd (digit '%' member) (by decide)
  obtain ⟨lowest, found⟩ : ∃ lowest, (places locale name ++ [2]).min? = some lowest := by
    refine Option.isSome_iff_exists.mp ?_
    simp
  obtain ⟨member, least⟩ := List.min?_eq_some_iff.mp found
  have lowest_mem : lowest ∈ places locale name := by
    rcases List.mem_append.mp member with inside | last
    · exact inside
    · obtain rfl := List.mem_singleton.mp last
      simp only [Unmarked, not_forall, not_lt] at marked
      obtain ⟨place, inside, small⟩ := marked
      rwa [Nat.le_antisymm (least place (List.mem_append_left _ inside)) small]
  intro same
  rw [argInt_dash, found] at same
  by_cases two : lowest = 2
  · -- both numbers are put in, so that a `%` of the name is missing
    obtain rfl := two
    have counted := congrArg (List.count '%') same
    have fewer := count_replaced locale name (number n) (locale.number n) 2 lowest_mem
      (percent_not_mem_number n) (locale.plain n)
    have numbers : (number n).count '%' = 0 := List.count_eq_zero.mpr (percent_not_mem_number n)
    have none_left : (Nat.toDigits 10 k).count '%' = 0 := List.count_eq_zero.mpr no_percent
    simp [Piece.filled, List.count_append, numbers, none_left] at counted
    omega
  · -- the marker stands at the end, where the digits should be
    have kept : Piece.filled (some lowest) (number n) (locale.number n) (.marker "%2".toList 2 false) =
        "%2".toList := by
      simp [Piece.filled, Ne.symm two]
    rw [kept] at same
    exact marker_ne_digits _ name (Nat.toDigits 10 k) Nat.toDigits_ne_nil no_percent same

end Woterm.Qt.Arg
