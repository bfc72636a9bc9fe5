import Woterm.Lib.Occurrence
import Woterm.Qt

/-!
`QWoSshProcess::isZmodemCommand`, which looks for the start of a Zmodem transfer in every piece of output that
it is given, one piece at a time.
-/

namespace Woterm.Zmodem
open Woterm.Qt Woterm.Lib
open Woterm.Lib.Occurrence (clear_or_first clear_of_absent)

/-- `'*' '*' CAN 'B' '0'`, what every hexadecimal header of the start begins with. -/
def header : QByteArray := [42, 42, 24, 66, 48]

/-- `data.data()[i]`: a NUL lies behind the bytes of the array, and nothing may be read behind it. -/
def charAt (data : QByteArray) (i : Nat) : Option UInt8 := (data ++ [0])[i]?

/-- Comparisons joined by `&&`: the first that fails is the last one made. -/
def matchesAt (data : QByteArray) : Nat → QByteArray → Option Bool
  | _, [] => some true
  | i, c :: rest => do
    let byte ← charAt data i
    if byte = c then matchesAt data (i + 1) rest else some false

def scan (data : QByteArray) : Nat → Nat → Option Int
  | 0, _ => some (-1)
  | rounds + 1, i => do
    if ← matchesAt data i header then
      let byte ← charAt data (i + 5)
      if byte = 49 then some 1 else if byte = 48 then some 0 else some (-1)
    else scan data rounds (i + 1)

def isZmodemCommand (isApp : Bool) (data : QByteArray) : Option Int :=
  if isApp || data.length < 6 then some (-1) else scan data (min data.length 300) 0

/-- The byte behind the header: `sz` sends `'0'`, `rz` sends `'1'`. -/
def digit (send : Bool) : UInt8 := if send then 49 else 48

def direction (send : Bool) : Int := if send then 1 else 0

structure Announcement where
  front : QByteArray
  send : Bool
  back : QByteArray
  once : Occurrence.Once header front (front ++ header ++ digit send :: back)

def Announcement.stream (announcement : Announcement) : QByteArray :=
  announcement.front ++ header ++ digit announcement.send :: announcement.back

/-- One piece gives the direction and no other gives any. -/
def Detected (send : Bool) (chunks : List QByteArray) : Prop :=
  ∃ before chunk after, chunks = before ++ chunk :: after ∧
    isZmodemCommand false chunk = some (direction send) ∧
    ∀ other ∈ before ++ after, isZmodemCommand false other = some (-1)

/-! ## The loop -/

variable (data : QByteArray)

theorem charAt_of_lt (i : Nat) (inside : i < data.length) : charAt data i = data[i]? :=
  List.getElem?_append_left inside

theorem charAt_length : charAt data data.length = some 0 := by
  rw [charAt, List.getElem?_append_right (Nat.le_refl _), Nat.sub_self]
  rfl

theorem matchesAt_eq (data pattern : QByteArray) (i : Nat) (inside : i ≤ data.length) (clean : (0 : UInt8) ∉ pattern) :
    matchesAt data i pattern = some (pattern.isPrefixOf (data.drop i)) := by
  induction pattern generalizing i with
  | nil => rfl
  | cons c rest ih =>
    rw [List.mem_cons, not_or] at clean
    rw [matchesAt]
    rcases Nat.lt_or_eq_of_le inside with before | rfl
    · rw [charAt_of_lt data i before, List.getElem?_eq_getElem before, Option.bind_eq_bind, Option.bind_some,
        List.drop_eq_getElem_cons before, List.isPrefixOf_cons_cons]
      by_cases same : data[i] = c
      · rw [if_pos same, ih (i + 1) before clean.2, same]
        simp
      · rw [if_neg same]
        simp [Ne.symm same]
    · rw [charAt_length, Option.bind_eq_bind, Option.bind_some, if_neg clean.1, List.drop_length]
      rfl

theorem scan_step (rounds i : Nat) (inside : i ≤ data.length) (absent : ¬ header <+: data.drop i) :
    scan data (rounds + 1) i = scan data rounds (i + 1) := by
  have unmatched : header.isPrefixOf (data.drop i) = false := by
    rw [← Bool.not_eq_true, List.isPrefixOf_iff_prefix]
    exact absent
  rw [scan, matchesAt_eq data header i inside (by decide), unmatched]
  rfl

/-- What the loop returns at a header: the byte behind it decides. -/
def answer (byte : UInt8) : Int := if byte = 49 then 1 else if byte = 48 then 0 else -1

theorem scan_found (rounds i : Nat) (before after : QByteArray) (here : before.length = i)
    (found : data = before ++ header ++ after) : scan data (rounds + 1) i = some (answer (after.headD 0)) := by
  have rest : data.drop i = header ++ after := by
    rw [found, ← here, List.append_assoc, List.drop_left]
  have inside : i ≤ data.length := by
    rw [found, ← here, List.length_append, List.length_append]
    omega
  have matched : header.isPrefixOf (data.drop i) = true := by
    rw [List.isPrefixOf_iff_prefix, rest]
    exact List.prefix_append header after
  have sixth : charAt data (i + 5) = some (after.headD 0) := by
    have shape : data ++ [0] = (before ++ header) ++ (after ++ [0]) := by rw [found, List.append_assoc _ after]
    have skipped : (before ++ header).length = i + 5 := by rw [List.length_append, here]; rfl
    rw [charAt, shape, ← skipped, List.getElem?_append_right (Nat.le_refl _), Nat.sub_self]
    cases after <;> rfl
  rw [scan, matchesAt_eq data header i inside (by decide), matched, Option.bind_eq_bind, Option.bind_some, if_pos rfl,
    sixth]
  simp only [answer, Option.bind_eq_bind, Option.bind_some]
  split
  · rfl
  · split <;> rfl

theorem scan_skip (rounds i skipped : Nat) (inside : i + skipped ≤ data.length)
    (absent : ∀ k, i ≤ k → k < i + skipped → ¬ header <+: data.drop k) :
    scan data (skipped + rounds) i = scan data rounds (i + skipped) := by
  induction skipped generalizing i with
  | zero => rw [Nat.zero_add, Nat.add_zero]
  | succ skipped ih =>
    rw [Nat.succ_add, scan_step data _ i (by omega) (absent i (Nat.le_refl i) (by omega)),
      ih (i + 1) (by omega) fun k after before => absent k (by omega) (by omega), Nat.succ_add_eq_add_succ]

abbrev Clear : QByteArray → Nat → Prop := Occurrence.Clear header

theorem scan_clear (skipped rounds : Nat) (inside : skipped ≤ data.length) (clear : Clear data skipped) :
    scan data (skipped + rounds) 0 = scan data rounds skipped := by
  rw [scan_skip data rounds 0 skipped (by omega) fun k _ before => clear k (by omega), Nat.zero_add]

theorem isZmodemCommand_clear (clear : Clear data (min data.length 300)) : isZmodemCommand false data = some (-1) := by
  unfold isZmodemCommand
  split
  · rfl
  · exact scan_clear data (min data.length 300) 0 (Nat.min_le_left _ _) clear

theorem isZmodemCommand_first (data before after : QByteArray) (found : data = before ++ header ++ after)
    (near : before.length < 300) (clear : Clear data before.length) :
    isZmodemCommand false data = some (answer (after.headD 0)) := by
  have length : data.length = before.length + 5 + after.length := by
    rw [found, List.length_append, List.length_append]
    rfl
  by_cases short : data.length < 6
  · have nothing : after = [] := List.length_eq_zero_iff.mp (by omega)
    rw [isZmodemCommand, Bool.false_or, if_pos (by simpa using short), nothing]
    rfl
  · obtain ⟨rounds, left⟩ : ∃ rounds, min data.length 300 = before.length + (rounds + 1) :=
      ⟨min data.length 300 - before.length - 1, by omega⟩
    rw [isZmodemCommand, Bool.false_or, if_neg (by simpa using short), left, scan_clear data _ _ (by omega) clear,
      scan_found data rounds before.length before after rfl found]

theorem answer_eq_direction (byte : UInt8) (send : Bool) : answer byte = direction send ↔ byte = digit send := by
  by_cases one : byte = 49
  · cases send <;> simp [answer, direction, digit, one]
  · by_cases zero : byte = 48
    · cases send <;> simp [answer, direction, digit, zero]
    · cases send <;> simp [answer, direction, digit, one, zero]

/-- A direction is only given for a header that lies in the piece and starts in its first 300 bytes. -/
theorem of_isZmodemCommand (send : Bool) (given : isZmodemCommand false data = some (direction send)) :
    ∃ before after, data = before ++ header ++ digit send :: after ∧ before.length < 300 := by
  have refused : some (-1 : Int) ≠ some (direction send) := by cases send <;> decide
  rcases clear_or_first header data (min data.length 300) (Nat.min_le_left _ _) with
    clear | ⟨before, after, found, near, clear⟩
  · rw [isZmodemCommand_clear data clear] at given
    exact absurd given refused
  · rw [isZmodemCommand_first data before after found (by omega) clear, Option.some_inj, answer_eq_direction] at given
    cases after with
    | nil => cases send <;> cases given
    | cons byte after =>
      obtain rfl : byte = digit send := given
      exact ⟨before, after, found, by omega⟩

/-! ## Pieces of a stream -/

variable (announcement : Announcement)

/-- However the stream is cut, its start is detected exactly when the header and the byte behind it lie in one
piece and start in the first 300 bytes of that piece. -/
theorem detected_iff (chunks : List QByteArray) (cut : chunks.flatten = announcement.stream) :
    Detected announcement.send chunks ↔
      ∃ chunk ∈ chunks, ∃ first rest, chunk = first ++ header ++ digit announcement.send :: rest ∧
        first.length < 300 := by
  refine ⟨?_, ?_⟩
  · rintro ⟨before, chunk, after, rfl, given, -⟩
    exact ⟨chunk, by simp, of_isZmodemCommand chunk announcement.send given⟩
  · rintro ⟨chunk, member, first, rest, found, near⟩
    obtain ⟨before, after, rfl⟩ := List.append_of_mem member
    refine ⟨before, chunk, after, rfl, ?_, ?_⟩
    · have clear := announcement.once.clear before after chunk first _ cut found
      rw [isZmodemCommand_first chunk first _ found near clear, Option.some_inj, answer_eq_direction]
      rfl
    · intro other elsewhere
      have absent := announcement.once.absent (by decide) before after chunk first _ cut found other elsewhere
      exact isZmodemCommand_clear other (clear_of_absent header other _ (Nat.min_le_left _ _) absent)

def bare : Announcement where
  front := []
  send := false
  back := []
  once before after same := by
    have lengths := congrArg List.length same
    simp only [List.length_append, List.length_cons, List.length_nil] at lengths
    match before with
    | [] => rfl
    | [first] => simp [header, digit] at same
    | first :: second :: more => simp [header] at lengths; omega

/-- What `sz` sends: `rz`, the header and more of its numbers. -/
def request : Announcement where
  front := [114, 122, 13]
  send := false
  back := [48, 48]
  once before after same := by
    have place : ∀ n ≤ 11, (([114, 122, 13] ++ header ++ [digit false, 48, 48]).drop n).take 5 = header → n = 3 := by
      decide
    have lengths := congrArg List.length same
    simp only [List.length_append, List.length_cons, List.length_nil] at lengths
    have there := place before.length (by omega)
    rw [same, List.append_assoc, List.drop_left] at there
    have length := there (List.take_left' rfl)
    rw [List.append_assoc, List.append_assoc] at same
    exact (List.append_inj_left same length.symm).symm

/-- In three pieces, of which the second holds all that counts. -/
theorem detected_pieces :
    [[114, 122], [13, 42, 42, 24, 66, 48, 48], [48, 48]].flatten = request.stream ∧
      Detected false [[114, 122], [13, 42, 42, 24, 66, 48, 48], [48, 48]] :=
  ⟨rfl, (detected_iff request [[114, 122], [13, 42, 42, 24, 66, 48, 48], [48, 48]] rfl).mpr
    ⟨[13, 42, 42, 24, 66, 48, 48], by simp, [13], [], rfl, by decide⟩⟩

/-- Cut in the middle, the same stream starts nothing. -/
theorem not_detected_cut :
    ([[42, 42, 24], [66, 48, 48]] : List QByteArray).flatten = bare.stream ∧
      ¬ Detected false [[42, 42, 24], [66, 48, 48]] ∧
      ([[42, 42, 24], [66, 48, 48]] : List QByteArray).map (isZmodemCommand false) = [some (-1), some (-1)] := by
  refine ⟨rfl, ?_, by decide⟩
  rintro ⟨before, chunk, after, pieces, given, -⟩
  have member : chunk ∈ [[42, 42, 24], [66, 48, 48]] := by rw [pieces]; simp
  have refused : ∀ chunk ∈ ([[42, 42, 24], [66, 48, 48]] : List QByteArray),
      isZmodemCommand false chunk ≠ some (direction false) := by decide
  exact refused chunk member given

end Woterm.Zmodem
