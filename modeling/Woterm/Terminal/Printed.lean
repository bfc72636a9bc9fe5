import Woterm.Terminal.CmdSpy

/-!
What the spy shows in the end, told by the calls that the parser makes for the bytes. Rows are counted from the first
one that was on the screen, so that scrolling moves no character. Something is shown exactly when a call puts a
character that is not blank where no later call puts one.
-/

namespace Woterm.Terminal.Printed
open Woterm.Qt Woterm.Terminal.Data Woterm.Terminal.CmdSpy

/-! ## Calls and the places they write to -/

def isTitle : Event → Bool
  | .setWindowTitle _ => true
  | _ => false

/-- The parser behind a piece of output and the calls that it makes, up to a title. -/
def follow : List uchar → VTE → VTE × List Event
  | [], v => (v, [])
  | c :: rest, v =>
    let next := Vte.process frontend v c
    if next.events.any isTitle then (next, next.events)
    else ((follow rest next).1, next.events ++ (follow rest next).2)

/-- The calls for all pieces of output. -/
def calls : List (List uchar) → VTE → List Event
  | [], _ => []
  | piece :: pieces, v => (follow piece v).2 ++ calls pieces (follow piece v).1

/-- A row and a column. -/
abbrev Place := Nat × Nat

def scrolls : Event → Nat
  | .scrollUp _ _ n _ => n.toNat
  | _ => 0

/-- The character that a call puts, when the screen begins at row `top`. -/
def puts (top : Nat) : Event → List (Place × Char)
  | .putChar c _ cursor => [((top + cursor.y.toNat, cursor.x.toNat), qchar c)]
  | _ => []

def writes : Nat → List Event → List (Place × Char)
  | _, [] => []
  | top, event :: later => puts top event ++ writes (top + scrolls event) later

/-- Some call puts a character that is not blank where no later call puts one. -/
def Lasting (written : List (Place × Char)) : Prop :=
  ∃ front place c back, written = front ++ (place, c) :: back ∧ QChar.isSpace c = false ∧ ∀ d, (place, d) ∉ back

theorem writes_append (top : Nat) (first second : List Event) :
    writes top (first ++ second) = writes top first ++ writes (top + (first.map scrolls).sum) second := by
  induction first generalizing top with
  | nil => rfl
  | cons event later ih =>
    rw [List.cons_append, writes, writes, ih, List.append_assoc, List.map_cons, List.sum_cons, Nat.add_assoc]

/-! ## Writing to a sheet -/

def write (sheet : Place → Char) (written : List (Place × Char)) : Place → Char :=
  written.foldl (fun sheet put => Function.update sheet put.1 put.2) sheet

theorem write_untouched (sheet : Place → Char) (written : List (Place × Char)) (place : Place)
    (untouched : ∀ c, (place, c) ∉ written) : write sheet written place = sheet place := by
  induction written generalizing sheet with
  | nil => rfl
  | cons put later ih =>
    have other : place ≠ put.1 := fun same => untouched put.2 (by rw [same]; exact List.mem_cons_self)
    refine (ih _ fun c member => untouched c (List.mem_cons_of_mem put member)).trans ?_
    exact Function.update_of_ne other _ _

theorem last_write (written : List (Place × Char)) (place : Place) :
    (∀ c, (place, c) ∉ written) ∨
      ∃ front c back, written = front ++ (place, c) :: back ∧ ∀ d, (place, d) ∉ back := by
  induction written with
  | nil => exact .inl fun _ => List.not_mem_nil
  | cons put later ih =>
    rcases ih with untouched | ⟨front, c, back, rfl, last⟩
    · by_cases same : put.1 = place
      · exact .inr ⟨[], put.2, later, by rw [← same]; rfl, untouched⟩
      · refine .inl fun c member => (List.mem_cons.mp member).elim (fun here => same ?_) (untouched c)
        rw [← here]
    · exact .inr ⟨put :: front, c, back, rfl, last⟩

/-- On a blank sheet, what is visible was put there and stayed. -/
theorem visible_write_iff (written : List (Place × Char)) :
    (∃ place, QChar.isSpace (write (fun _ => ' ') written place) = false) ↔ Lasting written := by
  have stays (front back : List (Place × Char)) (place : Place) (c : Char) (last : ∀ d, (place, d) ∉ back) :
      write (fun _ => ' ') (front ++ (place, c) :: back) place = c := by
    rw [write, List.foldl_append, List.foldl_cons]
    exact (write_untouched _ back place last).trans (Function.update_self (β := fun _ => Char) place c _)
  constructor
  · rintro ⟨place, solid⟩
    rcases last_write written place with untouched | ⟨front, c, back, rfl, last⟩
    · rw [write_untouched _ _ _ untouched] at solid
      exact absurd solid (by decide)
    · rw [stays front back place c last] at solid
      exact ⟨front, place, c, back, rfl, solid, last⟩
  · rintro ⟨front, place, c, back, rfl, solid, last⟩
    refine ⟨place, ?_⟩
    rw [stays front back place c last]
    exact solid

/-! ## The rows of the spy as a sheet -/

def sheet (spy : QWoCmdSpy) (place : Place) : Char := ((spy.tops ++ spy.lines).getD place.1 []).getD place.2 ' '

theorem visible_sheet_iff (spy : QWoCmdSpy) :
    (∃ row ∈ spy.tops ++ spy.lines, ∃ c ∈ row, QChar.isSpace c = false) ↔
      ∃ place, QChar.isSpace (sheet spy place) = false := by
  constructor
  · rintro ⟨row, member, c, inside, solid⟩
    obtain ⟨y, found⟩ := List.mem_iff_getElem?.mp member
    obtain ⟨x, here⟩ := List.mem_iff_getElem?.mp inside
    refine ⟨(y, x), ?_⟩
    rw [sheet, List.getD_eq_getElem?_getD, List.getD_eq_getElem?_getD, found, Option.getD_some, here]
    exact solid
  · rintro ⟨⟨y, x⟩, solid⟩
    simp only [sheet, List.getD_eq_getElem?_getD] at solid
    cases found : (spy.tops ++ spy.lines)[y]? with
    | none => simp [found, QChar.isSpace] at solid
    | some row =>
      cases here : row[x]? with
      | none => simp [found, here, QChar.isSpace] at solid
      | some c =>
        simp only [found, here, Option.getD_some] at solid
        exact ⟨row, List.mem_of_getElem? found, c, List.mem_of_getElem? here, solid⟩

theorem getD_emptyLine (x : Nat) : emptyLine.getD x ' ' = ' ' := by
  rw [emptyLine, List.getD_eq_getElem?_getD, List.getElem?_replicate]
  split <;> rfl

theorem sheet_reset (spy : QWoCmdSpy) : sheet (reset spy) = fun _ => ' ' := by
  funext place
  simp only [sheet, reset, List.nil_append, List.getD_eq_getElem?_getD (l := List.replicate _ _), List.getElem?_replicate]
  split
  · exact getD_emptyLine place.2
  · rfl

theorem getD_assign (row : QString) (x column : Nat) (c : Char) :
    (assign row x c).getD column ' ' = if column = x then c else row.getD column ' ' := by
  unfold assign
  simp only [List.getD_eq_getElem?_getD]
  split
  next inside =>
    rw [List.getElem?_set]
    split_ifs with same other
    · rfl
    · omega
    · omega
    · rfl
  next short =>
    rcases Nat.lt_trichotomy column x with left | rfl | right
    · rw [List.getElem?_append_left (by rw [List.length_append, List.length_replicate]; omega), if_neg (by omega),
        List.getElem?_append, List.getElem?_replicate]
      split_ifs with old
      · rfl
      · rw [List.getElem?_eq_none (by omega)]
        rfl
      · rw [List.getElem?_eq_none (by omega)]
    · have size : (row ++ List.replicate (column - row.length) ' ').length = column := by
        rw [List.length_append, List.length_replicate]
        omega
      rw [List.getElem?_append_right (by omega), size, if_pos rfl, Nat.sub_self]
      rfl
    · rw [List.getElem?_eq_none (by simp; omega), List.getElem?_eq_none (by omega), if_neg (by omega)]

/-! ## The spy writes what the calls say -/

/-- The rows have changed as some calls say. -/
structure Grown (spy next : QWoCmdSpy) (events : List Event) : Prop where
  cells : sheet next = write (sheet spy) (writes spy.tops.length events)
  rows : next.tops.length = spy.tops.length + (events.map scrolls).sum

theorem Grown.trans {first second third : QWoCmdSpy} {before after : List Event} (one : Grown first second before)
    (two : Grown second third after) : Grown first third (before ++ after) where
  cells := by
    rw [two.cells, one.cells, one.rows, writes_append, write, write, write, List.foldl_append]
  rows := by
    rw [two.rows, one.rows, List.map_append, List.sum_append, Nat.add_assoc]

theorem Grown.none (spy : QWoCmdSpy) : Grown spy spy [] := ⟨rfl, rfl⟩

theorem getD_concat_emptyLine (rows : List QString) (y x : Nat) :
    ((rows ++ [emptyLine]).getD y []).getD x ' ' = (rows.getD y []).getD x ' ' := by
  simp only [List.getD_eq_getElem?_getD (l := rows), List.getD_eq_getElem?_getD (l := _ ++ _), List.getElem?_append]
  split
  · rfl
  next below =>
    rw [List.getElem?_eq_none (Nat.not_lt.mp below)]
    cases y - rows.length with
    | zero => exact getD_emptyLine x
    | succ => rfl

theorem scrollUp_sheet (n : Nat) (spy next : QWoCmdSpy) (run : scrollUp n spy = some next) :
    sheet next = sheet spy ∧ next.tops.length = spy.tops.length + n ∧ next.stop = spy.stop := by
  induction n generalizing spy with
  | zero =>
    obtain rfl := Option.some.inj run
    exact ⟨rfl, rfl, rfl⟩
  | succ n ih =>
    unfold scrollUp at run
    split at run
    · cases run
    next first rest lines =>
      obtain ⟨cells, length, stop⟩ := ih _ run
      refine ⟨cells.trans ?_, ?_, stop⟩
      · -- the first row goes to the top, and a blank one comes below
        have rows : spy.tops ++ [first] ++ (rest ++ [emptyLine]) = spy.tops ++ spy.lines ++ [emptyLine] := by simp [lines]
        funext place
        rw [sheet, rows, getD_concat_emptyLine]
        rfl
      · rw [length, List.length_append, List.length_singleton]
        omega

theorem putChar_sheet (c : UInt32) (cursor : Cursor) (spy next : QWoCmdSpy) (run : putChar c cursor spy = some next) :
    sheet next = Function.update (sheet spy) (spy.tops.length + cursor.y.toNat, cursor.x.toNat) (qchar c) ∧
      next.tops = spy.tops ∧ next.stop = spy.stop := by
  unfold putChar at run
  split at run
  next inside =>
    obtain rfl := Option.some.inj run
    refine ⟨?_, rfl, rfl⟩
    funext ⟨y, x⟩
    simp only [sheet, Function.update_apply, Prod.mk.injEq, List.getD_eq_getElem?_getD (l := _ ++ _), List.getElem?_append]
    split
    next above => rw [if_neg (by omega)]
    next below =>
      by_cases here : y = spy.tops.length + cursor.y.toNat
      · have row : y - spy.tops.length = cursor.y.toNat := by omega
        rw [row, List.getElem?_modify_eq, List.getElem?_eq_getElem (by omega)]
        simp only [Option.map_eq_map, Option.map_some, Option.getD_some, getD_assign, here, true_and]
      · have other : cursor.y.toNat ≠ y - spy.tops.length := by omega
        rw [List.getElem?_modify_ne _ _ other, if_neg fun same => here same.1]
  next => cases run

theorem handle_grown (spy : QWoCmdSpy) (event : Event) (next : QWoCmdSpy) (run : handle spy event = some next) :
    Grown spy next [event] ∧ next.stop = (spy.stop || isTitle event) := by
  cases event with
  | putChar c w cursor =>
    obtain ⟨cells, tops, stop⟩ := putChar_sheet c cursor spy next run
    exact ⟨⟨cells, congrArg List.length tops⟩, stop.trans (Bool.or_false _).symm⟩
  | scrollUp y1 y2 n cursor =>
    obtain ⟨cells, length, stop⟩ := scrollUp_sheet n.toNat spy next run
    exact ⟨⟨cells, length⟩, stop.trans (Bool.or_false _).symm⟩
  | _ =>
    obtain rfl := Option.some.inj run
    exact ⟨⟨rfl, rfl⟩, by simp [isTitle]⟩

theorem foldlM_grown (events : List Event) (spy next : QWoCmdSpy) (run : events.foldlM handle spy = some next) :
    Grown spy next events ∧ next.stop = (spy.stop || events.any isTitle) := by
  induction events generalizing spy with
  | nil =>
    obtain rfl := Option.some.inj run
    exact ⟨.none spy, (Bool.or_false _).symm⟩
  | cons event later ih =>
    obtain ⟨middle, handled, rest⟩ := Option.bind_eq_some_iff.mp (List.foldlM_cons.symm.trans run)
    obtain ⟨first, stop⟩ := handle_grown spy event middle handled
    obtain ⟨second, last⟩ := ih middle rest
    exact ⟨first.trans second, by rw [last, stop, List.any_cons, Bool.or_assoc]⟩

theorem processLoop_grown (bytes : List uchar) (spy next : QWoCmdSpy) (going : spy.stop = false)
    (run : processLoop bytes spy = some next) :
    Grown spy next (follow bytes spy.vte).2 ∧ next.vte = (follow bytes spy.vte).1 := by
  induction bytes generalizing spy with
  | nil =>
    obtain rfl := Option.some.inj run
    exact ⟨.none spy, rfl⟩
  | cons c rest ih =>
    rw [processLoop, if_neg (by simp [going])] at run
    obtain ⟨middle, processed, later⟩ := Option.bind_eq_some_iff.mp run
    obtain ⟨⟨cells, rows⟩, stop⟩ := foldlM_grown _ _ middle processed
    have first : Grown spy middle (Vte.process frontend spy.vte c).events := ⟨cells, rows⟩
    have parser := processByte_vte spy c middle processed
    rw [follow]
    split
    next title =>
      rw [title, Bool.or_true] at stop
      have same : some middle = some next := by
        cases rest with
        | nil => exact later
        | cons => rwa [processLoop, if_pos stop] at later
      obtain rfl := Option.some.inj same
      exact ⟨first, parser⟩
    next silent =>
      have still : middle.stop = false := by simpa [going, silent] using stop
      obtain ⟨second, behind⟩ := ih middle still later
      rw [parser] at second behind
      exact ⟨first.trans second, behind⟩

theorem pieces_grown (pieces : List (List uchar)) (spy next : QWoCmdSpy) (run : pieces.foldlM process spy = some next) :
    Grown spy next (calls pieces spy.vte) := by
  induction pieces generalizing spy with
  | nil =>
    obtain rfl := Option.some.inj run
    exact .none spy
  | cons piece pieces ih =>
    obtain ⟨middle, processed, rest⟩ := Option.bind_eq_some_iff.mp (List.foldlM_cons.symm.trans run)
    obtain ⟨⟨cells, rows⟩, parser⟩ := processLoop_grown piece _ middle rfl processed
    have second := ih middle rest
    rw [parser] at second
    exact Grown.trans ⟨cells, rows⟩ second

/-- The spy shows something after a reset and some pieces of output exactly when a character that the parser puts for
them lasts. -/
theorem visible_iff_lasting (pieces : List (List uchar)) (spy next : QWoCmdSpy)
    (run : pieces.foldlM process (reset spy) = some next) :
    (∃ row ∈ next.tops ++ next.lines, ∃ c ∈ row, QChar.isSpace c = false) ↔
      Lasting (writes 0 (calls pieces (Vte.reset spy.vte))) := by
  have grown := (pieces_grown pieces (reset spy) next run).cells
  rw [visible_sheet_iff, grown, sheet_reset]
  exact visible_write_iff _

end Woterm.Terminal.Printed
