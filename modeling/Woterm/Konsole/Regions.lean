import Woterm.Konsole.Bounds

/-!
Lines that are inserted and deleted between the margins of a screen.
-/

namespace Woterm.Konsole.Screen
open Woterm.Lib

/-! ## The rows behind a step up or down -/

theorem getElem?_scrolledDown (s : Screen) («from» n : Nat) (few : «from» + n ≤ s.bottomMargin)
    (room : s.bottomMargin < s.image.length) (y : Nat) :
    (s.scrolledDown «from» n)[y]? =
      if «from» ≤ y ∧ y < «from» + n then s.image[y]?.map (s.blankLine 0x20)
      else if «from» + n ≤ y ∧ y ≤ s.bottomMargin then s.image[y - n]?
      else s.image[y]? := by
  rw [scrolledDown, Blocks.getElem?_changed, Blocks.getElem?_moved _ _ _ _ (by omega) (by omega)]
  split
  next blank => rw [if_neg (by omega)]
  next =>
    have same : («from» + n ≤ y ∧ y < «from» + n + (s.bottomMargin + 1 - («from» + n))) ↔
        «from» + n ≤ y ∧ y ≤ s.bottomMargin := by omega
    rw [if_congr same rfl rfl]
    split
    next shifted => rw [show y - («from» + n) + «from» = y - n by omega]
    next => rfl

theorem scrolledUp_blank (s : Screen) («from» n : Nat) (room : s.bottomMargin + 1 < s.image.length) {y : Nat}
    (blank : s.bottomMargin + 1 - n ≤ y ∧ y < s.bottomMargin + 1 - n + n) (inside : y ≤ s.bottomMargin) :
    ∃ line, (s.scrolledUp «from» n)[y]? = some (s.blankLine 0x20 line) := by
  have there : y < (Blocks.moved s.image «from» («from» + n) (s.bottomMargin + 2 - («from» + n))).length := by
    rw [Blocks.length_moved]
    omega
  have found : (s.scrolledUp «from» n)[y]? = _ := Blocks.getElem?_changed _ _ _ _ y
  rw [if_pos blank, List.getElem?_eq_getElem there] at found
  exact ⟨_, found⟩

theorem getElem?_scrolledUp (s : Screen) («from» n : Nat) (some_rows : 0 < n) (few : «from» + n ≤ s.bottomMargin + 1)
    (room : s.bottomMargin + 1 < s.image.length) {y : Nat} (kept : y + n ≤ s.bottomMargin ∨ s.bottomMargin < y) :
    (s.scrolledUp «from» n)[y]? = if «from» ≤ y ∧ y + n ≤ s.bottomMargin then s.image[y + n]? else s.image[y]? := by
  rw [scrolledUp, Blocks.getElem?_changed, if_neg (by omega), Blocks.getElem?_moved _ _ _ _ (by omega) (by omega)]
  by_cases within : «from» ≤ y ∧ y + n ≤ s.bottomMargin
  · rw [if_pos within, if_pos (by omega), show y - «from» + («from» + n) = y + n by omega]
  · rw [if_neg within, if_neg (by omega)]

/-! ## Lines -/

theorem orOne_pos (n : Nat) : 0 < orOne n := by
  unfold orOne
  split <;> omega

/-- A small screen with letters on it. -/
def letters : Screen where
  lines := 3
  columns := 2
  image := [
    { cells := [{ character := 97 }] }, { cells := [{ character := 98 }] }, { cells := [{ character := 99 }] }, {}]
  bottomMargin := 2
  tabStops := [false, false]

theorem letters_valid : letters.Valid :=
  ⟨by decide, by decide, by decide, by decide, by decide, by decide, by decide, trivial⟩

/-- Lines that are inserted and deleted again leave the rows as they were, besides those that were pushed out of the
region. -/
theorem insertLines_deleteLines {s : Screen} (valid : s.Valid) (n : Nat) (few : s.cuY + orOne n ≤ s.bottomMargin) :
    ∃ t, ((s.insertLines n).bind fun t => t.deleteLines n) = some t ∧
      (∀ y, y + orOne n ≤ s.bottomMargin ∨ s.bottomMargin < y → t.image[y]? = s.image[y]?) ∧
      ∀ y, s.bottomMargin < y + orOne n → y ≤ s.bottomMargin → ∃ line, t.image[y]? = some (s.blankLine 0x20 line) := by
  have image := valid.image
  have bottom := valid.bottom
  have some_rows := orOne_pos n
  obtain ⟨view, down⟩ := scrollDownFrom_eq s valid.positive s.cuY (orOne n) some_rows (by omega) (by omega)
  rw [Nat.min_eq_left (by omega)] at down
  have length : (s.scrolledDown s.cuY (orOne n)).length = s.lines + 1 := by
    rw [scrolledDown, Blocks.length_changed, Blocks.length_moved, image]
  generalize shown : s.repaint (s.scrolledDown s.cuY (orOne n)) view = d at down
  have rows : d.image = s.scrolledDown s.cuY (orOne n) := by rw [← shown]; rfl
  have margin : d.bottomMargin = s.bottomMargin := by rw [← shown]; rfl
  have cursor : d.cuY = s.cuY := by rw [← shown]; rfl
  have columns : d.columns = s.columns := by rw [← shown]; rfl
  have blank : d.blankLine 0x20 = s.blankLine 0x20 := by rw [← shown]; rfl
  have room : d.bottomMargin + 1 < d.image.length := by
    rw [margin, rows, length]
    omega
  obtain ⟨view', up⟩ := scrollUpFrom_eq d (by rw [columns]; exact valid.positive) d.cuY (orOne n) some_rows
    (by omega) room
  rw [Nat.min_eq_left (by omega)] at up
  refine ⟨d.repaint (d.scrolledUp d.cuY (orOne n)) view', ?_, fun y outside => ?_, fun y low high => ?_⟩
  · rw [insertLines, down, Option.bind_some]
    exact up
  · change (d.scrolledUp d.cuY (orOne n))[y]? = s.image[y]?
    rw [getElem?_scrolledUp d d.cuY (orOne n) some_rows (by omega) room (by omega), rows, margin, cursor]
    simp only [getElem?_scrolledDown s s.cuY (orOne n) few (by omega)]
    split
    next within => rw [if_neg (by omega), if_pos (by omega), Nat.add_sub_cancel]
    next => rw [if_neg (by omega), if_neg (by omega)]
  · rw [← blank]
    exact scrolledUp_blank d d.cuY (orOne n) room (by omega) (by omega)

theorem letters_insertLines_deleteLines :
    ∃ t, ((letters.insertLines 1).bind fun t => t.deleteLines 1) = some t ∧
      t.image[0]? = letters.image[0]? ∧ t.image[1]? = letters.image[1]? ∧
        ∃ line, t.image[2]? = some (letters.blankLine 0x20 line) := by
  obtain ⟨t, done, kept, blank⟩ := insertLines_deleteLines letters_valid 1 (by decide)
  exact ⟨t, done, kept 0 (by decide), kept 1 (by decide), blank 2 (by decide) (by decide)⟩

/-- However many lines are inserted, the row of the cursor stays between the margins: at last it is the bottom row. From
the bottom margin on, no text is moved. -/
theorem insertLines_row {s : Screen} (valid : s.Valid) (n : Nat) :
    ∃ t, s.insertLines n = some t ∧
      (s.cuY ≤ s.bottomMargin → t.image[min (s.cuY + orOne n) s.bottomMargin]?.map ImageLine.cells =
        s.image[s.cuY]?.map ImageLine.cells) ∧
      (s.bottomMargin ≤ s.cuY → t.image.map ImageLine.cells = s.image.map ImageLine.cells) := by
  have image := valid.image
  have bottom := valid.bottom
  have some_rows := orOne_pos n
  rcases Nat.lt_trichotomy s.cuY s.bottomMargin with above | last | below
  · obtain ⟨view, down⟩ := scrollDownFrom_eq s valid.positive s.cuY (orOne n) some_rows above (by omega)
    refine ⟨_, down, fun _ => ?_, fun below => by omega⟩
    change (s.scrolledDown s.cuY (min (orOne n) (s.bottomMargin - s.cuY)))[_]?.map _ = _
    rw [getElem?_scrolledDown s _ _ (by omega) (by omega), if_neg (by omega), if_pos (by omega),
      show min (s.cuY + orOne n) s.bottomMargin - min (orOne n) (s.bottomMargin - s.cuY) = s.cuY by omega]
  · obtain ⟨rows, view, down, same⟩ := scrollDownFrom_bottom s valid.columns (orOne n) (by omega)
    rw [insertLines, last]
    refine ⟨_, down, fun _ => ?_, fun _ => same⟩
    have cells := congrArg (·[s.bottomMargin]?) same
    simp only [List.getElem?_map] at cells
    rw [Nat.min_eq_right (by omega)]
    exact cells
  · refine ⟨_, if_pos (.inr below), fun above => by omega, fun _ => rfl⟩

theorem letters_insertLines :
    (∃ t, letters.insertLines 5 = some t ∧ t.image[2]?.map ImageLine.cells = some [{ character := 97 }]) ∧
      ∃ t, Screen.insertLines { letters with cuY := 2 } 5 = some t ∧
        t.image.map ImageLine.cells = letters.image.map ImageLine.cells := by
  obtain ⟨t, inserted, moved, _⟩ := insertLines_row letters_valid 5
  obtain ⟨u, again, _, still⟩ := insertLines_row (letters_valid.withCursor (x := 0) (y := 2) (by decide) (by decide)).valid 5
  exact ⟨⟨t, inserted, moved (by decide)⟩, u, again, still (by decide)⟩

end Woterm.Konsole.Screen
