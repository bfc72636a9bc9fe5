import Woterm.Konsole.Screen

/-!
No operation of a screen of two columns or more leaves its arrays. What an operation does to the rows is told as a list:
a block of rows is changed, or it is moved.
-/

namespace Woterm.Konsole.Screen
open Woterm.Lib Woterm.Konsole.History Woterm.Konsole.Width

/-! ## Rows that are cleared or moved -/

variable (s : Screen)

theorem loc_eq (x y : Nat) : s.loc x y = ((y * s.columns + x : Nat) : Int) := by
  simp [loc]

theorem loc_tdiv {x : Nat} (inside : x < s.columns) (y : Nat) : (s.loc x y).tdiv s.columns = y := by
  have positive : 0 < s.columns := Nat.lt_of_le_of_lt (Nat.zero_le x) inside
  rw [loc_eq, ← Int.ofNat_tdiv, Nat.mul_comm, Nat.mul_add_div positive, Nat.div_eq_of_lt inside, Nat.add_zero]

theorem loc_tmod {x : Nat} (inside : x < s.columns) (y : Nat) : (s.loc x y).tmod s.columns = x := by
  rw [loc_eq, ← Int.ofNat_tmod, Nat.mul_comm, Nat.mul_add_mod, Nat.mod_eq_of_lt inside]

theorem loc_columns (y : Nat) : s.loc s.columns y = s.loc 0 (y + 1 : Nat) := by
  simp [loc, Int.add_mul]

theorem clearImage_eq (loca loce : Int) (c : WChar) (start : 0 ≤ loca.tdiv s.columns)
    (top : loca.tdiv s.columns ≤ s.image.length) (bottom : loce.tdiv s.columns < s.image.length) :
    ∃ view, s.clearImage loca loce c = some (s.repaint (Blocks.changed s.image (loca.tdiv s.columns).toNat
      (loce.tdiv s.columns + 1 - loca.tdiv s.columns).toNat (s.clearedLine loca loce c)) view) := by
  have cleared := Blocks.foldlM_change s.image (loca.tdiv s.columns).toNat
    (loce.tdiv s.columns + 1 - loca.tdiv s.columns).toNat (s.clearedLine loca loce c) (by omega)
  exact ⟨_, congrArg (Option.bind · _) cleared⟩

theorem moveImage_eq (positive : 0 < s.columns) (dest source : Nat) (sourceEnd : Int) (count : Nat)
    (rows : (sourceEnd - s.loc 0 source).tdiv s.columns + 1 = count) (destInside : dest + count ≤ s.image.length)
    (sourceInside : source + count ≤ s.image.length) :
    ∃ view, s.moveImage (s.loc 0 dest) (s.loc 0 source) sourceEnd =
      some (s.repaint (Blocks.moved s.image dest source count) view) := by
  have order : s.loc 0 dest < s.loc 0 source ↔ dest < source := by
    rw [loc_eq, loc_eq]
    simp [positive]
  have copied : (if s.loc 0 dest < s.loc 0 source then List.range count else (List.range count).reverse).foldlM
      (fun image i => Blocks.copy image (dest + i) (source + i)) s.image =
      some (Blocks.moved s.image dest source count) := by
    split
    next upwards => exact Blocks.foldlM_copy_range _ _ _ _ (Nat.le_of_lt (order.mp upwards)) sourceInside
    next downwards =>
      exact Blocks.foldlM_copy_reverse _ _ _ _ (Nat.le_of_not_lt (mt order.mpr downwards)) destInside
  unfold moveImage
  simp only [loc_tdiv s positive, rows, Int.toNat_natCast, copied]
  exact ⟨_, rfl⟩

/-- A row that is cleared as a whole. -/
def blankLine (s : Screen) (c : WChar) (line : ImageLine) : ImageLine :=
  { cells := clearCells s.columns (s.clearCh c) 0 s.columns line.cells, property := 0 }

theorem clearedLine_rows (positive : 0 < s.columns) (first last : Nat) (c : WChar) :
    s.clearedLine (s.loc 0 first) (s.loc (s.columns - 1) last) c = fun _ => s.blankLine c := by
  have whole : ((s.columns - 1 : Nat) + 1 : Int).toNat = s.columns := by omega
  funext y line
  unfold clearedLine blankLine
  rw [loc_tmod s positive, loc_tmod s (Nat.sub_one_lt_of_lt positive), whole, Int.toNat_natCast, ite_self, ite_self]

theorem clearImage_rows (positive : 0 < s.columns) (first last : Nat) (c : WChar) (ordered : first ≤ last + 1)
    (inside : last < s.image.length) :
    ∃ view, s.clearImage (s.loc 0 first) (s.loc (s.columns - 1) last) c =
      some (s.repaint (Blocks.changed s.image first (last + 1 - first) fun _ => s.blankLine c) view) := by
  have top := loc_tdiv s positive first
  have bottom := loc_tdiv s (Nat.sub_one_lt_of_lt positive) last
  obtain ⟨view, cleared⟩ := clearImage_eq s (s.loc 0 first) (s.loc (s.columns - 1) last) c (by omega) (by omega) (by omega)
  rw [top, bottom, clearedLine_rows s positive, Int.toNat_natCast,
    show ((last : Int) + 1 - first).toNat = last + 1 - first by omega] at cleared
  exact ⟨view, cleared⟩

/-- The rows after `scrollUp`: those below come up, and blank ones are left at the bottom margin. -/
def scrolledUp (s : Screen) («from» n : Nat) : List ImageLine :=
  Blocks.changed (Blocks.moved s.image «from» («from» + n) (s.bottomMargin + 2 - («from» + n))) (s.bottomMargin + 1 - n) n
    fun _ => s.blankLine 0x20

theorem scrollUpFrom_eq (positive : 0 < s.columns) («from» n : Nat) (some_rows : 0 < n)
    (inside : «from» ≤ s.bottomMargin) (room : s.bottomMargin + 1 < s.image.length) :
    ∃ view, s.scrollUpFrom «from» n =
      some (s.repaint (s.scrolledUp «from» (min n (s.bottomMargin + 1 - «from»))) view) := by
  have count : (if «from» + n > s.bottomMargin then s.bottomMargin + 1 - «from» else n) =
      min n (s.bottomMargin + 1 - «from») := by
    split <;> omega
  generalize few : min n (s.bottomMargin + 1 - «from») = k at count
  have start : s.loc 0 ((s.bottomMargin : Int) - k + 1) = s.loc 0 (s.bottomMargin + 1 - k : Nat) := by
    congr 1
    omega
  have rows : (s.loc s.columns s.bottomMargin - s.loc 0 («from» + k : Nat)).tdiv s.columns + 1 =
      (s.bottomMargin + 2 - («from» + k) : Nat) := by
    have apart : s.loc s.columns s.bottomMargin - s.loc 0 («from» + k : Nat) =
        s.loc 0 (s.bottomMargin + 1 - («from» + k) : Nat) := by
      rw [loc_columns, loc_eq, loc_eq, loc_eq, Nat.sub_mul]
      have le := Nat.mul_le_mul_right s.columns (show «from» + k ≤ s.bottomMargin + 1 by omega)
      omega
    rw [apart, loc_tdiv s positive]
    omega
  obtain ⟨v₁, moved⟩ := moveImage_eq (s.repaint s.image (s.view.scrolled (-k))) positive «from» («from» + k)
    (s.loc s.columns s.bottomMargin) _ rows (show _ ≤ s.image.length by omega) (show _ ≤ s.image.length by omega)
  obtain ⟨v₂, cleared⟩ := clearImage_rows (s.repaint (Blocks.moved s.image «from» («from» + k) _) v₁) positive
    (s.bottomMargin + 1 - k) s.bottomMargin 0x20 (by omega) (show _ < (Blocks.moved _ _ _ _).length by simp; omega)
  have left : s.bottomMargin + 1 - (s.bottomMargin + 1 - k) = k := by omega
  refine ⟨v₂, ?_⟩
  unfold scrollUpFrom
  rw [if_neg (by omega)]
  simp only [count]
  refine (congrArg (Option.bind · _) moved).trans ?_
  change clearImage _ (s.loc 0 ((s.bottomMargin : Int) - k + 1)) (s.loc (s.columns - 1) s.bottomMargin) 0x20 = _
  rw [start]
  refine cleared.trans ?_
  rw [left]
  rfl

/-- The rows after `scrollDown`: those below the first ones go down, and blank ones are left there. -/
def scrolledDown (s : Screen) («from» n : Nat) : List ImageLine :=
  Blocks.changed (Blocks.moved s.image («from» + n) «from» (s.bottomMargin + 1 - («from» + n))) «from» n
    fun _ => s.blankLine 0x20

theorem scrollDownFrom_eq (positive : 0 < s.columns) («from» n : Nat) (some_rows : 0 < n)
    (inside : «from» < s.bottomMargin) (room : s.bottomMargin < s.image.length) :
    ∃ view, s.scrollDownFrom «from» n =
      some (s.repaint (s.scrolledDown «from» (min n (s.bottomMargin - «from»))) view) := by
  have count : (if «from» + n > s.bottomMargin then s.bottomMargin - «from» else n) =
      min n (s.bottomMargin - «from») := by
    split <;> omega
  generalize few : min n (s.bottomMargin - «from») = k at count
  have stop : s.loc (s.columns - 1) ((«from» : Int) + k - 1) = s.loc (s.columns - 1) («from» + k - 1 : Nat) := by
    congr 1
    omega
  have rows : (s.loc (s.columns - 1) ((s.bottomMargin : Int) - k) - s.loc 0 «from»).tdiv s.columns + 1 =
      (s.bottomMargin + 1 - («from» + k) : Nat) := by
    have apart : s.loc (s.columns - 1) ((s.bottomMargin : Int) - k) - s.loc 0 «from» =
        s.loc (s.columns - 1) (s.bottomMargin - («from» + k) : Nat) := by
      rw [show (s.bottomMargin : Int) - k = (s.bottomMargin - («from» + k) : Nat) + «from» by omega]
      simp only [loc, Int.add_mul]
      omega
    rw [apart, loc_tdiv s (Nat.sub_one_lt_of_lt positive)]
    omega
  obtain ⟨v₁, moved⟩ := moveImage_eq (s.repaint s.image (s.view.scrolled n)) positive («from» + k) «from»
    (s.loc (s.columns - 1) ((s.bottomMargin : Int) - k)) _ rows (show _ ≤ s.image.length by omega)
    (show _ ≤ s.image.length by omega)
  obtain ⟨v₂, cleared⟩ := clearImage_rows (s.repaint (Blocks.moved s.image («from» + k) «from» _) v₁) positive «from»
    («from» + k - 1) 0x20 (by omega) (show _ < (Blocks.moved _ _ _ _).length by simp; omega)
  have left : «from» + k - 1 + 1 - «from» = k := by omega
  refine ⟨v₂, ?_⟩
  unfold scrollDownFrom
  rw [if_neg (by omega)]
  simp only [count]
  refine (congrArg (Option.bind · _) moved).trans ?_
  change clearImage _ (s.loc 0 «from») (s.loc (s.columns - 1) ((«from» : Int) + k - 1)) 0x20 = _
  rw [stop]
  refine cleared.trans ?_
  rw [left]
  rfl

/-- The position before the first one is in the first row too, so that the property of this row is lost. -/
theorem clearImage_before (columns : 2 ≤ s.columns) (c : WChar) (room : 0 < s.image.length) :
    ∃ view, s.clearImage (s.loc 0 0) (s.loc (s.columns - 1) (-1)) c =
      some (s.repaint (Blocks.changed s.image 0 1 fun _ line => { line with property := 0 }) view) := by
  have position : s.loc (s.columns - 1) (-1) = -1 := by
    simp only [loc]
    omega
  have row : (-1 : Int).tdiv s.columns = 0 := by
    rw [Int.neg_tdiv, Int.tdiv_eq_zero_of_lt (by omega) (by omega), Int.neg_zero]
  have column : (-1 : Int).tmod s.columns = -1 := by rw [Int.neg_tmod, Int.tmod_eq_of_lt (by omega) (by omega)]
  have first : (s.loc 0 0).tdiv s.columns = 0 := loc_tdiv s (by omega) 0
  have start : (s.loc 0 0).tmod s.columns = 0 := loc_tmod s (by omega) 0
  have same : s.clearedLine (s.loc 0 0) (-1) c 0 = fun line => { line with property := 0 } := by
    funext line
    simp only [clearedLine, row, column, first, start, clearCells, grow]
    simp
    omega
  obtain ⟨view, cleared⟩ := clearImage_eq s (s.loc 0 0) (-1) c (by omega) (by omega) (by omega)
  refine ⟨view, ?_⟩
  rw [position, cleared, row, first]
  congr 2
  refine List.ext_getElem? fun y => ?_
  rw [show (0 : Int).toNat = 0 from rfl, show ((0 : Int) + 1 - 0).toNat = 1 from rfl, Blocks.getElem?_changed,
    Blocks.getElem?_changed]
  split
  next here => rw [show y = 0 by omega, same]
  next => rfl

theorem scrollDownFrom_bottom (columns : 2 ≤ s.columns) (n : Nat) (room : s.bottomMargin < s.image.length) :
    ∃ image view, s.scrollDownFrom s.bottomMargin n = some (s.repaint image view) ∧
      image.map ImageLine.cells = s.image.map ImageLine.cells := by
  rcases Nat.eq_zero_or_pos n with rfl | some_rows
  · exact ⟨s.image, _, rfl, rfl⟩
  have positive : 0 < s.columns := by omega
  have rows : (s.loc (s.columns - 1) s.bottomMargin - s.loc 0 s.bottomMargin).tdiv s.columns + 1 = (1 : Nat) := by
    have apart : s.loc (s.columns - 1) s.bottomMargin - s.loc 0 s.bottomMargin = s.loc (s.columns - 1) (0 : Nat) := by
      simp only [loc]
      omega
    rw [apart, loc_tdiv s (Nat.sub_one_lt_of_lt positive)]
    rfl
  obtain ⟨v₁, moved⟩ := moveImage_eq (s.repaint s.image (s.view.scrolled n)) positive s.bottomMargin s.bottomMargin
    (s.loc (s.columns - 1) s.bottomMargin) 1 rows room room
  have same : Blocks.moved s.image s.bottomMargin s.bottomMargin 1 = s.image := by
    refine List.ext_getElem? fun y => ?_
    rw [Blocks.getElem?_moved _ _ _ _ (by omega) (by omega)]
    split
    · congr 1
      omega
    · rfl
  rw [show (s.repaint s.image (s.view.scrolled n)).image = s.image from rfl, same] at moved
  unfold scrollDownFrom
  rw [if_neg (by omega)]
  simp only [if_pos (show s.bottomMargin + n > s.bottomMargin by omega), Nat.sub_self, Int.natCast_zero, Int.add_zero,
    Int.sub_zero]
  rcases Nat.eq_zero_or_pos s.bottomMargin with zero | lower
  · obtain ⟨v₂, cleared⟩ := clearImage_before (s.repaint s.image v₁) columns 0x20 (show 0 < s.image.length by omega)
    refine ⟨Blocks.changed s.image 0 1 fun _ line => { line with property := 0 }, v₂,
      (congrArg (Option.bind · _) moved).trans ?_, ?_⟩
    · change (s.repaint s.image v₁).clearImage (s.loc 0 s.bottomMargin)
        (s.loc (s.columns - 1) ((s.bottomMargin : Int) - 1)) 0x20 = _
      rw [zero]
      exact cleared
    · refine List.ext_getElem? fun y => ?_
      rw [List.getElem?_map, List.getElem?_map, Blocks.getElem?_changed]
      split
      · rw [Option.map_map]
        rfl
      · rfl
  · have stop : s.loc (s.columns - 1) ((s.bottomMargin : Int) - 1) = s.loc (s.columns - 1) (s.bottomMargin - 1 : Nat) := by
      congr 1
      omega
    obtain ⟨v₂, cleared⟩ := clearImage_rows (s.repaint s.image v₁) positive s.bottomMargin (s.bottomMargin - 1) 0x20
      (by omega) (show _ < s.image.length by omega)
    refine ⟨Blocks.changed s.image s.bottomMargin (s.bottomMargin - 1 + 1 - s.bottomMargin) fun _ => s.blankLine 0x20, v₂,
      (congrArg (Option.bind · _) moved).trans ?_, ?_⟩
    · change (s.repaint s.image v₁).clearImage (s.loc 0 s.bottomMargin)
        (s.loc (s.columns - 1) ((s.bottomMargin : Int) - 1)) 0x20 = _
      rw [stop]
      exact cleared
    · refine List.ext_getElem? fun y => ?_
      rw [List.getElem?_map, List.getElem?_map, Blocks.getElem?_changed, if_neg (by omega)]

/-! ## Valid screens -/

end Woterm.Konsole.Screen

namespace Woterm.Konsole.History.HistoryScroll

def Valid : HistoryScroll → Prop
  | .none | .file => True
  | .buffer h => h.Valid

theorem Valid.add {history : HistoryScroll} (valid : history.Valid) (cells : HistoryLine) (wrapped : Bool) :
    ∃ after, history.add cells wrapped = some after ∧ after.Valid := by
  cases history with
  | none => exact ⟨.none, rfl, trivial⟩
  | file => exact ⟨.file, rfl, trivial⟩
  | buffer h =>
    obtain ⟨after, added, still, _⟩ := HistoryScrollBuffer.Valid.add valid cells wrapped
    refine ⟨.buffer after, ?_, still⟩
    change (h.addCellsVector cells >>= fun h => h.addLine wrapped >>= fun h => some (HistoryScroll.buffer h)) = _
    rw [← bind_assoc]
    exact congrArg (Option.bind · fun h => some (HistoryScroll.buffer h)) added

end Woterm.Konsole.History.HistoryScroll

namespace Woterm.Konsole.Screen
open Woterm.Lib Woterm.Konsole.History Woterm.Konsole.Width

/-- The cursor is on the screen, or behind the last column of its row where the next character wraps. -/
structure Valid (s : Screen) : Prop where
  columns : 2 ≤ s.columns
  image : s.image.length = s.lines + 1
  tabs : s.tabStops.length = s.columns
  cursorX : s.cuX ≤ s.columns
  cursorY : s.cuY < s.lines
  margins : s.topMargin ≤ s.bottomMargin
  bottom : s.bottomMargin < s.lines
  history : s.history.Valid

/-- A valid screen of the same size. -/
structure Follows (s t : Screen) : Prop where
  valid : t.Valid
  lines : t.lines = s.lines
  columns : t.columns = s.columns

theorem Follows.trans {s t u : Screen} (first : Follows s t) (second : Follows t u) : Follows s u :=
  ⟨second.valid, second.lines.trans first.lines, second.columns.trans first.columns⟩

theorem Follows.andThen {s t : Screen} (first : Follows s t) {op : Screen → Screen}
    (second : ∀ {t : Screen}, t.Valid → Follows t (op t)) : Follows s (op t) :=
  first.trans (second first.valid)

variable {s : Screen} (n : Nat)

theorem Valid.follows (valid : s.Valid) : Follows s s := ⟨valid, rfl, rfl⟩

/-- An operation that has a result on every valid screen, which is valid too. -/
def Safe (op : Screen → Option Screen) : Prop := ∀ s, s.Valid → ∃ t, op s = some t ∧ Follows s t

theorem Safe.bind {first second : Screen → Option Screen} (one : Safe first) (two : Safe second) :
    Safe fun s => first s >>= second := by
  intro s valid
  obtain ⟨t, found, kept⟩ := one s valid
  obtain ⟨u, again, still⟩ := two t kept.valid
  exact ⟨u, by simp only [found]; exact again, kept.trans still⟩

/-- The part of a screen that matters for its arrays. -/
def geometry (s : Screen) : Nat × Nat × Nat × Nat × Nat × Nat × Nat × Nat × HistoryScroll :=
  (s.lines, s.columns, s.image.length, s.tabStops.length, s.cuX, s.cuY, s.topMargin, s.bottomMargin, s.history)

theorem Valid.of_geometry {s t : Screen} (valid : s.Valid) (same : t.geometry = s.geometry) : Follows s t := by
  simp only [geometry, Prod.mk.injEq] at same
  obtain ⟨lines, columns, image, tabs, x, y, top, bottom, history⟩ := same
  refine ⟨⟨?_, ?_, ?_, ?_, ?_, ?_, ?_, ?_⟩, lines, columns⟩
  · rw [columns]; exact valid.columns
  · rw [image, lines]; exact valid.image
  · rw [tabs, columns]; exact valid.tabs
  · rw [x, columns]; exact valid.cursorX
  · rw [y, lines]; exact valid.cursorY
  · rw [top, bottom]; exact valid.margins
  · rw [bottom, lines]; exact valid.bottom
  · rw [history]; exact valid.history

theorem Valid.repaint (valid : s.Valid) {image : List ImageLine} (length : image.length = s.image.length)
    (view : View) : Follows s (s.repaint image view) :=
  valid.of_geometry (by simp only [geometry, Screen.repaint, length])

theorem Valid.withHistory (valid : s.Valid) {history : HistoryScroll} (kept : history.Valid) :
    Follows s (s.withHistory history) :=
  ⟨⟨valid.columns, valid.image, valid.tabs, valid.cursorX, valid.cursorY, valid.margins, valid.bottom, kept⟩, rfl, rfl⟩

theorem Valid.withCursor (valid : s.Valid) {x y : Nat} (right : x ≤ s.columns) (low : y < s.lines) :
    Follows s { s with cuX := x, cuY := y } :=
  ⟨⟨valid.columns, valid.image, valid.tabs, right, low, valid.margins, valid.bottom, valid.history⟩, rfl, rfl⟩

theorem Valid.withMargins (valid : s.Valid) {top bottom : Nat} (ordered : top ≤ bottom) (low : bottom < s.lines) :
    Follows s { s with topMargin := top, bottomMargin := bottom } :=
  ⟨⟨valid.columns, valid.image, valid.tabs, valid.cursorX, valid.cursorY, ordered, low, valid.history⟩, rfl, rfl⟩

theorem Valid.positive (valid : s.Valid) : 0 < s.columns := Nat.lt_of_lt_of_le Nat.zero_lt_two valid.columns

/-! ## The cursor, modes and colors -/

theorem Valid.cursorUp (valid : s.Valid) (n : Nat) : Follows s (s.cursorUp n) := by
  have low := valid.cursorY
  have bottom := valid.bottom
  have margins := valid.margins
  exact valid.withCursor (by omega) (by split <;> omega)

theorem Valid.cursorDown (valid : s.Valid) (n : Nat) : Follows s (s.cursorDown n) := by
  have low := valid.cursorY
  have bottom := valid.bottom
  exact valid.withCursor (by omega) (by split <;> omega)

theorem Valid.cursorLeft (valid : s.Valid) (n : Nat) : Follows s (s.cursorLeft n) :=
  valid.withCursor (by omega) valid.cursorY

theorem Valid.cursorRight (valid : s.Valid) (n : Nat) : Follows s (s.cursorRight n) :=
  valid.withCursor (by omega) valid.cursorY

theorem Valid.toStartOfLine (valid : s.Valid) : Follows s s.toStartOfLine :=
  valid.withCursor (Nat.zero_le _) valid.cursorY

theorem Valid.home (valid : s.Valid) : Follows s s.home :=
  valid.withCursor (Nat.zero_le _) (Nat.zero_lt_of_lt valid.cursorY)

theorem Valid.setCursorX (valid : s.Valid) (x : Int) : Follows s (s.setCursorX x) :=
  valid.withCursor (by omega) valid.cursorY

theorem Valid.setCursorY (valid : s.Valid) (y : Int) : Follows s (s.setCursorY y) := by
  have low := valid.cursorY
  exact valid.withCursor valid.cursorX (by omega)

theorem Valid.setCursorYX (valid : s.Valid) (y x : Int) : Follows s (s.setCursorYX y x) :=
  (valid.setCursorY y).trans ((valid.setCursorY y).valid.setCursorX x)

theorem Valid.setMargins (valid : s.Valid) (top bot : Nat) : Follows s (s.setMargins top bot) := by
  unfold Screen.setMargins
  dsimp only
  generalize (if bot = 0 then s.lines else bot) - 1 = low
  split
  next inside =>
    have placed := valid.withMargins (Nat.le_of_lt inside.1) inside.2
    refine placed.trans (placed.valid.withCursor (Nat.zero_le _) (Nat.lt_of_le_of_lt ?_ inside.2))
    split <;> omega
  next => exact valid.follows

theorem Valid.setDefaultMargins (valid : s.Valid) : Follows s s.setDefaultMargins := by
  have low := valid.cursorY
  exact valid.withMargins (Nat.zero_le _) (by omega)

theorem Valid.setMode (valid : s.Valid) (m : Mode) : Follows s (s.setMode m) := by
  have changed : Follows s { s with currentModes := s.currentModes.set true m } := valid.of_geometry rfl
  unfold Screen.setMode
  dsimp only
  split
  · exact changed.trans (changed.valid.withCursor (Nat.zero_le _) (Nat.lt_of_le_of_lt valid.margins valid.bottom))
  · exact changed

theorem Valid.resetMode (valid : s.Valid) (m : Mode) : Follows s (s.resetMode m) := by
  have changed : Follows s { s with currentModes := s.currentModes.set false m } := valid.of_geometry rfl
  unfold Screen.resetMode
  dsimp only
  split
  · exact changed.trans (changed.valid.withCursor (Nat.zero_le _) (Nat.zero_lt_of_lt valid.cursorY))
  · exact changed

theorem Valid.saveMode (valid : s.Valid) (m : Mode) : Follows s (s.saveMode m) := valid.of_geometry rfl

theorem Valid.restoreMode (valid : s.Valid) (m : Mode) : Follows s (s.restoreMode m) := valid.of_geometry rfl

theorem Valid.setRendition (valid : s.Valid) (re : Nat) : Follows s (s.setRendition re) :=
  valid.of_geometry rfl

theorem Valid.resetRendition (valid : s.Valid) (re : Nat) : Follows s (s.resetRendition re) :=
  valid.of_geometry rfl

theorem Valid.setForeColor (valid : s.Valid) (space : ColorSpace) (color : Nat) :
    Follows s (s.setForeColor space color) :=
  valid.of_geometry rfl

theorem Valid.setBackColor (valid : s.Valid) (space : ColorSpace) (color : Nat) :
    Follows s (s.setBackColor space color) :=
  valid.of_geometry rfl

theorem Valid.setDefaultRendition (valid : s.Valid) : Follows s s.setDefaultRendition :=
  valid.of_geometry rfl

theorem Valid.saveCursor (valid : s.Valid) : Follows s s.saveCursor := valid.of_geometry rfl

theorem Valid.restoreCursor (valid : s.Valid) : Follows s s.restoreCursor := by
  have low := valid.cursorY
  have moved : Follows s { s with
      cuX := min s.savedState.cursorColumn (s.columns - 1), cuY := min s.savedState.cursorLine (s.lines - 1) } :=
    valid.withCursor (by omega) (by omega)
  exact moved.trans (moved.valid.of_geometry rfl)

/-! ## Operations on the rows -/

/-- The rows are other ones now, and some may have gone to the history. -/
def Redrawn (s : Screen) (result : Option Screen) : Prop :=
  ∃ history image view, result = some ((s.withHistory history).repaint image view) ∧ history.Valid ∧
    image.length = s.image.length

theorem Redrawn.follows (valid : s.Valid) {result : Option Screen} (redrawn : Redrawn s result) :
    ∃ t, result = some t ∧ Follows s t ∧ t.cuX = s.cuX ∧ t.cuY = s.cuY := by
  obtain ⟨history, image, view, found, kept, length⟩ := redrawn
  have after := valid.withHistory kept
  exact ⟨_, found, after.trans (after.valid.repaint length view), rfl, rfl⟩

theorem Redrawn.bind (valid : s.Valid) {result : Option Screen} (redrawn : Redrawn s result)
    {next : Screen → Option Screen} (again : ∀ t, Follows s t → t.bottomMargin = s.bottomMargin → Redrawn t (next t)) :
    Redrawn s (result >>= next) := by
  obtain ⟨history, image, view, rfl, kept, length⟩ := redrawn
  have after := valid.withHistory kept
  obtain ⟨history', image', view', found, kept', length'⟩ :=
    again _ (after.trans (after.valid.repaint length view)) rfl
  exact ⟨history', image', view', found, kept', length'.trans length⟩

theorem Valid.redrawn (valid : s.Valid) {image : List ImageLine} (length : image.length = s.image.length)
    (view : View) : Redrawn s (some (s.repaint image view)) :=
  ⟨s.history, image, view, rfl, valid.history, length⟩

theorem Valid.withLine (valid : s.Valid) (change : ImageLine → ImageLine) : Redrawn s (s.withLine s.cuY change) := by
  have inside : s.cuY < s.image.length := by
    rw [valid.image]
    exact Nat.lt_succ_of_lt valid.cursorY
  have changed := Blocks.change_eq (List.getElem?_eq_getElem inside) change
  have length : (s.image.set s.cuY (change s.image[s.cuY])).length = s.image.length := List.length_set
  exact (congrArg (Redrawn s) (congrArg (Option.bind · fun image => some (s.repaint image s.view)) changed)).mpr
    (valid.redrawn length s.view)

theorem Valid.clearImage (valid : s.Valid) (loca loce : Int) (c : WChar) (start : 0 ≤ loca.tdiv s.columns)
    (top : loca.tdiv s.columns ≤ s.lines) (bottom : loce.tdiv s.columns ≤ s.lines) :
    Redrawn s (s.clearImage loca loce c) := by
  have image := valid.image
  obtain ⟨view, cleared⟩ := clearImage_eq s loca loce c start (by omega) (by omega)
  rw [cleared]
  exact valid.redrawn (Blocks.length_changed ..) view

/-- What it takes to scroll a screen, of any width. -/
structure Rows (s : Screen) : Prop where
  positive : 0 < s.columns
  image : s.image.length = s.lines + 1
  bottom : s.bottomMargin < s.lines
  history : s.history.Valid

theorem Valid.rows (valid : s.Valid) : s.Rows :=
  ⟨valid.positive, valid.image, valid.bottom, valid.history⟩

theorem Rows.scrollUpFrom (rows : s.Rows) («from» n : Nat) : Redrawn s (s.scrollUpFrom «from» n) := by
  by_cases nothing : n = 0 ∨ «from» > s.bottomMargin
  · rw [Screen.scrollUpFrom, if_pos nothing]
    exact ⟨s.history, s.image, s.view, rfl, rows.history, rfl⟩
  · have image := rows.image
    have bottom := rows.bottom
    obtain ⟨view, scrolled⟩ := scrollUpFrom_eq s rows.positive «from» n (by omega) (by omega) (by omega)
    refine ⟨s.history, _, view, scrolled, rows.history, ?_⟩
    rw [scrolledUp, Blocks.length_changed, Blocks.length_moved]

theorem Valid.scrollUpFrom (valid : s.Valid) («from» n : Nat) : Redrawn s (s.scrollUpFrom «from» n) :=
  valid.rows.scrollUpFrom «from» n

theorem Valid.scrollDownFrom (valid : s.Valid) («from» n : Nat) : Redrawn s (s.scrollDownFrom «from» n) := by
  have image := valid.image
  have bottom := valid.bottom
  by_cases nothing : n = 0 ∨ «from» > s.bottomMargin
  · rw [Screen.scrollDownFrom, if_pos nothing]
    exact valid.redrawn rfl _
  · rcases Nat.lt_or_ge «from» s.bottomMargin with above | below
    · obtain ⟨view, scrolled⟩ := scrollDownFrom_eq s valid.positive «from» n (by omega) above (by omega)
      rw [scrolled]
      refine valid.redrawn ?_ view
      rw [scrolledDown, Blocks.length_changed, Blocks.length_moved]
    · obtain ⟨image', view, scrolled, same⟩ := scrollDownFrom_bottom s valid.columns n (by omega)
      rw [show «from» = s.bottomMargin by omega, scrolled]
      refine valid.redrawn ?_ view
      simpa using congrArg List.length same

theorem Rows.addHistLine (rows : s.Rows) : Redrawn s s.addHistLine := by
  unfold Screen.addHistLine
  split
  · have image := rows.image
    obtain ⟨history, added, kept⟩ := rows.history.add s.image[0].cells (s.image[0].property &&& LINE_WRAPPED != 0)
    rw [List.getElem?_eq_getElem (by omega)]
    exact ⟨history, s.image, _, congrArg (Option.bind · _) added, kept, rfl⟩
  · exact ⟨s.history, s.image, s.view, rfl, rows.history, rfl⟩

theorem Valid.addHistLine (valid : s.Valid) : Redrawn s s.addHistLine := valid.rows.addHistLine

theorem Valid.scrollUp (valid : s.Valid) (n : Nat) : Redrawn s (s.scrollUp n) := by
  have added : Redrawn s (if s.topMargin = 0 then s.addHistLine else some s) := by
    split
    · exact valid.addHistLine
    · exact valid.redrawn rfl s.view
  exact added.bind valid fun t follows _ => follows.valid.scrollUpFrom t.topMargin (orOne n)

theorem Valid.index (valid : s.Valid) : ∃ t, s.index = some t ∧ Follows s t ∧ t.cuX = s.cuX := by
  unfold Screen.index
  split
  · obtain ⟨t, found, follows, x, _⟩ := (valid.scrollUp 1).follows valid
    exact ⟨t, found, follows, x⟩
  · split
    · exact ⟨_, rfl, valid.withCursor valid.cursorX (by omega), rfl⟩
    · exact ⟨s, rfl, valid.follows, rfl⟩

theorem Valid.nextLine (valid : s.Valid) : ∃ t, s.nextLine = some t ∧ Follows s t ∧ t.cuX = 0 := by
  have started := valid.toStartOfLine
  obtain ⟨t, found, follows, x⟩ := started.valid.index
  exact ⟨t, found, started.trans follows, x⟩

theorem Redrawn.safe {op : Screen → Option Screen} (redrawn : ∀ s, s.Valid → Redrawn s (op s)) : Safe op := by
  intro s valid
  obtain ⟨t, found, follows, _⟩ := (redrawn s valid).follows valid
  exact ⟨t, found, follows⟩

theorem safe_index : Safe index := fun _ valid =>
  let ⟨t, found, follows, _⟩ := valid.index
  ⟨t, found, follows⟩

theorem safe_nextLine : Safe nextLine := fun _ valid =>
  let ⟨t, found, follows, _⟩ := valid.nextLine
  ⟨t, found, follows⟩

theorem safe_newLine : Safe newLine := by
  intro s valid
  unfold newLine
  split
  · exact safe_nextLine s valid
  · exact safe_index s valid

theorem safe_reverseIndex : Safe reverseIndex := by
  intro s valid
  have low := valid.cursorY
  unfold reverseIndex
  split
  · exact Redrawn.safe (fun s valid => valid.scrollDownFrom s.topMargin 1) s valid
  · split
    · exact ⟨_, rfl, valid.withCursor valid.cursorX (by omega)⟩
    · exact ⟨s, rfl, valid.follows⟩

theorem safe_scrollUp : Safe fun s => s.scrollUp n := Redrawn.safe fun _ valid => valid.scrollUp n

theorem safe_scrollDown : Safe fun s => s.scrollDown n :=
  Redrawn.safe fun s valid => valid.scrollDownFrom s.topMargin (orOne n)

theorem safe_deleteLines : Safe fun s => s.deleteLines n :=
  Redrawn.safe fun s valid => valid.scrollUpFrom s.cuY (orOne n)

theorem safe_insertLines : Safe fun s => s.insertLines n :=
  Redrawn.safe fun s valid => valid.scrollDownFrom s.cuY (orOne n)

/-- The row of the cursor, or the next one behind the last column. -/
theorem Valid.loc_cursor (valid : s.Valid) :
    0 ≤ (s.loc s.cuX s.cuY).tdiv s.columns ∧ (s.loc s.cuX s.cuY).tdiv s.columns ≤ s.lines := by
  have low := valid.cursorY
  rcases Nat.lt_or_eq_of_le valid.cursorX with inside | behind
  · rw [loc_tdiv s inside]
    omega
  · rw [behind, loc_columns, loc_tdiv s valid.positive]
    omega

theorem loc_row (s : Screen) {x : Nat} (inside : x < s.columns) {y : Int} (low : 0 ≤ y) (high : y < s.lines) :
    0 ≤ (s.loc x y).tdiv s.columns ∧ (s.loc x y).tdiv s.columns ≤ s.lines := by
  obtain ⟨row, rfl⟩ := Int.eq_ofNat_of_zero_le low
  rw [loc_tdiv s inside]
  omega

theorem safe_clearImage (loca loce : Screen → Int) (c : WChar)
    (start : ∀ s, s.Valid → 0 ≤ (loca s).tdiv s.columns ∧ (loca s).tdiv s.columns ≤ s.lines)
    (stop : ∀ s, s.Valid → (loce s).tdiv s.columns ≤ s.lines) : Safe fun s => s.clearImage (loca s) (loce s) c :=
  Redrawn.safe fun s valid => valid.clearImage _ _ c (start s valid).1 (start s valid).2 (stop s valid)

theorem Valid.loc_column (valid : s.Valid) {x : Nat} (inside : x < s.columns) :
    0 ≤ (s.loc x s.cuY).tdiv s.columns ∧ (s.loc x s.cuY).tdiv s.columns ≤ s.lines :=
  loc_row s inside (Int.natCast_nonneg _) (Int.ofNat_lt.mpr valid.cursorY)

theorem Valid.loc_home (valid : s.Valid) : 0 ≤ (s.loc 0 0).tdiv s.columns ∧ (s.loc 0 0).tdiv s.columns ≤ s.lines :=
  loc_row s valid.positive (Int.le_refl _) (by have low := valid.cursorY; omega)

theorem Valid.loc_last (valid : s.Valid) :
    0 ≤ (s.loc (s.columns - 1) (s.lines - 1)).tdiv s.columns ∧
      (s.loc (s.columns - 1) (s.lines - 1)).tdiv s.columns ≤ s.lines := by
  have low := valid.cursorY
  exact loc_row s (Nat.sub_one_lt_of_lt valid.positive) (by omega) (by omega)

theorem safe_eraseChars : Safe fun s => s.eraseChars n :=
  safe_clearImage _ _ _ (fun _ valid => valid.loc_cursor) fun s valid =>
    (valid.loc_column (by have positive := valid.positive; omega)).2

theorem safe_clearToEndOfScreen : Safe clearToEndOfScreen :=
  safe_clearImage _ _ _ (fun _ valid => valid.loc_cursor) fun _ valid => valid.loc_last.2

theorem safe_clearToBeginOfScreen : Safe clearToBeginOfScreen :=
  safe_clearImage _ _ _ (fun _ valid => valid.loc_home) fun _ valid => valid.loc_cursor.2

theorem safe_clearToEndOfLine : Safe clearToEndOfLine :=
  safe_clearImage _ _ _ (fun _ valid => valid.loc_cursor) fun _ valid =>
    (valid.loc_column (Nat.sub_one_lt_of_lt valid.positive)).2

theorem safe_clearToBeginOfLine : Safe clearToBeginOfLine :=
  safe_clearImage _ _ _ (fun _ valid => valid.loc_column valid.positive) fun _ valid => valid.loc_cursor.2

theorem safe_clearEntireLine : Safe clearEntireLine :=
  safe_clearImage _ _ _ (fun _ valid => valid.loc_column valid.positive) fun _ valid =>
    (valid.loc_column (Nat.sub_one_lt_of_lt valid.positive)).2

theorem safe_helpAlign : Safe helpAlign :=
  safe_clearImage _ _ _ (fun _ valid => valid.loc_home) fun _ valid => valid.loc_last.2

theorem Safe.iterate {step : Screen → Option Screen} (safe : Safe step) (n : Nat) :
    Safe fun s => (List.range n).foldlM (fun s _ => step s) s := by
  induction n with
  | zero => exact fun s valid => ⟨s, rfl, valid.follows⟩
  | succ n ih =>
    intro s valid
    obtain ⟨t, found, follows⟩ := ih.bind safe s valid
    refine ⟨t, ?_, follows⟩
    dsimp only
    rw [List.range_succ, List.foldlM_append]
    simpa only [List.foldlM_cons, List.foldlM_nil, bind_pure] using found

theorem Safe.pure {f : Screen → Screen} (kept : ∀ s, s.Valid → Follows s (f s)) : Safe fun s => some (f s) :=
  fun s valid => ⟨f s, rfl, kept s valid⟩

theorem safe_pushLine : Safe pushLine :=
  Redrawn.safe fun _ valid => valid.addHistLine.bind valid fun _ follows _ => follows.valid.scrollUpFrom 0 1

theorem safe_clearEntireScreen : Safe clearEntireScreen := by
  have cleared : Safe fun s => s.clearImage (s.loc 0 0) (s.loc (s.columns - 1) (s.lines - 1)) 0x20 :=
    safe_clearImage _ _ _ (fun _ valid => valid.loc_home) fun _ valid => valid.loc_last.2
  intro s valid
  exact (safe_pushLine.iterate (s.lines - 1)).bind cleared s valid

theorem safe_clear : Safe clear := safe_clearEntireScreen.bind (Safe.pure fun _ valid => valid.home)

/-! ## Characters -/

theorem safe_deleteChars : Safe fun s => s.deleteChars n := Redrawn.safe fun _ valid => valid.withLine _

theorem safe_setLineProperty (property : UInt8) (enable : Bool) : Safe fun s => s.setLineProperty property enable :=
  Redrawn.safe fun _ valid => valid.withLine _

theorem safe_backspace : Safe backspace := by
  intro s valid
  have moved : Follows s { s with cuX := min (s.columns - 1) s.cuX - 1 } :=
    valid.withCursor (by omega) valid.cursorY
  obtain ⟨t, found, follows, _⟩ := (moved.valid.withLine _).follows moved.valid
  exact ⟨t, found, moved.trans follows⟩

theorem Valid.makeRoom (valid : s.Valid) (w : Nat) (small : w ≤ 2) :
    ∃ t, s.makeRoom w = some t ∧ Follows s t ∧ t.cuX + w ≤ t.columns := by
  have columns := valid.columns
  unfold Screen.makeRoom
  split
  · split
    · obtain ⟨t, marked, follows, _⟩ := (valid.withLine fun line =>
        { line with property := line.property ||| LINE_WRAPPED }).follows valid
      obtain ⟨u, found, again, x⟩ := follows.valid.nextLine
      refine ⟨u, by rw [marked]; exact found, follows.trans again, ?_⟩
      rw [x, (follows.trans again).columns]
      omega
    · rw [if_pos (by omega)]
      exact ⟨_, rfl, valid.withCursor (by omega) valid.cursorY, show s.columns - w + w ≤ s.columns by omega⟩
  · exact ⟨s, rfl, valid.follows, by omega⟩

theorem length_resize (cells : List Character) (size : Nat) : (resize cells size).length = size := by
  rw [resize, List.length_append, List.length_take, List.length_replicate]
  omega

theorem length_grow (cells : List Character) (size : Nat) : (grow cells size).length = max cells.length size := by
  unfold grow
  split
  · rw [length_resize]
    omega
  · omega

theorem length_insertCells (s : Screen) (n : Nat) (cells : List Character) :
    (s.insertCells n cells).length = min (max cells.length s.cuX + n) s.columns := by
  have longer : ((grow cells s.cuX).take s.cuX ++ List.replicate n defaultChar ++ (grow cells s.cuX).drop s.cuX).length =
      max cells.length s.cuX + n := by
    simp only [List.length_append, List.length_take, List.length_drop, List.length_replicate, length_grow]
    omega
  unfold insertCells
  dsimp only
  split
  · rw [length_resize]
    omega
  · omega

theorem withLine_eq (s : Screen) {line : ImageLine} (read : s.image[s.cuY]? = some line)
    (change : ImageLine → ImageLine) :
    s.withLine s.cuY change = some (s.repaint (s.image.set s.cuY (change line)) s.view) :=
  congrArg (Option.bind · fun image => some (s.repaint image s.view)) (Blocks.change_eq read change)

/-- The row with a character in it. -/
def putCells (s : Screen) (c : WChar) (w : Nat) (cells : List Character) : List Character :=
  let cells := grow cells (s.cuX + w)
  overwritten (if s.currentModes.insert then s.insertCells (orOne w) cells else cells) s.cuX (s.drawn c w)

theorem checkSelection_eq (s : Screen) («from» to_ : Int) : ∃ view, s.checkSelection «from» to_ = s.repaint s.image view := by
  unfold checkSelection
  split
  · exact ⟨s.view, rfl⟩
  · split
    · exact ⟨s.view.clearSelection, rfl⟩
    · exact ⟨s.view, rfl⟩

theorem drawCharacter_eq (s : Screen) (c : WChar) (w : Nat) {line : ImageLine} (read : s.image[s.cuY]? = some line)
    (reach : s.cuX < line.cells.length) :
    s.drawCharacter c w =
      some (s.repaint (s.image.set s.cuY { line with cells := overwritten line.cells s.cuX (s.drawn c w) }) s.view) := by
  rw [drawCharacter, read, Option.bind_eq_bind, Option.bind_some, if_pos reach]
  exact withLine_eq s read _

theorem putCharacter_eq (s : Screen) (c : WChar) {w : Nat} (positive : 0 < w) (room : s.cuX + w ≤ s.columns)
    {line : ImageLine} (read : s.image[s.cuY]? = some line) :
    ∃ view, s.putCharacter c w =
      some (s.repaint (s.image.set s.cuY { line with cells := s.putCells c w line.cells }) view) := by
  have inside : s.cuY < s.image.length := (List.getElem?_eq_some_iff.mp read).1
  have again (line : ImageLine) : (s.image.set s.cuY line)[s.cuY]? = some line := List.getElem?_set_self inside
  generalize grown : grow line.cells (s.cuX + w) = cells
  have long : s.cuX + w ≤ cells.length := by
    rw [← grown, length_grow]
    omega
  generalize filled : (if s.currentModes.insert then s.insertCells (orOne w) cells else cells) = row
  have reach : s.cuX < row.length := by
    rw [← filled, orOne, if_neg (Nat.ne_of_gt positive)]
    split
    · rw [length_insertCells]
      omega
    · omega
  have inserted (t : Screen) (same : t = s.repaint (s.image.set s.cuY { line with cells }) s.view) :
      (if t.currentModes.insert then t.insertChars w else some t) =
        some (s.repaint (s.image.set s.cuY { line with cells := row }) s.view) := by
    subst same
    change (if s.currentModes.insert then _ else _) = _
    rw [← filled]
    split
    · rw [insertChars, withLine_eq _ (again _)]
      exact congrArg (fun image => some (s.repaint image s.view)) (List.set_set ..)
    · rfl
  obtain ⟨view, checked⟩ := checkSelection_eq (s.repaint (s.image.set s.cuY { line with cells := row }) s.view)
    (s.loc s.cuX s.cuY) (s.loc s.cuX s.cuY)
  refine ⟨view, ?_⟩
  unfold putCharacter
  rw [withLine_eq s read, grown]
  simp only [Option.bind_eq_bind, Option.bind_some, inserted _ rfl]
  change drawCharacter (checkSelection _ (s.loc s.cuX s.cuY) (s.loc s.cuX s.cuY)) c w = _
  rw [checked]
  refine (drawCharacter_eq _ c w (again _) reach).trans ?_
  rw [putCells, grown, filled]
  exact congrArg (fun image => some (s.repaint image view)) (List.set_set ..)

theorem displayCharacter_eq {s t u : Screen} {c : WChar} {w : Nat} (width : charWidth c = w) (positive : 0 < w)
    (room : s.makeRoom w = some t) (put : t.putCharacter c w = some u) : s.displayCharacter c = some (u.advance c w) := by
  rw [displayCharacter, if_neg (by omega), width, Int.toNat_natCast]
  simp only [room, Option.bind_eq_bind, Option.bind_some, put]
  rfl

theorem safe_displayCharacter (c : WChar) : Safe fun s => s.displayCharacter c := by
  intro s valid
  by_cases nothing : charWidth c ≤ 0
  · exact ⟨s, if_pos nothing, valid.follows⟩
  obtain ⟨w, width⟩ := Int.eq_ofNat_of_zero_le (show 0 ≤ charWidth c by omega)
  have small := charWidth_le c
  have positive : 0 < w := by omega
  obtain ⟨t, found, follows, room⟩ := valid.makeRoom w (by omega)
  have inside : t.cuY < t.image.length := by
    rw [follows.valid.image]
    exact Nat.lt_succ_of_lt follows.valid.cursorY
  obtain ⟨view, put⟩ := putCharacter_eq t c positive room (List.getElem?_eq_getElem inside)
  refine ⟨_, displayCharacter_eq width positive found put, follows.trans ?_⟩
  generalize drawn : t.image.set t.cuY _ = image
  have painted := follows.valid.repaint (show image.length = t.image.length by rw [← drawn, List.length_set]) view
  have moved := painted.valid.withCursor room painted.valid.cursorY
  exact painted.trans (moved.trans (moved.valid.of_geometry rfl))

theorem safe_repeatChars (count : Nat) : Safe fun s => s.repeatChars count :=
  Safe.iterate (fun s valid => safe_displayCharacter s.lastDrawnChar s valid) (orOne count)

theorem safe_insertChars : Safe fun s => s.insertChars n := Redrawn.safe fun _ valid => valid.withLine _

/-! ## Tab stops -/

theorem Valid.seekRight (valid : s.Valid) (x : Nat) (inside : x ≤ s.columns) :
    ∃ y, s.seekRight x = some y ∧ y ≤ s.columns := by
  fun_induction Screen.seekRight s x with
  | case1 x below ih =>
    have there : x < s.tabStops.length := by
      rw [valid.tabs]
      omega
    rw [List.getElem?_eq_getElem there, Option.bind_eq_bind, Option.bind_some]
    split
    · exact ⟨x, rfl, inside⟩
    · exact ih (by omega)
  | case2 x above => exact ⟨x, rfl, inside⟩

theorem Valid.seekLeft (valid : s.Valid) (x : Nat) (inside : x < s.columns) :
    ∃ y, s.seekLeft x = some y ∧ y ≤ s.columns := by
  induction x with
  | zero => exact ⟨0, rfl, Nat.zero_le _⟩
  | succ x ih =>
    have there : x + 1 < s.tabStops.length := by
      rw [valid.tabs]
      exact inside
    rw [Screen.seekLeft, List.getElem?_eq_getElem there, Option.bind_eq_bind, Option.bind_some]
    split
    · exact ⟨x + 1, rfl, Nat.le_of_lt inside⟩
    · exact ih (by omega)

theorem safe_tab : Safe fun s => s.tab n := by
  refine Safe.iterate (fun s valid => ?_) (orOne n)
  unfold tabOnce
  split
  · obtain ⟨x, found, inside⟩ := valid.seekRight (min (s.columns - 1) (s.cuX + 1)) (by omega)
    exact ⟨_, congrArg (Option.bind · _) found, valid.withCursor inside valid.cursorY⟩
  · exact ⟨s, rfl, valid.follows⟩

theorem safe_backtab : Safe fun s => s.backtab n := by
  refine Safe.iterate (fun s valid => ?_) (orOne n)
  have positive := valid.positive
  unfold backtabOnce
  split
  · obtain ⟨x, found, inside⟩ := valid.seekLeft (min (s.columns - 1) s.cuX - 1) (by omega)
    exact ⟨_, congrArg (Option.bind · _) found, valid.withCursor inside valid.cursorY⟩
  · exact ⟨s, rfl, valid.follows⟩

theorem Valid.withTabs (valid : s.Valid) {tabStops : List Bool} (length : tabStops.length = s.columns) :
    Follows s { s with tabStops } :=
  ⟨⟨valid.columns, valid.image, length, valid.cursorX, valid.cursorY, valid.margins, valid.bottom, valid.history⟩, rfl,
    rfl⟩

theorem safe_clearTabStops : Safe clearTabStops := by
  intro s valid
  rw [clearTabStops, if_pos (Nat.le_of_eq valid.tabs.symm)]
  refine ⟨_, rfl, valid.withTabs ?_⟩
  rw [List.length_append, List.length_replicate, List.length_drop, valid.tabs, Nat.sub_self, Nat.add_zero]

theorem safe_changeTabStop (set : Bool) : Safe fun s => s.changeTabStop set := by
  intro s valid
  dsimp only
  unfold changeTabStop
  split
  · exact ⟨s, rfl, valid.follows⟩
  next inside =>
    have stored : store s.tabStops s.cuX set = some (s.tabStops.set s.cuX set) := by
      rw [store, if_pos (by rw [valid.tabs]; omega)]
    exact ⟨_, congrArg (Option.bind · _) stored, valid.withTabs (List.length_set.trans valid.tabs)⟩

/-! ## The size, and a new screen -/

theorem length_initTabStops (s : Screen) : s.initTabStops.tabStops.length = s.columns := by
  rw [initTabStops, List.length_map, List.length_range]

theorem Rows.pushLines (rows : s.Rows) (n : Nat) :
    ∃ t, (List.range n).foldlM (fun s _ => s.pushLine) s = some t ∧ t.Rows ∧ t.lines = s.lines := by
  have step (s : Screen) (rows : s.Rows) : ∃ t, s.pushLine = some t ∧ t.Rows ∧ t.lines = s.lines := by
    obtain ⟨h, i, v, added, kept, length⟩ := rows.addHistLine
    obtain ⟨h', i', v', scrolled, kept', length'⟩ := Rows.scrollUpFrom (s := (s.withHistory h).repaint i v)
      ⟨rows.positive, length.trans rows.image, rows.bottom, kept⟩ 0 1
    refine ⟨_, (congrArg (Option.bind · _) added).trans scrolled, ?_, rfl⟩
    exact ⟨rows.positive, length'.trans (length.trans rows.image), rows.bottom, kept'⟩
  induction n with
  | zero => exact ⟨s, rfl, rows, rfl⟩
  | succ n ih =>
    obtain ⟨t, pushed, still, lines⟩ := ih
    obtain ⟨u, last, again, same⟩ := step t still
    refine ⟨u, ?_, again, same.trans lines⟩
    rw [List.range_succ, List.foldlM_append, pushed]
    exact (bind_pure _).trans last

/-- A new size can be set on a screen of one column too. -/
theorem Rows.resizeImage (rows : s.Rows) (newLines newColumns : Nat) (some_lines : 1 ≤ newLines)
    (some_columns : 1 ≤ newColumns) (valid : s.columns = newColumns → s.Valid) :
    ∃ t, s.resizeImage newLines newColumns = some t ∧ t.columns = newColumns ∧ t.Rows ∧ (2 ≤ newColumns → t.Valid) := by
  have kept : ∃ t, s.keepCursor newLines = some t ∧ t.Rows ∧ t.lines = s.lines := by
    have bottom := rows.bottom
    unfold Screen.keepCursor
    split
    · exact Rows.pushLines (s := { s with bottomMargin := s.lines - 1 })
        ⟨rows.positive, rows.image, show s.lines - 1 < s.lines by omega, rows.history⟩ _
    · exact ⟨s, rfl, rows, rfl⟩
  unfold Screen.resizeImage
  split
  next same => exact ⟨s, rfl, same.2.symm, rows, fun _ => valid same.2.symm⟩
  next =>
    obtain ⟨t, found, still, lines⟩ := kept
    have image := still.image
    have length : (t.image.take (min t.lines (newLines + 1)) ++ List.replicate (newLines + 1 - t.lines)
        ({ cells := resize [] newColumns, property := LINE_DEFAULT } : ImageLine)).length = newLines + 1 := by
      rw [List.length_append, List.length_take, List.length_replicate]
      omega
    have bottom : newLines - 1 < newLines := by omega
    refine ⟨_, congrArg (Option.bind · _) found, rfl, ⟨some_columns, length, bottom, still.history⟩, fun two_columns => ?_⟩
    refine ⟨two_columns, length, length_initTabStops _, ?_, ?_, Nat.zero_le _, bottom, still.history⟩
    · change min t.cuX (newColumns - 1) ≤ newColumns
      omega
    · change min t.cuY (newLines - 1) < newLines
      omega

theorem Valid.resetModes (valid : s.Valid) : Follows s s.resetModes := by
  have wrap := (valid.setMode .wrap).andThen (·.saveMode .wrap)
  have origin := (wrap.andThen (·.resetMode .origin)).andThen (·.saveMode .origin)
  have insert := (origin.andThen (·.resetMode .insert)).andThen (·.saveMode .insert)
  have rest := ((insert.andThen (·.setMode .cursor)).andThen (·.resetMode .screen)).andThen (·.resetMode .newLine)
  exact rest

theorem safe_reset : Safe reset := by
  intro s valid
  have started : Follows s s.resetModes.setDefaultMargins.setDefaultRendition.saveCursor :=
    valid.resetModes.andThen (·.setDefaultMargins) |>.andThen (·.setDefaultRendition) |>.andThen (·.saveCursor)
  obtain ⟨t, found, follows⟩ := safe_clear _ started.valid
  exact ⟨t, found, started.trans follows⟩

theorem new_valid (lines columns : Nat) (some_lines : 1 ≤ lines) (two_columns : 2 ≤ columns) :
    ∃ s, new lines columns = some s ∧ s.Valid ∧ s.lines = lines ∧ s.columns = columns := by
  have blank : (clearSelection (initTabStops { lines, columns, image := List.replicate (lines + 1) {} })).Valid :=
    ⟨two_columns, List.length_replicate, length_initTabStops _, Nat.zero_le _, some_lines, Nat.le_refl _, some_lines,
      trivial⟩
  obtain ⟨s, found, follows⟩ := safe_reset _ blank
  exact ⟨s, found, follows.valid, follows.lines, follows.columns⟩

end Woterm.Konsole.Screen
