import Woterm.Terminal.Parameters
import Woterm.Terminal.Reach
import Woterm.Terminal.Step

/-!
Control sequences that move the cursor: the relative motions, and the two ways to give a row and a
column. Sums are taken modulo 2^32 before they are brought into range, and motions up and down are
brought between the margins even if the cursor is not there.
-/

namespace Woterm.Terminal.Motion
open Woterm.Lib Woterm.Lib.CString Woterm.Lib.Run Woterm.Lib.Word32 Woterm.Terminal.Data Woterm.Terminal.Vte
open Woterm.Terminal.Geometry Woterm.Terminal.Bounds Woterm.Terminal.Codes Woterm.Terminal.Parameters
open Woterm.Terminal.Reach Woterm.Terminal.Step

variable (frontend : Frontend)

/-! ## Relative motions -/

/-- The final bytes of relative motions: `CUU`, `CPL`, `CUD`, `VPR`, `CNL`, `CUB`, `CUF` and `HPR`. -/
def motions : List (uchar × Final) :=
  [(byte 'A', .CUU), (byte 'F', .CPL), (byte 'B', .CUD), (byte 'e', .CUD), (byte 'E', .CNL), (byte 'D', .CUB),
   (byte 'C', .CUF), (byte 'a', .CUF)]

/-- The motion goes where its name says, or nowhere. -/
def RightWay (motion : Final) (v w : VTE) : Prop :=
  match motion with
  | .CUU | .CPL => w.cursor.y ≤ v.cursor.y
  | .CUD | .CNL => v.cursor.y ≤ w.cursor.y
  | .CUB => w.cursor.x ≤ v.cursor.x
  | .CUF => v.cursor.x ≤ w.cursor.x
  | _ => True

/-- The margins do not pull the cursor back, and the sum with `n` is an `int`. -/
def Unhindered (motion : Final) (v : VTE) (n : Int) : Prop :=
  match motion with
  | .CUU => v.top ≤ v.cursor.y ∨ v.flags .DECOM = false ∧ v.cursor.y = v.height - 1
  | .CPL => v.flags .DECOM = true → v.top ≤ v.cursor.y
  | .CUD => if v.cursor.y + n < 2147483648 then v.cursor.y ≤ v.bottom else v.cursor.y ≤ v.top
  | .CNL =>
    if v.cursor.y + n < 2147483648 then v.flags .DECOM = true → v.cursor.y ≤ v.bottom
    else v.flags .DECOM = true ∧ v.cursor.y ≤ v.top
  | .CUF => v.cursor.x + n < 2147483648
  | _ => True

variable (x y : Int) (v : VTE)

theorem moveCursor_x : (moveCursor x y v).cursor.x = setRange x 0 (v.width - 1) :=
  congrArg Frame.x (frame_moveCursor x y v)

theorem moveCursor_y :
    (moveCursor x y v).cursor.y =
    if v.flags .DECOM then setRange y v.top v.bottom else setRange y 0 (v.height - 1) :=
  congrArg Frame.y (frame_moveCursor x y v)

theorem setRange_le_iff (v l h bound : Int) (order : l ≤ h) :
    setRange v l h ≤ bound ↔ l ≤ bound ∧ (v ≤ bound ∨ h ≤ bound) := by
  unfold setRange
  dsimp only
  split_ifs <;> omega

theorem le_setRange_iff (v l h bound : Int) (order : l ≤ h) :
    bound ≤ setRange v l h ↔ bound ≤ h ∧ (bound ≤ v ∨ bound ≤ l) := by
  unfold setRange
  dsimp only
  split_ifs <;> omega

theorem wrap_high (value : Int) (lower : 2147483648 ≤ value) (upper : value < 4294967296) :
    wrap value = value - 4294967296 := by
  unfold wrap
  omega

theorem row_bounds {v : VTE} (sane : Sane (frame v)) (inside : OnGrid v v.cursor) :
    (0 ≤ v.cursor.y ∧ v.cursor.y < v.height ∧ v.height < 2147483648) ∧
      0 ≤ v.top ∧ v.top ≤ v.bottom ∧ v.bottom < 2147483647 :=
  ⟨⟨inside.2.1, inside.2.2, sane.height.2⟩, sane.margins⟩

section
variable {v : VTE} (sane : Sane (frame v)) (inside : OnGrid v v.cursor) (n : Int) (range : 1 ≤ n ∧ n < 2147483648)
include sane inside range

theorem up_iff (x : Int) :
    (moveCursor x (setRange (wrap (v.cursor.y - n)) v.top v.bottom) v).cursor.y ≤ v.cursor.y ↔
      Unhindered .CUU v n := by
  obtain ⟨⟨lower, upper, height⟩, top, order, bottom⟩ := row_bounds sane inside
  rw [moveCursor_y, wrap_self _ (by omega) (by omega), Unhindered]
  cases v.flags .DECOM with
  | true =>
    rw [if_pos rfl, setRange_le_iff _ _ _ _ order, setRange_le_iff _ _ _ _ order]
    simp only [reduceCtorEq, false_and, or_false]
    omega
  | false =>
    rw [if_neg Bool.false_ne_true, setRange_le_iff _ _ _ _ (by omega), setRange_le_iff _ _ _ _ order]
    simp only [true_and]
    omega

theorem previousLine_iff (x : Int) :
    (moveCursor x (wrap (v.cursor.y - n)) v).cursor.y ≤ v.cursor.y ↔ Unhindered .CPL v n := by
  obtain ⟨⟨lower, upper, height⟩, top, order, bottom⟩ := row_bounds sane inside
  rw [moveCursor_y, wrap_self _ (by omega) (by omega), Unhindered]
  cases v.flags .DECOM with
  | true =>
    rw [if_pos rfl, setRange_le_iff _ _ _ _ order]
    simp only [true_imp_iff]
    omega
  | false =>
    rw [if_neg Bool.false_ne_true, setRange_le_iff _ _ _ _ (by omega)]
    simp only [reduceCtorEq, false_imp_iff, iff_true]
    omega

theorem down_iff (x : Int) :
    v.cursor.y ≤ (moveCursor x (setRange (wrap (v.cursor.y + n)) v.top v.bottom) v).cursor.y ↔
      Unhindered .CUD v n := by
  obtain ⟨⟨lower, upper, height⟩, top, order, bottom⟩ := row_bounds sane inside
  rw [moveCursor_y, Unhindered]
  have row : v.cursor.y ≤ setRange (wrap (v.cursor.y + n)) v.top v.bottom ↔
      if v.cursor.y + n < 2147483648 then v.cursor.y ≤ v.bottom else v.cursor.y ≤ v.top := by
    rw [le_setRange_iff _ _ _ _ order]
    split_ifs with small
    · rw [wrap_self _ (by omega) small]
      omega
    · rw [wrap_high _ (by omega) (by omega)]
      omega
  cases v.flags .DECOM with
  | true =>
    rw [if_pos rfl, le_setRange_iff _ _ _ _ order, row]
    split_ifs <;> omega
  | false =>
    rw [if_neg Bool.false_ne_true, le_setRange_iff _ _ _ _ (by omega), row]
    split_ifs <;> omega

theorem nextLine_iff (x : Int) :
    v.cursor.y ≤ (moveCursor x (wrap (v.cursor.y + n)) v).cursor.y ↔ Unhindered .CNL v n := by
  obtain ⟨⟨lower, upper, height⟩, top, order, bottom⟩ := row_bounds sane inside
  rw [moveCursor_y, Unhindered]
  cases v.flags .DECOM with
  | true =>
    rw [if_pos rfl, le_setRange_iff _ _ _ _ order]
    simp only [true_imp_iff, true_and]
    split_ifs with small
    · rw [wrap_self _ (by omega) small]
      omega
    · rw [wrap_high _ (by omega) (by omega)]
      omega
  | false =>
    rw [if_neg Bool.false_ne_true, le_setRange_iff _ _ _ _ (by omega)]
    simp only [reduceCtorEq, false_imp_iff, false_and]
    split_ifs with small
    · rw [wrap_self _ (by omega) small, iff_true]
      omega
    · rw [wrap_high _ (by omega) (by omega), iff_false]
      omega

theorem back_le (y : Int) : (moveCursor (wrap (v.cursor.x - n)) y v).cursor.x ≤ v.cursor.x := by
  obtain ⟨⟨left, right⟩, -⟩ := inside
  have width : v.width < 2147483648 := sane.width.2
  rw [moveCursor_x, wrap_self _ (by omega) (by omega), setRange_le_iff _ _ _ _ (by omega)]
  omega

theorem forward_iff (y : Int) :
    v.cursor.x ≤ (moveCursor (wrap (v.cursor.x + n)) y v).cursor.x ↔ Unhindered .CUF v n := by
  obtain ⟨⟨left, right⟩, -⟩ := inside
  have width : v.width < 2147483648 := sane.width.2
  rw [moveCursor_x, le_setRange_iff _ _ _ _ (by omega), Unhindered]
  by_cases small : v.cursor.x + n < 2147483648
  · rw [wrap_self _ (by omega) small]
    omega
  · rw [wrap_high _ (by omega) (by omega)]
    omega

end

/-- In every state that the parser gets into with its cursor on the screen, and for every parameter,
a relative motion goes the right way if and only if it is unhindered. -/
theorem rightWay_iff (v : VTE) (reached : Reached frontend v) (inside : OnGrid v v.cursor) (data : ControlData)
    (space : data.spaceLeft = true) (c : uchar) (motion : Final) (known : (c, motion) ∈ motions) :
    RightWay motion v (process frontend (inSequence v data) c) ↔
      Unhindered motion v (getDefault (data.getArg 0) 1) := by
  have listed : ∀ entry ∈ motions, finalTable.lookup entry.1 = some entry.2 := by decide
  have sane : Sane (frame (inSequence v data)) := reached_sane frontend v reached
  have inside : OnGrid (inSequence v data) (inSequence v data).cursor := inside
  have range := count_range (inSequence v data) 0
  rw [process_csi frontend (inSequence v data) c rfl space motion (listed _ known)]
  cases motion with
  | CUU => exact up_iff sane inside _ range _
  | CPL => exact previousLine_iff sane inside _ range _
  | CUD => exact down_iff sane inside _ range _
  | CNL => exact nextLine_iff sane inside _ range _
  | CUB => exact iff_of_true (back_le sane inside _ range _) trivial
  | CUF => exact forward_iff sane inside _ range _
  | _ => exact Iff.rfl

/-- One column to the right on a new screen. -/
theorem rightWay_iff_forward : Reached CmdSpy.frontend CmdSpy.fresh.vte ∧
    RightWay .CUF CmdSpy.fresh.vte (process CmdSpy.frontend (inSequence CmdSpy.fresh.vte {}) (byte 'C')) := by
  have reached : Reached CmdSpy.frontend CmdSpy.fresh.vte := ⟨CmdSpy.blank, [], ⟨by decide, by decide⟩, rfl⟩
  refine ⟨reached, (rightWay_iff CmdSpy.frontend _ reached ⟨by decide, by decide⟩ {} rfl (byte 'C') .CUF (by decide)).mpr ?_⟩
  exact (by decide : (0 : Int) + 1 < 2147483648)

/-- Margins from row 10 to row 20, with the cursor in the first row. -/
def aboveMargins : VTE := run CmdSpy.frontend CmdSpy.fresh.vte ("\x1b[10;20r".toList.map byte)

/-- The cursor in the sixth column, and the largest number behind an introducer. -/
def largestStep : VTE := run CmdSpy.frontend CmdSpy.fresh.vte ("\x1b[6G\x1b[2147483647".toList.map byte)

/-- Up goes down to the top margin, and the largest step to the right goes to the first column. -/
theorem motions_turned : ¬ RightWay .CUU aboveMargins (process CmdSpy.frontend (inSequence aboveMargins {}) (byte 'A')) ∧
    ¬ RightWay .CUF largestStep
      (process CmdSpy.frontend (inSequence largestStep largestStep.csiData) (byte 'C')) := by
  have down : aboveMargins.cursor.y = 0 ∧
      (process CmdSpy.frontend (inSequence aboveMargins {}) (byte 'A')).cursor.y = 9 := by
    decide +kernel
  have left : largestStep.cursor.x = 5 ∧
      (process CmdSpy.frontend (inSequence largestStep largestStep.csiData) (byte 'C')).cursor.x = 0 := by
    decide +kernel
  refine ⟨?_, ?_⟩
  · intro right
    have above : (process CmdSpy.frontend (inSequence aboveMargins {}) (byte 'A')).cursor.y ≤ aboveMargins.cursor.y :=
      right
    omega
  · intro right
    have behind : largestStep.cursor.x ≤
        (process CmdSpy.frontend (inSequence largestStep largestStep.csiData) (byte 'C')).cursor.x := right
    omega

/-! ## Rows and columns -/

/-- `ESC [ n d ESC [ m G`. -/
def rowColumn (n m : List uchar) : List uchar :=
  ([0x1b, byte '['] ++ n ++ [byte 'd']) ++ ([0x1b, byte '['] ++ m ++ [byte 'G'])

/-- `ESC [ n ; m H`. -/
def position (n m : List uchar) : List uchar := [0x1b, byte '['] ++ (n ++ [byte ';'] ++ m) ++ [byte 'H']

/-- The state without the calls of the last byte. -/
def settled (v : VTE) : VTE := { v with events := [] }

/-- The row asked for is at or below the last one, and the largest `int` is not passed by one. -/
def BeyondRows (v : VTE) (n : Int) : Prop :=
  if v.flags .DECOM then v.bottom < n + v.top ∧ (n + v.top = 2147483648 → v.top = v.bottom) else v.height ≤ n

theorem run_introducer_any (empty : v.utf8Buffer = []) :
    run frontend v [0x1b, byte '['] = inSequence (arrival v) {} := by
  have escaped : process frontend v 0x1b = { arrival v with events := [], mode := .esc } := by
    rw [process_escaped frontend empty, ← arrival_log v]
  change process frontend (process frontend v 0x1b) (byte '[') = _
  rw [escaped, process_bracket]

/-- The state after the cursor was placed. -/
def placed (x y : Int) (v : VTE) : VTE :=
  { place x y v with cursorHidden := !v.flags .DECTCEM, events := [] }

theorem hc_cursorHidden : (hc v).cursorHidden = true := by
  cases hidden : v.cursorHidden <;> simp [hc, hidden]

theorem settled_sc (hidden : v.cursorHidden = true) :
    settled (sc v) = { v with cursorHidden := !v.flags .DECTCEM, events := [] } := by
  unfold sc settled
  rw [hidden, Bool.and_true]
  cases v.flags .DECTCEM with
  | true => rfl
  | false => simp [hidden]

theorem settled_moveCursor : settled (moveCursor x y v) = placed x y v := by
  have hidden : (place x y (hc v)).cursorHidden = true := hc_cursorHidden v
  rw [moveCursor, settled_sc _ hidden]
  unfold placed hc
  split_ifs <;> rfl

theorem settled_moved (data : ControlData) :
    settled (resetEscape (moveCursor x y (inSequence v data))) = resetEscape (placed x y v) :=
  congrArg resetEscape (settled_moveCursor x y (inSequence v data))

theorem placed_placed (x y a b : Int) (v : VTE) :
    resetEscape (placed x y (resetEscape (placed a b v))) = resetEscape (placed x y v) := rfl

theorem argument_first (n : List uchar) (decimal : ∀ c ∈ n, isDigit c = true) (short : n.length ≤ 29) :
    ∃ data, after accept {} n = some data ∧ data.spaceLeft = true ∧ data.getArg 0 = atoi n := by
  obtain ⟨data, taken, layout, -⟩ := accept_numeral n [] [0] {} ⟨rfl, rfl, rfl⟩ decimal (by simp; omega)
  rw [List.nil_append] at layout
  have clean : ∀ numeral ∈ [n], NulFree numeral := by
    rw [List.forall_mem_singleton]
    exact nulFree_decimal n decimal
  have written : Layout ([0].intercalate [n]) (offsets 0 [n]) data := by
    rw [List.intercalate_singleton]
    exact layout
  refine ⟨data, taken, layout.spaceLeft (by omega), ?_⟩
  exact getArg_layout [n] data written clean (by rw [List.intercalate_singleton]; omega) 0 n rfl

theorem argument_both (n m : List uchar) (decimal : ∀ c ∈ n ++ m, isDigit c = true)
    (short : n.length + m.length ≤ 28) :
    ∃ data, after accept {} (n ++ [byte ';'] ++ m) = some data ∧ data.spaceLeft = true ∧
      data.getArg 0 = atoi n ∧ data.getArg 1 = atoi m := by
  obtain ⟨first, second⟩ := List.forall_mem_append.mp decimal
  have digits : ∀ numeral ∈ [n, m], ∀ c ∈ numeral, isDigit c = true := by simpa using ⟨first, second⟩
  have joined (a : uchar) : [a].intercalate [n, m] = n ++ [a] ++ m := by simp [List.intercalate_cons_cons]
  obtain ⟨data, taken, layout, -⟩ := accept_numerals n [m] [] [0] {} ⟨rfl, rfl, rfl⟩ digits (by
    rw [joined]
    simp
    omega)
  rw [List.nil_append] at layout
  have clean : ∀ numeral ∈ [n, m], NulFree numeral := fun numeral member => nulFree_decimal numeral (digits numeral member)
  have room : ([0].intercalate [n, m]).length < 30 := by
    rw [joined]
    simp
    omega
  rw [joined] at taken
  refine ⟨data, taken, layout.spaceLeft room, ?_, ?_⟩
  · exact getArg_layout [n, m] data layout clean (by omega) 0 n rfl
  · exact getArg_layout [n, m] data layout clean (by omega) 1 m rfl

theorem run_sequence (empty : v.utf8Buffer = []) (body : List uchar) (data : ControlData) (c : uchar)
    (text : ∀ d ∈ body, isControl d = false) (taken : after accept {} body = some data) (space : data.spaceLeft = true)
    (last : 0x40 ≤ c ∧ c ≤ 0x7e) :
    run frontend v ([0x1b, byte '['] ++ body ++ [c]) =
      resetEscape (Parameters.perform frontend c (inSequence (arrival v) data)) := by
  rw [run_append, run_append, run_introducer_any frontend v empty, run_accept frontend _ {} data body text taken]
  exact process_final frontend _ data c last space

/-- The row of the cursor for a row that is asked for. -/
def row (v : VTE) (y : Int) : Int := if v.flags .DECOM then setRange y v.top v.bottom else setRange y 0 (v.height - 1)

theorem row_row (sane : Sane (frame v)) (y : Int) : row v (row v y) = row v y := by
  have order : v.top ≤ v.bottom := sane.margins.2.1
  have height : 0 < v.height := sane.height.1
  unfold row
  split_ifs
  · have between := setRange_between y _ _ order
    exact setRange_self _ _ _ between.1 between.2
  · have between := setRange_between y 0 (v.height - 1) (by omega)
    exact setRange_self _ _ _ between.1 between.2

theorem placed_eq_iff (x y z : Int) (v : VTE) :
    resetEscape (placed x y v) = resetEscape (placed x z v) ↔ row v y = row v z := by
  refine ⟨?_, ?_⟩
  · intro same
    exact congrArg (fun w : VTE => w.cursor.y) same
  · intro same
    have placed_row (y : Int) : placed x y v =
        { v with
          cursor := { v.cursor with x := setRange x 0 (v.width - 1), y := row v y, cs := .normal }
          cursorHidden := !v.flags .DECTCEM
          events := [] } := rfl
    rw [placed_row, placed_row, same]

theorem count_of_argument (data : ControlData) (arg : Nat) (numeral : List uchar)
    (known : data.getArg arg = atoi numeral) : count (inSequence v data) arg = getDefault (atoi numeral) 1 := by
  rw [← known]
  rfl

/-- The row that a sequence asks for, from the origin. -/
def asked (v : VTE) (n : Int) : Int := wrap (n + if v.flags .DECOM then v.top else 0)

section
variable (v : VTE) (empty : v.utf8Buffer = []) (n m : List uchar) (decimal : ∀ c ∈ n ++ m, isDigit c = true)
  (short : n.length + m.length ≤ 28)
include empty decimal short

theorem settled_row : settled (run frontend v ([0x1b, byte '['] ++ n ++ [byte 'd'])) =
    resetEscape (placed (arrival v).cursor.x (asked (arrival v) (getDefault (atoi n) 1)) (arrival v)) := by
  have digits := (List.forall_mem_append.mp decimal).1
  have known : finalTable.lookup (byte 'd') = some .VPA := by decide
  obtain ⟨data, taken, space, arg⟩ := argument_first n digits (by omega)
  rw [run_sequence frontend v empty n data (byte 'd') (fun c member => digit_text c (digits c member)) taken space
    (by decide)]
  simp only [Parameters.perform, known, final, moveCursorAbsolute]
  rw [count_of_argument _ data 0 n arg]
  exact settled_moved _ _ _ data

theorem settled_rowColumn : settled (run frontend v (rowColumn n m)) =
    resetEscape (placed (getDefault (atoi m) 1 - 1)
      (row (arrival v) (asked (arrival v) (getDefault (atoi n) 1))) (arrival v)) := by
  have digits := (List.forall_mem_append.mp decimal).2
  have known : finalTable.lookup (byte 'G') = some .CHA := by decide
  obtain ⟨data, taken, space, arg⟩ := argument_first m digits (by omega)
  have first := settled_row frontend v empty n m decimal short
  rw [rowColumn, run_append]
  generalize run frontend v ([0x1b, byte '['] ++ n ++ [byte 'd']) = w at first
  have buffer : w.utf8Buffer = [] := by
    calc w.utf8Buffer
        = (settled w).utf8Buffer := rfl
      _ = (arrival v).utf8Buffer := by rw [first]; rfl
      _ = [] := (arrival_utf8Buffer v).trans empty
  have ground : w.mode ≠ .string := by
    have mode : (settled w).mode = .ground := by rw [first]; rfl
    change (settled w).mode ≠ .string
    rw [mode]
    decide
  have arrived : arrival w = settled w := arrival_of_ne ground
  rw [run_sequence frontend w buffer m data (byte 'G') (fun c member => digit_text c (digits c member)) taken space
    (by decide), arrived, first]
  simp only [Parameters.perform, known, final]
  rw [count_of_argument _ data 0 m arg, settled_moved, placed_placed]
  rfl

theorem settled_position : settled (run frontend v (position n m)) =
    resetEscape (placed (getDefault (atoi m) 1 - 1) (asked (arrival v) (getDefault (atoi n) 1 - 1)) (arrival v)) := by
  have known : finalTable.lookup (byte 'H') = some .CUP := by decide
  obtain ⟨data, taken, space, first, second⟩ := argument_both n m decimal short
  have text : ∀ c ∈ n ++ [byte ';'] ++ m, isControl c = false := by
    have digits := List.forall_mem_append.mp decimal
    rw [List.forall_mem_append, List.forall_mem_append, List.forall_mem_singleton]
    exact ⟨⟨fun c member => digit_text c (digits.1 c member), by decide⟩,
      fun c member => digit_text c (digits.2 c member)⟩
  rw [position, run_sequence frontend v empty _ data (byte 'H') text taken space (by decide)]
  simp only [Parameters.perform, known, final, moveCursorAbsolute]
  rw [count_of_argument _ data 0 n first, count_of_argument _ data 1 m second]
  exact settled_moved _ _ _ data

end

/-- The last row is given for a row and for the one above it. -/
theorem row_asked_iff (sane : Sane (frame v)) (n : Int) (range : 1 ≤ n ∧ n < 2147483648) :
    row v (asked v n) = row v (asked v (n - 1)) ↔ BeyondRows v n := by
  obtain ⟨top, order, bottom⟩ : 0 ≤ v.top ∧ v.top ≤ v.bottom ∧ v.bottom < 2147483647 := sane.margins
  have height : 0 < v.height := sane.height.1
  unfold row asked BeyondRows
  split_ifs
  · by_cases small : n + v.top < 2147483648
    · rw [wrap_self (n + v.top) (by omega) small, wrap_self (n - 1 + v.top) (by omega) (by omega)]
      unfold setRange
      dsimp only
      split_ifs <;> omega
    · rw [wrap_high (n + v.top) (by omega) (by omega)]
      by_cases exact : n + v.top = 2147483648
      · rw [wrap_self (n - 1 + v.top) (by omega) (by omega)]
        unfold setRange
        dsimp only
        split_ifs <;> omega
      · rw [wrap_high (n - 1 + v.top) (by omega) (by omega)]
        unfold setRange
        dsimp only
        split_ifs <;> omega
  · rw [wrap_self (n + 0) (by omega) (by omega), wrap_self (n - 1 + 0) (by omega) (by omega)]
    unfold setRange
    dsimp only
    split_ifs <;> omega

/-- From every state that the parser gets into between characters, `ESC [ n d ESC [ m G` and
`ESC [ n ; m H` lead to the same state if and only if `n` is at or below the last row. -/
theorem addressed_iff (v : VTE) (reached : Reached frontend v) (empty : v.utf8Buffer.length = 0) (n m : List uchar)
    (decimal : ∀ c ∈ n ++ m, isDigit c = true) (short : n.length + m.length ≤ 28) :
    settled (run frontend v (rowColumn n m)) = settled (run frontend v (position n m)) ↔
      BeyondRows v (getDefault (atoi n) 1) := by
  have clean := List.length_eq_zero_iff.mp empty
  have sane : Sane (frame (arrival v)) := by
    rw [(arrival_still v).frame]
    exact reached_sane frontend v reached
  have range : 1 ≤ getDefault (atoi n) 1 ∧ getDefault (atoi n) 1 < 2147483648 := by
    have wrapped : -2147483648 ≤ atoi n ∧ atoi n < 2147483648 := wrap_range _
    unfold getDefault
    split_ifs <;> omega
  have unmoved : BeyondRows (arrival v) (getDefault (atoi n) 1) ↔ BeyondRows v (getDefault (atoi n) 1) := by
    unfold arrival
    split_ifs <;> exact Iff.rfl
  rw [settled_rowColumn frontend v clean n m decimal short, settled_position frontend v clean n m decimal short,
    placed_eq_iff, row_row _ sane, row_asked_iff _ sane _ range, unmoved]

/-- Row 800 of a screen with 768 rows. -/
theorem addressed_iff_below : Reached CmdSpy.frontend CmdSpy.fresh.vte ∧
    settled (run CmdSpy.frontend CmdSpy.fresh.vte (rowColumn [byte '8', byte '0', byte '0'] [byte '5'])) =
      settled (run CmdSpy.frontend CmdSpy.fresh.vte (position [byte '8', byte '0', byte '0'] [byte '5'])) := by
  have reached : Reached CmdSpy.frontend CmdSpy.fresh.vte := ⟨CmdSpy.blank, [], ⟨by decide, by decide⟩, rfl⟩
  refine ⟨reached, (addressed_iff CmdSpy.frontend _ reached (by decide) [byte '8', byte '0', byte '0'] [byte '5'] (by decide)
    (by decide)).mpr ?_⟩
  exact (by decide : (768 : Int) ≤ getDefault (atoi [byte '8', byte '0', byte '0']) 1)

/-- The first row and the first column are given in one way as row 0, and in the other as row 1. -/
theorem first_row_missed :
    settled (run CmdSpy.frontend CmdSpy.fresh.vte (rowColumn [byte '1'] [byte '1'])) ≠
      settled (run CmdSpy.frontend CmdSpy.fresh.vte (position [byte '1'] [byte '1'])) := by
  have rows : (run CmdSpy.frontend CmdSpy.fresh.vte (rowColumn [byte '1'] [byte '1'])).cursor.y = 1 ∧
      (run CmdSpy.frontend CmdSpy.fresh.vte (position [byte '1'] [byte '1'])).cursor.y = 0 := by
    decide +kernel
  intro same
  have equal := congrArg (fun v : VTE => v.cursor.y) same
  change (run CmdSpy.frontend CmdSpy.fresh.vte (rowColumn [byte '1'] [byte '1'])).cursor.y =
    (run CmdSpy.frontend CmdSpy.fresh.vte (position [byte '1'] [byte '1'])).cursor.y at equal
  omega

end Woterm.Terminal.Motion
