import Mathlib.Data.List.Basic
import Woterm.Lib.CString

/-!
Arrays of a fixed size as C code uses them: a cell is read with `cells[i]?` and written with
`store`, and neither has a result outside of the array. A pointer into an array is an offset, and
where the index is an `int`, `readAt` and `writeAt` refuse the negative ones too.
-/

namespace Woterm.Lib.Slots

variable {α : Type*} {n : Nat}

/-- The assignment to a cell. -/
def store (cells : Vector α n) (i : Nat) (value : α) : Option (Vector α n) :=
  if inside : i < n then some (cells.set i value inside) else none

/-- The bytes before a NUL; nothing if there is no NUL. -/
def terminated : List UInt8 → Option (List UInt8)
  | [] => none
  | byte :: rest => if byte = 0 then some [] else (terminated rest).map (byte :: ·)

/-- The string at an offset, read up to its NUL. -/
def stringAt (cells : Vector UInt8 n) (start : Nat) : Option (List UInt8) :=
  terminated (cells.toList.drop start)

variable (cells : Vector α n) (i : Nat)

theorem store_eq (value : α) (inside : i < n) : store cells i value = some (cells.set i value inside) := by
  rw [store, dif_pos inside]

theorem take_set (value : α) (inside : i < n) :
    (cells.set i value inside).toList.take (i + 1) = cells.toList.take i ++ [value] := by
  have room : i < (cells.toList.set i value).length := by simpa using inside
  rw [Vector.toList_set, ← List.take_append_getElem room, List.take_set_of_le (Nat.le_refl i),
    List.getElem_set_self]

theorem behind_set (next : Nat) (value rest : α) (inside : next < n)
    (behind : ∀ i, next ≤ i → i < n → cells[i]? = some rest) :
    ∀ i, next + 1 ≤ i → i < n → (cells.set next value inside)[i]? = some rest := by
  intro i after within
  rw [Vector.getElem?_set_ne inside (Nat.ne_of_lt after)]
  exact behind i (Nat.le_of_succ_le after) within

theorem terminated_eq (bytes : List UInt8) (stops : 0 ∈ bytes) :
    terminated bytes = some (CString.cstr bytes) := by
  induction bytes with
  | nil => simp at stops
  | cons byte rest ih =>
    by_cases nul : byte = 0
    · simp [terminated, CString.cstr, nul]
    · have later : 0 ∈ rest := (List.mem_cons.mp stops).resolve_left (Ne.symm nul)
      simp [terminated, nul, ih later, CString.cstr]

theorem stringAt_eq (cells : Vector UInt8 n) (start stop : Nat) (order : start ≤ stop)
    (nul : cells[stop]? = some 0) : stringAt cells start = some (CString.cstr (cells.toList.drop start)) := by
  apply terminated_eq
  apply List.mem_of_getElem? (i := stop - start)
  rw [List.getElem?_drop, Nat.add_sub_cancel' order, Vector.getElem?_toList, nul]

def readAt (cells : Vector α n) (i : Int) : Option α := if 0 ≤ i then cells[i.toNat]? else none

def writeAt (cells : Vector α n) (i : Int) (value : α) : Option (Vector α n) :=
  if 0 ≤ i then store cells i.toNat value else none

/-- `tmp = cells[i]; cells[i] = cells[j]; cells[j] = tmp;` -/
def exchange (cells : Vector α n) (i j : Int) : Option (Vector α n) := do
  let tmp ← readAt cells i
  let cells ← writeAt cells i (← readAt cells j)
  writeAt cells j tmp

theorem readAt_natCast (inside : i < n) : readAt cells i = some cells[i] := by
  rw [readAt, if_pos (Int.natCast_nonneg i), Int.toNat_natCast, Vector.getElem?_eq_getElem inside]

theorem writeAt_natCast (value : α) (inside : i < n) : writeAt cells i value = some (cells.set i value inside) := by
  rw [writeAt, if_pos (Int.natCast_nonneg i), Int.toNat_natCast, store_eq cells i value inside]

theorem readAt_split (front back : List α) (a : α) (shape : cells.toList = front ++ a :: back) :
    readAt cells front.length = some a := by
  rw [readAt, if_pos (Int.natCast_nonneg _), Int.toNat_natCast, ← Vector.getElem?_toList, shape]
  simp

theorem writeAt_split (front back : List α) (old value : α) (shape : cells.toList = front ++ old :: back) :
    ∃ next, writeAt cells front.length value = some next ∧ next.toList = front ++ value :: back := by
  have inside : front.length < n := by
    rw [← cells.length_toList, shape, List.length_append, List.length_cons]
    omega
  refine ⟨_, writeAt_natCast cells front.length value inside, ?_⟩
  rw [Vector.toList_set, shape]
  simp

theorem exchange_natCast (i j : Nat) (first : i < n) (second : j < n) :
    exchange cells i j = some (cells.swap i j first second) := by
  simp only [exchange, readAt_natCast, writeAt_natCast, first, second, Option.bind_eq_bind, Option.bind_some]
  rfl

end Woterm.Lib.Slots
