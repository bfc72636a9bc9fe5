import Mathlib.Data.List.DropRight
import Mathlib.Logic.Function.Basic

/-!
A ring of cells that keeps the last entries: entries are written one behind the other, and from the start again
when there is no cell left.
-/

namespace Woterm.Lib.Ring

variable {α : Type*}

/-- The cell of an entry, when so many cells are in use and `next` is the one behind the latest entry. -/
def place (capacity used next i : Nat) : Nat := if used = capacity then (next + i) % capacity else i

/-- The entries from the oldest one on. -/
def entries (cell : Nat → α) (capacity used next : Nat) : List α :=
  (List.range used).map fun i => cell (place capacity used next i)

/-- The cell that is written next. -/
def target (capacity next : Nat) : Nat := if capacity ≤ next then 0 else next

/-- As long as a cell has not been used, the entries are in the order of the cells. -/
structure Tidy (capacity used next : Nat) : Prop where
  used_le : used ≤ capacity
  ordered : used < capacity → next = used
  wrapped : used = capacity → 0 < next ∧ next ≤ capacity

theorem length_entries (cell : Nat → α) (capacity used next : Nat) : (entries cell capacity used next).length = used := by
  rw [entries, List.length_map, List.length_range]

theorem getElem?_entries (cell : Nat → α) (capacity used next i : Nat) (inside : i < used) :
    (entries cell capacity used next)[i]? = some (cell (place capacity used next i)) := by
  rw [entries, List.getElem?_map, List.getElem?_range inside, Option.map_some]

theorem place_lt {capacity used next i : Nat} (tidy : Tidy capacity used next) (inside : i < used) :
    place capacity used next i < capacity := by
  have used_le := tidy.used_le
  unfold place
  split
  · exact Nat.mod_lt _ (by omega)
  · omega

theorem target_lt {capacity : Nat} (room : 0 < capacity) (next : Nat) : target capacity next < capacity := by
  unfold target
  split <;> omega

theorem tidy_push {capacity used next : Nat} (room : 0 < capacity) (tidy : Tidy capacity used next) :
    Tidy capacity (min (used + 1) capacity) (target capacity next + 1) where
  used_le := Nat.min_le_right _ _
  ordered less := by
    have ordered := tidy.ordered (by omega)
    rw [target, if_neg (by omega)]
    omega
  wrapped _ := ⟨Nat.succ_pos _, target_lt room next⟩

theorem place_last {capacity used next : Nat} (room : 0 < capacity) (tidy : Tidy capacity used next) :
    place capacity (min (used + 1) capacity) (target capacity next + 1) (min (used + 1) capacity - 1) =
      target capacity next := by
  have inside := target_lt room next
  have used_le := tidy.used_le
  unfold place
  split
  next full =>
    rw [full, show target capacity next + 1 + (capacity - 1) = target capacity next + capacity by omega,
      Nat.add_mod_right, Nat.mod_eq_of_lt inside]
  next free =>
    have ordered := tidy.ordered (by omega)
    rw [target, if_neg (by omega)]
    omega

/-- The entries that were there move up by one if all cells were in use. -/
theorem place_earlier {capacity used next i : Nat} (tidy : Tidy capacity used next)
    (inside : i + 1 < min (used + 1) capacity) :
    place capacity (min (used + 1) capacity) (target capacity next + 1) i =
      place capacity used next (i + (used + 1 - capacity)) := by
  have used_le := tidy.used_le
  rcases Nat.lt_or_ge used capacity with free | full
  · have ordered := tidy.ordered free
    rw [place, place, if_neg (by omega : used ≠ capacity)]
    split
    next last =>
      have here : used + 1 = capacity := by omega
      rw [target, if_neg (by omega), ordered, here, Nat.add_mod_left, Nat.mod_eq_of_lt (by omega)]
      omega
    next => omega
  · obtain rfl : used = capacity := by omega
    obtain ⟨_, low⟩ := tidy.wrapped rfl
    rw [Nat.min_eq_right (Nat.le_succ _), place, if_pos rfl, place, if_pos rfl, target]
    split
    next over_ =>
      obtain rfl : next = used := by omega
      rw [Nat.add_mod_left, show i + (next + 1 - next) = 0 + 1 + i by omega]
    next => rw [show next + (i + (used + 1 - used)) = next + 1 + i by omega]

theorem place_ne_target {capacity used next i : Nat} (room : 0 < capacity) (tidy : Tidy capacity used next)
    (inside : i + 1 < min (used + 1) capacity) :
    place capacity (min (used + 1) capacity) (target capacity next + 1) i ≠ target capacity next := by
  have below := target_lt room next
  have used_le := tidy.used_le
  unfold place
  split
  next full =>
    -- less than one round apart
    intro same
    have round : (target capacity next + (1 + i)) % capacity = target capacity next := by
      rw [← Nat.add_assoc]
      exact same
    have step : 1 + i < capacity := by omega
    rcases Nat.lt_or_ge (target capacity next + (1 + i)) capacity with low | high
    · rw [Nat.mod_eq_of_lt low] at round
      omega
    · rw [Nat.mod_eq_sub_mod high, Nat.mod_eq_of_lt (by omega)] at round
      omega
  next free =>
    have ordered := tidy.ordered (by omega)
    rw [target, if_neg (by omega)]
    omega

theorem rtake_of_length_le (list : List α) (n : Nat) (short : list.length ≤ n) : list.rtake n = list := by
  rw [List.rtake, Nat.sub_eq_zero_of_le short, List.drop_zero]

theorem rtake_append (list more : List α) (n : Nat) : (list.rtake n ++ more).rtake n = (list ++ more).rtake n := by
  rcases Nat.le_total list.length n with short | long
  · rw [rtake_of_length_le list n short]
  · have kept : list.rtake n ++ more = (list ++ more).drop (list.length - n) :=
      (List.drop_append_of_le_length (Nat.sub_le _ _)).symm
    rw [kept, List.rtake, List.rtake, List.drop_drop, List.length_drop]
    congr 1
    rw [List.length_append]
    omega

/-- A ring keeps the last entries. -/
theorem entries_push {capacity used next : Nat} (room : 0 < capacity) (tidy : Tidy capacity used next)
    (cell : Nat → α) (entry : α) :
    entries (Function.update cell (target capacity next) entry) capacity (min (used + 1) capacity)
        (target capacity next + 1) =
      (entries cell capacity used next ++ [entry]).rtake capacity := by
  have used_le := tidy.used_le
  apply List.ext_getElem?
  intro i
  rw [List.rtake, List.getElem?_drop, List.length_append, length_entries, List.length_singleton]
  rcases Nat.lt_trichotomy (i + 1) (min (used + 1) capacity) with earlier | last | behind
  · rw [getElem?_entries _ _ _ _ _ (by omega), Function.update_of_ne (place_ne_target room tidy earlier),
      place_earlier tidy earlier, List.getElem?_append_left (by rw [length_entries]; omega),
      getElem?_entries _ _ _ _ _ (by omega), Nat.add_comm]
  · obtain rfl : i = min (used + 1) capacity - 1 := by omega
    rw [getElem?_entries _ _ _ _ _ (by omega), place_last room tidy, Function.update_self,
      show used + 1 - capacity + (min (used + 1) capacity - 1) = used by omega,
      List.getElem?_append_right (by rw [length_entries]), length_entries, Nat.sub_self]
    rfl
  · rw [List.getElem?_eq_none (by rw [length_entries]; omega),
      List.getElem?_eq_none (by rw [List.length_append, length_entries, List.length_singleton]; omega)]

end Woterm.Lib.Ring
