import Mathlib.Data.List.Basic

/-!
Entries of a list that are changed in place, one after the other: each of a block of them, or a block moved to another
place of the list, which may overlap the first. There is no result outside of the list.
-/

namespace Woterm.Lib.Blocks

variable {α : Type*}

def change (list : List α) (i : Nat) (f : α → α) : Option (List α) := do
  let a ← list[i]?
  return list.set i (f a)

def copy (list : List α) (dest source : Nat) : Option (List α) := do
  let a ← list[source]?
  change list dest fun _ => a

theorem change_eq {list : List α} {i : Nat} {a : α} (read : list[i]? = some a) (f : α → α) :
    change list i f = some (list.set i (f a)) := by
  rw [change, read]
  rfl

theorem copy_eq {list : List α} {dest source : Nat} {a : α} (inside : dest < list.length)
    (read : list[source]? = some a) : copy list dest source = some (list.set dest a) := by
  rw [copy, read]
  exact change_eq (List.getElem?_eq_getElem inside) _

/-! ## Each entry of a block -/

/-- The list with each entry of a block changed. -/
def changed (list : List α) (first count : Nat) (f : Nat → α → α) : List α :=
  list.mapIdx fun i a => if first ≤ i ∧ i < first + count then f i a else a

variable (list : List α) (dest source count : Nat)

@[simp] theorem length_changed (first count : Nat) (f : Nat → α → α) :
    (changed list first count f).length = list.length :=
  List.length_mapIdx

theorem getElem?_changed (first count : Nat) (f : Nat → α → α) (i : Nat) :
    (changed list first count f)[i]? =
      if first ≤ i ∧ i < first + count then list[i]?.map (f i) else list[i]? := by
  rw [changed, List.getElem?_mapIdx]
  split
  · rfl
  · exact Option.map_id'

theorem foldlM_change (first count : Nat) (f : Nat → α → α) (inside : first + count ≤ list.length) :
    (List.range count).foldlM (fun list i => change list (first + i) (f (first + i))) list =
      some (changed list first count f) := by
  induction count with
  | zero =>
    refine congrArg some (List.ext_getElem? fun i => ?_)
    rw [getElem?_changed, if_neg (by omega)]
  | succ count ih =>
    obtain ⟨a, read⟩ : ∃ a, list[first + count]? = some a := ⟨_, List.getElem?_eq_getElem (by omega)⟩
    have here : (changed list first count f)[first + count]? = some a := by
      rw [getElem?_changed, if_neg (by omega), read]
    rw [List.range_succ, List.foldlM_append, ih (by omega)]
    simp only [List.foldlM_cons, List.foldlM_nil, Option.bind_eq_bind, Option.bind_some, change_eq here]
    refine congrArg some (List.ext_getElem? fun i => ?_)
    grind [getElem?_changed, length_changed]

/-! ## A block that is moved -/

/-- The list with a block of it written to another place. -/
def moved (list : List α) (dest source count : Nat) : List α :=
  changed list dest count fun i a => (list[i - dest + source]?).getD a

@[simp] theorem length_moved : (moved list dest source count).length = list.length :=
  length_changed ..

theorem getElem?_moved (destInside : dest + count ≤ list.length)
    (sourceInside : source + count ≤ list.length) (i : Nat) :
    (moved list dest source count)[i]? =
      if dest ≤ i ∧ i < dest + count then list[i - dest + source]? else list[i]? := by
  rw [moved, getElem?_changed]
  split
  · rw [List.getElem?_eq_getElem (show i < list.length by omega),
      List.getElem?_eq_getElem (show i - dest + source < list.length by omega)]
    rfl
  · rfl

/-- Upwards from the first entry of the block. What is read has not been written yet. -/
theorem foldlM_copy_range (before : dest ≤ source) (inside : source + count ≤ list.length) :
    (List.range count).foldlM (fun list i => copy list (dest + i) (source + i)) list =
      some (moved list dest source count) := by
  induction count with
  | zero =>
    refine congrArg some (List.ext_getElem? fun i => ?_)
    rw [getElem?_moved _ _ _ _ (by omega) (by omega), if_neg (by omega)]
  | succ count ih =>
    obtain ⟨a, read⟩ : ∃ a, list[source + count]? = some a := ⟨_, List.getElem?_eq_getElem (by omega)⟩
    have here : (moved list dest source count)[source + count]? = some a := by
      rw [getElem?_moved _ _ _ _ (by omega) (by omega), if_neg (by omega), read]
    have there : dest + count < (moved list dest source count).length := by
      rw [length_moved]
      omega
    rw [List.range_succ, List.foldlM_append, ih (by omega)]
    simp only [List.foldlM_cons, List.foldlM_nil, Option.bind_eq_bind, Option.bind_some, copy_eq there here]
    refine congrArg some (List.ext_getElem? fun i => ?_)
    grind [getElem?_moved, length_moved]

theorem foldlM_copy_reverse (behind : source ≤ dest) (inside : dest + count ≤ list.length) :
    (List.range count).reverse.foldlM (fun list i => copy list (dest + i) (source + i)) list =
      some (moved list dest source count) := by
  induction count generalizing list with
  | zero =>
    refine congrArg some (List.ext_getElem? fun i => ?_)
    rw [getElem?_moved _ _ _ _ (by omega) (by omega), if_neg (by omega)]
  | succ count ih =>
    obtain ⟨a, read⟩ : ∃ a, list[source + count]? = some a := ⟨_, List.getElem?_eq_getElem (by omega)⟩
    rw [List.range_succ, List.reverse_append, List.reverse_singleton, List.singleton_append, List.foldlM_cons,
      copy_eq (by omega) read, Option.bind_eq_bind, Option.bind_some, ih (list.set (dest + count) a) (by simp; omega)]
    refine congrArg some (List.ext_getElem? fun i => ?_)
    grind [getElem?_moved, length_moved]

end Woterm.Lib.Blocks
