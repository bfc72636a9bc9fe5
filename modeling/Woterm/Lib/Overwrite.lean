import Mathlib.Data.List.Perm.Basic
import Mathlib.Data.List.Infix

/-!
Values that are overwritten along a list: some items give a value, and the last one that does
decides. The order of the items has no effect exactly when no two of them give different values.
-/

namespace Woterm.Lib.Overwrite

variable {α β : Type*} (give : α → Option β)

/-- The value of the last item that gives one. -/
def final (items : List α) : Option β := (items.filterMap give).getLast?

theorem final_append (items later : List α) :
    final give (items ++ later) = (final give later).or (final give items) := by
  rw [final, List.filterMap_append, List.getLast?_append]
  rfl

theorem final_concat (items : List α) (item : α) :
    final give (items ++ [item]) = (give item).or (final give items) := by
  rw [final_append]
  cases given : give item <;> simp [final, given]

theorem final_map {γ : Type*} (change : γ → α) (items : List γ) :
    final give (items.map change) = final (fun item => give (change item)) items := by
  rw [final, List.filterMap_map]
  rfl

theorem final_map_value {γ : Type*} (change : β → γ) (items : List α) :
    final (fun item => (give item).map change) items = (final give items).map change := by
  rw [final, final, ← List.getLast?_map, List.map_filterMap]

theorem final_eq_none_iff (items : List α) : final give items = none ↔ ∀ item ∈ items, give item = none := by
  rw [final, List.getLast?_eq_none_iff, List.filterMap_eq_nil_iff]

theorem final_middle (front later : List α) (item : α) (value : β) (given : give item = some value)
    (silent : ∀ other ∈ later, give other = none) : final give (front ++ item :: later) = some value := by
  rw [List.append_cons, final_append, final_concat, (final_eq_none_iff give later).mpr silent, given]
  rfl

theorem exists_of_final (items : List α) (value : β) (last : final give items = some value) :
    ∃ item ∈ items, give item = some value :=
  List.mem_filterMap.mp (List.mem_of_getLast? last)

theorem final_of_forall (items : List α) (value : β) (some_item : ∃ item ∈ items, give item = some value)
    (others : ∀ item ∈ items, ∀ other, give item = some other → other = value) :
    final give items = some value := by
  cases last : final give items with
  | none =>
    obtain ⟨item, member, given⟩ := some_item
    have absent := (final_eq_none_iff give items).mp last item member
    rw [given] at absent
    cases absent
  | some found =>
    obtain ⟨item, member, given⟩ := exists_of_final give items found last
    rw [others item member found given]

/-- No two items give different values. -/
def Undisputed (items : List α) : Prop :=
  ∀ first ∈ items, ∀ second ∈ items, ∀ one two, give first = some one → give second = some two → one = two

/-- Undisputed values do not depend on the order of the items. -/
theorem final_of_perm (items others : List α) (same : items.Perm others) (agreed : Undisputed give items) :
    final give items = final give others := by
  cases last : final give others with
  | none =>
    rw [final_eq_none_iff] at last ⊢
    intro item member
    exact last item (same.subset member)
  | some value =>
    obtain ⟨item, member, given⟩ := exists_of_final give others value last
    have inside := same.symm.subset member
    apply final_of_forall give items value ⟨item, inside, given⟩
    intro other within found given_other
    exact agreed other within item inside found value given_other given

end Woterm.Lib.Overwrite
