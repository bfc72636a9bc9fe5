import Mathlib.Data.Finmap

/-! Finite maps built by inserting the items of a list one after the other. -/

namespace Woterm.Lib.MapFold

variable {α β γ : Type*} [DecidableEq α] (key : γ → α) (val : γ → β)

/-- Insert every item under its key; a later item replaces an earlier one. -/
def insertAll (start : Finmap fun _ : α => β) (items : List γ) : Finmap fun _ : α => β :=
  items.foldl (fun map item => map.insert (key item) (val item)) start

theorem lookup_insertAll_cases (start : Finmap fun _ : α => β) (items : List γ) (k : α) :
    ((insertAll key val start items).lookup k = start.lookup k ∧ ∀ item ∈ items, key item ≠ k) ∨
    ∃ item ∈ items, key item = k ∧ (insertAll key val start items).lookup k = some (val item) := by
  induction items generalizing start with
  | nil => simp [insertAll]
  | cons item items ih =>
    have step : insertAll key val start (item :: items) =
        insertAll key val (start.insert (key item) (val item)) items := rfl
    rw [step]
    rcases ih (start.insert (key item) (val item)) with ⟨same, other⟩ | ⟨found, member, at_k, stored⟩
    · by_cases here : key item = k
      · right
        refine ⟨item, by simp, here, ?_⟩
        rw [same, ← here, Finmap.lookup_insert]
      · left
        rw [same, Finmap.lookup_insert_of_ne _ (Ne.symm here)]
        refine ⟨rfl, fun other_item member => ?_⟩
        rcases List.mem_cons.mp member with rfl | later
        · exact here
        · exact other other_item later
    · right
      exact ⟨found, by simp [member], at_k, stored⟩

theorem lookup_insertAll_of_not_mem (start : Finmap fun _ : α => β) (items : List γ) (k : α)
    (absent : ∀ item ∈ items, key item ≠ k) :
    (insertAll key val start items).lookup k = start.lookup k := by
  rcases lookup_insertAll_cases key val start items k with ⟨same, _⟩ | ⟨item, member, at_k, _⟩
  · exact same
  · exact absurd at_k (absent item member)

theorem lookup_insertAll_of_mem (start : Finmap fun _ : α => β) (items : List γ) (item : γ)
    (member : item ∈ items) (unique : ∀ other ∈ items, key other = key item → val other = val item) :
    (insertAll key val start items).lookup (key item) = some (val item) := by
  rcases lookup_insertAll_cases key val start items (key item) with ⟨_, absent⟩ | ⟨other, inside, same, stored⟩
  · exact absurd rfl (absent item member)
  · rw [stored, unique other inside same]

/-- Inserting the entries of a map in any order, each changed by `change`, changes the map
entry by entry. -/
theorem lookup_insertAll_entries (map : Finmap fun _ : α => β) (change : α → β → β)
    (order : List (Sigma fun _ : α => β)) (entries : (order : Multiset _) = map.entries) (k : α) :
    (insertAll (fun entry => entry.1) (fun entry => change entry.1 entry.2) ∅ order).lookup k =
      (map.lookup k).map (change k) := by
  have mem (entry : Sigma fun _ : α => β) : entry ∈ order ↔ map.lookup entry.1 = some entry.2 := by
    rw [Finmap.lookup_eq_some_iff, ← entries, Multiset.mem_coe]
  cases known : map.lookup k with
  | none =>
    rw [lookup_insertAll_of_not_mem, Finmap.lookup_empty, Option.map_none]
    rintro entry member rfl
    simp [(mem entry).mp member] at known
  | some v =>
    have inside : (⟨k, v⟩ : Sigma fun _ : α => β) ∈ order := (mem ⟨k, v⟩).mpr known
    rw [Option.map_some]
    apply lookup_insertAll_of_mem _ _ ∅ order ⟨k, v⟩ inside
    rintro ⟨k', v'⟩ member rfl
    have same : map.lookup k' = some v' := (mem ⟨k', v'⟩).mp member
    have equal : v = v' := Option.some.inj (known.symm.trans same)
    rw [equal]

theorem forall_insert (good : α → β → Prop) (map : Finmap fun _ : α => β) (k : α) (v : β)
    (old : ∀ key val, map.lookup key = some val → good key val) (new : good k v) (key : α) (val : β)
    (stored : (map.insert k v).lookup key = some val) : good key val := by
  by_cases same : key = k
  · rw [same, Finmap.lookup_insert] at stored
    rw [same, ← Option.some.inj stored]
    exact new
  · rw [Finmap.lookup_insert_of_ne _ same] at stored
    exact old key val stored

theorem forall_erase (good : α → β → Prop) (map : Finmap fun _ : α => β) (k : α)
    (old : ∀ key val, map.lookup key = some val → good key val) (key : α) (val : β)
    (stored : (map.erase k).lookup key = some val) : good key val := by
  by_cases same : key = k
  · rw [same, Finmap.lookup_erase] at stored
    simp at stored
  · rw [Finmap.lookup_erase_ne same] at stored
    exact old key val stored

end Woterm.Lib.MapFold
