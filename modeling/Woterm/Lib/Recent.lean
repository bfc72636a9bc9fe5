import Mathlib.Data.List.Nodup

/-!
Lists of entries with keys, in the order of their last use. The latest entry stands first, no key
occurs twice and only so many entries are kept.
-/

namespace Woterm.Lib.Recent

variable {α κ : Type*} (key : α → κ)

/-- An entry is used: it comes first, and the others follow in their order, up to the capacity. -/
def touch [DecidableEq κ] (capacity : Nat) (a : α) (entries : List α) : List α :=
  (a :: entries.filter fun b => key b ≠ key a).take capacity

structure Distinct (capacity : Nat) (entries : List α) : Prop where
  nodup : (entries.map key).Nodup
  bounded : entries.length ≤ capacity

variable {key} {capacity : Nat} {entries : List α}

theorem Distinct.sublist {fewer : List α} (distinct : Distinct key capacity entries)
    (sublist : fewer.Sublist entries) : Distinct key capacity fewer :=
  ⟨distinct.nodup.sublist (sublist.map key), Nat.le_trans sublist.length_le distinct.bounded⟩

theorem Distinct.perm {others : List α} (distinct : Distinct key capacity entries) (perm : entries.Perm others) :
    Distinct key capacity others :=
  ⟨(perm.map key).nodup_iff.mp distinct.nodup, perm.length_eq ▸ distinct.bounded⟩

variable {front back : List α} {b : α} (a : α)

theorem Distinct.cons (distinct : Distinct key capacity entries) (new : key a ∉ entries.map key) :
    Distinct key (capacity + 1) (a :: entries) :=
  ⟨List.nodup_cons.mpr ⟨new, distinct.nodup⟩, Nat.succ_le_succ distinct.bounded⟩

/-! ## An entry among the others -/

/-- The key of one entry is not among those around it. -/
structure Around (key : α → κ) (front : List α) (b : α) (back : List α) : Prop where
  front : key b ∉ front.map key
  back : key b ∉ back.map key

theorem Distinct.around (distinct : Distinct key capacity (front ++ b :: back)) : Around key front b back := by
  have nodup := distinct.nodup
  rw [List.map_append, List.map_cons, List.nodup_middle, List.nodup_cons, List.mem_append, not_or] at nodup
  exact ⟨nodup.1.1, nodup.1.2⟩

theorem Distinct.index (distinct : Distinct key capacity (front ++ b :: back)) (i : Nat) :
    ((front ++ b :: back).map key)[i]? = some (key b) ↔ i = front.length := by
  have there : ((front ++ b :: back).map key)[front.length]? = some (key b) := by simp
  refine ⟨?_, ?_⟩
  · intro found
    exact (List.getElem?_inj (List.getElem?_eq_some_iff.mp found).1 distinct.nodup).mp (found.trans there.symm)
  · rintro rfl
    exact there

theorem Distinct.reverse (distinct : Distinct key capacity entries) :
    entries.reverse = entries ↔ entries.length ≤ 1 := by
  refine ⟨?_, ?_⟩
  · intro same
    rcases entries with _ | ⟨a, rest⟩
    · exact Nat.zero_le 1
    · rcases List.eq_nil_or_concat' rest with rfl | ⟨inner, b, rfl⟩
      · exact Nat.le_refl 1
      · obtain ⟨rfl, -⟩ : b = a ∧ _ := by simpa using same
        have nodup := distinct.nodup
        simp at nodup
  · intro short
    rcases entries with _ | ⟨a, _ | ⟨b, rest⟩⟩
    · rfl
    · rfl
    · simp at short

theorem exists_around (distinct : Distinct key capacity entries) (k : κ) (member : k ∈ entries.map key) :
    ∃ front b back, entries = front ++ b :: back ∧ key b = k ∧ Around key front b back := by
  obtain ⟨b, inside, same⟩ := List.mem_map.mp member
  obtain ⟨front, back, rfl⟩ := List.append_of_mem inside
  exact ⟨front, b, back, rfl, same, distinct.around⟩

variable [DecidableEq κ]

theorem filter_absent (k : κ) (absent : k ∉ entries.map key) : entries.filter (fun b => key b ≠ k) = entries := by
  rw [List.filter_eq_self]
  intro b inside
  rw [decide_eq_true_eq]
  rintro rfl
  exact absent (List.mem_map_of_mem inside)

section
variable (around : Around key front b back)
include around

theorem filter_around : (front ++ b :: back).filter (fun c => key c ≠ key b) = front ++ back := by
  rw [List.filter_append, List.filter_cons_of_neg (by simp), filter_absent _ around.front,
    filter_absent _ around.back]

theorem findIdx_around : (front ++ b :: back).findIdx? (fun c => key c = key b) = some front.length := by
  have before : ∀ c ∈ front, decide (key c = key b) = false := by
    intro c inside
    rw [decide_eq_false_iff_not]
    intro same
    exact around.front (same ▸ List.mem_map_of_mem inside)
  rw [List.findIdx?_append, List.findIdx?_eq_none_iff.mpr before, List.findIdx?_cons]
  simp

end

/-! ## The entry that is used -/

theorem touch_head (positive : 0 < capacity) (a : α) : (touch key capacity a entries).head? = some a := by
  obtain ⟨n, rfl⟩ : ∃ n, capacity = n + 1 := ⟨capacity - 1, by omega⟩
  rfl

theorem touch_new (new : key a ∉ entries.map key) :
    touch key (capacity + 1) a entries = a :: entries.take capacity := by
  rw [touch, filter_absent _ new, List.take_succ_cons]

theorem touch_stored (same : key b = key a) (distinct : Distinct key capacity (front ++ b :: back)) :
    touch key capacity a (front ++ b :: back) = a :: (front ++ back) := by
  have bounded := distinct.bounded
  rw [touch, ← same, filter_around distinct.around, List.take_of_length_le]
  simp only [List.length_append, List.length_cons] at bounded ⊢
  omega

theorem touch_kept (distinct : Distinct key capacity entries) (stored : key a ∈ entries.map key) (c : α)
    (inside : c ∈ entries) (other : key c ≠ key a) : c ∈ touch key capacity a entries := by
  obtain ⟨front, b, back, rfl, same, -⟩ := exists_around distinct _ stored
  rw [touch_stored a same distinct]
  simp only [List.mem_append, List.mem_cons] at inside ⊢
  rcases inside with inside | rfl | inside
  · exact .inr (.inl inside)
  · exact absurd same other
  · exact .inr (.inr inside)

end Woterm.Lib.Recent
