import Mathlib.Data.List.Nodup

/-!
Rows taken out of a list by their numbers.
-/

namespace Woterm.Lib.Rows

variable {α : Type*}

/-- The entries without some rows, where the first entry is in row `start`. -/
def keep (rows : List Nat) (start : Nat) (entries : List α) : List α :=
  ((entries.zipIdx start).filter fun entry => entry.2 ∉ rows).map Prod.fst

def withoutRows (rows : List Nat) (entries : List α) : List α := keep rows 0 entries

variable (rows : List Nat) (start : Nat) (entries : List α)

theorem keep_cons (a : α) (entries : List α) :
    keep rows start (a :: entries) =
      if start ∈ rows then keep rows (start + 1) entries else a :: keep rows (start + 1) entries := by
  unfold keep
  rw [List.zipIdx_cons, List.filter_cons]
  split_ifs with removed kept kept
  · simp [kept] at removed
  · rfl
  · rfl
  · simp [kept] at removed

theorem keep_append (first second : List α) :
    keep rows start (first ++ second) = keep rows start first ++ keep rows (start + first.length) second := by
  unfold keep
  rw [List.zipIdx_append, List.filter_append, List.map_append]

theorem keep_congr (rows others : List Nat) (start : Nat) (entries : List α)
    (same : ∀ i, start ≤ i → i < start + entries.length → (i ∈ rows ↔ i ∈ others)) :
    keep rows start entries = keep others start entries := by
  induction entries generalizing start with
  | nil => rfl
  | cons a entries ih =>
    have here := same start (Nat.le_refl start) (by simp)
    have later := ih (start + 1) fun i lower upper => same i (by omega) (by simp; omega)
    rw [keep_cons, keep_cons, later]
    simp only [here]

theorem keep_nil : keep [] start entries = entries := by
  simp [keep]

theorem keep_before (later : ∀ r ∈ rows, start + entries.length ≤ r) : keep rows start entries = entries := by
  rw [keep_congr rows [] start entries, keep_nil]
  intro i _ upper
  refine iff_of_false (fun member => ?_) List.not_mem_nil
  exact Nat.not_le_of_lt upper (later i member)

theorem withoutRows_sublist : (withoutRows rows entries).Sublist entries := by
  have fewer := (List.filter_sublist (p := fun entry => decide (entry.2 ∉ rows)) (l := entries.zipIdx)).map Prod.fst
  rwa [List.zipIdx_map_fst] at fewer

/-! ## Rows taken out one by one -/

theorem withoutRows_erase (row : Nat) (rows : List Nat) (entries : List α) (inside : row < entries.length)
    (above : ∀ r ∈ rows, row < r) :
    row < (withoutRows rows entries).length ∧
      (withoutRows rows entries).eraseIdx row = withoutRows (row :: rows) entries := by
  obtain ⟨first, a, second, rfl, rfl⟩ : ∃ first a second, entries = first ++ a :: second ∧ first.length = row := by
    refine ⟨entries.take row, entries.get ⟨row, inside⟩, entries.drop (row + 1), ?_, ?_⟩
    · simp
    · rw [List.length_take]
      omega
  have there : first.length ∉ rows := fun member => Nat.lt_irrefl _ (above _ member)
  have back : keep (first.length :: rows) (first.length + 1) second = keep rows (first.length + 1) second := by
    apply keep_congr
    intro i lower _
    rw [List.mem_cons]
    exact or_iff_right (by omega)
  have later : ∀ r ∈ rows, 0 + first.length ≤ r := fun r member => by
    rw [Nat.zero_add]
    exact Nat.le_of_lt (above r member)
  have before : withoutRows rows (first ++ a :: second) = first ++ a :: keep rows (first.length + 1) second := by
    rw [withoutRows, keep_append, keep_before rows 0 first later, Nat.zero_add, keep_cons, if_neg there]
  have behind : withoutRows (first.length :: rows) (first ++ a :: second) =
      first ++ keep rows (first.length + 1) second := by
    have all := List.forall_mem_cons.mpr ⟨Nat.le_of_eq (Nat.zero_add first.length), later⟩
    rw [withoutRows, keep_append, keep_before _ 0 first all, Nat.zero_add, keep_cons, if_pos List.mem_cons_self, back]
  rw [before, behind]
  refine ⟨by simp, ?_⟩
  rw [List.eraseIdx_append_of_length_le (Nat.le_refl _), Nat.sub_self, List.eraseIdx_cons_zero]

/-! ## Which rows are out -/

theorem mem_withoutRows (nodup : entries.Nodup) (i : Nat) (a : α) (there : entries[i]? = some a) :
    a ∈ withoutRows rows entries ↔ i ∉ rows := by
  simp only [withoutRows, keep, List.mem_map, List.mem_filter, Prod.exists, exists_and_right, exists_eq_right,
    List.mk_mem_zipIdx_iff_getElem?, decide_eq_true_eq]
  refine ⟨?_, fun kept => ⟨i, there, kept⟩⟩
  rintro ⟨j, found, kept⟩
  have same : i = j :=
    (List.getElem?_inj (List.getElem?_eq_some_iff.mp there).1 nodup).mp (there.trans found.symm)
  rwa [same]

theorem withoutRows_eq_iff (rows others : List Nat) (entries : List α) (nodup : entries.Nodup) :
    withoutRows rows entries = withoutRows others entries ↔ ∀ i < entries.length, (i ∈ rows ↔ i ∈ others) := by
  refine ⟨?_, ?_⟩
  · intro same i inside
    have there := List.getElem?_eq_getElem inside
    rw [← not_iff_not, ← mem_withoutRows rows entries nodup i _ there, same,
      mem_withoutRows others entries nodup i _ there]
  · intro same
    apply keep_congr
    intro i _ upper
    exact same i (by omega)

end Woterm.Lib.Rows
