import Mathlib.Data.List.Basic
import Mathlib.Data.Nat.Find

/-! Where a pattern occurs in a list, and in the pieces that a list is cut into. -/

namespace Woterm.Lib.Occurrence

variable {α : Type*} (pattern : List α)

/-- The pattern does not start before an offset. -/
def Clear (data : List α) (n : Nat) : Prop := ∀ k < n, ¬ pattern <+: data.drop k

/-- The pattern occurs behind `front` at most. -/
def Once (front data : List α) : Prop := ∀ before after, data = before ++ pattern ++ after → before = front

theorem split_of_prefix (data : List α) (k : Nat) (starts : pattern <+: data.drop k) (inside : k ≤ data.length) :
    ∃ before after, data = before ++ pattern ++ after ∧ before.length = k := by
  obtain ⟨after, rest⟩ := starts
  refine ⟨data.take k, after, ?_, List.length_take_of_le inside⟩
  rw [List.append_assoc, rest, List.take_append_drop]

theorem clear_of_absent (data : List α) (n : Nat) (inside : n ≤ data.length)
    (absent : ∀ before after, data ≠ before ++ pattern ++ after) : Clear pattern data n := by
  intro k within starts
  obtain ⟨before, after, found, -⟩ := split_of_prefix pattern data k starts (by omega)
  exact absent before after found

theorem clear_or_first (data : List α) (n : Nat) (inside : n ≤ data.length) :
    Clear pattern data n ∨ ∃ before after, data = before ++ pattern ++ after ∧ before.length < n ∧
      Clear pattern data before.length := by
  classical
  by_cases occurs : ∃ k, k < n ∧ pattern <+: data.drop k
  · right
    obtain ⟨within, starts⟩ := Nat.find_spec occurs
    obtain ⟨before, after, found, here⟩ := split_of_prefix pattern data _ starts (by omega)
    refine ⟨before, after, found, by omega, ?_⟩
    intro k earlier again
    exact Nat.find_min occurs (here ▸ earlier) ⟨by omega, again⟩
  · left
    intro k within starts
    exact occurs ⟨k, within, starts⟩

section Pieces

variable {pattern} {front stream : List α}

/-- An occurrence in a piece is the occurrence in the whole. -/
theorem Once.position (once : Once pattern front stream) (before after : List (List α)) (piece first rest : List α)
    (cut : (before ++ piece :: after).flatten = stream) (found : piece = first ++ pattern ++ rest) :
    before.flatten ++ first = front := by
  apply once (before.flatten ++ first) (rest ++ after.flatten)
  rw [← cut, found]
  simp only [List.flatten_append, List.flatten_cons, List.append_assoc]

theorem Once.clear (once : Once pattern front stream) (before after : List (List α)) (piece first rest : List α)
    (cut : (before ++ piece :: after).flatten = stream) (found : piece = first ++ pattern ++ rest) :
    Clear pattern piece first.length := by
  intro k earlier starts
  have inside : first.length ≤ piece.length := by
    rw [found, List.append_assoc, List.length_append]
    exact Nat.le_add_right _ _
  obtain ⟨other, others, again, here⟩ := split_of_prefix pattern piece k starts (by omega)
  have there := once.position before after piece first rest cut found
  have same := (once.position before after piece other others cut again).trans there.symm
  rw [List.append_cancel_left same] at here
  omega

theorem Once.not_twice (once : Once pattern front stream) (nonempty : pattern ≠ [])
    (before middle after : List (List α)) (one two : List α)
    (cut : (before ++ one :: (middle ++ two :: after)).flatten = stream)
    (first rest : List α) (found : one = first ++ pattern ++ rest)
    (other others : List α) (again : two = other ++ pattern ++ others) : False := by
  have here := once.position before _ one first rest cut found
  have there := once.position (before ++ one :: middle) after two other others
    (by rw [List.append_assoc, List.cons_append]; exact cut) again
  have lengths := congrArg List.length (here.trans there.symm)
  rw [found] at lengths
  simp only [List.flatten_append, List.flatten_cons, List.length_append] at lengths
  have positive : 0 < pattern.length := List.length_pos_iff.mpr nonempty
  omega

theorem Once.absent (once : Once pattern front stream) (nonempty : pattern ≠ []) (before after : List (List α))
    (piece first rest : List α) (cut : (before ++ piece :: after).flatten = stream)
    (found : piece = first ++ pattern ++ rest) (other : List α) (elsewhere : other ∈ before ++ after) :
    ∀ left right, other ≠ left ++ pattern ++ right := by
  intro left right again
  rcases List.mem_append.mp elsewhere with earlier | later
  · obtain ⟨start, middle, rfl⟩ := List.append_of_mem earlier
    rw [List.append_assoc, List.cons_append] at cut
    exact once.not_twice nonempty start middle after other piece cut left right again first rest found
  · obtain ⟨middle, stop, rfl⟩ := List.append_of_mem later
    exact once.not_twice nonempty before middle stop piece other cut first rest found left right again

end Pieces

end Woterm.Lib.Occurrence
