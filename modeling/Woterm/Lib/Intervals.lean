import Mathlib.Data.List.Chain

/-!
Binary search in a sorted table of intervals.
-/

namespace Woterm.Lib.Intervals

structure Interval where
  first : Nat
  last : Nat
deriving DecidableEq, Repr

/-- No interval is empty, and each lies in front of the next one. -/
def Sorted (table : List Interval) : Prop :=
  (∀ interval ∈ table, interval.first ≤ interval.last) ∧ table.IsChain fun one two => one.last < two.first

instance (table : List Interval) : Decidable (Sorted table) := inferInstanceAs (Decidable (_ ∧ _))

/-- The search between two places, the second of which is left out. -/
def search (table : List Interval) (value low high : Nat) : Bool :=
  if _inside : low < high then
    let middle := (low + high - 1) / 2
    match table[middle]? with
    | none => false
    | some interval =>
      if interval.last < value then search table value (middle + 1) high
      else if value < interval.first then search table value low middle
      else true
  else false
termination_by high - low

def Covers (table : List Interval) (value : Nat) : Prop :=
  ∃ interval ∈ table, interval.first ≤ value ∧ value ≤ interval.last

instance (table : List Interval) (value : Nat) : Decidable (Covers table value) :=
  inferInstanceAs (Decidable (∃ interval ∈ table, interval.first ≤ value ∧ value ≤ interval.last))

variable {table : List Interval}

theorem covers_of_search {value low high : Nat} (found : search table value low high = true) : Covers table value := by
  fun_induction search table value low high with
  | case1 => cases found
  | case2 low high _ middle interval here _ ih => exact ih found
  | case3 low high _ middle interval here _ _ ih => exact ih found
  | case4 low high _ middle interval here late early =>
    exact ⟨interval, List.mem_of_getElem? here, Nat.le_of_not_lt early, Nat.le_of_not_lt late⟩
  | case5 => cases found

theorem Sorted.pairwise (sorted : Sorted table) : table.Pairwise fun one two => one.last < two.first := by
  obtain ⟨filled, chain⟩ := sorted
  induction table with
  | nil => exact .nil
  | cons head rest ih =>
    have later := ih (fun interval member => filled interval (List.mem_cons_of_mem head member)) chain.tail
    refine .cons ?_ later
    cases rest with
    | nil => exact List.forall_mem_nil _
    | cons next rest =>
      have apart : head.last < next.first := (List.isChain_cons_cons.mp chain).1
      have order := filled next (List.mem_cons_of_mem head List.mem_cons_self)
      intro interval member
      rcases List.mem_cons.mp member with rfl | behind
      · exact apart
      · have further := (List.pairwise_cons.mp later).1 interval behind
        omega

theorem Sorted.before (sorted : Sorted table) {i j : Nat} {one two : Interval} (first : table[i]? = some one)
    (second : table[j]? = some two) (order : i < j) : one.last < two.first := by
  obtain ⟨inside, rfl⟩ := List.getElem?_eq_some_iff.mp first
  obtain ⟨within, rfl⟩ := List.getElem?_eq_some_iff.mp second
  exact List.pairwise_iff_getElem.mp sorted.pairwise i j inside within order

theorem Sorted.first_le {head : Interval} {rest : List Interval} (sorted : Sorted (head :: rest)) {interval : Interval}
    (member : interval ∈ head :: rest) : head.first ≤ interval.first := by
  rcases List.mem_cons.mp member with rfl | later
  · exact Nat.le_refl _
  · have order := sorted.1 head List.mem_cons_self
    have apart := (List.pairwise_cons.mp sorted.pairwise).1 interval later
    omega

theorem Sorted.le_last {front : List Interval} {last : Interval} (sorted : Sorted (front ++ [last]))
    {interval : Interval} (member : interval ∈ front ++ [last]) : interval.last ≤ last.last := by
  rcases List.mem_append.mp member with earlier | here
  · have order := sorted.1 last (List.mem_append_right front List.mem_cons_self)
    have apart := (List.pairwise_append.mp sorted.pairwise).2.2 interval earlier last List.mem_cons_self
    omega
  · exact Nat.le_of_eq (congrArg Interval.last (List.mem_singleton.mp here))

theorem search_of_mem (sorted : Sorted table) {value k : Nat} {interval : Interval} (here : table[k]? = some interval)
    (above : interval.first ≤ value) (below : value ≤ interval.last) {low high : Nat} (after : low ≤ k)
    (before : k < high) (inside : high ≤ table.length) : search table value low high = true := by
  fun_induction search table value low high with
  | case1 low high _ middle none =>
    have within : middle < table.length := by omega
    rw [List.getElem?_eq_getElem within] at none
    cases none
  | case2 low high _ middle other found late ih =>
    -- the middle lies in front of the value, so the interval is none of those up to the middle
    have behind : middle < k := by
      by_contra order
      rcases Nat.lt_or_ge k middle with less | equal
      · have apart := sorted.before here found less
        have order := sorted.1 other (List.mem_of_getElem? found)
        omega
      · obtain rfl : k = middle := by omega
        rw [found] at here
        cases here
        omega
    exact ih behind before inside
  | case3 low high _ middle other found _ early ih =>
    have ahead : k < middle := by
      by_contra order
      rcases Nat.lt_or_ge middle k with less | equal
      · have apart := sorted.before found here less
        have order := sorted.1 other (List.mem_of_getElem? found)
        omega
      · obtain rfl : k = middle := by omega
        rw [found] at here
        cases here
        omega
    exact ih after ahead (by omega)
  | case4 => rfl
  | case5 => omega

theorem search_iff (sorted : Sorted table) (value : Nat) :
    search table value 0 table.length = true ↔ Covers table value := by
  refine ⟨covers_of_search, ?_⟩
  rintro ⟨interval, member, above, below⟩
  obtain ⟨k, inside, rfl⟩ := List.mem_iff_getElem.mp member
  exact search_of_mem sorted (List.getElem?_eq_getElem inside) above below (Nat.zero_le k) inside (Nat.le_refl _)

end Woterm.Lib.Intervals
