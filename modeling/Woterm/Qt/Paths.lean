import Woterm.Qt

/-!
`QDir::cleanPath` and `QFileInfo::baseName` where the separator is a slash. Segments are read from the end of the
path: every `..` takes the next segment to its left away, and those that find none stay in front.
-/

namespace Woterm.Qt.Paths
open Woterm.Lib Woterm.Qt Woterm.Qt.QString

def segments (path : QString) : List QString := split path '/'

/-- One segment of `qt_normalizePathSegments`, with the number of `..` still to be resolved. -/
def normalizeStep (segment : QString) (state : Nat × List QString) : Nat × List QString :=
  if segment = [] ∨ segment = ".".toList then state
  else if segment = "..".toList then (state.1 + 1, state.2)
  else if 0 < state.1 then (state.1 - 1, state.2)
  else (0, segment :: state.2)

def normalize (parts : List QString) : Nat × List QString := parts.foldr normalizeStep (0, [])

/-- The segments that are left. -/
def resolved (path : QString) : List QString :=
  let state := normalize (segments path)
  List.replicate state.1 "..".toList ++ state.2

/-- The part of the path that is never resolved. -/
def rootOf (path : QString) : QString := if path.head? = some '/' then "/".toList else []

def cleanPath (path : QString) : QString :=
  if path = [] then []
  else if rootOf path = [] ∧ resolved path = [] then ".".toList
  else rootOf path ++ join (resolved path) "/".toList

/-- The text behind the last slash. -/
def fileName (path : QString) : QString := (segments path).getLastD []

/-- The file name up to its first dot. -/
def baseName (path : QString) : QString := (fileName path).takeWhile (· != '.')

/-- A name that stands for itself in a path. -/
structure Plain (name : QString) : Prop where
  named : name ≠ []
  inner : '/' ∉ name
  dots : '.' ∉ name

variable (path name : QString)

theorem segments_child (plain : Plain name) : segments (path ++ '/' :: name) = segments path ++ [name] := by
  rw [segments, split, List.splitOn_append_cons_self, List.splitOn_eq_singleton plain.inner]
  rfl

theorem normalize_child (parts : List QString) (name : QString) (plain : Plain name) :
    normalize (parts ++ [name]) = ((normalize parts).1, (normalize parts).2 ++ [name]) := by
  have ordinary : ¬ (name = [] ∨ name = ".".toList) := by
    rintro (none | dot)
    · exact plain.named none
    · exact plain.dots (by simp [dot])
  have down : name ≠ "..".toList := fun same => plain.dots (by simp [same])
  induction parts with
  | nil => exact (if_neg ordinary).trans (if_neg down)
  | cons part parts ih =>
    have step (rest : List QString) : normalize (part :: rest) = normalizeStep part (normalize rest) := rfl
    rw [List.cons_append, step, step, ih]
    unfold normalizeStep
    split_ifs <;> rfl

theorem resolved_child (plain : Plain name) : resolved (path ++ '/' :: name) = resolved path ++ [name] := by
  rw [resolved, segments_child path name plain, normalize_child _ name plain]
  exact (List.append_assoc _ _ _).symm

theorem cleanPath_resolved (path : QString) (left : resolved path ≠ []) :
    cleanPath path = rootOf path ++ join (resolved path) "/".toList := by
  have some_path : path ≠ [] := by
    rintro rfl
    exact left rfl
  rw [cleanPath, if_neg some_path, if_neg fun both => left both.2]

theorem cleanPath_child_eq (plain : Plain name) :
    cleanPath (path ++ '/' :: name) = rootOf (path ++ '/' :: name) ++
        if resolved path = [] then name else join (resolved path) "/".toList ++ '/' :: name := by
  have left : resolved (path ++ '/' :: name) ≠ [] := by
    rw [resolved_child path name plain]
    simp
  rw [cleanPath_resolved _ left, resolved_child path name plain, join, Text.intercalate_concat]
  simp [join]

theorem cleanPath_child (plain : Plain name) (left : resolved path ≠ []) :
    cleanPath (path ++ '/' :: name) = cleanPath path ++ '/' :: name := by
  have root : rootOf (path ++ '/' :: name) = rootOf path := by
    cases path with
    | nil => exact absurd rfl left
    | cons c path => rfl
  rw [cleanPath_child_eq path name plain, cleanPath_resolved path left, if_neg left, root, List.append_assoc]

theorem resolved_cleanPath_child (plain : Plain name) : resolved (cleanPath (path ++ '/' :: name)) ≠ [] := by
  obtain same | ⟨front, same⟩ : cleanPath (path ++ '/' :: name) = name ∨
      ∃ front, cleanPath (path ++ '/' :: name) = front ++ '/' :: name := by
    rw [cleanPath_child_eq path name plain]
    split
    · unfold rootOf
      split
      · exact Or.inr ⟨[], rfl⟩
      · exact Or.inl rfl
    · exact Or.inr ⟨_, (List.append_assoc _ _ _).symm⟩
  · have single : segments name = [] ++ [name] := List.splitOn_eq_singleton plain.inner
    rw [same, resolved, single, normalize_child _ name plain]
    simp
  · rw [same, resolved_child front name plain]
    simp

theorem baseName_child (plain : Plain name) : baseName (path ++ '/' :: name) = name := by
  have dotless : ∀ c ∈ name, (c != '.') = true := by
    intro c member
    have other : c ≠ '.' := by
      rintro rfl
      exact plain.dots member
    simpa using other
  rw [baseName, fileName, segments_child path name plain]
  simpa using List.takeWhile_eq_self_iff.mpr dotless

end Woterm.Qt.Paths
