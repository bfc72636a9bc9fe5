import Woterm.SshConf.Import

/-!
Imports whose writes all succeed. Every host goes under its own name or under that with a number behind it, as long
as one of the hundred names is free and `arg` does not take a part of the name for a place marker.
-/

namespace Woterm.SshConf.ImportAll
open Woterm.Lib Woterm.Qt Woterm.Qt.QString Woterm.Qt.Arg
open Woterm.SshConf.Format Woterm.SshConf.Store Woterm.SshConf.Import

variable (locale : QLocale) (keyOf : QString → QString)

variable (store : QWoSshConf) (hi : HostInfo)

variable (hosts : List HostInfo) (names : List QString)

theorem tryNames_complete :
    (tryNames store hi names fun _ => .complete).2 = names.find? (fun name => decide (name ∉ store.hosts)) ∧
    ∀ name, (tryNames store hi names fun _ => .complete).2 = some name →
      (tryNames store hi names fun _ => .complete).1.hosts = store.hosts.insert name { hi with name } := by
  induction names with
  | nil => simp [tryNames]
  | cons name names ih =>
    by_cases known : name ∈ store.hosts
    · rw [tryNames, append_known store { hi with name } _ known, List.find?_cons_of_neg (by simpa using known)]
      exact ih
    · obtain ⟨inserted, result⟩ := append_fresh store { hi with name } .complete known
      rw [tryNames, if_pos (result.mpr (by decide)), List.find?_cons_of_pos (by simpa using known)]
      refine ⟨rfl, fun other same => ?_⟩
      obtain rfl := Option.some.inj same
      exact inserted

/-- The name of an imported host: its own or that with a number behind a dash. -/
def Proper (own name : QString) : Prop := name = own ∨ ∃ j : Nat, name = own ++ '-' :: Nat.toDigits 10 j

/-- The own name is free, or a number behind it makes a free one and `arg` finds no marker in it. -/
def Room (hosts : Hosts) (own : QString) : Prop :=
  own ∉ hosts ∨ Unmarked locale own ∧ ∃ j, 1 ≤ j ∧ j ≤ 99 ∧ own ++ '-' :: Nat.toDigits 10 j ∉ hosts

theorem number_ofNat (j : Nat) (small : j ≤ 99) : number (Int32.ofNat j) = Nat.toDigits 10 j := by
  have value : (Int32.ofNat j).toInt = j := Int32.toInt_ofNat_of_lt (by omega)
  have positive : ¬ ((j : Int) < 0) := by omega
  rw [number, value, if_neg positive, Int.natAbs_natCast]

theorem renamed_unmarked (own : QString) (j : Nat) (small : j ≤ 99) (unmarked : Unmarked locale own) :
    renamed locale own j = own ++ '-' :: Nat.toDigits 10 j := by
  rw [renamed, argText_dash, argInt_unmarked locale own _ unmarked, number_ofNat j small]

theorem proper_iff_room (hosts : Hosts) (own : QString) :
    (∃ name, (candidates locale own).find? (fun name => decide (name ∉ hosts)) = some name ∧ Proper own name) ↔
      Room locale hosts own := by
  refine ⟨?_, ?_⟩
  · rintro ⟨name, found, proper⟩
    have free : name ∉ hosts := by simpa using List.find?_some found
    rcases (mem_candidates locale own name).mp (List.mem_of_find?_eq_some found) with rfl | ⟨j, low, high, same⟩
    · exact Or.inl free
    · rcases proper with rfl | ⟨k, number⟩
      · exact Or.inl free
      · by_cases unmarked : Unmarked locale own
        · rw [← same, renamed_unmarked locale own j high unmarked] at free
          exact Or.inr ⟨unmarked, j, low, high, free⟩
        · rw [← same, renamed, argText_dash] at number
          exact absurd number (argInt_marked locale own _ unmarked k)
  · intro room
    have some_free : ∃ name ∈ candidates locale own, name ∉ hosts := by
      rcases room with free | ⟨unmarked, j, low, high, free⟩
      · exact ⟨own, (mem_candidates locale own own).mpr (Or.inl rfl), free⟩
      · have same := renamed_unmarked locale own j high unmarked
        exact ⟨_, (mem_candidates locale own _).mpr (Or.inr ⟨j, low, high, same⟩), free⟩
    cases found : (candidates locale own).find? (fun name => decide (name ∉ hosts)) with
    | none =>
      obtain ⟨name, member, free⟩ := some_free
      exact absurd free (by simpa using List.find?_eq_none.mp found name member)
    | some name =>
      refine ⟨name, rfl, ?_⟩
      have free : name ∉ hosts := by simpa using List.find?_some found
      rcases (mem_candidates locale own name).mp (List.mem_of_find?_eq_some found) with rfl | ⟨j, _, high, rfl⟩
      · exact Or.inl rfl
      · rcases room with own_free | ⟨unmarked, _⟩
        · -- the own name comes first, so that it is the one found
          rw [candidates, List.find?_cons_of_pos (by simpa using own_free)] at found
          exact Or.inl (Option.some.inj found).symm
        · exact Or.inr ⟨j, renamed_unmarked locale own j high unmarked⟩

/-- Every session of before is as it was, and each host has been added once, under a proper name. -/
structure Imported (before : Hosts) (hosts : List HostInfo) (result : QWoSshConf × List (Option QString)) : Prop where
  kept : ∀ name hi, before.lookup name = some hi → result.1.hosts.lookup name = some hi
  counted : (added before result.1.hosts).card = hosts.length
  placed : List.Forall₂ (fun hi place => ∃ name, place = some name ∧ Proper hi.name name ∧ name ∉ before ∧
    result.1.hosts.lookup name = some { hi with name }) hosts result.2
  distinct : result.2.Nodup

theorem Imported.nil : Imported store.hosts [] (store, []) where
  kept _ _ stored := stored
  counted := by simp [added]
  placed := .nil
  distinct := List.nodup_nil

theorem Imported.fresh (before : Hosts) (hosts : List HostInfo) (result : QWoSshConf × List (Option QString))
    (imported : Imported before hosts result) (place : Option QString) (member : place ∈ result.2) :
    ∃ name, place = some name ∧ name ∉ before := by
  have apart : List.Forall₂ (fun place _ => (∃ name, place = some name ∧ name ∉ before) ∧ True) result.2 hosts := by
    refine imported.placed.flip.imp fun place hi found => ?_
    obtain ⟨name, same, _, absent, _⟩ := found
    exact ⟨⟨name, same, absent⟩, trivial⟩
  exact ((List.forall₂_and_left _ _).mp apart).1 place member

theorem Imported.cons (before : Hosts) (hi : HostInfo) (name : QString) (hosts : List HostInfo)
    (result : QWoSshConf × List (Option QString)) (free : name ∉ before) (proper : Proper hi.name name)
    (imported : Imported (before.insert name { hi with name }) hosts result) :
    Imported before (hi :: hosts) (result.1, some name :: result.2) where
  kept := by
    intro other old stored
    have different : other ≠ name := by
      rintro rfl
      exact free (Finmap.mem_of_lookup_eq_some stored)
    exact imported.kept other old (by rw [Finmap.lookup_insert_of_ne _ different, stored])
  counted := by
    have here := imported.kept name _ (Finmap.lookup_insert _)
    have split : added before result.1.hosts =
        insert name (added (before.insert name { hi with name }) result.1.hosts) := by
      ext other
      rw [Finset.mem_insert, mem_added, mem_added, Finmap.mem_insert]
      by_cases same : other = name
      · rw [same]
        exact iff_of_true ⟨Finmap.mem_of_lookup_eq_some here, free⟩ (Or.inl rfl)
      · simp [same]
    rw [split, Finset.card_insert_of_notMem, imported.counted, List.length_cons]
    intro member
    exact ((mem_added _ _ _).mp member).2 (by simp)
  placed := by
    refine .cons ⟨name, rfl, proper, free, imported.kept name _ (Finmap.lookup_insert _)⟩ ?_
    refine imported.placed.imp fun other place found => ?_
    obtain ⟨later, same, fits, absent, stored⟩ := found
    exact ⟨later, same, fits, fun old => absent (by rw [Finmap.mem_insert]; exact Or.inr old), stored⟩
  distinct := by
    refine List.nodup_cons.mpr ⟨fun member => ?_, imported.distinct⟩
    obtain ⟨later, same, absent⟩ := imported.fresh _ hosts result (some name) member
    obtain rfl := Option.some.inj same
    exact absent (by simp)

theorem insertHost_written (plain : hi.identityFile = []) :
    (∃ name, (insertHost locale store (withKey keyOf hi) (written hi).access).2 = some name ∧ Proper hi.name name) ↔
      Room locale store.hosts hi.name := by
  rw [withKey_plain keyOf hi plain, ← proper_iff_room]
  have found := (tryNames_complete store hi (candidates locale hi.name)).1
  simp only [insertHost, written, found]

theorem insertHost_free (plain : hi.identityFile = []) (name : QString)
    (placed : (insertHost locale store (withKey keyOf hi) (written hi).access).2 = some name) :
    name ∉ store.hosts ∧
      (insertHost locale store (withKey keyOf hi) (written hi).access).1.hosts =
        store.hosts.insert name { hi with name } := by
  rw [withKey_plain keyOf hi plain] at placed ⊢
  obtain ⟨found, inserted⟩ := tryNames_complete store hi (candidates locale hi.name)
  refine ⟨?_, inserted name placed⟩
  have first := found.symm.trans placed
  simpa using List.find?_some first

theorem room_cons :
    (∀ front other back, hi :: hosts = front ++ other :: back →
      Room locale (insertionLoop locale keyOf store (front.map written)).1.hosts other.name) ↔
    Room locale store.hosts hi.name ∧
      ∀ front other back, hosts = front ++ other :: back →
        Room locale (insertionLoop locale keyOf
          (insertHost locale store (withKey keyOf hi) (written hi).access).1 (front.map written)).1.hosts other.name := by
  refine ⟨?_, ?_⟩
  · intro room
    refine ⟨room [] hi hosts rfl, fun front other back split => ?_⟩
    exact room (hi :: front) other back (by rw [split, List.cons_append])
  · rintro ⟨first, rest⟩ front other back split
    cases front with
    | nil =>
      obtain ⟨rfl, _⟩ := List.cons.inj split
      exact first
    | cons head front =>
      obtain ⟨rfl, later⟩ := List.cons.inj split
      exact rest front other back later

theorem room_of_placed (plain : ∀ hi ∈ hosts, hi.identityFile = [])
    (placed : List.Forall₂ (fun hi place => ∃ name, place = some name ∧ Proper hi.name name) hosts
      (insertionLoop locale keyOf store (hosts.map written)).2) :
    ∀ front hi back, hosts = front ++ hi :: back →
      Room locale (insertionLoop locale keyOf store (front.map written)).1.hosts hi.name := by
  induction hosts generalizing store with
  | nil => simp
  | cons hi hosts ih =>
    obtain ⟨first, rest⟩ := List.forall₂_cons.mp placed
    rw [room_cons]
    refine ⟨(insertHost_written locale keyOf store hi (plain hi List.mem_cons_self)).mp first, ?_⟩
    exact ih _ (fun other member => plain other (List.mem_cons_of_mem hi member)) rest

theorem imported_of_room (plain : ∀ hi ∈ hosts, hi.identityFile = [])
    (room : ∀ front hi back, hosts = front ++ hi :: back →
      Room locale (insertionLoop locale keyOf store (front.map written)).1.hosts hi.name) :
    Imported store.hosts hosts (insertionLoop locale keyOf store (hosts.map written)) := by
  induction hosts generalizing store with
  | nil => exact Imported.nil store
  | cons hi hosts ih =>
    obtain ⟨first, rest⟩ := (room_cons locale keyOf store hi hosts).mp room
    have none := plain hi List.mem_cons_self
    obtain ⟨name, placed, proper⟩ := (insertHost_written locale keyOf store hi none).mpr first
    obtain ⟨free, inserted⟩ := insertHost_free locale keyOf store hi none name placed
    have later := ih _ (fun other member => plain other (List.mem_cons_of_mem hi member)) rest
    rw [inserted] at later
    rw [List.map_cons, insertionLoop]
    exact placed ▸ Imported.cons store.hosts hi name hosts _ free proper later

/-- Hosts without identity files are all added, and nothing else changes, exactly when there is room for each of
them in the sessions that it finds. -/
theorem imported_iff (store : QWoSshConf) (hosts : List HostInfo) (plain : ∀ hi ∈ hosts, hi.identityFile = []) :
    Imported store.hosts hosts (insertionLoop locale keyOf store (hosts.map written)) ↔
      ∀ front hi back, hosts = front ++ hi :: back →
        Room locale (insertionLoop locale keyOf store (front.map written)).1.hosts hi.name := by
  refine ⟨fun imported => room_of_placed locale keyOf store hosts plain ?_,
    imported_of_room locale keyOf store hosts plain⟩
  refine imported.placed.imp fun hi place found => ?_
  obtain ⟨name, same, proper, _⟩ := found
  exact ⟨name, same, proper⟩

theorem imported_iff_web :
    (∀ hi ∈ [web, { web with name := "db".toList }], hi.identityFile = []) ∧
    (Imported webStore.hosts [web, { web with name := "db".toList }]
      (insertionLoop plainLocale id webStore ([web, { web with name := "db".toList }].map written)) ↔
      ∀ front hi back, [web, { web with name := "db".toList }] = front ++ hi :: back →
        Room plainLocale (insertionLoop plainLocale id webStore (front.map written)).1.hosts hi.name) :=
  ⟨by decide, imported_iff plainLocale id webStore _ (by decide)⟩

/-- A session whose name has a place marker. -/
def marked : HostInfo := { web with name := "a%1".toList }

/-- A store with a session of each of these names. -/
def storeOf (names : List QString) : QWoSshConf :=
  { hosts := MapFold.insertAll id (fun name => { web with name }) ∅ names }

theorem mem_storeOf (name : QString) (member : name ∈ names) : name ∈ (storeOf names).hosts := by
  refine Finmap.mem_of_lookup_eq_some (MapFold.lookup_insertAll_of_mem _ _ ∅ names name member ?_)
  rintro other _ rfl
  rfl

theorem tryNames_storeOf (hi : HostInfo) (access : Nat → Access) :
    tryNames (storeOf names) hi names access = (storeOf names, none) :=
  tryNames_known (storeOf names) hi names access (mem_storeOf names)

theorem insertionLoop_full :
    (insertionLoop locale id (storeOf (candidates locale hi.name)) [written hi]).2 = [none] := by
  have own : (withKey id (written hi).hi).name = hi.name := rfl
  rw [insertionLoop, insertHost, own, tryNames_storeOf]
  rfl

/-- If `a%1` is taken, the number replaces the marker of the name; if all hundred names are taken, the host is lost. -/
theorem host_not_imported :
    (insertionLoop plainLocale id { hosts := (∅ : Hosts).insert marked.name marked } [written marked]).2 =
      [some "a1-%2".toList] ∧
    ¬ Imported ((∅ : Hosts).insert marked.name marked) [marked]
      (insertionLoop plainLocale id { hosts := (∅ : Hosts).insert marked.name marked } [written marked]) ∧
    (insertionLoop plainLocale id (storeOf (candidates plainLocale web.name)) [written web]).2 = [none] ∧
    ¬ Imported (storeOf (candidates plainLocale web.name)).hosts [web]
      (insertionLoop plainLocale id (storeOf (candidates plainLocale web.name)) [written web]) := by
  have misnamed : (insertionLoop plainLocale id { hosts := (∅ : Hosts).insert marked.name marked } [written marked]).2 =
      [some "a1-%2".toList] := by
    decide +kernel
  have lost := insertionLoop_full plainLocale web
  refine ⟨misnamed, fun imported => ?_, lost, fun imported => ?_⟩
  · have placed := imported.placed
    rw [misnamed] at placed
    obtain ⟨⟨name, same, proper, _⟩, _⟩ := List.forall₂_cons.mp placed
    obtain rfl := Option.some.inj same
    rcases proper with own | ⟨j, number⟩
    · exact absurd own (by decide)
    · have second := congrArg (fun text => text.take 2) number
      exact absurd second (by simp [marked])
  · have placed := imported.placed
    rw [lost] at placed
    obtain ⟨⟨name, same, _⟩, _⟩ := List.forall₂_cons.mp placed
    cases same

end Woterm.SshConf.ImportAll
