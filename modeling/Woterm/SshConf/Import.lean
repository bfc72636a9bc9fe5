import Woterm.Qt.Arg
import Woterm.SshConf.Store

/-!
The second loop of `QWoSessionManage::onImportReady`: each imported host is appended to the store, and where
`append` returns false it is tried again under `name-1` to `name-99`. `append` returns false for a name that is
taken and for a file that cannot be written, and in the second case the host is in the store already.
-/

namespace Woterm.SshConf.Import
open Woterm.Lib Woterm.Qt Woterm.Qt.QString Woterm.Qt.Arg
open Woterm.SshConf.Format Woterm.SshConf.Store

/-- The identity file is replaced by the identity of the program that has the same key. -/
def withKey (keyOf : QString → QString) (hi : HostInfo) : HostInfo :=
  { hi with identityFile := if hi.identityFile.isEmpty then hi.identityFile else keyOf hi.identityFile }

/-- `append` under one name after the other until it returns true; the name is returned. -/
def tryNames (store : QWoSshConf) (hi : HostInfo) : List QString → (Nat → Access) → QWoSshConf × Option QString
  | [], _ => (store, none)
  | name :: names, access =>
    let added := append store { hi with name } (access 0)
    if added.2 then (added.1, some name) else tryNames added.1 hi names fun attempt => access (attempt + 1)

variable (locale : QLocale) (keyOf : QString → QString)

/-- `QString("%1-%2").arg(name).arg(j)`. -/
def renamed (name : QString) (j : Nat) : QString :=
  argInt locale (argText locale "%1-%2".toList name) (Int32.ofNat j)

/-- The own name and those of `for(int j = 1; j < 100; j++)`. -/
def candidates (name : QString) : List QString := name :: (List.range' 1 99).map (renamed locale name)

def insertHost (store : QWoSshConf) (hi : HostInfo) (access : Nat → Access) : QWoSshConf × Option QString :=
  tryNames store hi (candidates locale hi.name) access

/-- A host of the list, with the outcomes of the writes made for it. -/
structure Input where
  hi : HostInfo
  access : Nat → Access

/-- The loop, with the name under which each host has been added. -/
def insertionLoop (keyOf : QString → QString) : QWoSshConf → List Input → QWoSshConf × List (Option QString)
  | store, [] => (store, [])
  | store, input :: inputs =>
    let inserted := insertHost locale store (withKey keyOf input.hi) input.access
    let rest := insertionLoop keyOf inserted.1 inputs
    (rest.1, inserted.2 :: rest.2)

/-- The input whose writes all succeed. -/
def written (hi : HostInfo) : Input := ⟨hi, fun _ => .complete⟩

/-! ## Updates that return false -/

variable (store : QWoSshConf) (hosts : Hosts) (hi : HostInfo) (names : List QString) (access : Nat → Access)
  (name : QString)

theorem insert_eq_self_iff : hosts.insert hi.name hi = hosts ↔ hosts.lookup hi.name = some hi := by
  refine ⟨?_, ?_⟩
  · intro same
    rw [← same, Finmap.lookup_insert]
  · intro known
    refine Finmap.ext_lookup fun name => ?_
    by_cases here : name = hi.name
    · rw [here, Finmap.lookup_insert, known]
    · rw [Finmap.lookup_insert_of_ne _ here]

/-- A map that could not be saved has changed, unless it was edited into itself. -/
theorem save_failed_iff (before : Hosts) (store : QWoSshConf) (access : Access) :
    ((save store access).2 = false → (save store access).1.hosts = before) ↔
      (access = .refused → store.hosts = before) := by
  cases access with
  | refused => simp [save]
  | cut length => simp [save]
  | complete => simp [save]

theorem append_failed_iff (access : Access) :
    ((append store hi access).2 = false → (append store hi access).1.hosts = store.hosts) ↔
      (access = .refused → hi.name ∈ store.hosts) := by
  unfold append
  split
  · rename_i known
    simp [known]
  · rename_i fresh
    have other : store.hosts.lookup hi.name ≠ some hi := fun known => fresh (Finmap.mem_of_lookup_eq_some known)
    rw [save_failed_iff, insert_eq_self_iff]
    simp [fresh, other]

theorem modify_failed_iff (access : Access) :
    ((Store.modify store hi access).2 = false → (Store.modify store hi access).1.hosts = store.hosts) ↔
      (access = .refused → hi.name ∈ store.hosts → store.hosts.lookup hi.name = some hi) := by
  unfold Store.modify
  split
  · rename_i known
    rw [save_failed_iff, insert_eq_self_iff]
    simp [known]
  · rename_i fresh
    simp [fresh]

theorem modifyOrAppend_failed_iff (access : Access) :
    ((modifyOrAppend store hi access).2 = false → (modifyOrAppend store hi access).1.hosts = store.hosts) ↔
      (access = .refused → store.hosts.lookup hi.name = some hi) := by
  unfold modifyOrAppend
  rw [save_failed_iff, insert_eq_self_iff]

/-! ## The names tried for one host -/

theorem append_known (access : Access) (known : hi.name ∈ store.hosts) :
    append store hi access = (store, false) := if_pos known

theorem append_fresh (access : Access) (fresh : hi.name ∉ store.hosts) :
    (append store hi access).1.hosts = store.hosts.insert hi.name hi ∧
      ((append store hi access).2 = true ↔ access ≠ .refused) := by
  rw [append, if_neg fresh]
  cases access <;> simp [save]

theorem tryNames_known (known : ∀ name ∈ names, name ∈ store.hosts) :
    tryNames store hi names access = (store, none) := by
  induction names generalizing access with
  | nil => rfl
  | cons name names ih =>
    rw [tryNames, append_known store { hi with name } _ (known name List.mem_cons_self)]
    exact ih _ fun other member => known other (List.mem_cons_of_mem name member)

theorem append_keeps (access : Access) (name : QString) (old : HostInfo) (stored : store.hosts.lookup name = some old) :
    (append store hi access).1.hosts.lookup name = some old := by
  by_cases known : hi.name ∈ store.hosts
  · rw [append_known store hi access known]
    exact stored
  · have other : name ≠ hi.name := by
      rintro rfl
      exact known (Finmap.mem_of_lookup_eq_some stored)
    rw [(append_fresh store hi access known).1, Finmap.lookup_insert_of_ne _ other]
    exact stored

theorem tryNames_keeps (old : HostInfo) (stored : store.hosts.lookup name = some old) :
    (tryNames store hi names access).1.hosts.lookup name = some old := by
  induction names generalizing store access with
  | nil => exact stored
  | cons first names ih =>
    have kept := append_keeps store { hi with name := first } (access 0) name old stored
    rw [tryNames]
    split
    · exact kept
    · exact ih _ _ kept

theorem tryNames_mem (inside : name ∈ store.hosts) : name ∈ (tryNames store hi names access).1.hosts := by
  obtain ⟨old, stored⟩ := Finmap.mem_iff.mp inside
  exact Finmap.mem_of_lookup_eq_some (tryNames_keeps store hi names access name old stored)

theorem tryNames_adds (free : ∃ name ∈ names, name ∉ store.hosts) :
    ∃ name, name ∉ store.hosts ∧ name ∈ (tryNames store hi names access).1.hosts := by
  induction names generalizing access with
  | nil => simp at free
  | cons first names ih =>
    rw [tryNames]
    by_cases known : first ∈ store.hosts
    · rw [append_known store { hi with name := first } _ known]
      obtain ⟨name, member, fresh⟩ := free
      have later : name ∈ names := (List.mem_cons.mp member).resolve_left fun same => fresh (same ▸ known)
      exact ih _ ⟨name, later, fresh⟩
    · refine ⟨first, known, ?_⟩
      have added : first ∈ (append store { hi with name := first } (access 0)).1.hosts := by
        rw [(append_fresh store { hi with name := first } (access 0) known).1]
        simp
      split
      · exact added
      · exact tryNames_mem _ hi names _ first added

/-- The sessions that are there now and were not before. -/
def added (before after : Hosts) : Finset QString := after.keys \ before.keys

/-- The write under the first free name is not refused, or no other name is free. -/
def OneFree (hosts : Hosts) (names : List QString) (access : Nat → Access) : Prop :=
  ∀ taken first rest, names = taken ++ first :: rest → (∀ name ∈ taken, name ∈ hosts) → first ∉ hosts →
    access taken.length = .refused → ∀ other ∈ rest, other ∈ hosts ∨ other = first

theorem oneFree_known (names : List QString) (access : Nat → Access) (known : name ∈ hosts) :
    OneFree hosts (name :: names) access ↔ OneFree hosts names fun attempt => access (attempt + 1) := by
  refine ⟨?_, ?_⟩
  · intro one taken first rest split inside fresh refused
    refine one (name :: taken) first rest (by rw [split, List.cons_append]) ?_ fresh refused
    intro other member
    rcases List.mem_cons.mp member with rfl | later
    · exact known
    · exact inside other later
  · intro one taken first rest split inside fresh refused
    cases taken with
    | nil =>
      obtain ⟨rfl, _⟩ := List.cons.inj split
      exact absurd known fresh
    | cons head taken =>
      obtain ⟨_, split⟩ := List.cons.inj split
      have later := fun other member => inside other (List.mem_cons_of_mem head member)
      exact one taken first rest split later fresh refused

theorem oneFree_fresh (names : List QString) (access : Nat → Access) (fresh : name ∉ hosts) :
    OneFree hosts (name :: names) access ↔
      (access 0 = .refused → ∀ other ∈ names, other ∈ hosts ∨ other = name) := by
  refine ⟨fun one => one [] name names rfl (by simp) fresh, ?_⟩
  intro one taken first rest split inside _ refused
  cases taken with
  | nil =>
    obtain ⟨rfl, rfl⟩ := List.cons.inj split
    exact one refused
  | cons head taken =>
    obtain ⟨rfl, _⟩ := List.cons.inj split
    exact absurd (inside name List.mem_cons_self) fresh

theorem mem_added (before after : Hosts) (name : QString) :
    name ∈ added before after ↔ name ∈ after ∧ name ∉ before := by
  simp [added, Finmap.mem_keys]

theorem added_insert (fresh : name ∉ hosts) : added hosts (hosts.insert name hi) = {name} := by
  ext other
  rw [mem_added, Finset.mem_singleton, Finmap.mem_insert]
  refine ⟨?_, ?_⟩
  · rintro ⟨rfl | old, absent⟩
    · rfl
    · exact absurd old absent
  · rintro rfl
    exact ⟨Or.inl rfl, fresh⟩

/-- After a refused write the host is in the map and the other names are tried for it all the same. -/
theorem tryNames_refused_iff (next : QWoSshConf) (hi : HostInfo) (name : QString) (names : List QString)
    (access : Nat → Access) (fresh : name ∉ hosts) (inserted : next.hosts = hosts.insert name { hi with name }) :
    (added hosts (tryNames next hi names access).1.hosts).card ≤ 1 ↔ ∀ other ∈ names, other ∈ hosts ∨ other = name := by
  have mem_next (other : QString) : other ∈ next.hosts ↔ other ∈ hosts ∨ other = name := by
    rw [inserted, Finmap.mem_insert, or_comm]
  by_cases all : ∀ other ∈ names, other ∈ next.hosts
  · rw [tryNames_known next hi names access all, inserted, added_insert hosts _ name fresh, Finset.card_singleton]
    exact iff_of_true (Nat.le_refl 1) fun other member => (mem_next other).mp (all other member)
  · push Not at all
    obtain ⟨again, unused, there⟩ := tryNames_adds next hi names access all
    have still := tryNames_mem next hi names access name ((mem_next name).mpr (Or.inr rfl))
    obtain ⟨absent, other⟩ := not_or.mp (mt (mem_next again).mpr unused)
    have two := Finset.one_lt_card.mpr ⟨name, (mem_added _ _ _).mpr ⟨still, fresh⟩, again,
      (mem_added _ _ _).mpr ⟨there, absent⟩, Ne.symm other⟩
    refine iff_of_false (Nat.not_le.mpr two) fun others => ?_
    obtain ⟨free, member, missing⟩ := all
    exact missing ((mem_next free).mpr (others free member))

theorem tryNames_once_iff :
    (added store.hosts (tryNames store hi names access).1.hosts).card ≤ 1 ↔ OneFree store.hosts names access := by
  induction names generalizing access with
  | nil => simp [tryNames, added, OneFree]
  | cons name names ih =>
    by_cases known : name ∈ store.hosts
    · rw [tryNames, append_known store { hi with name } _ known, oneFree_known _ _ _ _ known]
      exact ih _
    · obtain ⟨inserted, result⟩ := append_fresh store { hi with name } (access 0) known
      rw [oneFree_fresh _ _ _ _ known, tryNames]
      by_cases refused : access 0 = .refused
      · have failed : ¬ (append store { hi with name } (access 0)).2 = true := fun done => result.mp done refused
        rw [if_neg failed, tryNames_refused_iff store.hosts _ hi name names _ known inserted]
        simp [refused]
      · rw [if_pos (result.mpr refused), inserted, added_insert store.hosts _ name known]
        simp [refused]

theorem withKey_plain (plain : hi.identityFile = []) : withKey keyOf hi = hi := by
  rw [withKey, plain]
  exact congrArg (fun identityFile => { hi with identityFile }) plain.symm

theorem insertionLoop_concat (inputs : List Input) (input : Input) :
    (insertionLoop locale keyOf store (inputs ++ [input])).1 =
      (insertHost locale (insertionLoop locale keyOf store inputs).1 (withKey keyOf input.hi) input.access).1 := by
  induction inputs generalizing store with
  | nil => rfl
  | cons first inputs ih => exact ih _

theorem append_entry (access : Access) (name : QString) (entry : HostInfo)
    (stored : (append store hi access).1.hosts.lookup name = some entry) :
    store.hosts.lookup name = some entry ∨ name = hi.name ∧ entry = hi := by
  by_cases known : hi.name ∈ store.hosts
  · rw [append_known store hi access known] at stored
    exact Or.inl stored
  · rw [(append_fresh store hi access known).1] at stored
    by_cases here : name = hi.name
    · rw [here, Finmap.lookup_insert] at stored
      exact Or.inr ⟨here, (Option.some.inj stored).symm⟩
    · rw [Finmap.lookup_insert_of_ne _ here] at stored
      exact Or.inl stored

theorem tryNames_entry (entry : HostInfo) (stored : (tryNames store hi names access).1.hosts.lookup name = some entry) :
    store.hosts.lookup name = some entry ∨ entry = { hi with name } := by
  induction names generalizing store access with
  | nil => exact Or.inl stored
  | cons first names ih =>
    have here (kept : (append store { hi with name := first } (access 0)).1.hosts.lookup name = some entry) :
        store.hosts.lookup name = some entry ∨ entry = { hi with name } := by
      refine (append_entry store _ _ name entry kept).imp_right fun new => ?_
      rw [new.2, new.1]
    rw [tryNames] at stored
    split at stored
    · exact here stored
    · rcases ih _ _ stored with kept | new
      · exact here kept
      · exact Or.inr new

theorem insertionLoop_entry (inputs : List Input) (name : QString) (entry : HostInfo)
    (stored : (insertionLoop locale keyOf store inputs).1.hosts.lookup name = some entry) :
    store.hosts.lookup name = some entry ∨ ∃ input ∈ inputs, entry = { withKey keyOf input.hi with name } := by
  induction inputs generalizing store with
  | nil => exact Or.inl stored
  | cons input inputs ih =>
    rcases ih _ stored with before | ⟨other, member, new⟩
    · rcases tryNames_entry store (withKey keyOf input.hi) _ _ name entry before with old | new
      · exact Or.inl old
      · exact Or.inr ⟨input, List.mem_cons_self, new⟩
    · exact Or.inr ⟨other, List.mem_cons_of_mem _ member, new⟩

/-- An update that returns false leaves the sessions alone exactly when the file was not the reason or there was
nothing to change, and the loop adds one session at most for a host exactly when the first write for it is not
refused or no other name is free. -/
theorem failed_update_iff (store : QWoSshConf) (hi : HostInfo) (access : Access) (inputs : List Input) :
    (((append store hi access).2 = false → (append store hi access).1.hosts = store.hosts) ↔
      (access = .refused → hi.name ∈ store.hosts)) ∧
    (((Store.modify store hi access).2 = false → (Store.modify store hi access).1.hosts = store.hosts) ↔
      (access = .refused → hi.name ∈ store.hosts → store.hosts.lookup hi.name = some hi)) ∧
    (((modifyOrAppend store hi access).2 = false → (modifyOrAppend store hi access).1.hosts = store.hosts) ↔
      (access = .refused → store.hosts.lookup hi.name = some hi)) ∧
    ((∀ front input back, inputs = front ++ input :: back →
        (added (insertionLoop locale keyOf store front).1.hosts
          (insertionLoop locale keyOf store (front ++ [input])).1.hosts).card ≤ 1) ↔
      ∀ front input back, inputs = front ++ input :: back →
        OneFree (insertionLoop locale keyOf store front).1.hosts (candidates locale input.hi.name) input.access) := by
  have once (front : List Input) (input : Input) :
      (added (insertionLoop locale keyOf store front).1.hosts
        (insertionLoop locale keyOf store (front ++ [input])).1.hosts).card ≤ 1 ↔
      OneFree (insertionLoop locale keyOf store front).1.hosts (candidates locale input.hi.name) input.access := by
    rw [insertionLoop_concat]
    exact tryNames_once_iff _ (withKey keyOf input.hi) _ _
  refine ⟨append_failed_iff store hi access, modify_failed_iff store hi access,
    modifyOrAppend_failed_iff store hi access, ?_⟩
  simp only [once]

/-- Digits are those of ASCII, and a number has the same form in the locale. -/
def plainLocale : QLocale where
  digitValue c := if c.isDigit then some (c.toNat - 48) else none
  ascii _ _ := rfl
  number := QString.number
  plain := percent_not_mem_number

theorem mem_tryNames_refused : ∀ name ∈ names, name ∈ (tryNames store hi names fun _ => .refused).1.hosts := by
  induction names generalizing store with
  | nil => simp
  | cons first names ih =>
    have again : (append store { hi with name := first } .refused).2 = false := by
      unfold append
      split <;> rfl
    have here : first ∈ (append store { hi with name := first } .refused).1.hosts := by
      by_cases known : first ∈ store.hosts
      · rw [append_known store { hi with name := first } _ known]
        exact known
      · rw [(append_fresh store { hi with name := first } .refused known).1]
        simp
    intro name member
    rw [tryNames, again, if_neg Bool.false_ne_true]
    rcases List.mem_cons.mp member with rfl | later
    · exact tryNames_mem _ hi names _ name here
    · exact ih _ name later

theorem mem_candidates (own name : QString) :
    name ∈ candidates locale own ↔ name = own ∨ ∃ j, 1 ≤ j ∧ j ≤ 99 ∧ renamed locale own j = name := by
  simp only [candidates, List.mem_cons, List.mem_map, List.mem_range'_1]
  refine or_congr_right (exists_congr fun j => ?_)
  rw [← and_assoc]
  exact and_congr_left fun _ => by omega

/-- A host whose writes are all refused is added under every name. -/
theorem insertionLoop_refused :
    (candidates locale hi.name).toFinset ⊆
      (insertionLoop locale keyOf store [⟨hi, fun _ => .refused⟩]).1.hosts.keys := by
  intro name member
  exact mem_tryNames_refused store (withKey keyOf hi) _ name (List.mem_toFinset.mp member)

theorem refused_twice (own : hi.name ∉ store.hosts) (last : renamed locale hi.name 99 ∉ store.hosts)
    (other : hi.name ≠ renamed locale hi.name 99) :
    1 < (added store.hosts (insertionLoop locale keyOf store [⟨hi, fun _ => .refused⟩]).1.hosts).card := by
  have all := insertionLoop_refused locale keyOf store hi
  have first := all (List.mem_toFinset.mpr ((mem_candidates locale hi.name _).mpr (Or.inl rfl)))
  have second := all (List.mem_toFinset.mpr
    ((mem_candidates locale hi.name _).mpr (Or.inr ⟨99, by decide, by decide, rfl⟩)))
  exact Finset.one_lt_card.mpr ⟨hi.name, (mem_added _ _ _).mpr ⟨first, own⟩,
    renamed locale hi.name 99, (mem_added _ _ _).mpr ⟨second, last⟩, other⟩

/-- Appending to a file that cannot be written returns false and adds the session; importing adds it under every
name. -/
theorem append_not_undone :
    (append {} web .refused).2 = false ∧ (append {} web .refused).1.hosts ≠ ∅ ∧
    (candidates plainLocale web.name).toFinset ⊆
      (insertionLoop plainLocale id {} [⟨web, fun _ => .refused⟩]).1.hosts.keys ∧
    1 < (added ∅ (insertionLoop plainLocale id {} [⟨web, fun _ => .refused⟩]).1.hosts).card :=
  ⟨by decide +kernel, by decide +kernel, insertionLoop_refused plainLocale id {} web,
    refused_twice plainLocale id {} web Finmap.notMem_empty Finmap.notMem_empty (by decide +kernel)⟩

end Woterm.SshConf.Import
