import Woterm.SshConf.Store

/-!
Two running instances that share one session file. Each keeps its own `m_hosts`, every
operation is one atomic step and every file access succeeds. No operation looks at the file
before it overwrites it: `refreshList` saves first, so that it only reads back what the
same instance has just written.
-/

namespace Woterm.SshConf.TwoInstances
open Woterm.Lib Woterm.Qt Woterm.SshConf.Format Woterm.SshConf.RoundTrip Woterm.SshConf.Store

inductive Process where
  | original
  | duplicate
deriving DecidableEq, Repr

inductive Action where
  | append (hi : HostInfo)
  | modify (hi : HostInfo)
  | remove (name : QString)
  | refreshList

/-- `QWoSessionList::refreshList`: save, refresh, and the refresh of the list model. -/
def refreshList (env : Env) (store : QWoSshConf) : QWoSshConf :=
  let saved := (save store .complete).1
  let refreshed := (refresh env saved .complete).1
  (refresh env refreshed .complete).1

/-- The store after an action, and whether the action wrote the file. -/
def act (env : Env) (store : QWoSshConf) : Action → QWoSshConf × Bool
  | .append hi => Store.append store hi .complete
  | .modify hi => Store.modify store hi .complete
  | .remove name => (Store.remove store name .complete, true)
  | .refreshList => (refreshList env store, true)

structure Call where
  process : Process
  action : Action
  env : Env

/-- The maps of both instances, the file, and which instance wrote it last. -/
structure Shared where
  hosts : Process → Hosts := fun _ => ∅
  file : Option QByteArray := none
  writer : Option Process := none

def step (shared : Shared) (call : Call) : Shared :=
  let after := act call.env { hosts := shared.hosts call.process, file := shared.file } call.action
  { hosts := Function.update shared.hosts call.process after.1.hosts
    file := after.1.file
    writer := if after.2 then some call.process else shared.writer }

def run (shared : Shared) (calls : List Call) : Shared := calls.foldl step shared

/-- The sessions an action brings in come back from the file as they were. -/
def Action.Stable : Action → Prop
  | .append hi | .modify hi => RoundTrip.Stable hi
  | .remove _ | .refreshList => True

/-- What an action makes of the map of its own instance. -/
def edited (hosts : Hosts) : Action → Hosts
  | .append hi => if hi.name ∈ hosts then hosts else hosts.insert hi.name hi
  | .modify hi => if hi.name ∈ hosts then hosts.insert hi.name hi else hosts
  | .remove name => hosts.erase name
  | .refreshList => hosts

theorem refreshList_hosts (env : Env) (store : QWoSshConf) (stable : StableMap store.hosts) :
    refreshList env store = { store with file := some (fileBytes store.hosts) } := by
  have read := parse_fileBytes env store.hosts stable
  simp [refreshList, save, refresh, read]

/-- An action edits the own map without regard to the file, and writes that map or nothing. -/
theorem act_cases (env : Env) (store : QWoSshConf) (action : Action) (stable : StableMap store.hosts) :
    (act env store action).1.hosts = edited store.hosts action ∧
      ((act env store action).2 = true ∧
          (act env store action).1.file = some (fileBytes (edited store.hosts action)) ∨
        (act env store action).2 = false ∧ (act env store action).1.file = store.file ∧
          edited store.hosts action = store.hosts) := by
  cases action with
  | append hi =>
    by_cases known : hi.name ∈ store.hosts <;> simp [act, Store.append, edited, known, save]
  | modify hi =>
    by_cases known : hi.name ∈ store.hosts <;> simp [act, Store.modify, edited, known, save]
  | remove name => simp [act, Store.remove, edited, save]
  | refreshList => simp [act, edited, refreshList_hosts env store stable]

variable (shared : Shared) (hosts : Hosts)

theorem edited_stable (action : Action) (stable : StableMap hosts) (args : action.Stable) :
    StableMap (edited hosts action) := by
  cases action with
  | append hi =>
    by_cases known : hi.name ∈ hosts
    · simpa [edited, known] using stable
    · simpa [edited, known] using stable.insert _ hi args
  | modify hi =>
    by_cases known : hi.name ∈ hosts
    · simpa [edited, known] using stable.insert _ hi args
    · simpa [edited, known] using stable
  | remove name => exact stable.erase _ name
  | refreshList => exact stable

/-- The file holds the map of the instance that wrote it last. -/
structure Holds (shared : Shared) : Prop where
  stable : ∀ process, StableMap (shared.hosts process)
  file : ∀ process, shared.writer = some process →
    shared.file = some (fileBytes (shared.hosts process))

theorem step_hosts (call : Call) (holds : Holds shared) :
    (step shared call).hosts =
      Function.update shared.hosts call.process (edited (shared.hosts call.process) call.action) := by
  have own := (act_cases call.env { hosts := shared.hosts call.process, file := shared.file }
    call.action (holds.stable call.process)).1
  simp only [step, own]

theorem step_holds (call : Call) (holds : Holds shared) (args : call.action.Stable) : Holds (step shared call) := by
  have own := holds.stable call.process
  refine ⟨?_, ?_⟩
  · intro process
    rw [step_hosts shared call holds]
    by_cases same : process = call.process
    · rw [same, Function.update_self]
      exact edited_stable _ call.action own args
    · rw [Function.update_of_ne same]
      exact holds.stable process
  · intro process
    rw [step_hosts shared call holds]
    obtain ⟨_, ⟨wrote, file⟩ | ⟨wrote, file, unchanged⟩⟩ := act_cases call.env
      { hosts := shared.hosts call.process, file := shared.file } call.action own
    · intro writer
      have same : call.process = process := by simpa [step, wrote] using writer
      rw [← same, Function.update_self]
      exact file
    · intro writer
      have earlier : shared.writer = some process := by simpa [step, wrote] using writer
      have map : Function.update shared.hosts call.process (edited (shared.hosts call.process) call.action) =
          shared.hosts := by
        rw [show edited (shared.hosts call.process) call.action = shared.hosts call.process from unchanged,
          Function.update_eq_self]
      rw [map]
      exact file.trans (holds.file process earlier)

theorem run_holds (calls : List Call) (holds : Holds shared) (args : ∀ call ∈ calls, call.action.Stable) :
    Holds (run shared calls) :=
  List.foldlRecOn calls step holds fun _ held call member => step_holds _ call held (args call member)

/-- The map of one instance as its own actions alone would leave it. -/
def own (process : Process) (hosts : Hosts) (calls : List Call) : Hosts :=
  calls.foldl (fun hosts call => if call.process = process then edited hosts call.action else hosts) hosts

/-- No instance ever takes over anything from the other one. -/
theorem run_hosts (calls : List Call) (process : Process) (holds : Holds shared)
    (args : ∀ call ∈ calls, call.action.Stable) :
    (run shared calls).hosts process = own process (shared.hosts process) calls := by
  induction calls generalizing shared with
  | nil => rfl
  | cons call calls ih =>
    have next := ih (step shared call) (step_holds shared call holds (args call (by simp)))
      (fun other member => args other (by simp [member]))
    have here : (step shared call).hosts process =
        if call.process = process then edited (shared.hosts process) call.action
        else shared.hosts process := by
      rw [step_hosts shared call holds, Function.update_apply]
      by_cases same : call.process = process
      · simp [same]
      · simp [same, Ne.symm same]
    rw [here] at next
    exact next

theorem mem_edited (action : Action) (name : QString) (known : name ∈ hosts) (kept : action ≠ .remove name) :
    name ∈ edited hosts action := by
  cases action with
  | append hi =>
    unfold edited
    dsimp only
    split_ifs
    · exact known
    · exact Finmap.mem_insert.mpr (Or.inr known)
  | modify hi =>
    unfold edited
    dsimp only
    split_ifs
    · exact Finmap.mem_insert.mpr (Or.inr known)
    · exact known
  | remove gone =>
    have other : name ≠ gone := fun same => kept (by rw [same])
    exact Finmap.mem_erase.mpr ⟨other, known⟩
  | refreshList => exact known

theorem mem_edited_append (hi : HostInfo) : hi.name ∈ edited hosts (.append hi) := by
  unfold edited
  dsimp only
  split_ifs with known
  · exact known
  · exact Finmap.mem_insert.mpr (Or.inl rfl)

theorem mem_own (process : Process) (hosts : Hosts) (calls : List Call) (name : QString)
    (known : name ∈ hosts) (kept : ∀ call ∈ calls, call.action ≠ .remove name) :
    name ∈ own process hosts calls := by
  induction calls generalizing hosts with
  | nil => exact known
  | cons call calls ih =>
    have later := fun other member => kept other (List.mem_cons_of_mem call member)
    by_cases same : call.process = process
    · have next := ih (edited hosts call.action)
        (mem_edited hosts call.action name known (kept call (by simp))) later
      simpa [own, same] using next
    · simpa [own, same] using ih hosts known later

theorem own_append (process : Process) (hosts : Hosts) (first second : List Call) :
    own process hosts (first ++ second) = own process (own process hosts first) second := by
  simp [own]

theorem mem_own_appended (before after : List Call) (process : Process) (hi : HostInfo) (env : Env)
    (kept : ∀ call ∈ after, call.action ≠ .remove hi.name) :
    hi.name ∈ own process hosts (before ++ ⟨process, .append hi, env⟩ :: after) := by
  rw [own_append]
  have start : own process (own process hosts before) (⟨process, .append hi, env⟩ :: after) =
      own process (edited (own process hosts before) (.append hi)) after := by
    simp [own]
  rw [start]
  exact mem_own process _ after hi.name (mem_edited_append _ hi) kept

/-- A session that one instance appends and neither removes is in the file at the end exactly
when that instance wrote the file last, or the last writer has the session from elsewhere. -/
theorem appended_present_iff (start : Shared) (before after : List Call) (process writer : Process)
    (hi : HostInfo) (env later : Env) (holds : Holds start)
    (args : ∀ call ∈ before ++ ⟨process, .append hi, env⟩ :: after, call.action.Stable)
    (kept : ∀ call ∈ after, call.action ≠ .remove hi.name)
    (last : (run start (before ++ ⟨process, .append hi, env⟩ :: after)).writer = some writer) :
    ∃ bytes, (run start (before ++ ⟨process, .append hi, env⟩ :: after)).file = some bytes ∧
      (hi.name ∈ parse later (Utils.fromWotermStream bytes) ↔
        writer = process ∨
          hi.name ∈ own writer (start.hosts writer) (before ++ ⟨process, .append hi, env⟩ :: after)) := by
  have final := run_holds start _ holds args
  refine ⟨_, final.file writer last, ?_⟩
  rw [parse_fileBytes later _ (final.stable writer), run_hosts start _ writer holds args]
  refine ⟨?_, ?_⟩
  · exact Or.inr
  · intro given
    rcases given with rfl | present
    · exact mem_own_appended _ before after writer hi env kept
    · exact present

theorem Holds.initial : Holds {} :=
  ⟨fun _ => StableMap.empty, fun _ writer => by simp at writer⟩

theorem web_stable : RoundTrip.Stable web :=
  ⟨web_wellFormed.storable, restored_wellFormed web web_wellFormed⟩

/-- A second session, for the other instance. -/
def db : HostInfo := { web with name := "db".toList, memo := [] }

theorem db_stable : RoundTrip.Stable db := by
  have good : WellFormedInfo db :=
    ⟨by decide, by decide, by decide, by decide, by decide, rfl, by decide⟩
  exact ⟨good.storable, restored_wellFormed db good⟩

/-- Both instances append a session, and the first one reloads its list at the end. -/
def crossing : List Call :=
  [⟨.original, .append web, sortedEnv 0⟩, ⟨.duplicate, .append db, sortedEnv 0⟩,
    ⟨.original, .refreshList, sortedEnv 0⟩]

theorem appended_present_crossing :
    ∃ bytes, (run {} crossing).file = some bytes ∧
      (web.name ∈ parse (sortedEnv 0) (Utils.fromWotermStream bytes) ↔
        Process.original = Process.original ∨ web.name ∈ own .original ∅ crossing) := by
  refine appended_present_iff {} [] crossing.tail .original .original web (sortedEnv 0) (sortedEnv 0)
    Holds.initial ?_ ?_ rfl
  · intro call member
    simp only [crossing, List.tail_cons, List.nil_append, List.mem_cons, List.not_mem_nil, or_false] at member
    rcases member with rfl | rfl | rfl
    · exact web_stable
    · exact db_stable
    · trivial
  · intro call member
    simp only [crossing, List.tail_cons, List.mem_cons, List.not_mem_nil, or_false] at member
    rcases member with rfl | rfl <;> simp

/-- The second instance never saw the session of the first, and its file does not have it. -/
theorem appended_lost :
    web.name ∈ (run {} (crossing.take 2)).hosts .original ∧
    ∃ bytes, (run {} (crossing.take 2)).file = some bytes ∧
      web.name ∉ parse (sortedEnv 0) (Utils.fromWotermStream bytes) := by
  have args : ∀ call ∈ crossing.take 2, call.action.Stable := by
    intro call member
    simp only [crossing, List.take_succ_cons, List.take_zero, List.mem_cons, List.not_mem_nil, or_false] at member
    rcases member with rfl | rfl
    · exact web_stable
    · exact db_stable
  have final := run_holds {} (crossing.take 2) Holds.initial args
  have maps (process : Process) := run_hosts {} (crossing.take 2) process Holds.initial args
  refine ⟨?_, _, final.file .duplicate (by decide), ?_⟩
  · rw [maps]
    decide
  · rw [parse_fileBytes _ _ (final.stable .duplicate), maps]
    decide

end Woterm.SshConf.TwoInstances
