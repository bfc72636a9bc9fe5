import Woterm.SshConf.Parsed
import Woterm.SshConf.Store

/-!
The session dialog `QWoSessionProperty::saveConfig`, and what becomes of a session that it
accepts once the list is saved and read again.
-/

namespace Woterm.SshConf.Dialog
open Woterm.Lib Woterm.Lib.Text Woterm.Qt Woterm.Qt.QString
open Woterm.SshConf.Format Woterm.SshConf.RoundTrip Woterm.SshConf.Parsed Woterm.SshConf.Store

/-- The widgets the dialog reads. The property is the serialised settings before base64. -/
structure Form where
  hostName : QString
  host : QString
  port : QString
  memo : QString
  userName : QString
  jump : QString
  authType : QString
  password : QString
  identify : QString
  property : QByteArray

/-- The `HostInfo` of the form, or the message about a missing identity file. -/
def hostInfo (fileExists : QString → Bool) (identifyFilePath : QString) (form : Form) :
    Except String HostInfo :=
  let hi : HostInfo := {
    property := Utils.toBase64 false true form.property
    name := form.hostName
    host := form.host
    port := toInt form.port
    memo := form.memo
    user := form.userName
    proxyJump := form.jump }
  if form.authType = "Password".toList then .ok { hi with password := form.password }
  else
    let identityFile := Utils.nameToPath form.identify
    if fileExists (identifyFilePath ++ "/".toList ++ identityFile) then
      .ok { hi with identityFile := "woterm:".toList ++ identityFile }
    else .error "failed to find the identify file"

/-- The message of the first check that fails; `mName` is the session being edited. -/
def checks (store : QWoSshConf) (mName : QString) (hi : HostInfo) : Option String :=
  if hi.name.isEmpty then some "The name can't be empty"
  else if hi.host.isEmpty then some "The host can't be empty"
  else if hi.user.isEmpty then some "The userName can't be empty"
  else if hi.port < 10 ∨ 65535 < hi.port then some "The port should be at [10,65535]"
  else if mName ≠ hi.name ∧ hi.name ∈ store.hosts then some "The host name had been used.."
  else none

/-- `QWoHostListModel::modifyOrAppend`: the file is read again when the save succeeded. -/
def saveAndRefresh (env : Env) (store : QWoSshConf) (hi : HostInfo) (writing reading : Access) :
    QWoSshConf :=
  let saved := modifyOrAppend store hi writing
  if saved.2 then (refresh env saved.1 reading).1 else saved.1

def saveConfig (fileExists : QString → Bool) (identifyFilePath : QString) (env : Env)
    (store : QWoSshConf) (mName : QString) (form : Form) (writing reading : Access) :
    Except String QWoSshConf := do
  let hi ← hostInfo fileExists identifyFilePath form
  match checks store mName hi with
  | some message => .error message
  | none => .ok (saveAndRefresh env store hi writing reading)

def Survives (hosts : Hosts) : Prop :=
  ∀ name hi, hosts.lookup name = some hi →
    ∀ env, (parse env (Utils.fromWotermStream (fileBytes hosts))).lookup name = some hi

/-- The same session, apart from the group that the file does not store. -/
def Same (first second : HostInfo) : Prop :=
  { first with group := [] } = { second with group := [] }

variable (env : Env) (store : QWoSshConf) (hi : HostInfo)

theorem checks_none (mName : QString) (hi : HostInfo)
    (accepted : checks store mName hi = none) : hi.name ≠ [] ∧ 0 < hi.port := by
  unfold checks at accepted
  split_ifs at accepted with name host user port used
  refine ⟨by simpa using name, ?_⟩
  have lower : 10 ≤ hi.port := Int32.not_lt.mp (fun small => port (Or.inl small))
  exact Int32.lt_of_lt_of_le (by decide) lower

theorem saveAndRefresh_hosts :
    (saveAndRefresh env store hi .complete .complete).hosts =
      parse env (toStream (store.hosts.insert hi.name hi)) := by
  rw [← fromWotermStream_fileBytes]
  rfl

theorem Storable.of_same (first second : HostInfo) (same : Same first second) (storable : Storable first) :
    Storable second := by
  obtain ⟨name, host, port, user, password, identityFile, proxyJump, memo, property, group⟩ := first
  obtain ⟨name', host', port', user', password', identityFile', proxyJump', memo', property', group'⟩ := second
  simp only [Same, HostInfo.mk.injEq] at same
  obtain ⟨rfl, rfl, rfl, rfl, rfl, rfl, rfl, rfl, rfl, _⟩ := same
  exact ⟨storable.named, storable.name, storable.blank, storable.star, storable.fields, storable.memo⟩

theorem storable_of_found (named : hi.name ≠ [])
    (found : Same (find (saveAndRefresh env store hi .complete .complete) hi.name) hi) : Storable hi := by
  unfold find value at found
  rw [saveAndRefresh_hosts] at found
  cases known : (parse env (toStream (store.hosts.insert hi.name hi))).lookup hi.name with
  | none =>
    rw [known] at found
    have empty : ([] : QString) = hi.name := congrArg HostInfo.name found
    exact absurd empty.symm named
  | some after =>
    rw [known] at found
    exact Storable.of_same after hi found (parse_storable env _ _ after known).2

/-- The entries of a surviving store are stable: they come back whatever the fresh memory
holds, so each has a port and no group. -/
theorem Survives.stableMap (hosts : Hosts) (survives : Survives hosts) : StableMap hosts := by
  have read (env : Env) (name : QString) (hi : HostInfo) (stored : hosts.lookup name = some hi) :
      (parse env (toStream hosts)).lookup name = some hi := by
    rw [← fromWotermStream_fileBytes]
    exact survives name hi stored env
  have parsed (name : QString) (hi : HostInfo) (stored : hosts.lookup name = some hi) :
      hi.name = name ∧ Storable hi :=
    parse_storable (sortedEnv 0) _ name hi (read (sortedEnv 0) name hi stored)
  intro name hi stored
  refine ⟨(parsed name hi stored).1, (parsed name hi stored).2, fun port => ?_⟩
  obtain ⟨_, again⟩ := lookup_parse_toStream (sortedEnv port) hosts
    (fun name hi stored => (parsed name hi stored).1) (fun name hi stored => (parsed name hi stored).2) name
  rw [read (sortedEnv port) name hi stored, stored, Option.map_some] at again
  exact (Option.some.inj again).symm

theorem found_of_storable (survives : Survives store.hosts) (storable : Storable hi) (port : 0 < hi.port) :
    Same (find (saveAndRefresh env store hi .complete .complete) hi.name) hi ∧
      ∀ name, name ≠ hi.name →
        find (saveAndRefresh env store hi .complete .complete) name = find store name := by
  have stable := Survives.stableMap store.hosts survives
  have named : Named store.hosts := fun name other stored => (stable name other stored).1
  have all : ∀ name other, (store.hosts.insert hi.name hi).lookup name = some other → Storable other :=
    MapFold.forall_insert (fun _ => Storable) _ _ _ (fun name other stored => (stable name other stored).2.storable) storable
  have lookup := lookup_parse_toStream env (store.hosts.insert hi.name hi) (named.insert _ hi) all
  unfold find value
  rw [saveAndRefresh_hosts]
  refine ⟨?_, ?_⟩
  · obtain ⟨i, same⟩ := lookup hi.name
    rw [same, Finmap.lookup_insert, Option.map_some, Option.getD_some, Same, restored, if_pos port]
  · intro name other
    obtain ⟨i, same⟩ := lookup name
    rw [same, Finmap.lookup_insert_of_ne _ other]
    cases known : store.hosts.lookup name with
    | none => rfl
    | some old => rw [Option.map_some, (stable name old known).2.kept]

/-- An accepted session is kept, and no other one is touched, exactly when it is storable. -/
theorem saved_iff_storable (env : Env) (store : QWoSshConf) (mName : QString) (hi : HostInfo)
    (survives : Survives store.hosts) (accepted : checks store mName hi = none) :
    (Same (find (saveAndRefresh env store hi .complete .complete) hi.name) hi ∧
      ∀ name, name ≠ hi.name →
        find (saveAndRefresh env store hi .complete .complete) name = find store name) ↔
    Storable hi := by
  obtain ⟨named, port⟩ := checks_none store mName hi accepted
  refine ⟨?_, ?_⟩
  · intro given
    obtain ⟨found, _⟩ := given
    exact storable_of_found env store hi named found
  · intro storable
    exact found_of_storable env store hi survives storable port

theorem Survives.empty : Survives ∅ := by
  intro name hi stored
  simp at stored

def db : HostInfo := { web with name := "db".toList, memo := [] }

theorem webStore_survives : Survives webStore.hosts := by
  intro name hi stored env
  have stable : StableMap webStore.hosts :=
    WellFormed.stableMap _ (Agrees.initial.good.insert _ web web_wellFormed)
  rw [parse_fileBytes env webStore.hosts stable]
  exact stored

theorem saved_iff_storable_db :
    Survives webStore.hosts ∧ checks webStore [] db = none ∧
    ((Same (find (saveAndRefresh (sortedEnv 0) webStore db .complete .complete) db.name) db ∧
      ∀ name, name ≠ db.name →
        find (saveAndRefresh (sortedEnv 0) webStore db .complete .complete) name = find webStore name) ↔
      Storable db) :=
  ⟨webStore_survives, by decide,
    saved_iff_storable (sortedEnv 0) webStore [] db webStore_survives (by decide)⟩

/-- The dialog accepts this session, whose name has a blank. -/
def spaced : HostInfo where
  name := "web server".toList
  host := "10.0.0.1".toList
  port := 22
  user := "root".toList

/-- It is gone after the refresh: the file has a session `web` and a session `server`. -/
theorem spaced_lost :
    Survives (∅ : Hosts) ∧ checks {} [] spaced = none ∧
    find (saveAndRefresh (sortedEnv 0) {} spaced .complete .complete) spaced.name = {} := by
  refine ⟨Survives.empty, by decide, ?_⟩
  rw [find, value, saveAndRefresh_hosts]
  cases known : (parse (sortedEnv 0) (toStream ((∅ : Hosts).insert spaced.name spaced))).lookup spaced.name with
  | none => rfl
  | some after =>
    obtain ⟨same, storable⟩ := parse_storable _ _ _ _ known
    have blank := storable.blank
    rw [same] at blank
    exact absurd blank (by decide)

end Woterm.SshConf.Dialog
