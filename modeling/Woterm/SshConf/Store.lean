import Woterm.SshConf.RoundTrip

/-!
The session store: `m_hosts` in memory and the file it is saved to. Every operation takes the
outcome of its file access, so that runs with failing accesses are runs of the model too.
-/

namespace Woterm.SshConf.Store
open Woterm.Lib Woterm.Lib.Text Woterm.Qt Woterm.Qt.QString
open Woterm.SshConf.Format Woterm.SshConf.RoundTrip

structure QWoSshConf where
  hosts : Hosts := ∅
  /-- The bytes of the file `m_conf`, when it exists. -/
  file : Option QByteArray := none

/-- How opening the file ends, and for a write how many bytes reach it. -/
inductive Access where
  | refused
  | cut (length : Nat)
  | complete
deriving DecidableEq, Repr

def fileBytes (hosts : Hosts) : QByteArray := Utils.toWotermStream (toStream hosts)

/-- `exportToFile` on `m_conf`. What `QFile::write` returns is not looked at. -/
def save (store : QWoSshConf) : Access → QWoSshConf × Bool
  | .refused => (store, false)
  | .cut length => ({ store with file := some ((fileBytes store.hosts).take length) }, true)
  | .complete => ({ store with file := some (fileBytes store.hosts) }, true)

def refresh (env : Env) (store : QWoSshConf) (access : Access) : QWoSshConf × Bool :=
  match store.file with
  | none => (store, false)
  | some bytes =>
    if access = .refused then (store, false)
    else ({ store with hosts := parse env (Utils.fromWotermStream bytes) }, true)

def remove (store : QWoSshConf) (name : QString) (access : Access) : QWoSshConf :=
  (save { store with hosts := store.hosts.erase name } access).1

def modify (store : QWoSshConf) (hi : HostInfo) (access : Access) : QWoSshConf × Bool :=
  if hi.name ∈ store.hosts then save { store with hosts := store.hosts.insert hi.name hi } access
  else (store, false)

def append (store : QWoSshConf) (hi : HostInfo) (access : Access) : QWoSshConf × Bool :=
  if hi.name ∈ store.hosts then (store, false)
  else save { store with hosts := store.hosts.insert hi.name hi } access

def modifyOrAppend (store : QWoSshConf) (hi : HostInfo) (access : Access) : QWoSshConf × Bool :=
  save { store with hosts := store.hosts.insert hi.name hi } access

/-- The loop of `resetAllProperty` over the entries of the hash. -/
def withProperty (env : Env) (hosts : Hosts) (v : QString) : Hosts :=
  MapFold.insertAll (fun entry => entry.1) (fun entry => { entry.2 with property := v }) ∅ (env.order hosts)

def resetAllProperty (env : Env) (store : QWoSshConf) (v : QString) (access : Access) : QWoSshConf :=
  (save { store with hosts := withProperty env store.hosts v } access).1

def updatePassword (store : QWoSshConf) (name password : QString) (access : Access) : QWoSshConf :=
  match store.hosts.lookup name with
  | some hi => (save { store with hosts := store.hosts.insert name { hi with password } } access).1
  | none => store

def find (store : QWoSshConf) (name : QString) : HostInfo := value store.hosts name

/-- A call of one of the operations that read or change the store. -/
inductive Op where
  | append (hi : HostInfo)
  | modify (hi : HostInfo)
  | modifyOrAppend (hi : HostInfo)
  | remove (name : QString)
  | updatePassword (name password : QString)
  | resetAllProperty (v : QString)
  | refresh

structure Call where
  op : Op
  env : Env
  access : Access

def step (store : QWoSshConf) (call : Call) : QWoSshConf :=
  match call.op with
  | .append hi => (append store hi call.access).1
  | .modify hi => (modify store hi call.access).1
  | .modifyOrAppend hi => (modifyOrAppend store hi call.access).1
  | .remove name => remove store name call.access
  | .updatePassword name password => updatePassword store name password call.access
  | .resetAllProperty v => resetAllProperty call.env store v call.access
  | .refresh => (refresh call.env store call.access).1

def run (store : QWoSshConf) (calls : List Call) : QWoSshConf := calls.foldl step store

variable (env : Env) (hosts : Hosts) (store : QWoSshConf)

structure WellFormedInfo (hi : HostInfo) : Prop where
  named : hi.name ≠ []
  solid : ∀ c ∈ hi.name, QChar.isSpace c = false ∧ c ≠ '*'
  port : 1 ≤ hi.port
  fields : ∀ text ∈ fields hi, Single text ∧ Qt.Trimmed text
  memo : ∀ line ∈ split hi.memo '\n', ∀ c ∈ line.getLast?, QChar.isSpace c = false
  group : hi.group = []
  clean : ∀ text ∈ hi.name :: hi.memo :: RoundTrip.fields hi, NulFree text

def WellFormed (hosts : Hosts) : Prop :=
  ∀ name hi, hosts.lookup name = some hi → hi.name = name ∧ WellFormedInfo hi

/-- The arguments of a call are well-formed. -/
def Op.WellFormed : Op → Prop
  | .append hi | .modify hi | .modifyOrAppend hi => WellFormedInfo hi
  | .remove _ | .refresh => True
  | .updatePassword _ text | .resetAllProperty text => Line text

theorem WellFormedInfo.storable (hi : HostInfo) (good : WellFormedInfo hi) : Storable hi where
  named := good.named
  name := {
    single := fun member => absurd (good.solid _ member).1 (by decide)
    clean := good.clean _ (by simp)
    trimmed := Text.Trimmed.of_forall _ fun c member => (good.solid c member).1 }
  blank := fun member => absurd (good.solid _ member).1 (by decide)
  star := fun member => (good.solid _ member).2 rfl
  fields := fun text member =>
    ⟨(good.fields text member).1, good.clean text (by simp [member]), (good.fields text member).2⟩
  memo := fun line member => {
    clean := fun inside => good.clean hi.memo (by simp) ((of_mem_splitOn _ _ _ member).2 inside)
    last := good.memo line member }

theorem restored_wellFormed (hi : HostInfo) (good : WellFormedInfo hi) (port : Int32) :
    restored port hi = hi := by
  have positive : 0 < hi.port := Int32.lt_of_lt_of_le (by decide) good.port
  obtain ⟨name, host, p, user, password, identityFile, proxyJump, memo, property, group⟩ := hi
  have empty : group = [] := good.group
  simp only [restored] at positive ⊢
  rw [if_pos positive, empty]

theorem toStream_unflagged : Utils.wotermFlag.isPrefixOf (toStream hosts) = false := by
  unfold toStream
  cases sortedKeys hosts with
  | nil => rfl
  | cons name names => rfl

theorem fromWotermStream_fileBytes : Utils.fromWotermStream (fileBytes hosts) = toStream hosts :=
  Utils.fromWotermStream_toWotermStream _ (toStream_unflagged hosts)

theorem WellFormed.stableMap (good : WellFormed hosts) : StableMap hosts :=
  fun name hi stored =>
    ⟨(good name hi stored).1, (good name hi stored).2.storable,
      restored_wellFormed hi (good name hi stored).2⟩

theorem parse_fileBytes (stable : StableMap hosts) : parse env (Utils.fromWotermStream (fileBytes hosts)) = hosts := by
  rw [fromWotermStream_fileBytes]
  exact parse_toStream env hosts stable

theorem WellFormed.insert (hi : HostInfo) (good : WellFormed hosts) (info : WellFormedInfo hi) :
    WellFormed (hosts.insert hi.name hi) :=
  MapFold.forall_insert (fun name (hi : HostInfo) => hi.name = name ∧ WellFormedInfo hi) hosts hi.name hi good ⟨rfl, info⟩

theorem WellFormed.erase (gone : QString) (good : WellFormed hosts) : WellFormed (hosts.erase gone) :=
  MapFold.forall_erase (fun name (hi : HostInfo) => hi.name = name ∧ WellFormedInfo hi) hosts gone good

theorem WellFormedInfo.replace (hi other : HostInfo) (text : QString) (good : WellFormedInfo hi) (line : Line text)
    (name : other.name = hi.name) (port : other.port = hi.port) (memo : other.memo = hi.memo)
    (group : other.group = hi.group)
    (changed : ∀ value ∈ RoundTrip.fields other, value = text ∨ value ∈ RoundTrip.fields hi) :
    WellFormedInfo other where
  named := by rw [name]; exact good.named
  solid := by rw [name]; exact good.solid
  port := by rw [port]; exact good.port
  fields := by
    intro value member
    rcases changed value member with rfl | same
    · exact ⟨line.single, line.trimmed⟩
    · exact good.fields value same
  memo := by rw [memo]; exact good.memo
  group := by rw [group]; exact good.group
  clean := by
    intro value member
    rw [name, memo] at member
    simp only [List.mem_cons] at member
    rcases member with rfl | rfl | inside
    · exact good.clean _ (by simp)
    · exact good.clean _ (by simp)
    · rcases changed value inside with rfl | same
      · exact line.clean
      · exact good.clean value (by simp [same])

/-- Memory and disk agree: the file is what the map would be saved as, or there is neither. -/
structure Agrees (store : QWoSshConf) : Prop where
  good : WellFormed store.hosts
  file : (store.file = none ∧ store.hosts = ∅) ∨ store.file = some (fileBytes store.hosts)

theorem Agrees.initial : Agrees {} :=
  ⟨fun name hi stored => by simp at stored, Or.inl ⟨rfl, rfl⟩⟩

/-- A session as the dialog stores it. -/
def web : HostInfo where
  name := "web".toList
  host := "10.0.0.1".toList
  port := 22
  user := "root".toList
  password := "pass word".toList
  memo := "first\n\nsecond".toList

def webStore : QWoSshConf := { hosts := (∅ : Hosts).insert web.name web }

theorem web_wellFormed : WellFormedInfo web where
  named := by decide
  solid := by decide
  port := by decide
  fields := by decide
  memo := by decide
  group := rfl
  clean := by decide

end Woterm.SshConf.Store
