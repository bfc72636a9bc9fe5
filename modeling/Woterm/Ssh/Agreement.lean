import Woterm.Ssh.Written

/-!
The options that the `ssh` client takes from a session file. The first session that is selected
and gives an option decides it. For sessions whose texts are plain words the client therefore
finds exactly the values that were written.
-/

namespace Woterm.Ssh.Agreement
open Woterm.Lib Woterm.Qt Woterm.Qt.QString Woterm.Ssh.Strdelim Woterm.Ssh.Readconf Woterm.Ssh.Written
open Woterm.SshConf.Format Woterm.SshConf.RoundTrip Woterm.SshConf.Store

/-- The text that a session has for an option. -/
def optionText (hi : HostInfo) : StrOption → QString
  | .ignoredUnknown => ignoreUnknow
  | .hostname => hi.host
  | .user => hi.user
  | .password => hi.password
  | _ => []

/-- The client finds one argument, and nothing after it. -/
def OneWord (text : QString) : Prop := ∃ arg, readValue (bytes text) = .ok arg

/-- No text of the session stops the client. -/
def Legible (hi : HostInfo) : Prop :=
  ∀ text ∈ [hi.host, hi.user, hi.password], text = [] ∨ OneWord text

/-- What the client stores for a text. -/
def word (text : QString) : Option CStr :=
  if text.isEmpty then none else (readValue (bytes text)).toOption

theorem word_nil : word [] = none := rfl

variable (env : Readconf.Env) (target : CStr)

/-- The value that a session gives for an option when it is selected. -/
def offer (option : StrOption) (hi : HostInfo) : Option CStr :=
  if selects env target hi.name then word (optionText hi option) else none

def settle (state : State) (hi : HostInfo) : State where
  options := {
    str := fun option => (state.options.str option).or (offer env target option hi)
    port := if selects env target hi.name ∧ state.options.port = -1 then hi.port.toInt
      else state.options.port }
  active := selects env target hi.name

/-! ## One session -/

def put (option : StrOption) (value : Option CStr) (state : State) : State :=
  { state with options := { state.options with
      str := Function.update state.options.str option
        ((state.options.str option).or (if state.active then value else none)) } }

variable (infos : List HostInfo) (option : StrOption) (hi : HostInfo) (text : QString) (state : State)

theorem setString_eq_put (option : StrOption) (arg : CStr) :
    setString state option arg = put option (some arg) state := by
  obtain ⟨⟨str, port⟩, active⟩ := state
  have same : Function.update str option (str option) = str := Function.update_eq_self option str
  cases active with
  | false => simp [setString, put]
  | true =>
    cases known : str option with
    | none => simp [setString, put, known]
    | some old =>
      rw [known] at same
      simp [setString, put, known, same]

theorem put_none (option : StrOption) : put option none state = state := by
  simp [put]

@[simp] theorem put_active (value : Option CStr) (state : State) : (put option value state).active = state.active := rfl

@[simp] theorem put_port (value : Option CStr) (state : State) :
    (put option value state).options.port = state.options.port := rfl

@[simp] theorem put_str (value : Option CStr) (state : State) (other : StrOption) :
    (put option value state).options.str other =
      if other = option then (state.options.str other).or (if state.active then value else none)
      else state.options.str other := by
  by_cases same : other = option
  · subst same
    simp [put]
  · simp [put, same]

@[simp] theorem setPort_active (value : Int) : (setPort state value).active = state.active := by
  unfold setPort
  split_ifs <;> rfl

@[simp] theorem setPort_str (value : Int) : (setPort state value).options.str = state.options.str := by
  unfold setPort
  split_ifs <;> rfl

@[simp] theorem setPort_port (value : Int) :
    (setPort state value).options.port =
      if state.active ∧ state.options.port = -1 then value else state.options.port := by
  unfold setPort
  split_ifs <;> rfl

theorem assign_oneWord (readable : text = [] ∨ OneWord text) :
    assign option text state = some (put option (word text) state) := by
  unfold assign word
  split_ifs with empty
  · rw [put_none]
  · rcases readable with rfl | ⟨arg, read⟩
    · simp at empty
    · rw [read]
      exact congrArg some (setString_eq_put state option arg)

theorem assign_eq_none (unreadable : ¬ (text = [] ∨ OneWord text)) : assign option text state = none := by
  rw [not_or] at unreadable
  have filled : text.isEmpty = false := by simpa using unreadable.1
  cases read : readValue (bytes text) with
  | error reason => simp [assign, filled, read, Except.toOption]
  | ok arg => exact absurd ⟨arg, read⟩ unreadable.2

theorem ignoreUnknow_oneWord : OneWord ignoreUnknow := ⟨keywordBytes "Group,Password", by decide +kernel⟩

theorem readSession_legible (legible : Legible hi) :
    readSession env target hi state = some (settle env target state hi) := by
  have host := fun state => assign_oneWord .hostname hi.host state (legible _ (by simp))
  have user := fun state => assign_oneWord .user hi.user state (legible _ (by simp))
  have password := fun state => assign_oneWord .password hi.password state (legible _ (by simp))
  have ignore := fun state =>
    assign_oneWord .ignoredUnknown ignoreUnknow state (Or.inr ignoreUnknow_oneWord)
  simp only [readSession, ignore, host, user, password, bind, Option.bind, Option.some.injEq]
  ext option : 3
  · cases chosen : selects env target hi.name <;> cases option <;>
      simp [settle, offer, optionText, word_nil, chosen]
  · simp only [put_port, setPort_port, put_active, put_port]
    rfl
  · simp [settle]

theorem readSession_illegible (illegible : ¬ Legible hi) : readSession env target hi state = none := by
  by_cases host : hi.host = [] ∨ OneWord hi.host
  · by_cases user : hi.user = [] ∨ OneWord hi.user
    · have password : ¬ (hi.password = [] ∨ OneWord hi.password) := by
        intro password
        exact illegible (by simpa [Legible] using ⟨host, user, password⟩)
      simp [readSession, assign_oneWord _ _ _ host, assign_oneWord _ _ _ user, assign_eq_none _ _ _ password]
    · simp [readSession, assign_oneWord _ _ _ host, assign_eq_none _ _ _ user]
  · simp [readSession, assign_eq_none _ _ _ host]

/-! ## All sessions -/

theorem foldlM_legible (legible : ∀ hi ∈ infos, Legible hi) :
    infos.foldlM (fun state hi => readSession env target hi state) state =
      some (infos.foldl (settle env target) state) := by
  induction infos generalizing state with
  | nil => rfl
  | cons hi infos ih =>
    rw [List.foldlM_cons, readSession_legible env target hi state (legible hi (by simp))]
    exact ih _ fun other member => legible other (by simp [member])

theorem legible_of_foldlM (state final : State)
    (read : infos.foldlM (fun state hi => readSession env target hi state) state = some final) :
    ∀ hi ∈ infos, Legible hi := by
  induction infos generalizing state with
  | nil => simp
  | cons hi infos ih =>
    rw [List.foldlM_cons] at read
    by_cases legible : Legible hi
    · rw [readSession_legible env target hi state legible] at read
      intro other member
      rcases List.mem_cons.mp member with rfl | later
      · exact legible
      · exact ih _ read other later
    · rw [readSession_illegible env target hi state legible] at read
      simp at read

theorem foldl_settle_str (option : StrOption) :
    (infos.foldl (settle env target) state).options.str option =
      (state.options.str option).or (infos.findSome? (offer env target option)) := by
  induction infos generalizing state with
  | nil => simp
  | cons hi infos ih =>
    rw [List.foldl_cons, ih, List.findSome?_cons]
    change ((state.options.str option).or (offer env target option hi)).or _ = _
    rw [Option.or_assoc]
    cases offer env target option hi <;> rfl

theorem foldl_settle_port (valid : ∀ hi ∈ infos, 0 < hi.port.toInt) :
    (infos.foldl (settle env target) state).options.port =
      if state.options.port = -1 then
        ((infos.find? fun hi => selects env target hi.name).map fun hi => hi.port.toInt).getD (-1)
      else state.options.port := by
  induction infos generalizing state with
  | nil => simp
  | cons hi infos ih =>
    have positive := valid hi (by simp)
    rw [List.foldl_cons, ih _ fun other member => valid other (by simp [member])]
    cases chosen : selects env target hi.name with
    | false => simp [settle, chosen]
    | true =>
      by_cases unset : state.options.port = -1
      · have known : hi.port.toInt ≠ -1 := by omega
        simp [settle, chosen, unset, known]
      · simp [settle, unset]

/-- `read_config_file_depth` succeeds on the written file exactly when every session is legible,
and then the options come from the sessions in the order of the file. -/
theorem readConfigFileDepth_ok_iff (hosts : Hosts) (direct : ∀ hi ∈ written hosts, Direct hi)
    (state final : State) :
    readConfigFileDepth env target (fileBytes hosts) state = .ok final ↔
      (∀ hi ∈ written hosts, Legible hi) ∧ final = (written hosts).foldl (settle env target) state := by
  have read := readConfigFileDepth_fileBytes env target hosts direct state
  have success : readConfigFileDepth env target (fileBytes hosts) state = .ok final ↔
      (readConfigFileDepth env target (fileBytes hosts) state).toOption = some final := by
    cases readConfigFileDepth env target (fileBytes hosts) state <;> simp [Except.toOption]
  rw [success, read]
  refine ⟨?_, ?_⟩
  · intro reached
    have legible := legible_of_foldlM env target _ state final reached
    rw [foldlM_legible env target _ state legible] at reached
    exact ⟨legible, (Option.some.inj reached).symm⟩
  · intro given
    obtain ⟨legible, rfl⟩ := given
    exact foldlM_legible env target _ state legible

/-! ## Plain sessions -/

/-- What an option should be for a text of a session: unset if it is empty. -/
def stored (text : QString) : Option CStr := if text.isEmpty then none else some (toUtf8 text)

/-- A session whose name, host, user and password are single words. -/
structure Worded (hi : HostInfo) : Prop where
  named : hi.name ≠ []
  bang : hi.name.head? ≠ some '!'
  name : ∀ c ∈ hi.name, QChar.isSpace c = false ∧ c ∉ ['=', '"', '*', '?']
  texts : ∀ text ∈ [hi.host, hi.user, hi.password],
    ∀ c ∈ text, QChar.isSpace c = false ∧ c ∉ ['=', '"']
  port : 0 < hi.port.toInt ∧ hi.port.toInt ≤ 65535
  identityFile : hi.identityFile = []
  proxyJump : hi.proxyJump = []

/-- The texts are C strings besides, and the property stays on its line. -/
structure Ordinary (hi : HostInfo) : Prop extends Worded hi where
  clean : ∀ text ∈ [hi.name, hi.host, hi.user, hi.password], NulFree text
  property : Single hi.property

theorem Word.oneWord {text : QString} (clean : NulFree text) (read : Word (toUtf8 text)) : OneWord text :=
  ⟨toUtf8 text, by rw [bytes_eq text clean, read.readValue]⟩

theorem word_eq_stored (clean : NulFree text) (read : text ≠ [] → Word (toUtf8 text)) : word text = stored text := by
  unfold word stored
  split_ifs with empty
  · rfl
  · rw [bytes_eq text clean, (read (by simpa using empty)).readValue]
    rfl

theorem single_of_solid (solid : ∀ c ∈ text, QChar.isSpace c = false) : Single text :=
  fun member => absurd (solid _ member) (by decide)

theorem Ordinary.direct {hi : HostInfo} (ordinary : Ordinary hi) : Direct hi where
  named := ordinary.named
  port := ordinary.port
  identityFile := ordinary.identityFile
  proxyJump := ordinary.proxyJump
  name := single_of_solid _ fun c member => (ordinary.name c member).1
  texts := by
    intro text member
    have solid (listed : text ∈ [hi.host, hi.user, hi.password]) : Single text :=
      single_of_solid _ fun c inside => (ordinary.texts text listed c inside).1
    simp only [fields, ordinary.identityFile, ordinary.proxyJump, List.mem_cons, List.not_mem_nil,
      or_false] at member
    rcases member with rfl | rfl | rfl | rfl | rfl | rfl
    · exact solid (by simp)
    · exact solid (by simp)
    · exact solid (by simp)
    · simp [Single]
    · simp [Single]
    · exact ordinary.property

theorem Ordinary.legible {hi : HostInfo} (ordinary : Ordinary hi) : Legible hi := by
  intro text member
  by_cases empty : text = []
  · exact Or.inl empty
  · exact Or.inr (Word.oneWord (ordinary.clean text (List.mem_cons_of_mem _ member))
      (Word.of_solid text empty (ordinary.texts text member)))

theorem Ordinary.selects_iff {hi : HostInfo} (ordinary : Ordinary hi) (called : env.neverMatch = false)
    (name : QString) : selects env (toUtf8 name) hi.name = true ↔ hi.name = name := by
  have solid (c : Char) (member : c ∈ hi.name) : QChar.isSpace c = false ∧ c ∉ ['=', '"'] := by
    have known := ordinary.name c member
    simp_all
  have read := Word.of_solid hi.name ordinary.named solid
  have absent (c : Char) (ascii : c.toNat < 128) (special : c ∈ ['*', '?']) : c.toUInt8 ∉ toUtf8 hi.name := by
    intro member
    have known := ordinary.name c ((Utf8.mem_encode c ascii _).mp member)
    simp_all
  have literal (byte : UInt8) (member : byte ∈ toUtf8 hi.name) : byte ≠ star ∧ byte ≠ question := by
    refine ⟨?_, ?_⟩
    · intro same
      subst same
      exact absent '*' (by decide) (by simp) member
    · intro same
      subst same
      exact absent '?' (by decide) (by simp) member
  have positive : (toUtf8 hi.name).head? ≠ some 33 := fun head =>
    ordinary.bang (Utf8.head_encode '!' (by decide) hi.name head)
  have matched := matchPattern_literal (toUtf8 name) (toUtf8 hi.name) literal
  have alone := strdelim_last _ read.plain
  rw [selects, bytes_eq hi.name (ordinary.clean _ (by simp)), read.restOf, hostActive, Option.getD_some]
  obtain ⟨first, rest, split⟩ := List.exists_cons_of_ne_nil read.nonempty
  rw [split] at alone positive matched ⊢
  have plus : first ≠ 33 := by simpa using positive
  have spelled : toUtf8 name = first :: rest ↔ hi.name = name := by
    rw [← split, eq_comm]
    exact Utf8.encode_injective.eq_iff
  have ended (fuel : Nat) (active : Bool) : hostLoop env (toUtf8 name) (fuel + 1) none active = active := rfl
  simp only [List.length_cons, hostLoop, alone, called, plus, Bool.false_eq_true, if_false, ended]
  rw [← spelled, ← matched]
  cases matchPattern (toUtf8 name) (first :: rest) <;> simp

theorem mem_written (hosts : Hosts) (hi : HostInfo) :
    hi ∈ written hosts ↔ ∃ name, hosts.lookup name = some hi := by
  refine ⟨?_, ?_⟩
  · intro member
    obtain ⟨name, key, rfl⟩ := List.mem_map.mp member
    obtain ⟨hi, found⟩ := (mem_sortedKeys hosts name).mp key
    exact ⟨name, by rw [value_eq hosts name hi found, found]⟩
  · intro given
    obtain ⟨name, found⟩ := given
    apply List.mem_map.mpr
    exact ⟨name, (mem_sortedKeys hosts name).mpr ⟨hi, found⟩, value_eq hosts name hi found⟩

theorem foldl_settle_only (member : hi ∈ infos) (chosen : selects env target hi.name = true)
    (only : ∀ other ∈ infos, selects env target other.name = true → other = hi)
    (valid : ∀ other ∈ infos, 0 < other.port.toInt) :
    (∀ option, (infos.foldl (settle env target) {}).options.str option = word (optionText hi option)) ∧
      (infos.foldl (settle env target) {}).options.port = hi.port.toInt := by
  refine ⟨?_, ?_⟩
  · intro option
    rw [foldl_settle_str]
    change infos.findSome? (offer env target option) = _
    have offered : offer env target option hi = word (optionText hi option) := by rw [offer, if_pos chosen]
    cases found : infos.findSome? (offer env target option) with
    | none =>
      rw [← offered]
      exact (List.findSome?_eq_none_iff.mp found hi member).symm
    | some value =>
      obtain ⟨other, inside, given⟩ := List.exists_of_findSome?_eq_some found
      have same : other = hi := by
        apply only other inside
        by_contra skipped
        simp [offer, skipped] at given
      rw [← offered, ← same, given]
  · rw [foldl_settle_port env target infos {} valid]
    cases found : infos.find? fun other => selects env target other.name with
    | none =>
      have skipped := List.find?_eq_none.mp found hi member
      exact absurd chosen skipped
    | some other =>
      rw [only other (List.mem_of_find?_eq_some found) (by simpa using List.find?_some found)]
      rfl

/-- For every session of a file of plain sessions the client finds the values that were written. -/
theorem client_agrees (called : env.neverMatch = false) (hosts : Hosts) (named : Named hosts)
    (ordinary : ∀ name hi, hosts.lookup name = some hi → Ordinary hi)
    (name : QString) (hi : HostInfo) (known : hosts.lookup name = some hi) :
    ∃ state, readConfigFileDepth env (toUtf8 name) (fileBytes hosts) {} = .ok state ∧
      state.options.str .hostname = stored hi.host ∧ state.options.str .user = stored hi.user ∧
      state.options.port = hi.port.toInt ∧ state.options.str .password = stored hi.password := by
  have all (other : HostInfo) (member : other ∈ written hosts) : Ordinary other := by
    obtain ⟨key, found⟩ := (mem_written hosts other).mp member
    exact ordinary key other found
  have own := ordinary name hi known
  have chosen : selects env (toUtf8 name) hi.name = true :=
    (own.selects_iff env called name).mpr (named name hi known)
  have only (other : HostInfo) (member : other ∈ written hosts)
      (selected : selects env (toUtf8 name) other.name = true) : other = hi := by
    obtain ⟨key, found⟩ := (mem_written hosts other).mp member
    have same : key = name := by
      rw [← named key other found]
      exact ((all other member).selects_iff env called name).mp selected
    rw [same, known] at found
    exact (Option.some.inj found).symm
  obtain ⟨strings, port⟩ := foldl_settle_only env (toUtf8 name) (written hosts) hi
    ((mem_written hosts hi).mpr ⟨name, known⟩) chosen only fun other member => (all other member).port.1
  refine ⟨(written hosts).foldl (settle env (toUtf8 name)) {}, ?_, ?_, ?_, port, ?_⟩
  · exact (readConfigFileDepth_ok_iff env _ hosts (fun other member => (all other member).direct) {} _).mpr
      ⟨fun other member => (all other member).legible, rfl⟩
  · rw [strings]
    exact word_eq_stored hi.host (own.clean _ (by simp)) fun filled => Word.of_solid _ filled (own.texts _ (by simp))
  · rw [strings]
    exact word_eq_stored hi.user (own.clean _ (by simp)) fun filled => Word.of_solid _ filled (own.texts _ (by simp))
  · rw [strings]
    exact word_eq_stored hi.password (own.clean _ (by simp)) fun filled => Word.of_solid _ filled (own.texts _ (by simp))

/-! ## Examples -/

/-- A client without a service database. -/
def plainEnv : Readconf.Env where
  neverMatch := false
  services := fun _ => none
  other := fun _ _ _ state => .ok (state, false)

def alpha : HostInfo where
  name := "alpha".toList
  host := "10.0.0.1".toList
  port := 22
  user := "root".toList
  password := "secret".toList
  memo := "first\nHost beta".toList

def beta : HostInfo where
  name := "beta".toList
  host := "10.0.0.2".toList
  port := 2222
  property := "AAAA".toList

def both : Hosts := ((∅ : Hosts).insert alpha.name alpha).insert beta.name beta

theorem both_ordinary (name : QString) (hi : HostInfo) (known : both.lookup name = some hi) : Ordinary hi := by
  have first : Ordinary alpha := by
    constructor <;> first | decide | (constructor <;> decide)
  have second : Ordinary beta := by
    constructor <;> first | decide | (constructor <;> decide)
  exact MapFold.forall_insert (fun _ => Ordinary) _ _ _
    (MapFold.forall_insert (fun _ => Ordinary) _ _ _ (by simp) first) second name hi known

theorem client_agrees_both :
    both.lookup "beta".toList = some beta ∧
    ∃ state, readConfigFileDepth plainEnv (toUtf8 "beta".toList) (fileBytes both) {} = .ok state ∧
      state.options.str .hostname = stored beta.host ∧ state.options.str .user = stored beta.user ∧
      state.options.port = beta.port.toInt ∧ state.options.str .password = stored beta.password := by
  have known : both.lookup "beta".toList = some beta := Finmap.lookup_insert _
  exact ⟨known, client_agrees plainEnv rfl both ((Named.empty.insert _ alpha).insert _ beta)
    both_ordinary "beta".toList beta known⟩

theorem written_insert_empty : written ((∅ : Hosts).insert hi.name hi) = [hi] := by
  have keys : ((∅ : Hosts).insert hi.name hi).keys = {hi.name} := by
    ext name
    simp [Finmap.mem_keys, Finmap.mem_insert, Finmap.notMem_empty]
  have found : ((∅ : Hosts).insert hi.name hi).lookup hi.name = some hi := Finmap.lookup_insert _
  rw [written, sortedKeys, keys, Finset.sort_singleton, List.map_singleton, value_eq _ _ _ found]

/-- The second line of this property is a setting of its own. -/
def injected : HostInfo where
  name := "a".toList
  port := 22
  property := "x\n  Password ".toList

/-- The session of which `injected` is read as one more line. -/
def calm : HostInfo := { injected with property := "x".toList }

/-- A host with a NUL, at which the client stops. -/
def cut : HostInfo where
  name := "a".toList
  host := "h\x00x".toList
  port := 22

theorem reads_missing : Reads env target [toUtf8 "  Password ".toList] fun _ => none := by
  have indented : Indented "  Password ".toList "Password" "password" := by decide
  have found : (keywords.find? fun keyword => keyword.1 = "password") = some ("password", .oPassword) := by
    decide +kernel
  have keyword := indented.keywordOf []
  rw [List.append_nil] at keyword
  apply Reads.single
  intro linenum state
  rw [processLine_string env target linenum _ _ .password _ state keyword
    (by rw [parseToken_known "password" .oPassword _ found]; rfl)]
  rfl

theorem injected_fatal :
    (readConfigFileDepth env target (fileBytes ((∅ : Hosts).insert injected.name injected)) {}).toOption = none := by
  have direct : Direct calm := by constructor <;> decide
  have lines : stream [injected] = Text.unlines 10 ((hostLines calm).map toUtf8 ++
      [toUtf8 "  Password ".toList]) := by decide +kernel
  have read := (reads_session env target calm direct).append env target (reads_missing env target) 0 [] {}
  rw [List.append_nil] at read
  rw [readConfigFileDepth, configBytes_fileBytes, toStream_eq, written_insert_empty, lines,
    fileLines_unlines _ (by decide +kernel), read]
  simp only [Option.bind_fun_none, Option.bind_none]

/-- A property may end the client, and a NUL the value that it reads. -/
theorem client_disagrees :
    Worded injected ∧
    (readConfigFileDepth plainEnv (toUtf8 injected.name)
      (fileBytes ((∅ : Hosts).insert injected.name injected)) {}).toOption = none ∧
    Worded cut ∧ Single cut.property ∧
    ∃ state, readConfigFileDepth plainEnv (toUtf8 cut.name)
        (fileBytes ((∅ : Hosts).insert cut.name cut)) {} = .ok state ∧
      state.options.str .hostname ≠ stored cut.host := by
  have direct : Direct cut := by constructor <;> decide
  have host : OneWord cut.host := ⟨toUtf8 "h".toList, by decide +kernel⟩
  have legible : Legible cut := by
    intro text member
    rcases List.mem_cons.mp member with rfl | other
    · exact Or.inr host
    · exact Or.inl (by simpa [cut] using other)
  refine ⟨by constructor <;> decide, injected_fatal plainEnv _, by constructor <;> decide, by decide,
    [cut].foldl (settle plainEnv (toUtf8 cut.name)) {}, ?_, ?_⟩
  · rw [readConfigFileDepth_ok_iff _ _ _ (by rw [written_insert_empty]; simpa using direct)]
    rw [written_insert_empty]
    exact ⟨by simpa using legible, rfl⟩
  · decide +kernel

end Woterm.Ssh.Agreement
