import Woterm.Ssh.Agreement
import Woterm.SshConf.Dialog

/-!
The session dialog and the `ssh` client. The dialog accepts texts that the client does not take
for one word, and the client reads the sessions of the whole file for every connection. So one
accepted session can end every connection, or give its password to another one.
-/

namespace Woterm.Ssh.Connection
open Woterm.Lib Woterm.Qt Woterm.Qt.QString Woterm.Ssh.Strdelim Woterm.Ssh.Readconf Woterm.Ssh.Written
open Woterm.Ssh.Agreement Woterm.SshConf.Format Woterm.SshConf.RoundTrip Woterm.SshConf.Store
open Woterm.SshConf.Dialog

/-- An entry that the dialog accepted with a password and without a jump host. -/
structure Accepted (name : QString) (hi : HostInfo) : Prop where
  saved : ∃ fileExists identifyFilePath store mName, ∃ form : Form,
    form.authType = "Password".toList ∧ form.jump = [] ∧
      hostInfo fileExists identifyFilePath form = .ok hi ∧ checks store mName hi = none
  key : hi.name = name
  single : ∀ text ∈ [hi.name, hi.host, hi.user, hi.password], Single text
  trimmed : ∀ text ∈ [hi.host, hi.user, hi.password], Qt.Trimmed text

theorem Accepted.filled {name : QString} {hi : HostInfo} (accepted : Accepted name hi) :
    hi.host ≠ [] ∧ hi.user ≠ [] := by
  obtain ⟨_, _, store, mName, _, _, _, _, valid⟩ := accepted.saved
  unfold checks at valid
  split_ifs at valid with name host user
  exact ⟨by simpa using host, by simpa using user⟩

theorem Accepted.direct {name : QString} {hi : HostInfo} (accepted : Accepted name hi) : Direct hi := by
  obtain ⟨fileExists, path, store, mName, form, password, jump, info, valid⟩ := accepted.saved
  simp only [hostInfo, password, if_pos, Except.ok.injEq] at info
  have identityFile : hi.identityFile = [] := by rw [← info]
  have proxyJump : hi.proxyJump = [] := by rw [← info, ← jump]
  have property : Single hi.property := by
    rw [← info]
    exact Utils.toBase64_single false true form.property
  have port : 0 < hi.port.toInt ∧ hi.port.toInt ≤ 65535 := by
    unfold checks at valid
    split_ifs at valid with _ _ _ range
    rw [not_or, Int32.not_lt, Int32.not_lt, Int32.le_iff_toInt_le, Int32.le_iff_toInt_le] at range
    exact ⟨Int.lt_of_lt_of_le (by decide) range.1, range.2⟩
  refine ⟨(checks_none store mName hi valid).1, port, identityFile, proxyJump, accepted.single _ (by simp), ?_⟩
  intro text member
  simp only [fields, identityFile, proxyJump, List.mem_cons, List.not_mem_nil, or_false] at member
  rcases member with rfl | rfl | rfl | rfl | rfl | rfl
  · exact accepted.single _ (by simp)
  · exact accepted.single _ (by simp)
  · exact accepted.single _ (by simp)
  · simp [Single]
  · simp [Single]
  · exact property

/-! ## Passwords -/

theorem readValue_ok (value arg : CStr) (read : readValue value = .ok arg) :
    arg ⊆ value ∧ quote ∉ arg ∧ (quote ∉ value → Plain arg) := by
  have within : afterBlank (value.rdropWhile isTrailing) ⊆ value := fun byte member =>
    (List.rdropWhile_prefix isTrailing value).subset ((afterBlank_suffix _).subset member)
  unfold readValue at read
  rcases found : strdelim (some (afterBlank (value.rdropWhile isTrailing))) with ⟨_ | _ | ⟨byte, token⟩, rest⟩
  · simp [found] at read
  · simp [found] at read
  · obtain ⟨inside, unquoted, plain⟩ := strdelim_token _ _ _ found
    have same : byte :: token = arg := by
      simp only [found] at read
      split at read
      · simp at read
      · exact Except.ok.inj read
    rw [← same]
    exact ⟨fun other member => within (inside member), unquoted,
      fun absent => plain fun member => absent (within member)⟩

theorem readValue_of_word (text : QString) (arg : CStr) (found : word text = some arg) :
    readValue (bytes text) = .ok arg := by
  by_cases empty : text = []
  · simp [word, empty] at found
  · cases read : readValue (bytes text) with
    | error reason => simp [word, empty, read, Except.toOption] at found
    | ok other =>
      have same : other = arg := by simpa [word, empty, read, Except.toOption] using found
      rw [same]

/-- A password that the client stores as it is. -/
def PlainPassword (password : QString) : Prop :=
  NulFree password ∧ ∀ c ∈ password, c ∉ delimiters

instance (password : QString) : Decidable (PlainPassword password) := by
  unfold PlainPassword
  infer_instance

theorem Accepted.word_password {name : QString} {hi : HostInfo} (accepted : Accepted name hi)
    (plain : PlainPassword hi.password) (filled : hi.password ≠ []) : Word (toUtf8 hi.password) := by
  apply Word.of_text _ filled plain.2
  intro last
  exact absurd ((accepted.trimmed hi.password (by simp)).last _ last) (by decide)

variable (env : Readconf.Env)

/-- The password of the first session, in the order of the file, that is selected for `name`
and has one. -/
def firstPassword (hosts : Hosts) (name : QString) : QString :=
  (((written hosts).find? fun other => selects env (bytes name) other.name && !other.password.isEmpty).map
    HostInfo.password).getD []

/-- Nothing in the file stops the client, and every connection gets its own password. -/
structure Undisturbed (hosts : Hosts) : Prop where
  texts : ∀ name hi, hosts.lookup name = some hi → OneWord hi.host ∧ OneWord hi.user
  passwords : ∀ name hi, hosts.lookup name = some hi → PlainPassword hi.password
  first : ∀ name hi, hosts.lookup name = some hi → firstPassword env hosts name = hi.password

theorem stored_injective : Function.Injective stored := by
  intro first second same
  unfold stored at same
  split_ifs at same with left right
  · rw [List.isEmpty_iff.mp left, List.isEmpty_iff.mp right]
  · exact Utf8.encode_injective (Option.some.inj same)

variable (hosts : Hosts) (name : QString) (hi : HostInfo)

theorem findSome_offer (plain : ∀ hi ∈ written hosts, word hi.password = stored hi.password) :
    (written hosts).findSome? (offer env (bytes name) .password) = stored (firstPassword env hosts name) := by
  unfold firstPassword
  generalize written hosts = infos at plain ⊢
  induction infos with
  | nil => rfl
  | cons hi infos ih =>
    have rest := ih fun other member => plain other (by simp [member])
    have own : offer env (bytes name) .password hi =
        if selects env (bytes name) hi.name then stored hi.password else none := by
      rw [← plain hi (by simp)]
      rfl
    rw [List.findSome?_cons, own, rest]
    cases chosen : selects env (bytes name) hi.name with
    | false => simp [chosen]
    | true =>
      by_cases empty : hi.password = []
      · simp [chosen, empty, stored]
      · simp [chosen, empty, stored]

/-- The client goes through the file, and stores the password of the session it is called for. -/
def Connects (hosts : Hosts) (name : QString) (hi : HostInfo) : Prop :=
  ∃ state, readConfigFileDepth env (bytes name) (fileBytes hosts) {} = .ok state ∧
    state.options.str .password = stored hi.password

theorem connects_iff (accepted : ∀ name hi, hosts.lookup name = some hi → Accepted name hi) (name : QString)
    (hi : HostInfo) :
    Connects env hosts name hi ↔
      (∀ other ∈ written hosts, Legible other) ∧
        (written hosts).findSome? (offer env (bytes name) .password) = stored hi.password := by
  have direct : ∀ other ∈ written hosts, Direct other := by
    intro other member
    obtain ⟨key, found⟩ := (mem_written hosts other).mp member
    exact (accepted key other found).direct
  have stored (state : State) (read : state = (written hosts).foldl (settle env (bytes name)) {}) :
      state.options.str .password = (written hosts).findSome? (offer env (bytes name) .password) := by
    rw [read, foldl_settle_str]
    rfl
  refine ⟨?_, ?_⟩
  · intro given
    obtain ⟨state, read, password⟩ := given
    obtain ⟨legible, final⟩ := (readConfigFileDepth_ok_iff env _ hosts direct {} state).mp read
    exact ⟨legible, by rw [← stored state final, password]⟩
  · intro given
    obtain ⟨legible, password⟩ := given
    refine ⟨_, (readConfigFileDepth_ok_iff env _ hosts direct {} _).mpr ⟨legible, rfl⟩, ?_⟩
    rw [stored _ rfl, password]

theorem read_of_connects (filled : hi.password ≠ [])
    (password : (written hosts).findSome? (offer env (bytes name) .password) = stored hi.password) :
    ∃ other ∈ written hosts, readValue (bytes other.password) = .ok (toUtf8 hi.password) := by
  have value : stored hi.password = some (toUtf8 hi.password) := by simp [stored, filled]
  rw [value] at password
  obtain ⟨other, member, offered⟩ := List.exists_of_findSome?_eq_some password
  refine ⟨other, member, ?_⟩
  by_cases chosen : selects env (bytes name) other.name = true
  · rw [offer, if_pos chosen] at offered
    exact readValue_of_word _ _ offered
  · rw [offer, if_neg chosen] at offered
    simp at offered

theorem plainPassword_of_connects (connects : ∀ name hi, hosts.lookup name = some hi →
      (written hosts).findSome? (offer env (bytes name) .password) = stored hi.password)
    (name : QString) (hi : HostInfo) (known : hosts.lookup name = some hi) : PlainPassword hi.password := by
  have read (name : QString) (hi : HostInfo) (known : hosts.lookup name = some hi) (filled : hi.password ≠ []) :=
    read_of_connects env hosts name hi filled (connects name hi known)
  -- a word that the client read has no quotes, so no password has one
  have unquoted (name : QString) (hi : HostInfo) (known : hosts.lookup name = some hi) :
      quote ∉ toUtf8 hi.password := by
    by_cases empty : hi.password = []
    · simp [empty, toUtf8]
    · obtain ⟨other, _, value⟩ := read name hi known empty
      exact (readValue_ok _ _ value).2.1
  by_cases empty : hi.password = []
  · simp [PlainPassword, NulFree, empty]
  · obtain ⟨other, member, value⟩ := read name hi known empty
    obtain ⟨key, found⟩ := (mem_written hosts other).mp member
    obtain ⟨inside, _, plain⟩ := readValue_ok _ _ value
    have clean : Plain (toUtf8 hi.password) := plain fun quoted =>
      unquoted key other found ((List.takeWhile_prefix _).subset quoted)
    refine ⟨?_, ?_⟩
    · intro nul
      have byte := inside ((Utf8.mem_encode '\x00' (by decide) _).mpr nul)
      exact CString.cstr_nulFree _ byte
    · intro c inText listed
      have kinds : ∀ c ∈ delimiters, c.toNat < 128 ∧ isDelimiter true c.toUInt8 = true := by decide
      have byte := clean c.toUInt8 ((Utf8.mem_encode c (kinds c listed).1 _).mpr inText)
      exact absurd (kinds c listed).2 (by simp [byte])

theorem undisturbed_iff (hosts : Hosts)
    (accepted : ∀ name hi, hosts.lookup name = some hi → Accepted name hi) :
    (∀ name hi, hosts.lookup name = some hi → Connects env hosts name hi) ↔ Undisturbed env hosts := by
  have words (plain : ∀ name hi, hosts.lookup name = some hi → PlainPassword hi.password)
      (hi : HostInfo) (member : hi ∈ written hosts) : word hi.password = stored hi.password := by
    obtain ⟨name, known⟩ := (mem_written hosts hi).mp member
    exact word_eq_stored _ (plain name hi known).1 ((accepted name hi known).word_password (plain name hi known))
  refine ⟨?_, ?_⟩
  · intro connects
    have both (name : QString) (hi : HostInfo) (known : hosts.lookup name = some hi) :=
      (connects_iff env hosts accepted name hi).mp (connects name hi known)
    have plain := plainPassword_of_connects env hosts fun name hi known => (both name hi known).2
    refine ⟨?_, ?_, ?_⟩
    · intro name hi known
      have legible := (both name hi known).1 hi ((mem_written hosts hi).mpr ⟨name, known⟩)
      have filled := (accepted name hi known).filled
      exact ⟨(legible hi.host (by simp)).resolve_left filled.1, (legible hi.user (by simp)).resolve_left filled.2⟩
    · exact plain
    · intro name hi known
      apply stored_injective
      rw [← findSome_offer env hosts name (words plain), (both name hi known).2]
  · intro undisturbed name hi known
    rw [connects_iff env hosts accepted]
    refine ⟨?_, ?_⟩
    · intro other member text listed
      obtain ⟨key, found⟩ := (mem_written hosts other).mp member
      simp only [List.mem_cons, List.not_mem_nil, or_false] at listed
      rcases listed with rfl | rfl | rfl
      · exact Or.inr (undisturbed.texts key other found).1
      · exact Or.inr (undisturbed.texts key other found).2
      · by_cases empty : other.password = []
        · exact Or.inl empty
        · have plain := undisturbed.passwords key other found
          exact Or.inr (Word.oneWord plain.1 ((accepted key other found).word_password plain empty))
    · rw [findSome_offer env hosts name (words undisturbed.passwords), undisturbed.first name hi known]

/-- The dialog filled in with a password. -/
def passwordForm (name password : QString) : Form where
  hostName := name
  host := "10.0.0.1".toList
  port := "22".toList
  memo := []
  userName := "root".toList
  jump := []
  authType := "Password".toList
  password := password
  identify := []
  property := [1, 2, 3]

def sessionOf (name password : QString) : HostInfo where
  name := name
  host := "10.0.0.1".toList
  port := 22
  user := "root".toList
  password := password
  property := "AQID".toList

theorem sessionOf_accepted (name password : QString) (named : name ≠ []) (single : Single name)
    (line : Single password) (trimmed : Qt.Trimmed password) : Accepted name (sessionOf name password) where
  saved := by
    have port : toInt ['2', '2'] = 22 := by decide +kernel
    have property : Utils.toBase64 false true [1, 2, 3] = "AQID".toList := by decide
    refine ⟨fun _ => false, [], {}, name, passwordForm name password, rfl, rfl, ?_, ?_⟩
    · simp [hostInfo, passwordForm, port, property, sessionOf]
    · simp [checks, sessionOf, named]
  key := rfl
  single := by
    simpa [sessionOf, Single] using ⟨single, line⟩
  trimmed := by
    have fixed : Qt.Trimmed "10.0.0.1".toList ∧ Qt.Trimmed "root".toList := by
      constructor <;> constructor <;> decide
    simpa [sessionOf] using ⟨fixed.1, fixed.2, trimmed⟩

def good : HostInfo := sessionOf "good".toList "secret".toList

def bad : HostInfo := sessionOf "bad".toList "two words".toList

theorem good_accepted : Accepted "good".toList good :=
  sessionOf_accepted _ _ (by decide) (by decide) (by decide) (by constructor <;> decide)

/-- A session beside it, with a password of its own. -/
def other : HostInfo := sessionOf "other".toList "hidden".toList

def pair : Hosts := ((∅ : Hosts).insert good.name good).insert other.name other

theorem pair_cases (known : pair.lookup name = some hi) :
    name = good.name ∧ hi = good ∨ name = other.name ∧ hi = other :=
  MapFold.forall_insert (fun name hi => name = good.name ∧ hi = good ∨ name = other.name ∧ hi = other) _ _ _
    (MapFold.forall_insert _ _ _ _ (by simp) (.inl ⟨rfl, rfl⟩)) (.inr ⟨rfl, rfl⟩) name hi known

theorem pair_accepted (known : pair.lookup name = some hi) : Accepted name hi := by
  rcases pair_cases name hi known with ⟨rfl, rfl⟩ | ⟨rfl, rfl⟩
  · exact good_accepted
  · exact sessionOf_accepted _ _ (by decide) (by decide) (by decide) (by constructor <;> decide)

theorem firstPassword_own (known : hosts.lookup name = some hi) (chosen : selects env (bytes name) hi.name = true)
    (only : ∀ other ∈ written hosts, selects env (bytes name) other.name = true → other = hi) :
    firstPassword env hosts name = hi.password := by
  unfold firstPassword
  cases found : (written hosts).find? fun other => selects env (bytes name) other.name && !other.password.isEmpty with
  | none =>
    have refused := List.find?_eq_none.mp found hi ((mem_written hosts hi).mpr ⟨name, known⟩)
    have empty : hi.password = [] := by simpa [chosen] using refused
    rw [empty]
    rfl
  | some other =>
    have selected := List.find?_some found
    rw [Bool.and_eq_true] at selected
    rw [only other (List.mem_of_find?_eq_some found) selected.1]
    rfl

theorem pair_undisturbed : Undisturbed plainEnv pair := by
  refine ⟨fun name hi known => ?_, fun name hi known => ?_, fun name hi known => ?_⟩
  · have host : OneWord "10.0.0.1".toList := ⟨toUtf8 "10.0.0.1".toList, by decide +kernel⟩
    have user : OneWord "root".toList := ⟨toUtf8 "root".toList, by decide +kernel⟩
    rcases pair_cases name hi known with ⟨rfl, rfl⟩ | ⟨rfl, rfl⟩ <;> exact ⟨host, user⟩
  · rcases pair_cases name hi known with ⟨rfl, rfl⟩ | ⟨rfl, rfl⟩ <;> decide
  · refine firstPassword_own plainEnv pair name hi known ?_ fun found member selected => ?_
    · rcases pair_cases name hi known with ⟨rfl, rfl⟩ | ⟨rfl, rfl⟩ <;> decide +kernel
    · obtain ⟨key, there⟩ := (mem_written pair found).mp member
      rcases pair_cases name hi known with ⟨rfl, rfl⟩ | ⟨rfl, rfl⟩ <;>
        rcases pair_cases key found there with ⟨rfl, rfl⟩ | ⟨rfl, rfl⟩
      · rfl
      · exact absurd selected (by decide +kernel)
      · exact absurd selected (by decide +kernel)
      · rfl

theorem undisturbed_iff_pair :
    (∀ name hi, pair.lookup name = some hi → Accepted name hi) ∧
      ∀ name hi, pair.lookup name = some hi → Connects plainEnv pair name hi :=
  ⟨pair_accepted, (undisturbed_iff plainEnv pair pair_accepted).mpr pair_undisturbed⟩

theorem bad_accepted : Accepted "bad".toList bad :=
  sessionOf_accepted _ _ (by decide) (by decide) (by decide) (by constructor <;> decide)

theorem bad_illegible : ¬ Legible bad := by
  have read : readValue (bytes bad.password) = .error (.garbage (keywordBytes "words")) := by decide +kernel
  intro legible
  rcases legible bad.password (by simp) with empty | ⟨arg, found⟩
  · exact absurd empty (by decide)
  · rw [read] at found
    simp at found

/-- The session `bad` ends the connection of `good`. -/
theorem good_disturbed :
    Accepted "good".toList good ∧ Accepted "bad".toList bad ∧
    ∀ state, readConfigFileDepth plainEnv (bytes "good".toList)
      (fileBytes (((∅ : Hosts).insert bad.name bad).insert good.name good)) {} ≠ .ok state := by
  refine ⟨good_accepted, bad_accepted, fun state read => ?_⟩
  have accepted : ∀ name hi, (((∅ : Hosts).insert bad.name bad).insert good.name good).lookup name = some hi →
      Accepted name hi :=
    MapFold.forall_insert _ _ _ _ (MapFold.forall_insert _ _ _ _ (by simp) bad_accepted) good_accepted
  have direct (hi : HostInfo) (member : hi ∈ written (((∅ : Hosts).insert bad.name bad).insert good.name good)) :
      Direct hi := by
    obtain ⟨name, known⟩ := (mem_written _ hi).mp member
    exact (accepted name hi known).direct
  have inside : bad ∈ written (((∅ : Hosts).insert bad.name bad).insert good.name good) := by
    rw [mem_written]
    exact ⟨bad.name, by rw [Finmap.lookup_insert_of_ne _ (by decide), Finmap.lookup_insert]⟩
  exact bad_illegible (((readConfigFileDepth_ok_iff plainEnv _ _ direct {} state).mp read).1 bad inside)

end Woterm.Ssh.Connection
