import Woterm.SshConf.Dialog

/-!
A session that is opened in the dialog and saved again without a change. `initCustom` has no field for the kind of
authentication, so that it takes an empty password to mean an identity file.
-/

namespace Woterm.SshConf.Reopen
open Woterm.Lib Woterm.Qt Woterm.Qt.QString
open Woterm.SshConf.Format Woterm.SshConf.Store Woterm.SshConf.Dialog

/-- How many UTF-16 units a character takes. -/
def units (c : Char) : Nat := if c.toNat < 0x10000 then 1 else 2

def left : Nat → QString → QString
  | _, [] => []
  | room, c :: rest => if units c ≤ room then c :: left (room - units c) rest else []

/-- `QLineEdit::setText` and then `text`: the greatest length of a line is 32767. -/
def lineEdit (text : QString) : QString := left 32767 text

/-- `QPlainTextEdit::setPlainText` and then `toPlainText`: all ends of lines become `\n`, and the space that does
not break becomes a plain one. -/
def plainTextEdit : QString → QString
  | [] => []
  | '\r' :: '\n' :: rest => '\n' :: plainTextEdit rest
  | c :: rest =>
    if c = '\r' ∨ c.toNat ∈ [0x2028, 0x2029, 0xfdd0, 0xfdd1] then '\n' :: plainTextEdit rest
    else if c.toNat = 0xa0 then ' ' :: plainTextEdit rest
    else c :: plainTextEdit rest

/-- `init` for a new dialog, with `initDefault`; the property is what its other pages are set to. -/
def initDefault (property : QByteArray) : Form where
  hostName := []
  host := []
  port := "22".toList
  memo := []
  userName := []
  jump := []
  authType := "Password".toList
  password := []
  identify := []
  property

def initCustom (store : QWoSshConf) (mName : QString) (form : Form) : Form :=
  if mName.isEmpty then form
  else
    let hi := find store mName
    { form with
      hostName := lineEdit hi.name
      host := lineEdit hi.host
      port := lineEdit (number hi.port)
      memo := plainTextEdit hi.memo
      userName := lineEdit hi.user
      password := lineEdit hi.password
      identify :=
        if hi.identityFile.isEmpty then form.identify
        else if startsWith hi.identityFile "woterm:".toList then lineEdit (Utils.pathToName (mid hi.identityFile 7))
        else lineEdit (Utils.pathToName hi.identityFile)
      authType := if hi.password.isEmpty then "Identify".toList else "Password".toList
      jump := lineEdit hi.proxyJump }

/-- The session that `saveConfig` hands to `modifyOrAppend`, if it does. -/
def stored (fileExists : QString → Bool) (identifyFilePath : QString) (store : QWoSshConf) (mName : QString)
    (form : Form) : Option HostInfo :=
  match hostInfo fileExists identifyFilePath form with
  | .error _ => none
  | .ok hi => if checks store mName hi = none then some hi else none

variable (fileExists : QString → Bool) (identifyFilePath : QString)

theorem of_stored (store : QWoSshConf) (mName : QString) (form : Form) (hi : HostInfo)
    (saved : stored fileExists identifyFilePath store mName form = some hi) :
    hostInfo fileExists identifyFilePath form = .ok hi ∧ checks store mName hi = none := by
  unfold stored at saved
  cases read : hostInfo fileExists identifyFilePath form with
  | error message =>
    rw [read] at saved
    cases saved
  | ok found =>
    rw [read] at saved
    dsimp only at saved
    split at saved
    · rename_i accepted
      obtain rfl := Option.some.inj saved
      exact ⟨rfl, accepted⟩
    · cases saved

/-! ## The form of a stored session -/

structure Shown (form : Form) : Prop where
  hostName : lineEdit form.hostName = form.hostName
  host : lineEdit form.host = form.host
  memo : plainTextEdit form.memo = form.memo
  userName : lineEdit form.userName = form.userName
  jump : lineEdit form.jump = form.jump
  password : lineEdit form.password = form.password
  identify : lineEdit form.identify = form.identify

theorem left_short (room : Nat) (text : QString) (short : 2 * text.length ≤ room) : left room text = text := by
  induction text generalizing room with
  | nil => rfl
  | cons c text ih =>
    have two : units c ≤ 2 := by
      unfold units
      split <;> decide
    rw [List.length_cons] at short
    rw [left, if_pos (by omega), ih (room - units c) (by omega)]

theorem lineEdit_number (n : Int32) : lineEdit (number n) = number n := by
  have length := number_length n
  exact left_short _ _ (by omega)

theorem hostInfo_ok (form : Form) (hi : HostInfo) (read : hostInfo fileExists identifyFilePath form = .ok hi) :
    ∃ password identityFile, hi = {
        property := Utils.toBase64 false true form.property
        name := form.hostName
        host := form.host
        port := toInt form.port
        memo := form.memo
        user := form.userName
        proxyJump := form.jump
        password, identityFile } ∧
      (password = form.password ∧ identityFile = [] ∨
        password = [] ∧ identityFile = "woterm:".toList ++ Utils.nameToPath form.identify) := by
  unfold hostInfo at read
  dsimp only at read
  split at read
  · exact ⟨form.password, [], (Except.ok.inj read).symm, Or.inl ⟨rfl, rfl⟩⟩
  · split at read
    · exact ⟨[], _, (Except.ok.inj read).symm, Or.inr ⟨rfl, rfl⟩⟩
    · cases read

def formOf (hi : HostInfo) (identify : QString) (property : QByteArray) : Form where
  hostName := hi.name
  host := hi.host
  port := number hi.port
  memo := hi.memo
  userName := hi.user
  jump := hi.proxyJump
  authType := if hi.password.isEmpty then "Identify".toList else "Password".toList
  password := hi.password
  identify
  property

section
variable (fileExists : QString → Bool) (identifyFilePath : QString) (hi : HostInfo) (identify : QString)
  (property : QByteArray)

theorem hostInfo_password (some_password : hi.password ≠ []) :
    hostInfo fileExists identifyFilePath (formOf hi identify property) =
      .ok { hi with property := Utils.toBase64 false true property, identityFile := [], group := [] } := by
  have kind : (formOf hi identify property).authType = "Password".toList := if_neg (by simpa using some_password)
  have port : toInt (formOf hi identify property).port = hi.port := toInt_number hi.port
  rw [hostInfo, if_pos kind, port]
  rfl

theorem hostInfo_identify (no_password : hi.password = [])
    (there : fileExists (identifyFilePath ++ "/".toList ++ Utils.nameToPath identify) = true) :
    hostInfo fileExists identifyFilePath (formOf hi identify property) =
      .ok { hi with
        property := Utils.toBase64 false true property
        identityFile := "woterm:".toList ++ Utils.nameToPath identify
        group := [] } := by
  have shown : (formOf hi identify property).authType = "Identify".toList := if_pos (by simpa using no_password)
  have kind : (formOf hi identify property).authType ≠ "Password".toList := by
    rw [shown]
    decide
  have port : toInt (formOf hi identify property).port = hi.port := toInt_number hi.port
  have same : (formOf hi identify property).identify = identify := rfl
  rw [hostInfo, if_neg kind, same, if_pos there, port, no_password]
  rfl

end

theorem checks_again (earlier store : QWoSshConf) (mName : QString) (hi again : HostInfo)
    (accepted : checks earlier mName hi = none) (name : again.name = hi.name) (host : again.host = hi.host)
    (user : again.user = hi.user) (port : again.port = hi.port) : checks store hi.name again = none := by
  unfold checks at accepted ⊢
  rw [name, host, user, port]
  split_ifs at accepted with no_name no_host no_user bad_port used
  simp only [no_name, no_host, no_user, bad_port]
  simp

theorem initCustom_stored (store : QWoSshConf) (form : Form) (property : QByteArray) (hi : HostInfo)
    (shown : Shown form) (read : hostInfo fileExists identifyFilePath form = .ok hi) (named : hi.name ≠ [])
    (back : Utils.pathToName (Utils.nameToPath form.identify) = form.identify) (known : find store hi.name = hi) :
    initCustom store hi.name (initDefault property) =
      formOf hi (if hi.identityFile = [] then [] else form.identify) property := by
  have empty : lineEdit [] = [] := rfl
  rw [initCustom, if_neg (by simpa using named), known]
  obtain ⟨password, identityFile, rfl, kind⟩ := hostInfo_ok fileExists identifyFilePath form hi read
  have word : lineEdit password = password := by
    rcases kind with ⟨rfl, _⟩ | ⟨rfl, _⟩
    · exact shown.password
    · exact empty
  have identity : (if identityFile.isEmpty then (initDefault property).identify
      else if startsWith identityFile "woterm:".toList then lineEdit (Utils.pathToName (mid identityFile 7))
      else lineEdit (Utils.pathToName identityFile)) = if identityFile = [] then [] else form.identify := by
    rcases kind with ⟨_, rfl⟩ | ⟨_, rfl⟩
    · rfl
    · have start : startsWith ("woterm:".toList ++ Utils.nameToPath form.identify) "woterm:".toList = true := by
        simp [startsWith]
      have rest : mid ("woterm:".toList ++ Utils.nameToPath form.identify) 7 = Utils.nameToPath form.identify := rfl
      rw [if_neg (by simp), if_pos start, rest, back, shown.identify, if_neg (by simp)]
  simp only [formOf, shown.hostName, shown.host, shown.memo, shown.userName, shown.jump, lineEdit_number, word,
    identity]
  rfl

/-- Saving the form again stores the session as it was if it comes to the same identity file. -/
theorem restored_iff (earlier store : QWoSshConf)
    (mName : QString) (hi : HostInfo) (identify : QString) (property : QByteArray) (identityFile : QString)
    (accepted : checks earlier mName hi = none)
    (result : hostInfo fileExists identifyFilePath (formOf hi identify property) =
      .ok { hi with property := Utils.toBase64 false true property, identityFile, group := [] }) :
    (∃ again, stored fileExists identifyFilePath store hi.name (formOf hi identify property) = some again ∧
      { again with property := hi.property, group := hi.group } = hi) ↔ identityFile = hi.identityFile := by
  have again := checks_again earlier store mName hi
    { hi with property := Utils.toBase64 false true property, identityFile, group := [] } accepted rfl rfl rfl rfl
  rw [stored, result]
  dsimp only
  rw [if_pos again]
  refine ⟨?_, ?_⟩
  · rintro ⟨other, same, equal⟩
    obtain rfl := Option.some.inj same
    exact congrArg HostInfo.identityFile equal
  · rintro rfl
    exact ⟨_, rfl, rfl⟩

/-- A stored session that is opened and saved again is stored as it was exactly when it has a password or an
identity file. -/
theorem reopened_iff (earlierExists fileExists : QString → Bool) (identifyFilePath : QString)
    (earlier store : QWoSshConf) (mName : QString) (form : Form) (property : QByteArray) (hi : HostInfo)
    (shown : Shown form) (saved : stored earlierExists identifyFilePath earlier mName form = some hi)
    (back : Utils.pathToName (Utils.nameToPath form.identify) = form.identify) (known : find store hi.name = hi)
    (kept : ∀ path, hi.identityFile = "woterm:".toList ++ path →
      fileExists (identifyFilePath ++ "/".toList ++ path) = true)
    (directory : fileExists (identifyFilePath ++ "/".toList) = true) :
    (∃ again, stored fileExists identifyFilePath store hi.name (initCustom store hi.name (initDefault property)) =
        some again ∧ { again with property := hi.property, group := hi.group } = hi) ↔
      hi.password ≠ [] ∨ hi.identityFile ≠ [] := by
  obtain ⟨read, accepted⟩ := of_stored earlierExists identifyFilePath earlier mName form hi saved
  have named := (checks_none earlier mName hi accepted).1
  rw [initCustom_stored earlierExists identifyFilePath store form property hi shown read named back known]
  have restored (identify identityFile : QString)
      (result : hostInfo fileExists identifyFilePath (formOf hi identify property) =
        .ok { hi with property := Utils.toBase64 false true property, identityFile, group := [] }) :=
    restored_iff fileExists identifyFilePath earlier store mName hi identify property identityFile accepted result
  obtain ⟨password, identityFile, shape, kind⟩ := hostInfo_ok earlierExists identifyFilePath form hi read
  have word : hi.password = password := congrArg HostInfo.password shape
  have identity : hi.identityFile = identityFile := congrArg HostInfo.identityFile shape
  by_cases no_password : hi.password = []
  · by_cases no_identity : hi.identityFile = []
    · -- the empty password was meant as one, but the form asks for the identity with the empty name
      have none : Utils.nameToPath [] = [] := rfl
      have result := hostInfo_identify fileExists identifyFilePath hi [] property no_password
        (by rw [none, List.append_nil]; exact directory)
      rw [if_pos no_identity, restored [] _ result]
      simp [no_password, no_identity]
    · have path : hi.identityFile = "woterm:".toList ++ Utils.nameToPath form.identify := by
        rw [identity] at no_identity ⊢
        exact (kind.resolve_left fun typed => no_identity typed.2).2
      have result := hostInfo_identify fileExists identifyFilePath hi form.identify property no_password (kept _ path)
      rw [if_neg no_identity, restored form.identify _ result]
      exact iff_of_true path.symm (Or.inr no_identity)
  · have no_identity : hi.identityFile = [] := by
      rw [word] at no_password
      rw [identity]
      exact (kind.resolve_right fun chosen => no_password chosen.1).2
    rw [if_pos no_identity, restored [] [] (hostInfo_password fileExists identifyFilePath hi [] property no_password)]
    exact iff_of_true no_identity.symm (Or.inl no_password)

def typed (password : QString) : Form where
  hostName := "web".toList
  host := "10.0.0.1".toList
  port := "22".toList
  memo := "first\nsecond".toList
  userName := "root".toList
  jump := []
  authType := "Password".toList
  password
  identify := []
  property := []

/-- The session it is stored as, and the store with that session. -/
def typedHost (password : QString) : HostInfo where
  name := "web".toList
  host := "10.0.0.1".toList
  port := 22
  user := "root".toList
  password
  memo := "first\nsecond".toList

def typedStore (password : QString) : QWoSshConf :=
  { hosts := (∅ : Hosts).insert "web".toList (typedHost password) }

theorem reopened_iff_typed :
    Shown (typed "pw".toList) ∧
    stored (fun _ => true) "/identify".toList {} [] (typed "pw".toList) = some (typedHost "pw".toList) ∧
    find (typedStore "pw".toList) (typedHost "pw".toList).name = typedHost "pw".toList ∧
    ((∃ again, stored (fun _ => true) "/identify".toList (typedStore "pw".toList) (typedHost "pw".toList).name
        (initCustom (typedStore "pw".toList) (typedHost "pw".toList).name (initDefault [])) = some again ∧
        { again with property := (typedHost "pw".toList).property, group := (typedHost "pw".toList).group } =
          typedHost "pw".toList) ↔
      (typedHost "pw".toList).password ≠ [] ∨ (typedHost "pw".toList).identityFile ≠ []) := by
  have shown : Shown (typed "pw".toList) :=
    ⟨by decide, by decide, by decide, by decide, by decide, by decide, by decide⟩
  have saved : stored (fun _ => true) "/identify".toList {} [] (typed "pw".toList) = some (typedHost "pw".toList) := by
    decide +kernel
  have known : find (typedStore "pw".toList) (typedHost "pw".toList).name = typedHost "pw".toList := by
    decide +kernel
  exact ⟨shown, saved, known, reopened_iff (fun _ => true) (fun _ => true) _ {} _ [] (typed "pw".toList) [] _
    shown saved rfl known (fun _ _ => rfl) rfl⟩

/-- A session with an empty password has the identity `woterm:` after it was opened and saved. -/
theorem blank_password_lost :
    Shown (typed []) ∧ stored (fun _ => true) "/identify".toList {} [] (typed []) = some (typedHost []) ∧
    find (typedStore []) (typedHost []).name = typedHost [] ∧
    stored (fun _ => true) "/identify".toList (typedStore []) (typedHost []).name
        (initCustom (typedStore []) (typedHost []).name (initDefault [])) =
      some { typedHost [] with identityFile := "woterm:".toList } := by
  refine ⟨⟨by decide, by decide, by decide, by decide, by decide, by decide, by decide⟩, ?_, ?_, ?_⟩
  · decide +kernel
  · decide +kernel
  · decide +kernel

end Woterm.SshConf.Reopen
