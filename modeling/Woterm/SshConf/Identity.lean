import Mathlib.Data.Finmap
import Woterm.Lib.MapFold
import Woterm.Qt.Paths
import Woterm.Utils

/-!
`QWoIdentifyInfomation`: what `ssh-keygen` says about a key file, and the list of the keys in the identity
directory. A file there is named after the identity, in base64.
-/

namespace Woterm.SshConf.Identity
open Woterm.Lib Woterm.Qt Woterm.Qt.QString Woterm.Qt.Paths

/-- The files the program finds, with what `ssh-keygen -l -y` prints for a content and the hexadecimal MD5. -/
structure Files (Content : Type) where
  homePath : QString
  applicationDataPath : QString
  /-- `entryList(QDir::Files)` of the identity directory. -/
  items : List QString
  content : QString → Option Content
  keygen : Content → QString
  md5 : QByteArray → QString

abbrev Infos := Finmap fun _ : QString => QString

structure IdentifyInfo where
  path : QString := []
  name : QString := []
  fingureprint : QString := []
  key : QString := []
  type : QString := []
deriving DecidableEq, Repr

/-- The text between `[` and `]`, cut at its first colon; without one it is name and value. -/
def readBlock (type : QString) (infos : Infos) (block : QString) : Infos :=
  match cut block '[' with
  | none => infos
  | some (_, inner) =>
    match cut inner ':' with
    | none => infos.insert (type ++ ".".toList ++ inner) inner
    | some (name, value) => infos.insert (type ++ ".".toList ++ name) value

def readLine (infos : Infos) (line : QString) : Infos :=
  if startsWith line "--fingerprint--:".toList then
    (split (mid line 16) ']').foldl (readBlock "fingureprint".toList) infos
  else if startsWith line "--publickey--:".toList then
    (split (mid line 14) ']').foldl (readBlock "publickey".toList) infos
  else (split line ']').foldl (readBlock "other".toList) infos

/-- `identifyFileGet` for the output of `ssh-keygen`, which is empty when it fails. -/
def identifyFileGet (output : QString) : Infos :=
  if output.isEmpty then ∅ else (split output '\n').foldl readLine ∅

def valueOf (infos : Infos) (name : String) : QString := (infos.lookup name.toList).getD []

variable {Content : Type} (files : Files Content)

def infosOf (file : QString) : Infos :=
  match files.content file with
  | some content => identifyFileGet (files.keygen content)
  | none => ∅

def identifyFilePath : QString := cleanPath (files.applicationDataPath ++ '/' :: "identify".toList)

def identifyInfomation (file : QString) : Option IdentifyInfo :=
  let info := infosOf files file
  if info = ∅ then none
  else
    let inside := startsWith (cleanPath file) (cleanPath (identifyFilePath files))
    let name := if inside then Utils.pathToName (baseName file) else valueOf info "fingureprint.comment"
    let key := valueOf info "publickey.public-key"
    some {
      path := file
      name := if name.isEmpty then baseName file else name
      fingureprint := files.md5 (toUtf8 key)
      key
      type := valueOf info "publickey.ssh-name" }

/-- The identities by the hash of their keys; of two with one key the later one is listed. -/
def listAll : Finmap fun _ : QString => IdentifyInfo :=
  MapFold.insertAll IdentifyInfo.fingureprint id ∅
    (files.items.filterMap fun item => identifyInfomation files (identifyFilePath files ++ '/' :: item))

/-- The public key in a file. -/
def publicKey (file : QString) : Option QString :=
  (files.content file).map fun content => valueOf (identifyFileGet (files.keygen content)) "publickey.public-key"

theorem identifyInfomation_key (file : QString) (info : IdentifyInfo)
    (found : identifyInfomation files file = some info) :
    info.path = file ∧ info.fingureprint = files.md5 (toUtf8 info.key) ∧ publicKey files file = some info.key := by
  unfold identifyInfomation infosOf at found
  unfold publicKey
  cases read : files.content file with
  | none =>
    rw [read] at found
    exact absurd found (by simp)
  | some content =>
    rw [read] at found
    dsimp only at found
    split at found
    · cases found
    · obtain rfl := Option.some.inj found
      exact ⟨rfl, rfl, rfl⟩

theorem nameToPath_plain (name : QString) (named : name ≠ []) : Plain (Utils.nameToPath name) where
  named := Utils.nameToPath_ne_nil name named
  inner member := (Utils.nameToPath_chars name '/' member).1 rfl
  dots member := (Utils.nameToPath_chars name '.' member).2 rfl

theorem startsWith_identifyFilePath (item : QString) (plain : Plain item) :
    startsWith (cleanPath (identifyFilePath files ++ '/' :: item)) (cleanPath (identifyFilePath files)) = true := by
  have directory : Plain "identify".toList := ⟨by decide, by decide, by decide⟩
  have left : resolved (identifyFilePath files) ≠ [] := resolved_cleanPath_child _ _ directory
  rw [cleanPath_child _ item plain left]
  simp [startsWith]

theorem identifyInfomation_name (name : QString) (named : name ≠ [])
    (back : Utils.pathToName (Utils.nameToPath name) = name) (info : IdentifyInfo)
    (found : identifyInfomation files (identifyFilePath files ++ '/' :: Utils.nameToPath name) = some info) :
    info.name = name := by
  have plain := nameToPath_plain name named
  unfold identifyInfomation at found
  dsimp only at found
  split at found
  · cases found
  · obtain rfl := Option.some.inj found
    rw [startsWith_identifyFilePath files _ plain, baseName_child _ _ plain, if_pos rfl, back]
    simp [named]

theorem lookup_listAll (fingureprint : QString) (info : IdentifyInfo)
    (listed : (listAll files).lookup fingureprint = some info) :
    info.fingureprint = fingureprint ∧
      ∃ item ∈ files.items, identifyInfomation files (identifyFilePath files ++ '/' :: item) = some info := by
  rcases MapFold.lookup_insertAll_cases IdentifyInfo.fingureprint id ∅ _ fingureprint with
    ⟨same, _⟩ | ⟨other, member, at_key, stored⟩
  · rw [listAll, same, Finmap.lookup_empty] at listed
    cases listed
  · rw [listAll, stored] at listed
    obtain rfl := Option.some.inj listed
    obtain ⟨item, inside, found⟩ := List.mem_filterMap.mp member
    exact ⟨at_key, item, inside, found⟩

end Woterm.SshConf.Identity
