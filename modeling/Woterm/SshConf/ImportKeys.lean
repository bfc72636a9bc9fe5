import Woterm.SshConf.Identity
import Woterm.SshConf.Import

/-!
The keys of imported hosts. `QWoSessionManage::onImportReady` looks at the key of every host in a first loop and
goes on only if each of them is an identity of the program already; the second loop then replaces the path of the
key by the name of the identity.
-/

namespace Woterm.SshConf.ImportKeys
open Woterm.Lib Woterm.Qt Woterm.Qt.QString Woterm.Qt.Paths Woterm.Qt.Arg
open Woterm.SshConf.Format Woterm.SshConf.Store Woterm.SshConf.Identity Woterm.SshConf.Import

variable {Content : Type} (files : Files Content) (locale : QLocale)

/-- The file that an `IdentityFile` of the imported hosts means. -/
def identityPath (identityFile : QString) : QString :=
  cleanPath (if startsWith identityFile "~".toList then files.homePath ++ '/' :: mid identityFile 1 else identityFile)

/-- The maps of the first loop. The keys of `needsImport` are its values too. -/
structure Scan where
  needsImport : Finset QString := ∅
  path2figure : Finmap fun _ : QString => QString := ∅

def scanHost (all : Finmap fun _ : QString => IdentifyInfo) (scan : Scan) (hi : HostInfo) : Except QString Scan :=
  if hi.identityFile.isEmpty then .ok scan
  else
    let path := identityPath files hi.identityFile
    if (files.content path).isNone then
      .error (argText locale "failed to find the identify file list in config file for bad path: %1".toList path)
    else
      match identifyInfomation files path with
      | none => .error (argText locale "bad identify file: %1".toList path)
      | some info => .ok {
          needsImport := if info.fingureprint ∈ all then scan.needsImport else insert info.path scan.needsImport
          path2figure := scan.path2figure.insert info.path info.fingureprint }

def scanHosts (scan : Scan) (inputs : List Input) : Except QString Scan :=
  inputs.foldlM (fun scan input => scanHost files locale (listAll files) scan input.hi) scan

/-- What the second loop puts in place of an `IdentityFile`. -/
def keyOf (scan : Scan) (identityFile : QString) : QString :=
  let figure := (scan.path2figure.lookup (identityPath files identityFile)).getD []
  let info := ((listAll files).lookup figure).getD {}
  "woterm:".toList ++ Utils.nameToPath info.name

/-- `onImportReady` for the hosts of the file, up to the end of its second loop, or the text of its warning. -/
def importHosts (store : QWoSshConf) (fileName : QString) (inputs : List Input) :
    Except QString (QWoSshConf × List (Option QString)) :=
  if inputs.isEmpty then .error (argText locale "it's not a ssh config format: %1".toList fileName)
  else
    match scanHosts files locale {} inputs with
    | .error message => .error message
    | .ok scan =>
      if scan.needsImport = ∅ then .ok (insertionLoop locale (keyOf files scan) store inputs)
      else
        let items := join (scan.needsImport.sort Utf16.LessEq) "\r\n".toList
        .error (argText locale ("The config file contain the follow identify's files, ".toList ++
          "Please import them before do this action. \r\n\r\n%1".toList) items)

/-! ## The first loop -/

/-- The hashes in the map are those of the keys, and each is listed or waits to be imported. -/
def Figures (scan : Scan) : Prop :=
  ∀ path figure, scan.path2figure.lookup path = some figure →
    ∃ info, identifyInfomation files path = some info ∧ info.fingureprint = figure ∧
      (figure ∈ listAll files ∨ path ∈ scan.needsImport)

theorem scanHost_ok (scan next : Scan) (hi : HostInfo)
    (done : scanHost files locale (listAll files) scan hi = .ok next) :
    hi.identityFile = [] ∧ next = scan ∨
    ∃ info, identifyInfomation files (identityPath files hi.identityFile) = some info ∧
      next.path2figure = scan.path2figure.insert (identityPath files hi.identityFile) info.fingureprint ∧
      scan.needsImport ⊆ next.needsImport ∧
      (info.fingureprint ∈ listAll files ∨ identityPath files hi.identityFile ∈ next.needsImport) := by
  unfold scanHost at done
  split at done
  · rename_i empty
    exact Or.inl ⟨by simpa using empty, (Except.ok.inj done).symm⟩
  · right
    dsimp only at done
    split at done
    · cases done
    · cases found : identifyInfomation files (identityPath files hi.identityFile) with
      | none =>
        rw [found] at done
        cases done
      | some info =>
        rw [found] at done
        obtain rfl := Except.ok.inj done
        obtain ⟨path, _⟩ := identifyInfomation_key files _ info found
        refine ⟨info, rfl, by rw [path], ?_, ?_⟩
        · dsimp only
          split
          · exact subset_rfl
          · exact Finset.subset_insert _ _
        · by_cases listed : info.fingureprint ∈ listAll files
          · exact Or.inl listed
          · right
            rw [if_neg listed, path]
            exact Finset.mem_insert_self _ _

theorem scanHost_figures (scan next : Scan) (hi : HostInfo) (figures : Figures files scan)
    (done : scanHost files locale (listAll files) scan hi = .ok next) : Figures files next := by
  rcases scanHost_ok files locale scan next hi done with ⟨_, rfl⟩ | ⟨info, found, map, more, listed⟩
  · exact figures
  · intro path figure stored
    rw [map] at stored
    by_cases here : path = identityPath files hi.identityFile
    · rw [here, Finmap.lookup_insert] at stored
      obtain rfl := Option.some.inj stored
      rw [here]
      exact ⟨info, found, rfl, listed⟩
    · rw [Finmap.lookup_insert_of_ne _ here] at stored
      obtain ⟨other, known, same, listed⟩ := figures path figure stored
      exact ⟨other, known, same, listed.imp_right fun waits => more waits⟩

theorem scanHosts_ok (scan final : Scan) (inputs : List Input) (figures : Figures files scan)
    (done : scanHosts files locale scan inputs = .ok final) :
    Figures files final ∧ (∀ path ∈ scan.path2figure, path ∈ final.path2figure) ∧
      ∀ input ∈ inputs, input.hi.identityFile ≠ [] → identityPath files input.hi.identityFile ∈ final.path2figure := by
  induction inputs generalizing scan with
  | nil =>
    obtain rfl := Except.ok.inj done
    exact ⟨figures, fun _ member => member, by simp⟩
  | cons input inputs ih =>
    rw [scanHosts, List.foldlM_cons] at done
    cases stepped : scanHost files locale (listAll files) scan input.hi with
    | error message =>
      rw [stepped] at done
      cases done
    | ok next =>
      rw [stepped] at done
      obtain ⟨good, kept, seen⟩ := ih next (scanHost_figures files locale scan next input.hi figures stepped) done
      rcases scanHost_ok files locale scan next input.hi stepped with ⟨empty, rfl⟩ | ⟨info, _, map, _⟩
      · refine ⟨good, kept, fun other member has_key => ?_⟩
        rcases List.mem_cons.mp member with rfl | later
        · exact absurd empty has_key
        · exact seen other later has_key
      · refine ⟨good, fun path member => kept path ?_, fun other member has_key => ?_⟩
        · rw [map, Finmap.mem_insert]
          exact Or.inr member
        · rcases List.mem_cons.mp member with rfl | later
          · exact kept _ (by rw [map, Finmap.mem_insert]; exact Or.inl rfl)
          · exact seen other later has_key

/-! ## The second loop -/

/-- The identity stands for a file of the identity directory with a key of the same hash as the given one; where
no key was given, there is none. -/
def SameKey (given identityFile : QString) : Prop :=
  if given = [] then identityFile = []
  else ∃ item ∈ files.items, identityFile = "woterm:".toList ++ item ∧
    ∃ stored key, publicKey files (identifyFilePath files ++ '/' :: item) = some stored ∧
      publicKey files (identityPath files given) = some key ∧ files.md5 (toUtf8 stored) = files.md5 (toUtf8 key)

/-- Every file of the identity directory is named after an identity. -/
def NamedItems : Prop :=
  ∀ item ∈ files.items, ∃ name, name ≠ [] ∧ item = Utils.nameToPath name ∧
    Utils.pathToName (Utils.nameToPath name) = name

theorem keyOf_sameKey (scan : Scan) (named : NamedItems files) (figures : Figures files scan)
    (nothing : scan.needsImport = ∅) (given : QString) (has_key : given ≠ [])
    (seen : identityPath files given ∈ scan.path2figure) : SameKey files given (keyOf files scan given) := by
  obtain ⟨figure, stored⟩ := Finmap.mem_iff.mp seen
  obtain ⟨info, found, rfl, listed⟩ := figures _ figure stored
  have listed : info.fingureprint ∈ listAll files :=
    listed.resolve_right (by rw [nothing]; exact Finset.notMem_empty _)
  obtain ⟨identity, known⟩ := Finmap.mem_iff.mp listed
  obtain ⟨same, item, member, read⟩ := lookup_listAll files _ identity known
  obtain ⟨name, some_name, rfl, back⟩ := named item member
  obtain ⟨_, stored_hash, stored_key⟩ := identifyInfomation_key files _ identity read
  obtain ⟨_, given_hash, given_key⟩ := identifyInfomation_key files _ info found
  rw [SameKey, if_neg has_key]
  have replaced : keyOf files scan given = "woterm:".toList ++ Utils.nameToPath name := by
    have called := identifyInfomation_name files name some_name back identity read
    unfold keyOf
    dsimp only
    rw [stored, Option.getD_some, known, Option.getD_some, called]
  refine ⟨Utils.nameToPath name, member, replaced, identity.key, info.key, stored_key, given_key, ?_⟩
  rw [← stored_hash, ← given_hash, same]

theorem withKey_sameKey (scan : Scan) (named : NamedItems files) (figures : Figures files scan)
    (nothing : scan.needsImport = ∅) (hi : HostInfo)
    (seen : hi.identityFile ≠ [] → identityPath files hi.identityFile ∈ scan.path2figure) :
    SameKey files hi.identityFile (withKey (keyOf files scan) hi).identityFile := by
  by_cases none : hi.identityFile = []
  · rw [SameKey, if_pos none, withKey_plain _ hi none]
    exact none
  · have replaced : (withKey (keyOf files scan) hi).identityFile = keyOf files scan hi.identityFile := by
      simp [withKey, none]
    rw [replaced]
    exact keyOf_sameKey files scan named figures nothing _ none (seen none)

/-- The second loop gives every host the identity with its key, and all that is new in the store is such a host
under some name. -/
theorem import_keeps_keys (store : QWoSshConf) (fileName : QString) (inputs : List Input)
    (result : QWoSshConf × List (Option QString)) (named : NamedItems files)
    (reached : importHosts files locale store fileName inputs = .ok result) :
    ∃ key : QString → QString, result = insertionLoop locale key store inputs ∧
      (∀ input ∈ inputs, SameKey files input.hi.identityFile (withKey key input.hi).identityFile) ∧
      ∀ name entry, result.1.hosts.lookup name = some entry →
        store.hosts.lookup name = some entry ∨ ∃ input ∈ inputs, entry = { withKey key input.hi with name } := by
  unfold importHosts at reached
  split at reached
  · cases reached
  · cases scanned : scanHosts files locale {} inputs with
    | error message =>
      rw [scanned] at reached
      cases reached
    | ok scan =>
      rw [scanned] at reached
      dsimp only at reached
      split at reached
      · rename_i nothing
        obtain rfl := Except.ok.inj reached
        have initial : Figures files {} := fun path figure stored => by simp at stored
        obtain ⟨figures, _, seen⟩ := scanHosts_ok files locale {} scan inputs initial scanned
        refine ⟨keyOf files scan, rfl, fun input member => ?_, fun name entry stored => ?_⟩
        · exact withKey_sameKey files scan named figures nothing input.hi (seen input member)
        · exact insertionLoop_entry locale (keyOf files scan) store inputs name entry stored
      · cases reached

/-- A key in the home directory that is an identity of the program too. -/
def keyFiles : Files QString where
  homePath := "/home/user".toList
  applicationDataPath := "/data".toList
  items := [Utils.nameToPath "key".toList]
  content path :=
    if path = "/home/user/.ssh/id_rsa".toList ∨ path = "/data/identify/a2V5".toList then some "AAAA".toList else none
  keygen key := "--publickey--:[public-key:".toList ++ key ++ "]".toList
  md5 bytes := bytes.map fun byte => Char.ofNat byte.toNat

def keyHost : HostInfo := { web with identityFile := "~/.ssh/id_rsa".toList }

theorem keyFiles_named : NamedItems keyFiles := by
  intro item member
  refine ⟨"key".toList, by decide, List.mem_singleton.mp member, ?_⟩
  exact Utils.pathToName_nameToPath _ (by decide) (by decide)

theorem import_keeps_keys_tilde :
    ∃ result, importHosts keyFiles plainLocale {} "config".toList [written keyHost] = .ok result ∧
      result.1.hosts.lookup "web".toList = some { keyHost with identityFile := "woterm:a2V5".toList } ∧
      ∃ key : QString → QString, result = insertionLoop plainLocale key {} [written keyHost] ∧
        (∀ input ∈ [written keyHost], SameKey keyFiles input.hi.identityFile (withKey key input.hi).identityFile) ∧
        ∀ name entry, result.1.hosts.lookup name = some entry →
          (∅ : Hosts).lookup name = some entry ∨
            ∃ input ∈ [written keyHost], entry = { withKey key input.hi with name } := by
  have evaluated : ((importHosts keyFiles plainLocale {} "config".toList [written keyHost]).toOption.map fun result =>
      result.1.hosts.lookup "web".toList) = some (some { keyHost with identityFile := "woterm:a2V5".toList }) := by
    decide +kernel
  cases reached : importHosts keyFiles plainLocale {} "config".toList [written keyHost] with
  | error message =>
    rw [reached] at evaluated
    cases evaluated
  | ok result =>
    rw [reached] at evaluated
    exact ⟨result, rfl, Option.some.inj evaluated,
      import_keeps_keys keyFiles plainLocale {} _ _ result keyFiles_named reached⟩

end Woterm.SshConf.ImportKeys
