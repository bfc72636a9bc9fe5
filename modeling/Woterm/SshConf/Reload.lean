import Woterm.SshConf.Keywords
import Woterm.SshConf.Merge
import Woterm.SshConf.Parsed
import Woterm.SshConf.Store

/-!
Saving what was loaded. Whatever the file looked like, the sessions that the parser returns lie in
the part of the format that it inverts, so that the first load normalises the file and every later
save and refresh leaves the sessions as they are. A port that is not positive is not written. The one
text that does not come back is a password that starts with half of a character.
-/

namespace Woterm.SshConf.Reload
open Woterm.Lib Woterm.Lib.Overwrite Woterm.Qt Woterm.Qt.QString
open Woterm.SshConf.Format Woterm.SshConf.RoundTrip Woterm.SshConf.Blocks Woterm.SshConf.Store

/-- The same session, with the port compared where it is positive. -/
structure Same (first second : HostInfo) : Prop where
  fields : withPort first.port second = first
  port : 0 < first.port → second.port = first.port

/-- The same sessions under the same names. -/
def SameHosts (first second : Hosts) : Prop := ∀ name, Option.Rel Same (first.lookup name) (second.lookup name)

variable (env : Env) (buf : QByteArray) (name : QString) (hi : HostInfo)

theorem same_restored (port : Int32) (ungrouped : hi.group = []) : Same hi (restored port hi) := by
  refine ⟨?_, ?_⟩
  · cases hi
    cases ungrouped
    rfl
  · intro positive
    exact if_pos positive

theorem parseItem_group (state : HostInfo × List QString) (text : QString) :
    (parseItem state text).1.group = state.1.group := by
  unfold parseItem
  dsimp only
  split
  · rename_i directive found
    have known := List.mem_of_find?_eq_some found
    simp only [directives, List.mem_cons, List.not_mem_nil, or_false] at known
    rcases known with rfl | rfl | rfl | rfl | rfl | rfl | rfl | rfl <;> rfl
  · split <;> rfl

theorem parseBlock_group (port : Int32) (block : Block) : (parseBlock port block).group = [] := by
  have kept : ∀ state, (block.foldl parseItem state).1.group = state.1.group := by
    induction block with
    | nil => exact fun _ => rfl
    | cons text block ih => exact fun state => (ih _).trans (parseItem_group state text)
  exact kept _

theorem parse_group (stored : (parse env buf).lookup name = some hi) : hi.group = [] := by
  by_cases known : Merge.IsSession buf name
  · obtain ⟨plain, named⟩ := known
    obtain ⟨item, last⟩ := Option.ne_none_iff_exists'.mp named
    rw [Merge.lookup_session env buf name item plain last] at stored
    rw [← Option.some.inj stored, Merge.mergeWildcard_eq]
    have own : (session env name item).group = [] := parseBlock_group _ _
    split <;> exact own
  · rw [Merge.lookup_other env buf name known] at stored
    cases stored

theorem parse_toStream_parse (first second : Env) (buf : QByteArray) :
    SameHosts (parse first buf) (parse second (toStream (parse first buf))) := by
  intro name
  obtain ⟨i, read⟩ := lookup_parse_toStream second (parse first buf)
    (fun name hi stored => (Parsed.parse_storable first buf name hi stored).1)
    (fun name hi stored => (Parsed.parse_storable first buf name hi stored).2) name
  rw [read]
  cases stored : (parse first buf).lookup name with
  | none => exact .none
  | some hi => exact .some (same_restored hi _ (parse_group first buf name hi stored))

/-! ## Passwords in UTF-16

The keyword `Password` is matched without a blank and nine units are skipped. A character beyond U+FFFF right behind it
has two units there, so that the password starts with the second one alone. In a text of the model that unit is a `?`,
as in every file that is written; what the program holds is the units themselves.
-/

def isPassword (text : QString) : Bool := startsWith (trimmed text) "Password".toList

/-- The password of a line, as it is written to a file. -/
def shown (text : QString) : QString := trimmed (mid (trimmed text) 9)

def blank16 (unit : Nat) : Bool := QChar.isSpace (Char.ofNat unit)

/-- The password of a line, as the program holds it. -/
def units (text : QString) : List Nat := Text.trim blank16 ((Utf16.encode (trimmed text)).drop 9)

/-- A character of two units right behind the keyword. -/
def Divided (text : QString) : Prop := ∃ c rest, trimmed text = "Password".toList ++ c :: rest ∧ 0x10000 ≤ c.toNat

theorem blank16_surrogate (unit : Nat) (low : 0xd800 ≤ unit) (high : unit ≤ 0xdfff) : blank16 unit = false := by
  have invalid : ¬ unit.isValidChar := by
    rintro (below | above) <;> omega
  rw [blank16, Char.ofNat, dif_neg invalid]
  decide

theorem trim_encode (text : QString) : Text.trim blank16 (Utf16.encode text) = Utf16.encode (trimmed text) := by
  have same (c : Char) : blank16 c.toNat = QChar.isSpace c := by rw [blank16, Char.ofNat_toNat]
  refine Text.trim_flatMap text (fun c blank unit member => ?_) fun c solid => ?_
  · rw [Utf16.encodeChar, if_pos (isSpace_small c blank)] at member
    rw [List.mem_singleton.mp member, same, blank]
  · unfold Utf16.encodeChar
    split
    · refine ⟨List.cons_ne_nil _ _, fun unit member => ?_⟩
      rw [List.mem_singleton.mp member, same, solid]
    next large =>
      have bound : c.toNat < 0x110000 := by
        have valid : c.toNat < 0xd800 ∨ 0xdfff < c.toNat ∧ c.toNat < 0x110000 := c.valid
        omega
      refine ⟨List.cons_ne_nil _ _, fun unit member => ?_⟩
      simp only [List.mem_cons, List.not_mem_nil, or_false] at member
      exact blank16_surrogate unit (by omega) (by omega)

/-- Both readings agree unless a pair is divided. -/
theorem units_iff (text : QString) (password : isPassword text = true) :
    units text = Utf16.encode (shown text) ↔ ¬ Divided text := by
  obtain ⟨behind, whole⟩ := List.isPrefixOf_iff_prefix.mp password
  have front (rest : QString) : (Utf16.encode ("Password".toList ++ rest)).drop 9 = (Utf16.encode rest).drop 1 := rfl
  have inside (rest : QString) : mid ("Password".toList ++ rest) 9 = mid rest 1 := rfl
  rw [units, shown, Divided, ← whole, front, inside]
  cases behind with
  | nil => exact iff_of_true rfl (by simp)
  | cons c rest =>
    by_cases small : c.toNat < 0x10000
    · have cut : mid (c :: rest) 1 = rest := if_pos small
      have units : (Utf16.encode (c :: rest)).drop 1 = Utf16.encode rest := by
        rw [Utf16.encode, List.flatMap_cons, Utf16.encodeChar, if_pos small]
        rfl
      rw [cut, units, trim_encode]
      refine iff_of_true rfl ?_
      rintro ⟨d, rest', same, large⟩
      obtain ⟨rfl, _⟩ := List.cons.inj (List.append_cancel_left same)
      omega
    · have cut : mid (c :: rest) 1 = '?' :: rest := if_neg small
      have units : (Utf16.encode (c :: rest)).drop 1 =
          (0xdc00 + (c.toNat - 0x10000) % 0x400) :: Utf16.encode rest := by
        rw [Utf16.encode, List.flatMap_cons, Utf16.encodeChar, if_neg small]
        rfl
      refine iff_of_false ?_ (not_not.mpr ⟨c, rest, rfl, Nat.not_lt.mp small⟩)
      rw [cut, units]
      intro same
      -- the first unit is no `?`
      have first := Text.head_trim (0xdc00 + (c.toNat - 0x10000) % 0x400) (Utf16.encode rest)
        (blank16_surrogate _ (by omega) (by omega))
      rw [same, ← trim_encode, show Utf16.encode ('?' :: rest) = 63 :: Utf16.encode rest from rfl,
        Text.head_trim 63 _ (by decide)] at first
      have := Option.some.inj first
      omega

/-! ## The line that counts -/

/-- The last `Password` line of a block. -/
def passwordLine (block : Block) : Option QString := final (fun text => if isPassword text then some text else none) block

/-- The `Password` line of the block that holds a name. -/
def ownLine (buf : QByteArray) (name : QString) : Option QString :=
  (owner buf name).bind fun item => passwordLine item.1

/-- The line from which a session has its password: of the last matching pattern with a password, or its own. -/
def counting (env : Env) (buf : QByteArray) (name : QString) : Option QString :=
  (final (fun entry : Entry => if entry.2.password.isEmpty then none else ownLine buf entry.1)
    (Merge.hits env (readMaps env buf).2 name)).or (ownLine buf name)

/-- The password of a session in units. -/
def password (env : Env) (buf : QByteArray) (name : QString) : List Nat := ((counting env buf name).map units).getD []

theorem parseBlock_password (port : Int32) (block : Block) :
    (parseBlock port block).password = ((passwordLine block).map shown).getD [] := by
  have read : (block.foldl parseItem ({ port }, [])).1.password = ((passwordLine block).map shown).getD [] := by
    induction block using List.reverseRecOn with
    | nil => rfl
    | append_singleton block text ih =>
      have item := Keywords.parseItem_get .password (block.foldl parseItem ({ port }, [])) text
      rw [List.foldl_concat, passwordLine, final_concat]
      by_cases last : isPassword text = true
      · rw [if_pos last]
        exact Sum.inl.inj (item.trans (if_pos last))
      · rw [if_neg last]
        exact (Sum.inl.inj (item.trans (if_neg last))).trans ih
  exact read

theorem session_password (item : Block × Nat) (last : owner buf name = some item) :
    (session env name item).password = ((ownLine buf name).map shown).getD [] := by
  rw [ownLine, last]
  exact parseBlock_password _ _

theorem parse_password (stored : (parse env buf).lookup name = some hi) :
    hi.password = ((counting env buf name).map shown).getD [] := by
  by_cases known : Merge.IsSession buf name
  · obtain ⟨plain, named⟩ := known
    obtain ⟨item, last⟩ := Option.ne_none_iff_exists'.mp named
    rw [Merge.lookup_session env buf name item plain last] at stored
    have text := Merge.mergeWildcard_text env (readMaps env buf).2 name (session env name item) .password
    rw [Option.some.inj stored] at text
    have entries (entry : Entry) (hit : entry ∈ Merge.hits env (readMaps env buf).2 name) :
        Merge.Field.password.given entry.2 =
          (if entry.2.password.isEmpty then none else ownLine buf entry.1).map shown := by
      have found := ((Merge.mem_hits env _ name entry).mp hit).1
      rw [(lookup_readMaps env buf entry.1).2] at found
      split at found
      · obtain ⟨item, last, same⟩ := Option.map_eq_some_iff.mp found
        have own := session_password env buf entry.1 item last
        rw [same] at own
        unfold Merge.Field.given
        change (if entry.2.password.isEmpty then none else some entry.2.password) = _
        split
        · rfl
        next filled =>
          cases line : ownLine buf entry.1 with
          | none => simp [own, line] at filled
          | some text => rw [own, line]; rfl
      · cases found
    have merged := List.filterMap_congr entries
    rw [final, merged, ← final, final_map_value] at text
    rw [show hi.password = Merge.Field.password.text hi from rfl, text, counting]
    cases final _ (Merge.hits env (readMaps env buf).2 name) with
    | none => exact session_password env buf name item last
    | some line => rfl
  · rw [Merge.lookup_other env buf name known] at stored
    cases stored

theorem counting_mem (name line : QString) (counts : counting env buf name = some line) :
    isPassword line = true ∧ ∃ block ∈ fileBlocks buf, line ∈ block := by
  have own (name : QString) (line : QString) (found : ownLine buf name = some line) :
      isPassword line = true ∧ ∃ block ∈ fileBlocks buf, line ∈ block := by
    obtain ⟨item, last, line⟩ := Option.bind_eq_some_iff.mp found
    obtain ⟨text, member, given⟩ := exists_of_final _ _ _ line
    split at given
    next password =>
      obtain rfl := Option.some.inj given
      have inside := (List.mem_zipIdx_iff_getElem?.mp (owner_mem buf name item last).1)
      exact ⟨password, item.1, List.mem_of_getElem? inside, member⟩
    · cases given
  rcases Option.or_eq_some_iff.mp counts with hit | ⟨_, mine⟩
  · obtain ⟨entry, _, given⟩ := exists_of_final _ _ _ hit
    split at given
    · cases given
    · exact own entry.1 line given
  · exact own name line mine

theorem blockLines_undivided (line : QString) (member : line ∈ blockLines hi) : ¬ Divided line := by
  rintro ⟨c, rest, whole, large⟩
  have start : ("Password".toList ++ c :: rest).isPrefixOf (line.dropWhile QChar.isSpace) = true := by
    rw [← whole]
    exact List.isPrefixOf_iff_prefix.mpr (List.rdropWhile_prefix _ _)
  have labelled (label value : QString) (found : line ∈ setting label value) :
      ("Password".toList ++ c :: rest).isPrefixOf ((label ++ value).dropWhile QChar.isSpace) = true := by
    unfold setting at found
    split at found
    · cases found
    · rwa [← List.mem_singleton.mp found]
  simp only [blockLines, settingLines, List.mem_append, List.mem_singleton] at member
  rcases member with (memo | name) | ((((((ignore | host) | port) | user) | identity) | password) | jump) | property
  · unfold memoLines at memo
    split at memo
    · cases memo
    · obtain ⟨part, _, rfl⟩ := List.mem_map.mp memo
      cases start
  · cases labelled _ _ name
  · rw [ignore] at start
    cases start
  · cases labelled _ _ host
  · split at port
    · rw [List.mem_singleton.mp port] at start
      cases start
    · cases port
  · cases labelled _ _ user
  · cases labelled _ _ identity
  · have blank : (c == ' ' && rest.isPrefixOf hi.password) = true := labelled _ _ password
    rw [Bool.and_eq_true, beq_iff_eq] at blank
    rw [blank.1] at large
    exact absurd large (by decide)
  · cases labelled _ _ jump
  · cases labelled _ _ property

/-! ## Saving and loading again -/

/-- Every session is read again as it was, with its password unit by unit. -/
structure Unchanged (first second : Env) (buf again : QByteArray) : Prop where
  hosts : SameHosts (parse first buf) (parse second again)
  passwords : ∀ name ∈ parse first buf, password second again name = password first buf name

/-- No password that counts is read from a line with a divided pair. -/
def Undivided (env : Env) (buf : QByteArray) : Prop :=
  ∀ name ∈ parse env buf, ∀ line, counting env buf name = some line → ¬ Divided line

theorem toStream_undivided (hosts : Hosts) (storable : ∀ name hi, hosts.lookup name = some hi → Storable hi)
    (name line : QString) (counts : counting env (toStream hosts) name = some line) : ¬ Divided line := by
  obtain ⟨_, block, inside, member⟩ := counting_mem env _ name line counts
  rw [fileBlocks, toStream_eq, splitBlocks_stream _ (written_storable hosts storable)] at inside
  obtain ⟨hi, _, rfl⟩ := List.mem_map.mp inside
  exact blockLines_undivided hi line member

theorem password_eq_iff :
    password env buf name = Utf16.encode (((counting env buf name).map shown).getD []) ↔
      ∀ line, counting env buf name = some line → ¬ Divided line := by
  rw [password]
  cases counts : counting env buf name with
  | none => simp [Utf16.encode]
  | some line => simpa using units_iff line (counting_mem env buf name line counts).1

theorem unchanged_iff (first second : Env) (buf : QByteArray) :
    Unchanged first second buf (toStream (parse first buf)) ↔ Undivided first buf := by
  have hosts := parse_toStream_parse first second buf
  have storable name hi stored := (Parsed.parse_storable first buf name hi stored).2
  have each (name : QString) (known : name ∈ parse first buf) :
      password second (toStream (parse first buf)) name = password first buf name ↔
        ∀ line, counting first buf name = some line → ¬ Divided line := by
    obtain ⟨hi, stored⟩ := Finmap.mem_iff.mp known
    have same := hosts name
    rw [stored] at same
    obtain ⟨other, again, equal⟩ : ∃ other, (parse second (toStream (parse first buf))).lookup name = some other ∧
        Same hi other := by
      cases read : (parse second (toStream (parse first buf))).lookup name with
      | none => rw [read] at same; cases same
      | some other => rw [read] at same; cases same with | some equal => exact ⟨other, rfl, equal⟩
    have text : (withPort hi.port other).password = hi.password := congrArg HostInfo.password equal.fields
    change other.password = hi.password at text
    rw [parse_password second _ name other again, parse_password first buf name hi stored] at text
    have written := (password_eq_iff second (toStream (parse first buf)) name).mpr
      (toStream_undivided second _ storable name)
    rw [written, text, ← password_eq_iff, eq_comm]
  constructor
  · intro unchanged name known
    exact (each name known).mp (unchanged.passwords name known)
  · intro undivided
    exact ⟨hosts, fun name known => (each name known).mpr (undivided name known)⟩

/-- Loading normalises a file once, for the stream and for a save followed by a refresh, exactly when no password that
counts is read from a line with a divided pair. -/
theorem reload_same_iff (first second : Env) (buf : QByteArray) (hosts : Hosts) (bytes : QByteArray) :
    (Unchanged first second buf (toStream (parse first buf)) ↔ Undivided first buf) ∧
    let loaded := (refresh first { hosts, file := some bytes } .complete).1
    let saved := (save loaded .complete).1
    let again := Utils.fromWotermStream (saved.file.getD [])
    (loaded.hosts = parse first (Utils.fromWotermStream bytes) ∧
      (refresh second saved .complete).1.hosts = parse second again ∧
      Unchanged first second (Utils.fromWotermStream bytes) again) ↔ Undivided first (Utils.fromWotermStream bytes) := by
  refine ⟨unchanged_iff first second buf, ?_⟩
  have written := fromWotermStream_fileBytes (parse first (Utils.fromWotermStream bytes))
  simpa [refresh, save, written] using unchanged_iff first second (Utils.fromWotermStream bytes)

/-- A character of two units behind the keyword. -/
def dividedLine : QString := " Password".toList ++ Char.ofNat 0x1f600 :: "x".toList

def dividedFile : QByteArray := toUtf8 ("\nHost a\n".toList ++ dividedLine ++ "\n".toList)

/-- The program holds half of the character, and a question mark after the next load. -/
theorem divided_changes : ¬ ∃ first second : Env,
    Unchanged first second dividedFile (toStream (parse first dividedFile)) := by
  rintro ⟨first, second, unchanged⟩
  have blocks : fileBlocks dividedFile = [["Host a".toList, dividedLine]] := by decide +kernel
  have last : owner dividedFile ['a'] = some (["Host a".toList, dividedLine], 0) := by decide +kernel
  have known : ['a'] ∈ parse first dividedFile := by
    rw [Finmap.mem_iff]
    exact ⟨_, Merge.lookup_session first dividedFile ['a'] _ (by decide) last⟩
  have own : ownLine dividedFile ['a'] = some dividedLine := by
    rw [ownLine, last]
    decide +kernel
  -- whichever line counts, the file has one `Password` line only
  obtain ⟨line, counts⟩ : ∃ line, counting first dividedFile ['a'] = some line := by
    rw [counting, own]
    exact Option.isSome_iff_exists.mp (by simp)
  obtain ⟨password, block, inside, member⟩ := counting_mem first dividedFile ['a'] line counts
  rw [blocks, List.mem_singleton] at inside
  subst inside
  have only : line = dividedLine := by
    rcases List.mem_pair.mp member with rfl | same
    · exact absurd password (by decide)
    · exact same
  refine (unchanged_iff first second dividedFile).mp unchanged ['a'] known line counts ?_
  rw [only]
  exact ⟨Char.ofNat 0x1f600, ['x'], by decide +kernel, by decide⟩

end Woterm.SshConf.Reload
