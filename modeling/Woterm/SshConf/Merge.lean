import Woterm.SshConf.Blocks

/-!
The merge of the wildcard blocks into the sessions they match. For each field the last matching
block that sets it decides, in the order in which the hash is walked, and what is found so
replaces the session's own value.
-/

namespace Woterm.SshConf.Merge
open Woterm.Lib Woterm.Lib.Overwrite Woterm.Qt Woterm.Qt.QString
open Woterm.SshConf.Format Woterm.SshConf.RoundTrip Woterm.SshConf.Blocks

/-- The texts that `copyHostInfo` copies. -/
inductive Field where
  | host | identityFile | password | proxyJump | user
deriving DecidableEq, Repr

def Field.text : Field → HostInfo → QString
  | .host, hi => hi.host
  | .identityFile, hi => hi.identityFile
  | .password, hi => hi.password
  | .proxyJump, hi => hi.proxyJump
  | .user, hi => hi.user

def Field.given (field : Field) (hi : HostInfo) : Option QString :=
  if (field.text hi).isEmpty then none else some (field.text hi)

def givenPort (hi : HostInfo) : Option Int32 := if 0 < hi.port then some hi.port else none

variable (env : Env) (wildcard : Hosts) (buf : QByteArray) (name : QString) (hi : HostInfo) (field : Field)
  (entry : Entry)

theorem given_eq_some (hi : HostInfo) (value : QString) :
    field.given hi = some value ↔ field.text hi = value ∧ value ≠ [] := by
  unfold Field.given
  split
  · rename_i empty
    rw [List.isEmpty_iff.mp empty]
    refine ⟨by simp, ?_⟩
    intro given
    exact absurd given.1.symm given.2
  · rename_i filled
    rw [Option.some.injEq]
    refine ⟨?_, fun given => given.1⟩
    intro same
    exact ⟨same, fun empty => filled (by rw [same, empty]; rfl)⟩

theorem givenPort_eq_some (value : Int32) : givenPort hi = some value ↔ hi.port = value ∧ 0 < value := by
  unfold givenPort
  split
  · rename_i positive
    rw [Option.some.injEq]
    refine ⟨?_, fun given => given.1⟩
    intro same
    exact ⟨same, same ▸ positive⟩
  · rename_i absent
    refine ⟨by simp, ?_⟩
    intro given
    exact absurd (given.1 ▸ given.2) absent

theorem copyHostInfo_text (dst src : HostInfo) :
    field.text (copyHostInfo dst src) = (field.given src).getD (field.text dst) := by
  have choice : (field.given src).getD (field.text dst) =
      if (field.text src).isEmpty then field.text dst else field.text src := by
    unfold Field.given
    split <;> rfl
  rw [choice]
  cases field <;> rfl

theorem copyHostInfo_port (dst src : HostInfo) :
    (copyHostInfo dst src).port = (givenPort src).getD dst.port := by
  have choice : (givenPort src).getD dst.port = if 0 < src.port then src.port else dst.port := by
    unfold givenPort
    split <;> rfl
  rw [choice]
  rfl

theorem hostInfo_ext (first second : HostInfo) (texts : ∀ field : Field, field.text first = field.text second)
    (port : first.port = second.port) (name : first.name = second.name) (memo : first.memo = second.memo)
    (property : first.property = second.property) (group : first.group = second.group) : first = second := by
  have host := texts .host
  have identityFile := texts .identityFile
  have password := texts .password
  have proxyJump := texts .proxyJump
  have user := texts .user
  cases first
  cases second
  simp_all [Field.text]

/-! ## The merge -/

/-- The matching entries of the wildcard map, in the order of the hash. -/
def hits (env : Env) (wildcard : Hosts) (name : QString) : List Entry :=
  (env.order wildcard).filter fun entry => QRegExp.exactMatch entry.1 name

def collected (env : Env) (wildcard : Hosts) (name : QString) : HostInfo :=
  (hits env wildcard name).foldl (fun tmp entry => copyHostInfo tmp entry.2) { port := env.tmpPort name }

theorem mergeWildcard_eq :
    mergeWildcard env wildcard name hi =
      if (hits env wildcard name).isEmpty then hi else copyHostInfo hi (collected env wildcard name) := rfl

theorem mem_hits :
    entry ∈ hits env wildcard name ↔
      wildcard.lookup entry.1 = some entry.2 ∧ QRegExp.exactMatch entry.1 name = true := by
  rw [hits, List.mem_filter, Finmap.lookup_eq_some_iff, ← env.order_entries, Multiset.mem_coe]

theorem collected_text :
    field.text (collected env wildcard name) =
      (final (fun entry : Entry => field.given entry.2) (hits env wildcard name)).getD [] := by
  rw [collected]
  induction hits env wildcard name using List.reverseRecOn with
  | nil => cases field <;> rfl
  | append_singleton entries entry ih =>
    rw [List.foldl_concat, copyHostInfo_text, ih, final_concat]
    cases field.given entry.2 <;> rfl

theorem collected_port :
    (collected env wildcard name).port =
      (final (fun entry : Entry => givenPort entry.2) (hits env wildcard name)).getD (env.tmpPort name) := by
  rw [collected]
  induction hits env wildcard name using List.reverseRecOn with
  | nil => rfl
  | append_singleton entries entry ih =>
    rw [List.foldl_concat, copyHostInfo_port, ih, final_concat]
    cases givenPort entry.2 <;> rfl

theorem mergeWildcard_text :
    field.text (mergeWildcard env wildcard name hi) =
      (final (fun entry : Entry => field.given entry.2) (hits env wildcard name)).getD (field.text hi) := by
  rw [mergeWildcard_eq]
  split
  · rename_i empty
    rw [List.isEmpty_iff.mp empty]
    rfl
  · have text := collected_text env wildcard name field
    rw [copyHostInfo_text]
    cases last : final (fun entry : Entry => field.given entry.2) (hits env wildcard name) with
    | none =>
      have unset : field.given (collected env wildcard name) = none := by
        rw [Field.given, text, last]
        rfl
      rw [unset, Option.getD_none]
    | some value =>
      obtain ⟨entry, _, given⟩ := exists_of_final _ _ _ last
      have set : field.given (collected env wildcard name) = some value := by
        rw [given_eq_some, text, last]
        exact ⟨rfl, ((given_eq_some field entry.2 value).mp given).2⟩
      rw [set, Option.getD_some]

/-- The port of the merged session: with a match and no port from it, what `hiTmp` finds in memory
counts as a port too. -/
theorem mergeWildcard_port :
    (mergeWildcard env wildcard name hi).port =
      if (hits env wildcard name).isEmpty then hi.port
      else (givenPort (collected env wildcard name)).getD hi.port := by
  rw [mergeWildcard_eq]
  split
  · rfl
  · exact copyHostInfo_port _ _

/-! ## The order of the hash -/

/-- Two runs that differ in the order of the hashes only. -/
structure SameMemory (first second : Env) : Prop where
  port : first.port = second.port
  tmpPort : first.tmpPort = second.tmpPort

theorem readMaps_sameMemory (first second : Env) (buf : QByteArray) (same : SameMemory first second) :
    readMaps first buf = readMaps second buf := by
  rw [readMaps, readMaps, same.port]

/-- The environment that visits one entry last. -/
def visitLast (env : Env) (entry : Entry) : Env where
  order := fun hosts => if entry ∈ env.order hosts then (env.order hosts).erase entry ++ [entry] else env.order hosts
  order_entries := fun hosts => by
    rw [← env.order_entries hosts, Multiset.coe_eq_coe]
    split
    · rename_i member
      exact (List.perm_append_singleton entry _).trans (List.perm_cons_erase member).symm
    · exact List.Perm.refl _
  port := env.port
  tmpPort := env.tmpPort

theorem hits_visitLast (member : entry ∈ hits env wildcard name) :
    ∃ before, hits (visitLast env entry) wildcard name = before ++ [entry] := by
  obtain ⟨inside, matched⟩ := List.mem_filter.mp member
  refine ⟨((env.order wildcard).erase entry).filter fun other => QRegExp.exactMatch other.1 name, ?_⟩
  rw [hits, visitLast]
  simp [inside, List.filter_append, matched]

theorem hits_perm (first second : Env) (wildcard : Hosts) (name : QString) :
    (hits first wildcard name).Perm (hits second wildcard name) := by
  apply List.Perm.filter
  rw [← Multiset.coe_eq_coe, first.order_entries, second.order_entries]

/-- No two matching blocks set a field to different values. -/
structure Settled (env : Env) (wildcard : Hosts) (name : QString) : Prop where
  texts : ∀ field : Field, Undisputed (fun entry : Entry => field.given entry.2) (hits env wildcard name)
  port : Undisputed (fun entry : Entry => givenPort entry.2) (hits env wildcard name)

section
variable (env : Env) (wildcard : Hosts) (name : QString) (hi : HostInfo)

theorem mergeWildcard_memo : (mergeWildcard env wildcard name hi).memo = hi.memo := by
  rw [mergeWildcard_eq]
  split <;> rfl

theorem mergeWildcard_property : (mergeWildcard env wildcard name hi).property = hi.property := by
  rw [mergeWildcard_eq]
  split <;> rfl

theorem mergeWildcard_group : (mergeWildcard env wildcard name hi).group = hi.group := by
  rw [mergeWildcard_eq]
  split <;> rfl

end

theorem mergeWildcard_settled (first second : Env) (wildcard : Hosts) (name : QString) (hi : HostInfo)
    (same : SameMemory first second) (settled : Settled first wildcard name) :
    mergeWildcard first wildcard name hi = mergeWildcard second wildcard name hi := by
  have perm := hits_perm first second wildcard name
  have empty : (hits first wildcard name).isEmpty = (hits second wildcard name).isEmpty := by
    rw [Bool.eq_iff_iff, List.isEmpty_iff, List.isEmpty_iff]
    exact ⟨fun none => List.perm_nil.mp (none ▸ perm.symm), fun none => List.perm_nil.mp (none ▸ perm)⟩
  have ports : (collected first wildcard name).port = (collected second wildcard name).port := by
    rw [collected_port, collected_port, final_of_perm _ _ _ perm settled.port, same.tmpPort]
  apply hostInfo_ext
  · intro field
    rw [mergeWildcard_text, mergeWildcard_text, final_of_perm _ _ _ perm (settled.texts field)]
  · rw [mergeWildcard_port, mergeWildcard_port, empty, givenPort, givenPort, ports]
  · rw [mergeWildcard_name, mergeWildcard_name]
  · rw [mergeWildcard_memo, mergeWildcard_memo]
  · rw [mergeWildcard_property, mergeWildcard_property]
  · rw [mergeWildcard_group, mergeWildcard_group]

/-- The entry that is visited last decides the fields that it sets. -/
theorem mergeWildcard_visitLast (member : entry ∈ hits env wildcard name) :
    (∀ (field : Field) value, field.given entry.2 = some value →
      field.text (mergeWildcard (visitLast env entry) wildcard name hi) = value) ∧
    ∀ value, givenPort entry.2 = some value →
      (mergeWildcard (visitLast env entry) wildcard name hi).port = value := by
  obtain ⟨before, last⟩ := hits_visitLast env wildcard name entry member
  refine ⟨?_, ?_⟩
  · intro field value given
    rw [mergeWildcard_text, last, final_concat, given]
    rfl
  · intro value given
    have port : (collected (visitLast env entry) wildcard name).port = value := by
      rw [collected_port, last, final_concat, given]
      rfl
    have positive := ((givenPort_eq_some entry.2 value).mp given).2
    have set := (givenPort_eq_some (collected (visitLast env entry) wildcard name) value).mpr ⟨port, positive⟩
    rw [mergeWildcard_port, set, last]
    simp

/-- A pattern of the file that matches a name, and the block it is read from. -/
structure Matching (buf : QByteArray) (name word : QString) (item : Block × Nat) : Prop where
  star : '*' ∈ word
  last : owner buf word = some item
  accepted : QRegExp.exactMatch word name = true

theorem mem_hits_file :
    entry ∈ hits env (readMaps env buf).2 name ↔
      ∃ item, Matching buf name entry.1 item ∧ entry.2 = session env entry.1 item := by
  rw [mem_hits, (lookup_readMaps env buf entry.1).2]
  refine ⟨?_, ?_⟩
  · intro given
    obtain ⟨stored, accepted⟩ := given
    split at stored
    · rename_i star
      obtain ⟨item, last, same⟩ := Option.map_eq_some_iff.mp stored
      exact ⟨item, ⟨star, last, accepted⟩, same.symm⟩
    · cases stored
  · intro given
    obtain ⟨item, matching, same⟩ := given
    rw [if_pos matching.star, matching.last, Option.map_some, same]
    exact ⟨rfl, matching.accepted⟩

/-- A session of the file: a name without a star on some `Host` line. -/
def IsSession (buf : QByteArray) (name : QString) : Prop := '*' ∉ name ∧ owner buf name ≠ none

/-- The port of a block, which without a `Port` line is what memory held. -/
def portOf (env : Env) (item : Block × Nat) : Int32 := (blockPort item.1).getD (env.port item.2)

/-- No two blocks of the file that match a session set a field to different values. -/
structure Consistent (env : Env) (buf : QByteArray) (name : QString) : Prop where
  texts : ∀ (field : Field) (word other : QString) (item block : Block × Nat),
    Matching buf name word item → Matching buf name other block →
    field.text (parseBlock 0 item.1) ≠ [] → field.text (parseBlock 0 block.1) ≠ [] →
    field.text (parseBlock 0 item.1) = field.text (parseBlock 0 block.1)
  port : ∀ (word other : QString) (item block : Block × Nat),
    Matching buf name word item → Matching buf name other block →
    0 < portOf env item → 0 < portOf env block → portOf env item = portOf env block

theorem session_text (item : Block × Nat) (field : Field) :
    field.text (session env name item) = field.text (parseBlock 0 item.1) := by
  rw [session_eq]
  cases field <;> rfl

theorem session_port (item : Block × Nat) : (session env name item).port = portOf env item := by
  rw [session_eq]
  rfl

theorem settled_iff_consistent : Settled env (readMaps env buf).2 name ↔ Consistent env buf name := by
  refine ⟨?_, ?_⟩
  · intro settled
    refine ⟨?_, ?_⟩
    · intro field word other item block first second one two
      have set (word : QString) (item : Block × Nat) (filled : field.text (parseBlock 0 item.1) ≠ []) :
          field.given (session env word item) = some (field.text (parseBlock 0 item.1)) :=
        (given_eq_some _ _ _).mpr ⟨session_text env word item field, filled⟩
      exact settled.texts field ⟨word, session env word item⟩ ((mem_hits_file _ _ _ _).mpr ⟨item, first, rfl⟩)
        ⟨other, session env other block⟩ ((mem_hits_file _ _ _ _).mpr ⟨block, second, rfl⟩) _ _
        (set word item one) (set other block two)
    · intro word other item block first second one two
      have set (word : QString) (item : Block × Nat) (positive : 0 < portOf env item) :
          givenPort (session env word item) = some (portOf env item) :=
        (givenPort_eq_some _ _).mpr ⟨session_port env word item, positive⟩
      exact settled.port ⟨word, session env word item⟩ ((mem_hits_file _ _ _ _).mpr ⟨item, first, rfl⟩)
        ⟨other, session env other block⟩ ((mem_hits_file _ _ _ _).mpr ⟨block, second, rfl⟩) _ _
        (set word item one) (set other block two)
  · intro consistent
    refine ⟨?_, ?_⟩
    · intro field first one second two value other given given_other
      obtain ⟨item, matching, same⟩ := (mem_hits_file _ _ _ _).mp one
      obtain ⟨block, matching_other, same_other⟩ := (mem_hits_file _ _ _ _).mp two
      rw [given_eq_some, same, session_text] at given
      rw [given_eq_some, same_other, session_text] at given_other
      have agreed := consistent.texts field _ _ item block matching matching_other
      rw [given.1, given_other.1] at agreed
      exact agreed given.2 given_other.2
    · intro first one second two value other given given_other
      obtain ⟨item, matching, same⟩ := (mem_hits_file _ _ _ _).mp one
      obtain ⟨block, matching_other, same_other⟩ := (mem_hits_file _ _ _ _).mp two
      rw [givenPort_eq_some, same, session_port] at given
      rw [givenPort_eq_some, same_other, session_port] at given_other
      have agreed := consistent.port _ _ item block matching matching_other
      rw [given.1, given_other.1] at agreed
      exact agreed given.2 given_other.2

theorem lookup_session (item : Block × Nat) (plain : '*' ∉ name) (last : owner buf name = some item) :
    (parse env buf).lookup name =
      some (mergeWildcard env (readMaps env buf).2 name (session env name item)) := by
  rw [lookup_parse, (lookup_readMaps env buf name).1, if_neg plain, last]
  rfl

theorem lookup_other (other : ¬ IsSession buf name) : (parse env buf).lookup name = none := by
  rw [lookup_parse, (lookup_readMaps env buf name).1]
  split
  · rfl
  · rename_i plain
    rw [not_not.mp fun known => other ⟨plain, known⟩]
    rfl

/-- Blocks that disagree show in two runs that visit one or the other of them last. -/
theorem consistent_of_independent (known : IsSession buf name)
    (independent : ∀ first second : Env, SameMemory first env → SameMemory second env →
      (parse first buf).lookup name = (parse second buf).lookup name) : Consistent env buf name := by
  obtain ⟨plain, named⟩ := known
  obtain ⟨item, last⟩ := Option.ne_none_iff_exists'.mp named
  have merged (entry other : Entry) :
      mergeWildcard (visitLast env entry) (readMaps env buf).2 name (session env name item) =
        mergeWildcard (visitLast env other) (readMaps env buf).2 name (session env name item) := by
    have found := independent (visitLast env entry) (visitLast env other) ⟨rfl, rfl⟩ ⟨rfl, rfl⟩
    rw [lookup_session _ _ _ item plain last, lookup_session _ _ _ item plain last] at found
    exact Option.some.inj found
  apply (settled_iff_consistent env buf name).mp
  refine ⟨?_, ?_⟩
  · intro field first one second two value other given given_other
    rw [← (mergeWildcard_visitLast env _ name (session env name item) first one).1 field value given,
      ← (mergeWildcard_visitLast env _ name (session env name item) second two).1 field other given_other,
      merged first second]
  · intro first one second two value other given given_other
    rw [← (mergeWildcard_visitLast env _ name (session env name item) first one).2 value given,
      ← (mergeWildcard_visitLast env _ name (session env name item) second two).2 other given_other,
      merged first second]

theorem lookup_consistent (env other : Env) (buf : QByteArray) (name : QString) (memory : SameMemory other env)
    (known : IsSession buf name) (consistent : Consistent env buf name) :
    (parse other buf).lookup name = (parse env buf).lookup name := by
  obtain ⟨plain, named⟩ := known
  obtain ⟨item, last⟩ := Option.ne_none_iff_exists'.mp named
  have settled := (settled_iff_consistent env buf name).mpr consistent
  have same : session other name item = session env name item := by
    rw [session, session, memory.port]
  rw [lookup_session _ _ _ item plain last, lookup_session _ _ _ item plain last,
    readMaps_sameMemory other env buf memory, same,
    mergeWildcard_settled env other _ name _ ⟨memory.port.symm, memory.tmpPort.symm⟩ settled]

/-- The parser returns the same sessions for every order of the hashes if and only if no two
blocks that match one session disagree. -/
theorem parse_order_iff (env : Env) (buf : QByteArray) :
    (∀ first second : Env, SameMemory first env → SameMemory second env → parse first buf = parse second buf) ↔
      ∀ name, IsSession buf name → Consistent env buf name := by
  refine ⟨?_, ?_⟩
  · intro independent name known
    apply consistent_of_independent env buf name known
    intro first second one two
    rw [independent first second one two]
  · intro consistent first second one two
    apply Finmap.ext_lookup
    intro name
    by_cases known : IsSession buf name
    · rw [lookup_consistent env first buf name one known (consistent name known),
        lookup_consistent env second buf name two known (consistent name known)]
    · rw [lookup_other _ _ _ known, lookup_other _ _ _ known]

/-- Two patterns that match one session, with different users. -/
def twoPatterns : QByteArray :=
  toUtf8 "\nHost *\n  User first\n\nHost w*\n  User second\n\nHost web\n  HostName 10.0.0.1\n".toList

theorem twoPatterns_order :
    ∃ first second : Env, SameMemory first (sortedEnv 22) ∧ SameMemory second (sortedEnv 22) ∧
      parse first twoPatterns ≠ parse second twoPatterns := by
  by_contra independent
  push Not at independent
  have known : IsSession twoPatterns "web".toList := ⟨by decide, by decide +kernel⟩
  have all : Matching twoPatterns "web".toList "*".toList (["Host *".toList, "  User first".toList], 0) :=
    ⟨by decide, by decide +kernel, by decide +kernel⟩
  have narrow : Matching twoPatterns "web".toList "w*".toList (["Host w*".toList, "  User second".toList], 1) :=
    ⟨by decide, by decide +kernel, by decide +kernel⟩
  have consistent := consistent_of_independent (sortedEnv 22) twoPatterns "web".toList known
    fun first second one two => by rw [independent first second one two]
  have agreed := consistent.texts .user _ _ _ _ all narrow (by decide +kernel) (by decide +kernel)
  exact absurd agreed (by decide +kernel)

end Woterm.SshConf.Merge
