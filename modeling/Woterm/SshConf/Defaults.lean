import Woterm.SshConf.Merge

/-!
Wildcard blocks as defaults. A block that names a session keeps what it sets only as long as no
pattern that matches the session says otherwise: the merge copies the collected values over the
session's own, and with them the port that `hiTmp` was declared with.
-/

namespace Woterm.SshConf.Defaults
open Woterm.Lib Woterm.Lib.Overwrite Woterm.Qt Woterm.Qt.QString
open Woterm.SshConf.Format Woterm.SshConf.RoundTrip Woterm.SshConf.Blocks Woterm.SshConf.Merge

/-- The parsed session has everything that the block sets. -/
structure Keeps (block : Block) (hi : HostInfo) : Prop where
  texts : ∀ field : Field, field.text (parseBlock 0 block) ≠ [] → field.text hi = field.text (parseBlock 0 block)
  port : ∀ port, blockPort block = some port → 0 < port → hi.port = port

/-- What a block sets is what its session has in every run, whatever patterns match the session. -/
def OnlyDefaults (buf : QByteArray) (name : QString) (block : Block) : Prop :=
  ∀ env : Env, ∃ hi, (parse env buf).lookup name = some hi ∧ Keeps block hi

/-- The value of a text comes from the patterns that set it, or from the last block of the session. -/
structure TextRespected (buf : QByteArray) (name : QString) (field : Field) (value : QString) : Prop where
  patterns : ∀ word item, Matching buf name word item →
    field.text (parseBlock 0 item.1) = [] ∨ field.text (parseBlock 0 item.1) = value
  source : (∃ word item, Matching buf name word item ∧ field.text (parseBlock 0 item.1) = value) ∨
    ∃ item, owner buf name = some item ∧ field.text (parseBlock 0 item.1) = value

/-- No pattern matches, and the last block of the session sets the port; or every pattern that matches
has a `Port` line of its own, one with this port and none with another. -/
def PortRespected (buf : QByteArray) (name : QString) (value : Int32) : Prop :=
  ((∀ word item, ¬ Matching buf name word item) ∧
    ∃ item, owner buf name = some item ∧ blockPort item.1 = some value) ∨
  ((∃ word item, Matching buf name word item ∧ blockPort item.1 = some value) ∧
    ∀ word item, Matching buf name word item →
      ∃ other, blockPort item.1 = some other ∧ (0 < other → other = value))

structure Respected (buf : QByteArray) (name : QString) (block : Block) : Prop where
  texts : ∀ field : Field, field.text (parseBlock 0 block) ≠ [] →
    TextRespected buf name field (field.text (parseBlock 0 block))
  port : ∀ port, blockPort block = some port → 0 < port → PortRespected buf name port

section
variable (buf : QByteArray) (name : QString) (item : Block × Nat)

/-- The session as one run of the parser returns it. -/
def result (env : Env) : HostInfo := mergeWildcard env (readMaps env buf).2 name (session env name item)

/-! ## The patterns that match -/

variable (env : Env) (word : QString)

theorem hit_of_matching (pattern : Block × Nat) (matching : Matching buf name word pattern) :
    (⟨word, session env word pattern⟩ : Entry) ∈ hits env (readMaps env buf).2 name :=
  (mem_hits_file env buf name _).mpr ⟨pattern, matching, rfl⟩

theorem text_of_hit (field : Field) (entry : Entry) (value : QString)
    (member : entry ∈ hits env (readMaps env buf).2 name) (given : field.given entry.2 = some value) :
    ∃ pattern, Matching buf name entry.1 pattern ∧ field.text (parseBlock 0 pattern.1) = value ∧ value ≠ [] := by
  obtain ⟨pattern, matching, same⟩ := (mem_hits_file env buf name entry).mp member
  rw [given_eq_some, same, session_text] at given
  exact ⟨pattern, matching, given⟩

theorem port_of_hit (entry : Entry) (value : Int32) (member : entry ∈ hits env (readMaps env buf).2 name)
    (given : givenPort entry.2 = some value) :
    ∃ pattern, Matching buf name entry.1 pattern ∧ portOf env pattern = value ∧ 0 < value := by
  obtain ⟨pattern, matching, same⟩ := (mem_hits_file env buf name entry).mp member
  rw [givenPort_eq_some, same, session_port] at given
  exact ⟨pattern, matching, given⟩

theorem hits_isEmpty_iff :
    (hits env (readMaps env buf).2 name).isEmpty = true ↔ ∀ word pattern, ¬ Matching buf name word pattern := by
  rw [List.isEmpty_iff, List.eq_nil_iff_forall_not_mem]
  refine ⟨?_, ?_⟩
  · intro none word pattern matching
    exact none _ (hit_of_matching buf name env word pattern matching)
  · intro none entry member
    obtain ⟨pattern, matching, _⟩ := (mem_hits_file _ _ _ _).mp member
    exact none _ pattern matching

theorem hits_nonempty (pattern : Block × Nat) (matching : Matching buf name word pattern) :
    ¬ (hits env (readMaps env buf).2 name).isEmpty = true := by
  rw [hits_isEmpty_iff]
  intro none
  exact none word pattern matching

/-! ## Texts -/

theorem result_text (field : Field) :
    field.text (result buf name item env) =
      (final (fun entry : Entry => field.given entry.2) (hits env (readMaps env buf).2 name)).getD
        (field.text (parseBlock 0 item.1)) := by
  rw [result, mergeWildcard_text, session_text]

theorem result_text_last (field : Field) (word : QString) (pattern : Block × Nat)
    (matching : Matching buf name word pattern) (filled : field.text (parseBlock 0 pattern.1) ≠ []) :
    ∃ other : Env, other.port = env.port ∧
      field.text (result buf name item other) = field.text (parseBlock 0 pattern.1) := by
  have member := hit_of_matching buf name env word pattern matching
  have given := (given_eq_some field (session env word pattern) _).mpr ⟨session_text env word pattern field, filled⟩
  exact ⟨visitLast env ⟨word, session env word pattern⟩, rfl,
    (mergeWildcard_visitLast env _ name (session env name item) _ member).1 field _ given⟩

/-- If the text never depends on the run, no pattern sets another one, and one of the blocks sets it. -/
theorem textRespected_of_always (last : owner buf name = some item) (field : Field) (value : QString)
    (always : ∀ env : Env, field.text (result buf name item env) = value) : TextRespected buf name field value := by
  refine ⟨?_, ?_⟩
  · intro word pattern matching
    by_cases unset : field.text (parseBlock 0 pattern.1) = []
    · exact .inl unset
    · obtain ⟨other, _, shown⟩ := result_text_last buf name item (sortedEnv 0) field word pattern matching unset
      exact .inr (shown.symm.trans (always other))
  · have shown := always (sortedEnv 0)
    rw [result_text] at shown
    cases found : final (fun entry : Entry => field.given entry.2)
        (hits (sortedEnv 0) (readMaps (sortedEnv 0) buf).2 name) with
    | none =>
      rw [found] at shown
      exact .inr ⟨item, last, shown⟩
    | some other =>
      rw [found] at shown
      obtain ⟨entry, member, given⟩ := exists_of_final _ _ _ found
      obtain ⟨pattern, matching, same, _⟩ := text_of_hit buf name _ field entry other member given
      exact .inl ⟨entry.1, pattern, matching, same.trans shown⟩

theorem result_text_iff (last : owner buf name = some item) (field : Field) (value : QString) (filled : value ≠ []) :
    (∀ env : Env, field.text (result buf name item env) = value) ↔ TextRespected buf name field value := by
  refine ⟨textRespected_of_always buf name item last field value, ?_⟩
  intro respected env
  rw [result_text]
  cases found : final (fun entry : Entry => field.given entry.2) (hits env (readMaps env buf).2 name) with
  | some other =>
    obtain ⟨entry, member, given⟩ := exists_of_final _ _ _ found
    obtain ⟨pattern, matching, same, set⟩ := text_of_hit buf name env field entry other member given
    rcases respected.patterns _ pattern matching with unset | agreed
    · exact absurd (same.symm.trans unset) set
    · exact same.symm.trans agreed
  | none =>
    rcases respected.source with ⟨word, pattern, matching, same⟩ | ⟨other, known, same⟩
    · -- the pattern that sets the value would have been found
      have member := hit_of_matching buf name env word pattern matching
      have absent := (final_eq_none_iff _ _).mp found _ member
      have given := (given_eq_some field (session env word pattern) value).mpr
        ⟨(session_text env word pattern field).trans same, filled⟩
      rw [given] at absent
      cases absent
    · rw [last] at known
      rw [Option.some.inj known]
      exact same

/-! ## The port -/

/-- Memory that held one port everywhere and another one in `hiTmp`. -/
def memory (port tmpPort : Int32) : Env := { sortedEnv port with tmpPort := fun _ => tmpPort }

/-- Some other positive port. -/
def otherPort (value : Int32) : Int32 := if value = 1 then 2 else 1

theorem otherPort_positive (value : Int32) : 0 < otherPort value := by
  unfold otherPort
  split <;> decide

theorem otherPort_ne (value : Int32) : otherPort value ≠ value := by
  unfold otherPort
  split
  · rename_i one
    rw [one]
    decide
  · rename_i different
    exact Ne.symm different

theorem result_port :
    (result buf name item env).port =
      if (hits env (readMaps env buf).2 name).isEmpty then portOf env item
      else (givenPort (collected env (readMaps env buf).2 name)).getD (portOf env item) := by
  rw [result, mergeWildcard_port, session_port]

theorem result_port_last (pattern : Block × Nat) (matching : Matching buf name word pattern)
    (positive : 0 < portOf env pattern) : ∃ other : Env, (result buf name item other).port = portOf env pattern := by
  have member := hit_of_matching buf name env word pattern matching
  have given := (givenPort_eq_some (session env word pattern) _).mpr ⟨session_port env word pattern, positive⟩
  exact ⟨visitLast env ⟨word, session env word pattern⟩,
    (mergeWildcard_visitLast env _ name (session env name item) _ member).2 _ given⟩

/-- With zeros in the ports of the blocks, a port that a pattern brings is one of its `Port` line. -/
theorem blockPort_of_hit (tmpPort : Int32) (entry : Entry) (value : Int32)
    (member : entry ∈ hits (memory 0 tmpPort) (readMaps (memory 0 tmpPort) buf).2 name)
    (given : givenPort entry.2 = some value) :
    ∃ pattern, Matching buf name entry.1 pattern ∧ blockPort pattern.1 = some value := by
  obtain ⟨pattern, matching, port, positive⟩ := port_of_hit buf name _ entry value member given
  refine ⟨pattern, matching, ?_⟩
  rw [portOf] at port
  cases explicit : blockPort pattern.1 with
  | none =>
    rw [explicit] at port
    have zero : (0 : Int32) = value := port
    rw [← zero] at positive
    exact absurd positive (by decide)
  | some own =>
    rw [explicit] at port
    exact congrArg some port

theorem result_port_memory (pattern : Block × Nat) (matching : Matching buf name word pattern) (value : Int32)
    (unset : ∀ word item, Matching buf name word item → blockPort item.1 ≠ some value) :
    (result buf name item (memory 0 (otherPort value))).port ≠ value := by
  have some_hit := hits_nonempty buf name (memory 0 (otherPort value)) word pattern matching
  have port := collected_port (memory 0 (otherPort value)) (readMaps (memory 0 (otherPort value)) buf).2 name
  have brought : ∃ other, other ≠ value ∧ 0 < other ∧
      (collected (memory 0 (otherPort value)) (readMaps (memory 0 (otherPort value)) buf).2 name).port = other := by
    cases found : final (fun entry : Entry => givenPort entry.2)
        (hits (memory 0 (otherPort value)) (readMaps (memory 0 (otherPort value)) buf).2 name) with
    | none =>
      rw [found] at port
      exact ⟨otherPort value, otherPort_ne value, otherPort_positive value, port⟩
    | some other =>
      rw [found] at port
      obtain ⟨entry, member, given⟩ := exists_of_final _ _ _ found
      obtain ⟨source, hit, set⟩ := blockPort_of_hit buf name _ entry other member given
      refine ⟨other, ?_, ((givenPort_eq_some entry.2 other).mp given).2, port⟩
      rintro rfl
      exact unset _ source hit set
  obtain ⟨other, different, positive, same⟩ := brought
  have given := (givenPort_eq_some _ _).mpr ⟨same, positive⟩
  rw [result_port, if_neg some_hit, given]
  exact different

/-- If the port never depends on the run, each pattern has a `Port` line, with this port if with any. -/
theorem pattern_port_of_always (value : Int32) (always : ∀ env : Env, (result buf name item env).port = value)
    (word : QString) (pattern : Block × Nat) (matching : Matching buf name word pattern) :
    ∃ other, blockPort pattern.1 = some other ∧ (0 < other → other = value) := by
  have decided : 0 < portOf (sortedEnv (otherPort value)) pattern →
      portOf (sortedEnv (otherPort value)) pattern = value := by
    intro set
    obtain ⟨other, shown⟩ := result_port_last buf name item _ word pattern matching set
    exact shown.symm.trans (always other)
  rw [portOf] at decided
  cases explicit : blockPort pattern.1 with
  | none =>
    rw [explicit] at decided
    exact absurd (decided (otherPort_positive value)) (otherPort_ne value)
  | some own =>
    rw [explicit] at decided
    exact ⟨own, rfl, decided⟩

theorem portRespected_of_always (last : owner buf name = some item) (value : Int32)
    (always : ∀ env : Env, (result buf name item env).port = value) : PortRespected buf name value := by
  by_cases none : ∀ word pattern, ¬ Matching buf name word pattern
  · left
    refine ⟨none, item, last, ?_⟩
    have shown := always (memory (otherPort value) 0)
    rw [result_port, if_pos ((hits_isEmpty_iff buf name _).mpr none), portOf] at shown
    cases explicit : blockPort item.1 with
    | none =>
      rw [explicit] at shown
      exact absurd shown (otherPort_ne value)
    | some own =>
      rw [explicit] at shown
      exact congrArg some shown
  · right
    push Not at none
    obtain ⟨word, pattern, matching⟩ := none
    refine ⟨?_, pattern_port_of_always buf name item value always⟩
    by_contra unset
    push Not at unset
    exact result_port_memory buf name item word pattern matching value unset (always _)

theorem result_port_iff (last : owner buf name = some item) (value : Int32) (positive : 0 < value) :
    (∀ env : Env, (result buf name item env).port = value) ↔ PortRespected buf name value := by
  refine ⟨portRespected_of_always buf name item last value, ?_⟩
  intro respected env
  rw [result_port]
  rcases respected with ⟨none, other, known, own⟩ | ⟨⟨word, pattern, matching, set⟩, others⟩
  · rw [if_pos ((hits_isEmpty_iff buf name _).mpr none)]
    rw [last] at known
    rw [portOf, Option.some.inj known, own]
    rfl
  · have found : final (fun entry : Entry => givenPort entry.2) (hits env (readMaps env buf).2 name) =
        some value := by
      apply final_of_forall
      · refine ⟨_, hit_of_matching buf name env word pattern matching, ?_⟩
        rw [givenPort_eq_some, session_port, portOf, set]
        exact ⟨rfl, positive⟩
      · intro entry inside other given
        obtain ⟨source, hit, port, some_port⟩ := port_of_hit buf name env entry other inside given
        obtain ⟨own, explicit, agreed⟩ := others _ source hit
        rw [portOf, explicit] at port
        have same : own = other := port
        rw [← same] at some_port ⊢
        exact agreed some_port
    have port : (collected env (readMaps env buf).2 name).port = value := by
      rw [collected_port, found]
      rfl
    rw [if_neg (hits_nonempty buf name env word pattern matching), (givenPort_eq_some _ _).mpr ⟨port, positive⟩]
    rfl

end

/-- Patterns only supply defaults for a block that names a session if and only if none that matches
the session disagrees with the block, and none matches a session with a port without setting that
port itself. -/
theorem onlyDefaults_iff (buf : QByteArray) (name : QString) (block : Block) (inside : block ∈ fileBlocks buf)
    (named : name ∈ blockNames block) (plain : '*' ∉ name) :
    OnlyDefaults buf name block ↔ Respected buf name block := by
  obtain ⟨item, last⟩ := owner_of_named buf name block inside named
  have found (env : Env) : (parse env buf).lookup name = some (result buf name item env) :=
    lookup_session env buf name item plain last
  refine ⟨?_, ?_⟩
  · intro always
    have kept (env : Env) : Keeps block (result buf name item env) := by
      obtain ⟨hi, shown, keeps⟩ := always env
      rw [found] at shown
      rw [Option.some.inj shown]
      exact keeps
    refine ⟨?_, ?_⟩
    · intro field filled
      exact (result_text_iff buf name item last field _ filled).mp fun env => (kept env).texts field filled
    · intro port set positive
      exact (result_port_iff buf name item last port positive).mp fun env => (kept env).port port set positive
  · intro respected env
    refine ⟨result buf name item env, found env, ?_, ?_⟩
    · intro field filled
      exact (result_text_iff buf name item last field _ filled).mpr (respected.texts field filled) env
    · intro port set positive
      exact (result_port_iff buf name item last port positive).mpr (respected.port port set positive) env

/-- The block of a session with a user. -/
def webBlock : Block := ["Host web".toList, "  User root".toList]

/-- A pattern after it that sets another field. -/
def keyPattern : QByteArray := toUtf8 "\nHost web\n  User root\n\nHost *\n  IdentityFile key\n".toList

theorem keyPattern_matching (word : QString) (item : Block × Nat)
    (matching : Matching keyPattern "web".toList word item) :
    item = (["Host *".toList, "  IdentityFile key".toList], 1) := by
  have blocks : (fileBlocks keyPattern).zipIdx =
      [(webBlock, 0), (["Host *".toList, "  IdentityFile key".toList], 1)] := by decide +kernel
  obtain ⟨member, named⟩ := owner_mem keyPattern word item matching.last
  rw [blocks, List.mem_pair] at member
  rcases member with rfl | rfl
  · have single : blockNames webBlock = ["web".toList] := by decide +kernel
    rw [single, List.mem_singleton] at named
    rw [named] at matching
    exact absurd matching.star (by decide)
  · rfl

theorem onlyDefaults_iff_web : OnlyDefaults keyPattern "web".toList webBlock := by
  apply (onlyDefaults_iff keyPattern "web".toList webBlock (by decide +kernel) (by decide +kernel) (by decide)).mpr
  refine ⟨?_, ?_⟩
  · intro field filled
    have user : field = .user := by
      cases field with
      | user => rfl
      | _ => exact absurd (by decide +kernel) filled
    subst user
    refine ⟨?_, .inr ⟨(webBlock, 0), by decide +kernel, rfl⟩⟩
    intro word item matching
    rw [keyPattern_matching word item matching]
    exact .inl (by decide +kernel)
  · intro port set
    exact absurd set (by rw [show blockPort webBlock = none by decide +kernel]; simp)

/-- A pattern for all sessions after it, with another user. -/
def guestPattern : QByteArray := toUtf8 "\nHost web\n  User root\n\nHost *\n  User guest\n".toList

theorem guestPattern_overrides :
    webBlock ∈ fileBlocks guestPattern ∧ "web".toList ∈ blockNames webBlock ∧
      ¬ OnlyDefaults guestPattern "web".toList webBlock := by
  have inside : webBlock ∈ fileBlocks guestPattern := by decide +kernel
  have named : "web".toList ∈ blockNames webBlock := by decide +kernel
  refine ⟨inside, named, ?_⟩
  intro always
  have last : owner guestPattern "web".toList = some (webBlock, 0) := by decide +kernel
  have matching : Matching guestPattern "web".toList "*".toList (["Host *".toList, "  User guest".toList], 1) :=
    ⟨by decide, by decide +kernel, by decide +kernel⟩
  obtain ⟨other, _, shown⟩ := result_text_last guestPattern "web".toList (webBlock, 0) (sortedEnv 0) .user _ _ matching
    (by decide +kernel)
  obtain ⟨hi, found, keeps⟩ := always other
  rw [lookup_session other _ _ _ (by decide) last] at found
  have kept := keeps.texts .user (by decide +kernel)
  rw [← Option.some.inj found] at kept
  exact absurd (shown.symm.trans kept) (by decide +kernel)

end Woterm.SshConf.Defaults
