import Woterm.SshConf.Blocks

/-!
Sessions without patterns. In a file whose `Host` lines have no `*`, a session is read from the last
`Host` line that names it, the comments right above that line and the indented lines right below it,
and from nothing else in the file. The one thing that still leaks in is a port that the block leaves
unset: it is whatever the memory of the loop's variable holds.
-/

namespace Woterm.SshConf.Independent
open Woterm.Lib Woterm.Lib.Text Woterm.Lib.Overwrite Woterm.Qt Woterm.Qt.QString
open Woterm.SshConf.Format Woterm.SshConf.RoundTrip Woterm.SshConf.Blocks

/-- The words after `Host `. -/
def hostWords (line : QByteArray) : List QString := (split (mid (ofByteArray line) 5) ' ').map trimmed

/-- A line of a block that is taken for another `Host` line. -/
def isInnerHost (text : QString) : Bool := startsWith (trimmed text) "Host ".toList

/-- Files without patterns and without `Host` inside of a block. -/
structure Regular (lines : List QByteArray) : Prop where
  star : ∀ line ∈ lines, isHost line = true → 42 ∉ line
  inner : ∀ line ∈ lines, isIndented line = true → isInnerHost (ofByteArray line) = false

theorem Regular.mono (lines part : List QByteArray) (regular : Regular lines) (inside : part ⊆ lines) :
    Regular part :=
  ⟨fun line member => regular.star line (inside member), fun line member => regular.inner line (inside member)⟩

/-! ## The texts of lines -/

theorem ofByteArray_append (text : QString) (bytes : QByteArray) (clean : NulFree text)
    (unmarked : Utf8.byteOrderMark.isPrefixOf (toUtf8 text ++ CString.cstr bytes) = false) :
    ofByteArray (toUtf8 text ++ bytes) = text ++ Utf8.decodeFrom 0 (CString.cstr bytes) := by
  rw [ofByteArray, CString.cstr_append _ _ (toUtf8_nulFree text clean), Utf8.decode, unmarked]
  exact Utf8.decodeFrom_encode text _

variable (before : List QByteArray) (line : QByteArray) (after : List QByteArray)

theorem host_text (host : isHost line = true) : ∃ rest, ofByteArray line = "Host ".toList ++ rest := by
  obtain ⟨bytes, rfl⟩ := List.isPrefixOf_iff_prefix.mp host
  exact ⟨_, ofByteArray_append _ bytes (by decide) rfl⟩

theorem comment_text (comment : isComment line = true) : ∃ rest, ofByteArray line = '#' :: rest := by
  obtain ⟨bytes, rfl⟩ := List.isPrefixOf_iff_prefix.mp comment
  exact ⟨_, ofByteArray_append ['#'] bytes (by decide) rfl⟩

theorem mem_of_mem_ofByteArray (star : '*' ∈ ofByteArray line) : 42 ∈ line := by
  have inside := Utf8.mem_of_mem_decode '*' (by decide) _ star
  exact (List.takeWhile_prefix _).subset inside

theorem not_startsWith (text label : QString) (c d : Char) (first : text.head? = some c) (other : c ≠ d) :
    startsWith text (d :: label) = false := by
  cases text with
  | nil => cases first
  | cons e text =>
    have same : e = c := by simpa using first
    simp [startsWith, List.isPrefixOf, same, Ne.symm other]

/-! ## The name of a block -/

theorem parseItem_name (state : HostInfo × List QString) (text : QString) :
    (parseItem state text).1.name =
      if isInnerHost text then trimmed (mid (trimmed text) 5) else state.1.name := by
  unfold parseItem
  dsimp only
  cases host : isInnerHost text with
  | true =>
    have first : directives.find? (fun directive => startsWith (trimmed text) directive.label) =
        directives.head? := List.find?_cons_of_pos host
    rw [first]
    rfl
  | false =>
    cases found : directives.find? fun directive => startsWith (trimmed text) directive.label with
    | none =>
      dsimp only
      split <;> rfl
    | some directive =>
      have known := List.mem_of_find?_eq_some found
      have start := List.find?_some found
      simp only [directives, List.mem_cons, List.not_mem_nil, or_false] at known
      rcases known with rfl | rfl | rfl | rfl | rfl | rfl | rfl | rfl
      · exact absurd (host.symm.trans start) Bool.false_ne_true
      all_goals rfl

theorem foldl_parseItem_name (block : Block) (state : HostInfo × List QString)
    (plain : ∀ text ∈ block, isInnerHost text = false) :
    (block.foldl parseItem state).1.name = state.1.name := by
  induction block generalizing state with
  | nil => rfl
  | cons text block ih =>
    rw [List.foldl_cons, ih _ fun other member => plain other (List.mem_cons_of_mem _ member), parseItem_name,
      plain text List.mem_cons_self]
    rfl

theorem parseBlock_name (port : Int32) (front back : Block) (text : QString)
    (above : ∀ other ∈ front, isInnerHost other = false) (below : ∀ other ∈ back, isInnerHost other = false) :
    (parseBlock port (front ++ text :: back)).name =
      if isInnerHost text then trimmed (mid (trimmed text) 5) else [] := by
  have read : ((front ++ text :: back).foldl parseItem ({ port }, [])).1.name =
      if isInnerHost text then trimmed (mid (trimmed text) 5) else [] := by
    rw [List.foldl_append, List.foldl_cons, foldl_parseItem_name back _ below, parseItem_name,
      foldl_parseItem_name front _ above]
  exact read

theorem mem_names_host (hi : HostInfo) (rest : QString) (name : QString)
    (named : hi.name = if isInnerHost ("Host ".toList ++ rest)
      then trimmed (mid (trimmed ("Host ".toList ++ rest)) 5) else []) :
    name ∈ names hi ↔ name ∈ (split rest ' ').map trimmed ∧ name ≠ [] := by
  have ends : trimmed ("Host ".toList ++ rest) =
      if rest.rdropWhile QChar.isSpace = [] then "Host".toList
      else "Host ".toList ++ rest.rdropWhile QChar.isSpace := by
    have front : ("Host ".toList ++ rest).dropWhile QChar.isSpace = "Host ".toList ++ rest := rfl
    rw [trimmed, trim, front, rdropWhile_append]
    rfl
  rw [mem_names]
  refine and_congr_left fun nonempty => ?_
  have words : name ∈ (split (rest.rdropWhile QChar.isSpace) ' ').map trimmed ↔ name ∈ (split rest ' ').map trimmed :=
    mem_splitOn_rdropWhile ' ' name nonempty rest
  rw [isInnerHost, ends] at named
  by_cases empty : rest.rdropWhile QChar.isSpace = []
  · rw [if_pos empty] at named
    have unnamed : hi.name = [] := named
    rw [empty] at words
    rw [unnamed]
    exact words
  · rw [if_neg empty] at named
    have start : startsWith ("Host ".toList ++ rest.rdropWhile QChar.isSpace) "Host ".toList = true := rfl
    rw [start, if_pos rfl] at named
    rw [named]
    exact (mem_splitOn_trim ' ' name nonempty _).trans words

/-! ## The block of a session -/

/-- The lines a session is read from. -/
def own (before : List QByteArray) (line : QByteArray) (after : List QByteArray) : List QByteArray :=
  before.rtakeWhile isComment ++ line :: after.takeWhile isIndented

theorem own_own : own (before.rtakeWhile isComment) line (after.takeWhile isIndented) = own before line after := by
  rw [own, List.rtakeWhile_idempotent, List.takeWhile_idem, own]

theorem own_subset : own before line after ⊆ before ++ line :: after := by
  intro other member
  rcases List.mem_append.mp member with above | below
  · exact List.mem_append_left _ ((List.rtakeWhile_suffix _ _).subset above)
  · rcases List.mem_cons.mp below with rfl | below
    · simp
    · exact List.mem_append_right _ (List.mem_cons_of_mem _ ((List.takeWhile_prefix _).subset below))

/-- The file with these lines alone. -/
def alone (before : List QByteArray) (line : QByteArray) (after : List QByteArray) : QByteArray :=
  10 :: [10].intercalate (own before line after)

/-- Below an empty first line, the comments above a `Host` line are all of them. -/
theorem blockAt_eq : blockAt (before.reverse ++ [[]]) line after = (own before line after).map ofByteArray := by
  have above : commentsAbove (before.reverse ++ [[]]) = (before.rtakeWhile isComment).map ofByteArray := by
    rw [commentsAbove, List.dropLast_concat, ← List.map_reverse]
    rfl
  rw [blockAt, above, own, List.map_append, List.map_cons]

theorem comment_plain (comment : isComment line = true) (label : QString) (d : Char) (other : '#' ≠ d) :
    startsWith (trimmed (ofByteArray line)) (d :: label) = false := by
  obtain ⟨rest, text⟩ := comment_text line comment
  rw [text]
  exact not_startsWith _ label '#' d (head_trim '#' rest (by decide)) other

theorem mem_blockNames (name : QString) (regular : Regular (before ++ line :: after)) (host : isHost line = true) :
    name ∈ blockNames (blockAt (before.reverse ++ [[]]) line after) ↔ name ∈ hostWords line ∧ name ≠ [] := by
  obtain ⟨rest, text⟩ := host_text line host
  have words : hostWords line = (split rest ' ').map trimmed := by
    rw [hostWords, text]
    rfl
  rw [words, blockAt_eq, own, List.map_append, List.map_cons, text]
  apply mem_names_host
  apply parseBlock_name
  · intro other member
    obtain ⟨row, above, rfl⟩ := List.mem_map.mp member
    exact comment_plain row (List.mem_rtakeWhile_imp above) _ 'H' (by decide)
  · intro other member
    obtain ⟨row, below, rfl⟩ := List.mem_map.mp member
    have indented := List.mem_takeWhile_imp below
    exact regular.inner row
      (List.mem_append_right _ (List.mem_cons_of_mem _ ((List.takeWhile_prefix _).subset below))) indented

theorem fileBlocks_newline (rest : QByteArray) : fileBlocks (10 :: rest) = hostBlocks [[]] (rest.splitOn 10) := by
  have lines : (10 :: rest).splitOn (10 : UInt8) = [] :: rest.splitOn 10 := by
    rw [List.splitOn_cons_eq_if_modifyHead, if_pos (by simp)]
  rw [fileBlocks, lines, splitBlocks_eq]
  exact hostBlocks_other _ _ _ rfl

theorem mem_hostBlocks (before lines : List QByteArray) (block : Block) :
    block ∈ hostBlocks before lines ↔
      ∃ front line after, lines = front ++ line :: after ∧ isHost line = true ∧
        block = blockAt (front.reverse ++ before) line after := by
  refine ⟨?_, ?_⟩
  · intro member
    induction lines generalizing before with
    | nil => cases member
    | cons first lines ih =>
      have later (inside : block ∈ hostBlocks (first :: before) lines) :
          ∃ front line after, first :: lines = front ++ line :: after ∧ isHost line = true ∧
            block = blockAt (front.reverse ++ before) line after := by
        obtain ⟨front, line, after, rfl, host, rfl⟩ := ih _ inside
        exact ⟨first :: front, line, after, rfl, host, by simp⟩
      cases host : isHost first with
      | true =>
        rw [hostBlocks_host _ _ _ host] at member
        rcases List.mem_cons.mp member with rfl | inside
        · exact ⟨[], first, lines, rfl, host, rfl⟩
        · exact later inside
      | false =>
        rw [hostBlocks_other _ _ _ host] at member
        exact later member
  · rintro ⟨front, line, after, rfl, host, rfl⟩
    rw [hostBlocks_append _ _ _ _ (isIndented_of_isHost line host), hostBlocks_host _ _ _ host]
    simp

theorem word_plain (lines : List QByteArray) (regular : Regular lines) (line : QByteArray) (member : line ∈ lines)
    (host : isHost line = true) (word : QString) (named : word ∈ hostWords line) : '*' ∉ word := by
  intro star
  obtain ⟨part, piece, rfl⟩ := List.mem_map.mp named
  have inside := (of_mem_splitOn ' ' _ part piece).2 (mem_of_mem_trim part '*' star)
  have shown := (mem_of_mem_mid _ 5 '*' inside).resolve_left (by decide)
  exact regular.star line member host (mem_of_mem_ofByteArray line shown)

section
variable (rest : QByteArray) (regular : Regular (rest.splitOn 10)) (name : QString)
include regular

theorem named_of_owner (item : Block × Nat) (last : owner (10 :: rest) name = some item) :
    ∃ line ∈ rest.splitOn 10, isHost line = true ∧ name ∈ hostWords line := by
  obtain ⟨member, named⟩ := owner_mem (10 :: rest) name item last
  have inside : item.1 ∈ fileBlocks (10 :: rest) := List.mem_of_getElem? (List.mem_zipIdx_iff_getElem?.mp member)
  rw [fileBlocks_newline] at inside
  obtain ⟨before, line, after, cut, host, same⟩ := (mem_hostBlocks _ _ _).mp inside
  rw [same] at named
  exact ⟨line, by simp [cut], host, ((mem_blockNames before line after name (cut ▸ regular) host).mp named).1⟩

theorem wildcard_empty (env : Env) : (readMaps env (10 :: rest)).2 = ∅ := by
  apply Finmap.ext_lookup
  intro pattern
  rw [(lookup_readMaps env (10 :: rest) pattern).2, Finmap.lookup_empty]
  split
  · rename_i star
    cases last : owner (10 :: rest) pattern with
    | none => rfl
    | some item =>
      obtain ⟨line, member, host, word⟩ := named_of_owner rest regular pattern item last
      exact absurd star (word_plain _ regular line member host pattern word)
  · rfl

theorem lookup_owner (env : Env) (plain : '*' ∉ name) :
    (parse env (10 :: rest)).lookup name = (owner (10 :: rest) name).map (session env name) := by
  rw [lookup_parse, (lookup_readMaps env (10 :: rest) name).1, if_neg plain, wildcard_empty rest regular]
  cases owner (10 :: rest) name with
  | none => rfl
  | some item => exact congrArg some (mergeWildcard_empty env name _)

/-- The last block that names a session is that of the last such `Host` line. -/
theorem owner_last (nonempty : name ≠ []) (before : List QByteArray) (line : QByteArray) (after : List QByteArray)
    (cut : rest.splitOn 10 = before ++ line :: after) (host : isHost line = true) (named : name ∈ hostWords line)
    (last : ∀ later ∈ after, isHost later = true → name ∉ hostWords later) :
    ∃ i, owner (10 :: rest) name = some ((own before line after).map ofByteArray, i) := by
  have blocks : fileBlocks (10 :: rest) = hostBlocks [[]] before ++
      (own before line after).map ofByteArray :: hostBlocks (line :: (before.reverse ++ [[]])) after := by
    rw [fileBlocks_newline, cut, hostBlocks_append _ _ _ _ (isIndented_of_isHost line host),
      hostBlocks_host _ _ _ host, blockAt_eq]
  rw [owner, blocks, List.zipIdx_append, List.zipIdx_cons]
  refine ⟨0 + (hostBlocks [[]] before).length, final_middle _ _ _ _ _ ?_ ?_⟩
  · apply if_pos
    rw [← blockAt_eq]
    exact (mem_blockNames before line after name (cut ▸ regular) host).mpr ⟨named, nonempty⟩
  · intro item member
    apply if_neg
    intro again
    have inside := List.mem_map_of_mem (f := Prod.fst) member
    rw [List.zipIdx_map_fst] at inside
    obtain ⟨front, later, back, shape, other, same⟩ := (mem_hostBlocks _ _ _).mp inside
    have lines : rest.splitOn 10 = (before ++ line :: front) ++ later :: back := by simp [cut, shape]
    have above : front.reverse ++ line :: (before.reverse ++ [[]]) = (before ++ line :: front).reverse ++ [[]] := by
      simp
    rw [same, above] at again
    have word := (mem_blockNames _ later back name (lines ▸ regular) other).mp again
    exact last later (by simp [shape]) other word.1

end

/-! ## Independence -/

theorem linePort_eq_none_iff (text : QString) :
    linePort text = none ↔ startsWith (trimmed text) "Port ".toList = false := by
  unfold linePort
  cases port : startsWith (trimmed text) "Port ".toList with
  | true =>
    obtain ⟨rest, shape⟩ := List.isPrefixOf_iff_prefix.mp port
    have found : directives.find? (fun directive => startsWith (trimmed text) directive.label) =
        directives[2]? := by
      rw [← shape]
      rfl
    rw [found]
    simp [directives]
  | false =>
    refine iff_of_true ?_ rfl
    cases found : directives.find? fun directive => startsWith (trimmed text) directive.label with
    | none => rfl
    | some directive =>
      apply if_neg
      intro same
      have start := List.find?_some found
      rw [same, port] at start
      cases start

/-- The block has a line for the port. -/
def SetsPort (after : List QByteArray) : Prop :=
  ∃ row ∈ after.takeWhile isIndented, startsWith (trimmed (ofByteArray row)) "Port ".toList = true

theorem blockPort_own (host : isHost line = true) :
    blockPort ((own before line after).map ofByteArray) = none ↔ ¬ SetsPort after := by
  obtain ⟨rest, text⟩ := host_text line host
  have head : startsWith (trimmed (ofByteArray line)) "Port ".toList = false := by
    rw [text]
    exact not_startsWith _ _ 'H' 'P' (head_trim 'H' _ (by decide)) (by decide)
  have above (row : QByteArray) (member : row ∈ before.rtakeWhile isComment) :
      startsWith (trimmed (ofByteArray row)) "Port ".toList = false :=
    comment_plain row (List.mem_rtakeWhile_imp member) _ 'P' (by decide)
  rw [blockPort, final_eq_none_iff, SetsPort]
  simp only [own, List.mem_map, List.mem_append, List.mem_cons, forall_exists_index, and_imp,
    forall_apply_eq_imp_iff₂, linePort_eq_none_iff, not_exists, not_and, Bool.not_eq_true]
  refine ⟨?_, ?_⟩
  · intro none row member
    exact none row (.inr (.inr member))
  · rintro none row (member | rfl | member)
    · exact above row member
    · exact head
    · exact none row member

theorem splitOn_alone (rest : QByteArray) (before : List QByteArray) (line : QByteArray) (after : List QByteArray)
    (cut : rest.splitOn 10 = before ++ line :: after) :
    ([10].intercalate (own before line after)).splitOn 10 = own before line after := by
  apply List.splitOn_intercalate
  · intro other member
    exact (of_mem_splitOn 10 rest other (cut ▸ own_subset before line after member)).1
  · simp [own]

section
variable (rest : QByteArray) (regular : Regular (rest.splitOn 10)) (name : QString) (nonempty : name ≠ [])
include regular nonempty

theorem mem_parse_iff (env : Env) :
    name ∈ parse env (10 :: rest) ↔ ∃ line ∈ rest.splitOn 10, isHost line = true ∧ name ∈ hostWords line := by
  rw [← Finmap.lookup_isSome]
  refine ⟨?_, ?_⟩
  · intro found
    have plain : '*' ∉ name := by
      intro star
      rw [lookup_parse, (lookup_readMaps env (10 :: rest) name).1, if_pos star] at found
      cases found
    rw [lookup_owner rest regular name env plain, Option.isSome_map] at found
    obtain ⟨item, last⟩ := Option.isSome_iff_exists.mp found
    exact named_of_owner rest regular name item last
  · rintro ⟨line, member, host, named⟩
    obtain ⟨before, after, cut⟩ := List.append_of_mem member
    have inside : blockAt (before.reverse ++ [[]]) line after ∈ fileBlocks (10 :: rest) := by
      rw [fileBlocks_newline]
      exact (mem_hostBlocks _ _ _).mpr ⟨before, line, after, cut, host, rfl⟩
    obtain ⟨item, last⟩ := owner_of_named (10 :: rest) name _ inside
      ((mem_blockNames before line after name (cut ▸ regular) host).mpr ⟨named, nonempty⟩)
    rw [lookup_owner rest regular name env (word_plain _ regular line member host name named), last]
    rfl

variable (before : List QByteArray) (line : QByteArray) (after : List QByteArray)
  (cut : rest.splitOn 10 = before ++ line :: after) (host : isHost line = true) (named : name ∈ hostWords line)
  (last : ∀ later ∈ after, isHost later = true → name ∉ hostWords later)
include cut host named last

theorem lookup_last : ∃ i, ∀ env, (parse env (10 :: rest)).lookup name =
    some (session env name ((own before line after).map ofByteArray, i)) := by
  obtain ⟨i, found⟩ := owner_last rest regular name nonempty before line after cut host named last
  refine ⟨i, fun env => ?_⟩
  rw [lookup_owner rest regular name env (word_plain _ regular line (by simp [cut]) host name named), found]
  rfl

theorem lookup_both : ∃ i j, ∀ env,
    (parse env (10 :: rest)).lookup name = some (session env name ((own before line after).map ofByteArray, i)) ∧
    (parse env (alone before line after)).lookup name =
      some (session env name ((own before line after).map ofByteArray, j)) := by
  obtain ⟨i, whole⟩ := lookup_last rest regular name nonempty before line after cut host named last
  have lines := splitOn_alone rest before line after cut
  have part : Regular (own before line after) :=
    Regular.mono _ _ regular (cut ▸ own_subset before line after)
  obtain ⟨j, short⟩ := lookup_last ([10].intercalate (own before line after)) (lines.symm ▸ part) name nonempty
    (before.rtakeWhile isComment) line (after.takeWhile isIndented) lines host named
    fun later member => last later ((List.takeWhile_prefix _).subset member)
  rw [own_own] at short
  exact ⟨i, j, fun env => ⟨whole env, short env⟩⟩

theorem lookup_alone (env other : Env) : ∃ port, (parse env (10 :: rest)).lookup name =
    ((parse other (alone before line after)).lookup name).map (withPort port) := by
  obtain ⟨i, j, found⟩ := lookup_both rest regular name nonempty before line after cut host named last
  rw [(found env).1, (found other).2, session_eq, session_eq]
  exact ⟨_, rfl⟩

theorem lookup_differs (unset : ¬ SetsPort after) : (parse (sortedEnv 22) (10 :: rest)).lookup name ≠
    (parse (sortedEnv 0) (alone before line after)).lookup name := by
  obtain ⟨i, j, found⟩ := lookup_both rest regular name nonempty before line after cut host named last
  rw [(found _).1, (found _).2, session_eq, session_eq, (blockPort_own before line after host).mpr unset]
  intro same
  have ports := congrArg HostInfo.port (Option.some.inj same)
  cases ports

theorem lookup_same (set : SetsPort after) (env other : Env) : (parse env (10 :: rest)).lookup name =
    (parse other (alone before line after)).lookup name := by
  obtain ⟨i, j, found⟩ := lookup_both rest regular name nonempty before line after cut host named last
  obtain ⟨port, given⟩ := Option.ne_none_iff_exists'.mp
    (mt (blockPort_own before line after host).mp (not_not.mpr set))
  rw [(found env).1, (found other).2, session_eq, session_eq, given]
  rfl

end

/-- The names of a file are the words of its `Host` lines, and a session depends on its own lines alone:
always in all its texts, and in its port exactly when these lines set it. -/
theorem independent_iff (rest : QByteArray) (regular : Regular (rest.splitOn 10)) (name : QString)
    (nonempty : name ≠ []) :
    (∀ env, name ∈ parse env (10 :: rest) ↔
      ∃ line ∈ rest.splitOn 10, isHost line = true ∧ name ∈ hostWords line) ∧
    ∀ before line after, rest.splitOn 10 = before ++ line :: after → isHost line = true → name ∈ hostWords line →
      (∀ later ∈ after, isHost later = true → name ∉ hostWords later) →
      (∀ env other, ∃ port, (parse env (10 :: rest)).lookup name =
        ((parse other (alone before line after)).lookup name).map (withPort port)) ∧
      ((∀ env other, (parse env (10 :: rest)).lookup name =
        (parse other (alone before line after)).lookup name) ↔ SetsPort after) := by
  refine ⟨mem_parse_iff rest regular name nonempty, ?_⟩
  intro before line after cut host named last
  refine ⟨lookup_alone rest regular name nonempty before line after cut host named last, ?_, ?_⟩
  · intro same
    by_contra unset
    exact lookup_differs rest regular name nonempty before line after cut host named last unset (same _ _)
  · exact lookup_same rest regular name nonempty before line after cut host named last

/-- Two names on one line, and a port. -/
def portLines : List QByteArray := ["#first", "Host web db", "  Port 22", ""].map fun line => toUtf8 line.toList

theorem independent_iff_port :
    (parse (sortedEnv 1) (10 :: [10].intercalate portLines)).lookup "db".toList =
      (parse (sortedEnv 2) (alone [toUtf8 "#first".toList] (toUtf8 "Host web db".toList)
        (portLines.drop 2))).lookup "db".toList := by
  have found := independent_iff ([10].intercalate portLines) ⟨by decide +kernel, by decide +kernel⟩ "db".toList
    (by decide)
  have only := found.2 [toUtf8 "#first".toList] (toUtf8 "Host web db".toList) (portLines.drop 2)
    (by decide +kernel) (by decide +kernel) (by decide +kernel) (by decide +kernel)
  have sets : SetsPort (portLines.drop 2) := ⟨toUtf8 "  Port 22".toList, by decide +kernel, by decide +kernel⟩
  exact only.2.mpr sets (sortedEnv 1) (sortedEnv 2)

/-- The second session has no port of its own. -/
def portless : List QByteArray :=
  ["Host web", "  Port 22", "Host db", "  User root", ""].map fun line => toUtf8 line.toList

theorem portless_leaks : Regular (([10].intercalate portless).splitOn 10) ∧
    (parse (sortedEnv 22) (10 :: [10].intercalate portless)).lookup "db".toList ≠
      (parse (sortedEnv 0) (alone (portless.take 2) (toUtf8 "Host db".toList) (portless.drop 3))).lookup
        "db".toList := by
  have regular : Regular (([10].intercalate portless).splitOn 10) := ⟨by decide +kernel, by decide +kernel⟩
  refine ⟨regular, ?_⟩
  apply lookup_differs _ regular _ (by decide) _ _ _ (by decide +kernel) (by decide +kernel) (by decide +kernel)
    (by decide +kernel)
  unfold SetsPort
  decide +kernel

end Woterm.SshConf.Independent
