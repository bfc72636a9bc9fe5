import Woterm.Lib.MapFold
import Woterm.SshConf.Format

/-!
Reading a session file back. A session is `Storable` when its texts stay inside the part of
the format that the parser inverts; a file of storable sessions is read back entry by entry,
whatever the order of the hashes, except that a port that was not written is left
uninitialised.
-/

namespace Woterm.SshConf.RoundTrip
open Woterm.Lib Woterm.Lib.Text Woterm.Qt Woterm.Qt.QString Woterm.SshConf.Format

/-- A text that one line of the file can hold. -/
structure Line (text : QString) : Prop where
  single : Single text
  clean : NulFree text
  trimmed : Qt.Trimmed text

/-- A line of a memo: nothing is trimmed from its end. -/
structure MemoLine (text : QString) : Prop where
  clean : NulFree text
  last : ∀ c ∈ text.getLast?, QChar.isSpace c = false

/-- The texts that are stored as they are, apart from name and memo. -/
def fields (hi : HostInfo) : List QString :=
  [hi.host, hi.user, hi.password, hi.identityFile, hi.proxyJump, hi.property]

structure Storable (hi : HostInfo) : Prop where
  named : hi.name ≠ []
  name : Line hi.name
  blank : ' ' ∉ hi.name
  star : '*' ∉ hi.name
  fields : ∀ text ∈ fields hi, Line text
  memo : ∀ line ∈ split hi.memo '\n', MemoLine line

/-- What the parser makes of a session: a port that is not positive is not written, and the
group never is. -/
def restored (port : Int32) (hi : HostInfo) : HostInfo :=
  { hi with port := if 0 < hi.port then hi.port else port, group := [] }

/-- The lines of a session that belong to its block. -/
def blockLines (hi : HostInfo) : Block :=
  memoLines hi.memo ++ setting "Host ".toList hi.name ++ settingLines hi

variable (hosts : Hosts) (scan : Scan) (env : Env) (name : QString) (hi : HostInfo) (infos : List HostInfo)
  (lines : List QString) (line : QString)

theorem hostLines_eq : hostLines hi = [] :: blockLines hi := by
  simp [hostLines, blockLines]

/-! ## Splitting the file into blocks -/

theorem flush_open (blocks : List Block) (block : Block) (nonempty : block ≠ []) :
    flush blocks block = blocks ++ [block] := by
  simp [flush, nonempty]

theorem scanLine_empty :
    scanLine scan (toUtf8 []) = { before := [] :: scan.before, blocks := scan.done, block := [] } := rfl

theorem scanLine_comment (closed : scan.block = []) :
    scanLine scan (toUtf8 ('#' :: line)) =
      { scan with before := toUtf8 ('#' :: line) :: scan.before } := by
  obtain ⟨before, blocks, block⟩ := scan
  subst closed
  rfl

theorem scanLine_host (closed : scan.block = []) :
    scanLine scan (toUtf8 ("Host ".toList ++ name)) =
      { before := toUtf8 ("Host ".toList ++ name) :: scan.before
        blocks := scan.blocks
        block := commentsAbove scan.before ++ [ofByteArray (toUtf8 ("Host ".toList ++ name))] } := by
  obtain ⟨before, blocks, block⟩ := scan
  subst closed
  rfl

theorem scanLine_indented (opened : scan.block ≠ []) :
    scanLine scan (toUtf8 (' ' :: line)) = { scan with
        before := toUtf8 (' ' :: line) :: scan.before
        block := scan.block ++ [ofByteArray (toUtf8 (' ' :: line))] } := by
  have other : (toUtf8 "Host ".toList).isPrefixOf (toUtf8 (' ' :: line)) = false := rfl
  have blank : (toUtf8 [' ']).isPrefixOf (toUtf8 (' ' :: line)) = true := rfl
  simp only [scanLine, other, blank, Bool.false_eq_true, if_false, Bool.true_or, if_true,
    List.isEmpty_iff, opened]

theorem scan_comments (closed : scan.block = []) :
    (lines.map fun line => toUtf8 ('#' :: line)).foldl scanLine scan =
      { scan with before := (lines.map fun line => toUtf8 ('#' :: line)).reverse ++ scan.before } := by
  induction lines generalizing scan with
  | nil => rfl
  | cons line lines ih =>
    rw [List.map_cons, List.foldl_cons, scanLine_comment scan line closed,
      ih { scan with before := toUtf8 ('#' :: line) :: scan.before } closed]
    simp

theorem scan_indented (opened : scan.block ≠ []) (indented : ∀ line ∈ lines, line.head? = some ' ') :
    ((lines.map toUtf8).foldl scanLine scan).blocks = scan.blocks ∧
      ((lines.map toUtf8).foldl scanLine scan).block =
        scan.block ++ lines.map fun line => ofByteArray (toUtf8 line) := by
  induction lines generalizing scan with
  | nil => simp
  | cons line lines ih =>
    obtain ⟨rest, rfl⟩ : ∃ rest, line = ' ' :: rest := by
      have start := indented line (by simp)
      cases line with
      | nil => simp at start
      | cons c rest => exact ⟨rest, by simpa using start⟩
    rw [List.map_cons, List.foldl_cons, scanLine_indented scan rest opened]
    have later := ih { scan with
        before := toUtf8 (' ' :: rest) :: scan.before
        block := scan.block ++ [ofByteArray (toUtf8 (' ' :: rest))] }
      (by simp) (fun other member => indented other (by simp [member]))
    simpa using later

/-- The comment lines written above a session are the ones found above its `Host` line: the
empty line in front of them ends the backward loop. -/
theorem commentsAbove_written (before : List QByteArray) :
    commentsAbove ((lines.map fun line => toUtf8 ('#' :: line)).reverse ++ [] :: before) =
      lines.map fun line => ofByteArray (toUtf8 ('#' :: line)) := by
  have marked : ∀ line ∈ (lines.map fun line => toUtf8 ('#' :: line)).reverse,
      (toUtf8 ['#']).isPrefixOf line = true := by
    intro line member
    obtain ⟨text, _, rfl⟩ := List.mem_map.mp (List.mem_reverse.mp member)
    rfl
  have stop : ([] :: before).dropLast.takeWhile (fun line => (toUtf8 ['#']).isPrefixOf line) = [] := by
    cases before <;> rfl
  rw [commentsAbove, List.dropLast_append_of_ne_nil (by simp), List.takeWhile_append_of_pos marked, stop]
  simp [List.map_reverse]

/-- Text the parser gets back from the bytes of a line. -/
def Legible (text : QString) : Prop := NulFree text ∧ text.head? ≠ some (Char.ofNat 0xfeff)

theorem ofByteArray_legible (legible : ∀ line ∈ lines, Legible line) :
    lines.map (fun line => ofByteArray (toUtf8 line)) = lines := by
  rw [List.map_congr_left (g := id) fun line member =>
    ofByteArray_toUtf8 line (legible line member).1 (legible line member).2, List.map_id]

/-- The labels of the indented lines. -/
def settingLabels : List QString :=
  ["  IgnoreUnknown ".toList, "  HostName ".toList, "  Port ".toList, "  User ".toList,
    "  IdentityFile ".toList, "  Password ".toList, "  ProxyJump ".toList, "  Property ".toList]

theorem mem_setting (label value line : QString) (member : line ∈ setting label value) :
    line = label ++ value := by
  unfold setting at member
  split at member <;> simp_all

theorem mem_settingLines (member : line ∈ settingLines hi) :
    ∃ label ∈ settingLabels, ∃ value, line = label ++ value ∧
      (value ∈ fields hi ∨ value = number hi.port ∨ value = ignoreUnknow) := by
  have pick (label value : QString) (known : label ∈ settingLabels)
      (stored : value ∈ fields hi) (inside : line ∈ setting label value) :
      ∃ label ∈ settingLabels, ∃ value, line = label ++ value ∧
        (value ∈ fields hi ∨ value = number hi.port ∨ value = ignoreUnknow) :=
    ⟨label, known, value, mem_setting label value line inside, Or.inl stored⟩
  simp only [settingLines, List.mem_append] at member
  rcases member with ((((((h | h) | h) | h) | h) | h) | h) | h
  · exact ⟨_, by simp [settingLabels], ignoreUnknow, List.mem_singleton.mp h, by simp⟩
  · exact pick _ _ (by simp [settingLabels]) (by simp [fields]) h
  · split at h
    · exact ⟨_, by simp [settingLabels], number hi.port, List.mem_singleton.mp h, by simp⟩
    · simp at h
  · exact pick _ _ (by simp [settingLabels]) (by simp [fields]) h
  · exact pick _ _ (by simp [settingLabels]) (by simp [fields]) h
  · exact pick _ _ (by simp [settingLabels]) (by simp [fields]) h
  · exact pick _ _ (by simp [settingLabels]) (by simp [fields]) h
  · exact pick _ _ (by simp [settingLabels]) (by simp [fields]) h

theorem settingLines_indented : ∀ line ∈ settingLines hi, line.head? = some ' ' := by
  intro line member
  obtain ⟨label, known, value, rfl, _⟩ := mem_settingLines hi line member
  have start : ∀ label ∈ settingLabels, label.head? = some ' ' := by decide
  simp [List.head?_append, start label known]

theorem scan_host (named : hi.name ≠ []) (legible : ∀ line ∈ blockLines hi, Legible line) :
    (((hostLines hi).map toUtf8).foldl scanLine scan).done = scan.done ++ [blockLines hi] := by
  obtain ⟨comments, memo⟩ : ∃ comments : List QString, memoLines hi.memo = comments.map ('#' :: ·) := by
    unfold memoLines
    split
    · exact ⟨[], rfl⟩
    · exact ⟨_, rfl⟩
  have name : setting "Host ".toList hi.name = ["Host ".toList ++ hi.name] := by
    simp [setting, named]
  have texts := ofByteArray_legible (blockLines hi) legible
  rw [hostLines_eq]
  simp only [blockLines, memo, name, List.map_cons, List.map_append, List.foldl_cons, List.foldl_append,
    List.map_map, List.map_nil, List.foldl_nil] at texts ⊢
  have comments_scan := scan_comments (scanLine scan (toUtf8 [])) comments (by rw [scanLine_empty])
  simp only [Function.comp_def] at texts ⊢
  rw [comments_scan, scanLine_empty, scanLine_host _ _ rfl, commentsAbove_written]
  obtain ⟨blocks, block⟩ := scan_indented
    { before := toUtf8 ("Host ".toList ++ hi.name) ::
        ((comments.map fun line => toUtf8 ('#' :: line)).reverse ++ [] :: scan.before)
      blocks := scan.done
      block := (comments.map fun line => ofByteArray (toUtf8 ('#' :: line))) ++
        [ofByteArray (toUtf8 ("Host ".toList ++ hi.name))] }
    (settingLines hi) (by simp) (settingLines_indented hi)
  rw [Scan.done, blocks, block, texts, flush_open _ _ (by simp)]

theorem number_clean (n : Int32) (c : Char) (space : QChar.isSpace c = true ∨ c = '\x00') :
    c ∉ number n := by
  intro member
  rcases number_chars n c member with digit | rfl
  · have range := isDigit_range c digit
    rcases space with blank | rfl
    · rw [isSpace_of_isDigit c digit] at blank
      simp at blank
    · simp at range
  · exact absurd space (by decide)

/-- A line feed or a NUL that no text of a session has is in none of its lines. -/
theorem not_mem_hostLines (c : Char) (control : c ∈ ['\n', '\x00']) (name : c ∉ hi.name)
    (texts : ∀ text ∈ fields hi, c ∉ text) (memo : ∀ text ∈ split hi.memo '\n', c ∉ text) (line : QString)
    (member : line ∈ hostLines hi) : c ∉ line := by
  have fixed : ∀ c ∈ ['\n', '\x00'], c ≠ '#' ∧ c ∉ "Host ".toList ∧ c ∉ ignoreUnknow ∧
      (∀ label ∈ settingLabels, c ∉ label) ∧ (QChar.isSpace c = true ∨ c = '\x00') := by decide
  obtain ⟨hash, host, ignored, labels, space⟩ := fixed c control
  simp only [hostLines, List.mem_append, List.mem_singleton] at member
  rcases member with ((rfl | comment) | first) | other
  · simp
  · unfold memoLines at comment
    split at comment
    · simp at comment
    · obtain ⟨text, inside, rfl⟩ := List.mem_map.mp comment
      simpa [hash] using memo text inside
  · rw [mem_setting _ _ _ first, List.mem_append, not_or]
    exact ⟨host, name⟩
  · obtain ⟨label, known, value, rfl, source⟩ := mem_settingLines hi line other
    rw [List.mem_append, not_or]
    refine ⟨labels label known, ?_⟩
    rcases source with stored | rfl | rfl
    · exact texts value stored
    · exact number_clean _ c space
    · exact ignored

theorem hostLines_single (name : Single hi.name) (texts : ∀ text ∈ fields hi, Single text) (line : QString)
    (member : line ∈ hostLines hi) : Single line :=
  not_mem_hostLines hi '\n' (by simp) name texts (fun text inside => (of_mem_splitOn _ _ text inside).1)
    line member

theorem hostLines_nulFree (storable : Storable hi) (line : QString) (member : line ∈ hostLines hi) : NulFree line :=
  not_mem_hostLines hi '\x00' (by simp) storable.name.clean (fun text stored => (storable.fields text stored).clean)
    (fun text inside => (storable.memo text inside).clean) line member

theorem blockLines_start (member : line ∈ blockLines hi) :
    line.head? = some '#' ∨ line.head? = some 'H' ∨ line.head? = some ' ' := by
  simp only [blockLines, List.mem_append] at member
  rcases member with (memo | name) | other
  · unfold memoLines at memo
    split at memo
    · simp at memo
    · obtain ⟨text, _, rfl⟩ := List.mem_map.mp memo
      simp
  · rw [mem_setting _ _ _ name]
    simp
  · exact Or.inr (Or.inr (settingLines_indented hi line other))

theorem blockLines_legible (storable : Storable hi) : ∀ line ∈ blockLines hi, Legible line := by
  intro line member
  have clean := hostLines_nulFree hi storable line (by simp [hostLines_eq, member])
  refine ⟨clean, ?_⟩
  rcases blockLines_start hi line member with start | start | start <;> rw [start] <;> decide

/-- The stream of a list of sessions, one after the other. -/
def stream (infos : List HostInfo) : QByteArray :=
  infos.flatMap fun hi => (hostLines hi).flatMap fun line => toUtf8 (line ++ ['\n'])

/-- The sessions in the order in which they are written. -/
def written (hosts : Hosts) : List HostInfo := (sortedKeys hosts).map (value hosts)

theorem toStream_eq : toStream hosts = stream (written hosts) := by
  simp [toStream, stream, written, List.flatMap_map]

theorem stream_eq_unlines : stream infos = unlines 10 (infos.flatMap fun hi => (hostLines hi).map toUtf8) := by
  have newline (line : QString) : toUtf8 (line ++ ['\n']) = toUtf8 line ++ [10] := toUtf8_append line _
  simp [stream, unlines, List.flatMap_assoc, List.flatMap_map, newline]

theorem splitOn_stream (storable : ∀ hi ∈ infos, Storable hi) :
    (stream infos).splitOn 10 = (infos.flatMap fun hi => (hostLines hi).map toUtf8) ++ [[]] := by
  rw [stream_eq_unlines, splitOn_unlines]
  intro line member
  obtain ⟨hi, inside, lines⟩ := List.mem_flatMap.mp member
  obtain ⟨text, found, rfl⟩ := List.mem_map.mp lines
  have known := storable hi inside
  exact toUtf8_single text
    (hostLines_single hi known.name.single (fun value stored => (known.fields value stored).single) text found)

theorem splitBlocks_stream (storable : ∀ hi ∈ infos, Storable hi) :
    splitBlocks ((stream infos).splitOn 10) = infos.map blockLines := by
  have scanned (scan : Scan) :
      ((infos.flatMap fun hi => (hostLines hi).map toUtf8).foldl scanLine scan).done =
        scan.done ++ infos.map blockLines := by
    induction infos generalizing scan with
    | nil => simp
    | cons hi infos ih =>
      have good := storable hi (by simp)
      rw [List.flatMap_cons, List.foldl_append, ih (fun other member => storable other (by simp [member])),
        scan_host scan hi good.named (blockLines_legible hi good)]
      simp
  rw [splitOn_stream infos storable, splitBlocks, List.foldl_append, List.foldl_cons, List.foldl_nil]
  exact scanned {}

/-! ## Interpreting a block -/

theorem parseItem_comment (state : HostInfo × List QString) (line : QString) (memo : MemoLine line) :
    parseItem state ('#' :: line) = (state.1, state.2 ++ [line]) := by
  have whole : trimmed ('#' :: line) = '#' :: line := by
    apply trim_eq_self
    refine ⟨fun c member => ?_, fun c member => ?_⟩
    · have same : '#' = c := by simpa using member
      rw [← same]
      decide
    · cases line with
      | nil =>
        have same : '#' = c := by simpa using member
        rw [← same]
        decide
      | cons d rest => exact memo.last c (by simpa [List.getLast?_cons_cons] using member)
  have other : (directives.find? fun directive => startsWith ('#' :: line) directive.label) = none := rfl
  simp only [parseItem, whole, other]
  rfl

theorem foldl_memoLines (memo : QString) (lines : ∀ line ∈ split memo '\n', MemoLine line) :
    ∃ memos, (memoLines memo).foldl parseItem (hi, []) = (hi, memos) ∧ join memos ['\n'] = memo := by
  unfold memoLines
  split
  · rename_i empty
    exact ⟨[], rfl, (List.isEmpty_iff.mp empty).symm⟩
  · refine ⟨split memo '\n', ?_, List.intercalate_splitOn '\n'⟩
    have collected (parts memos : List QString) (good : ∀ line ∈ parts, MemoLine line) :
        (parts.map ('#' :: ·)).foldl parseItem (hi, memos) = (hi, memos ++ parts) := by
      induction parts generalizing memos with
      | nil => simp
      | cons part parts ih =>
        rw [List.map_cons, List.foldl_cons, parseItem_comment _ _ (good part (by simp)),
          ih _ (fun line member => good line (by simp [member]))]
        simp
    simpa using collected _ [] lines

theorem parseItem_label (state : HostInfo × List QString) (pad label value : QString) (c : Char)
    (directive : Directive) (blanks : ∀ a ∈ pad, QChar.isSpace a = true)
    (start : QChar.isSpace c = false) (nonempty : value ≠ []) (good : Qt.Trimmed value)
    (found : (directives.find? fun d => startsWith (c :: (label ++ value)) d.label) = some directive)
    (offset : trimmed (mid (c :: (label ++ value)) directive.offset) = value) :
    parseItem state (pad ++ c :: (label ++ value)) = (directive.set state.1 value, state.2) := by
  have whole : trimmed (pad ++ c :: (label ++ value)) = c :: (label ++ value) := by
    rw [trimmed, trim_blank_append pad _ blanks]
    exact trim_eq_self _ (Trimmed.prepend c label value start nonempty good)
  simp only [parseItem, whole, found, offset]

theorem foldl_setting (state : HostInfo × List QString) (label value : QString) (c : Char)
    (directive : Directive) (start : QChar.isSpace c = false) (line : Line value)
    (found : (directives.find? fun d => startsWith (c :: (label ++ value)) d.label) = some directive)
    (offset : mid (c :: (label ++ value)) directive.offset = value ∨
      mid (c :: (label ++ value)) directive.offset = ' ' :: value)
    (unset : directive.set state.1 [] = state.1) :
    (setting (' ' :: ' ' :: c :: label) value).foldl parseItem state =
      (directive.set state.1 value, state.2) := by
  unfold setting
  split
  · rename_i empty
    rw [List.isEmpty_iff.mp empty, unset]
    rfl
  · rename_i nonempty
    have trimmed_value : trimmed value = value := trim_eq_self value line.trimmed
    have cut : trimmed (mid (c :: (label ++ value)) directive.offset) = value := by
      rcases offset with same | blank
      · rw [same, trimmed_value]
      · rw [blank]
        exact (trim_blank_append [' '] value (by decide)).trans trimmed_value
    exact parseItem_label state [' ', ' '] label value c directive (by decide) start
      (by simpa using nonempty) line.trimmed found cut

theorem foldl_port (memos : List QString) (port : Int32) :
    (if 0 < port then ["  Port ".toList ++ number port] else []).foldl parseItem (hi, memos) =
      ({ hi with port := if 0 < port then port else hi.port }, memos) := by
  split
  · have line := parseItem_label (hi, memos) [' ', ' '] "ort ".toList (number port) 'P'
      ⟨"Port ".toList, 5, fun hi text => { hi with port := toInt text }⟩ (by decide) (by decide)
      (number_ne_nil port) (Text.Trimmed.of_forall _ (number_solid port)) rfl
      (trim_eq_self _ (Text.Trimmed.of_forall _ (number_solid port)))
    simp only [toInt_number] at line
    exact line
  · rfl

theorem foldl_settingLines (port : Int32) (memos : List QString) (hi : HostInfo)
    (lines : ∀ text ∈ fields hi, Line text) :
    (settingLines hi).foldl parseItem ({ name, port }, memos) =
      ({ restored port hi with name, memo := [] }, memos) := by
  have line (text : QString) (member : text ∈ fields hi) : Line text := lines text member
  have ignored (state : HostInfo × List QString) :
      parseItem state ("  IgnoreUnknown ".toList ++ ignoreUnknow) = state := rfl
  simp only [settingLines, List.foldl_append, List.foldl_cons, List.foldl_nil, ignored]
  rw [show "  HostName ".toList = ' ' :: ' ' :: 'H' :: "ostName ".toList from rfl,
    foldl_setting _ _ _ 'H' ⟨_, 9, fun hi text => { hi with host := text }⟩ (by decide)
      (line hi.host (by simp [fields])) rfl (Or.inl rfl) rfl,
    foldl_port,
    show "  User ".toList = ' ' :: ' ' :: 'U' :: "ser ".toList from rfl,
    foldl_setting _ _ _ 'U' ⟨_, 5, fun hi text => { hi with user := text }⟩ (by decide)
      (line hi.user (by simp [fields])) rfl (Or.inl rfl) rfl,
    show "  IdentityFile ".toList = ' ' :: ' ' :: 'I' :: "dentityFile ".toList from rfl,
    foldl_setting _ _ _ 'I' ⟨_, 13, fun hi text => { hi with identityFile := text }⟩ (by decide)
      (line hi.identityFile (by simp [fields])) rfl (Or.inl rfl) rfl,
    show "  Password ".toList = ' ' :: ' ' :: 'P' :: "assword ".toList from rfl,
    foldl_setting _ _ _ 'P' ⟨_, 9, fun hi text => { hi with password := text }⟩ (by decide)
      (line hi.password (by simp [fields])) rfl (Or.inl rfl) rfl,
    show "  ProxyJump ".toList = ' ' :: ' ' :: 'P' :: "roxyJump ".toList from rfl,
    foldl_setting _ _ _ 'P' ⟨_, 9, fun hi text => { hi with proxyJump := text }⟩ (by decide)
      (line hi.proxyJump (by simp [fields])) rfl (Or.inr rfl) rfl,
    show "  Property ".toList = ' ' :: ' ' :: 'P' :: "roperty ".toList from rfl,
    foldl_setting _ _ _ 'P' ⟨_, 8, fun hi text => { hi with property := text }⟩ (by decide)
      (line hi.property (by simp [fields])) rfl (Or.inr rfl) rfl]
  rfl

theorem parseBlock_blockLines (port : Int32) (hi : HostInfo) (storable : Storable hi) :
    parseBlock port (blockLines hi) = restored port hi := by
  obtain ⟨memos, collected, joined⟩ := foldl_memoLines { port } hi.memo storable.memo
  have name : setting "Host ".toList hi.name = ["Host ".toList ++ hi.name] := by
    simp [setting, storable.named]
  have host := parseItem_label ({ port }, memos) [] "ost ".toList hi.name 'H'
    ⟨_, 5, fun hi text => { hi with name := text }⟩ (by simp) (by decide) storable.named
    storable.name.trimmed rfl (trim_eq_self _ storable.name.trimmed)
  have items : (blockLines hi).foldl parseItem ({ port }, []) =
      ({ restored port hi with memo := [] }, memos) := by
    rw [blockLines, List.foldl_append, List.foldl_append, collected, name, List.foldl_cons, List.foldl_nil]
    exact (congrArg (fun state => (settingLines hi).foldl parseItem state) host).trans
      (foldl_settingLines hi.name port memos hi storable.fields)
  rw [parseBlock, items]
  simp only [joined]
  rfl

/-! ## The maps -/

/-- Every entry is stored under its own name. -/
def Named (hosts : Hosts) : Prop := ∀ name hi, hosts.lookup name = some hi → hi.name = name

theorem Named.empty : Named ∅ := by
  intro name hi stored
  simp at stored

theorem Named.insert (named : Named hosts) : Named (hosts.insert hi.name hi) :=
  MapFold.forall_insert (fun name (hi : HostInfo) => hi.name = name) hosts hi.name hi named rfl

theorem insertName_named (maps : Hosts × Hosts) (part : QString) (named : Named maps.1 ∧ Named maps.2) :
    Named (insertName hi maps part).1 ∧ Named (insertName hi maps part).2 := by
  unfold insertName
  dsimp only
  split_ifs
  · exact named
  · exact ⟨named.1, named.2.insert _ { hi with name := trimmed part }⟩
  · exact ⟨named.1.insert _ { hi with name := trimmed part }, named.2⟩

theorem readMaps_named (buf : QByteArray) : Named (readMaps env buf).1 ∧ Named (readMaps env buf).2 := by
  have names (hi : HostInfo) (parts : List QString) (maps : Hosts × Hosts)
      (named : Named maps.1 ∧ Named maps.2) :
      Named (parts.foldl (insertName hi) maps).1 ∧ Named (parts.foldl (insertName hi) maps).2 :=
    List.foldlRecOn parts (insertName hi) named fun maps named part _ =>
      insertName_named hi maps part named
  exact List.foldlRecOn _ insertNames ⟨Named.empty, Named.empty⟩ fun maps named hi _ =>
    names hi _ maps named

theorem mergeWildcard_name (wildcard : Hosts) (name : QString) (hi : HostInfo) :
    (mergeWildcard env wildcard name hi).name = hi.name := by
  unfold mergeWildcard
  dsimp only
  split_ifs <;> rfl

/-- The order in which `common` is walked has no effect. -/
theorem lookup_parse (buf : QByteArray) (name : QString) :
    (parse env buf).lookup name =
      ((readMaps env buf).1.lookup name).map (mergeWildcard env (readMaps env buf).2 name) := by
  have named := (readMaps_named env buf).1
  have entries := env.order_entries (readMaps env buf).1
  rw [← MapFold.lookup_insertAll_entries _ _ _ entries]
  congr 1
  apply List.foldl_ext
  intro hosts entry member
  have stored : (readMaps env buf).1.lookup entry.1 = some entry.2 := by
    rw [Finmap.lookup_eq_some_iff, ← entries, Multiset.mem_coe]
    exact member
  dsimp only
  rw [mergeWildcard_name, named _ _ stored]

theorem mergeWildcard_empty : mergeWildcard env ∅ name hi = hi := by
  have none : env.order ∅ = [] := by
    have entries := env.order_entries ∅
    exact (Multiset.coe_eq_zero _).mp entries
  simp [mergeWildcard, none]

theorem insertNames_storable (maps : Hosts × Hosts) (hi : HostInfo) (storable : Storable hi) :
    insertNames maps hi = (maps.1.insert hi.name hi, maps.2) := by
  have single : split hi.name ' ' = [hi.name] := List.splitOn_eq_singleton storable.blank
  have whole : trimmed hi.name = hi.name := trim_eq_self _ storable.name.trimmed
  simp [insertNames, single, insertName, whole, storable.named, storable.star]

theorem Storable.restored (storable : Storable hi) (port : Int32) : Storable (restored port hi) :=
  ⟨storable.named, storable.name, storable.blank, storable.star, storable.fields, storable.memo⟩

theorem readMaps_stream (storable : ∀ hi ∈ infos, Storable hi) :
    readMaps env (stream infos) =
      (MapFold.insertAll HostInfo.name id ∅ (infos.mapIdx fun i hi => restored (env.port i) hi), ∅) := by
  have read : ((splitBlocks ((stream infos).splitOn 10)).mapIdx fun i block =>
      parseBlock (env.port i) block) = infos.mapIdx fun i hi => restored (env.port i) hi := by
    rw [splitBlocks_stream infos storable]
    apply List.ext_getElem (by simp)
    intro i first second
    have inside : i < infos.length := by simpa using second
    simp only [List.getElem_mapIdx, List.getElem_map]
    exact parseBlock_blockLines _ _ (storable _ (List.getElem_mem inside))
  have inserted (list : List HostInfo) (maps : Hosts × Hosts) (good : ∀ hi ∈ list, Storable hi) :
      list.foldl insertNames maps = (MapFold.insertAll HostInfo.name id maps.1 list, maps.2) := by
    induction list generalizing maps with
    | nil => rfl
    | cons hi list ih =>
      rw [List.foldl_cons, insertNames_storable maps hi (good hi (by simp)),
        ih _ (fun other member => good other (by simp [member]))]
      rfl
  rw [readMaps, read, inserted]
  intro hi member
  obtain ⟨i, inside, rfl⟩ := List.mem_mapIdx.mp member
  exact Storable.restored _ (storable _ (List.getElem_mem inside)) _

theorem mem_sortedKeys : name ∈ sortedKeys hosts ↔ ∃ hi, hosts.lookup name = some hi := by
  rw [sortedKeys, Finset.mem_sort, Finmap.mem_keys, Finmap.mem_iff]

theorem value_eq (stored : hosts.lookup name = some hi) : value hosts name = hi := by
  rw [value, stored, Option.getD_some]

/-- The entries in the order of their names. -/
def sortedEntries (hosts : Hosts) : List Entry :=
  (sortedKeys hosts).map fun name => ⟨name, value hosts name⟩

theorem sortedEntries_entries : (sortedEntries hosts : Multiset Entry) = hosts.entries := by
  have distinct : (sortedEntries hosts).Nodup := by
    apply List.Nodup.map
    · intro first second same
      exact congrArg Sigma.fst same
    · exact Finset.sort_nodup _ _
  apply (Multiset.Nodup.ext (Multiset.coe_nodup.mpr distinct) hosts.nodup_entries).mpr
  intro given
  obtain ⟨name, hi⟩ := given
  rw [Multiset.mem_coe, sortedEntries, List.mem_map, ← Finmap.lookup_eq_some_iff]
  refine ⟨?_, ?_⟩
  · intro given
    obtain ⟨key, inside, same⟩ := given
    obtain ⟨stored, known⟩ := (mem_sortedKeys hosts key).mp inside
    rw [value_eq hosts key stored known] at same
    cases same
    exact known
  · intro known
    exact ⟨name, (mem_sortedKeys hosts name).mpr ⟨hi, known⟩, by rw [value_eq hosts name hi known]⟩

/-- The environment that walks a hash by name and finds `port` everywhere in fresh memory. -/
def sortedEnv (port : Int32) : Env where
  order := sortedEntries
  order_entries := sortedEntries_entries
  port := fun _ => port
  tmpPort := fun _ => port

theorem written_storable (storable : ∀ name hi, hosts.lookup name = some hi → Storable hi) :
    ∀ hi ∈ written hosts, Storable hi := by
  intro hi member
  obtain ⟨key, inside, rfl⟩ := List.mem_map.mp member
  obtain ⟨hi, stored⟩ := (mem_sortedKeys hosts key).mp inside
  rw [value_eq hosts key hi stored]
  exact storable key hi stored

theorem written_name (named : Named hosts) (i : Nat) (inside : i < (written hosts).length) :
    ∃ bound : i < (sortedKeys hosts).length,
      ((written hosts)[i]).name = (sortedKeys hosts)[i] ∧
      hosts.lookup (sortedKeys hosts)[i] = some (written hosts)[i] := by
  have bound : i < (sortedKeys hosts).length := by simpa [written] using inside
  obtain ⟨hi, stored⟩ := (mem_sortedKeys hosts _).mp (List.getElem_mem bound)
  have same : (written hosts)[i] = hi := by
    simp only [written, List.getElem_map]
    exact value_eq hosts _ hi stored
  exact ⟨bound, by rw [same, named _ _ stored], by rw [same, stored]⟩

/-- Every entry of a written file is read back, for every order of the hashes. -/
theorem lookup_parse_toStream (hosts : Hosts) (named : Named hosts)
    (storable : ∀ name hi, hosts.lookup name = some hi → Storable hi) (name : QString) :
    ∃ i, (parse env (toStream hosts)).lookup name =
      (hosts.lookup name).map (restored (env.port i)) := by
  have found (item : HostInfo)
      (member : item ∈ (written hosts).mapIdx fun i hi => restored (env.port i) hi) :
      ∃ i, (hosts.lookup item.name).map (restored (env.port i)) = some item := by
    obtain ⟨i, inside, rfl⟩ := List.mem_mapIdx.mp member
    obtain ⟨bound, here, stored⟩ := written_name hosts named i inside
    have lookup : hosts.lookup (restored (env.port i) (written hosts)[i]).name =
        some (written hosts)[i] := by
      rw [← stored]
      exact congrArg hosts.lookup here
    exact ⟨i, by rw [lookup, Option.map_some]⟩
  have merged : mergeWildcard env ∅ name = id := funext (mergeWildcard_empty env name)
  rw [toStream_eq, lookup_parse, readMaps_stream env _ (written_storable hosts storable), merged,
    Option.map_id, id]
  rcases MapFold.lookup_insertAll_cases HostInfo.name id ∅
    ((written hosts).mapIdx fun i hi => restored (env.port i) hi) name with
    ⟨missing, absent⟩ | ⟨item, member, rfl, stored⟩
  · cases known : hosts.lookup name with
    | none => exact ⟨0, missing⟩
    | some hi =>
      have key : name ∈ sortedKeys hosts := (mem_sortedKeys hosts name).mpr ⟨hi, known⟩
      obtain ⟨i, inside, rfl⟩ := List.mem_iff_getElem.mp key
      have bound : i < (written hosts).length := by simpa [written] using inside
      obtain ⟨_, here, _⟩ := written_name hosts named i bound
      exact absurd here (absent (restored (env.port i) (written hosts)[i])
        (List.mem_mapIdx.mpr ⟨i, bound, rfl⟩))
  · obtain ⟨i, same⟩ := found item member
    exact ⟨i, by rw [stored, same]; rfl⟩

/-- A session that comes back from the file as it was. -/
structure Stable (hi : HostInfo) : Prop where
  storable : Storable hi
  kept : ∀ port, restored port hi = hi

def StableMap (hosts : Hosts) : Prop :=
  ∀ name hi, hosts.lookup name = some hi → hi.name = name ∧ Stable hi

theorem StableMap.empty : StableMap ∅ := by
  intro name hi stored
  simp at stored

theorem StableMap.insert (stable : StableMap hosts) (info : Stable hi) : StableMap (hosts.insert hi.name hi) :=
  MapFold.forall_insert (fun name (hi : HostInfo) => hi.name = name ∧ Stable hi) hosts hi.name hi stable ⟨rfl, info⟩

theorem StableMap.erase (gone : QString) (stable : StableMap hosts) : StableMap (hosts.erase gone) :=
  MapFold.forall_erase (fun name (hi : HostInfo) => hi.name = name ∧ Stable hi) hosts gone stable

theorem parse_toStream (hosts : Hosts) (stable : StableMap hosts) : parse env (toStream hosts) = hosts := by
  apply Finmap.ext_lookup
  intro name
  obtain ⟨i, same⟩ := lookup_parse_toStream env hosts (fun name hi stored => (stable name hi stored).1)
    (fun name hi stored => (stable name hi stored).2.storable) name
  rw [same]
  cases known : hosts.lookup name with
  | none => rfl
  | some hi => rw [Option.map_some, (stable name hi known).2.kept]

end Woterm.SshConf.RoundTrip
