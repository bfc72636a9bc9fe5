import Woterm.SshConf.RoundTrip

/-!
What the parser can return. Whatever the file holds, every session in the result is
`Storable`: the texts come from single lines that end at a NUL, and every value is trimmed.
-/

namespace Woterm.SshConf.Parsed
open Woterm.Lib Woterm.Lib.Text Woterm.Qt Woterm.Qt.QString
open Woterm.SshConf.Format Woterm.SshConf.RoundTrip

/-- The part of `Storable` that is not about the name. -/
structure Readable (hi : HostInfo) : Prop where
  fields : ∀ text ∈ fields hi, Line text
  memo : ∀ line ∈ split hi.memo '\n', MemoLine line

/-- Text that comes from one line of the file. -/
structure Raw (text : QString) : Prop where
  single : Single text
  clean : NulFree text

theorem Raw.mono (text part : QString) (raw : Raw text) (inside : part ⊆ text) : Raw part :=
  ⟨fun member => raw.single (inside member), fun member => raw.clean (inside member)⟩

theorem Raw.trimmed_line (text : QString) (raw : Raw text) : Line (trimmed text) where
  single := fun member => raw.single (mem_of_mem_trim text _ member)
  clean := fun member => raw.clean (mem_of_mem_trim text _ member)
  trimmed := trimmed_trim text

theorem line_nil : Line [] := ⟨by simp [Single], by simp [NulFree], Text.Trimmed.nil⟩

/-! ## Blocks -/

/-- Everything the loop over the lines has kept is good. -/
structure Seen (good : QString → Prop) (scan : Scan) : Prop where
  before : ∀ line ∈ scan.before, good (ofByteArray line)
  blocks : ∀ block ∈ scan.blocks, ∀ text ∈ block, good text
  block : ∀ text ∈ scan.block, good text

variable (good : QString → Prop)

theorem Seen.done (scan : Scan) (seen : Seen good scan) : ∀ block ∈ scan.done, ∀ text ∈ block, good text := by
  unfold Scan.done flush
  split
  · exact seen.blocks
  · intro block member
    rcases List.mem_append.mp member with old | last
    · exact seen.blocks block old
    · rw [List.mem_singleton.mp last]
      exact seen.block

theorem forall_mem_concat (texts : List QString) (last : QString) (old : ∀ text ∈ texts, good text) (new : good last) :
    ∀ text ∈ texts ++ [last], good text := by
  intro text member
  rcases List.mem_append.mp member with inside | same
  · exact old text inside
  · rw [List.mem_singleton.mp same]
    exact new

theorem scanLine_seen (scan : Scan) (line : QByteArray) (seen : Seen good scan) (text : good (ofByteArray line)) :
    Seen good (scanLine scan line) := by
  have before : ∀ other ∈ line :: scan.before, good (ofByteArray other) := by
    intro other inside
    rcases List.mem_cons.mp inside with rfl | earlier
    · exact text
    · exact seen.before other earlier
  unfold scanLine
  split_ifs
  · refine ⟨before, seen.done, forall_mem_concat good _ _ (fun comment inside => ?_) text⟩
    obtain ⟨other, found, rfl⟩ := List.mem_map.mp (List.mem_reverse.mp inside)
    exact seen.before other ((List.dropLast_prefix _).subset ((List.takeWhile_prefix _).subset found))
  · exact ⟨before, seen.blocks, by simp⟩
  · exact ⟨before, seen.blocks, forall_mem_concat good _ _ seen.block text⟩
  · exact ⟨before, seen.done, by simp⟩

theorem splitBlocks_texts (lines : List QByteArray) (texts : ∀ line ∈ lines, good (ofByteArray line)) :
    ∀ block ∈ splitBlocks lines, ∀ text ∈ block, good text := by
  have initial : Seen good {} := ⟨by simp, by simp, by simp⟩
  have seen : Seen good (lines.foldl scanLine {}) :=
    List.foldlRecOn lines scanLine initial fun scan held line member =>
      scanLine_seen good scan line held (texts line member)
  exact seen.done

theorem splitBlocks_raw (buf : QByteArray) :
    ∀ block ∈ splitBlocks (buf.splitOn 10), ∀ text ∈ block, Raw text := by
  apply splitBlocks_texts
  intro line member
  exact ⟨ofByteArray_single line (of_mem_splitOn _ _ _ member).1, ofByteArray_nulFree line⟩

/-! ## Sessions -/

theorem directive_set (directive : Directive) (known : directive ∈ directives) (hi : HostInfo)
    (value text : QString)
    (member : text ∈ (directive.set hi value).name :: fields (directive.set hi value)) :
    text = value ∨ text ∈ hi.name :: fields hi := by
  simp only [directives, List.mem_cons, List.not_mem_nil, or_false] at known
  simp only [fields, List.mem_cons, List.not_mem_nil, or_false] at member ⊢
  rcases known with rfl | rfl | rfl | rfl | rfl | rfl | rfl | rfl <;> tauto

/-- What holds of the session and the memo lines inside the loop over a block. -/
structure Reading (state : HostInfo × List QString) : Prop where
  texts : ∀ text ∈ state.1.name :: fields state.1, Line text
  memos : ∀ line ∈ state.2, Single line ∧ MemoLine line

theorem Reading.initial (port : Int32) : Reading ({ port }, []) := by
  refine ⟨?_, by simp⟩
  intro text member
  have empty : text = [] := by simpa [fields] using member
  rw [empty]
  exact line_nil

theorem last_of_trimmed_drop (text : QString) (good : Qt.Trimmed text) :
    ∀ c ∈ (text.drop 1).getLast?, QChar.isSpace c = false := by
  intro c member
  apply good.last
  cases text with
  | nil => simp at member
  | cons a text =>
    cases text with
    | nil => simp at member
    | cons b text => simpa [List.getLast?_cons_cons] using member

theorem parseItem_reading (state : HostInfo × List QString) (text : QString) (held : Reading state)
    (raw : Raw text) : Reading (parseItem state text) := by
  have item := raw.trimmed_line text
  unfold parseItem
  dsimp only
  split
  · rename_i directive found
    have known := List.mem_of_find?_eq_some found
    have value : Line (trimmed (mid (trimmed text) directive.offset)) := by
      apply Raw.trimmed_line
      exact ⟨fun member => item.single ((mem_of_mem_mid _ _ _ member).resolve_left (by decide)),
        fun member => item.clean ((mem_of_mem_mid _ _ _ member).resolve_left (by decide))⟩
    refine ⟨fun other member => ?_, held.memos⟩
    rcases directive_set directive known state.1 _ other member with rfl | old
    · exact value
    · exact held.texts other old
  · split
    next comment =>
      refine ⟨held.texts, fun line member => ?_⟩
      rcases List.mem_append.mp member with old | last
      · exact held.memos line old
      · obtain ⟨rest, whole⟩ := List.isPrefixOf_iff_prefix.mp comment
        have behind : mid (trimmed text) 1 = (trimmed text).drop 1 := by
          rw [← whole]
          rfl
        rw [List.mem_singleton.mp last, behind]
        have inside := List.drop_subset 1 (trimmed text)
        exact ⟨fun c => item.single (inside c), fun c => item.clean (inside c),
          last_of_trimmed_drop _ item.trimmed⟩
    · exact held

theorem parseBlock_readable (port : Int32) (block : Block) (raw : ∀ text ∈ block, Raw text) :
    Line (parseBlock port block).name ∧ Readable (parseBlock port block) := by
  have held : Reading (block.foldl parseItem ({ port }, [])) :=
    List.foldlRecOn block parseItem (Reading.initial port) fun state held text member =>
      parseItem_reading state text held (raw text member)
  refine ⟨held.texts _ List.mem_cons_self, fun text member => held.texts text ?_, fun line member => ?_⟩
  · exact List.mem_cons_of_mem _ member
  · cases memos : (block.foldl parseItem ({ port }, [])).2 with
    | nil =>
      have empty : (parseBlock port block).memo = [] := by simp [parseBlock, memos, join]
      rw [empty] at member
      have same : line = [] := by simpa [split] using member
      rw [same]
      exact ⟨by simp [NulFree], by simp⟩
    | cons first rest =>
      have lines : split (parseBlock port block).memo '\n' = first :: rest := by
        rw [parseBlock, memos]
        apply List.splitOn_intercalate
        · intro part inside
          exact (held.memos part (by rw [memos]; exact inside)).1
        · simp
      rw [lines, ← memos] at member
      exact (held.memos line member).2

theorem copyHostInfo_readable (dst src : HostInfo) (first : Readable dst) (second : Readable src) :
    Readable (copyHostInfo dst src) := by
  refine ⟨fun text member => ?_, first.memo⟩
  have old := first.fields
  have new := second.fields
  simp only [fields, List.mem_cons, List.not_mem_nil, or_false, forall_eq_or_imp, forall_eq,
    copyHostInfo] at member old new
  rcases member with rfl | rfl | rfl | rfl | rfl | rfl <;> first | split_ifs <;> tauto | tauto

theorem mergeWildcard_readable (env : Env) (wildcard : Hosts) (name : QString) (hi : HostInfo)
    (readable : Readable hi) (others : ∀ key other, wildcard.lookup key = some other → Readable other) :
    Readable (mergeWildcard env wildcard name hi) := by
  have entry (item : Entry) (member : item ∈ env.order wildcard) : Readable item.2 := by
    apply others item.1
    rw [Finmap.lookup_eq_some_iff, ← env.order_entries, Multiset.mem_coe]
    exact member
  have blank : Readable { port := env.tmpPort name } :=
    ⟨fun text member => (Reading.initial _).texts text (List.mem_cons_of_mem _ member),
      fun line member => by
        have same : line = [] := by simpa [split] using member
        rw [same]
        exact ⟨by simp [NulFree], by simp⟩⟩
  unfold mergeWildcard
  dsimp only
  split_ifs
  · exact readable
  · apply copyHostInfo_readable hi _ readable
    refine List.foldlRecOn _ _ blank fun tmp held item member => ?_
    exact copyHostInfo_readable tmp item.2 held (entry item (List.mem_of_mem_filter member))

/-- The sessions in `common` are storable; those in `wildcard` only lack the condition on
the name. -/
structure Maps (maps : Hosts × Hosts) : Prop where
  common : ∀ name hi, maps.1.lookup name = some hi → Storable hi
  wildcard : ∀ name hi, maps.2.lookup name = some hi → Readable hi

theorem insertName_maps (hi : HostInfo) (maps : Hosts × Hosts) (part : QString) (held : Maps maps)
    (name : Raw hi.name) (readable : Readable hi) (piece : part ∈ split hi.name ' ') :
    Maps (insertName hi maps part) := by
  obtain ⟨unbroken, inside⟩ := of_mem_splitOn ' ' hi.name part piece
  have line : Line (trimmed part) := (name.mono _ _ inside).trimmed_line
  have renamed : Readable { hi with name := trimmed part } := ⟨readable.fields, readable.memo⟩
  unfold insertName
  dsimp only
  split_ifs with empty star
  · exact held
  · exact ⟨held.common, MapFold.forall_insert (fun _ => Readable) _ _ _ held.wildcard renamed⟩
  · refine ⟨MapFold.forall_insert (fun _ => Storable) _ _ _ held.common ?_, held.wildcard⟩
    exact {
      named := by simpa using empty
      name := line
      blank := fun member => unbroken (mem_of_mem_trim part _ member)
      star := star
      fields := readable.fields
      memo := readable.memo }

theorem readMaps_maps (env : Env) (buf : QByteArray) : Maps (readMaps env buf) := by
  have initial : Maps (∅, ∅) := ⟨fun name hi stored => by simp at stored, fun name hi stored => by simp at stored⟩
  refine List.foldlRecOn _ insertNames initial fun maps held hi member => ?_
  obtain ⟨i, inside, rfl⟩ := List.mem_mapIdx.mp member
  obtain ⟨name, readable⟩ := parseBlock_readable (env.port i) _
    (splitBlocks_raw buf _ (List.getElem_mem inside))
  exact List.foldlRecOn _ _ held fun maps held part piece =>
    insertName_maps _ maps part held ⟨name.single, name.clean⟩ readable piece

/-- Every session the parser returns could be saved and read again. -/
theorem parse_storable (env : Env) (buf : QByteArray) (name : QString) (hi : HostInfo)
    (stored : (parse env buf).lookup name = some hi) : hi.name = name ∧ Storable hi := by
  rw [lookup_parse] at stored
  obtain ⟨common, found, rfl⟩ := Option.map_eq_some_iff.mp stored
  have maps := readMaps_maps env buf
  have storable := maps.common name common found
  have same := mergeWildcard_name env (readMaps env buf).2 name common
  have readable := mergeWildcard_readable env (readMaps env buf).2 name common
    ⟨storable.fields, storable.memo⟩ maps.wildcard
  rw [same, (readMaps_named env buf).1 name common found]
  refine ⟨rfl, ?_, ?_, ?_, ?_, readable.fields, readable.memo⟩ <;> rw [same]
  · exact storable.named
  · exact storable.name
  · exact storable.blank
  · exact storable.star

end Woterm.SshConf.Parsed
