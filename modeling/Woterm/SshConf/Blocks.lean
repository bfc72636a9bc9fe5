import Woterm.Lib.Overwrite
import Woterm.SshConf.RoundTrip

/-!
The session file seen as a list of blocks. The loop over the lines cuts out one block for each
`Host` line, the comments right above it and the indented lines right below it; a session is read
from the last block that names it. The only thing the file may leave open is a port that no line of
the block sets.
-/

namespace Woterm.SshConf.Blocks
open Woterm.Lib Woterm.Lib.Text Woterm.Lib.Overwrite Woterm.Qt Woterm.Qt.QString
open Woterm.SshConf.Format Woterm.SshConf.RoundTrip

/-! ## Lines -/

def isHost (line : QByteArray) : Bool := (toUtf8 "Host ".toList).isPrefixOf line

def isIndented (line : QByteArray) : Bool := (toUtf8 [' ']).isPrefixOf line || (toUtf8 ['\t']).isPrefixOf line

def isComment (line : QByteArray) : Bool := (toUtf8 ['#']).isPrefixOf line

theorem isIndented_of_isHost (line : QByteArray) (host : isHost line = true) : isIndented line = false := by
  obtain ⟨rest, rfl⟩ := List.isPrefixOf_iff_prefix.mp host
  rfl

/-- The block of a `Host` line, given the lines before it (last one first) and after it. -/
def blockAt (before : List QByteArray) (line : QByteArray) (after : List QByteArray) : Block :=
  commentsAbove before ++ ofByteArray line :: (after.takeWhile isIndented).map ofByteArray

/-- One block for each `Host` line. -/
def hostBlocks : List QByteArray → List QByteArray → List Block
  | _, [] => []
  | before, line :: after =>
    if isHost line then blockAt before line after :: hostBlocks (line :: before) after
    else hostBlocks (line :: before) after

theorem hostBlocks_host (before : List QByteArray) (line : QByteArray) (after : List QByteArray)
    (host : isHost line = true) :
    hostBlocks before (line :: after) = blockAt before line after :: hostBlocks (line :: before) after := by
  rw [hostBlocks, if_pos host]

theorem hostBlocks_other (before : List QByteArray) (line : QByteArray) (after : List QByteArray)
    (other : isHost line = false) : hostBlocks before (line :: after) = hostBlocks (line :: before) after := by
  rw [hostBlocks, if_neg (by simp [other])]

/-- The open block with the indented lines that still belong to it. -/
def extend (block : Block) (lines : List QByteArray) : Block :=
  if block.isEmpty then [] else block ++ (lines.takeWhile isIndented).map ofByteArray

theorem extend_stop (block : Block) (line : QByteArray) (lines : List QByteArray)
    (stop : isIndented line = false) : extend block (line :: lines) = block := by
  cases block <;> simp [extend, stop]

theorem extend_indented (block : Block) (line : QByteArray) (lines : List QByteArray)
    (indented : isIndented line = true) :
    extend (if block.isEmpty then [] else block ++ [ofByteArray line]) lines = extend block (line :: lines) := by
  cases block <;> simp [extend, indented]

theorem scanLine_eq (scan : Scan) (line : QByteArray) :
    scanLine scan line =
      if isHost line then
        { before := line :: scan.before
          blocks := flush scan.blocks scan.block
          block := commentsAbove scan.before ++ [ofByteArray line] }
      else if isIndented line then
        { scan with
          before := line :: scan.before
          block := if scan.block.isEmpty then [] else scan.block ++ [ofByteArray line] }
      else { before := line :: scan.before, blocks := flush scan.blocks scan.block, block := [] } := rfl

/-- The loop over the lines finishes the open block and then yields the block of every `Host` line. -/
theorem foldl_scanLine (lines : List QByteArray) (scan : Scan) :
    (lines.foldl scanLine scan).done =
      flush scan.blocks (extend scan.block lines) ++ hostBlocks scan.before lines := by
  induction lines generalizing scan with
  | nil =>
    have whole : extend scan.block [] = scan.block := by cases scan.block <;> simp [extend]
    simp [whole, hostBlocks, Scan.done]
  | cons line lines ih =>
    rw [List.foldl_cons, ih, scanLine_eq]
    cases host : isHost line with
    | true =>
      have opened : extend (commentsAbove scan.before ++ [ofByteArray line]) lines =
          blockAt scan.before line lines := by
        simp [extend, blockAt]
      rw [if_pos rfl, hostBlocks_host _ _ _ host, extend_stop _ _ _ (isIndented_of_isHost line host)]
      dsimp only
      rw [opened, flush_open _ _ (by simp [blockAt])]
      simp
    | false =>
      rw [if_neg Bool.false_ne_true, hostBlocks_other _ _ _ host]
      cases indented : isIndented line with
      | true =>
        rw [if_pos rfl]
        dsimp only
        rw [extend_indented _ _ _ indented]
      | false =>
        rw [if_neg Bool.false_ne_true, extend_stop _ _ _ indented]
        rfl

theorem splitBlocks_eq (lines : List QByteArray) : splitBlocks lines = hostBlocks [] lines :=
  foldl_scanLine lines {}

theorem hostBlocks_append (before front : List QByteArray) (line : QByteArray) (after : List QByteArray)
    (stop : isIndented line = false) :
    hostBlocks before (front ++ line :: after) =
      hostBlocks before front ++ hostBlocks (front.reverse ++ before) (line :: after) := by
  induction front generalizing before with
  | nil => rfl
  | cons first front ih =>
    have run := takeWhile_append_stop front line after stop
    rw [List.cons_append]
    cases host : isHost first with
    | true =>
      rw [hostBlocks_host _ _ _ host, hostBlocks_host _ _ _ host, ih, blockAt, blockAt, run]
      simp
    | false =>
      rw [hostBlocks_other _ _ _ host, hostBlocks_other _ _ _ host, ih]
      simp

/-! ## Ports -/

/-- The port that a line of a block sets. -/
def linePort (text : QString) : Option Int32 :=
  match directives.find? fun directive => startsWith (trimmed text) directive.label with
  | some directive =>
    if directive.label = "Port ".toList then some (toInt (trimmed (mid (trimmed text) directive.offset))) else none
  | none => none

/-- The port that a block sets. -/
def blockPort (block : Block) : Option Int32 := final linePort block

theorem blockPort_concat (block : Block) (text : QString) :
    blockPort (block ++ [text]) = (linePort text).or (blockPort block) := final_concat linePort block text

/-- A session with another port. -/
def withPort (port : Int32) (hi : HostInfo) : HostInfo := { hi with port }

theorem parseItem_port (hi : HostInfo) (memos : List QString) (port : Int32) (text : QString) :
    parseItem (withPort port hi, memos) text =
      (withPort ((linePort text).getD port) (parseItem (hi, memos) text).1, (parseItem (hi, memos) text).2) := by
  unfold parseItem linePort
  dsimp only
  cases found : directives.find? fun directive => startsWith (trimmed text) directive.label with
  | none =>
    dsimp only
    split <;> rfl
  | some directive =>
    have known := List.mem_of_find?_eq_some found
    simp only [directives, List.mem_cons, List.not_mem_nil, or_false] at known
    rcases known with rfl | rfl | rfl | rfl | rfl | rfl | rfl | rfl <;> rfl

theorem foldl_parseItem_port (block : Block) (hi : HostInfo) (memos : List QString) (port : Int32) :
    block.foldl parseItem (withPort port hi, memos) =
      (withPort ((blockPort block).getD port) (block.foldl parseItem (hi, memos)).1,
        (block.foldl parseItem (hi, memos)).2) := by
  induction block using List.reverseRecOn with
  | nil => rfl
  | append_singleton block text ih =>
    rw [List.foldl_concat, ih, parseItem_port, List.foldl_concat, blockPort_concat]
    cases linePort text <;> rfl

/-- The uninitialised port shows in a block that sets none, and nowhere else. -/
theorem parseBlock_port (port : Int32) (block : Block) :
    parseBlock port block = withPort ((blockPort block).getD port) (parseBlock 0 block) := by
  have read : block.foldl parseItem ({ port }, []) =
      (withPort ((blockPort block).getD port) (block.foldl parseItem ({ port := 0 }, [])).1,
        (block.foldl parseItem ({ port := 0 }, [])).2) := foldl_parseItem_port block { port := 0 } [] port
  rw [parseBlock, read]
  rfl

/-! ## Names -/

/-- The names of a session, as its `Host` line lists them. -/
def names (hi : HostInfo) : List QString := ((split hi.name ' ').map trimmed).filter fun name => !name.isEmpty

theorem mem_names (hi : HostInfo) (name : QString) :
    name ∈ names hi ↔ name ∈ (split hi.name ' ').map trimmed ∧ name ≠ [] := by
  simp [names]

/-- The session under one of its names. -/
def renamed (name : QString) (hi : HostInfo) : HostInfo := { hi with name }

theorem lookup_foldl_insertName (hi : HostInfo) (parts : List QString) (maps : Hosts × Hosts) (name : QString) :
    (parts.foldl (insertName hi) maps).1.lookup name =
        (if name ∈ parts.map trimmed ∧ name ≠ [] ∧ '*' ∉ name then some (renamed name hi) else maps.1.lookup name) ∧
      (parts.foldl (insertName hi) maps).2.lookup name =
        (if name ∈ parts.map trimmed ∧ name ≠ [] ∧ '*' ∈ name then some (renamed name hi)
          else maps.2.lookup name) := by
  induction parts using List.reverseRecOn with
  | nil => simp
  | append_singleton parts part ih =>
    obtain ⟨common, wildcard⟩ := ih
    rw [List.foldl_concat, insertName]
    by_cases same : name = trimmed part
    · subst same
      by_cases empty : trimmed part = []
      · simp only [empty, ne_eq, not_true_eq_false, false_and, and_false, if_false] at common wildcard ⊢
        exact ⟨common, wildcard⟩
      · by_cases star : '*' ∈ trimmed part
        · simp [empty, star, common, Finmap.lookup_insert, renamed]
        · simp [empty, star, wildcard, Finmap.lookup_insert, renamed]
    · have kept : name ∈ (parts ++ [part]).map trimmed ↔ name ∈ parts.map trimmed := by simp [same]
      simp only [kept, ← common, ← wildcard]
      split_ifs
      · exact ⟨rfl, rfl⟩
      · exact ⟨rfl, Finmap.lookup_insert_of_ne _ same⟩
      · exact ⟨Finmap.lookup_insert_of_ne _ same, rfl⟩

/-- What a session gives for a name of the map of sessions, or of the map of patterns. -/
def entryFor (pattern : Bool) (name : QString) (hi : HostInfo) : Option HostInfo :=
  if name ∈ names hi ∧ decide ('*' ∈ name) = pattern then some (renamed name hi) else none

theorem lookup_insertNames (maps : Hosts × Hosts) (hi : HostInfo) (name : QString) :
    (insertNames maps hi).1.lookup name = (entryFor false name hi).or (maps.1.lookup name) ∧
      (insertNames maps hi).2.lookup name = (entryFor true name hi).or (maps.2.lookup name) := by
  obtain ⟨common, wildcard⟩ := lookup_foldl_insertName hi (split hi.name ' ') maps name
  simp only [insertNames, common, wildcard, entryFor, mem_names, and_assoc, decide_eq_false_iff_not,
    decide_eq_true_eq]
  refine ⟨?_, ?_⟩ <;> split <;> rfl

theorem lookup_foldl_insertNames (infos : List HostInfo) (name : QString) :
    (infos.foldl insertNames (∅, ∅)).1.lookup name = final (entryFor false name) infos ∧
      (infos.foldl insertNames (∅, ∅)).2.lookup name = final (entryFor true name) infos := by
  induction infos using List.reverseRecOn with
  | nil => exact ⟨Finmap.lookup_empty name, Finmap.lookup_empty name⟩
  | append_singleton infos hi ih =>
    obtain ⟨common, wildcard⟩ := ih
    obtain ⟨stored, pattern⟩ := lookup_insertNames (infos.foldl insertNames (∅, ∅)) hi name
    rw [List.foldl_concat, stored, pattern, common, wildcard, final_concat, final_concat]
    exact ⟨rfl, rfl⟩

/-! ## The last block that names a session -/

def fileBlocks (buf : QByteArray) : List Block := splitBlocks (buf.splitOn 10)

def blockNames (block : Block) : List QString := names (parseBlock 0 block)

/-- The last block with the name on its `Host` line, and its position. -/
def owner (buf : QByteArray) (name : QString) : Option (Block × Nat) :=
  final (fun item : Block × Nat => if name ∈ blockNames item.1 then some item else none) (fileBlocks buf).zipIdx

theorem owner_of_named (buf : QByteArray) (name : QString) (block : Block) (inside : block ∈ fileBlocks buf)
    (named : name ∈ blockNames block) : ∃ item, owner buf name = some item := by
  apply Option.ne_none_iff_exists'.mp
  intro none
  obtain ⟨i, bound, rfl⟩ := List.mem_iff_getElem.mp inside
  have member : ((fileBlocks buf)[i], i) ∈ (fileBlocks buf).zipIdx := by
    rw [List.mem_zipIdx_iff_getElem?]
    exact List.getElem?_eq_getElem bound
  have absent := (final_eq_none_iff _ _).mp none _ member
  rw [if_pos named] at absent
  cases absent

theorem owner_mem (buf : QByteArray) (name : QString) (item : Block × Nat) (last : owner buf name = some item) :
    item ∈ (fileBlocks buf).zipIdx ∧ name ∈ blockNames item.1 := by
  obtain ⟨found, member, given⟩ := exists_of_final _ _ _ last
  split at given
  · rename_i named
    rw [← Option.some.inj given]
    exact ⟨member, named⟩
  · cases given

/-- The session that a block holds for a name, with what its port finds in memory. -/
def session (env : Env) (name : QString) (item : Block × Nat) : HostInfo :=
  renamed name (parseBlock (env.port item.2) item.1)

theorem session_eq (env : Env) (name : QString) (item : Block × Nat) :
    session env name item =
      withPort ((blockPort item.1).getD (env.port item.2)) (renamed name (parseBlock 0 item.1)) := by
  rw [session, parseBlock_port]
  rfl

theorem entryFor_parseBlock (pattern : Bool) (env : Env) (name : QString) (item : Block × Nat) :
    entryFor pattern name (parseBlock (env.port item.2) item.1) =
      if decide ('*' ∈ name) = pattern then
        (if name ∈ blockNames item.1 then some item else none).map (session env name) else none := by
  have same : names (parseBlock (env.port item.2) item.1) = blockNames item.1 := by
    rw [parseBlock_port]
    rfl
  rw [entryFor, same]
  by_cases known : name ∈ blockNames item.1 <;> simp [known, session]

theorem final_entryFor (pattern : Bool) (env : Env) (buf : QByteArray) (name : QString) :
    final (entryFor pattern name) ((fileBlocks buf).mapIdx fun i block => parseBlock (env.port i) block) =
      if decide ('*' ∈ name) = pattern then (owner buf name).map (session env name) else none := by
  rw [List.mapIdx_eq_zipIdx_map, final_map]
  simp only [entryFor_parseBlock]
  split
  · exact final_map_value _ _ _
  · exact (final_eq_none_iff _ _).mpr fun _ _ => rfl

theorem lookup_readMaps (env : Env) (buf : QByteArray) (name : QString) :
    (readMaps env buf).1.lookup name = (if '*' ∈ name then none else (owner buf name).map (session env name)) ∧
      (readMaps env buf).2.lookup name = if '*' ∈ name then (owner buf name).map (session env name) else none := by
  obtain ⟨common, wildcard⟩ := lookup_foldl_insertNames
    ((fileBlocks buf).mapIdx fun i block => parseBlock (env.port i) block) name
  rw [final_entryFor] at common wildcard
  refine ⟨common.trans ?_, wildcard.trans ?_⟩ <;> by_cases star : '*' ∈ name <;> simp [star]

end Woterm.SshConf.Blocks
