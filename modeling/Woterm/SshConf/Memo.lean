import Woterm.SshConf.Independent
import Woterm.SshConf.Merge

/-!
Where the memo of a session comes from: the comments right above its `Host` line, then those among the
indented lines below it. The loop that collects the comments above runs backwards and ends before line 0,
so a run of comments that begins the file loses its first line, and no other run loses any.
-/

namespace Woterm.SshConf.Memo
open Woterm.Lib Woterm.Lib.Text Woterm.Qt Woterm.Qt.QString
open Woterm.SshConf.Format Woterm.SshConf.RoundTrip Woterm.SshConf.Blocks Woterm.SshConf.Merge
open Woterm.SshConf.Independent

/-- A text that starts with `#`, without it and without the blanks at its end. -/
def remark (text : QString) : QString := (text.drop 1).rdropWhile QChar.isSpace

/-- The comment of an indented line, if it is one. -/
def innerRemark (line : QByteArray) : Option QString :=
  let text := (ofByteArray line).dropWhile QChar.isSpace
  if startsWith text ['#'] then some (remark text) else none

/-- The comments in the lines right above a `Host` line. -/
def above (front : List QByteArray) : List QString :=
  (front.rtakeWhile isComment).map fun line => remark (ofByteArray line)

/-- The comments in the lines of the block below it. -/
def inside (back : List QByteArray) : List QString := (back.takeWhile isIndented).filterMap innerRemark

/-- The run above the `Host` line does not begin the file, or all there is to lose is one empty comment. -/
def Kept (front back : List QByteArray) : Prop :=
  front = [] ∨ (∃ line ∈ front, isComment line = false) ∨ above front ++ inside back = [[]]

/-- The memo line that a line of a block gives. -/
def noted (text : QString) : Option QString :=
  if startsWith (trimmed text) ['#'] then some (mid (trimmed text) 1) else none

theorem parseItem_memos (state : HostInfo × List QString) (text : QString) :
    (parseItem state text).2 = state.2 ++ (noted text).toList := by
  unfold parseItem noted
  dsimp only
  cases found : directives.find? fun directive => startsWith (trimmed text) directive.label with
  | none =>
    dsimp only
    split <;> simp
  | some directive =>
    have first := List.find?_some found
    have start := List.isPrefixOf_iff_prefix.mp first
    have labels : ∀ label ∈ directives.map Directive.label, 1 ≤ label.length ∧ ¬ ['#'] <+: label := by decide
    obtain ⟨size, solid⟩ := labels _ (List.mem_map_of_mem (List.mem_of_find?_eq_some found))
    have plain : ¬ startsWith (trimmed text) ['#'] = true := fun comment =>
      solid (List.prefix_of_prefix_length_le (List.isPrefixOf_iff_prefix.mp comment) start size)
    dsimp only
    rw [if_neg plain]
    exact (List.append_nil _).symm

theorem foldl_parseItem_memos (texts : List QString) (state : HostInfo × List QString) :
    (texts.foldl parseItem state).2 = state.2 ++ texts.filterMap noted := by
  induction texts generalizing state with
  | nil => simp
  | cons text texts ih =>
    rw [List.foldl_cons, ih, parseItem_memos, List.append_assoc, List.filterMap_cons]
    cases noted text <;> rfl

theorem noted_eq (text : QString) :
    noted text =
      if startsWith (text.dropWhile QChar.isSpace) ['#'] then some (remark (text.dropWhile QChar.isSpace)) else none := by
  rw [noted, trimmed, trim]
  cases start : startsWith (text.dropWhile QChar.isSpace) ['#'] with
  | true =>
    obtain ⟨rest, whole⟩ := List.isPrefixOf_iff_prefix.mp start
    have single : ['#'].rdropWhile QChar.isSpace = ['#'] := by decide
    have cut : (['#'] ++ rest).rdropWhile QChar.isSpace = '#' :: rest.rdropWhile QChar.isSpace := by
      rw [rdropWhile_append, single]
      split
      · rename_i empty
        rw [empty]
      · rfl
    rw [← whole, cut]
    rfl
  | false =>
    rw [if_neg Bool.false_ne_true, if_neg]
    intro comment
    have longer := (List.isPrefixOf_iff_prefix.mp comment).trans (List.rdropWhile_prefix QChar.isSpace _)
    exact absurd (start.symm.trans (List.isPrefixOf_iff_prefix.mpr longer)) Bool.false_ne_true

variable (line : QByteArray)

theorem noted_comment (comment : isComment line = true) :
    noted (ofByteArray line) = some (remark (ofByteArray line)) := by
  obtain ⟨rest, text⟩ := comment_text line comment
  rw [noted_eq, text]
  rfl

theorem noted_host (host : isHost line = true) : noted (ofByteArray line) = none := by
  obtain ⟨rest, text⟩ := host_text line host
  rw [noted_eq, text]
  rfl

/-- The loop over the lines above the `Host` line passes over line 0. -/
theorem commentsAbove_eq (front : List QByteArray) :
    commentsAbove front.reverse = (front.tail.rtakeWhile isComment).map ofByteArray := by
  rw [commentsAbove, List.dropLast_reverse, ← List.map_reverse]
  rfl

theorem parseBlock_memo (port : Int32) (front : List QByteArray) (host : QByteArray) (back : List QByteArray)
    (known : isHost host = true) :
    (parseBlock port (blockAt front.reverse host back)).memo = join (above front.tail ++ inside back) ['\n'] := by
  have heading : ((front.tail.rtakeWhile isComment).map ofByteArray).filterMap noted = above front.tail := by
    rw [List.filterMap_map, above, ← List.filterMap_eq_map]
    apply List.filterMap_congr
    intro line member
    exact noted_comment line (List.mem_rtakeWhile_imp member)
  have inner : ((back.takeWhile isIndented).map ofByteArray).filterMap noted = inside back := by
    rw [List.filterMap_map, inside]
    apply List.filterMap_congr
    intro line _
    exact noted_eq (ofByteArray line)
  have memos := foldl_parseItem_memos (blockAt front.reverse host back) ({ port }, [])
  rw [blockAt, commentsAbove_eq, List.filterMap_append, List.filterMap_cons, noted_host host known, heading, inner]
    at memos
  rw [parseBlock, blockAt, commentsAbove_eq, memos]
  rfl

theorem join_tail (line : QString) (lines : List QString) :
    join lines ['\n'] = join (line :: lines) ['\n'] ↔ line :: lines = [[]] := by
  cases lines with
  | nil => simp [join, eq_comm]
  | cons next lines =>
    have longer : (join (line :: next :: lines) ['\n']).length =
        line.length + 1 + (join (next :: lines) ['\n']).length := by
      simp [join, List.intercalate]
      omega
    constructor
    · intro same
      have sizes := congrArg List.length same
      omega
    · simp

theorem above_cons (lines : List QByteArray) :
    above (line :: lines) =
      if ∀ other ∈ line :: lines, isComment other = true then remark (ofByteArray line) :: above lines
      else above lines := by
  rw [above, rtakeWhile_cons]
  split
  · rename_i all
    have later : ∀ other ∈ lines, isComment other = true := fun other member => all other (List.mem_cons_of_mem _ member)
    rw [above, List.map_cons, List.rtakeWhile_eq_self_iff.mpr later]
  · rfl

/-- The memo of a block is made of all its comments exactly when those above are kept. -/
theorem memo_kept_iff (front back : List QByteArray) :
    join (above front.tail ++ inside back) ['\n'] = join (above front ++ inside back) ['\n'] ↔ Kept front back := by
  cases front with
  | nil => simp [Kept]
  | cons line lines =>
    rw [Kept, List.tail_cons, above_cons]
    by_cases all : ∀ other ∈ line :: lines, isComment other = true
    · rw [if_pos all, List.cons_append, join_tail]
      have none : ¬ ∃ other ∈ line :: lines, isComment other = false := by
        rintro ⟨other, member, plain⟩
        exact absurd (plain.symm.trans (all other member)) Bool.false_ne_true
      exact ⟨fun same => .inr (.inr same), fun kept => (kept.resolve_left (List.cons_ne_nil _ _)).resolve_left none⟩
    · rw [if_neg all]
      have plain : ∃ other ∈ line :: lines, isComment other = false := by
        simpa only [not_forall, exists_prop, Bool.not_eq_true] using all
      exact ⟨fun _ => .inr (.inl plain), fun _ => rfl⟩

theorem isIndented_of_isComment (comment : isComment line = true) : isIndented line = false := by
  obtain ⟨rest, rfl⟩ := List.isPrefixOf_iff_prefix.mp comment
  rfl

theorem isComment_of_isHost (host : isHost line = true) : isComment line = false := by
  obtain ⟨rest, rfl⟩ := List.isPrefixOf_iff_prefix.mp host
  rfl

theorem indented_then_comments (lines : List QByteArray) :
    ∃ gap, lines = lines.takeWhile isIndented ++ gap ++ lines.rtakeWhile isComment := by
  have whole : lines.takeWhile isIndented ++ lines.dropWhile isIndented = lines := List.takeWhile_append_dropWhile
  have last : lines.dropWhile isIndented <:+ lines := List.dropWhile_suffix _
  have run : lines.rtakeWhile isComment <:+ lines := List.rtakeWhile_suffix _ _
  have later : lines.rtakeWhile isComment <:+ lines.dropWhile isIndented := by
    rcases List.suffix_or_suffix_of_suffix run last with short | ⟨front, long⟩
    · exact short
    · -- A line of the run in front of the rest would be indented.
      have none : front = [] := by
        rw [List.eq_nil_iff_forall_not_mem]
        intro line member
        have comment : isComment line = true :=
          List.mem_rtakeWhile_imp (long ▸ List.mem_append_left (lines.dropWhile isIndented) member)
        obtain ⟨before, split⟩ := run
        rw [← long, ← List.append_assoc] at split
        have indented : line ∈ lines.takeWhile isIndented := by
          rw [← List.append_cancel_right (split.trans whole.symm)]
          exact List.mem_append_right _ member
        exact absurd ((isIndented_of_isComment line comment).symm.trans (List.mem_takeWhile_imp indented))
          Bool.false_ne_true
      rw [← long, none, List.nil_append]
  obtain ⟨gap, rest⟩ := later
  refine ⟨gap, ?_⟩
  rw [List.append_assoc, rest, whole]

theorem between_hosts (front : List QByteArray) (host : QByteArray) (between : List QByteArray) (other : QByteArray)
    (rest : List QByteArray) (known : isHost host = true) (next : isHost other = true) :
    ∃ gap, between = (between ++ other :: rest).takeWhile isIndented ++ gap ++
      (front ++ host :: between).rtakeWhile isComment := by
  have below : (between ++ other :: rest).takeWhile isIndented = between.takeWhile isIndented :=
    takeWhile_append_stop _ _ _ (isIndented_of_isHost other next)
  have run : (front ++ host :: between).rtakeWhile isComment = between.rtakeWhile isComment := by
    rw [List.rtakeWhile, List.reverse_append, List.reverse_cons, List.append_assoc, List.singleton_append,
      takeWhile_append_stop _ _ _ (isComment_of_isHost host known)]
    rfl
  rw [below, run]
  exact indented_then_comments between

theorem hostBlocks_length (before lines : List QByteArray) :
    (hostBlocks before lines).length = lines.countP isHost := by
  induction lines generalizing before with
  | nil => rfl
  | cons line lines ih =>
    cases host : isHost line with
    | true => rw [hostBlocks_host _ _ _ host, List.length_cons, ih, List.countP_cons_of_pos host]
    | false => rw [hostBlocks_other _ _ _ host, ih, List.countP_cons_of_neg (by simp [host])]

theorem blockAt_mem_zipIdx (buf : QByteArray) (front : List QByteArray) (host : QByteArray) (back : List QByteArray)
    (cut : buf.splitOn 10 = front ++ host :: back) (known : isHost host = true) :
    (blockAt front.reverse host back, front.countP isHost) ∈ (fileBlocks buf).zipIdx := by
  rw [List.mk_mem_zipIdx_iff_getElem?, fileBlocks, splitBlocks_eq, cut,
    hostBlocks_append _ _ _ _ (isIndented_of_isHost host known), hostBlocks_host _ _ _ known,
    ← hostBlocks_length [] front, List.append_nil, List.getElem?_append_right le_rfl, Nat.sub_self]
  rfl

theorem session_memo (env : Env) (buf : QByteArray) (front : List QByteArray) (host : QByteArray)
    (back : List QByteArray) (known : isHost host = true) (name : QString) (plain : '*' ∉ name) (i : Nat)
    (last : owner buf name = some (blockAt front.reverse host back, i)) :
    ∃ hi, (parse env buf).lookup name = some hi ∧ hi.memo = join (above front.tail ++ inside back) ['\n'] := by
  refine ⟨mergeWildcard env (readMaps env buf).2 name (session env name (blockAt front.reverse host back, i)), ?_, ?_⟩
  · rw [lookup_parse, (lookup_readMaps env buf name).1, if_neg plain, last]
    rfl
  · rw [mergeWildcard_memo]
    exact parseBlock_memo _ front host back known

/-- The sessions of a `Host` line have its comments for their memo, all those above it and then those in its block,
exactly when no run of comments is cut at the beginning of the file; and no line serves two `Host` lines. -/
theorem memo_iff (buf : QByteArray) (front : List QByteArray) (host : QByteArray) (back : List QByteArray)
    (cut : buf.splitOn 10 = front ++ host :: back) (known : isHost host = true) :
    (blockAt front.reverse host back, front.countP isHost) ∈ (fileBlocks buf).zipIdx ∧
    (∀ name, '*' ∉ name → owner buf name = some (blockAt front.reverse host back, front.countP isHost) →
      ((∀ env, ∃ hi, (parse env buf).lookup name = some hi ∧
        hi.memo = join (above front ++ inside back) ['\n']) ↔ Kept front back)) ∧
    ∀ between other rest, back = between ++ other :: rest → isHost other = true →
      ∃ gap, between = back.takeWhile isIndented ++ gap ++ (front ++ host :: between).rtakeWhile isComment := by
  refine ⟨blockAt_mem_zipIdx buf front host back cut known, ?_, ?_⟩
  · intro name plain last
    have shown := fun env => session_memo env buf front host back known name plain _ last
    rw [← memo_kept_iff]
    constructor
    · intro always
      obtain ⟨hi, found, memo⟩ := always (sortedEnv 0)
      obtain ⟨other, again, actual⟩ := shown (sortedEnv 0)
      obtain rfl := Option.some.inj (found.symm.trans again)
      rw [← actual, memo]
    · intro same env
      rw [← same]
      exact shown env
  · rintro between other rest rfl next
    exact between_hosts front host between other rest known next

/-- A file that begins with an empty line, with comments above a `Host` line and inside of its block. -/
def commented : List QByteArray :=
  ["", "#one ", "# two", "Host web", "  #three", "  User root", ""].map fun line => toUtf8 line.toList

theorem memo_commented :
    owner ([10].intercalate commented) "web".toList =
      some (blockAt (commented.take 3).reverse (toUtf8 "Host web".toList) (commented.drop 4), 0) ∧
    ∀ env, ∃ hi, (parse env ([10].intercalate commented)).lookup "web".toList = some hi ∧
      hi.memo = "one\n two\nthree".toList := by
  have last : owner ([10].intercalate commented) "web".toList =
      some (blockAt (commented.take 3).reverse (toUtf8 "Host web".toList) (commented.drop 4), 0) := by decide +kernel
  refine ⟨last, ?_⟩
  have texts : join (above (commented.take 3) ++ inside (commented.drop 4)) ['\n'] = "one\n two\nthree".toList := by
    decide +kernel
  rw [← texts]
  exact ((memo_iff ([10].intercalate commented) (commented.take 3) (toUtf8 "Host web".toList) (commented.drop 4)
    (by decide +kernel) (by decide +kernel)).2.1 "web".toList (by decide) last).mpr
    (.inr (.inl ⟨[], by decide +kernel, by decide +kernel⟩))

/-- The same without the empty line: the first comment is gone. -/
theorem first_comment_dropped :
    ((parse (sortedEnv 0) ([10].intercalate commented.tail)).lookup "web".toList).map HostInfo.memo =
      some " two\nthree".toList ∧
    ¬ ∀ env, ∃ hi, (parse env ([10].intercalate commented.tail)).lookup "web".toList = some hi ∧
      hi.memo = join (above (commented.tail.take 2) ++ inside (commented.tail.drop 3)) ['\n'] := by
  have read : ((parse (sortedEnv 0) ([10].intercalate commented.tail)).lookup "web".toList).map HostInfo.memo =
      some " two\nthree".toList := by decide +kernel
  refine ⟨read, ?_⟩
  intro always
  obtain ⟨hi, found, memo⟩ := always (sortedEnv 0)
  rw [found, Option.map_some, memo] at read
  exact absurd read (by decide +kernel)

end Woterm.SshConf.Memo
