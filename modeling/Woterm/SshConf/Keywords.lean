import Woterm.SshConf.Independent

/-!
What sets the fields of a session. A line of a block is meant to set the field whose keyword is its
first word, to the rest of the line. The parser compares beginnings instead, some with the blank behind
the keyword and some without it, so a longer word can pass for a keyword and a keyword before a tab
for none. The lines that are read as they are meant are described exactly.
-/

namespace Woterm.SshConf.Keywords
open Woterm.Lib Woterm.Lib.Text Woterm.Lib.Overwrite Woterm.Qt Woterm.Qt.QString
open Woterm.SshConf.Format Woterm.SshConf.Blocks Woterm.SshConf.Independent

inductive Keyword where
  | hostName | port | user | identityFile | password | proxyJump | property
deriving DecidableEq, Repr

namespace Keyword

def word : Keyword → QString
  | .hostName => "HostName".toList
  | .port => "Port".toList
  | .user => "User".toList
  | .identityFile => "IdentityFile".toList
  | .password => "Password".toList
  | .proxyJump => "ProxyJump".toList
  | .property => "Property".toList

/-- The field a keyword stands for. -/
def get : Keyword → HostInfo → QString ⊕ Int32
  | .hostName, hi => .inl hi.host
  | .port, hi => .inr hi.port
  | .user, hi => .inl hi.user
  | .identityFile, hi => .inl hi.identityFile
  | .password, hi => .inl hi.password
  | .proxyJump, hi => .inl hi.proxyJump
  | .property, hi => .inl hi.property

/-- The value of the field that a text stands for. -/
def read : Keyword → QString → QString ⊕ Int32
  | .port, text => .inr (toInt text)
  | _, text => .inl text

/-- The keyword's branch in the chain of `parse`. -/
def branch : Keyword → Directive
  | .hostName => directives.get ⟨1, by decide⟩
  | .port => directives.get ⟨2, by decide⟩
  | .user => directives.get ⟨3, by decide⟩
  | .identityFile => directives.get ⟨4, by decide⟩
  | .password => directives.get ⟨5, by decide⟩
  | .proxyJump => directives.get ⟨6, by decide⟩
  | .property => directives.get ⟨7, by decide⟩

/-- The branch asks for a blank behind the keyword. -/
def separated : Keyword → Bool
  | .hostName | .port | .user | .identityFile => true
  | .password | .proxyJump | .property => false

variable (keyword : Keyword)

theorem branch_label : keyword.branch.label = if keyword.separated then keyword.word ++ [' '] else keyword.word := by
  cases keyword <;> rfl

/-- The hand-counted offsets all skip the keyword, some of them one more character. -/
theorem branch_offset :
    keyword.branch.offset = keyword.word.length ∨ keyword.branch.offset = keyword.word.length + 1 := by
  cases keyword <;> decide

theorem word_solid : ∀ c ∈ keyword.word, (!QChar.isSpace c) = true := by
  cases keyword <;> decide

theorem word_small : ∀ c ∈ keyword.word, c.toNat < 0x10000 := by
  cases keyword <;> decide

theorem branch_mem : keyword.branch ∈ directives := by
  cases keyword <;> exact List.get_mem directives _

theorem exists_get_ne (value : QString ⊕ Int32) : ∃ hi, keyword.get hi ≠ value := by
  by_contra constant
  have all := not_exists_not.mp constant
  have same : keyword.get {} = keyword.get ⟨[], ['x'], 1, ['x'], ['x'], ['x'], ['x'], [], ['x'], []⟩ :=
    (all _).trans (all _).symm
  cases keyword <;> cases same

end Keyword

/-- The first word of a line. -/
def token (text : QString) : QString := (trimmed text).takeWhile fun c => !QChar.isSpace c

/-- The rest of a line. -/
def argument (text : QString) : QString := trimmed ((trimmed text).dropWhile fun c => !QChar.isSpace c)

/-- What a line is meant to set a keyword's field to. -/
def given (keyword : Keyword) (text : QString) : Option QString :=
  if token text = keyword.word then some (argument text) else none

/-- Whatever was read so far, the line sets exactly the fields it gives a value, to that value. -/
def Sets (text : QString) (gives : Keyword → Option QString) : Prop :=
  ∀ state keyword, keyword.get (parseItem state text).1 =
    ((gives keyword).map keyword.read).getD (keyword.get state.1)

/-- A line whose keyword is told from the words around it: with a blank right behind it where the chain asks for
one, and not as the beginning of a longer word where it does not. -/
def Whole (text : QString) : Prop :=
  ∀ keyword : Keyword,
    if keyword.separated then
      token text = keyword.word → startsWith (trimmed text) (keyword.word ++ [' ']) = true
    else startsWith (trimmed text) keyword.word = true → token text = keyword.word

theorem label_unique (text : QString) (first second : Directive) (one : first ∈ directives) (two : second ∈ directives)
    (start : startsWith text first.label = true) (other : startsWith text second.label = true) :
    first.label = second.label := by
  have apart : ∀ a ∈ directives.map Directive.label, ∀ b ∈ directives.map Directive.label, a <+: b → a = b := by
    decide
  have inside := apart _ (List.mem_map_of_mem one) _ (List.mem_map_of_mem two)
  have around := apart _ (List.mem_map_of_mem two) _ (List.mem_map_of_mem one)
  exact (List.prefix_or_prefix_of_prefix (List.isPrefixOf_iff_prefix.mp start)
    (List.isPrefixOf_iff_prefix.mp other)).elim inside fun reverse => (around reverse).symm

theorem set_get (directive : Directive) (known : directive ∈ directives) (keyword : Keyword) (hi : HostInfo)
    (item : QString) :
    keyword.get (directive.set hi (trimmed (mid item directive.offset))) =
      if directive.label = keyword.branch.label then keyword.read (trimmed (mid item keyword.branch.offset))
      else keyword.get hi := by
  simp only [directives, List.mem_cons, List.not_mem_nil, or_false] at known
  rcases known with rfl | rfl | rfl | rfl | rfl | rfl | rfl | rfl
  all_goals cases keyword <;> rfl

theorem parseItem_get (keyword : Keyword) (state : HostInfo × List QString) (text : QString) :
    keyword.get (parseItem state text).1 =
      if startsWith (trimmed text) keyword.branch.label then
        keyword.read (trimmed (mid (trimmed text) keyword.branch.offset))
      else keyword.get state.1 := by
  unfold parseItem
  dsimp only
  cases found : directives.find? fun directive => startsWith (trimmed text) directive.label with
  | none =>
    rw [if_neg (List.find?_eq_none.mp found keyword.branch keyword.branch_mem)]
    dsimp only
    split <;> rfl
  | some directive =>
    have known := List.mem_of_find?_eq_some found
    have start := List.find?_some found
    dsimp only at start ⊢
    rw [set_get directive known]
    by_cases same : directive.label = keyword.branch.label
    · rw [if_pos same, if_pos (same ▸ start)]
    · rw [if_neg same, if_neg]
      exact fun other => same (label_unique _ _ _ known keyword.branch_mem start other)

/-- Behind its first word, skipping one character or none makes no difference to the rest of a line. -/
theorem trimmed_mid (text : QString) (position : Nat) (small : ∀ c ∈ token text, c.toNat < 0x10000)
    (skipped : position = (token text).length ∨ position = (token text).length + 1) :
    trimmed (mid (trimmed text) position) = argument text := by
  have cut : trimmed text = token text ++ (trimmed text).dropWhile fun c => !QChar.isSpace c :=
    (List.takeWhile_append_dropWhile).symm
  have after (n : Nat) : mid (trimmed text) ((token text).length + n) =
      mid ((trimmed text).dropWhile fun c => !QChar.isSpace c) n := by
    conv_lhs => rw [cut]
    exact mid_append _ _ n small
  rcases skipped with rfl | rfl
  · exact congrArg trimmed (after 0)
  · rw [after 1, argument]
    cases rest : (trimmed text).dropWhile fun c => !QChar.isSpace c with
    | nil => rfl
    | cons c rest' =>
      have blank : QChar.isSpace c = true := by
        have stop := List.head?_dropWhile_not (fun c => !QChar.isSpace c) (trimmed text)
        rw [rest] at stop
        simpa using stop
      exact (congrArg trimmed (if_pos (isSpace_small c blank))).trans (trim_cons_blank c rest' blank).symm

theorem startsWith_of_token (text word : QString) (first : token text = word) :
    startsWith (trimmed text) word = true := by
  rw [← first]
  exact List.isPrefixOf_iff_prefix.mpr (List.takeWhile_prefix _)

theorem token_of_startsWith (keyword : Keyword) (text : QString)
    (start : startsWith (trimmed text) (keyword.word ++ [' ']) = true) : token text = keyword.word := by
  obtain ⟨rest, whole⟩ := List.isPrefixOf_iff_prefix.mp start
  rw [token, ← whole, List.append_assoc, List.singleton_append, takeWhile_append_stop _ _ _ rfl]
  exact List.takeWhile_eq_self_iff.mpr keyword.word_solid

theorem whole_iff (text : QString) :
    Whole text ↔ ∀ keyword : Keyword,
      startsWith (trimmed text) keyword.branch.label = true ↔ token text = keyword.word := by
  refine forall_congr' fun keyword => ?_
  rw [keyword.branch_label]
  cases keyword.separated with
  | true => exact ⟨fun found => ⟨token_of_startsWith keyword text, found⟩, fun both => both.2⟩
  | false => exact ⟨fun found => ⟨found, startsWith_of_token text _⟩, fun both => both.1⟩

/-- The lines that are read as they are meant are the whole ones. -/
theorem sets_given_iff (text : QString) : Sets text (fun keyword => given keyword text) ↔ Whole text := by
  rw [whole_iff]
  constructor
  · intro meant keyword
    by_contra mixed
    have silent : ∀ value, ¬ ∀ state : HostInfo × List QString, keyword.get state.1 = value := by
      intro value always
      obtain ⟨hi, other⟩ := keyword.exists_get_ne value
      exact other (always (hi, []))
    have line := fun state => (parseItem_get keyword state text).symm.trans (meant state keyword)
    by_cases start : startsWith (trimmed text) keyword.branch.label = true
    · have longer : token text ≠ keyword.word := fun same => mixed ⟨fun _ => same, fun _ => start⟩
      exact silent _ fun state => by simpa [start, given, longer] using (line state).symm
    · have first : token text = keyword.word := by
        by_contra other
        exact mixed ⟨fun found => absurd found start, fun same => absurd same other⟩
      exact silent _ fun state => by simpa [start, given, first] using line state
  · intro whole state keyword
    rw [parseItem_get]
    dsimp only [given]
    by_cases first : token text = keyword.word
    · have skipped := keyword.branch_offset
      rw [← first] at skipped
      rw [if_pos first, if_pos ((whole keyword).mpr first), trimmed_mid text _ (first ▸ keyword.word_small) skipped]
      rfl
    · rw [if_neg first, if_neg fun start => first ((whole keyword).mp start)]
      rfl

theorem sets_none (text : QString)
    (silent : ∀ keyword : Keyword, startsWith (trimmed text) keyword.branch.label = false) :
    Sets text fun _ => none := by
  intro state keyword
  rw [parseItem_get, silent]
  rfl

theorem sets_comment (line : QByteArray) (comment : isComment line = true) :
    Sets (ofByteArray line) fun _ => none := by
  apply sets_none
  intro keyword
  cases keyword <;> exact comment_plain line comment _ _ (by decide)

theorem sets_host (line : QByteArray) (host : isHost line = true) : Sets (ofByteArray line) fun _ => none := by
  apply sets_none
  intro keyword
  obtain ⟨rest, text⟩ := host_text line host
  have part : trimmed (ofByteArray line) <+: ofByteArray line := by
    rw [text]
    exact List.rdropWhile_prefix _ _
  by_contra start
  have label := (List.isPrefixOf_iff_prefix.mp (Bool.of_not_eq_false start)).trans part
  have same := label_unique (ofByteArray line) (directives.get ⟨0, by decide⟩) keyword.branch
    (List.get_mem directives _) keyword.branch_mem
    (text ▸ List.isPrefixOf_iff_prefix.mpr (List.prefix_append _ rest)) (List.isPrefixOf_iff_prefix.mpr label)
  cases keyword <;> exact absurd same (by decide)

theorem foldl_get (gives : QString → Keyword → Option QString) (texts : List QString)
    (each : ∀ text ∈ texts, Sets text (gives text)) (state : HostInfo × List QString) (keyword : Keyword) :
    keyword.get (texts.foldl parseItem state).1 =
      ((final (fun text => gives text keyword) texts).map keyword.read).getD (keyword.get state.1) := by
  induction texts using List.reverseRecOn with
  | nil => rfl
  | append_singleton texts text ih =>
    rw [List.foldl_concat, each text (by simp), ih fun other member => each other (by simp [member]), final_concat]
    cases gives text keyword <;> rfl

/-- A block whose lines do what they are meant to do: the comments above the `Host` line and that line itself set
no field, an indented line sets the field of its keyword, and the last such line wins. -/
structure Recognised (front : List QByteArray) (host : QByteArray) (back : List QByteArray) : Prop where
  heading : ∀ text ∈ commentsAbove front.reverse ++ [ofByteArray host], Sets text fun _ => none
  lines : ∀ line ∈ back.takeWhile isIndented,
    Sets (ofByteArray line) fun keyword => given keyword (ofByteArray line)
  fields : ∀ (port : Int32) (keyword : Keyword),
    keyword.get (parseBlock port (blockAt front.reverse host back)) =
      ((final (fun line => given keyword (ofByteArray line)) (back.takeWhile isIndented)).map keyword.read).getD
        (keyword.get { port })

theorem sets_heading (front : List QByteArray) (host : QByteArray) (known : isHost host = true) :
    ∀ text ∈ commentsAbove front.reverse ++ [ofByteArray host], Sets text fun _ => none := by
  intro text member
  rcases List.mem_append.mp member with above | last
  · obtain ⟨line, inside, rfl⟩ := List.mem_map.mp (List.mem_reverse.mp above)
    exact sets_comment line (List.mem_takeWhile_imp inside)
  · obtain rfl := List.mem_singleton.mp last
    exact sets_host host known

theorem get_parseBlock (front : List QByteArray) (host : QByteArray) (back : List QByteArray)
    (known : isHost host = true)
    (lines : ∀ line ∈ back.takeWhile isIndented,
      Sets (ofByteArray line) fun keyword => given keyword (ofByteArray line)) (port : Int32) (keyword : Keyword) :
    keyword.get (parseBlock port (blockAt front.reverse host back)) =
      ((final (fun line => given keyword (ofByteArray line)) (back.takeWhile isIndented)).map keyword.read).getD
        (keyword.get { port }) := by
  have heading := foldl_get (fun _ _ => none) _ (sets_heading front host known) ({ port }, []) keyword
  have inner := foldl_get (fun text keyword => given keyword text) ((back.takeWhile isIndented).map ofByteArray)
    (by simpa using lines)
    ((commentsAbove front.reverse ++ [ofByteArray host]).foldl parseItem ({ port }, [])) keyword
  have nothing : final (fun _ => (none : Option QString)) (commentsAbove front.reverse ++ [ofByteArray host]) = none :=
    (final_eq_none_iff _ _).mpr fun _ _ => rfl
  have memoless : ∀ (hi : HostInfo) (memo : QString), keyword.get { hi with memo } = keyword.get hi := by
    intro hi memo
    cases keyword <;> rfl
  rw [heading, nothing, final_map, ← List.foldl_append] at inner
  rw [parseBlock, memoless, blockAt, List.append_cons]
  exact inner

/-- Every `Host` line has its block, and the block is read as it is meant exactly when its indented lines are whole. -/
theorem recognised_iff (buf : QByteArray) (front : List QByteArray) (host : QByteArray) (back : List QByteArray)
    (cut : buf.splitOn 10 = front ++ host :: back) (known : isHost host = true) :
    blockAt front.reverse host back ∈ fileBlocks buf ∧
    (Recognised front host back ↔ ∀ line ∈ back.takeWhile isIndented, Whole (ofByteArray line)) := by
  constructor
  · rw [fileBlocks, splitBlocks_eq, mem_hostBlocks]
    exact ⟨front, host, back, cut, known, by rw [List.append_nil]⟩
  · constructor
    · intro meant line member
      exact (sets_given_iff _).mp (meant.lines line member)
    · intro whole
      have lines := fun line member => (sets_given_iff _).mpr (whole line member)
      exact ⟨sets_heading front host known, lines, get_parseBlock front host back known lines⟩

/-- Keywords with a blank and with a tab behind them, each where its branch takes it. -/
def tidy : List QByteArray :=
  ["  HostName db.example.org", "  Port 22", "  Password\tsecret", "  Compression yes"].map fun line => toUtf8 line.toList

theorem recognised_tidy :
    Recognised [] (toUtf8 "Host db".toList) tidy ∧
    parseBlock 0 (blockAt [] (toUtf8 "Host db".toList) tidy) =
      { name := "db".toList, host := "db.example.org".toList, port := 22, password := "secret".toList } := by
  have file : ([10].intercalate (toUtf8 "Host db".toList :: tidy)).splitOn 10 =
      [] ++ toUtf8 "Host db".toList :: tidy := by decide +kernel
  refine ⟨(recognised_iff _ [] (toUtf8 "Host db".toList) tidy file (by decide +kernel)).2.mpr ?_, by decide +kernel⟩
  have whole : ∀ line ∈ tidy.takeWhile isIndented, ∀ keyword ∈
      [Keyword.hostName, .port, .user, .identityFile, .password, .proxyJump, .property],
      if keyword.separated then token (ofByteArray line) = keyword.word →
        startsWith (trimmed (ofByteArray line)) (keyword.word ++ [' ']) = true
      else startsWith (trimmed (ofByteArray line)) keyword.word = true → token (ofByteArray line) = keyword.word := by
    decide +kernel
  intro line member keyword
  exact whole line member keyword (by cases keyword <;> decide)

/-- An option of `ssh` that is no keyword here sets a password, and a tab hides a host name. -/
def mistaken : List QByteArray :=
  ["  PasswordAuthentication yes", "  HostName\tdb.example.org"].map fun line => toUtf8 line.toList

theorem mistaken_misread :
    parseBlock 0 (blockAt [] (toUtf8 "Host db".toList) mistaken) =
      { name := "db".toList, password := "uthentication yes".toList } ∧
    ¬ Recognised [] (toUtf8 "Host db".toList) mistaken := by
  have read : parseBlock 0 (blockAt [] (toUtf8 "Host db".toList) mistaken) =
      { name := "db".toList, password := "uthentication yes".toList } := by decide +kernel
  refine ⟨read, ?_⟩
  intro meant
  have password := meant.fields 0 .password
  rw [List.reverse_nil, read] at password
  exact absurd password (by decide +kernel)

end Woterm.SshConf.Keywords
