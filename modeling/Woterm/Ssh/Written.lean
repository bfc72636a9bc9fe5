import Woterm.Ssh.Readconf
import Woterm.SshConf.Store

/-!
What the `ssh` client makes of the lines that `QWoSshConf::toStream` writes. Each kind of line
has one lemma, whatever text its value holds; together they say what the client makes of a
session and of a whole file.
-/

namespace Woterm.Ssh.Written
open Woterm.Lib Woterm.Lib.Text Woterm.Qt Woterm.Qt.QString Woterm.Ssh.Strdelim Woterm.Ssh.Readconf
open Woterm.SshConf.Format Woterm.SshConf.RoundTrip Woterm.SshConf.Store

/-- The bytes of a text up to the first NUL, as C code sees them. -/
def bytes (text : QString) : CStr := CString.cstr (toUtf8 text)

/-- What is cut off at the end of a line. -/
def isTrailing (byte : UInt8) : Bool := isWhite byte || byte = 12

/-- The one argument of a directive whose value is written without quotes. -/
def readValue (value : CStr) : Except Reason CStr :=
  match strdelim (some (afterBlank (value.rdropWhile isTrailing))) with
  | (some (byte :: arg), rest) =>
    match (strdelim rest).1 with
    | some (other :: garbage) => .error (.garbage (other :: garbage))
    | _ => .ok (byte :: arg)
  | _ => .error .missingArgument

/-- What follows the keyword of a line whose value is `value`. -/
def restOf (value : CStr) : Option CStr :=
  if value.rdropWhile isTrailing = [] then none else some (afterBlank (value.rdropWhile isTrailing))

/-- A keyword: its line is no comment, and it is found whole. -/
def Label (label : CStr) : Prop :=
  (∀ byte ∈ label, isDelimiter true byte = false ∧ byte ≠ 12 ∧ byte ≠ 0) ∧ label ≠ [] ∧
    label.head? ≠ some 35

instance (label : CStr) : Decidable (Label label) := by
  unfold Label
  infer_instance

theorem Label.plain {label : CStr} (known : Label label) : Plain label :=
  fun byte member => (known.1 byte member).1

theorem Label.solid {label : CStr} (known : Label label) (byte : UInt8) (member : byte ∈ label) :
    isTrailing byte = false := by
  have clean := known.1 byte member
  simp only [isDelimiter, Bool.true_and, Bool.or_eq_false_iff, decide_eq_false_iff_not] at clean
  simp [isTrailing, clean.1.1.1, clean.2.1]

theorem Label.nulFree {label : CStr} (known : Label label) : CString.NulFree label :=
  fun member => (known.1 0 member).2.2 rfl

/-! ## Keywords -/

/-- The blanks at the end of a line are those at the end of its value, and the one in front of
a value that is all blanks. -/
theorem stripEnd_label (indent label value : CStr) (known : Label label) :
    stripEnd (indent ++ label ++ 32 :: value) =
      indent ++ if value.rdropWhile isTrailing = [] then label
        else label ++ 32 :: value.rdropWhile isTrailing := by
  have cut (front : CStr) (last : ∀ byte ∈ front.getLast?, isTrailing byte = false) :
      (front ++ 32 :: value).rdropWhile isTrailing =
        if value.rdropWhile isTrailing = [] then front else front ++ 32 :: value.rdropWhile isTrailing := by
    have shape : front ++ 32 :: value = front ++ [32] ++ value := by simp
    have blank : isTrailing 32 = true := by decide
    rw [shape, rdropWhile_append, List.rdropWhile_concat_pos _ _ _ blank, rdropWhile_eq_self front last]
    simp
  obtain ⟨first, rest, split⟩ := List.exists_cons_of_ne_nil known.2.1
  cases indent with
  | nil =>
    have last (byte : UInt8) (member : byte ∈ rest.getLast?) : isTrailing byte = false := by
      apply known.solid
      rw [split]
      exact List.mem_cons_of_mem first (List.mem_of_mem_getLast? member)
    simp only [List.nil_append, split, List.cons_append, stripEnd]
    change first :: (rest ++ 32 :: value).rdropWhile isTrailing = _
    rw [cut rest last]
    split_ifs <;> rfl
  | cons blank indent =>
    have last (byte : UInt8) (member : byte ∈ (indent ++ label).getLast?) : isTrailing byte = false := by
      apply known.solid
      rw [List.getLast?_append_of_ne_nil _ known.2.1] at member
      exact List.mem_of_mem_getLast? member
    simp only [List.cons_append, stripEnd]
    change blank :: (indent ++ label ++ 32 :: value).rdropWhile isTrailing = _
    rw [cut (indent ++ label) last]
    split_ifs <;> simp

theorem strdelim_label (label value : CStr) (known : Label label) :
    strdelim (some (if value.rdropWhile isTrailing = [] then label
        else label ++ 32 :: value.rdropWhile isTrailing)) = (some label, restOf value) := by
  unfold restOf
  split_ifs
  · exact strdelim_last label known.plain
  · exact strdelim_word label _ known.plain

theorem Label.skip {label : CStr} (known : Label label) :
    (label.isEmpty || label.head? = some 10 || label.head? = some 35) = false := by
  obtain ⟨first, rest, split⟩ := List.exists_cons_of_ne_nil known.2.1
  have clean := known.plain first (by simp [split])
  have line : first ≠ 10 := by
    intro same
    subst same
    exact absurd clean (by decide)
  have comment := known.2.2
  rw [split] at comment
  simpa [split, line] using comment

theorem keywordOf_label (label value : CStr) (known : Label label) :
    keywordOf (label ++ 32 :: value) = some (label.map toLower, restOf value) := by
  have strip := stripEnd_label [] label value known
  rw [List.nil_append, List.nil_append] at strip
  have filled : ¬ some label = some [] := by simpa using known.2.1
  simp only [keywordOf, strip, strdelim_label label value known, if_neg filled, known.skip]
  rfl

theorem keywordOf_indented (label value : CStr) (known : Label label) :
    keywordOf (32 :: 32 :: (label ++ 32 :: value)) = some (label.map toLower, restOf value) := by
  have strip := stripEnd_label [32, 32] label value known
  simp only [List.cons_append, List.nil_append] at strip
  have indent : strdelim (some (32 :: 32 :: if value.rdropWhile isTrailing = [] then label
      else label ++ 32 :: value.rdropWhile isTrailing)) =
      (some [], some (if value.rdropWhile isTrailing = [] then label
        else label ++ 32 :: value.rdropWhile isTrailing)) := by
    obtain ⟨first, rest, split⟩ := List.exists_cons_of_ne_nil known.2.1
    have start := known.plain first (by simp [split])
    rw [split]
    split_ifs
    · exact strdelim_indent first rest start
    · exact strdelim_indent first _ start
  have second := strdelim_label label value known
  simp only [keywordOf, strip, indent, if_pos, second, known.skip]
  rfl

theorem keywordOf_comment (line : CStr) : keywordOf (35 :: line) = none := by
  simp only [keywordOf, stripEnd]
  rcases strdelim_start 35 (line.rdropWhile fun other => isWhite other || other = 12) (by decide) with
    missing | ⟨token, found⟩
  · simp [missing]
  · simp [found]

theorem find_keyword (name : String) :
    (keywords.find? fun keyword => keywordBytes keyword.1 = keywordBytes name) =
      keywords.find? fun keyword => keyword.1 = name := by
  have same (keyword : String) : keywordBytes keyword = keywordBytes name ↔ keyword = name := by
    rw [keywordBytes, keywordBytes, toUtf8, toUtf8, Utf8.encode_injective.eq_iff, String.toList_inj]
  simp only [same]

theorem parseToken_known (name : String) (opcode : OpCodes) (ignoredUnknown : Option CStr)
    (found : (keywords.find? fun keyword => keyword.1 = name) = some (name, opcode)) :
    parseToken (keywordBytes name) ignoredUnknown = opcode := by
  simp only [parseToken, find_keyword, found]

/-! ## Lines -/

variable (env : Readconf.Env) (target : CStr)

/-- The client goes through `lines` as `effect` says, which has no result when `fatal` ends it. -/
def Reads (lines : List QByteArray) (effect : State → Option State) : Prop :=
  ∀ linenum more state,
    (readLoop env target linenum (lines ++ more) state 0).toOption =
      (effect state).bind fun next =>
        (readLoop env target (linenum + lines.length) more next 0).toOption

theorem Reads.nil : Reads env target [] some := by
  intro linenum more state
  rfl

theorem Reads.append {first second : List QByteArray} {effect next : State → Option State}
    (front : Reads env target first effect) (back : Reads env target second next) :
    Reads env target (first ++ second) fun state => (effect state).bind next := by
  intro linenum more state
  rw [List.append_assoc, front, Option.bind_assoc]
  congr 1
  funext middle
  rw [back, List.length_append, Nat.add_assoc]

theorem Reads.single (line : QByteArray) (effect : State → Option State)
    (processed : ∀ linenum state,
      (processLine env target linenum (CString.cstr line) state).toOption =
        (effect state).map fun next => (next, false)) :
    Reads env target [line] effect := by
  intro linenum more state
  have known := processed (linenum + 1) state
  simp only [List.cons_append, List.nil_append, readLoop, List.length_cons, List.length_nil]
  cases outcome : processLine env target (linenum + 1) (CString.cstr line) state with
  | error fatal =>
    rw [outcome] at known
    have stopped : effect state = none := by simpa [Except.toOption] using known.symm
    rw [stopped]
    rfl
  | ok result =>
    rw [outcome] at known
    obtain ⟨next, reached, same⟩ := Option.map_eq_some_iff.mp known.symm
    rw [reached, ← same]
    rfl

theorem Reads.skip (line : QByteArray) (none : keywordOf (CString.cstr line) = none) :
    Reads env target [line] some := by
  apply Reads.single
  intro linenum state
  rw [processLine, none]
  rfl

/-- The label of a setting: a keyword between blanks, and the name it has in lowercase. -/
structure Indented (label : QString) (keyword name : String) : Prop where
  line : toUtf8 label = 32 :: 32 :: (keywordBytes keyword ++ [32])
  known : Label (keywordBytes keyword)
  lower : (keywordBytes keyword).map toLower = keywordBytes name

instance (label : QString) (keyword name : String) : Decidable (Indented label keyword name) :=
  decidable_of_iff (toUtf8 label = 32 :: 32 :: (keywordBytes keyword ++ [32]) ∧
      Label (keywordBytes keyword) ∧ (keywordBytes keyword).map toLower = keywordBytes name)
    ⟨fun ⟨line, known, lower⟩ => ⟨line, known, lower⟩, fun ⟨line, known, lower⟩ => ⟨line, known, lower⟩⟩

theorem Indented.keywordOf {label : QString} {keyword name : String} (indented : Indented label keyword name)
    (value : QString) :
    keywordOf (CString.cstr (toUtf8 (label ++ value))) = some (keywordBytes name, restOf (bytes value)) := by
  have clean : CString.NulFree (32 :: 32 :: (keywordBytes keyword ++ [32])) := by
    simpa [CString.NulFree] using indented.known.nulFree
  rw [toUtf8_append, indented.line, CString.cstr_append _ _ clean, ← indented.lower]
  simpa [bytes] using keywordOf_indented (keywordBytes keyword) (bytes value) indented.known

/-- The effect of a setting with a string value, which is not written when it is empty. -/
def assign (option : StrOption) (value : QString) (state : State) : Option State :=
  if value.isEmpty then some state
  else (readValue (bytes value)).toOption.map (setString state option)

theorem argument_restOf (linenum : Nat) (value : CStr) :
    argument linenum (restOf value) = argument linenum (some (afterBlank (value.rdropWhile isTrailing))) := by
  unfold restOf
  split_ifs with blank
  · rw [blank]
    rfl
  · rfl

theorem processLine_string (linenum : Nat) (line keyword : CStr) (option : StrOption) (value : CStr)
    (state : State) (found : keywordOf line = some (keyword, restOf value))
    (known : strOption (parseToken keyword (state.options.str .ignoredUnknown)) = some option) :
    (processLine env target linenum line state).toOption =
      (readValue value).toOption.map fun arg => (setString state option arg, false) := by
  simp only [processLine, found, known, argument_restOf]
  simp only [argument, readValue, finish]
  rcases strdelim (some (afterBlank (value.rdropWhile isTrailing))) with ⟨_ | _ | ⟨byte, arg⟩, rest⟩
  · rfl
  · rfl
  · simp only [bind, Except.bind]
    rcases (strdelim rest).1 with _ | _ | ⟨other, garbage⟩ <;> rfl

theorem processLine_host (linenum : Nat) (line keyword : CStr) (s : Option CStr) (state : State)
    (found : keywordOf line = some (keyword, s))
    (known : parseToken keyword (state.options.str .ignoredUnknown) = .oHost) :
    processLine env target linenum line state =
      .ok ({ state with active := hostActive env target s }, false) := by
  simp only [processLine, found, known]
  rfl

theorem processLine_port (linenum : Nat) (line keyword word : CStr) (state : State)
    (found : keywordOf line = some (keyword, some word))
    (known : parseToken keyword (state.options.str .ignoredUnknown) = .oPort)
    (alone : strdelim (some word) = (some word, none)) (nonempty : word ≠ [])
    (valid : 0 < a2port env word) :
    processLine env target linenum line state = .ok (setPort state (a2port env word), false) := by
  obtain ⟨first, rest, split⟩ := List.exists_cons_of_ne_nil nonempty
  have read : argument linenum (some word) = .ok (word, none) := by
    rw [argument, alone, split]
  simp only [processLine, found, known, read, strOption, bind, Except.bind, if_neg (not_le.mpr valid)]
  rfl

theorem reads_assign (label : QString) (keyword name : String) (opcode : OpCodes) (option : StrOption)
    (indented : Indented label keyword name)
    (found : (keywords.find? fun keyword => keyword.1 = name) = some (name, opcode))
    (known : strOption opcode = some option) (value : QString) :
    Reads env target ((setting label value).map toUtf8) (assign option value) := by
  cases value with
  | nil => exact Reads.nil env target
  | cons c value =>
    apply Reads.single
    intro linenum state
    rw [processLine_string env target linenum _ _ option _ state (indented.keywordOf (c :: value))]
    · simp [assign, Function.comp_def]
    · rw [parseToken_known name opcode _ found, known]

theorem reads_unknown (label : QString) (keyword name : String) (indented : Indented label keyword name)
    (missing : (keywords.find? fun keyword => keyword.1 = name) = none)
    (value : QString) : Reads env target ((setting label value).map toUtf8) some := by
  cases value with
  | nil => exact Reads.nil env target
  | cons c value =>
    apply Reads.single
    intro linenum state
    have opcode : parseToken (keywordBytes name) (state.options.str .ignoredUnknown) = .oIgnoredUnknownOption ∨
        parseToken (keywordBytes name) (state.options.str .ignoredUnknown) = .oBadOption := by
      simp only [parseToken, find_keyword, missing]
      cases state.options.str .ignoredUnknown with
      | none => exact Or.inr rfl
      | some patterns =>
        dsimp only
        split_ifs
        · exact Or.inl rfl
        · exact Or.inr rfl
    simp only [processLine, indented.keywordOf (c :: value)]
    rcases opcode with same | same <;> rw [same] <;> rfl

/-- Whether the `Host` line of a session makes its block the target's. -/
def selects (name : QString) : Bool := hostActive env target (restOf (bytes name))

theorem reads_host (name : QString) (named : name ≠ []) :
    Reads env target ((setting "Host ".toList name).map toUtf8) fun state =>
      some { state with active := selects env target name } := by
  have filled : name.isEmpty = false := by simpa using named
  have front : toUtf8 "Host ".toList = keywordBytes "Host" ++ [32] := by decide
  have clean : CString.NulFree (keywordBytes "Host" ++ [32]) := by decide
  have line : CString.cstr (toUtf8 ("Host ".toList ++ name)) = keywordBytes "Host" ++ 32 :: bytes name := by
    rw [toUtf8_append, front, CString.cstr_append _ _ clean, List.append_assoc]
    rfl
  have lower : (keywordBytes "Host").map toLower = keywordBytes "host" := by decide
  have found : (keywords.find? fun keyword => keyword.1 = "host") = some ("host", .oHost) := by
    decide +kernel
  simp only [setting, filled, Bool.false_eq_true, if_false, List.map_cons, List.map_nil]
  apply Reads.single
  intro linenum state
  have keyword := keywordOf_label (keywordBytes "Host") (bytes name) (by decide)
  rw [lower] at keyword
  rw [line, processLine_host env target linenum _ _ _ state keyword (parseToken_known "host" .oHost _ found)]
  rfl

theorem reads_memo (memo : QString) : Reads env target ((memoLines memo).map toUtf8) some := by
  have lines (parts : List QString) : Reads env target ((parts.map ('#' :: ·)).map toUtf8) some := by
    induction parts with
    | nil => exact Reads.nil env target
    | cons part parts ih =>
      have comment : CString.cstr (toUtf8 ('#' :: part)) = 35 :: bytes part :=
        CString.cstr_append [35] (toUtf8 part) (by decide)
      have first : Reads env target [toUtf8 ('#' :: part)] some := by
        apply Reads.skip
        rw [comment, keywordOf_comment]
      exact Reads.append env target first ih
  unfold memoLines
  split_ifs
  · exact Reads.nil env target
  · exact lines _

/-! ## Words -/

/-- A value that the client reads as it is written. -/
structure Word (value : CStr) : Prop where
  nonempty : value ≠ []
  plain : Plain value
  last : ∀ byte ∈ value.getLast?, byte ≠ 12

theorem Word.kept {value : CStr} (word : Word value) : value.rdropWhile isTrailing = value := by
  apply rdropWhile_eq_self
  intro byte member
  have inside := List.mem_of_mem_getLast? member
  have clean := word.plain byte inside
  have other := word.last byte member
  simp only [isDelimiter, Bool.true_and, Bool.or_eq_false_iff, decide_eq_false_iff_not] at clean
  simp [isTrailing, clean.1.1, other]

theorem Word.afterBlank {value : CStr} (word : Word value) : afterBlank value = value := by
  obtain ⟨first, rest, split⟩ := List.exists_cons_of_ne_nil word.nonempty
  rw [split]
  exact afterBlank_plain first rest (word.plain first (by simp [split]))

theorem Word.restOf {value : CStr} (word : Word value) : restOf value = some value := by
  rw [Written.restOf, word.kept, if_neg word.nonempty, word.afterBlank]

theorem Word.readValue {value : CStr} (word : Word value) : readValue value = .ok value := by
  obtain ⟨first, rest, split⟩ := List.exists_cons_of_ne_nil word.nonempty
  rw [Written.readValue, word.kept, word.afterBlank, strdelim_last value word.plain, split]
  rfl

/-- The characters at which the client ends a word. -/
def delimiters : List Char := [' ', '\t', '\r', '\n', '"', '=']

theorem Word.of_text (text : QString) (nonempty : text ≠ []) (clean : ∀ c ∈ text, c ∉ delimiters)
    (last : text.getLast? ≠ some '\x0c') : Word (toUtf8 text) := by
  have absent (c : Char) (ascii : c.toNat < 128) (listed : c ∈ delimiters) : c.toUInt8 ∉ toUtf8 text :=
    fun member => clean c ((Utf8.mem_encode c ascii text).mp member) listed
  refine ⟨?_, ?_, ?_⟩
  · exact fun empty => nonempty ((Utf8.encode_eq_nil text).mp empty)
  · intro byte member
    rw [← Bool.not_eq_true, isDelimiter_iff]
    intro given
    rcases given with rfl | rfl | rfl | rfl | rfl | rfl
    · exact absent ' ' (by decide) (by decide) member
    · exact absent '\t' (by decide) (by decide) member
    · exact absent '\r' (by decide) (by decide) member
    · exact absent '\n' (by decide) (by decide) member
    · exact absent '"' (by decide) (by decide) member
    · exact absent '=' (by decide) (by decide) member
  · rintro byte member rfl
    exact last (Utf8.getLast_encode '\x0c' (by decide) text member)

theorem Word.of_solid (text : QString) (nonempty : text ≠ [])
    (solid : ∀ c ∈ text, QChar.isSpace c = false ∧ c ∉ ['=', '"']) : Word (toUtf8 text) := by
  apply Word.of_text text nonempty
  · intro c member listed
    have kinds : ∀ c ∈ delimiters, QChar.isSpace c = true ∨ c ∈ ['=', '"'] := by decide
    rcases kinds c listed with space | other
    · exact absurd space (by simp [(solid c member).1])
    · exact (solid c member).2 other
  · intro last
    exact absurd (solid _ (List.mem_of_mem_getLast? last)).1 (by decide)

theorem bytes_eq (text : QString) (clean : NulFree text) : bytes text = toUtf8 text :=
  CString.cstr_eq_self _ (toUtf8_nulFree text clean)

theorem number_word (port : Int32) : Word (toUtf8 (number port)) := by
  apply Word.of_solid
  · unfold number
    split_ifs <;> simp [Nat.toDigits_ne_nil]
  · intro c member
    refine ⟨number_solid port c member, ?_⟩
    rcases number_chars port c member with digit | rfl
    · have range := isDigit_range c digit
      simp only [List.mem_cons, List.not_mem_nil, or_false]
      intro given
      rcases given with rfl | rfl <;> exact absurd range (by decide)
    · decide

theorem reads_port (port : Int32) (range : 0 < port.toInt ∧ port.toInt ≤ 65535) :
    Reads env target ((if 0 < port then ["  Port ".toList ++ number port] else []).map toUtf8) fun state =>
      some (setPort state port.toInt) := by
  have positive : 0 < port := Int32.lt_iff_toInt_lt.mpr range.1
  have indented : Indented "  Port ".toList "Port" "port" := by decide
  have found : (keywords.find? fun keyword => keyword.1 = "port") = some ("port", .oPort) := by
    decide +kernel
  have clean : NulFree (number port) := number_clean port '\x00' (Or.inr rfl)
  have value := a2port_number env port ⟨le_of_lt range.1, range.2⟩
  have word := number_word port
  have keyword := indented.keywordOf (number port)
  rw [bytes_eq _ clean, word.restOf] at keyword
  rw [if_pos positive]
  apply Reads.single
  intro linenum state
  rw [processLine_port env target linenum _ _ _ state keyword (parseToken_known "port" .oPort _ found)
    (strdelim_last _ word.plain) word.nonempty (by rw [value]; exact range.1), value]
  rfl

/-! ## Sessions and files -/

/-- A session without a key and a jump host, whose values stay on their lines. -/
structure Direct (hi : HostInfo) : Prop where
  named : hi.name ≠ []
  port : 0 < hi.port.toInt ∧ hi.port.toInt ≤ 65535
  identityFile : hi.identityFile = []
  proxyJump : hi.proxyJump = []
  name : Single hi.name
  texts : ∀ text ∈ fields hi, Single text

/-- What the client does at the lines of one session. -/
def readSession (hi : HostInfo) (state : State) : Option State := do
  let state ← assign .ignoredUnknown ignoreUnknow { state with active := selects env target hi.name }
  let state ← assign .hostname hi.host state
  let state ← assign .user hi.user (setPort state hi.port.toInt)
  assign .password hi.password state

theorem reads_session (hi : HostInfo) (direct : Direct hi) :
    Reads env target ((hostLines hi).map toUtf8) (readSession env target hi) := by
  have empty : Reads env target ([([] : QString)].map toUtf8) some :=
    Reads.skip env target _ (by decide)
  have ignore := reads_assign env target "  IgnoreUnknown ".toList "IgnoreUnknown" "ignoreunknown"
    .oIgnoreUnknown .ignoredUnknown (by decide) (by decide +kernel) rfl ignoreUnknow
  have host := reads_assign env target "  HostName ".toList "HostName" "hostname"
    .oHostName .hostname (by decide) (by decide +kernel) rfl hi.host
  have user := reads_assign env target "  User ".toList "User" "user"
    .oUser .user (by decide) (by decide +kernel) rfl hi.user
  have password := reads_assign env target "  Password ".toList "Password" "password"
    .oPassword .password (by decide) (by decide +kernel) rfl hi.password
  have property := reads_unknown env target "  Property ".toList "Property" "property"
    (by decide) (by decide +kernel) hi.property
  have all := empty.append env target (reads_memo env target hi.memo)
    |>.append env target (reads_host env target hi.name direct.named) |>.append env target ignore
    |>.append env target host |>.append env target (reads_port env target hi.port direct.port)
    |>.append env target user |>.append env target password |>.append env target property
  have lines : hostLines hi = [[]] ++ memoLines hi.memo ++ setting "Host ".toList hi.name ++
      setting "  IgnoreUnknown ".toList ignoreUnknow ++ setting "  HostName ".toList hi.host ++
      (if 0 < hi.port then ["  Port ".toList ++ number hi.port] else []) ++
      setting "  User ".toList hi.user ++ setting "  Password ".toList hi.password ++
      setting "  Property ".toList hi.property := by
    have absent (label : QString) : setting label [] = [] := rfl
    have ignored : setting "  IgnoreUnknown ".toList ignoreUnknow = ["  IgnoreUnknown ".toList ++ ignoreUnknow] := rfl
    simp only [hostLines, settingLines, direct.identityFile, direct.proxyJump, absent, ignored,
      List.append_assoc, List.append_nil]
  have effect : readSession env target hi = fun state =>
      ((((((((some state).bind some).bind fun state =>
        some { state with active := selects env target hi.name }).bind
          (assign .ignoredUnknown ignoreUnknow)).bind (assign .hostname hi.host)).bind
            fun state => some (setPort state hi.port.toInt)).bind (assign .user hi.user)).bind
              (assign .password hi.password)).bind some := by
    funext state
    simp only [readSession, Option.bind_assoc, Option.bind_some, Option.bind_fun_some]
    rfl
  rw [lines, effect]
  simpa only [List.map_append] using all

theorem fileLines_unlines (lines : List (List UInt8)) (clean : ∀ line ∈ lines, (10 : UInt8) ∉ line) :
    fileLines (unlines 10 lines) = lines := by
  induction lines with
  | nil => rfl
  | cons line lines ih =>
    have shape : unlines 10 (line :: lines) = line ++ 10 :: unlines 10 lines := by simp [unlines]
    rw [shape, fileLines_append line (clean line (by simp)), ih fun other member => clean other (by simp [member])]

theorem configBytes_fileBytes (hosts : Hosts) : configBytes (fileBytes hosts) = toStream hosts :=
  fromWotermStream_fileBytes hosts

theorem reads_sessions (infos : List HostInfo) (direct : ∀ hi ∈ infos, Direct hi) :
    Reads env target (infos.flatMap fun hi => (hostLines hi).map toUtf8) fun state =>
      infos.foldlM (fun state hi => readSession env target hi state) state := by
  induction infos with
  | nil => exact Reads.nil env target
  | cons hi infos ih =>
    exact (reads_session env target hi (direct hi (by simp))).append env target
      (ih fun other member => direct other (by simp [member]))

/-- The client reads a written file session by session. -/
theorem readConfigFileDepth_fileBytes (hosts : Hosts) (direct : ∀ hi ∈ written hosts, Direct hi)
    (state : State) :
    (readConfigFileDepth env target (fileBytes hosts) state).toOption =
      (written hosts).foldlM (fun state hi => readSession env target hi state) state := by
  have clean : ∀ line ∈ (written hosts).flatMap (fun hi => (hostLines hi).map toUtf8), (10 : UInt8) ∉ line := by
    intro line member
    obtain ⟨hi, inside, written⟩ := List.mem_flatMap.mp member
    obtain ⟨text, found, rfl⟩ := List.mem_map.mp written
    exact toUtf8_single text (hostLines_single hi (direct hi inside).name (direct hi inside).texts text found)
  have read := reads_sessions env target (written hosts) direct 0 [] state
  rw [readConfigFileDepth, configBytes_fileBytes, toStream_eq, stream_eq_unlines, fileLines_unlines _ clean]
  rw [List.append_nil] at read
  rw [read]
  have done (next : State) (linenum : Nat) : (readLoop env target linenum [] next 0).toOption = some next := rfl
  simp only [done, Option.bind_fun_some]

end Woterm.Ssh.Written
