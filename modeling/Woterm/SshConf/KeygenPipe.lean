import Woterm.SshConf.Identity

/-!
The way from `ssh-keygen`, which prints a key as two lines of bracketed fields without any escaping, to
`identifyFileGet`, which cuts them up again.
-/

namespace Woterm.SshConf.KeygenPipe
open Woterm.Lib Woterm.Qt Woterm.Qt.QString Woterm.SshConf.Identity

/-- A text that `%s` prints on one line. -/
structure Line where
  text : QString
  single : Single text
  clean : NulFree text

/-- What `ssh-keygen` prints of a key beside its comment. -/
structure KeyInfo where
  size : UInt32
  fingure : Line
  type : Line
  sshName : Line
  publicKey : Line
  brackets : ∀ line ∈ [fingure, type, sshName, publicKey], '[' ∉ line.text ∧ ']' ∉ line.text

def KeyInfo.sizeText (key : KeyInfo) : QString := Nat.toDigits 10 key.size.toNat

def fingerprintOneKey (key : KeyInfo) (comment : Option QString) : QString :=
  "--fingerprint--:[keysize:".toList ++ key.sizeText ++ "] [fingure:".toList ++ key.fingure.text ++
    "] [comment:".toList ++ comment.getD "no comment".toList ++ "] [type:".toList ++ key.type.text ++ "]\n".toList

def sshkeyFormatText (key : KeyInfo) : QString :=
  "--publickey--:[ssh-name:".toList ++ key.sshName.text ++ "] [public-key:".toList ++ key.publicKey.text ++
    "]".toList

/-- `do_woterm_action` for the action `get`. -/
def doWotermAction (key : KeyInfo) (comment : Option QString) : QByteArray :=
  toUtf8 (sshkeyFormatText key ++ "\n".toList ++ fingerprintOneKey key comment)

/-- What the program knows of the key. -/
def keygenInfos (key : KeyInfo) (comment : Option QString) : Infos :=
  identifyFileGet (ofByteArray (doWotermAction key comment))

def Survives (key : KeyInfo) (comment : QString) : Prop :=
  let infos := keygenInfos key (some comment)
  infos.lookup "fingureprint.comment".toList = some comment ∧
    infos.lookup "fingureprint.type".toList = some key.type.text ∧
    infos.lookup "fingureprint.keysize".toList = some key.sizeText ∧
    infos.lookup "publickey.ssh-name".toList = some key.sshName.text ∧
    infos.lookup "publickey.public-key".toList = some key.publicKey.text

/-! ## Reading fields -/

theorem readBlock_field (type full label front name value : QString) (infos : Infos)
    (shape : label = front ++ '[' :: (name ++ [':'])) (before : '[' ∉ front) (named : ':' ∉ name)
    (stored : type ++ ".".toList ++ name = full) :
    readBlock type infos (label ++ value) = infos.insert full value := by
  have block : label ++ value = front ++ '[' :: (name ++ ':' :: value) := by simp [shape]
  simp only [readBlock, block, cut_append front _ '[' before, cut_append name value ':' named, stored]

theorem foldl_readBlock (type : QString) (infos : Infos) (fields : List QString)
    (closed : ∀ field ∈ fields, ']' ∉ field) :
    (split (Text.unlines ']' fields) ']').foldl (readBlock type) infos = fields.foldl (readBlock type) infos := by
  rw [split, Text.splitOn_unlines ']' fields closed, List.foldl_append]
  rfl

/-! ## What no output can say -/

def Bracketless (infos : Infos) : Prop := ∀ name value, infos.lookup name = some value → ']' ∉ value

theorem Bracketless.insert {infos : Infos} (known : Bracketless infos) (name value : QString) (free : ']' ∉ value) :
    Bracketless (infos.insert name value) :=
  MapFold.forall_insert (fun _ value => ']' ∉ value) infos name value known free

theorem readBlock_bracketless (type : QString) (infos : Infos) (block : QString) (known : Bracketless infos)
    (free : ']' ∉ block) : Bracketless (readBlock type infos block) := by
  have part (text front rest : QString) (c : Char) (found : cut text c = some (front, rest)) (absent : ']' ∉ text) :
      ']' ∉ rest := by
    obtain ⟨i, _, parts⟩ := Option.map_eq_some_iff.mp found
    rw [← (Prod.mk.inj parts).2]
    exact fun member => absent (List.mem_of_mem_drop member)
  unfold readBlock
  split
  · exact known
  next found =>
    split
    · exact known.insert _ _ (part _ _ _ _ found free)
    next inner => exact known.insert _ _ (part _ _ _ _ inner (part _ _ _ _ found free))

variable (key : KeyInfo) (infos : Infos) (comment : QString)

theorem readLine_bracketless (line : QString) (known : Bracketless infos) : Bracketless (readLine infos line) := by
  have blocks (type text : QString) : Bracketless ((split text ']').foldl (readBlock type) infos) := by
    apply List.foldlRecOn (motive := Bracketless) _ _ known
    intro infos known block member
    exact readBlock_bracketless type infos block known (Text.of_mem_splitOn ']' text block member).1
  unfold readLine
  split
  · exact blocks _ _
  · split
    · exact blocks _ _
    · exact blocks _ _

/-- Whatever is printed, no value has a closing bracket. -/
theorem identifyFileGet_bracketless (output : QString) : Bracketless (identifyFileGet output) := by
  have nothing : Bracketless ∅ := by
    intro name value stored
    rw [Finmap.lookup_empty] at stored
    cases stored
  unfold identifyFileGet
  split
  · exact nothing
  · exact List.foldlRecOn (motive := Bracketless) _ _ nothing
      fun infos known line _ => readLine_bracketless infos line known

/-! ## The two lines -/

def fingerprintFields (key : KeyInfo) (comment : QString) : List QString :=
  ["[keysize:".toList ++ key.sizeText, " [fingure:".toList ++ key.fingure.text, " [comment:".toList ++ comment,
    " [type:".toList ++ key.type.text]

def publickeyFields (key : KeyInfo) : List QString :=
  ["[ssh-name:".toList ++ key.sshName.text, " [public-key:".toList ++ key.publicKey.text]

theorem unlines_publickey (start first second name key : QString) :
    start ++ first ++ name ++ ']' :: second ++ key ++ [']'] =
      start ++ Text.unlines ']' [first ++ name, second ++ key] := by
  simp [Text.unlines]

theorem unlines_fingerprint (start first second third fourth size fingure comment type : QString) :
    start ++ first ++ size ++ ']' :: second ++ fingure ++ ']' :: third ++ comment ++ ']' :: fourth ++ type ++
        [']', '\n'] =
      start ++ Text.unlines ']' [first ++ size, second ++ fingure, third ++ comment, fourth ++ type] ++ ['\n'] := by
  simp [Text.unlines]

theorem fingerprintOneKey_eq :
    fingerprintOneKey key (some comment) =
      "--fingerprint--:".toList ++ Text.unlines ']' (fingerprintFields key comment) ++ ['\n'] := by
  have head : "--fingerprint--:[keysize:".toList = "--fingerprint--:".toList ++ "[keysize:".toList := by decide
  have fingure : "] [fingure:".toList = ']' :: " [fingure:".toList := by decide
  have commented : "] [comment:".toList = ']' :: " [comment:".toList := by decide
  have type : "] [type:".toList = ']' :: " [type:".toList := by decide
  have last : "]\n".toList = [']', '\n'] := by decide
  unfold fingerprintOneKey fingerprintFields
  rw [head, fingure, commented, type, last]
  exact unlines_fingerprint _ _ _ _ _ _ _ _ _

theorem sshkeyFormatText_eq :
    sshkeyFormatText key = "--publickey--:".toList ++ Text.unlines ']' (publickeyFields key) := by
  have head : "--publickey--:[ssh-name:".toList = "--publickey--:".toList ++ "[ssh-name:".toList := by decide
  have second : "] [public-key:".toList = ']' :: " [public-key:".toList := by decide
  have last : "]".toList = [']'] := by decide
  unfold sshkeyFormatText publickeyFields
  rw [head, second, last]
  exact unlines_publickey _ _ _ _ _

theorem readLine_fingerprint (text : QString) :
    readLine infos ("--fingerprint--:".toList ++ text) =
      (split text ']').foldl (readBlock "fingureprint".toList) infos := by
  rw [readLine, if_pos (by simp [startsWith])]
  rfl

theorem readLine_publickey (text : QString) :
    readLine infos ("--publickey--:".toList ++ text) =
      (split text ']').foldl (readBlock "publickey".toList) infos := by
  rw [readLine, if_neg (by simp [startsWith]), if_pos (by simp [startsWith])]
  rfl

theorem readLine_nil : readLine infos [] = infos := by
  simp [readLine, startsWith, split, readBlock, cut]

theorem sizeText_ne (c : Char) (other : c.isDigit = false) : c ∉ key.sizeText := by
  intro member
  have digit := Nat.isDigit_of_mem_toDigits (by decide) (by decide) member
  rw [other] at digit
  cases digit

/-- A character that ends a line, a text or a field. -/
def ends : List Char := ['\n', '\x00', ']']

theorem text_free (line : Line) (member : line ∈ [key.fingure, key.type, key.sshName, key.publicKey]) (c : Char)
    (stop : c ∈ ends) : c ∉ line.text := by
  simp only [ends, List.mem_cons, List.not_mem_nil, or_false] at stop
  rcases stop with rfl | rfl | rfl
  · exact line.single
  · exact line.clean
  · exact (key.brackets line member).2

def labels : List String := ["[keysize:", " [fingure:", " [comment:", " [type:", "[ssh-name:", " [public-key:"]

theorem label_free : ∀ c ∈ ends, ∀ label ∈ labels, c ∉ label.toList := by decide

theorem fields_free (c : Char) (stop : c ∈ ends) (free : c ∉ comment) :
    ∀ field ∈ fingerprintFields key comment ++ publickeyFields key, c ∉ field := by
  have digit : ∀ c ∈ ends, c.isDigit = false := by decide
  have size := sizeText_ne key c (digit c stop)
  have texts := fun line member => text_free key line member c stop
  have joined (label : String) (value : QString) (known : label ∈ labels) (absent : c ∉ value) :
      c ∉ label.toList ++ value := by
    rw [List.mem_append, not_or]
    exact ⟨label_free c stop label known, absent⟩
  intro field member
  simp only [fingerprintFields, publickeyFields, List.cons_append, List.nil_append, List.mem_cons, List.not_mem_nil,
    or_false] at member
  rcases member with rfl | rfl | rfl | rfl | rfl | rfl
  · exact joined _ _ (by simp [labels]) size
  · exact joined _ _ (by simp [labels]) (texts _ (by simp))
  · exact joined _ _ (by simp [labels]) free
  · exact joined _ _ (by simp [labels]) (texts _ (by simp))
  · exact joined _ _ (by simp [labels]) (texts _ (by simp))
  · exact joined _ _ (by simp [labels]) (texts _ (by simp))

def outputLines (key : KeyInfo) (comment : QString) : List QString :=
  ["--publickey--:".toList ++ Text.unlines ']' (publickeyFields key),
    "--fingerprint--:".toList ++ Text.unlines ']' (fingerprintFields key comment)]

theorem outputLines_free (c : Char) (stop : c ∈ ends) (other : c ≠ ']')
    (free : c ∉ comment) : ∀ line ∈ outputLines key comment, c ∉ line := by
  have starts : ∀ c ∈ ends, c ∉ "--publickey--:".toList ∧ c ∉ "--fingerprint--:".toList := by decide
  have fields := fields_free key comment c stop free
  intro line member
  simp only [outputLines, List.mem_cons, List.not_mem_nil, or_false] at member
  rcases member with rfl | rfl
  · rw [List.mem_append, not_or]
    exact ⟨(starts c stop).1, Text.not_mem_unlines c ']' _ other fun field inside =>
      fields field (List.mem_append_right _ inside)⟩
  · rw [List.mem_append, not_or]
    exact ⟨(starts c stop).2, Text.not_mem_unlines c ']' _ other fun field inside =>
      fields field (List.mem_append_left _ inside)⟩

theorem doWotermAction_eq :
    doWotermAction key (some comment) = toUtf8 (Text.unlines '\n' (outputLines key comment)) := by
  have newline : "\n".toList = ['\n'] := by decide
  unfold doWotermAction outputLines
  rw [fingerprintOneKey_eq, sshkeyFormatText_eq, newline, ← List.append_assoc]
  simp only [Text.unlines, List.flatMap_cons, List.flatMap_nil, List.append_nil, List.append_assoc]

theorem keygenInfos_eq (comment : Line) :
    keygenInfos key (some comment.text) = (outputLines key comment.text).foldl readLine ∅ := by
  have clean : NulFree (Text.unlines '\n' (outputLines key comment.text)) :=
    Text.not_mem_unlines _ _ _ (by decide) (outputLines_free key comment.text _ (by decide) (by decide) comment.clean)
  have single := outputLines_free key comment.text '\n' (by decide) (by decide) comment.single
  have start : (Text.unlines '\n' (outputLines key comment.text)).head? = some '-' := by
    have dashes : "--publickey--:".toList = '-' :: "-publickey--:".toList := by decide
    rw [outputLines, dashes]
    rfl
  have nonempty : (Text.unlines '\n' (outputLines key comment.text)).isEmpty = false := by
    cases shape : Text.unlines '\n' (outputLines key comment.text) with
    | nil => rw [shape] at start; cases start
    | cons c rest => rfl
  rw [keygenInfos, doWotermAction_eq, ofByteArray_toUtf8 _ clean (by rw [start]; decide), identifyFileGet, nonempty,
    if_neg Bool.false_ne_true, split, Text.splitOn_unlines '\n' _ single, List.foldl_append, List.foldl_cons,
    List.foldl_nil, readLine_nil]

/-! ## What survives -/

theorem read_field (type full label front name : String) (value : QString) (infos : Infos)
    (shape : label.toList = front.toList ++ '[' :: (name.toList ++ [':']))
    (names : '[' ∉ front.toList ∧ ':' ∉ name.toList ∧ type.toList ++ ".".toList ++ name.toList = full.toList) :
    readBlock type.toList infos (label.toList ++ value) = infos.insert full.toList value :=
  readBlock_field _ _ _ _ _ _ _ shape names.1 names.2.1 names.2.2

/-- The line of the public key is read whatever the comment is. -/
def publickeyInfos (key : KeyInfo) : Infos :=
  ((∅ : Infos).insert "publickey.ssh-name".toList key.sshName.text).insert "publickey.public-key".toList
    key.publicKey.text

theorem publickey_read :
    readLine ∅ ("--publickey--:".toList ++ Text.unlines ']' (publickeyFields key)) = publickeyInfos key := by
  have fields := fields_free key [] ']' (by decide) (by simp)
  rw [readLine_publickey, foldl_readBlock _ _ _ fun field inside => fields field (List.mem_append_right _ inside)]
  simp only [publickeyFields, List.foldl_cons, List.foldl_nil]
  rw [read_field "publickey" "publickey.ssh-name" "[ssh-name:" "" "ssh-name" _ _ (by decide) (by decide),
    read_field "publickey" "publickey.public-key" " [public-key:" " " "public-key" _ _ (by decide) (by decide),
    publickeyInfos]

theorem keygenInfos_fields (comment : Line) (open_ended : ']' ∉ comment.text) : keygenInfos key (some comment.text) =
      ((((publickeyInfos key).insert "fingureprint.keysize".toList key.sizeText).insert "fingureprint.fingure".toList
        key.fingure.text).insert "fingureprint.comment".toList comment.text).insert "fingureprint.type".toList
        key.type.text := by
  have fields := fields_free key comment.text ']' (by decide) open_ended
  rw [keygenInfos_eq, outputLines, List.foldl_cons, List.foldl_cons, List.foldl_nil, publickey_read,
    readLine_fingerprint, foldl_readBlock _ _ _ fun field inside => fields field (List.mem_append_left _ inside)]
  simp only [fingerprintFields, List.foldl_cons, List.foldl_nil]
  rw [read_field "fingureprint" "fingureprint.keysize" "[keysize:" "" "keysize" _ _ (by decide) (by decide),
    read_field "fingureprint" "fingureprint.fingure" " [fingure:" " " "fingure" _ _ (by decide) (by decide),
    read_field "fingureprint" "fingureprint.comment" " [comment:" " " "comment" _ _ (by decide) (by decide),
    read_field "fingureprint" "fingureprint.type" " [type:" " " "type" _ _ (by decide) (by decide)]

theorem lookup_foldl_readBlock (type name : QString) (other : ¬ type ++ ".".toList <+: name) (blocks : List QString)
    (infos : Infos) : (blocks.foldl (readBlock type) infos).lookup name = infos.lookup name := by
  have different (rest : QString) : name ≠ type ++ ".".toList ++ rest := by
    rintro rfl
    exact other (List.prefix_append _ rest)
  induction blocks generalizing infos with
  | nil => rfl
  | cons block blocks ih =>
    rw [List.foldl_cons, ih]
    unfold readBlock
    split
    · rfl
    · split <;> exact Finmap.lookup_insert_of_ne _ (different _)

theorem lookup_insert_other (first second : String) (value : QString) (infos : Infos)
    (other : first.toList ≠ second.toList) :
    (infos.insert second.toList value).lookup first.toList = infos.lookup first.toList :=
  Finmap.lookup_insert_of_ne infos other

theorem publickey_kept (comment : Line) :
    (keygenInfos key (some comment.text)).lookup "publickey.ssh-name".toList = some key.sshName.text ∧
      (keygenInfos key (some comment.text)).lookup "publickey.public-key".toList = some key.publicKey.text := by
  rw [keygenInfos_eq, outputLines, List.foldl_cons, List.foldl_cons, List.foldl_nil, publickey_read,
    readLine_fingerprint, lookup_foldl_readBlock _ _ (by decide), lookup_foldl_readBlock _ _ (by decide),
    publickeyInfos]
  refine ⟨?_, Finmap.lookup_insert _⟩
  rw [lookup_insert_other _ _ _ _ (by decide), Finmap.lookup_insert]

/-- The key comes through the pipe exactly when its comment has no closing bracket. A value never has one, and
an opening bracket or a colon in the comment does no harm. The public key itself always comes through. -/
theorem survives_iff (key : KeyInfo) (comment : Line) :
    (Survives key comment.text ↔ ']' ∉ comment.text) ∧
      (keygenInfos key (some comment.text)).lookup "publickey.ssh-name".toList = some key.sshName.text ∧
      (keygenInfos key (some comment.text)).lookup "publickey.public-key".toList = some key.publicKey.text := by
  refine ⟨⟨?_, ?_⟩, publickey_kept key comment⟩
  · intro survives
    exact identifyFileGet_bracketless _ _ _ survives.1
  · intro open_ended
    obtain ⟨sshName, publicKey⟩ := publickey_kept key comment
    refine ⟨?_, ?_, ?_, sshName, publicKey⟩
    · rw [keygenInfos_fields key comment open_ended, lookup_insert_other _ _ _ _ (by decide), Finmap.lookup_insert]
    · rw [keygenInfos_fields key comment open_ended, Finmap.lookup_insert]
    · rw [keygenInfos_fields key comment open_ended, lookup_insert_other _ _ _ _ (by decide),
        lookup_insert_other _ _ _ _ (by decide), lookup_insert_other _ _ _ _ (by decide), Finmap.lookup_insert]

def sampleKey : KeyInfo where
  size := 2048
  fingure := ⟨"SHA256:q".toList, by decide, by decide⟩
  type := ⟨"RSA".toList, by decide, by decide⟩
  sshName := ⟨"ssh-rsa".toList, by decide, by decide⟩
  publicKey := ⟨"AAAA".toList, by decide, by decide⟩
  brackets := by decide

def forgery : Line := ⟨"me] [keysize:1".toList, by decide, by decide⟩

/-- A comment that closes its own bracket is cut there and gives the key another size. -/
theorem forged_keysize :
    ¬ Survives sampleKey forgery.text ∧
      (keygenInfos sampleKey (some forgery.text)).lookup "fingureprint.comment".toList = some "me".toList ∧
      (keygenInfos sampleKey (some forgery.text)).lookup "fingureprint.keysize".toList = some "1".toList := by
  unfold Survives
  rw [keygenInfos_eq sampleKey forgery]
  decide +kernel

end Woterm.SshConf.KeygenPipe
