import Mathlib.Data.Finmap
import Woterm.Lib.MapFold
import Woterm.Lib.Run
import Woterm.Qt.Paths

/-!
`QWoScriptSelector::parse`: the file that names the tasks of a script directory. A line starts a task or belongs
to the last one, which a reference to the last element of the list stands for.
-/

namespace Woterm.Script.TaskFile
open Woterm.Lib Woterm.Qt Woterm.Qt.QString Woterm.Qt.Paths

structure Task where
  name : QString
  entry : QString := "main".toList
  args : List QString := []
  files : List QString := []
deriving DecidableEq, Repr

abbrev Tasks := Finmap fun _ : QString => Task

/-- The files as the program sees them. -/
structure FileSystem where
  /-- The bytes of a file that can be opened. -/
  content : QString → Option QByteArray
  found : QString → Bool

/-- The members of the selector that `parse` reads and writes, with the text of the field `scriptFile`. -/
structure Loaded where
  scriptFile : QString := []
  mFullPath : QString := []
  mTasks : Tasks := ∅
deriving DecidableEq

/-- Why the loop ends before the end of the file. -/
inductive Stop where
  /-- The last element of an empty list is taken. -/
  | undefined
  | missing (path : QString)
deriving DecidableEq, Repr

def isSpaceByte (byte : UInt8) : Bool := (9 ≤ byte && byte ≤ 13) || byte == 32

def trimmedBytes (bytes : QByteArray) : QByteArray := Text.trim isSpaceByte bytes

/-- The bytes of a keyword with the blank behind it. -/
def keyword (word : String) : QByteArray := toUtf8 word.toList

def isTask (line : QByteArray) : Bool := (keyword "Task ").isPrefixOf line

def isFiles (line : QByteArray) : Bool := (keyword "Files ").isPrefixOf line

def isEntry (line : QByteArray) : Bool := (keyword "Entry ").isPrefixOf line

def isArguments (line : QByteArray) : Bool := (keyword "Arguments ").isPrefixOf line

/-- The lines that are read until the end of the file; none is left behind the last `\n`. -/
def fileLines (content : QByteArray) : List QByteArray :=
  let parts := content.splitOn 10
  if parts.getLast? = some [] then parts.dropLast else parts

/-- The parts of a list in a line, without the blanks around them. -/
def listed (text : QByteArray) : List QString := (text.splitOn 44).map fun part => ofByteArray (trimmedBytes part)

variable (system : FileSystem) (fullPath : QString)

def scriptPath (file : QString) : QString := cleanPath (fullPath ++ "/./".toList ++ file)

def addFile (t : Task) (file : QString) : Except Stop Task :=
  let tmp := scriptPath fullPath file
  if system.found tmp then .ok { t with files := t.files ++ [tmp] } else .error (.missing tmp)

/-- A line that belongs to a task; blank lines and comments are among them. -/
def taskLine (t : Task) (line : QByteArray) : Except Stop Task :=
  if isFiles line then (listed (line.drop 6)).foldlM (addFile system fullPath) t
  else if isEntry line then .ok { t with entry := ofByteArray (trimmedBytes (line.drop 6)) }
  else if isArguments line then .ok { t with args := t.args ++ listed (line.drop 10) }
  else .ok t

def parseLine (tasks : List Task) (line : QByteArray) : Except Stop (List Task) :=
  let line := trimmedBytes line
  if isTask line then .ok (tasks ++ [{ name := simplified (ofByteArray (line.drop 5)) }])
  else match tasks.getLast? with
    | none => .error .undefined
    | some t => do
      let t ← taskLine system fullPath t line
      .ok (tasks.dropLast ++ [t])

def readTasks (content : QByteArray) : Except Stop (List Task) :=
  (fileLines content).foldlM (parseLine system fullPath) []

/-- `fullName.mid(0, fullName.lastIndexOf('/'))`, which is the whole text when there is no slash. -/
def directoryOf (fullName : QString) : QString :=
  if '/' ∈ fullName then (fullName.rdropWhile (· != '/')).dropLast else fullName

/-- The text of the warning for a script that is not there. -/
def missingText (path : QString) : QString := "can't find the file:".toList ++ path

/-- `parse`, where slashes separate a path: whether a file is accepted, with the warnings shown. There is no result
when the last element of an empty list is taken. -/
def parse (state : Loaded) : Option (Bool × Loaded × List QString) :=
  let fullName := cleanPath state.scriptFile
  match system.content fullName with
  | none => some (false, state, [])
  | some content =>
    let state := { state with mFullPath := directoryOf fullName }
    match readTasks system state.mFullPath content with
    | .error .undefined => none
    | .error (.missing path) => some (false, state, [missingText path])
    | .ok tasks =>
      let mTasks := MapFold.insertAll Task.name id ∅ tasks
      some (decide (mTasks ≠ ∅), { state with mTasks }, [])

/-- It returns, and if it does not accept the file then nothing has changed. -/
def Safe (state : Loaded) : Prop :=
  ∃ accepted after warnings, parse system state = some (accepted, after, warnings) ∧
    (accepted = false → after.mTasks = state.mTasks ∧ after.mFullPath = state.mFullPath)

/-- The scripts that a line names. -/
def scripts (line : QByteArray) : List QString :=
  if isFiles (trimmedBytes line) then (listed ((trimmedBytes line).drop 6)).map (scriptPath fullPath) else []

/-! ## The loop -/

/-- Every script that a line names is there. -/
def Present (line : QByteArray) : Prop := ∀ path ∈ scripts fullPath line, system.found path = true

variable (tasks : List Task) (t : Task) (line : QByteArray)

theorem addFile_ok (file : QString) (there : system.found (scriptPath fullPath file) = true) :
    ∃ next, addFile system fullPath t file = .ok next ∧ True :=
  ⟨_, if_pos there, trivial⟩

theorem addFile_missing (file : QString) (gone : ¬ system.found (scriptPath fullPath file) = true) :
    ∃ stop, addFile system fullPath t file = .error stop ∧ ∃ path, stop = .missing path :=
  ⟨_, if_neg gone, _, rfl⟩

theorem taskLine_ok (present : Present system fullPath line) :
    ∃ next, taskLine system fullPath t (trimmedBytes line) = .ok next := by
  unfold taskLine
  split
  · rename_i files
    rw [Present, scripts, if_pos files, List.forall_mem_map] at present
    obtain ⟨next, read, -⟩ := Run.foldlM_ok
      (fun t file (_ : True) there => addFile_ok system fullPath t file there) _ present t trivial
    exact ⟨next, read⟩
  · split
    · exact ⟨_, rfl⟩
    · split <;> exact ⟨_, rfl⟩

theorem taskLine_missing (absent : ¬ Present system fullPath line) :
    ∃ path, taskLine system fullPath t (trimmedBytes line) = .error (.missing path) := by
  by_cases files : isFiles (trimmedBytes line) = true
  · rw [Present, scripts, if_pos files, List.forall_mem_map] at absent
    obtain ⟨stop, failed, path, rfl⟩ := Run.foldlM_error
      (fun t file (_ : True) there => addFile_ok system fullPath t file there)
      (fun t file _ gone => addFile_missing system fullPath t file gone) _ absent t trivial
    exact ⟨path, by rw [taskLine, if_pos files, failed]⟩
  · rw [Present, scripts, if_neg files] at absent
    simp at absent

theorem present_of_isTask (task : isTask (trimmedBytes line) = true) : Present system fullPath line := by
  have other : isFiles (trimmedBytes line) = false := by
    obtain ⟨rest, same⟩ := List.isPrefixOf_iff_prefix.mp task
    rw [← same]
    rfl
  rw [Present, scripts, if_neg (by simp [other])]
  simp

theorem parseLine_ok (some_task : tasks ≠ []) (present : Present system fullPath line) :
    ∃ next, parseLine system fullPath tasks line = .ok next ∧ next ≠ [] := by
  unfold parseLine
  dsimp only
  split
  · exact ⟨_, rfl, by simp⟩
  · obtain ⟨t, read⟩ := taskLine_ok system fullPath (tasks.getLast some_task) line present
    rw [List.getLast?_eq_some_getLast some_task]
    dsimp only
    rw [read]
    exact ⟨_, rfl, by simp⟩

theorem parseLine_missing (some_task : tasks ≠ []) (absent : ¬ Present system fullPath line) :
    ∃ stop, parseLine system fullPath tasks line = .error stop ∧ ∃ path, stop = .missing path := by
  unfold parseLine
  dsimp only
  split
  · rename_i task
    exact absurd (present_of_isTask system fullPath line task) absent
  · obtain ⟨path, failed⟩ := taskLine_missing system fullPath (tasks.getLast some_task) line absent
    rw [List.getLast?_eq_some_getLast some_task]
    dsimp only
    rw [failed]
    exact ⟨_, rfl, path, rfl⟩

/-! ## The file -/

theorem fileLines_eq_nil (content : QByteArray) : fileLines content = [] ↔ content = [] := by
  refine ⟨?_, ?_⟩
  · intro none
    have some_part := List.splitOn_ne_nil (10 : UInt8) content
    unfold fileLines at none
    dsimp only at none
    split at none
    · rename_i last
      have whole := List.dropLast_append_getLast? [] last
      rw [none, List.nil_append] at whole
      have joined : [10].intercalate (content.splitOn 10) = content := List.intercalate_splitOn 10
      rw [← joined, ← whole]
      rfl
    · exact absurd none some_part
  · rintro rfl
    rfl

section
variable (first : QByteArray) (rest : List QByteArray)

theorem foldlM_parseLine_undefined (other : ¬ isTask (trimmedBytes first) = true) :
    (first :: rest).foldlM (parseLine system fullPath) [] = .error .undefined := by
  rw [List.foldlM_cons, parseLine, if_neg other]
  rfl

theorem foldlM_parseLine_ok (task : isTask (trimmedBytes first) = true)
    (present : ∀ line ∈ rest, Present system fullPath line) :
    ∃ tasks, (first :: rest).foldlM (parseLine system fullPath) [] = .ok tasks ∧ tasks ≠ [] := by
  rw [List.foldlM_cons, parseLine, if_pos task]
  exact Run.foldlM_ok (parseLine_ok system fullPath) rest present _ (by simp)

theorem foldlM_parseLine_missing (task : isTask (trimmedBytes first) = true)
    (absent : ¬ ∀ line ∈ rest, Present system fullPath line) :
    ∃ path, (first :: rest).foldlM (parseLine system fullPath) [] = .error (.missing path) := by
  rw [List.foldlM_cons, parseLine, if_pos task]
  obtain ⟨stop, failed, path, rfl⟩ := Run.foldlM_error (parseLine_ok system fullPath)
    (parseLine_missing system fullPath) rest absent _ (List.cons_ne_nil _ _)
  exact ⟨path, failed⟩

end

theorem insertAll_ne_empty (some_task : tasks ≠ []) : MapFold.insertAll Task.name id ∅ tasks ≠ ∅ := by
  obtain ⟨task, member⟩ := List.exists_mem_of_ne_nil tasks some_task
  intro empty
  rcases MapFold.lookup_insertAll_cases Task.name id ∅ tasks task.name with ⟨-, absent⟩ | ⟨other, -, -, stored⟩
  · exact absent task member rfl
  · rw [empty, Finmap.lookup_empty] at stored
    cases stored

section
variable (state : Loaded) (content : QByteArray)

/-- The directory that the scripts of the file are in. -/
def Loaded.directory (state : Loaded) : QString := directoryOf (cleanPath state.scriptFile)

theorem parse_ok (tasks : List Task) (opened : system.content (cleanPath state.scriptFile) = some content)
    (read : readTasks system state.directory content = .ok tasks) :
    parse system state = some (decide (MapFold.insertAll Task.name id ∅ tasks ≠ ∅),
      { state with mFullPath := state.directory, mTasks := MapFold.insertAll Task.name id ∅ tasks }, []) := by
  rw [Loaded.directory] at read
  simp only [parse, opened, read, Loaded.directory]

theorem parse_missing (path : QString) (opened : system.content (cleanPath state.scriptFile) = some content)
    (failed : readTasks system state.directory content = .error (.missing path)) :
    parse system state = some (false, { state with mFullPath := state.directory }, [missingText path]) := by
  rw [Loaded.directory] at failed
  simp only [parse, opened, failed, Loaded.directory]

theorem parse_undefined (opened : system.content (cleanPath state.scriptFile) = some content)
    (failed : readTasks system state.directory content = .error .undefined) : parse system state = none := by
  rw [Loaded.directory] at failed
  simp only [parse, opened, failed]

theorem safe_iff (accepted : Bool) (after : Loaded) (warnings : List QString)
    (parsed : parse system state = some (accepted, after, warnings)) :
    Safe system state ↔ (accepted = false → after.mTasks = state.mTasks ∧ after.mFullPath = state.mFullPath) := by
  rw [Safe, parsed]
  refine ⟨?_, fun unchanged => ⟨accepted, after, warnings, rfl, unchanged⟩⟩
  rintro ⟨other, later, shown, same, unchanged⟩
  obtain ⟨rfl, rfl, rfl⟩ : accepted = other ∧ after = later ∧ warnings = shown := by simpa using same
  exact unchanged

end

/-- A file that `parse` can load without harm in this state. -/
inductive Harmless (state : Loaded) (content : QByteArray) : Prop where
  /-- No task was there, and the directory is the same. -/
  | empty (nothing : content = []) (none : state.mTasks = ∅) (same : state.mFullPath = state.directory)
  | tasks (first : QByteArray) (rest : List QByteArray) (lines : fileLines content = first :: rest)
      (task : isTask (trimmedBytes first) = true)
      (found : (∀ line ∈ rest, Present system state.directory line) ∨ state.mFullPath = state.directory)

theorem harmless_cons (state : Loaded) (content first : QByteArray) (rest : List QByteArray)
    (lines : fileLines content = first :: rest) :
    Harmless system state content ↔ isTask (trimmedBytes first) = true ∧
      ((∀ line ∈ rest, Present system state.directory line) ∨ state.mFullPath = state.directory) := by
  refine ⟨?_, fun ⟨task, found⟩ => .tasks first rest lines task found⟩
  rintro (⟨nothing, -, -⟩ | ⟨other, others, shape, task, found⟩)
  · rw [(fileLines_eq_nil content).mpr nothing] at lines
    cases lines
  · rw [lines] at shape
    obtain ⟨rfl, rfl⟩ := List.cons.inj shape
    exact ⟨task, found⟩

/-- Loading returns and keeps what it does not replace exactly for a file that cannot be opened or is harmless: a
first line that starts no task is attached to the last of no tasks, a missing script leaves the new directory, and
an empty file takes all tasks away. -/
theorem parse_safe_iff (state : Loaded) :
    Safe system state ↔ ∀ content, system.content (cleanPath state.scriptFile) = some content →
      Harmless system state content := by
  cases opened : system.content (cleanPath state.scriptFile) with
  | none =>
    have parsed : parse system state = some (false, state, []) := by simp only [parse, opened]
    rw [safe_iff system state _ _ _ parsed]
    simp
  | some content =>
    simp only [Option.some.injEq, forall_eq']
    cases lines : fileLines content with
    | nil =>
      have read : readTasks system state.directory content = .ok [] := by rw [readTasks, lines]; rfl
      rw [safe_iff system state _ _ _ (parse_ok system state content [] opened read)]
      refine ⟨?_, ?_⟩
      · intro unchanged
        obtain ⟨tasks, path⟩ := unchanged (by simp [MapFold.insertAll])
        exact .empty ((fileLines_eq_nil content).mp lines) tasks.symm path.symm
      · rintro (⟨-, none, same⟩ | ⟨first, rest, shape, -, -⟩) -
        · exact ⟨none.symm, same.symm⟩
        · rw [lines] at shape
          cases shape
    | cons first rest =>
      rw [harmless_cons system state content first rest lines]
      by_cases task : isTask (trimmedBytes first) = true
      · by_cases present : ∀ line ∈ rest, Present system state.directory line
        · obtain ⟨tasks, folded, some_task⟩ := foldlM_parseLine_ok system state.directory first rest task present
          have read : readTasks system state.directory content = .ok tasks := by rw [readTasks, lines, folded]
          rw [safe_iff system state _ _ _ (parse_ok system state content tasks opened read)]
          have accepted := insertAll_ne_empty tasks some_task
          exact ⟨fun _ => ⟨task, .inl present⟩, fun _ refused => absurd accepted (of_decide_eq_false refused)⟩
        · obtain ⟨path, folded⟩ := foldlM_parseLine_missing system state.directory first rest task present
          have failed : readTasks system state.directory content = .error (.missing path) := by
            rw [readTasks, lines, folded]
          rw [safe_iff system state _ _ _ (parse_missing system state content path opened failed)]
          simp [task, present, eq_comm]
      · have folded := foldlM_parseLine_undefined system state.directory first rest task
        have failed : readTasks system state.directory content = .error .undefined := by rw [readTasks, lines, folded]
        simp [Safe, parse_undefined system state content opened failed, task]

/-- The example of the selector, with one script that is there. -/
def exampleSystem (text : String) : FileSystem where
  content name := if name = "/js/hello.conf".toList then some (toUtf8 text.toList) else none
  found path := path = "/js/hello.js".toList

/-- A selector with a task of another file. -/
def exampleState : Loaded where
  scriptFile := "/js/hello.conf".toList
  mFullPath := "/old".toList
  mTasks := Finmap.singleton "old".toList { name := "old".toList }

/-- A blank line in front of the first task is undefined, an empty file takes the tasks away, and a missing script
pairs the old tasks with the new directory. -/
theorem parse_not_safe :
    (parse (exampleSystem "\nTask hello\nFiles hello.js\n") exampleState = none ∧
      ¬ Safe (exampleSystem "\nTask hello\nFiles hello.js\n") exampleState) ∧
    (parse (exampleSystem "") exampleState =
        some (false, { exampleState with mFullPath := "/js".toList, mTasks := ∅ }, []) ∧
      ¬ Safe (exampleSystem "") exampleState) ∧
    parse (exampleSystem "Task hello\nFiles gone.js\n") exampleState =
        some (false, { exampleState with mFullPath := "/js".toList }, ["can't find the file:/js/gone.js".toList]) ∧
      ¬ Safe (exampleSystem "Task hello\nFiles gone.js\n") exampleState := by
  have blank : parse (exampleSystem "\nTask hello\nFiles hello.js\n") exampleState = none := by decide +kernel
  have empty : parse (exampleSystem "") exampleState =
      some (false, { exampleState with mFullPath := "/js".toList, mTasks := ∅ }, []) := by decide +kernel
  have gone : parse (exampleSystem "Task hello\nFiles gone.js\n") exampleState =
      some (false, { exampleState with mFullPath := "/js".toList }, ["can't find the file:/js/gone.js".toList]) := by
    decide +kernel
  refine ⟨⟨blank, ?_⟩, ⟨empty, ?_⟩, gone, ?_⟩
  · simp [Safe, blank]
  · rw [safe_iff _ _ _ _ _ empty]
    decide +kernel
  · rw [safe_iff _ _ _ _ _ gone]
    decide +kernel

end Woterm.Script.TaskFile
