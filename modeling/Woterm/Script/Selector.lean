import Mathlib.Data.Finset.Sort
import Woterm.Lib.Utf16
import Woterm.Script.TaskFile
import Woterm.SshConf.Reopen

/-!
`QWoScriptSelector`: the box that lists the tasks of a file, the two fields that show the chosen one, and the
buttons that start it. The fields are shown from the task, and the start takes the task and the fields.
-/

namespace Woterm.Script.Selector
open Woterm.Lib Woterm.Qt Woterm.Qt.QString Woterm.Qt.Paths Woterm.Script.TaskFile
open Woterm.SshConf.Reopen (lineEdit left_short)

/-- The loaded file with the list `task` and the fields `entry` and `args`. -/
structure QWoScriptSelector where
  loaded : Loaded
  items : List QString := []
  currentIndex : Nat := 0
  entry : QString := []
  args : QString := []

def valueOf (tasks : Tasks) (name : QString) : Task := (tasks.lookup name).getD { name := [], entry := [] }

def currentText (selector : QWoScriptSelector) : QString := (selector.items[selector.currentIndex]?).getD []

def onCurrentIndexChanged (txt : QString) (selector : QWoScriptSelector) : QWoScriptSelector :=
  let t := valueOf selector.loaded.mTasks txt
  { selector with entry := lineEdit t.entry, args := lineEdit (join t.args ",".toList) }

/-- The user picks an item; the one that is current already is not reported. -/
def choose (selector : QWoScriptSelector) (index : Nat) : QWoScriptSelector :=
  if index = selector.currentIndex ∨ selector.items.length ≤ index then selector
  else
    let selector := { selector with currentIndex := index }
    onCurrentIndexChanged (currentText selector) selector

def sortedKeys (tasks : Tasks) : List QString := tasks.keys.sort Utf16.LessEq

/-- `reinit`: the fields are set from the first task after the list has been filled. -/
def reinit (system : FileSystem) (selector : QWoScriptSelector) : Option QWoScriptSelector := do
  let (accepted, loaded, _) ← parse system selector.loaded
  if accepted then
    let items := sortedKeys loaded.mTasks
    some (onCurrentIndexChanged (items.headD []) { selector with loaded, items, currentIndex := 0 })
  else some { selector with loaded }

/-- The task that is started: a copy of the chosen one, changed by the fields. -/
def reset (selector : QWoScriptSelector) : Task :=
  let t := valueOf selector.loaded.mTasks (currentText selector)
  let entry := trimmed selector.entry
  let targs := trimmed selector.args
  { t with
    entry := if entry.isEmpty then "main".toList else entry
    args := if targs.isEmpty then t.args else t.args ++ (split targs ',').map trimmed }

inductive Button where
  | run
  | debug
deriving DecidableEq, Repr

/-- `readyRun` or `readyDebug`. -/
structure Ready where
  button : Button
  fullPath : QString
  scriptFiles : List QString
  entry : QString
  args : List QString
deriving DecidableEq, Repr

/-- `onBtnRunClicked` and `onBtnDebugClicked`: the signal, or nothing but a warning for a task without a name. -/
def press (button : Button) (selector : QWoScriptSelector) : Option Ready :=
  let t := reset selector
  if t.name.isEmpty then none
  else some {
    button, fullPath := selector.loaded.mFullPath, scriptFiles := t.files, entry := t.entry, args := t.args }

/-! ## The fields -/

/-- The fields show the current task. -/
def Shows (selector : QWoScriptSelector) : Prop :=
  let t := valueOf selector.loaded.mTasks (currentText selector)
  selector.entry = lineEdit t.entry ∧ selector.args = lineEdit (join t.args ",".toList)

theorem choose_loaded (selector : QWoScriptSelector) (index : Nat) :
    (choose selector index).loaded = selector.loaded := by
  unfold choose
  split <;> rfl

theorem choose_shows (selector : QWoScriptSelector) (index : Nat) (shows : Shows selector) :
    Shows (choose selector index) := by
  unfold choose
  split
  · exact shows
  · exact ⟨rfl, rfl⟩

theorem choices_show (choices : List Nat) (selector : QWoScriptSelector) (shows : Shows selector) :
    Shows (choices.foldl choose selector) ∧ (choices.foldl choose selector).loaded = selector.loaded := by
  induction choices generalizing selector with
  | nil => exact ⟨shows, rfl⟩
  | cons index choices ih =>
    obtain ⟨later, same⟩ := ih (choose selector index) (choose_shows selector index shows)
    exact ⟨later, same.trans (choose_loaded selector index)⟩

theorem reinit_shows (system : FileSystem) (selector next : QWoScriptSelector) (content : QByteArray)
    (tasks : List Task) (opened : system.content (cleanPath selector.loaded.scriptFile) = some content)
    (read : readTasks system selector.loaded.directory content = .ok tasks) (some_task : tasks ≠ [])
    (started : reinit system selector = some next) :
    Shows next ∧ next.loaded.mFullPath = selector.loaded.directory ∧
      next.loaded.mTasks = MapFold.insertAll Task.name id ∅ tasks := by
  rw [reinit, parse_ok system selector.loaded content tasks opened read, Option.bind_eq_bind,
    Option.bind_some] at started
  dsimp only at started
  rw [decide_eq_true (insertAll_ne_empty tasks some_task), if_pos rfl] at started
  have first : ((sortedKeys (MapFold.insertAll Task.name id ∅ tasks))[0]?).getD [] =
      (sortedKeys (MapFold.insertAll Task.name id ∅ tasks)).headD [] := by
    cases sortedKeys (MapFold.insertAll Task.name id ∅ tasks) <;> rfl
  rw [← Option.some.inj started]
  refine ⟨?_, rfl, rfl⟩
  unfold Shows currentText onCurrentIndexChanged
  dsimp only
  rw [first]
  exact ⟨rfl, rfl⟩

/-! ## The start -/

def ready (button : Button) (fullPath : QString) (task : Task) : Ready where
  button
  fullPath
  scriptFiles := task.files
  entry := task.entry
  args := task.args

/-- The fields give the definition back: the entry as it is, and no arguments, since these are added to those that
the task has already. -/
structure Kept (task : Task) : Prop where
  named : task.name ≠ []
  some_entry : task.entry ≠ []
  entry : trimmed (lineEdit task.entry) = task.entry
  args : trimmed (lineEdit (join task.args ",".toList)) = []

theorem entry_iff (entry : QString) :
    (if (trimmed (lineEdit entry)).isEmpty then "main".toList else trimmed (lineEdit entry)) = entry ↔
      entry ≠ [] ∧ trimmed (lineEdit entry) = entry := by
  by_cases blank : trimmed (lineEdit entry) = []
  · rw [if_pos (by simp [blank]), blank]
    refine ⟨?_, fun kept => absurd kept.2.symm kept.1⟩
    rintro rfl
    have shown : trimmed (lineEdit "main".toList) ≠ [] := by decide
    exact absurd blank shown
  · rw [if_neg (by simp [blank])]
    refine ⟨fun same => ⟨?_, same⟩, And.right⟩
    rintro rfl
    exact blank same

theorem args_iff (args : List QString) (targs : QString) :
    (if targs.isEmpty then args else args ++ (split targs ',').map trimmed) = args ↔ targs = [] := by
  by_cases blank : targs = []
  · simp [blank]
  · have parts : (split targs ',').map trimmed ≠ [] := by
      rw [Ne, List.map_eq_nil_iff]
      exact List.splitOn_ne_nil ',' targs
    rw [if_neg (by simp [blank])]
    simp [blank, parts]

theorem reset_eq (selector : QWoScriptSelector) (shows : Shows selector) (task : Task)
    (chosen : currentText selector = task.name) (found : selector.loaded.mTasks.lookup task.name = some task) :
    reset selector = { task with
      entry := if (trimmed (lineEdit task.entry)).isEmpty then "main".toList else trimmed (lineEdit task.entry)
      args := if (trimmed (lineEdit (join task.args ",".toList))).isEmpty then task.args
        else task.args ++ (split (trimmed (lineEdit (join task.args ",".toList))) ',').map trimmed } := by
  have value : valueOf selector.loaded.mTasks (currentText selector) = task := by
    rw [valueOf, chosen, found, Option.getD_some]
  unfold Shows at shows
  rw [value] at shows
  unfold reset
  rw [value, shows.1, shows.2]

theorem press_iff (button : Button) (selector : QWoScriptSelector) (shows : Shows selector) (task : Task)
    (chosen : currentText selector = task.name) (found : selector.loaded.mTasks.lookup task.name = some task) :
    press button selector = some (ready button selector.loaded.mFullPath task) ↔ Kept task := by
  rw [press, reset_eq selector shows task chosen found]
  dsimp only
  by_cases unnamed : task.name = []
  · rw [if_pos (by simp [unnamed])]
    refine ⟨?_, fun kept => absurd unnamed kept.named⟩
    intro absent
    cases absent
  · rw [if_neg (by simp [unnamed]), Option.some_inj, ready, Ready.mk.injEq]
    simp only [true_and, entry_iff, args_iff]
    exact ⟨fun ⟨⟨some_entry, entry⟩, args⟩ => ⟨unnamed, some_entry, entry, args⟩,
      fun kept => ⟨⟨kept.some_entry, kept.entry⟩, kept.args⟩⟩

/-- Arguments that a file can give and the field can show. -/
structure Plain (args : List QString) : Prop where
  some_arg : args ≠ []
  words : ∀ arg ∈ args, arg ≠ [] ∧ Trimmed arg
  single : ∀ arg ∈ args, ',' ∉ arg
  short : 2 * (join args ",".toList).length ≤ 32767

theorem press_args (button : Button) (selector : QWoScriptSelector) (shows : Shows selector) (task : Task)
    (chosen : currentText selector = task.name) (found : selector.loaded.mTasks.lookup task.name = some task)
    (named : task.name ≠ []) (plain : Plain task.args) :
    (press button selector).map Ready.args = some (task.args ++ task.args) := by
  obtain ⟨nonempty, ends⟩ := Text.trimmed_intercalate ",".toList task.args plain.some_arg plain.words
  have shown : trimmed (lineEdit (join task.args ",".toList)) = join task.args ",".toList := by
    rw [lineEdit, left_short _ _ plain.short, trimmed, join, Text.trim_eq_self _ ends]
  have parts : split (join task.args ",".toList) ',' = task.args :=
    List.splitOn_intercalate ',' plain.single plain.some_arg
  have same : task.args.map trimmed = task.args :=
    (List.map_congr_left fun arg member => Text.trim_eq_self arg (plain.words arg member).2).trans (List.map_id' _)
  rw [press, reset_eq selector shows task chosen found]
  dsimp only
  rw [if_neg (by simp [named]), Option.map_some]
  dsimp only
  rw [shown, if_neg (by simpa [join] using nonempty), parts, same]

/-- With distinct names, a task of the file that has been chosen after any other choices is started as it is defined
exactly when the fields keep it. Ordinary arguments never are: they are handed over twice. -/
theorem started_as_defined_iff (system : FileSystem) (selector final : QWoScriptSelector) (content : QByteArray)
    (tasks : List Task) (opened : system.content (cleanPath selector.loaded.scriptFile) = some content)
    (read : readTasks system selector.loaded.directory content = .ok tasks)
    (distinct : (tasks.map Task.name).Nodup) (task : Task) (member : task ∈ tasks) (choices : List Nat)
    (reached : (reinit system selector).map (choices.foldl choose) = some final)
    (chosen : currentText final = task.name) (button : Button) :
    (press button final = some (ready button selector.loaded.directory task) ↔ Kept task) ∧
      (task.name ≠ [] → Plain task.args → (press button final).map Ready.args = some (task.args ++ task.args)) := by
  obtain ⟨next, started, rfl⟩ := Option.map_eq_some_iff.mp reached
  obtain ⟨first, path, stored⟩ := reinit_shows system selector next content tasks opened read
    (List.ne_nil_of_mem member) started
  obtain ⟨shows, same⟩ := choices_show choices next first
  have found : (choices.foldl choose next).loaded.mTasks.lookup task.name = some task := by
    rw [same, stored]
    apply MapFold.lookup_insertAll_of_mem Task.name id ∅ tasks task member
    intro other inside name
    exact List.inj_on_of_nodup_map distinct inside member name
  refine ⟨?_, press_args button _ shows task chosen found⟩
  rw [← press_iff button _ shows task chosen found, same, path]

def exampleSelector : QWoScriptSelector where
  loaded := exampleState

def helloTask (args : List QString) : Task where
  name := "hello".toList
  files := ["/js/hello.js".toList]
  args

theorem started_as_defined_hello : ∃ final,
    (reinit (exampleSystem "Task hello\nFiles hello.js\n") exampleSelector).map ([0].foldl choose) = some final ∧
      press .run final = some (ready .run "/js".toList (helloTask [])) := by
  have some_final : ((reinit (exampleSystem "Task hello\nFiles hello.js\n") exampleSelector).map
      ([0].foldl choose)).map currentText = some "hello".toList := by decide +kernel
  obtain ⟨final, reached, chosen⟩ := Option.map_eq_some_iff.mp some_final
  refine ⟨final, reached, (started_as_defined_iff _ _ final _ [helloTask []] rfl ?_ ?_ (helloTask [])
    List.mem_cons_self [0] reached chosen .run).1.mpr ?_⟩
  · decide +kernel
  · decide
  · exact ⟨by decide, by decide, by decide, by decide⟩

/-- Two arguments of the file become four. -/
theorem arguments_doubled :
    readTasks (exampleSystem "") "/js".toList (toUtf8 "Task hello\nFiles hello.js\nArguments a,b\n".toList) =
        .ok [helloTask ["a".toList, "b".toList]] ∧
      (reinit (exampleSystem "Task hello\nFiles hello.js\nArguments a,b\n") exampleSelector).bind (press .run) =
        some { ready .run "/js".toList (helloTask ["a".toList, "b".toList]) with
          args := ["a".toList, "b".toList, "a".toList, "b".toList] } := by
  decide +kernel

end Woterm.Script.Selector
