import Mathlib.Data.Finmap
import Mathlib.Data.Finset.Sort
import Woterm.Lib.MapFold
import Woterm.Script.ShellProcess

/-!
`QWoShellCommand` and `QWoResult`: an operation is carried out on one process after the other
until one fails, and the exit codes and outputs are collected by target. A failure is reported
exactly when each process that is reached leaves an exit code that agrees with its result.
-/

namespace Woterm.Script.ShellCommand
open Woterm.Lib Woterm.Qt Woterm.Qt.QString Woterm.Script.ShellProcess

structure Result where
  guessCmd : QString
  guessCode : Int32
  guessOutput : QString
deriving DecidableEq, Repr

/-- `QWoResult`, which is the map `m_data`. -/
abbrev QWoResult := Finmap fun _ : QString => Result

/-- The values in the order of a `QMap`. -/
def values (result : QWoResult) : List Result :=
  (result.keys.sort Utf16.LessEq).filterMap result.lookup

/-- `QWoResult::append`; `takeFirst` is not defined on an empty list. -/
def append (result : QWoResult) (proc : QWoShellProcess) : Option QWoResult :=
  match proc.cmdOutput with
  | [] => none
  | cmd :: output => some (result.insert proc.target
      { guessCmd := cmd, guessCode := proc.cmdExitCode, guessOutput := join output "\r\n".toList })

def hasError (result : QWoResult) : Bool :=
  (values result).isEmpty || (values result).any fun entry => entry.guessCode ≠ 0

structure QWoShellCommand where
  all : List QWoShellProcess
  /-- What was shown in the terminal. -/
  shown : List QString := []

def showError (message : QString) (shell : QWoShellCommand) : QWoShellCommand :=
  { shell with shown := shell.shown ++ ["\x1b[1m\x1b[31m\r\n".toList ++ message ++ "\x1b[0m\r\n".toList] }

/-- The name of an operation in the message about its failure. -/
def label : Command → QString
  | .execCommand cmd => cmd
  | .runSudo _ => "sudo".toList
  | .su _ _ => "su".toList
  | .upload _ => "upload".toList
  | .download _ _ => "download".toList

def showCommandFailure (cmd host : QString) (shell : QWoShellCommand) : QWoShellCommand :=
  showError ("failed to execute command[".toList ++ cmd ++ "] on target host[".toList ++ host ++ "]".toList) shell

def cleanAll (shell : QWoShellCommand) : QWoShellCommand := { shell with all := [] }

def applies (host : QString) (proc : QWoShellProcess) : Bool := host.isEmpty || proc.target = host

/-- The loop over the processes; `before` are the ones already passed. -/
def loop (command : Command) (host : QString) (shell : QWoShellCommand) :
    List QWoShellProcess → List QWoShellProcess → QWoResult → Option (QWoResult × QWoShellCommand)
  | before, [], result => some (result, { shell with all := before })
  | before, proc :: rest, result =>
    if applies host proc then
      let (ok, proc) := perform command proc
      match append result proc with
      | none => none
      | some result =>
        if !ok then
          some (result, cleanAll (showCommandFailure (label command) proc.target
            { shell with all := before ++ proc :: rest }))
        else loop command host shell (before ++ [proc]) rest result
    else loop command host shell (before ++ [proc]) rest result

/-- The common body of the operations; `upload` and `download` go to all hosts. -/
def run (command : Command) (host : QString) (shell : QWoShellCommand) :
    Option (QWoResult × QWoShellCommand) :=
  if shell.all.isEmpty then some (∅, showError "the host should not be empty array.".toList shell)
  else loop command host shell [] shell.all ∅

def execCommand (cmd host : QString) : QWoShellCommand → Option (QWoResult × QWoShellCommand) :=
  run (.execCommand cmd) host

def runSudo (pwd host : QString) : QWoShellCommand → Option (QWoResult × QWoShellCommand) :=
  run (.runSudo pwd) host

def su (user pwd host : QString) : QWoShellCommand → Option (QWoResult × QWoShellCommand) :=
  run (.su user pwd) host

def upload (file : QString) : QWoShellCommand → Option (QWoResult × QWoShellCommand) :=
  run (.upload file) []

def download (remote directory : QString) : QWoShellCommand → Option (QWoResult × QWoShellCommand) :=
  run (.download remote directory) []

/-- A script's call of an operation; only three of them can be restricted to a host. -/
def call (command : Command) (host : QString) : QWoShellCommand → Option (QWoResult × QWoShellCommand) :=
  match command with
  | .execCommand cmd => execCommand cmd host
  | .runSudo pwd => runSudo pwd host
  | .su user pwd => su user pwd host
  | .upload file => upload file
  | .download remote directory => download remote directory

def hostOf (command : Command) (host : QString) : QString :=
  match command with
  | .upload _ | .download _ _ => []
  | _ => host

variable (command : Command) (host : QString) (result : QWoResult)

theorem call_eq_run : call command host = run command (hostOf command host) := by
  cases command <;> rfl

/-! ## The result -/

theorem mem_values (entry : Result) : entry ∈ values result ↔ ∃ name, result.lookup name = some entry := by
  simp only [values, List.mem_filterMap, Finset.mem_sort, Finmap.mem_keys]
  refine ⟨?_, ?_⟩
  · intro given
    obtain ⟨name, _, found⟩ := given
    exact ⟨name, found⟩
  · intro given
    obtain ⟨name, found⟩ := given
    exact ⟨name, Finmap.mem_of_lookup_eq_some found, found⟩

theorem values_empty : values ∅ = [] := by
  apply List.eq_nil_iff_forall_not_mem.mpr
  intro entry member
  obtain ⟨name, found⟩ := (mem_values ∅ entry).mp member
  simp at found

theorem values_insert_ne_nil (name : QString) (entry : Result) : values (result.insert name entry) ≠ [] := by
  have member : entry ∈ values (result.insert name entry) :=
    (mem_values _ entry).mpr ⟨name, Finmap.lookup_insert _⟩
  exact List.ne_nil_of_mem member

/-- Every host so far has succeeded. -/
def Clean (result : QWoResult) : Prop := ∀ name entry, result.lookup name = some entry → entry.guessCode = 0

theorem hasError_of_clean (clean : Clean result) : hasError result = true ↔ values result = [] := by
  have none : (values result).any (fun entry => entry.guessCode ≠ 0) = false := by
    rw [List.any_eq_false]
    intro entry member
    obtain ⟨name, found⟩ := (mem_values result entry).mp member
    simp [clean name entry found]
  rw [hasError, none, Bool.or_false, List.isEmpty_iff]

theorem hasError_insert (name : QString) (entry : Result) (failed : entry.guessCode ≠ 0) :
    hasError (result.insert name entry) = true := by
  have member : entry ∈ values (result.insert name entry) :=
    (mem_values _ entry).mpr ⟨name, Finmap.lookup_insert _⟩
  simp only [hasError, Bool.or_eq_true, List.any_eq_true]
  exact Or.inr ⟨entry, member, by simpa using failed⟩

theorem append_eq (proc : QWoShellProcess) (filled : proc.cmdOutput ≠ []) :
    ∃ entry, append result proc = some (result.insert proc.target entry) ∧
      entry.guessCode = proc.cmdExitCode := by
  obtain ⟨cmd, output, shape⟩ := List.exists_cons_of_ne_nil filled
  exact ⟨⟨cmd, proc.cmdExitCode, join output "\r\n".toList⟩, by rw [append, shape], rfl⟩

/-! ## The processes that are run -/

/-- What the operation returned on the processes that were run. -/
def ran (command : Command) (host : QString) : List QWoShellProcess → List (Bool × QWoShellProcess)
  | [] => []
  | proc :: rest =>
    if applies host proc then
      let done := perform command proc
      if done.1 then done :: ran command host rest else [done]
    else ran command host rest

/-- The operation comes to `proc`: it succeeds on the processes before it. -/
def Reached (command : Command) (host : QString) (procs : List QWoShellProcess) (proc : QWoShellProcess) : Prop :=
  ∃ front back, procs.filter (applies host) = front ++ proc :: back ∧
    ∀ earlier ∈ front, succeeds earlier command = true

theorem reached_cons (proc : QWoShellProcess) (rest : List QWoShellProcess) (applied : applies host proc = true)
    (other : QWoShellProcess) :
    Reached command host (proc :: rest) other ↔
      other = proc ∨ succeeds proc command = true ∧ Reached command host rest other := by
  unfold Reached
  rw [List.filter_cons_of_pos applied]
  refine ⟨?_, ?_⟩
  · intro given
    obtain ⟨front, back, split, succeeded⟩ := given
    cases front with
    | nil => exact Or.inl (List.cons.inj split).1.symm
    | cons first front =>
      obtain ⟨rfl, tail⟩ := List.cons.inj split
      exact Or.inr ⟨succeeded proc (by simp), front, back, tail, fun earlier member =>
        succeeded earlier (by simp [member])⟩
  · intro given
    rcases given with rfl | ⟨first, front, back, split, succeeded⟩
    · exact ⟨[], rest.filter (applies host), rfl, by simp⟩
    · refine ⟨proc :: front, back, by rw [split, List.cons_append], ?_⟩
      intro earlier member
      rcases List.mem_cons.mp member with rfl | later
      · exact first
      · exact succeeded earlier later

theorem reached_skip (proc : QWoShellProcess) (rest : List QWoShellProcess) (skipped : ¬ applies host proc = true)
    (other : QWoShellProcess) : Reached command host (proc :: rest) other ↔ Reached command host rest other := by
  unfold Reached
  rw [List.filter_cons_of_neg skipped]

theorem mem_ran (procs : List QWoShellProcess) (done : Bool × QWoShellProcess) :
    done ∈ ran command host procs ↔ ∃ proc, Reached command host procs proc ∧ done = perform command proc := by
  induction procs with
  | nil => simp [ran, Reached]
  | cons proc rest ih =>
    by_cases applied : applies host proc = true
    · have result := perform_fst command proc
      cases succeeded : succeeds proc command with
      | true =>
        rw [succeeded] at result
        simp only [ran, if_pos applied, result, if_true, List.mem_cons, ih,
          reached_cons command host proc rest applied, succeeded, true_and, or_and_right, exists_or,
          exists_eq_left]
      | false =>
        rw [succeeded] at result
        simp [ran, applied, result, reached_cons command host proc rest applied, succeeded]
    · simp only [ran, if_neg applied, ih, reached_skip command host proc rest applied]

/-! ## Reports -/

/-- The loop collects a result, and it shows an error exactly when nothing was run or something
failed, if every process that is reached reports as it should. -/
theorem loop_reports (shell : QWoShellCommand) (before procs : List QWoShellProcess) (result : QWoResult)
    (clean : Clean result) (reported : ∀ done ∈ ran command host procs, Reported done) :
    ∃ final after, loop command host shell before procs result = some (final, after) ∧
      (hasError final = true ↔
        (values result = [] ∧ ran command host procs = []) ∨ ∃ done ∈ ran command host procs, done.1 = false) := by
  induction procs generalizing before result with
  | nil =>
    refine ⟨result, _, rfl, ?_⟩
    simp [ran, hasError_of_clean result clean]
  | cons proc rest ih =>
    by_cases applied : applies host proc = true
    · have own : Reported (perform command proc) := by
        apply reported
        cases succeeded : (perform command proc).1 <;> simp [ran, applied, succeeded]
      obtain ⟨entry, appended, same⟩ := append_eq result (perform command proc).2 own.2
      cases succeeded : (perform command proc).1 with
      | true =>
        have code := own.1.mp succeeded
        have later : ∀ done ∈ ran command host rest, Reported done := by
          intro done member
          apply reported
          simp [ran, applied, succeeded, member]
        have cleaned : Clean (result.insert (perform command proc).2.target entry) :=
          MapFold.forall_insert (fun _ (entry : Result) => entry.guessCode = 0) result _ entry clean
            (same.trans code)
        obtain ⟨final, after, reached, error⟩ := ih (before ++ [(perform command proc).2]) _ cleaned later
        refine ⟨final, after, ?_, ?_⟩
        · simpa [loop, applied, appended, succeeded] using reached
        · rw [error]
          simp [ran, applied, succeeded, values_insert_ne_nil]
      | false =>
        have code : entry.guessCode ≠ 0 := fun zero =>
          absurd (own.1.mpr (same.symm.trans zero)) (by simp [succeeded])
        refine ⟨_, _, by simp only [loop, if_pos applied, appended, succeeded]; rfl, ?_⟩
        simp [ran, applied, succeeded, hasError_insert, code]
    · simp only [loop, ran, if_neg applied]
      apply ih _ result clean
      simpa only [ran, if_neg applied] using reported

theorem loop_defined (shell : QWoShellCommand) (before procs : List QWoShellProcess) (result : QWoResult)
    (defined : (loop command host shell before procs result).isSome) :
    ∀ done ∈ ran command host procs, done.2.cmdOutput ≠ [] := by
  induction procs generalizing before result with
  | nil => simp [ran]
  | cons proc rest ih =>
    by_cases applied : applies host proc = true
    · cases appended : append result (perform command proc).2 with
      | none => simp [loop, applied, appended] at defined
      | some next =>
        have own : (perform command proc).2.cmdOutput ≠ [] := by
          intro empty
          simp [append, empty] at appended
        cases succeeded : (perform command proc).1 with
        | true =>
          simp only [loop, if_pos applied, appended, succeeded, Bool.not_true, Bool.false_eq_true, if_false] at defined
          simp only [ran, if_pos applied, succeeded, if_true, List.mem_cons, forall_eq_or_imp]
          exact ⟨own, ih _ next defined⟩
        | false =>
          simpa [ran, applied, succeeded] using own
    · simp only [loop, if_neg applied] at defined
      simp only [ran, if_neg applied]
      exact ih _ result defined

/-- The result shows an error exactly when no process was run or one of them failed, and each
process that was run failed exactly when its exit code says so. -/
def Reports (command : Command) (host : QString) (shell : QWoShellCommand) : Prop :=
  ∃ result after, call command host shell = some (result, after) ∧
    (hasError result = true ↔ ran command (hostOf command host) shell.all = [] ∨
      ∃ done ∈ ran command (hostOf command host) shell.all, done.1 = false) ∧
    ∀ done ∈ ran command (hostOf command host) shell.all, (done.1 = true ↔ done.2.cmdExitCode = 0)

theorem reports_iff (command : Command) (host : QString) (shell : QWoShellCommand) :
    Reports command host shell ↔
      ∀ proc, Reached command (hostOf command host) shell.all proc → Sound proc command := by
  refine ⟨?_, ?_⟩
  · intro given proc reached
    obtain ⟨result, after, finished, _, codes⟩ := given
    have member := (mem_ran command (hostOf command host) shell.all _).mpr ⟨proc, reached, rfl⟩
    rw [← perform_reported]
    refine ⟨codes _ member, ?_⟩
    rw [call_eq_run, run] at finished
    split_ifs at finished with empty
    · rw [List.isEmpty_iff.mp empty] at member
      simp [ran] at member
    · exact loop_defined command _ shell [] shell.all ∅ (by simp [finished]) _ member
  · intro sound
    have reported : ∀ done ∈ ran command (hostOf command host) shell.all, Reported done := by
      intro done member
      obtain ⟨proc, reached, rfl⟩ := (mem_ran command _ _ done).mp member
      exact (perform_reported command proc).mpr (sound proc reached)
    have clean : Clean ∅ := by
      intro name entry found
      simp at found
    rw [Reports, call_eq_run, run]
    split_ifs with empty
    · refine ⟨∅, _, rfl, ?_, fun done member => (reported done member).1⟩
      simp [List.isEmpty_iff.mp empty, ran, hasError_of_clean ∅ clean, values_empty]
    · obtain ⟨result, after, finished, error⟩ :=
        loop_reports command (hostOf command host) shell [] shell.all ∅ clean reported
      refine ⟨result, after, finished, ?_, fun done member => (reported done member).1⟩
      rw [error]
      simp [values_empty]

/-- A shell in which every wait goes well and no local path exists. -/
def quiet : QWoShellProcess where
  target := "web".toList
  waits := fun _ => ⟨.normal, ["prompt".toList]⟩
  isFile := fun _ => false
  isDir := fun _ => false

/-- The upload of a file that is not there returns false, and the result shows no error. -/
theorem upload_unreported :
    ∃ result after, call (.upload "missing".toList) [] { all := [quiet] } = some (result, after) ∧
      (ran (.upload "missing".toList) [] [quiet]).map Prod.fst = [false] ∧ hasError result = false := by
  have clean : Clean ((∅ : QWoResult).insert quiet.target ⟨"command execution".toList, 0, "ok".toList⟩) :=
    MapFold.forall_insert (fun _ (entry : Result) => entry.guessCode = 0) ∅ _ _ (by simp) rfl
  refine ⟨_, _, rfl, by decide, ?_⟩
  rw [← Bool.not_eq_true]
  exact fun error => values_insert_ne_nil _ _ _ ((hasError_of_clean _ clean).mp error)

end Woterm.Script.ShellCommand
