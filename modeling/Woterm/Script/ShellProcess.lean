import Woterm.Qt

/-!
`QWoShellProcess`: one logged-in shell that a script drives. Every operation sends text and then
waits in an event loop for one of a few reasons to go on; how a wait ends, what the spy has
recorded by then and what the checks of local paths answer is decided outside. The process
carries these answers, and what it has sent and logged.
-/

namespace Woterm.Script.ShellProcess
open Woterm.Qt Woterm.Qt.QString

/-- The codes `ERR_SCRIPT_*` with which a wait ends. -/
inductive ScriptCode where
  | normal | timeout | stop | appKeypad | unknow | finish
deriving DecidableEq, Repr

/-- A finished wait: its code and the lines of the spy. -/
structure Waited where
  code : ScriptCode
  output : List QString
deriving DecidableEq, Repr

structure QWoShellProcess where
  target : QString
  cmdExitCode : Int32 := 0
  cmdOutput : List QString := []
  spyOutput : List QString := []
  sent : List QString := []
  log : List (String × QString) := []
  /-- The waits to come. -/
  waits : Nat → Waited
  isFile : QString → Bool
  isDir : QString → Bool

def setOutput (code : Int32) (out : List QString) (proc : QWoShellProcess) : Bool × QWoShellProcess :=
  (code = 0, { proc with cmdExitCode := code, cmdOutput := out })

def setFailure (proc : QWoShellProcess) : Bool × QWoShellProcess :=
  setOutput (-1) ["command execution".toList, "failed for bad status.".toList] proc

def setOk (proc : QWoShellProcess) : Bool × QWoShellProcess :=
  setOutput 0 ["command execution".toList, "ok".toList] proc

def write (text : QString) (proc : QWoShellProcess) : QWoShellProcess :=
  { proc with sent := proc.sent ++ [text] }

def logError (message : QString) (proc : QWoShellProcess) : QWoShellProcess :=
  { proc with log := proc.log ++ [("error", message)] }

/-- `wait`: the code that goes to `why`, the result and the process after it. -/
def wait (proc : QWoShellProcess) : ScriptCode × Bool × QWoShellProcess :=
  let done := proc.waits 0
  let proc := { proc with waits := fun n => proc.waits (n + 1), spyOutput := done.output }
  if done.code ≠ .normal then (done.code, setFailure proc) else (done.code, setOk proc)

def waitInput (proc : QWoShellProcess) : Bool × QWoShellProcess := (wait (write ['\r'] proc)).2

/-- `seperator`, without the line that it shows. -/
def seperator (proc : QWoShellProcess) : Bool × QWoShellProcess := waitInput proc

/-- The line after the first echo of the probe. -/
def codeLine : List QString → QString
  | line :: next :: rest => if endsWith line "echo $?".toList then next else codeLine (next :: rest)
  | _ => []

/-- The exit code that the lines of the spy show, -1 if they show none. -/
def shownCode (lines : List QString) : Int32 :=
  let code := codeLine lines
  if code.isEmpty then -1 else (toIntOk code).getD (-1)

def extractExitCode (proc : QWoShellProcess) : Int32 × QWoShellProcess :=
  let (_, ok, proc) := wait (write "echo $?\r".toList proc)
  if !ok then (-1, proc) else (shownCode proc.spyOutput, proc)

def execCommand (cmd : QString) (proc : QWoShellProcess) : Bool × QWoShellProcess :=
  let (ok, proc) := seperator proc
  if !ok then (false, proc)
  else
    let (_, ok, proc) := wait (write (simplified cmd ++ ['\r']) proc)
    if !ok then (false, proc)
    else
      let output := proc.spyOutput
      let (code, proc) := extractExitCode proc
      setOutput code output proc

/-- The common body of `sudo` and `su`. A wait of three seconds that times out is taken for the
password prompt. -/
def switchUser (command pwd : QString) (proc : QWoShellProcess) : Bool × QWoShellProcess :=
  let (ok, proc) := seperator proc
  if !ok then (false, proc)
  else
    let (why, ok, proc) := wait (write command proc)
    if !ok then
      if why ≠ .timeout then (false, proc)
      else
        let output := proc.spyOutput
        let (_, ok, proc) := wait (write ['\r'] (write pwd proc))
        if !ok then (false, proc)
        else
          let output := output ++ proc.spyOutput
          let (code, proc) := extractExitCode proc
          setOutput code output proc
    else
      let output := proc.spyOutput
      let (code, proc) := extractExitCode proc
      setOutput code output proc

/-- `sudo`, which is a word of Lean. -/
def runSudo (pwd : QString) : QWoShellProcess → Bool × QWoShellProcess :=
  switchUser "sudo -i\r".toList pwd

def su (user pwd : QString) : QWoShellProcess → Bool × QWoShellProcess :=
  switchUser ("su ".toList ++ user ++ ['\r']) pwd

/-- `upload`; the last wait is for the program `sz`. -/
def upload (file : QString) (proc : QWoShellProcess) : Bool × QWoShellProcess :=
  let (ok, proc) := seperator proc
  if !ok then (false, proc)
  else if !proc.isFile file then
    (false, logError ("The Local File[".toList ++ file ++ "] is not file.".toList) proc)
  else (wait proc).2

/-- `download`; the last wait is for the program `rz`. -/
def download (remote directory : QString) (proc : QWoShellProcess) : Bool × QWoShellProcess :=
  let (ok, proc) := seperator proc
  if !ok then (false, proc)
  else if !proc.isDir directory then
    (false, logError ("The Local Directory[".toList ++ directory ++ "] is not exist.".toList) proc)
  else
    let (_, ok, proc) := wait (write ("ls '".toList ++ remote ++ "/.'\r".toList) proc)
    if !ok then (false, proc)
    else
      let (code, proc) := extractExitCode proc
      if code = 0 then (false, logError "Do not support direcoty.".toList proc)
      else (wait (write ("sz ".toList ++ remote ++ ['\r']) proc)).2

/-! ## What the operations return -/

/-- The `n`-th wait from now ends because input arrived. -/
def normal (proc : QWoShellProcess) (n : Nat) : Bool := (proc.waits n).code = .normal

def waitText (ok : Bool) : List QString :=
  ["command execution".toList, if ok then "ok".toList else "failed for bad status.".toList]

/-- The process when its next wait is over. -/
def waited (proc : QWoShellProcess) : QWoShellProcess :=
  { proc with
    waits := fun n => proc.waits (n + 1)
    spyOutput := (proc.waits 0).output
    cmdExitCode := if normal proc 0 then 0 else -1
    cmdOutput := waitText (normal proc 0) }

variable (text : QString) (proc : QWoShellProcess) (n : Nat)

theorem wait_eq : wait proc = ((proc.waits 0).code, normal proc 0, waited proc) := by
  cases ended : normal proc 0 with
  | true =>
    have code : (proc.waits 0).code = .normal := by simpa [normal] using ended
    simp [wait, waited, ended, code, setOk, setOutput, waitText]
  | false =>
    have code : (proc.waits 0).code ≠ .normal := by simpa [normal] using ended
    simp [wait, waited, ended, code, setFailure, setOutput, waitText]

@[simp] theorem waited_waits : (waited proc).waits n = proc.waits (n + 1) := rfl

@[simp] theorem waited_normal : normal (waited proc) n = normal proc (n + 1) := rfl

@[simp] theorem waited_spyOutput : (waited proc).spyOutput = (proc.waits 0).output := rfl

@[simp] theorem waited_isFile : (waited proc).isFile = proc.isFile := rfl

@[simp] theorem waited_isDir : (waited proc).isDir = proc.isDir := rfl

@[simp] theorem write_waits : (write text proc).waits = proc.waits := rfl

@[simp] theorem write_normal : normal (write text proc) n = normal proc n := rfl

@[simp] theorem write_isFile : (write text proc).isFile = proc.isFile := rfl

@[simp] theorem write_isDir : (write text proc).isDir = proc.isDir := rfl

theorem seperator_eq : seperator proc = (normal proc 0, waited (write ['\r'] proc)) := by
  simp only [seperator, waitInput, wait_eq]
  rfl

/-- The exit code that a wait for the probe brings. -/
def probe (done : Waited) : Int32 := if done.code = .normal then shownCode done.output else -1

theorem extractExitCode_eq : extractExitCode proc = (probe (proc.waits 0), waited (write "echo $?\r".toList proc)) := by
  unfold extractExitCode probe
  rw [wait_eq]
  by_cases ended : (proc.waits 0).code = .normal
  · simp [normal, ended]
  · simp [normal, ended]

theorem normal_of_probe (shown : probe (proc.waits n) = 0) : normal proc n = true := by
  by_contra failed
  have code : (proc.waits n).code ≠ .normal := by simpa [normal] using failed
  rw [probe, if_neg code] at shown
  exact absurd shown (by decide)

/-! ## The operations of a script -/

/-- An operation with its arguments. -/
inductive Command where
  | execCommand (cmd : QString)
  | runSudo (pwd : QString)
  | su (user pwd : QString)
  | upload (file : QString)
  | download (remote directory : QString)
deriving DecidableEq, Repr

def perform : Command → QWoShellProcess → Bool × QWoShellProcess
  | .execCommand cmd => execCommand cmd
  | .runSudo pwd => runSudo pwd
  | .su user pwd => su user pwd
  | .upload file => upload file
  | .download remote directory => download remote directory

/-- When an operation returns true, in terms of what happens during it. -/
def succeeds (proc : QWoShellProcess) : Command → Bool
  | .execCommand _ => normal proc 0 && normal proc 1 && probe (proc.waits 2) = 0
  | .runSudo _ | .su _ _ => normal proc 0 &&
      if normal proc 1 then probe (proc.waits 2) = 0
      else (proc.waits 1).code = .timeout && normal proc 2 && probe (proc.waits 3) = 0
  | .upload file => normal proc 0 && proc.isFile file && normal proc 1
  | .download _ directory => normal proc 0 && proc.isDir directory && normal proc 1 &&
      probe (proc.waits 2) ≠ 0 && normal proc 3

theorem switchUser_fst (command pwd : QString) (proc : QWoShellProcess) :
    (switchUser command pwd proc).1 = succeeds proc (.runSudo pwd) := by
  simp only [switchUser, seperator_eq, wait_eq, extractExitCode_eq, succeeds]
  cases first : normal proc 0 <;> cases second : normal proc 1 <;> cases third : normal proc 2 <;>
    by_cases prompt : (proc.waits 1).code = .timeout <;> simp [*, setOutput]

theorem perform_fst (command : Command) (proc : QWoShellProcess) :
    (perform command proc).1 = succeeds proc command := by
  cases command with
  | execCommand cmd =>
    simp only [perform, execCommand, seperator_eq, wait_eq, extractExitCode_eq, succeeds]
    cases first : normal proc 0 <;> cases second : normal proc 1 <;> simp [*, setOutput]
  | runSudo pwd => exact switchUser_fst _ pwd proc
  | su user pwd => exact switchUser_fst _ pwd proc
  | upload file =>
    simp only [perform, upload, seperator_eq, wait_eq, succeeds]
    cases first : normal proc 0 <;> cases found : proc.isFile file <;> simp [*]
  | download remote directory =>
    simp only [perform, download, seperator_eq, wait_eq, extractExitCode_eq, succeeds]
    cases first : normal proc 0 <;> cases found : proc.isDir directory <;> cases second : normal proc 1 <;>
      by_cases shown : probe (proc.waits 2) = 0 <;> simp [*]

/-- What must hold for an operation to leave an exit code that agrees with its result, and an
output that is not empty. -/
def Sound (proc : QWoShellProcess) : Command → Prop
  | .execCommand _ => normal proc 0 → normal proc 1 → (proc.waits 1).output ≠ []
  | .runSudo _ | .su _ _ => normal proc 0 →
      if normal proc 1 then (proc.waits 1).output ≠ []
      else (proc.waits 1).code = .timeout → normal proc 2 →
        (proc.waits 1).output ++ (proc.waits 2).output ≠ []
  | .upload file => normal proc 0 → proc.isFile file
  | .download _ directory => normal proc 0 →
      proc.isDir directory ∧ (normal proc 1 → probe (proc.waits 2) ≠ 0)

/-- The result agrees with the exit code that is left, and there is some output. -/
def Reported (done : Bool × QWoShellProcess) : Prop :=
  (done.1 = true ↔ done.2.cmdExitCode = 0) ∧ done.2.cmdOutput ≠ []

theorem reported_setOutput (code : Int32) (out : List QString) (proc : QWoShellProcess) :
    Reported (setOutput code out proc) ↔ out ≠ [] := by
  simp [Reported, setOutput]

theorem reported_waited (result : Bool) : Reported (result, waited proc) ↔ result = normal proc 0 := by
  have other : (-1 : Int32) ≠ 0 := by decide
  cases result <;> cases ended : normal proc 0 <;> simp [Reported, waited, waitText, ended, other]

/-- After a wait that went well, a failure that is only logged is not reported. -/
theorem reported_logError (message : QString) (proc : QWoShellProcess) (ended : normal proc 0 = true) :
    ¬ Reported (false, logError message (waited proc)) := by
  simp [Reported, logError, waited, ended]

theorem execCommand_reported (cmd : QString) (proc : QWoShellProcess) :
    Reported (execCommand cmd proc) ↔ Sound proc (.execCommand cmd) := by
  simp only [execCommand, seperator_eq, wait_eq, extractExitCode_eq, Sound, waited_normal, write_normal]
  cases first : normal proc 0 with
  | false => simp [reported_waited, first]
  | true =>
    cases second : normal proc 1 with
    | false => simp [reported_waited, second]
    | true => simp [reported_setOutput]

theorem switchUser_reported (command pwd : QString) (proc : QWoShellProcess) :
    Reported (switchUser command pwd proc) ↔ Sound proc (.runSudo pwd) := by
  simp only [switchUser, seperator_eq, wait_eq, extractExitCode_eq, Sound, waited_normal, write_normal,
    waited_waits, write_waits]
  cases first : normal proc 0 with
  | false => simp [reported_waited, first]
  | true =>
    cases second : normal proc 1 with
    | true => simp [reported_setOutput]
    | false =>
      by_cases prompt : (proc.waits 1).code = .timeout
      · cases third : normal proc 2 with
        | false => simp [reported_waited, prompt, third]
        | true => simp [reported_setOutput, prompt]
      · simp [reported_waited, prompt, second]

theorem upload_reported (file : QString) (proc : QWoShellProcess) :
    Reported (upload file proc) ↔ Sound proc (.upload file) := by
  simp only [upload, seperator_eq, wait_eq, Sound, waited_isFile, write_isFile]
  cases first : normal proc 0 with
  | false => simp [reported_waited, first]
  | true =>
    cases found : proc.isFile file with
    | false => simp [reported_logError, first]
    | true => simp [reported_waited]

theorem download_reported (remote directory : QString) (proc : QWoShellProcess) :
    Reported (download remote directory proc) ↔ Sound proc (.download remote directory) := by
  simp only [download, seperator_eq, wait_eq, extractExitCode_eq, Sound, waited_normal, write_normal,
    waited_waits, write_waits, waited_isDir, write_isDir]
  cases first : normal proc 0 with
  | false => simp [reported_waited, first]
  | true =>
    cases found : proc.isDir directory with
    | false => simp [reported_logError, first]
    | true =>
      cases second : normal proc 1 with
      | false => simp [reported_waited, second]
      | true =>
        by_cases shown : probe (proc.waits 2) = 0
        · have third := normal_of_probe proc 2 shown
          simp [reported_logError, third, shown]
        · simp [reported_waited, shown]

theorem perform_reported (command : Command) (proc : QWoShellProcess) :
    Reported (perform command proc) ↔ Sound proc command := by
  cases command with
  | execCommand cmd => exact execCommand_reported cmd proc
  | runSudo pwd => exact switchUser_reported _ pwd proc
  | su user pwd => exact switchUser_reported _ pwd proc
  | upload file => exact upload_reported file proc
  | download remote directory => exact download_reported remote directory proc

end Woterm.Script.ShellProcess
