import Woterm.Script.ShellCommand
import Woterm.Terminal.Printed

/-!
Collecting the result of a call. `QWoResult::append` takes the first line of the output that the call left,
whatever that output is. Some calls leave a fixed text, others the rows that the spy has recorded since the
wait began; here these rows come from the bytes that the remote side sends. A call leaves nothing to take
exactly when it returns recorded rows and no character that the parser put for these bytes lasts.
-/

namespace Woterm.Script.Collecting
open Woterm.Lib Woterm.Qt Woterm.Qt.QString Woterm.Terminal Woterm.Terminal.Data Woterm.Terminal.CmdSpy
open ShellProcess

/-- What happens during one wait: the pieces in which the output of the remote side arrives, and the code
with which the wait ends. -/
structure Reply where
  chunks : List QByteArray
  code : ScriptCode
deriving DecidableEq, Repr

/-- `onReadyReadStandardOutput`, which hands the bytes to the spy as a C string. -/
def receive (spy : QWoCmdSpy) (chunk : QByteArray) : Option QWoCmdSpy := process spy (CString.cstr chunk)

/-- The waits of a process with its spy, as it is before each of them. -/
structure Session where
  replies : Nat → Reply
  spies : Nat → QWoCmdSpy
  recorded : ∀ n, (replies n).chunks.foldlM receive (reset (spies n)) = some (spies (n + 1))

def Session.waits (session : Session) (n : Nat) : Waited :=
  ⟨(session.replies n).code, (output (session.spies (n + 1))).1⟩

/-- A process in that session. -/
def Session.attach (session : Session) (proc : QWoShellProcess) : QWoShellProcess :=
  { proc with waits := session.waits }

/-- The spy shows something that is not blank. -/
def Visible (spy : QWoCmdSpy) : Prop := ∃ row ∈ spy.tops ++ spy.lines, ∃ c ∈ row, QChar.isSpace c = false

theorem simplified_ne_nil_iff (row : QString) : simplified row ≠ [] ↔ ∃ c ∈ row, QChar.isSpace c = false := by
  constructor
  · intro filled
    by_contra blank
    apply filled
    have all : ∀ c ∈ row, QChar.isSpace c = true := by simpa using blank
    exact Text.simplify_append_blanks ' ' [] row all
  · rintro ⟨c, member, solid⟩
    exact Text.simplify_ne_nil ' ' row c member solid

theorem output_ne_nil_iff (spy : QWoCmdSpy) : (output spy).1 ≠ [] ↔ Visible spy := by
  simp only [output, ne_eq, List.filter_eq_nil_iff, List.forall_mem_map, not_forall, Visible, exists_prop,
    Bool.not_eq_true', List.isEmpty_eq_false_iff, not_not, simplified_ne_nil_iff]

/-- What the remote side sends during a wait makes the parser put a character that is not blank and that lasts. -/
def Session.Shows (session : Session) (n : Nat) : Prop :=
  Printed.Lasting (Printed.writes 0
    (Printed.calls ((session.replies n).chunks.map CString.cstr) (Vte.reset (session.spies n).vte)))

theorem Session.visible_iff_shows (session : Session) (n : Nat) :
    Visible (session.spies (n + 1)) ↔ session.Shows n := by
  refine Printed.visible_iff_lasting _ _ _ ?_
  rw [List.foldlM_map]
  exact session.recorded n

/-! ## The calls of a script -/

/-- `login`, after the program was started. -/
def login (proc : QWoShellProcess) : Bool × QWoShellProcess := (wait proc).2

inductive Call where
  | login
  | command (command : Command)
deriving DecidableEq, Repr

def carryOut : Call → QWoShellProcess → Bool × QWoShellProcess
  | .login => login
  | .command command => perform command

/-- The number of waits that a call takes. -/
def used (proc : QWoShellProcess) : Call → Nat
  | .login => 1
  | .command (.execCommand _) => if normal proc 0 then if normal proc 1 then 3 else 2 else 1
  | .command (.runSudo _) | .command (.su _ _) =>
    if normal proc 0 then
      if normal proc 1 then 3
      else if (proc.waits 1).code = .timeout then if normal proc 2 then 4 else 3 else 2
    else 1
  | .command (.upload file) => if normal proc 0 && proc.isFile file then 2 else 1
  | .command (.download _ directory) =>
    if normal proc 0 && proc.isDir directory then
      if normal proc 1 then if probe (proc.waits 2) = 0 then 3 else 4 else 2
    else 1

theorem switchUser_waits (command pwd : QString) (proc : QWoShellProcess) :
    (switchUser command pwd proc).2.waits =
      fun n => proc.waits (n + used proc (.command (.runSudo pwd))) := by
  simp only [switchUser, seperator_eq, wait_eq, extractExitCode_eq, used, setOutput]
  cases first : normal proc 0 <;> cases second : normal proc 1 <;> cases third : normal proc 2 <;>
    by_cases prompt : (proc.waits 1).code = .timeout <;> simp [*] <;> rfl

theorem carryOut_waits (call : Call) (proc : QWoShellProcess) :
    (carryOut call proc).2.waits = fun n => proc.waits (n + used proc call) := by
  rcases call with _ | command
  · rw [carryOut, login, wait_eq]
    rfl
  cases command with
  | execCommand cmd =>
    simp only [carryOut, perform, execCommand, seperator_eq, wait_eq, extractExitCode_eq, used, setOutput]
    cases first : normal proc 0 <;> cases second : normal proc 1 <;> simp [*] <;> rfl
  | runSudo pwd => exact switchUser_waits _ pwd proc
  | su user pwd => exact switchUser_waits _ pwd proc
  | upload file =>
    simp only [carryOut, perform, upload, seperator_eq, wait_eq, used]
    cases first : normal proc 0 <;> cases found : proc.isFile file <;> simp [*] <;> rfl
  | download remote directory =>
    simp only [carryOut, perform, download, seperator_eq, wait_eq, extractExitCode_eq, used]
    cases first : normal proc 0 <;> cases found : proc.isDir directory <;> cases second : normal proc 1 <;>
      by_cases shown : probe (proc.waits 2) = 0 <;> simp [*] <;> rfl

/-- What must hold for a call to leave some output. -/
def Leaves (proc : QWoShellProcess) : Call → Prop
  | .command (.execCommand cmd) => Sound proc (.execCommand cmd)
  | .command (.runSudo pwd) | .command (.su _ pwd) => Sound proc (.runSudo pwd)
  | _ => True

theorem waited_cmdOutput (proc : QWoShellProcess) : (waited proc).cmdOutput ≠ [] := List.cons_ne_nil _ _

theorem switchUser_cmdOutput (command pwd : QString) (proc : QWoShellProcess) :
    (switchUser command pwd proc).2.cmdOutput ≠ [] ↔ Sound proc (.runSudo pwd) := by
  simp only [switchUser, seperator_eq, wait_eq, extractExitCode_eq, Sound, setOutput]
  cases first : normal proc 0 <;> cases second : normal proc 1 <;> cases third : normal proc 2 <;>
    by_cases prompt : (proc.waits 1).code = .timeout <;> simp [*, waited_cmdOutput]

theorem carryOut_cmdOutput (call : Call) (proc : QWoShellProcess) :
    (carryOut call proc).2.cmdOutput ≠ [] ↔ Leaves proc call := by
  rcases call with _ | command
  · rw [carryOut, login, wait_eq]
    exact iff_of_true (waited_cmdOutput proc) trivial
  cases command with
  | execCommand cmd =>
    simp only [carryOut, perform, execCommand, seperator_eq, wait_eq, extractExitCode_eq, Leaves, Sound, setOutput]
    cases first : normal proc 0 <;> cases second : normal proc 1 <;> simp [*, waited_cmdOutput]
  | runSudo pwd => exact switchUser_cmdOutput _ pwd proc
  | su user pwd => exact switchUser_cmdOutput _ pwd proc
  | upload file =>
    simp only [carryOut, perform, upload, seperator_eq, wait_eq, Leaves]
    cases first : normal proc 0 <;> cases found : proc.isFile file <;> simp [*, logError, waited_cmdOutput]
  | download remote directory =>
    simp only [carryOut, perform, download, seperator_eq, wait_eq, extractExitCode_eq, Leaves]
    cases first : normal proc 0 <;> cases found : proc.isDir directory <;> cases second : normal proc 1 <;>
      by_cases shown : probe (proc.waits 2) = 0 <;> simp [*, logError, waited_cmdOutput]

/-! ## Sequences of calls -/

/-- The process after some calls. -/
def after (proc : QWoShellProcess) (calls : List Call) : QWoShellProcess :=
  calls.foldl (fun proc call => (carryOut call proc).2) proc

/-- The number of waits that some calls take. -/
def spent : QWoShellProcess → List Call → Nat
  | _, [] => 0
  | proc, call :: calls => used proc call + spent (carryOut call proc).2 calls

theorem after_waits (proc : QWoShellProcess) (calls : List Call) :
    (after proc calls).waits = fun n => proc.waits (n + spent proc calls) := by
  induction calls generalizing proc with
  | nil => rfl
  | cons call calls ih =>
    have later := ih (carryOut call proc).2
    rw [carryOut_waits] at later
    rw [spent, after, List.foldl_cons]
    refine later.trans ?_
    funext n
    dsimp only
    rw [Nat.add_assoc, Nat.add_comm (spent _ _)]

theorem append_isSome (result : ShellCommand.QWoResult) (proc : QWoShellProcess) :
    (ShellCommand.append result proc).isSome = true ↔ proc.cmdOutput ≠ [] := by
  unfold ShellCommand.append
  cases proc.cmdOutput <;> simp

/-- What the remote side has to show for a call that begins with a wait of the session: something that is not
blank in answer to the command, if that is answered at all; for `sudo` and `su` also before the password. -/
def Filled (session : Session) (k : Nat) : Call → Prop
  | .command (.execCommand _) =>
    (session.replies k).code = .normal → (session.replies (k + 1)).code = .normal → session.Shows (k + 1)
  | .command (.runSudo _) | .command (.su _ _) =>
    (session.replies k).code = .normal →
      ((session.replies (k + 1)).code = .normal → session.Shows (k + 1)) ∧
      ((session.replies (k + 1)).code = .timeout → (session.replies (k + 2)).code = .normal →
        session.Shows (k + 1) ∨ session.Shows (k + 2))
  | _ => True

theorem leaves_iff_filled (session : Session) (proc : QWoShellProcess) (k : Nat)
    (waits : proc.waits = fun n => session.waits (n + k)) (call : Call) : Leaves proc call ↔ Filled session k call := by
  have codes (n : Nat) : normal proc n = decide ((session.replies (k + n)).code = .normal) := by
    rw [normal, waits, Nat.add_comm k n]
    rfl
  have ended : (proc.waits 1).code = (session.replies (k + 1)).code := by
    rw [waits, Nat.add_comm k 1]
    rfl
  have rows (n : Nat) : (proc.waits n).output ≠ [] ↔ session.Shows (k + n) := by
    rw [waits, ← session.visible_iff_shows, ← output_ne_nil_iff, Nat.add_comm k n]
    rfl
  have both : (proc.waits 1).output ++ (proc.waits 2).output ≠ [] ↔
      session.Shows (k + 1) ∨ session.Shows (k + 2) := by
    rw [ne_eq, List.append_eq_nil_iff, not_and_or]
    exact or_congr (rows 1) (rows 2)
  have switched (pwd : QString) : Sound proc (.runSudo pwd) ↔ Filled session k (.command (.runSudo pwd)) := by
    simp only [Sound, Filled, codes, both, ended, decide_eq_true_eq, Nat.add_zero]
    by_cases answered : (session.replies (k + 1)).code = .normal
    · simp only [answered, if_true, rows, true_implies, reduceCtorEq, false_implies, and_true]
    · simp only [answered, if_false, false_implies, true_and]
  rcases call with _ | command
  · exact Iff.rfl
  cases command with
  | execCommand cmd =>
    simp only [Leaves, Sound, Filled, codes, rows, decide_eq_true_eq, Nat.add_zero]
  | runSudo pwd => exact switched pwd
  | su user pwd => exact switched pwd
  | upload file => exact Iff.rfl
  | download remote directory => exact Iff.rfl

/-- Along any sequence of calls, every result can be collected exactly when the remote side shows something for
every call that returns recorded rows. -/
theorem collectable_iff (session : Session) (proc : QWoShellProcess) (calls : List Call) :
    (∀ front call back, calls = front ++ call :: back →
      ∀ result, (ShellCommand.append result (after (session.attach proc) (front ++ [call]))).isSome = true) ↔
    ∀ front call back, calls = front ++ call :: back → Filled session (spent (session.attach proc) front) call := by
  have each (front : List Call) (call : Call) :
      (∀ result, (ShellCommand.append result (after (session.attach proc) (front ++ [call]))).isSome = true) ↔
        Filled session (spent (session.attach proc) front) call := by
    have waits := after_waits (session.attach proc) front
    rw [← leaves_iff_filled session (after (session.attach proc) front) _ waits call, ← carryOut_cmdOutput]
    simp only [append_isSome, forall_const, after, List.foldl_concat]
  simp only [each]

/-- The remote side sends a title and nothing else. -/
def titleOnly : QByteArray := "\x1b]0;x\x07".toList.map byte

theorem titleOnly_session : ∃ session : Session, session.spies 0 = fresh ∧
    session.replies 0 = ⟨[titleOnly], .normal⟩ ∧ session.replies 1 = ⟨[titleOnly], .normal⟩ ∧
    (session.spies 1).stop = true ∧ (session.spies 2).stop = true ∧
    (session.spies 2).tops = [] ∧ (session.spies 2).lines = List.replicate fixRow emptyLine := by
  have run : ((receive (reset fresh) titleOnly).bind fun first => (receive (reset first) titleOnly).map fun second =>
      (first.stop, second.stop, second.tops, second.lines)) =
      some (true, true, [], List.replicate fixRow emptyLine) := by decide +kernel
  obtain ⟨first, one, rest⟩ := Option.bind_eq_some_iff.mp run
  obtain ⟨second, two, shown⟩ := Option.map_eq_some_iff.mp rest
  simp only [Prod.mk.injEq] at shown
  refine ⟨{
    replies := fun n => if n < 2 then ⟨[titleOnly], .normal⟩ else ⟨[], .timeout⟩
    spies := fun | 0 => fresh | 1 => first | n + 2 => reset^[n] second
    recorded := ?_ }, rfl, rfl, rfl, shown⟩
  rintro (_ | _ | n)
  · simpa using one
  · simpa using two
  · rw [if_neg (by omega)]
    exact congrArg some (Function.iterate_succ_apply' reset n second).symm

def loggedIn : QWoShellProcess where
  target := "db".toList
  waits := fun _ => ⟨.timeout, []⟩
  isFile := fun _ => false
  isDir := fun _ => false

/-- A command that is answered with a title only leaves nothing to collect. -/
theorem nothing_to_collect : ∃ session : Session, session.spies 0 = fresh ∧
    session.replies 0 = ⟨[titleOnly], .normal⟩ ∧ session.replies 1 = ⟨[titleOnly], .normal⟩ ∧
    ShellCommand.append ∅ (after (session.attach loggedIn) [.command (.execCommand "true".toList)]) = none := by
  obtain ⟨session, start, zero, one, _, _, tops, lines⟩ := titleOnly_session
  refine ⟨session, start, zero, one, ?_⟩
  rw [← Option.not_isSome_iff_eq_none, append_isSome, after, List.foldl_cons, List.foldl_nil, carryOut_cmdOutput,
    leaves_iff_filled session _ 0 rfl]
  intro filled
  obtain ⟨row, member, c, inside, solid⟩ := (session.visible_iff_shows 1).mpr (filled (by rw [zero]) (by rw [one]))
  rw [tops, lines, List.nil_append] at member
  rw [List.eq_of_mem_replicate member] at inside
  rw [List.eq_of_mem_replicate inside] at solid
  exact absurd solid (by decide)

end Woterm.Script.Collecting
