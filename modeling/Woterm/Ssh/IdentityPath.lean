import Woterm.Lib.Memory
import Woterm.Lib.Slots
import Woterm.Lib.Text
import Woterm.Utils

/-!
The path of an identity in `sshconnect2.c`: `load_woterm_identity_file` joins the directory that the program
passes in the environment and the file name of the identity in a buffer of 256 bytes.
-/

namespace Woterm.Ssh.IdentityPath
open Woterm.Lib Woterm.Qt Woterm.Utils

variable {n : Nat}

/-- The first loop of `mytrim`, with a bound on its rounds. -/
def skipBlanks (cells : Vector UInt8 n) : Nat → Int → Int → Option Int
  | 0, _, _ => none
  | rounds + 1, p1, p2 =>
    if p1 ≤ p2 then do
      let byte ← Slots.readAt cells p1
      if byte = 32 then skipBlanks cells rounds (p1 + 1) p2 else some p1
    else some p1

/-- The second loop. -/
def dropBlanks (cells : Vector UInt8 n) : Nat → Int → Int → Option Int
  | 0, _, _ => none
  | rounds + 1, p1, p2 =>
    if p1 ≤ p2 then do
      let byte ← Slots.readAt cells p2
      if byte = 32 then dropBlanks cells rounds p1 (p2 - 1) else some p2
    else some p2

/-- The pointer that is returned, and the string with a NUL behind its last character that is no blank. -/
def mytrim (cells : Vector UInt8 n) : Option (Int × Vector UInt8 n) := do
  let a ← Slots.stringAt cells 0
  let p1 ← skipBlanks cells (a.length + 1) 0 (a.length - 1)
  let p2 ← dropBlanks cells (a.length + 1) p1 (a.length - 1)
  let cells ← Slots.writeAt cells (p2 + 1) 0
  some (p1, cells)

def separator (windows : Bool) : UInt8 := if windows then 92 else 47

/-- The array `filename` of `load_woterm_identity_file` after the `sprintf`, which writes without a bound. -/
def loadWotermIdentityFile (windows : Bool) (environment : Option (Vector UInt8 n)) (filename : QByteArray) :
    Option QByteArray :=
  match environment with
  | none => some (List.replicate 256 0)
  | some cells => do
    let (p1, cells) ← mytrim cells
    let name ← Slots.stringAt cells p1.toNat
    let memory ← Memory.writeString { bytes := List.replicate 256 0 } 0
      (name ++ separator windows :: filename.drop 7 ++ [0])
    some memory.bytes

/-- `WOTERM_DATA_PATH` in the environment, with what lies behind it. -/
structure DataPath where
  directory : QByteArray
  clean : CString.NulFree directory
  behind : QByteArray

def DataPath.cells (path : DataPath) : Vector UInt8 (path.directory ++ 0 :: path.behind).length :=
  ⟨(path.directory ++ 0 :: path.behind).toArray, rfl⟩

/-- `IdentityFile` as the program saves it. -/
def identityFile (name : QString) : QByteArray := QString.toUtf8 ("woterm:".toList ++ nameToPath name)

/-- The path that is meant. -/
def joined (windows : Bool) (directory : QByteArray) (name : QString) : QByteArray :=
  directory ++ separator windows :: QString.toUtf8 (nameToPath name)

/-- The write stays in the buffer and leaves the path of the identity in a directory there. -/
def Composes (windows : Bool) (path : DataPath) (name : QString) (directory : QByteArray) : Prop :=
  ∃ buffer, loadWotermIdentityFile windows (some path.cells) (identityFile name) = some buffer ∧
    CString.cstr buffer = joined windows directory name

/-! ## Trimming -/

def isBlank (byte : UInt8) : Bool := byte == 32

theorem isBlank_iff (byte : UInt8) : isBlank byte = true ↔ byte = 32 := beq_iff_eq

theorem skipBlanks_eq (cells : Vector UInt8 n) (front text back : QByteArray) (rounds : Nat)
    (shape : cells.toList = front ++ text ++ back) (enough : text.length < rounds) :
    skipBlanks cells rounds front.length (front.length + text.length - 1) =
      some ((front.length : Int) + (text.takeWhile isBlank).length) := by
  induction text generalizing front rounds with
  | nil =>
    cases rounds with
    | zero => cases enough
    | succ rounds => rw [skipBlanks, if_neg (by simp)]; rfl
  | cons byte text ih =>
    cases rounds with
    | zero => cases enough
    | succ rounds =>
      have here : cells.toList = front ++ byte :: (text ++ back) := by
        rw [shape, List.append_assoc, List.cons_append]
      rw [skipBlanks, if_pos (by simp only [List.length_cons]; omega), Slots.readAt_split cells front _ byte here,
        Option.bind_eq_bind, Option.bind_some]
      by_cases blank : byte = 32
      · have next := ih (front ++ [byte]) rounds (by simp [shape]) (Nat.lt_of_succ_lt_succ enough)
        have start : ((front ++ [byte]).length : Int) = front.length + 1 := by simp
        have stop : (front.length : Int) + 1 + text.length - 1 = front.length + (byte :: text).length - 1 := by
          rw [List.length_cons]
          omega
        rw [start, stop] at next
        rw [if_pos blank, next, List.takeWhile_cons_of_pos ((isBlank_iff byte).mpr blank), List.length_cons,
          Int.natCast_succ, Int.add_assoc, Int.add_comm 1]
      · rw [if_neg blank, List.takeWhile_cons_of_neg (by simpa [isBlank_iff] using blank), List.length_nil,
          Int.natCast_zero, Int.add_zero]

theorem dropBlanks_eq (cells : Vector UInt8 n) (front text back : QByteArray) (rounds : Nat)
    (shape : cells.toList = front ++ text ++ back) (enough : text.length < rounds) :
    dropBlanks cells rounds front.length (front.length + text.length - 1) =
      some ((front.length : Int) + (text.rdropWhile isBlank).length - 1) := by
  induction text using List.reverseRecOn generalizing back rounds with
  | nil =>
    cases rounds with
    | zero => cases enough
    | succ rounds => rw [dropBlanks, if_neg (by simp)]; rfl
  | append_singleton text byte ih =>
    cases rounds with
    | zero => cases enough
    | succ rounds =>
      have here : cells.toList = (front ++ text) ++ byte :: back := by
        rw [shape]
        simp
      have last : (front.length : Int) + (text ++ [byte]).length - 1 = (front ++ text).length := by
        simp only [List.length_append, List.length_cons, List.length_nil]
        omega
      rw [dropBlanks, last, if_pos (by simp only [List.length_append]; omega),
        Slots.readAt_split cells _ back byte here, Option.bind_eq_bind, Option.bind_some]
      by_cases blank : byte = 32
      · have next := ih (byte :: back) rounds here (by simp at enough; omega)
        rw [if_pos blank, List.rdropWhile_concat_pos _ _ _ ((isBlank_iff byte).mpr blank), ← next, List.length_append,
          Int.natCast_add]
      · rw [if_neg blank, List.rdropWhile_concat_neg _ _ _ (by simpa [isBlank_iff] using blank), last]

variable (windows : Bool) (path : DataPath) (name : QString)

theorem mytrim_eq :
    ∃ next after, mytrim path.cells = some (((path.directory.takeWhile isBlank).length : Int), next) ∧
      next.toList = path.directory.takeWhile isBlank ++ Text.trim isBlank path.directory ++ 0 :: after := by
  have shape : path.cells.toList = path.directory ++ 0 :: path.behind := rfl
  have string : Slots.stringAt path.cells 0 = some path.directory := by
    have stops : path.cells[path.directory.length]? = some 0 := by
      rw [← Vector.getElem?_toList, shape]
      simp
    rw [Slots.stringAt_eq path.cells 0 _ (Nat.zero_le _) stops, List.drop_zero, shape,
      CString.cstr_append_nul _ _ path.clean]
  set blanks := path.directory.takeWhile isBlank with blanks_def
  set text := path.directory.dropWhile isBlank with text_def
  have whole : blanks ++ text = path.directory := List.takeWhile_append_dropWhile
  have length : path.directory.length = blanks.length + text.length := by rw [← whole, List.length_append]
  have first := skipBlanks_eq path.cells [] path.directory (0 :: path.behind) (path.directory.length + 1) shape
    (Nat.lt_succ_self _)
  simp only [List.length_nil, Int.natCast_zero, Int.zero_add, ← blanks_def] at first
  have second := dropBlanks_eq path.cells blanks text (0 :: path.behind) (path.directory.length + 1)
    (by rw [shape, whole]) (by omega)
  have stop : (blanks.length : Int) + text.length - 1 = path.directory.length - 1 := by omega
  rw [stop] at second
  obtain ⟨tail, kept⟩ : text.rdropWhile isBlank <+: text := List.rdropWhile_prefix _ _
  obtain ⟨old, after, rest⟩ : ∃ old after, tail ++ 0 :: path.behind = old :: after := by
    cases tail with
    | nil => exact ⟨0, path.behind, rfl⟩
    | cons byte tail => exact ⟨byte, tail ++ 0 :: path.behind, rfl⟩
  have split : path.cells.toList = (blanks ++ text.rdropWhile isBlank) ++ old :: after := by
    rw [shape, ← whole, ← rest, List.append_assoc, List.append_assoc, ← List.append_assoc _ tail, kept]
  obtain ⟨next, written, bytes⟩ := Slots.writeAt_split path.cells _ after old 0 split
  refine ⟨next, after, ?_, bytes⟩
  have last : (blanks.length : Int) + (text.rdropWhile isBlank).length - 1 + 1 =
      (blanks ++ text.rdropWhile isBlank).length := by
    rw [List.length_append]
    omega
  simp only [mytrim, string, first, second, last, written, Option.bind_eq_bind, Option.bind_some]

/-! ## The buffer -/

theorem drop_identityFile : (identityFile name).drop 7 = QString.toUtf8 (nameToPath name) := by
  have flag : QString.toUtf8 "woterm:".toList = wotermFlag := rfl
  rw [identityFile, toUtf8_append, flag]
  rfl

theorem nameToPath_ascii : ∀ c ∈ nameToPath name, c.toNat < 128 ∧ c ≠ '\x00' := by
  have digit := forall_base64Digit (fun c => c.toNat < 128 ∧ c ≠ '\x00') true (by decide)
  exact forall_mem_toBase64 _ true false digit (by simp) _

theorem length_toUtf8_nameToPath : (QString.toUtf8 (nameToPath name)).length = (nameToPath name).length := by
  rw [QString.toUtf8, Utf8.encode_ascii _ fun c member => (nameToPath_ascii name c member).1, List.length_map]

theorem joined_nulFree (directory : QByteArray) (clean : CString.NulFree directory) (name : QString) :
    CString.NulFree (joined windows directory name) := by
  have part : CString.NulFree (QString.toUtf8 (nameToPath name)) :=
    toUtf8_nulFree _ fun member => (nameToPath_ascii name _ member).2 rfl
  have slash : separator windows ≠ 0 := by cases windows <;> decide
  intro member
  rcases List.mem_append.mp member with inside | later
  · exact clean inside
  · rcases List.mem_cons.mp later with same | inside
    · exact slash same.symm
    · exact part inside

theorem loadWotermIdentityFile_eq :
    loadWotermIdentityFile windows (some path.cells) (identityFile name) =
      (Memory.writeString { bytes := List.replicate 256 0 } 0
        (joined windows (Text.trim isBlank path.directory) name ++ [0])).map Memory.bytes := by
  obtain ⟨next, after, trimmed, bytes⟩ := mytrim_eq path
  have clean : CString.NulFree (Text.trim isBlank path.directory) :=
    fun member => path.clean (Text.mem_of_mem_trim _ _ member)
  have string : Slots.stringAt next (path.directory.takeWhile isBlank).length =
      some (Text.trim isBlank path.directory) := by
    rw [Slots.stringAt, bytes, List.append_assoc, List.drop_left, Slots.terminated_eq _ (by simp),
      CString.cstr_append_nul _ _ clean]
  rw [loadWotermIdentityFile, trimmed, Option.bind_eq_bind, Option.bind_some]
  dsimp only
  rw [Int.toNat_natCast, string, Option.bind_eq_bind, Option.bind_some, drop_identityFile]
  exact Option.map_eq_bind.symm

theorem length_joined (directory : QByteArray) (name : QString) :
    (joined windows directory name ++ [0]).length = directory.length + 1 + (nameToPath name).length + 1 := by
  rw [joined, List.length_append, List.length_append, List.length_cons, length_toUtf8_nameToPath, List.length_singleton]
  omega

theorem composes_iff (directory : QByteArray) :
    Composes windows path name directory ↔ directory = Text.trim isBlank path.directory ∧
      directory.length + 1 + (nameToPath name).length + 1 ≤ 256 := by
  have clean : CString.NulFree (Text.trim isBlank path.directory) :=
    fun member => path.clean (Text.mem_of_mem_trim _ _ member)
  have held (after : QByteArray) :
      CString.cstr (joined windows (Text.trim isBlank path.directory) name ++ [0] ++ after) =
        joined windows (Text.trim isBlank path.directory) name := by
    rw [List.append_assoc, List.singleton_append, CString.cstr_append_nul _ _ (joined_nulFree windows _ clean name)]
  have run := Memory.writeString_filled [] (List.replicate 256 0)
    (joined windows (Text.trim isBlank path.directory) name ++ [0])
  rw [List.length_replicate] at run
  rw [Composes, loadWotermIdentityFile_eq]
  refine ⟨?_, ?_⟩
  · rintro ⟨buffer, written, same⟩
    have fits : (joined windows (Text.trim isBlank path.directory) name ++ [0]).length ≤ 256 := by
      by_contra large
      rw [Memory.writeString_eq_none _ 0 _ (by rw [List.length_replicate]; omega) (Nat.zero_le _)] at written
      cases written
    have stored := (congrArg (Option.map Memory.bytes) (run fits)).symm.trans written
    rw [← Option.some.inj stored] at same
    have equal : directory = Text.trim isBlank path.directory :=
      List.append_cancel_right ((held _).symm.trans same).symm
    rw [equal, ← length_joined windows]
    exact ⟨rfl, fits⟩
  · rintro ⟨rfl, fits⟩
    rw [← length_joined windows] at fits
    exact ⟨_, congrArg (Option.map Memory.bytes) (run fits), held _⟩

/-- The path of an identity is composed in the directory without its outer blanks exactly when it fits, and so in
the directory itself exactly when that has no outer blanks and the path fits. -/
theorem identity_path_iff (windows : Bool) (path : DataPath) (name : QString) :
    (Composes windows path name (Text.trim isBlank path.directory) ↔
      (Text.trim isBlank path.directory).length + 1 + (nameToPath name).length + 1 ≤ 256) ∧
    (Composes windows path name path.directory ↔
      Text.Trimmed isBlank path.directory ∧ path.directory.length + 1 + (nameToPath name).length + 1 ≤ 256) := by
  refine ⟨by rw [composes_iff]; simp, ?_⟩
  rw [composes_iff]
  refine and_congr_left fun _ => ⟨?_, ?_⟩
  · intro same
    rw [same]
    exact Text.trimmed_trim path.directory
  · intro trimmed
    exact (Text.trim_eq_self path.directory trimmed).symm

def usualPath : DataPath where
  directory := QString.toUtf8 "/home/user/.woterm/identify".toList
  clean := by decide
  behind := []

/-- A name of 180 letters is a legal file name of 240, and runs out of the buffer. -/
theorem identity_path_overflow :
    usualPath.directory.length ≤ 200 ∧ (nameToPath (List.replicate 180 'a')).length ≤ 255 ∧
      ∀ windows, loadWotermIdentityFile windows (some usualPath.cells) (identityFile (List.replicate 180 'a')) =
        none := by
  refine ⟨by decide, by decide +kernel, ?_⟩
  intro windows
  rw [loadWotermIdentityFile_eq, Memory.writeString_eq_none _ 0 _ ?_ (Nat.zero_le _)]
  · rfl
  · rw [length_joined]
    decide +kernel

end Woterm.Ssh.IdentityPath
