import Woterm.Ssh.Authfile
import Woterm.Ssh.Readconf

/-!
The buffer of the configuration reader. The patched `read_config_file_depth` reads the whole file into
one block of memory and cuts it into lines in place, where the original one calls `getline`. Both pass
the same numbered lines to `process_config_line_depth`, and the loop stays inside of the block, as long
as the size of the block can be computed: a file of 2^31 - 1 bytes makes it negative.

Of the call itself only what it may do to the buffer is left: it rewrites the string it is given,
anywhere before its terminator.
-/

namespace Woterm.Ssh.ConfigReader
open Woterm.Lib Woterm.Qt Woterm.Utils Woterm.Ssh.Authfile Woterm.Ssh.Readconf

/-- What `process_config_line_depth` leaves of a line, given its number. -/
structure Rewrite where
  text : Nat → List UInt8 → List UInt8
  length_text : ∀ linenum line, (text linenum line).length = line.length

/-- The lines that are passed on, with their numbers. -/
abbrev Passed := List (List UInt8 × Nat)

/-- The inner loop: the length of the line, whose newline becomes its terminator. At most `count` more
bytes are left. -/
def scanLine (line : Nat) : Nat → Nat → Memory → Option (Nat × Memory)
  | 0, linesize, memory => some (linesize, memory)
  | count + 1, linesize, memory => do
    let (byte, memory) ← memory.read (line + linesize)
    if byte = 10 then do
      let memory ← memory.write (line + linesize) 0
      return (linesize, memory)
    else scanLine line count (linesize + 1) memory

def processLine (rewrite : Rewrite) (linenum line : Nat) (memory : Memory) : Option (List UInt8 × Memory) := do
  let (text, memory) ← memory.readString line memory.bytes.length
  let memory ← memory.writeString line (rewrite.text linenum text)
  return (text, memory)

/-- The loop over the lines. `left` becomes -1 behind a last line without a newline. -/
def lineLoop (rewrite : Rewrite) (memory : Memory) (line : Nat) (left : Int) (linenum : Nat) : Option Passed :=
  if 0 < left then do
    let (linesize, memory) ← scanLine line left.toNat 0 memory
    let (text, memory) ← processLine rewrite (linenum + 1) line memory
    let passed ← lineLoop rewrite memory (line + (linesize + 1)) (left - (linesize + 1)) (linenum + 1)
    return (text, linenum + 1) :: passed
  else some []
termination_by left.toNat
decreasing_by omega

/-- `malloc`: no block is larger than `PTRDIFF_MAX`. -/
def malloc (size : UInt64) : Option Nat := if size.toNat < 2 ^ 63 then some size.toNat else none

/-- The argument of `malloc`: an `int` that becomes a `size_t`. -/
def blockSize (fsize : Int32) : UInt64 := (fsize + 1).toInt64.toUInt64

/-- `read_config_file_depth` on a file that can be opened, sized and read: what it returns and the lines it
has passed on. There is no result when it leaves the block. -/
def readConfigFileDepth (rewrite : Rewrite) (file : List UInt8) : Option (Bool × Passed) :=
  match malloc (blockSize (Int32.ofNat file.length)) with
  | none => some (false, [])
  | some size => do
    let memory : Memory := { bytes := file ++ List.replicate (size - file.length) 0 }
    let memory ← memory.write file.length 0
    let len := wotermFileFlag.length - 1
    let passed ←
      if (wotermFileFlag.take len).isPrefixOf memory.bytes then do
        let memory ← Authfile.rc4Crypt keyTable memory len (file.length - len)
        lineLoop rewrite memory len (file.length - len : Int) 0
      else lineLoop rewrite memory 0 file.length 0
    return (true, passed)

/-- `getline`: the next line with its newline, and the rest of the file. -/
def getline : List UInt8 → Option (List UInt8 × List UInt8)
  | [] => none
  | 10 :: file => some ([10], file)
  | byte :: file =>
    match getline file with
    | none => some ([byte], [])
    | some (line, file) => some (byte :: line, file)

def chomp (text : List UInt8) : List UInt8 := if text.getLast? = some 10 then text.dropLast else text

theorem getline_shorter (file line rest : List UInt8) (read : getline file = some (line, rest)) :
    rest.length < file.length := by
  fun_induction getline file generalizing line with
  | case1 => cases read
  | case2 file => cases read; simp
  | case3 byte file other ended => cases read; simp
  | case4 byte file other first more later ih =>
    cases read
    exact Nat.lt_succ_of_lt (ih first later)

/-- The loop of `read_config_file_depth_original`: the lines it passes on, up to their trailing newline. -/
def originalLoop (file : List UInt8) (linenum : Nat) : Passed :=
  match read : getline file with
  | none => []
  | some (line, rest) => (chomp (CString.cstr line), linenum + 1) :: originalLoop rest (linenum + 1)
termination_by file.length
decreasing_by exact getline_shorter file line rest read

/-! ## The lines of a file -/

/-- Lines as C strings, with the numbers that follow `linenum`. -/
def numbered (linenum : Nat) : List (List UInt8) → Passed
  | [] => []
  | line :: lines => (CString.cstr line, linenum + 1) :: numbered (linenum + 1) lines

/-- Induction over the lines of a file, the last one with or without a newline. -/
@[elab_as_elim]
theorem line_induction {motive : List UInt8 → Prop} (empty : motive [])
    (single : ∀ line, line ≠ [] → (10 : UInt8) ∉ line → motive line)
    (next : ∀ line more, (10 : UInt8) ∉ line → motive more → motive (line ++ 10 :: more)) (file : List UInt8) :
    motive file := by
  rcases line_cases file with rfl | ⟨nonempty, clean⟩ | ⟨line, more, clean, same⟩
  · exact empty
  · exact single file nonempty clean
  · rw [same]
    exact next line more clean (line_induction empty single next more)
termination_by file.length
decreasing_by
  rw [same, List.length_append, List.length_cons]
  omega

theorem getline_next (line more : List UInt8) (clean : (10 : UInt8) ∉ line) :
    getline (line ++ 10 :: more) = some (line ++ [10], more) := by
  induction line with
  | nil => rfl
  | cons byte line ih =>
    have other : byte ≠ 10 := fun same => clean (by simp [same])
    rw [List.cons_append, getline, ih fun member => clean (by simp [member])]
    · rfl
    · exact other

theorem getline_single (line : List UInt8) (nonempty : line ≠ []) (clean : (10 : UInt8) ∉ line) :
    getline line = some (line, []) := by
  induction line with
  | nil => exact absurd rfl nonempty
  | cons byte line ih =>
    have other : byte ≠ 10 := fun same => clean (by simp [same])
    rw [getline]
    · cases line with
      | nil => rfl
      | cons next line => rw [ih (List.cons_ne_nil _ _) fun member => clean (by simp [member])]
    · exact other

theorem chomp_cstr (line : List UInt8) (clean : (10 : UInt8) ∉ line) :
    chomp (CString.cstr line) = CString.cstr line := by
  apply if_neg
  intro last
  exact clean ((List.takeWhile_prefix _).subset (List.mem_of_getLast? last))

theorem chomp_cstr_newline (line : List UInt8) (clean : (10 : UInt8) ∉ line) :
    chomp (CString.cstr (line ++ [10])) = CString.cstr line := by
  by_cases nul : CString.NulFree line
  · rw [CString.cstr_append line [10] nul, CString.cstr_eq_self line nul]
    exact (if_pos List.getLast?_concat).trans List.dropLast_concat
  · obtain ⟨text, after, rfl, -⟩ := List.eq_append_cons_of_mem (not_not.mp nul)
    rw [List.append_assoc, List.cons_append, CString.cstr_before_nul, CString.cstr_before_nul]
    exact chomp_cstr text fun member => clean (by simp [member])

theorem originalLoop_some (file line rest : List UInt8) (linenum : Nat) (read : getline file = some (line, rest)) :
    originalLoop file linenum = (chomp (CString.cstr line), linenum + 1) :: originalLoop rest (linenum + 1) := by
  rw [originalLoop]
  split
  · rename_i ended
    cases read.symm.trans ended
  · rename_i found
    cases read.symm.trans found
    rfl

variable (rewrite : Rewrite) (file : List UInt8)

theorem originalLoop_eq (linenum : Nat) : originalLoop file linenum = numbered linenum (fileLines file) := by
  induction file using line_induction generalizing linenum with
  | empty =>
    rw [originalLoop]
    rfl
  | single line nonempty clean =>
    have ended : originalLoop [] (linenum + 1) = [] := by
      rw [originalLoop]
      rfl
    rw [originalLoop_some line line [] linenum (getline_single line nonempty clean), ended, chomp_cstr line clean,
      fileLines_single line clean nonempty]
    rfl
  | next line more clean ih =>
    rw [originalLoop_some _ _ _ linenum (getline_next line more clean), chomp_cstr_newline line clean, ih,
      fileLines_append line clean]
    rfl

/-! ## The loop over the buffer -/

section
variable (line : Nat) (text front after : List UInt8) (linesize : Nat) (touched : List Nat)

theorem scanLine_newline (count : Nat) (here : line + linesize = front.length) (clean : (10 : UInt8) ∉ text)
    (enough : text.length < count) :
    ∃ used, scanLine line count linesize ⟨front ++ text ++ 10 :: after, touched⟩ =
      some (linesize + text.length, ⟨front ++ text ++ 0 :: after, used⟩) := by
  induction text generalizing front linesize touched count with
  | nil =>
    obtain ⟨count, rfl⟩ := Nat.exists_eq_add_one_of_ne_zero (Nat.ne_of_gt enough)
    refine ⟨touched ++ [front.length] ++ [front.length], ?_⟩
    rw [scanLine, here, List.append_nil, Memory.read_append]
    simp only [Option.bind_eq_bind, Option.bind_some, if_true, Memory.write_append]
    rfl
  | cons byte text ih =>
    obtain ⟨count, rfl⟩ := Nat.exists_eq_add_one_of_ne_zero (Nat.ne_of_gt (Nat.zero_lt_of_lt enough))
    have other : byte ≠ 10 := fun same => clean (by simp [same])
    obtain ⟨used, rest⟩ := ih (front ++ [byte]) (linesize + 1) (touched ++ [front.length]) count
      (by simp; omega) (fun member => clean (by simp [member])) (by simp at enough; omega)
    refine ⟨used, ?_⟩
    rw [scanLine, here, List.append_assoc, List.cons_append, Memory.read_append]
    simp only [Option.bind_eq_bind, Option.bind_some, if_neg other]
    simp only [List.append_assoc, List.cons_append, List.nil_append] at rest ⊢
    rw [rest, List.length_cons]
    congr 2
    omega

theorem scanLine_end (here : line + linesize = front.length) (clean : (10 : UInt8) ∉ text) :
    ∃ used, scanLine line text.length linesize ⟨front ++ text ++ after, touched⟩ =
      some (linesize + text.length, ⟨front ++ text ++ after, used⟩) := by
  induction text generalizing front linesize touched with
  | nil => exact ⟨touched, rfl⟩
  | cons byte text ih =>
    have other : byte ≠ 10 := fun same => clean (by simp [same])
    obtain ⟨used, rest⟩ := ih (front ++ [byte]) (linesize + 1) (touched ++ [front.length])
      (by simp; omega) (fun member => clean (by simp [member]))
    refine ⟨used, ?_⟩
    rw [List.length_cons, scanLine, here, List.append_assoc, List.cons_append, Memory.read_append]
    simp only [Option.bind_eq_bind, Option.bind_some, if_neg other]
    simp only [List.append_assoc, List.cons_append, List.nil_append] at rest ⊢
    rw [rest]
    congr 2
    omega

end

theorem processLine_append (linenum : Nat) (front text after : List UInt8) (touched : List Nat) :
    ∃ used left, left.length = text.length + 1 ∧
      processLine rewrite linenum front.length ⟨front ++ text ++ 0 :: after, touched⟩ =
        some (CString.cstr text, ⟨front ++ left ++ after, used⟩) := by
  obtain ⟨tail, split⟩ : ∃ tail, CString.cstr text ++ tail = text := List.takeWhile_prefix _
  obtain ⟨seen, read⟩ := Memory.readString_append front (text ++ 0 :: after) touched
    (front ++ text ++ 0 :: after).length (by simp) (by simp)
  have kept := rewrite.length_text linenum (CString.cstr text)
  obtain ⟨used, written⟩ := Memory.writeString_append front (CString.cstr text)
    (rewrite.text linenum (CString.cstr text)) (tail ++ 0 :: after) seen kept.symm
  refine ⟨used, rewrite.text linenum (CString.cstr text) ++ tail ++ [0], ?_, ?_⟩
  · rw [List.length_append, List.length_append, kept, ← List.length_append, split]
    rfl
  · have same : front ++ CString.cstr text ++ (tail ++ 0 :: after) = front ++ (text ++ 0 :: after) := by
      rw [List.append_assoc, ← List.append_assoc _ tail, split]
    rw [CString.cstr_before_nul] at read
    rw [same] at written
    simp only [List.append_assoc] at read written ⊢
    simp only [processLine, read, Option.bind_eq_bind, Option.bind_some, written]
    simp

theorem lineLoop_eq (rest front : List UInt8) (touched : List Nat) (linenum : Nat) :
    lineLoop rewrite ⟨front ++ rest ++ [0], touched⟩ front.length rest.length linenum =
      some (numbered linenum (fileLines rest)) := by
  induction rest using line_induction generalizing front touched linenum with
  | empty =>
    rw [lineLoop]
    rfl
  | single line nonempty clean =>
    have positive : (0 : Int) < line.length := by
      have := List.length_pos_iff.mpr nonempty
      omega
    obtain ⟨seen, scanned⟩ := scanLine_end front.length line front [0] 0 touched rfl clean
    obtain ⟨used, left, -, processed⟩ := processLine_append rewrite (linenum + 1) front line [] seen
    have done : lineLoop rewrite ⟨front ++ left ++ [], used⟩ (front.length + (line.length + 1))
        ((line.length : Int) - (line.length + 1)) (linenum + 1) = some [] := by
      rw [lineLoop, if_neg (by omega)]
    rw [lineLoop, if_pos positive]
    simp only [Int.toNat_natCast, scanned, Option.bind_eq_bind, Option.bind_some, Nat.zero_add, processed, done,
      fileLines_single line clean nonempty]
    rfl
  | next line more clean ih =>
    have length : (line ++ 10 :: more).length = line.length + 1 + more.length := by
      rw [List.length_append, List.length_cons]
      omega
    obtain ⟨seen, scanned⟩ := scanLine_newline front.length line front (more ++ [0]) 0 touched
      (line ++ 10 :: more).length rfl clean (by omega)
    obtain ⟨used, left, kept, processed⟩ := processLine_append rewrite (linenum + 1) front line (more ++ [0]) seen
    have later := ih (front ++ left) used (linenum + 1)
    rw [List.length_append, kept, List.append_assoc] at later
    have block : front ++ (line ++ 10 :: more) ++ [0] = front ++ line ++ 10 :: (more ++ [0]) := by simp
    have remaining : ((line ++ 10 :: more).length : Int) - (line.length + 1) = more.length := by omega
    rw [lineLoop, if_pos (by omega), block]
    simp only [Int.toNat_natCast, scanned, Option.bind_eq_bind, Option.bind_some, Nat.zero_add, processed, remaining,
      later, fileLines_append line clean]
    rfl

/-! ## The whole reader -/

theorem malloc_blockSize (size : Nat) (small : size < 2 ^ 31 - 1) :
    malloc (blockSize (Int32.ofNat size)) = some (size + 1) := by
  have sum : Int32.ofNat size + 1 = Int32.ofNat (size + 1) := (Int32.ofNat_add size 1).symm
  have value : (Int32.ofNat (size + 1)).toInt64.toBitVec.toInt = (size + 1 : Nat) := by
    rw [Int64.toInt_toBitVec, Int32.toInt_toInt64, Int32.toInt_ofNat_of_lt (by omega)]
  rw [BitVec.toInt_eq_toNat_cond] at value
  have wide : (blockSize (Int32.ofNat size)).toNat = size + 1 := by
    rw [blockSize, sum]
    change (Int32.ofNat (size + 1)).toInt64.toBitVec.toNat = size + 1
    split at value <;> omega
  rw [malloc, wide, if_pos (by omega)]

theorem flag_terminated : wotermFlag.isPrefixOf (file ++ [0]) = wotermFlag.isPrefixOf file := by
  rw [Bool.eq_iff_iff, List.isPrefixOf_iff_prefix, List.isPrefixOf_iff_prefix, List.prefix_concat_iff]
  refine or_iff_right ?_
  intro same
  have nul : (0 : UInt8) ∈ wotermFlag := by simp [same]
  exact absurd nul (by decide)

/-- On every file whose block has a size, the reader stays inside of the block and passes on the lines of
the file, decrypted if need be. -/
theorem readConfigFileDepth_eq (small : file.length < 2 ^ 31 - 1) :
    readConfigFileDepth rewrite file = some (true, numbered 0 (fileLines (configBytes file))) := by
  have block : file ++ List.replicate (file.length + 1 - file.length) 0 = file ++ [0] := by simp
  have flag : wotermFileFlag.take (wotermFileFlag.length - 1) = wotermFlag := rfl
  unfold readConfigFileDepth configBytes
  rw [malloc_blockSize file.length small]
  dsimp only
  rw [block, Memory.write_append, Option.bind_eq_bind, Option.bind_some]
  dsimp only
  rw [flag, flag_terminated]
  by_cases flagged : wotermFlag.isPrefixOf file = true
  · obtain ⟨data, rfl⟩ := List.isPrefixOf_iff_prefix.mp flagged
    obtain ⟨used, run, -⟩ := rc4Crypt_append wotermFlag data [0] ([] ++ [(wotermFlag ++ data).length])
    have start : wotermFileFlag.length - 1 = wotermFlag.length := rfl
    have length : (wotermFlag ++ data).length - wotermFlag.length = data.length := by simp
    have left : ((wotermFlag ++ data).length : Int) - wotermFlag.length = (rc4 data wotermKey).length := by
      rw [length_rc4]
      simp
    rw [if_pos flagged, if_pos flagged, start, length, run, Option.bind_eq_bind, Option.bind_some, left, lineLoop_eq]
    rfl
  · have loop : lineLoop rewrite ⟨file ++ [0], [] ++ [file.length]⟩ 0 file.length 0 =
        some (numbered 0 (fileLines file)) :=
      lineLoop_eq rewrite file [] ([] ++ [file.length]) 0
    rw [if_neg flagged, if_neg flagged, loop]
    rfl

/-- A file of 2^31 - 1 bytes is taken for one that cannot be read. -/
theorem readConfigFileDepth_overflow (size : file.length = 2 ^ 31 - 1) :
    readConfigFileDepth rewrite file = some (false, []) := by
  rw [readConfigFileDepth, size]
  rfl

theorem originalLoop_ne_nil (nonempty : file ≠ []) : originalLoop file 0 ≠ [] := by
  rw [originalLoop_eq]
  rcases line_cases file with empty | ⟨-, clean⟩ | ⟨line, more, clean, same⟩
  · exact absurd empty nonempty
  · rw [fileLines_single file clean nonempty]
    exact List.cons_ne_nil _ _
  · rw [same, fileLines_append line clean]
    exact List.cons_ne_nil _ _

def untouched : Rewrite := ⟨fun _ line => line, fun _ _ => rfl⟩

/-- The patched reader refines the original one on every file but the longest: it stays inside of its block
and passes on the same lines, whatever is done to them. -/
theorem reader_refines_iff (file : List UInt8) (unflagged : wotermFlag.isPrefixOf file = false)
    (size : file.length < 2 ^ 31) :
    (∀ rewrite, ∃ code, readConfigFileDepth rewrite file = some (code, originalLoop file 0)) ↔
      file.length < 2 ^ 31 - 1 := by
  refine ⟨?_, ?_⟩
  · intro refines
    by_contra large
    have longest : file.length = 2 ^ 31 - 1 := by omega
    have nonempty : file ≠ [] := by
      rintro rfl
      cases longest
    obtain ⟨code, read⟩ := refines untouched
    rw [readConfigFileDepth_overflow untouched file longest] at read
    exact originalLoop_ne_nil file nonempty (congrArg Prod.snd (Option.some.inj read)).symm
  · intro small rewrite
    have plain : configBytes file = file := if_neg (by simp [unflagged])
    refine ⟨true, ?_⟩
    rw [readConfigFileDepth_eq rewrite file small, plain, originalLoop_eq]

theorem reader_refines_host : ∃ code, readConfigFileDepth untouched (QString.toUtf8 "Host web\n\n  User root".toList) =
    some (code, originalLoop (QString.toUtf8 "Host web\n\n  User root".toList) 0) :=
  (reader_refines_iff (QString.toUtf8 "Host web\n\n  User root".toList) (by decide +kernel) (by decide +kernel)).mpr
    (by decide +kernel) untouched

def longestFile : List UInt8 := 120 :: List.replicate (2 ^ 31 - 2) 120

/-- The client ignores it, where the original one passes on its line. -/
theorem longestFile_ignored : wotermFlag.isPrefixOf longestFile = false ∧ longestFile.length < 2 ^ 31 ∧
    (∀ rewrite, readConfigFileDepth rewrite longestFile = some (false, [])) ∧ originalLoop longestFile 0 ≠ [] := by
  have length : longestFile.length = 2 ^ 31 - 1 := by
    rw [longestFile, List.length_cons, List.length_replicate]
    decide
  refine ⟨rfl, ?_, fun rewrite => readConfigFileDepth_overflow rewrite longestFile length, ?_⟩
  · rw [length]
    decide
  · exact originalLoop_ne_nil longestFile (List.cons_ne_nil _ _)

end Woterm.Ssh.ConfigReader
