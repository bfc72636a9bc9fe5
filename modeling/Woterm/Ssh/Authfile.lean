import Woterm.Lib.Memory
import Woterm.Utils

/-!
RC4 as the `ssh` client has it in `authfile.c`: loops over `int` indices that exchange array elements
through a temporary variable and change the data in place. It computes what the copy in `QWoUtils`
computes, so that the client reads the streams that the program writes.
-/

namespace Woterm.Ssh.Authfile
open Woterm.Lib Woterm.Qt Woterm.Utils

abbrev Table := Vector UInt8 256

/-- `tmp = s[i]; s[i] = s[j]; s[j] = tmp;` -/
def exchange (s : Table) (i j : Nat) : Table :=
  let tmp := s.get (index i)
  let s := s.set (index i) (s.get (index j))
  s.set (index j) tmp

/-- The array of a string constant, with its terminator. -/
def wotermRc4Key : List UInt8 := wotermKey ++ [0]

def wotermFileFlag : List UInt8 := wotermFlag ++ [0]

/-- One round of the second loop of `rc4_init`, with `j`. -/
def initStep (k : Table) (state : Table × Nat) (i : Nat) : Table × Nat :=
  let j := (state.2 + (state.1.get (index i)).toNat + (k.get (index i)).toNat) % 256
  (exchange state.1 i j, j)

def rc4Init (key : List UInt8) (len : Nat) : Table :=
  let s := Vector.ofFn fun i : Fin 256 => UInt8.ofNat i.val
  let k := Vector.ofFn fun i : Fin 256 => key.getD (i.val % len) 0
  ((List.range 256).foldl (initStep k) (s, 0)).1

/-- `rc4_init` as it is called: without the terminator of the key. -/
def keyTable : Table := rc4Init wotermRc4Key (wotermRc4Key.length - 1)

/-- The variables of `rc4_crypt`. -/
structure Cipher where
  s : Table
  i : Nat := 0
  j : Nat := 0

/-- One round of `rc4_crypt`, with the byte `s[t]` that is combined with the data. -/
def cryptStep (state : Cipher) : Cipher × UInt8 :=
  let i := (state.i + 1) % 256
  let j := (state.j + (state.s.get (index i)).toNat) % 256
  let s := exchange state.s i j
  let t := ((s.get (index i)).toNat + (s.get (index j)).toNat) % 256
  ({ s, i, j }, s.get (index t))

/-- `rc4_crypt` on the memory that `data` is an index of. -/
def rc4Crypt (s : Table) (memory : Memory) (data len : Nat) : Option Memory :=
  Memory.maskLoop cryptStep len { s } data memory

/-! ## Both copies are the same cipher -/

theorem index_mod (n : Nat) : index (n % 256) = index n := by
  apply Fin.ext
  exact Nat.mod_mod n 256

theorem exchange_eq_swap (s : Table) (i j : Nat) : exchange s i j = s.swap (index i) (index j) := rfl

/-- The indices of the other copy. -/
def Cipher.indexed (state : Cipher) : Rc4 := { s := state.s, i := index state.i, j := index state.j }

theorem index_add (m n : Nat) : index ((index m).val + n) = index (m + n) := by
  apply Fin.ext
  exact Nat.mod_add_mod m 256 n

theorem rc4Next_indexed (state : Cipher) :
    rc4Next state.indexed = ((cryptStep state).1.indexed, (cryptStep state).2) := by
  unfold rc4Next cryptStep Cipher.indexed
  simp only [index_add, index_mod, exchange_eq_swap]

theorem rc4InitStep_indexed (k : Table) (state : Table × Nat) (i : Fin 256) :
    rc4InitStep k (state.1, index state.2) i = ((initStep k state i.val).1, index (initStep k state i.val).2) := by
  have same : index i.val = i := Fin.ofNat_val_eq_self i
  unfold rc4InitStep initStep
  simp only [same, Nat.add_assoc, index_add, index_mod, exchange_eq_swap]

theorem foldl_rc4InitStep (k : Table) (rounds : List (Fin 256)) (state : Table × Nat) :
    rounds.foldl (rc4InitStep k) (state.1, index state.2) =
      (((rounds.map Fin.val).foldl (initStep k) state).1, index ((rounds.map Fin.val).foldl (initStep k) state).2) := by
  induction rounds generalizing state with
  | nil => rfl
  | cons i rounds ih => rw [List.foldl_cons, rc4InitStep_indexed, ih, List.map_cons, List.foldl_cons]

theorem rc4Init_eq (key back : List UInt8) (keyed : key ≠ []) :
    rc4Init (key ++ back) key.length = Utils.rc4Init key := by
  have keys (i : Fin 256) : (key ++ back).getD (i.val % key.length) 0 = key.getD (i.val % key.length) 0 := by
    have inside : i.val % key.length < key.length := Nat.mod_lt _ (List.length_pos_of_ne_nil keyed)
    rw [List.getD_eq_getElem?_getD, List.getD_eq_getElem?_getD, List.getElem?_append_left inside]
  unfold rc4Init Utils.rc4Init
  simp only [keys]
  have rounds := foldl_rc4InitStep (Vector.ofFn fun i : Fin 256 => key.getD (i.val % key.length) 0)
    (List.finRange 256) (Vector.ofFn fun i : Fin 256 => UInt8.ofNat i.val, 0)
  rw [List.map_coe_finRange_eq_range] at rounds
  exact (congrArg Prod.fst rounds).symm

theorem keyTable_eq : keyTable = Utils.rc4Init wotermKey := rc4Init_eq wotermKey [0] (by decide)

theorem mask_cryptStep (s : Table) (data : List UInt8) :
    KeyStream.mask cryptStep { s } data = Utils.rc4Crypt s data :=
  (KeyStream.mask_simulation cryptStep rc4Next Cipher.indexed rc4Next_indexed { s } data).symm

theorem rc4Crypt_append (front data back : List UInt8) (touched : List Nat) :
    ∃ used, rc4Crypt keyTable ⟨front ++ data ++ back, touched⟩ front.length data.length =
        some ⟨front ++ rc4 data wotermKey ++ back, touched ++ used⟩ ∧
      ∀ i, i ∈ used ↔ front.length ≤ i ∧ i < front.length + data.length := by
  obtain ⟨used, run, range⟩ := Memory.maskLoop_append cryptStep data front back { s := keyTable } touched
  refine ⟨used, ?_, range⟩
  rw [rc4Crypt, run, mask_cryptStep, rc4, ← keyTable_eq]

/-! ## The stream format -/

theorem toWotermStream_flagged (data : QByteArray) : wotermFlag.isPrefixOf (toWotermStream data) = true := by
  unfold toWotermStream
  split
  · assumption
  · simp

theorem toWotermStream_toWotermStream (data : QByteArray) :
    toWotermStream (toWotermStream data) = toWotermStream data :=
  if_pos (toWotermStream_flagged data)

theorem length_toWotermStream (data : QByteArray) (unflagged : wotermFlag.isPrefixOf data = false) :
    (toWotermStream data).length = 7 + data.length := by
  rw [toWotermStream, if_neg (by simp [unflagged]), List.length_append, length_rc4]
  rfl

/-- The stream format: what does not itself start with the flag comes back from the program and, whatever
lies behind the file in its memory, from the client; and a stream is not encoded twice. -/
theorem stream_codec (data : QByteArray) (unflagged : wotermFlag.isPrefixOf data = false) :
    fromWotermStream (toWotermStream data) = data ∧
    (∀ other, toWotermStream (toWotermStream other) = toWotermStream other) ∧
    ∀ back, ∃ memory, rc4Crypt keyTable { bytes := toWotermStream data ++ back } 7
        ((toWotermStream data).length - 7) = some memory ∧
      (memory.bytes.drop 7).take ((toWotermStream data).length - 7) = data := by
  refine ⟨fromWotermStream_toWotermStream data unflagged, toWotermStream_toWotermStream, ?_⟩
  intro back
  have length : (toWotermStream data).length - 7 = (rc4 data wotermKey).length := by
    rw [length_toWotermStream data unflagged, length_rc4, Nat.add_sub_cancel_left]
  have stream : toWotermStream data = wotermFlag ++ rc4 data wotermKey := if_neg (by simp [unflagged])
  obtain ⟨used, run, -⟩ := rc4Crypt_append wotermFlag (rc4 data wotermKey) back []
  rw [rc4_rc4] at run
  refine ⟨⟨wotermFlag ++ data ++ back, [] ++ used⟩, ?_, ?_⟩
  · rw [length, stream]
    exact run
  · rw [length_toWotermStream data unflagged, Nat.add_sub_cancel_left]
    exact List.take_left

theorem stream_codec_host :
    fromWotermStream (toWotermStream (QString.toUtf8 "Host web".toList)) = QString.toUtf8 "Host web".toList :=
  (stream_codec (QString.toUtf8 "Host web".toList) (by decide)).1

end Woterm.Ssh.Authfile
