import Mathlib.Data.List.FinRange
import Woterm.Lib.Run
import Woterm.Lib.Slots
import Woterm.Ssh.Authfile

/-!
The text of `rc4_init` and `rc4_crypt`, which `qwoutils.cpp` and `authfile.c` both contain, on `int` variables and
with every access to an array checked.
-/

namespace Woterm.Rc4State
open Woterm.Lib Woterm.Qt Woterm.Ssh.Authfile

/-- One round of the first loop of `rc4_init`. There is no remainder by a length of zero. -/
def fillRound (key : QByteArray) (len : Nat) (arrays : Table × Table) (i : Nat) : Option (Table × Table) := do
  let s ← Slots.writeAt arrays.1 i (UInt8.ofNat i)
  let byte ← if len = 0 then none else key[i % len]?
  let k ← Slots.writeAt arrays.2 i byte
  some (s, k)

/-- One round of the second loop, with `j`. The remainder of C has the sign of the dividend. -/
def initRound (k : Table) (state : Table × Int) (i : Nat) : Option (Table × Int) := do
  let a ← Slots.readAt state.1 i
  let b ← Slots.readAt k i
  let j := (state.2 + a.toNat + b.toNat).tmod 256
  let s ← Slots.exchange state.1 i j
  some (s, j)

def rc4Init (s : Table) (key : QByteArray) (len : Nat) : Option Table := do
  let (s, k) ← Run.after (fillRound key len) (s, Vector.replicate 256 0) (List.range 256)
  let (s, _) ← Run.after (initRound k) (s, 0) (List.range 256)
  some s

/-- The array and the variables of `rc4_crypt`. -/
structure Variables where
  s : Table
  i : Int := 0
  j : Int := 0
  t : Int := 0

/-- One round of `rc4_crypt`, with the byte `s[t]`. -/
def cryptRound (v : Variables) : Option (Variables × UInt8) := do
  let i := (v.i + 1).tmod 256
  let a ← Slots.readAt v.s i
  let j := (v.j + a.toNat).tmod 256
  let s ← Slots.exchange v.s i j
  let a ← Slots.readAt s i
  let b ← Slots.readAt s j
  let t := ((a.toNat : Int) + b.toNat).tmod 256
  let byte ← Slots.readAt s t
  some ({ s, i, j, t }, byte)

/-- The bytes that some rounds of `rc4_crypt` combine with the data. -/
def keystream : Nat → Variables → Option (Variables × QByteArray)
  | 0, v => some (v, [])
  | n + 1, v => do
    let (v, byte) ← cryptRound v
    let (last, bytes) ← keystream n v
    some (last, byte :: bytes)

def rc4Crypt : Variables → QByteArray → Option (Variables × QByteArray)
  | v, [] => some (v, [])
  | v, d :: data => do
    let (v, byte) ← cryptRound v
    let (last, rest) ← rc4Crypt v data
    some (last, (d ^^^ byte) :: rest)

/-- The array holds every byte once. -/
def IsPermutation (s : Table) : Prop := s.toList.Perm ((List.range 256).map UInt8.ofNat)

def Variables.InRange (v : Variables) : Prop :=
  (0 ≤ v.i ∧ v.i ≤ 255) ∧ (0 ≤ v.j ∧ v.j ≤ 255) ∧ 0 ≤ v.t ∧ v.t ≤ 255

/-! ## The accesses of `rc4_init` -/

theorem tmod_natCast (n : Nat) : (n : Int).tmod 256 = (n % 256 : Nat) := by
  rw [Int.tmod_eq_emod_of_nonneg (Int.natCast_nonneg n)]
  rfl

theorem index_of_lt (i : Nat) (inside : i < 256) : Utils.index i = ⟨i, inside⟩ :=
  Fin.ext (Nat.mod_eq_of_lt inside)

theorem readAt_eq (s : Table) (i : Nat) (inside : i < 256) :
    Slots.readAt s i = some (s.get (Utils.index i)) := by
  rw [Slots.readAt_natCast s i inside, index_of_lt i inside]
  rfl

theorem exchange_eq (s : Table) (i j : Nat) (first : i < 256) (second : j < 256) :
    Slots.exchange s i j = some (exchange s i j) := by
  rw [Slots.exchange_natCast s i j first second, exchange_eq_swap]
  simp only [index_of_lt i first, index_of_lt j second]

/-- The sum that the next index is taken of is not negative, so that the remainder lies in the array. -/
theorem initRound_eq (k s : Table) (j i : Nat) (inside : i < 256) :
    initRound k (s, j) i = some ((initStep k (s, j) i).1, ((initStep k (s, j) i).2 : Int)) := by
  have second : (j + (s.get (Utils.index i)).toNat + (k.get (Utils.index i)).toNat) % 256 < 256 :=
    Nat.mod_lt _ (by decide)
  simp only [initRound, readAt_eq, inside, Option.bind_eq_bind, Option.bind_some, ← Int.natCast_add, tmod_natCast,
    exchange_eq s i _ inside second]
  rfl

theorem after_initRound (k s : Table) (j : Nat) (rounds : List Nat) (inside : ∀ i ∈ rounds, i < 256) :
    Run.after (initRound k) (s, (j : Int)) rounds =
      some ((rounds.foldl (initStep k) (s, j)).1, ((rounds.foldl (initStep k) (s, j)).2 : Int)) := by
  induction rounds generalizing s j with
  | nil => rfl
  | cons i rounds ih =>
    have later := fun other member => inside other (List.mem_cons_of_mem i member)
    rw [Run.after_cons, initRound_eq k s j i (inside i List.mem_cons_self), Option.bind_some, ih _ _ later]
    rfl

theorem after_fillRound (key : QByteArray) (keyed : key ≠ []) (arrays : Table × Table) (n : Nat) (room : n ≤ 256) :
    ∃ s k, Run.after (fillRound key key.length) arrays (List.range n) = some (s, k) ∧
      ∀ i < n, s[i]? = some (UInt8.ofNat i) ∧ k[i]? = some (key.getD (i % key.length) 0) := by
  induction n with
  | zero => exact ⟨arrays.1, arrays.2, rfl, by simp⟩
  | succ n ih =>
    obtain ⟨s, k, reached, written⟩ := ih (by omega)
    have inside : n < 256 := by omega
    have positive := List.length_pos_of_ne_nil keyed
    have found : key[n % key.length]? = some (key.getD (n % key.length) 0) := by
      rw [List.getD_eq_getElem?_getD, List.getElem?_eq_getElem (Nat.mod_lt n positive), Option.getD_some]
    refine ⟨s.set n (UInt8.ofNat n), k.set n (key.getD (n % key.length) 0), ?_, ?_⟩
    · rw [List.range_succ, Run.after_append, reached, Option.bind_some, Run.after_cons]
      simp only [fillRound, Slots.writeAt_natCast, inside, if_neg (Nat.ne_of_gt positive), found,
        Option.bind_eq_bind, Option.bind_some]
      rfl
    · intro i before
      by_cases last : i = n
      · subst last
        exact ⟨Vector.getElem?_set_self inside, Vector.getElem?_set_self inside⟩
      · rw [Vector.getElem?_set_ne inside (Ne.symm last), Vector.getElem?_set_ne inside (Ne.symm last)]
        exact written i (by omega)

/-- Every access of `rc4_init` lies in its array, and the table is the one of both copies. -/
theorem rc4Init_eq_some (s : Table) (key : QByteArray) (keyed : key ≠ []) :
    rc4Init s key key.length = some (Ssh.Authfile.rc4Init key key.length) := by
  obtain ⟨filled, k, reached, written⟩ :=
    after_fillRound key keyed (s, Vector.replicate 256 0) 256 (Nat.le_refl _)
  have identity : filled = Vector.ofFn fun i : Fin 256 => UInt8.ofNat i.val := by
    apply Vector.ext
    intro i inside
    rw [Vector.getElem_ofFn, ← Option.some_inj, ← (written i inside).1, Vector.getElem?_eq_getElem inside]
  have repeated : k = Vector.ofFn fun i : Fin 256 => key.getD (i.val % key.length) 0 := by
    apply Vector.ext
    intro i inside
    rw [Vector.getElem_ofFn, ← Option.some_inj, ← (written i inside).2, Vector.getElem?_eq_getElem inside]
  rw [rc4Init, reached, Option.bind_eq_bind, Option.bind_some]
  have rounds := after_initRound k filled 0 (List.range 256) (fun i member => List.mem_range.mp member)
  rw [Ssh.Authfile.rc4Init, ← identity, ← repeated]
  dsimp only
  rw [Option.bind_eq_bind]
  exact congrArg (Option.bind · _) rounds

/-! ## The accesses of `rc4_crypt` -/

/-- The variables of the unchecked copy, as `int`s. -/
def ofCipher (state : Cipher) (t : Nat) : Variables := { s := state.s, i := state.i, j := state.j, t }

theorem cryptRound_eq (state : Cipher) (t : Nat) :
    ∃ next < 256, cryptRound (ofCipher state t) = some (ofCipher (cryptStep state).1 next, (cryptStep state).2) := by
  have small (n : Nat) : n % 256 < 256 := Nat.mod_lt n (by decide)
  let s := (cryptStep state).1.s
  let total := (s.get (Utils.index (cryptStep state).1.i)).toNat + (s.get (Utils.index (cryptStep state).1.j)).toNat
  refine ⟨total % 256, small total, ?_⟩
  have one : (state.i : Int) + 1 = (state.i + 1 : Nat) := rfl
  simp only [cryptRound, ofCipher, one, tmod_natCast, readAt_eq, small, exchange_eq, Option.bind_eq_bind,
    Option.bind_some, ← Int.natCast_add]
  rfl

theorem keystream_eq (n : Nat) (state : Cipher) (t : Nat) (small : t < 256) :
    ∃ last < 256, keystream n (ofCipher state t) =
      some (ofCipher ((fun state => (cryptStep state).1)^[n] state) last, KeyStream.stream cryptStep n state) := by
  induction n generalizing state t with
  | zero => exact ⟨t, small, rfl⟩
  | succ n ih =>
    obtain ⟨next, nextSmall, round⟩ := cryptRound_eq state t
    obtain ⟨last, lastSmall, rounds⟩ := ih (cryptStep state).1 next nextSmall
    refine ⟨last, lastSmall, ?_⟩
    rw [keystream, round, Option.bind_eq_bind, Option.bind_some]
    dsimp only
    rw [rounds]
    rfl

theorem rc4Crypt_eq (data : QByteArray) (state : Cipher) (t : Nat) :
    ∃ v, rc4Crypt (ofCipher state t) data = some (v, KeyStream.mask cryptStep state data) := by
  induction data generalizing state t with
  | nil => exact ⟨ofCipher state t, rfl⟩
  | cons d data ih =>
    obtain ⟨next, -, round⟩ := cryptRound_eq state t
    obtain ⟨v, rounds⟩ := ih (cryptStep state).1 next
    refine ⟨v, ?_⟩
    rw [rc4Crypt, round, Option.bind_eq_bind, Option.bind_some]
    dsimp only
    rw [rounds]
    rfl

/-! ## The permutation -/

theorem isPermutation_exchange (s : Table) (i j : Nat) (permutation : IsPermutation s) :
    IsPermutation (exchange s i j) := by
  rw [exchange_eq_swap]
  exact (Vector.swap_perm _ _).toList.trans permutation

theorem isPermutation_rc4Init (key : QByteArray) (len : Nat) : IsPermutation (Ssh.Authfile.rc4Init key len) := by
  have rounds (k : Table) (inputs : List Nat) (state : Table × Nat) (permutation : IsPermutation state.1) :
      IsPermutation (inputs.foldl (initStep k) state).1 := by
    induction inputs generalizing state with
    | nil => exact permutation
    | cons i inputs ih => exact ih (initStep k state i) (isPermutation_exchange state.1 _ _ permutation)
  apply rounds
  rw [IsPermutation, Vector.toList_ofFn, List.ofFn_eq_map, ← List.map_coe_finRange_eq_range, List.map_map]
  exact List.Perm.refl _

/-- What holds of the variables between two rounds: the first round starts with zeros. -/
structure Between (state : Cipher) : Prop where
  permutation : IsPermutation state.s
  i_small : state.i < 256
  j_small : state.j < 256

theorem Between.step {state : Cipher} (between : Between state) : Between (cryptStep state).1 where
  permutation := isPermutation_exchange state.s _ _ between.permutation
  i_small := Nat.mod_lt _ (by decide)
  j_small := Nat.mod_lt _ (by decide)

theorem Between.rounds {state : Cipher} (between : Between state) (n : Nat) :
    Between ((fun state => (cryptStep state).1)^[n] state) := by
  induction n generalizing state with
  | zero => exact between
  | succ n ih => exact ih between.step

theorem Between.inRange {state : Cipher} (between : Between state) {t : Nat} (small : t < 256) :
    (ofCipher state t).InRange := by
  have i_small := between.i_small
  have j_small := between.j_small
  simp only [Variables.InRange, ofCipher]
  omega

/-- With a key, no access of either copy leaves its array, the table stays a permutation of all bytes, the
indices stay in it, and a longer stream continues a shorter one. -/
theorem rc4_keeps_permutation (key : QByteArray) (keyed : key ≠ []) (s : Table) :
    ∃ table, rc4Init s key key.length = some table ∧ IsPermutation table ∧
      (∀ n, ∃ v bytes, keystream n { s := table } = some (v, bytes) ∧ IsPermutation v.s ∧ v.InRange ∧
        bytes.length = n ∧ ∀ m, n ≤ m → ∃ last more, keystream m { s := table } = some (last, bytes ++ more)) ∧
      (∀ data, ∃ v, rc4Crypt { s := table } data = some (v, Utils.rc4 data key)) ∧
      (∀ data n, Utils.rc4 (data.take n) key = (Utils.rc4 data key).take n) ∧
      (∀ back, Ssh.Authfile.rc4Init (key ++ back) key.length = table) ∧ Utils.rc4Init key = table ∧
      ∀ data, KeyStream.mask cryptStep { s := table } data = Utils.rc4 data key := by
  have whole := rc4Init_eq key [] keyed
  rw [List.append_nil] at whole
  have permutation := isPermutation_rc4Init key key.length
  have start : Between { s := Ssh.Authfile.rc4Init key key.length } :=
    ⟨permutation, Nat.zero_lt_succ _, Nat.zero_lt_succ _⟩
  have masked (data : QByteArray) :
      KeyStream.mask cryptStep { s := Ssh.Authfile.rc4Init key key.length } data = Utils.rc4 data key := by
    rw [mask_cryptStep, whole, Utils.rc4]
  refine ⟨_, rc4Init_eq_some s key keyed, permutation, ?_, ?_, ?_, ?_, whole.symm, masked⟩
  · intro n
    obtain ⟨t, small, rounds⟩ := keystream_eq n { s := Ssh.Authfile.rc4Init key key.length } 0 (by decide)
    refine ⟨_, _, rounds, (start.rounds n).permutation, (start.rounds n).inRange small,
      KeyStream.length_stream _ n _, ?_⟩
    intro m order
    obtain ⟨last, -, further⟩ := keystream_eq m { s := Ssh.Authfile.rc4Init key key.length } 0 (by decide)
    obtain ⟨more, rfl⟩ := Nat.exists_eq_add_of_le order
    obtain ⟨later, split⟩ := KeyStream.stream_add cryptStep n more { s := Ssh.Authfile.rc4Init key key.length }
    rw [split] at further
    exact ⟨_, _, further⟩
  · intro data
    obtain ⟨v, run⟩ := rc4Crypt_eq data { s := Ssh.Authfile.rc4Init key key.length } 0
    rw [masked] at run
    exact ⟨v, run⟩
  · intro data n
    exact KeyStream.mask_take _ _ data n
  · intro back
    exact (rc4Init_eq key back keyed).trans whole.symm

theorem rc4_keeps_permutation_woterm :
    Utils.wotermKey ≠ [] ∧ ∃ table, rc4Init (Vector.replicate 256 0) Utils.wotermKey Utils.wotermKey.length =
      some table ∧ IsPermutation table := by
  refine ⟨by decide, ?_⟩
  obtain ⟨table, init, permutation, -⟩ :=
    rc4_keeps_permutation Utils.wotermKey (by decide) (Vector.replicate 256 0)
  exact ⟨table, init, permutation⟩

end Woterm.Rc4State
