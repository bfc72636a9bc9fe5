import Woterm.Ipc.FunArg

/-!
`FunArgReader::next` on bytes nobody vouches for: any local process may connect to the socket
and write what it likes. The reader is run once more with every read checked against the bytes
of the array it reads, the NUL behind them not among these, with each argument as the place
in the frame it was copied from, and with a list that has room for so many texts and no more.
A buffer is handled well when it announces more than it holds, or holds a whole frame whose
arguments follow each other in it. Behind a negative length the reader steps back, and what it
reads from there on was never meant as an argument.
-/

namespace Woterm.Ipc.Hostile
open Woterm.Lib.Word32 Woterm.Lib.CString FunArg FunArgReader
open Woterm.Qt (QByteArray)

/-- Consecutive bytes of a frame. -/
structure Slice where
  start : Nat
  size : Nat
  deriving DecidableEq, Repr

namespace Slice

def bytes (frame : QByteArray) (slice : Slice) : QByteArray := (frame.drop slice.start).take slice.size

def Inside (frame : QByteArray) (slice : Slice) : Prop := slice.start + slice.size ≤ frame.length

def Covers (slice : Slice) (i : Nat) : Prop := slice.start ≤ i ∧ i < slice.start + slice.size

def Apart (first second : Slice) : Prop := ∀ i, first.Covers i → ¬ second.Covers i

end Slice

/-- `arg.append(pbuf, length)` with its reads checked, and the part of `arg` that `data << arg` keeps:
a `QString` is made from the bytes before the first NUL. -/
def copied (frame : QByteArray) (pbuf length : Int) : Option Slice :=
  if length = 0 then some ⟨pbuf.toNat, 0⟩
  else if pbuf < 0 then none
  else if length < 0 then
    -- The NUL that ends the string has to be found in the frame.
    if (0 : Byte) ∈ frame.drop pbuf.toNat then some ⟨pbuf.toNat, strlen (frame.drop pbuf.toNat)⟩ else none
  else if pbuf + length ≤ frame.length then
    some ⟨pbuf.toNat, strlen ((frame.drop pbuf.toNat).take length.toNat)⟩
  else none

/-- What one call of `next` does when no read may leave its array. `exhausted` is the end of the program when a
`QStringList` gets no more memory. -/
inductive Access where
  | waiting
  | received (frame : QByteArray) (data : List Slice) (rest : QByteArray)
  | fatal
  | outside
  | exhausted
  deriving DecidableEq, Repr

/-- The argument loop, from `pbuf` on, with its reads checked and room for some more texts in `data`. -/
def slices (frame : QByteArray) : Nat → Nat → Int → Except Access (List Slice)
  | 0, _, _ => .ok []
  | count + 1, room, pbuf =>
    match load frame pbuf with
    | none => .error .outside
    | some length =>
      match copied frame (pbuf + intsize) length with
      | none => .error .outside
      | some arg =>
        match room with
        | 0 => .error .exhausted
        | room + 1 => (slices frame count room (pbuf + intsize + length)).map (arg :: ·)

/-- With a list that can hold `limit` texts. -/
def access (limit : Nat) (buf : QByteArray) : Access :=
  if buf.length ≤ 0 then .waiting
  else match load buf 0 with
    | none => .outside
    | some length =>
      if (buf.length : Int) < length then .waiting
      else if ((mid buf intsize length).length : Int) ≠ length then .fatal
      else
        let funArgs := mid buf intsize length
        match load funArgs 0 with
        | none => .outside
        | some count =>
          match slices funArgs count.toNat limit intsize with
          | .error ends => ends
          | .ok data => .received funArgs data (buf.drop (length + intsize).toNat)

/-- The call of `next` reads nothing but the bytes of the buffer and of the frame, does not end the program,
and returns the empty list or texts that stand in the frame at places that do not overlap. -/
def Contained (limit : Nat) (buf : QByteArray) : Prop :=
  (access limit buf = .waiting ∧ next buf = .waiting) ∨
  ∃ frame data rest, access limit buf = .received frame data rest ∧
    next buf = .received (data.map (Slice.bytes frame)) rest ∧
    (∀ slice ∈ data, slice.Inside frame) ∧ data.Pairwise Slice.Apart

/-- Where the arguments of a frame stand, read from an index on: one with its length in front of it, or, when
that is negative, one that ends at a NUL, with the next argument then looked for further in front. -/
inductive Laid (frame : QByteArray) : Nat → Int → List Slice → Prop where
  | done (position : Int) : Laid frame 0 position []
  | counted (count : Nat) (position length : Int) (later : List Slice) :
      load frame position = some length → 0 ≤ length → position + intsize + length ≤ frame.length →
      Laid frame count (position + intsize + length) later →
      Laid frame (count + 1) position
        (⟨(position + intsize).toNat, strlen ((frame.drop (position + intsize).toNat).take length.toNat)⟩ :: later)
  | terminated (count : Nat) (position length : Int) (later : List Slice) :
      load frame position = some length → length < 0 → (0 : Byte) ∈ frame.drop (position + intsize).toNat →
      Laid frame count (position + intsize + length) later →
      Laid frame (count + 1) position
        (⟨(position + intsize).toNat, strlen (frame.drop (position + intsize).toNat)⟩ :: later)

theorem except_map_ok {α β ε : Type} {f : α → β} {result : Except ε α} {b : β} (same : result.map f = .ok b) :
    ∃ a, result = .ok a ∧ f a = b := by
  cases result with
  | error => cases same
  | ok a => exact ⟨a, rfl, Except.ok.inj same⟩

theorem except_map_error {α β ε : Type} {f : α → β} {result : Except ε α} {e : ε} (same : result.map f = .error e) :
    result = .error e := by
  cases result with
  | error => exact congrArg Except.error (Except.error.inj same)
  | ok => cases same

variable (frame : QByteArray) (count : Nat) (position : Int) (limit : Nat)

theorem copied_iff (position length : Int) (slice : Slice) (header : load frame position = some length) :
    copied frame (position + intsize) length = some slice ↔
      (0 ≤ length ∧ position + intsize + length ≤ frame.length ∧
        slice = ⟨(position + intsize).toNat,
          strlen ((frame.drop (position + intsize).toNat).take length.toNat)⟩) ∨
      (length < 0 ∧ (0 : Byte) ∈ frame.drop (position + intsize).toNat ∧
        slice = ⟨(position + intsize).toNat, strlen (frame.drop (position + intsize).toNat)⟩) := by
  have inside := load_inside header
  have start : ¬ position + (intsize : Int) < 0 := by simp only [intsize]; omega
  have fits : position + (intsize : Int) ≤ frame.length := by simp only [intsize]; omega
  generalize position + (intsize : Int) = pbuf at start fits ⊢
  unfold copied
  rcases Int.lt_trichotomy length 0 with negative | rfl | positive
  · rw [if_neg (by omega), if_neg start, if_pos negative]
    by_cases ends : (0 : Byte) ∈ frame.drop pbuf.toNat
    · simp [ends, negative, Int.not_le.mpr negative, eq_comm]
    · simp [ends, Int.not_le.mpr negative]
  · simp [fits, strlen, cstr, eq_comm]
  · rw [if_neg (by omega), if_neg start, if_neg (by omega)]
    by_cases room : pbuf + length ≤ frame.length
    · simp [room, positive.le, Int.not_lt.mpr positive.le, eq_comm]
    · simp [room, Int.not_lt.mpr positive.le]

/-- The checked loop succeeds on the frames whose arguments are laid out in them, as long as there is room. -/
theorem slices_iff (count room : Nat) (position : Int) (data : List Slice) :
    slices frame count room position = .ok data ↔ Laid frame count position data ∧ count ≤ room := by
  induction count generalizing room position data with
  | zero =>
    constructor
    · intro empty
      obtain rfl := Except.ok.inj empty
      exact ⟨.done position, Nat.zero_le room⟩
    · rintro ⟨⟨⟩, _⟩
      rfl
  | succ count ih =>
    constructor
    · intro read
      unfold slices at read
      split at read
      · cases read
      next length header =>
        split at read
        · cases read
        next slice copy =>
          split at read
          · cases read
          next room =>
            obtain ⟨later, rest, rfl⟩ := except_map_ok read
            obtain ⟨tail, fits⟩ := (ih _ _ _).mp rest
            refine ⟨?_, Nat.succ_le_succ fits⟩
            rcases (copied_iff frame position length slice header).mp copy with
              ⟨sign, inside, rfl⟩ | ⟨sign, ends, rfl⟩
            · exact .counted count position length later header sign inside tail
            · exact .terminated count position length later header sign ends tail
    · rintro ⟨laid, fits⟩
      obtain ⟨room, rfl⟩ := Nat.exists_eq_succ_of_ne_zero (Nat.ne_zero_of_lt fits)
      have rest := Nat.le_of_succ_le_succ fits
      cases laid with
      | counted _ _ length later header sign inside tail =>
        have copy := (copied_iff frame position length _ header).mpr (.inl ⟨sign, inside, rfl⟩)
        simp only [slices, header, copy, (ih _ _ _).mpr ⟨tail, rest⟩, Except.map]
      | terminated _ _ length later header sign ends tail =>
        have copy := (copied_iff frame position length _ header).mpr (.inr ⟨sign, ends, rfl⟩)
        simp only [slices, header, copy, (ih _ _ _).mpr ⟨tail, rest⟩, Except.map]

variable (buf : QByteArray) (length : Int) (data : List Slice)

theorem laid_inside (laid : Laid frame count position data) : ∀ slice ∈ data, slice.Inside frame := by
  induction laid with
  | done => simp
  | counted count position length later header sign room tail ih =>
    have inside := load_inside header
    intro slice member
    rcases List.mem_cons.mp member with rfl | member
    · have short := strlen_le_length ((frame.drop (position + intsize).toNat).take length.toNat)
      rw [List.length_take] at short
      simp only [Slice.Inside, intsize] at *
      omega
    · exact ih slice member
  | terminated count position length later header sign ends tail ih =>
    have inside := load_inside header
    intro slice member
    rcases List.mem_cons.mp member with rfl | member
    · have short := strlen_le_length (frame.drop (position + intsize).toNat)
      rw [List.length_drop] at short
      simp only [Slice.Inside, intsize] at *
      omega
    · exact ih slice member

/-- Where the checked loop succeeds, the plain one returns the texts at the places it found. -/
theorem args_of_laid (laid : Laid frame count position data) :
    args (frame ++ [0]) count position = some (data.map (Slice.bytes frame)) := by
  induction laid with
  | done => rfl
  | counted count position length later header sign room tail ih =>
    have inside := load_inside header
    have copy : ∃ arg, appendArg (frame ++ [0]) (position + intsize) length = some arg ∧
        cstr arg = cstr ((frame.drop (position + intsize).toNat).take length.toNat) := by
      simp only [intsize] at *
      unfold appendArg
      by_cases empty : length = 0
      · rw [if_pos empty, empty]
        exact ⟨[], rfl, by simp⟩
      · rw [if_neg empty, if_neg (by simp; omega), if_neg (by omega), if_pos (by simp; omega)]
        refine ⟨_, rfl, ?_⟩
        rw [List.drop_append_of_le_length (by omega), List.take_append_of_le_length (by rw [List.length_drop]; omega)]
    obtain ⟨arg, append, text⟩ := copy
    have short := strlen_le_length ((frame.drop (position + intsize).toNat).take length.toNat)
    have kept := take_strlen ((frame.drop (position + intsize).toNat).take length.toNat)
    rw [List.length_take] at short
    rw [List.take_take, min_eq_left (by omega)] at kept
    simp only [args, load_append frame [0] length header, append, ih, Option.bind_eq_bind, Option.bind_some,
      List.map_cons, Slice.bytes, text, kept]
  | terminated count position length later header sign ends tail ih =>
    have inside := load_inside header
    have copy : appendArg (frame ++ [0]) (position + intsize) length =
        some (cstr (frame.drop (position + intsize).toNat)) := by
      have room := List.length_pos_of_mem ends
      rw [List.length_drop] at room
      simp only [intsize] at *
      unfold appendArg
      rw [if_neg (by omega), if_neg (by simp; omega), if_pos sign, List.drop_append_of_le_length (by omega),
        cstr_before_nul]
    simp only [args, load_append frame [0] length header, copy, ih, Option.bind_eq_bind, Option.bind_some,
      List.map_cons, Slice.bytes, take_strlen, cstr_cstr]

/-- The frame a buffer announces. -/
def frameOf (buf : QByteArray) (length : Int) : QByteArray := (buf.drop intsize).take length.toNat

/-- Arguments that follow each other, each with its length in front of its bytes. The length of the last one may be
negative, if a NUL ends it. -/
def Ordered (frame : QByteArray) : Nat → Int → Prop
  | 0, _ => True
  | count + 1, position => ∃ length, load frame position = some length ∧
      (0 ≤ length ∧ position + intsize + length ≤ frame.length ∧ Ordered frame count (position + intsize + length) ∨
        length < 0 ∧ count = 0 ∧ (0 : Byte) ∈ frame.drop (position + intsize).toNat)

/-- Behind some arguments a negative length stands in front of a further one, which is then looked for before it. -/
def Rewinds (frame : QByteArray) : Nat → Int → Prop
  | 0, _ => False
  | count + 1, position => ∃ length, load frame position = some length ∧
      (length < 0 ∧ 0 < count ∨ 0 ≤ length ∧ Rewinds frame count (position + intsize + length))

theorem Ordered.laid (ordered : Ordered frame count position) :
    ∃ data, Laid frame count position data ∧ data.Pairwise Slice.Apart ∧
      ∀ slice ∈ data, position + intsize ≤ slice.start := by
  induction count generalizing position with
  | zero => exact ⟨[], .done position, .nil, by simp⟩
  | succ count ih =>
    obtain ⟨length, header, ⟨sign, room, next⟩ | ⟨sign, rfl, ends⟩⟩ := ordered
    · have inside := load_inside header
      obtain ⟨later, laid, apart, behind⟩ := ih _ next
      refine ⟨_, .counted count position length later header sign room laid, .cons ?_ apart, ?_⟩
      · intro slice member i first second
        have short := strlen_le_length ((frame.drop (position + intsize).toNat).take length.toNat)
        have start := behind slice member
        rw [List.length_take] at short
        simp only [Slice.Covers, intsize] at *
        omega
      · intro slice member
        rcases List.mem_cons.mp member with rfl | member
        · exact Int.self_le_toNat _
        · have start := behind slice member
          simp only [intsize] at *
          omega
    · refine ⟨_, .terminated 0 position length [] header sign ends (.done _), List.pairwise_singleton _ _, ?_⟩
      intro slice member
      rw [List.mem_singleton.mp member]
      exact Int.self_le_toNat _

theorem Ordered.not_rewinds (ordered : Ordered frame count position) : ¬ Rewinds frame count position := by
  induction count generalizing position with
  | zero => exact id
  | succ count ih =>
    obtain ⟨length, header, forward⟩ := ordered
    rintro ⟨other, same, back⟩
    obtain rfl := Option.some.inj (header.symm.trans same)
    rcases forward with ⟨sign, _, next⟩ | ⟨sign, rfl, _⟩ <;> rcases back with ⟨negative, more⟩ | ⟨positive, back⟩
    · omega
    · exact ih _ next back
    · omega
    · omega

/-- Without a step back, arguments can only be laid out one behind the other. -/
theorem ordered_of_laid (laid : Laid frame count position data)
    (forward : ¬ Rewinds frame count position) : Ordered frame count position := by
  induction laid with
  | done => trivial
  | counted count position length later header sign room tail ih =>
    exact ⟨length, header, .inl ⟨sign, room, ih fun back => forward ⟨length, header, .inr ⟨sign, back⟩⟩⟩⟩
  | terminated count position length later header sign ends tail ih =>
    have last : count = 0 := by
      by_contra more
      exact forward ⟨length, header, .inl ⟨sign, Nat.pos_of_ne_zero more⟩⟩
    exact ⟨length, header, .inr ⟨sign, last, ends⟩⟩

/-- A buffer that `next` handles well: nothing, the beginning of something longer, or a whole frame with an argument
count for which there is room and with its arguments one behind the other. -/
def WellFormed (limit : Nat) (buf : QByteArray) : Prop :=
  buf = [] ∨ ∃ length, load buf 0 = some length ∧
    ((buf.length : Int) < length ∨
      (intsize : Int) ≤ length ∧ length + intsize ≤ buf.length ∧
        ∃ count, load (frameOf buf length) 0 = some count ∧ count.toNat ≤ limit ∧
          Ordered (frameOf buf length) count.toNat intsize)

/-- The frame of a buffer makes the reader step back. -/
def StepsBack (buf : QByteArray) : Prop :=
  ∃ length count, load buf 0 = some length ∧ 0 ≤ length ∧ length + intsize ≤ buf.length ∧
    load (frameOf buf length) 0 = some count ∧ Rewinds (frameOf buf length) count.toNat intsize

theorem access_waiting (header : load buf 0 = some length)
    (more : (buf.length : Int) < length) : access limit buf = .waiting ∧ next buf = .waiting := by
  have size := load_inside header
  have some_byte : ¬ buf.length ≤ 0 := by omega
  constructor
  · simp only [access, if_neg some_byte, header, if_pos more]
  · simp only [next, if_neg some_byte, load_append buf [0] length header, if_pos more]

theorem access_fatal (header : load buf 0 = some length) (fits : length ≤ buf.length)
    (short : ¬ (0 ≤ length ∧ length + intsize ≤ buf.length)) : access limit buf = .fatal := by
  have size := load_inside header
  have some_byte : ¬ buf.length ≤ 0 := by omega
  have more : ¬ (buf.length : Int) < length := by omega
  have cut : ((mid buf intsize length).length : Int) ≠ length := by
    unfold mid
    simp only [intsize] at *
    split
    · rw [List.length_drop]
      omega
    · rw [List.length_take, List.length_drop]
      omega
  simp only [access, if_neg some_byte, header, if_neg more, if_pos cut]

theorem mid_whole (whole : 0 ≤ length ∧ length + intsize ≤ buf.length) :
    mid buf intsize length = frameOf buf length ∧ ((frameOf buf length).length : Int) = length := by
  have size : ((frameOf buf length).length : Int) = length := by
    simp only [frameOf, List.length_take, List.length_drop, intsize] at *
    omega
  refine ⟨?_, size⟩
  rw [mid, if_neg (by omega)]
  rfl

/-- With a whole frame in the buffer, all that is left to the call are the reads from the frame. -/
theorem access_whole (header : load buf 0 = some length) (whole : 0 ≤ length ∧ length + intsize ≤ buf.length) :
    access limit buf =
      match load (frameOf buf length) 0 with
      | none => .outside
      | some count =>
        match slices (frameOf buf length) count.toNat limit intsize with
        | .error ends => ends
        | .ok data => .received (frameOf buf length) data (buf.drop (length + intsize).toNat) := by
  have size := load_inside header
  obtain ⟨payload, exact_size⟩ := mid_whole buf length whole
  have some_byte : ¬ buf.length ≤ 0 := by omega
  have more : ¬ (buf.length : Int) < length := by simp only [intsize] at whole; omega
  have uncut : ¬ ((frameOf buf length).length : Int) ≠ length := not_not.mpr exact_size
  simp only [access, if_neg some_byte, header, if_neg more, payload, if_neg uncut]

theorem next_whole (length count : Int) (data : List Slice) (header : load buf 0 = some length)
    (whole : 0 ≤ length ∧ length + intsize ≤ buf.length) (counted : load (frameOf buf length) 0 = some count)
    (laid : Laid (frameOf buf length) count.toNat intsize data) :
    next buf = .received (data.map (Slice.bytes (frameOf buf length))) (buf.drop (length + intsize).toNat) := by
  have size := load_inside header
  obtain ⟨payload, exact_size⟩ := mid_whole buf length whole
  have some_byte : ¬ buf.length ≤ 0 := by omega
  have more : ¬ (buf.length : Int) < length := by simp only [intsize] at whole; omega
  have uncut : ¬ ((frameOf buf length).length : Int) ≠ length := not_not.mpr exact_size
  simp only [next, if_neg some_byte, load_append buf [0] length header, if_neg more, payload, if_neg uncut,
    load_append _ [0] count counted, args_of_laid _ _ _ _ laid]

theorem slices_error (count room : Nat) (position : Int) (ends : Access)
    (failed : slices frame count room position = .error ends) : ends = .outside ∨ ends = .exhausted := by
  induction count generalizing room position with
  | zero => cases failed
  | succ count ih =>
    unfold slices at failed
    split at failed
    · exact .inl (Except.error.inj failed).symm
    · split at failed
      · exact .inl (Except.error.inj failed).symm
      · split at failed
        · exact .inr (Except.error.inj failed).symm
        · exact ih _ _ (except_map_error failed)

/-- A whole frame is read in its bounds exactly when its arguments are laid out in it and there is room for them. -/
theorem contained_whole_iff (header : load buf 0 = some length) (whole : 0 ≤ length ∧ length + intsize ≤ buf.length) :
    Contained limit buf ↔ ∃ count data, load (frameOf buf length) 0 = some count ∧ count.toNat ≤ limit ∧
      Laid (frameOf buf length) count.toNat intsize data ∧ data.Pairwise Slice.Apart := by
  have run := access_whole limit buf length header whole
  constructor
  · intro contained
    cases counted : load (frameOf buf length) 0 with
    | none =>
      rw [counted] at run
      rcases contained with ⟨waits, _⟩ | ⟨_, _, _, received, _⟩
      · cases run.symm.trans waits
      · cases run.symm.trans received
    | some count =>
      rw [counted] at run
      cases read : slices (frameOf buf length) count.toNat limit intsize with
      | error ends =>
        simp only [read] at run
        rcases contained with ⟨waits, _⟩ | ⟨_, _, _, received, _⟩
        · rcases slices_error _ _ _ _ _ read with rfl | rfl <;> cases run.symm.trans waits
        · rcases slices_error _ _ _ _ _ read with rfl | rfl <;> cases run.symm.trans received
      | ok data =>
        simp only [read] at run
        obtain ⟨laid, room⟩ := (slices_iff _ _ _ _ _).mp read
        rcases contained with ⟨waits, _⟩ | ⟨_, _, _, received, _, _, apart⟩
        · cases run.symm.trans waits
        · cases run.symm.trans received
          exact ⟨count, data, rfl, room, laid, apart⟩
  · rintro ⟨count, data, counted, room, laid, apart⟩
    refine .inr ⟨frameOf buf length, data, _, ?_, next_whole buf length count data header whole counted laid,
      laid_inside _ _ _ _ laid, apart⟩
    simp only [run, counted, (slices_iff _ _ _ _ _).mpr ⟨laid, room⟩]

theorem not_contained (ends : access limit buf = .fatal ∨ access limit buf = .outside) : ¬ Contained limit buf := by
  rintro (⟨waits, _⟩ | ⟨_, _, _, received, _⟩)
  · rw [waits] at ends
    simp at ends
  · rw [received] at ends
    simp at ends

theorem wellFormed_iff (header : load buf 0 = some length) :
    WellFormed limit buf ↔ (buf.length : Int) < length ∨
      (intsize : Int) ≤ length ∧ length + intsize ≤ buf.length ∧
        ∃ count, load (frameOf buf length) 0 = some count ∧ count.toNat ≤ limit ∧
          Ordered (frameOf buf length) count.toNat intsize := by
  have size := load_inside header
  have some_byte : buf ≠ [] := by
    rintro rfl
    simp at size
  constructor
  · rintro (nothing | ⟨other, same, rest⟩)
    · exact absurd nothing some_byte
    · obtain rfl := Option.some.inj (header.symm.trans same)
      exact rest
  · intro rest
    exact .inr ⟨length, header, rest⟩

theorem stepsBack_iff (header : load buf 0 = some length) :
    StepsBack buf ↔ 0 ≤ length ∧ length + intsize ≤ buf.length ∧
      ∃ count, load (frameOf buf length) 0 = some count ∧ Rewinds (frameOf buf length) count.toNat intsize := by
  constructor
  · rintro ⟨other, count, same, low, fits, counted, back⟩
    obtain rfl := Option.some.inj (header.symm.trans same)
    exact ⟨low, fits, count, counted, back⟩
  · rintro ⟨low, fits, count, counted, back⟩
    exact ⟨length, count, header, low, fits, counted, back⟩

/-- `next` stays in its buffer and keeps the program alive on every well-formed buffer; on any other buffer it leaves
the buffer, ends the program or steps back. -/
theorem next_contained_iff (limit : Nat) (buf : QByteArray) :
    Contained limit buf ∧ ¬ StepsBack buf ↔ WellFormed limit buf := by
  by_cases empty : buf = []
  · subst empty
    refine iff_of_true ⟨.inl ⟨rfl, rfl⟩, ?_⟩ (.inl rfl)
    rintro ⟨length, count, header, _⟩
    cases header
  have some_byte : ¬ buf.length ≤ 0 := by simpa using empty
  cases header : load buf 0 with
  | none =>
    have leaves : access limit buf = .outside := by simp only [access, if_neg some_byte, header]
    exact iff_of_false (fun both => not_contained limit buf (.inr leaves) both.1) (by simp [WellFormed, empty, header])
  | some length =>
    rw [wellFormed_iff limit buf length header, stepsBack_iff buf length header]
    by_cases more : (buf.length : Int) < length
    · refine iff_of_true ⟨.inl (access_waiting limit buf length header more), ?_⟩ (.inl more)
      simp only [intsize]
      omega
    by_cases whole : 0 ≤ length ∧ length + intsize ≤ buf.length
    · rw [contained_whole_iff limit buf length header whole, or_iff_right more]
      constructor
      · rintro ⟨⟨count, data, counted, room, laid, _⟩, forward⟩
        have inside := load_inside counted
        rw [(mid_whole buf length whole).2] at inside
        refine ⟨by simp only [intsize]; omega, whole.2, count, counted, room, ?_⟩
        exact ordered_of_laid _ _ _ data laid fun back => forward ⟨whole.1, whole.2, count, counted, back⟩
      · rintro ⟨_, _, count, counted, room, ordered⟩
        obtain ⟨data, laid, apart, _⟩ := ordered.laid
        refine ⟨⟨count, data, counted, room, laid, apart⟩, ?_⟩
        rintro ⟨_, _, other, same, back⟩
        obtain rfl := Option.some.inj (counted.symm.trans same)
        exact ordered.not_rewinds _ _ _ back
    · have ends := access_fatal limit buf length header (Int.not_lt.mp more) whole
      refine iff_of_false (fun both => not_contained limit buf (.inl ends) both.1) ?_
      rintro (longer | ⟨large, fits, _⟩)
      · exact more longer
      · exact whole ⟨by omega, fits⟩

theorem not_laid (position length : Int) (data : List Slice) (header : load frame position = some length)
    (sign : 0 ≤ length) (past : (frame.length : Int) < position + intsize + length) :
    ¬ Laid frame (count + 1) position data := by
  intro laid
  cases laid with
  | counted _ _ other later same _ room =>
    obtain rfl := Option.some.inj (header.symm.trans same)
    omega
  | terminated _ _ other later same negative =>
    obtain rfl := Option.some.inj (header.symm.trans same)
    omega

/-- A length field of four with nothing behind it ends the program, a buffer of one byte is read past its end, and so
is a frame whose only argument claims a hundred bytes. Behind a length of minus four the reader finds the same length
again, as often as the frame says. -/
theorem hostile_buffers :
    next [4, 0, 0, 0] = .fatal ∧ (∀ limit, ¬ Contained limit [4, 0, 0, 0]) ∧
    next [1] = .overrun ∧ (∀ limit, ¬ Contained limit [1]) ∧
    next ([8, 0, 0, 0] ++ [1, 0, 0, 0] ++ [100, 0, 0, 0]) = .overrun ∧
    (∀ limit, ¬ Contained limit ([8, 0, 0, 0] ++ [1, 0, 0, 0] ++ [100, 0, 0, 0])) ∧
    ∀ limit < 2147483647,
      ¬ Contained limit ([9, 0, 0, 0] ++ [255, 255, 255, 127] ++ [252, 255, 255, 255] ++ [0]) := by
  refine ⟨by decide, fun _ => not_contained _ _ (.inl (access_fatal _ _ 4 (by decide) (by decide) (by decide))),
    by decide, fun _ => not_contained _ _ (.inr rfl), by decide, fun limit contained => ?_,
    fun limit small contained => ?_⟩
  · obtain ⟨count, data, counted, _, laid, _⟩ :=
      (contained_whole_iff limit _ 8 (by decide) (by decide)).mp contained
    have one : load (frameOf ([8, 0, 0, 0] ++ [1, 0, 0, 0] ++ [100, 0, 0, 0]) 8) 0 = some 1 := by decide
    obtain rfl := Option.some.inj (one.symm.trans counted)
    exact not_laid _ 0 4 100 data (by decide) (by decide) (by decide) laid
  · obtain ⟨count, _, counted, room, _⟩ := (contained_whole_iff limit _ 9 (by decide) (by decide)).mp contained
    have all : load (frameOf ([9, 0, 0, 0] ++ [255, 255, 255, 127] ++ [252, 255, 255, 255] ++ [0]) 9) 0 =
        some 2147483647 := by decide
    obtain rfl := Option.some.inj (all.symm.trans counted)
    omega

end Woterm.Ipc.Hostile
