import Woterm.Ipc.FunArg

/-!
The read side of the message channel over a whole run. The socket may deliver the
byte stream in any pieces; each piece is appended to the buffer and `next` is called
until it returns an empty list. A run ends well exactly when no piece ends at one of
the few places inside a frame where the length test of `next` goes wrong.
-/

namespace Woterm.Ipc.Fragments
open Woterm.Lib.Word32 Woterm.Lib.CString FunArg FunArgWriter FunArgReader
open Woterm.Qt (QByteArray)

/-- The two ways a reader can fail: the `qFatal` call, and a read past its buffer. -/
inductive Crash where
  | fatal
  | overrun
  deriving DecidableEq, Repr

/-- The loop of `onClientReadyRead`. Every message takes bytes off the buffer, so more
rounds than buffered bytes are never needed. -/
def drain : Nat → QByteArray → Except Crash (List Message × QByteArray)
  | 0, buf => .ok ([], buf)
  | rounds + 1, buf =>
    match next buf with
    | .waiting => .ok ([], buf)
    | .received [] rest => .ok ([], rest)
    | .received (arg :: args) rest => do
        let (later, left) ← drain rounds rest
        .ok ((arg :: args) :: later, left)
    | .fatal => .error .fatal
    | .overrun => .error .overrun

/-- `readAll` followed by the loop. -/
def onClientReadyRead (buf chunk : QByteArray) : Except Crash (List Message × QByteArray) :=
  drain ((buf ++ chunk).length + 1) (buf ++ chunk)

/-- All deliveries of a run, with the messages of each in order. -/
def run (buf : QByteArray) : List QByteArray → Except Crash (List Message × QByteArray)
  | [] => .ok ([], buf)
  | chunk :: chunks => do
      let (first, left) ← onClientReadyRead buf chunk
      let (later, last) ← run left chunks
      .ok (first ++ later, last)

/-- A message the writer can send: an argument at least, no NUL inside one, and a frame
whose size an `int` can hold. -/
structure Sendable (funArgs : Message) : Prop where
  some_arg : funArgs ≠ []
  clean : ∀ arg ∈ funArgs, NulFree arg
  small : (write funArgs).length < 2147483648

def frames (messages : List Message) : List Byte := messages.flatMap write

/-- Pending bytes of a frame that `next` leaves alone. With three bytes the fourth byte of
the length is the NUL that ends the buffer, so only the low 24 bits of the length count. -/
def Harmless (pending size : Nat) : Prop :=
  pending = 0 ∨ (pending = 3 ∧ 3 < size % 16777216) ∨ (4 ≤ pending ∧ pending < size)

instance (pending size : Nat) : Decidable (Harmless pending size) := by
  unfold Harmless
  infer_instance

/-- After `taken` bytes of the stream, what is pending of an unfinished frame is harmless. -/
def SafeCut : List Message → Nat → Prop
  | [], _ => True
  | funArgs :: rest, taken =>
    if taken < (write funArgs).length then Harmless taken (payloadSize funArgs)
    else SafeCut rest (taken - (write funArgs).length)

/-- The buffered bytes are a proper beginning of the next frame. -/
def Unfinished : List Message → List Byte → Prop
  | [], left => left = []
  | funArgs :: _, left => left <+: write funArgs ∧ left.length < (write funArgs).length

variable (done rest : List Message) (messages : List Message)

theorem safeCut_skip (taken : Nat) : SafeCut (done ++ rest) ((frames done).length + taken) ↔ SafeCut rest taken := by
  induction done with
  | nil => simp [frames]
  | cons funArgs done ih =>
    have whole : ¬ (frames (funArgs :: done)).length + taken < (write funArgs).length := by
      simp only [frames, List.flatMap_cons, List.length_append]
      omega
    have less : (frames (funArgs :: done)).length + taken - (write funArgs).length =
        (frames done).length + taken := by
      simp only [frames, List.flatMap_cons, List.length_append]
      omega
    simp only [List.cons_append, SafeCut, if_neg whole, less, ih]

variable (funArgs : Message) (left : List Byte)

theorem safeCut_within (rest : List Message) (left : List Byte) (short : left.length < (write funArgs).length) :
    SafeCut (funArgs :: rest) left.length ↔ Harmless left.length (payloadSize funArgs) := by
  simp only [SafeCut, if_pos short]

theorem exists_unfinished (bytes : List Byte) (start : bytes <+: frames messages) :
    ∃ done rest left, messages = done ++ rest ∧ bytes = frames done ++ left ∧ Unfinished rest left ∧
      left <+: frames rest := by
  induction messages generalizing bytes with
  | nil =>
    have empty : bytes = [] := by simpa [frames] using start
    exact ⟨[], [], [], rfl, by simp [empty, frames], rfl, by simp⟩
  | cons funArgs messages ih =>
    have stream : frames (funArgs :: messages) = write funArgs ++ frames messages := by simp [frames]
    by_cases short : bytes.length < (write funArgs).length
    · have inside : bytes <+: write funArgs :=
        List.prefix_of_prefix_length_le start (stream ▸ List.prefix_append _ _) short.le
      exact ⟨[], funArgs :: messages, bytes, rfl, by simp [frames], ⟨inside, short⟩, start⟩
    · have covered : write funArgs <+: bytes :=
        List.prefix_of_prefix_length_le (stream ▸ List.prefix_append _ _) start (by omega)
      obtain ⟨later, rfl⟩ := covered
      have tail : later <+: frames messages := by
        rw [stream] at start
        exact (List.prefix_append_right_inj _).mp start
      obtain ⟨done, rest, left, rfl, rfl, part, ahead⟩ := ih later tail
      exact ⟨funArgs :: done, rest, left, rfl, by simp [frames], part, ahead⟩

private theorem load_short (short : left.length < 3) : load (left ++ [0]) 0 = none := by
  match left, short with
  | [], _ => rfl
  | [_], _ => rfl
  | [_, _], _ => rfl

/-- Three pending bytes and the terminator hold the low 24 bits of the length. -/
private theorem load_three (start : left <+: write funArgs) (three : left.length = 3) :
    load (left ++ [0]) 0 = some ((payloadSize funArgs % 16777216 : Nat) : Int) := by
  have known : left = (toBytes (payloadSize funArgs)).take 3 := by
    have same := List.prefix_iff_eq_take.mp start
    rw [three, write_eq, List.take_append_of_le_length (by simp [toBytes_length])] at same
    exact same
  rw [known]
  simp only [toBytes, List.take_succ_cons, List.take_zero, List.cons_append, List.nil_append, load,
    Int.toNat_zero, List.drop_zero, ofBytes, wrap, UInt8.toNat_ofNat']
  norm_num
  omega

private theorem load_header (start : left <+: write funArgs) (four : 4 ≤ left.length)
    (small : (write funArgs).length < 2147483648) :
    load (left ++ [0]) 0 = some ((payloadSize funArgs : Nat) : Int) := by
  obtain ⟨body, rfl⟩ : toBytes (payloadSize funArgs) <+: left :=
    List.prefix_of_prefix_length_le (write_eq funArgs ▸ List.prefix_append _ _) start
      (by simpa [toBytes_length] using four)
  have size := write_length funArgs
  rw [List.append_assoc]
  exact load_zero _ _ (by omega) (by omega)

theorem next_harmless (sendable : Sendable funArgs) (start : left <+: write funArgs)
    (harmless : Harmless left.length (payloadSize funArgs)) : next left = .waiting := by
  rcases harmless with empty | ⟨three, low⟩ | ⟨four, more⟩
  · simp [next, empty]
  · have header := load_three funArgs left start three
    have less : (left.length : Int) < ((payloadSize funArgs % 16777216 : Nat) : Int) := by omega
    simp only [next, if_neg (by omega : ¬ left.length ≤ 0), header, if_pos less]
  · have header := load_header funArgs left start four sendable.small
    have less : (left.length : Int) < (payloadSize funArgs : Int) := by omega
    simp only [next, if_neg (by omega : ¬ left.length ≤ 0), header, if_pos less]

/-- Any other part of a frame makes `next` fail: it reads past its buffer, or it takes the
frame for complete and finds fewer bytes than it announced. -/
theorem next_harmful (sendable : Sendable funArgs) (start : left <+: write funArgs)
    (short : left.length < (write funArgs).length) (harmful : ¬ Harmless left.length (payloadSize funArgs)) :
    next left = .fatal ∨ next left = .overrun := by
  have positive : ¬ left.length ≤ 0 := fun empty => harmful (Or.inl (by omega))
  have large := payloadSize_ge funArgs sendable.some_arg
  have size := write_length funArgs
  by_cases few : left.length < 3
  · right
    simp only [next, if_neg positive, load_short left few]
  · by_cases three : left.length = 3
    · have header := load_three funArgs left start three
      have low : payloadSize funArgs % 16777216 ≤ 3 := by
        by_contra high
        exact harmful (Or.inr (Or.inl ⟨three, by omega⟩))
      have enough : ¬ (left.length : Int) < ((payloadSize funArgs % 16777216 : Nat) : Int) := by omega
      have nothing : mid left intsize ((payloadSize funArgs % 16777216 : Nat) : Int) = [] := by
        rw [mid, if_neg (by omega), List.drop_eq_nil_of_le (by simp [three, intsize]), List.take_nil]
      by_cases zero : payloadSize funArgs % 16777216 = 0
      · right
        rw [zero] at header enough nothing
        simp only [next, if_neg positive, header, if_neg enough, nothing, load_short [] (by decide)]
        rfl
      · left
        simp only [next, if_neg positive, header, if_neg enough, nothing]
        rw [if_pos (by simp only [List.length_nil]; omega)]
    · have header := load_header funArgs left start (by omega) sendable.small
      have past : payloadSize funArgs ≤ left.length := by
        by_contra less
        exact harmful (Or.inr (Or.inr ⟨by omega, by omega⟩))
      have enough : ¬ (left.length : Int) < (payloadSize funArgs : Int) := by omega
      left
      simp only [next, if_neg positive, header, if_neg enough]
      rw [if_pos]
      rw [mid, if_neg (by omega)]
      simp only [List.length_take, List.length_drop, intsize]
      omega

theorem drain_frames (done : List Message) (left : List Byte) (rounds : Nat)
    (sendable : ∀ funArgs ∈ done, Sendable funArgs) :
    drain (done.length + rounds) (frames done ++ left) =
      (drain rounds left).map (fun result => (done ++ result.1, result.2)) := by
  induction done with
  | nil =>
    simp only [List.length_nil, Nat.zero_add, frames, List.flatMap_nil, List.nil_append]
    cases drain rounds left <;> rfl
  | cons funArgs done ih =>
    have good := sendable funArgs (by simp)
    have later := ih (fun other member => sendable other (by simp [member]))
    have head : next (frames (funArgs :: done) ++ left) = .received funArgs (frames done ++ left) := by
      simp only [frames, List.flatMap_cons, List.append_assoc]
      exact next_write funArgs _ good.clean good.small
    cases funArgs with
    | nil => exact absurd rfl good.some_arg
    | cons arg args =>
      rw [List.length_cons, show done.length + 1 + rounds = (done.length + rounds) + 1 by omega, drain]
      simp only [head, later]
      cases drain rounds left <;> rfl

theorem frames_length_ge (done : List Message) : done.length ≤ (frames done).length := by
  induction done with
  | nil => simp
  | cons funArgs done ih =>
    have size := write_length funArgs
    simp only [frames, List.flatMap_cons, List.length_append, List.length_cons] at ih ⊢
    omega

/-- There are rounds enough for all whole frames, and one more for what is left. -/
theorem drain_buffered (done : List Message) (left : List Byte) (sendable : ∀ funArgs ∈ done, Sendable funArgs) :
    ∃ rounds, drain ((frames done ++ left).length + 1) (frames done ++ left) =
      (drain (rounds + 1) left).map (fun result => (done ++ result.1, result.2)) := by
  have count := frames_length_ge done
  have enough : (frames done ++ left).length + 1 =
      done.length + ((frames done ++ left).length - done.length + 1) := by
    rw [List.length_append]
    omega
  refine ⟨(frames done ++ left).length - done.length, ?_⟩
  rw [← drain_frames done left _ sendable, ← enough]

theorem drain_safe (left : List Byte)
    (sendable : ∀ funArgs ∈ done ++ rest, Sendable funArgs) (part : Unfinished rest left)
    (safe : SafeCut rest left.length) :
    drain ((frames done ++ left).length + 1) (frames done ++ left) = .ok (done, left) := by
  obtain ⟨rounds, drained⟩ := drain_buffered done left fun funArgs member => sendable funArgs (by simp [member])
  rw [drained]
  cases rest with
  | nil =>
    cases part
    simp [drain, next, Except.map]
  | cons funArgs rest =>
    have waiting := next_harmless funArgs left (sendable funArgs (by simp)) part.1
      ((safeCut_within funArgs rest left part.2).mp safe)
    simp [drain, waiting, Except.map]

theorem drain_unsafe (left : List Byte)
    (sendable : ∀ funArgs ∈ done ++ rest, Sendable funArgs) (part : Unfinished rest left)
    (bad : ¬ SafeCut rest left.length) :
    ∃ crash, drain ((frames done ++ left).length + 1) (frames done ++ left) = .error crash := by
  obtain ⟨rounds, drained⟩ := drain_buffered done left fun funArgs member => sendable funArgs (by simp [member])
  rw [drained]
  cases rest with
  | nil => exact absurd trivial bad
  | cons funArgs rest =>
    have failing := next_harmful funArgs left (sendable funArgs (by simp)) part.1 part.2
      (fun harmless => bad ((safeCut_within funArgs rest left part.2).mpr harmless))
    rcases failing with fatal | overrun
    · exact ⟨.fatal, by simp [drain, fatal, Except.map]⟩
    · exact ⟨.overrun, by simp [drain, overrun, Except.map]⟩

theorem run_cons_ok (buf chunk left : QByteArray) (chunks : List QByteArray) (done rest : List Message)
    (first : onClientReadyRead buf chunk = .ok (done, left)) :
    (∃ last, run buf (chunk :: chunks) = .ok (done ++ rest, last)) ↔ ∃ last, run left chunks = .ok (rest, last) := by
  simp only [run, first]
  cases outcome : run left chunks with
  | error crash => simp [outcome, bind, Except.bind]
  | ok result =>
    rcases result with ⟨received, last⟩
    simp [outcome, bind, Except.bind]

theorem run_cons_error (buf chunk : QByteArray) (chunks : List QByteArray) (crash : Crash)
    (first : onClientReadyRead buf chunk = .error crash) : run buf (chunk :: chunks) = .error crash := by
  simp [run, first, bind, Except.bind]

theorem forall_cuts_cons (holds : Nat → Prop) (start : Nat) (chunk : QByteArray) (chunks : List QByteArray) :
    (∀ taken, taken <+: chunk :: chunks → taken ≠ [] → holds (start + taken.flatten.length)) ↔
      holds (start + chunk.length) ∧
        ∀ taken, taken <+: chunks → taken ≠ [] → holds (start + chunk.length + taken.flatten.length) := by
  have shift (taken : List QByteArray) :
      start + (chunk :: taken).flatten.length = start + chunk.length + taken.flatten.length := by
    rw [List.flatten_cons, List.length_append, Nat.add_assoc]
  refine ⟨?_, ?_⟩
  · intro cuts
    have first := cuts [chunk] (by simp) (by simp)
    refine ⟨by simpa using first, ?_⟩
    intro taken ahead _
    rw [← shift]
    exact cuts (chunk :: taken) (List.cons_prefix_cons.mpr ⟨rfl, ahead⟩) (by simp)
  · intro cuts taken ahead some_taken
    obtain ⟨first, later⟩ := cuts
    cases taken with
    | nil => exact absurd rfl some_taken
    | cons piece taken =>
      obtain ⟨rfl, inside⟩ := List.cons_prefix_cons.mp ahead
      rw [shift]
      by_cases empty : taken = []
      · simpa [empty] using first
      · exact later taken inside empty

theorem unfinished_frames (part : Unfinished messages (frames messages)) : messages = [] := by
  cases messages with
  | nil => rfl
  | cons funArgs messages =>
    have short := part.2
    simp only [frames, List.flatMap_cons, List.length_append] at short
    omega

theorem run_ok_iff (chunks : List QByteArray) (messages : List Message) (left : List Byte)
    (sendable : ∀ funArgs ∈ messages, Sendable funArgs) (part : Unfinished messages left)
    (stream : left ++ chunks.flatten = frames messages) :
    (∃ last, run left chunks = .ok (messages, last)) ↔
      ∀ taken, taken <+: chunks → taken ≠ [] → SafeCut messages (left.length + taken.flatten.length) := by
  induction chunks generalizing messages left with
  | nil =>
    have whole : left = frames messages := by simpa using stream
    obtain rfl := unfinished_frames messages (whole ▸ part)
    refine iff_of_true ⟨left, rfl⟩ ?_
    intro taken start some_taken
    exact absurd (List.prefix_nil.mp start) some_taken
  | cons chunk chunks ih =>
    have start : left ++ chunk <+: frames messages := by
      rw [← stream, List.flatten_cons, ← List.append_assoc]
      exact List.prefix_append _ _
    obtain ⟨done, rest, kept, rfl, split, keptPart, _⟩ := exists_unfinished messages (left ++ chunk) start
    have place (more : Nat) : SafeCut (done ++ rest) (left.length + chunk.length + more) ↔
        SafeCut rest (kept.length + more) := by
      rw [← List.length_append, split, List.length_append, Nat.add_assoc]
      exact safeCut_skip done rest _
    have future : kept ++ chunks.flatten = frames rest := by
      have both : frames done ++ (kept ++ chunks.flatten) = frames done ++ frames rest := by
        rw [← List.append_assoc, ← split, List.append_assoc, ← List.flatten_cons, stream]
        simp [frames]
      exact List.append_cancel_left both
    have later := ih rest kept (fun funArgs member => sendable funArgs (by simp [member])) keptPart future
    have here : SafeCut (done ++ rest) (left.length + chunk.length) ↔ SafeCut rest kept.length := place 0
    rw [forall_cuts_cons (SafeCut (done ++ rest)), here]
    by_cases safe : SafeCut rest kept.length
    · have first : onClientReadyRead left chunk = .ok (done, kept) := by
        rw [onClientReadyRead, split]
        exact drain_safe done rest kept sendable keptPart safe
      rw [run_cons_ok left chunk kept chunks done rest first, later, and_iff_right safe]
      simp only [place]
    · obtain ⟨crash, first⟩ := drain_unsafe done rest kept sendable keptPart safe
      rw [← split] at first
      refine iff_of_false ?_ fun cuts => safe cuts.1
      intro given
      obtain ⟨last, outcome⟩ := given
      rw [run_cons_error left chunk chunks crash first] at outcome
      cases outcome

/-- Over any division of the stream into pieces, the reader hands over exactly the
messages, in order and without failing, if and only if every piece ends harmlessly. -/
theorem run_delivers_iff (messages : List Message) (chunks : List QByteArray)
    (sendable : ∀ funArgs ∈ messages, Sendable funArgs) (stream : chunks.flatten = frames messages) :
    (∃ last, run [] chunks = .ok (messages, last)) ↔
      ∀ taken, taken <+: chunks → SafeCut messages taken.flatten.length := by
  have part : Unfinished messages [] := by
    cases messages with
    | nil => rfl
    | cons funArgs messages =>
      have size := write_length funArgs
      exact ⟨List.nil_prefix, by simp only [List.length_nil]; omega⟩
  rw [run_ok_iff chunks messages [] sendable part (by simpa using stream)]
  refine ⟨?_, ?_⟩
  · intro cuts taken ahead
    by_cases empty : taken = []
    · subst empty
      cases messages with
      | nil => trivial
      | cons funArgs messages =>
        exact (safeCut_within funArgs messages [] part.2).mpr (Or.inl rfl)
    · simpa using cuts taken ahead empty
  · intro cuts taken ahead _
    simpa using cuts taken ahead

/-- The message `ping`, as the `ssh` side sends it. -/
def ping : Message := [[112, 105, 110, 103]]

theorem ping_sendable : Sendable ping :=
  ⟨by decide, by unfold NulFree ping; decide, by decide⟩

/-- Delivered whole, the message arrives. -/
theorem run_delivers_ping : ∃ last, run [] [write ping] = .ok ([ping], last) := by
  apply (run_delivers_iff [ping] [write ping] (by simp [ping_sendable]) (by simp [frames])).mpr
  intro taken ahead
  rcases List.prefix_cons_iff.mp ahead with rfl | ⟨more, rfl, inside⟩
  · exact Or.inl rfl
  · rw [List.prefix_nil.mp inside]
    trivial

/-- Cut three bytes before its end, the same frame passes the length test of `next`, which
compares the buffer with the payload alone, and ends the program. -/
theorem run_ping_fatal :
    Sendable ping ∧ [(write ping).take 15, (write ping).drop 15].flatten = frames [ping] ∧
      (write ping).take 15 ≠ [] ∧ (write ping).drop 15 ≠ [] ∧
      run [] [(write ping).take 15, (write ping).drop 15] = .error .fatal :=
  ⟨ping_sendable, by decide, by decide, by decide, by decide +kernel⟩

end Woterm.Ipc.Fragments
