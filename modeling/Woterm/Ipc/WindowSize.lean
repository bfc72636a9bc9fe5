import Mathlib.Data.Prod.Lex
import Mathlib.Logic.Relation
import Mathlib.Order.WellFounded
import Woterm.Ipc.FunArg
import Woterm.Terminal.Data

/-!
How the terminal window and its `ssh` child agree on the size of the window. Sizes are sent by a call
that a resize defers, and in answer to `getwinsize`; `ssh` asks for the size on its own, and once for each
open terminal while it handles the event that a change of the size has raised. Messages travel in two
queues, and the two sides take their steps in any order.
-/

namespace Woterm.Ipc.WindowSize
open Woterm.Lib Woterm.Lib.Word32 Woterm.Qt Woterm.Qt.QString FunArg
open Woterm.Terminal.Data (atoi digitsValue)

/-- Columns and lines. -/
abbrev Size := Int32 × Int32

structure State where
  /-- The size of the terminal on the screen. -/
  size : Size
  /-- The deferred calls of `updateTermSize`. -/
  deferred : Nat := 0
  /-- Whether `m_ipc` is set, which `onNewConnection` does. -/
  connected : Bool := false
  /-- The counter of `echoPong`. -/
  count : Int32 := 0
  toSsh : List Message := []
  toGui : List Message := []
  /-- `win_width` and `win_height`. -/
  cached : Size := (80, 24)
  /-- `received_window_change_signal`. -/
  event : Bool := false
  /-- How often `queue_terminal_window_change_event` has been called. -/
  raised : Nat := 0
  /-- How many `setwinsize` messages have been received. -/
  consumed : Nat := 0

/-! ## The window -/

def setwinsize (size : Size) : Message :=
  [toUtf8 "setwinsize".toList, toUtf8 (number size.1), toUtf8 (number size.2)]

def pong (count : Int32) : Message := [toUtf8 "pong".toList, toUtf8 (number count)]

def write (state : State) (funArgs : Message) : State :=
  if state.connected then { state with toSsh := state.toSsh ++ [funArgs] } else state

def updateTermSize (state : State) : State := write state (setwinsize state.size)

def echoPong (state : State) : State := write { state with count := state.count + 1 } (pong state.count)

/-- The dispatch of `onClientReadyRead`, as far as it sends anything. -/
def onMessage (state : State) (funArgs : Message) : State :=
  if funArgs.head? = some (toUtf8 "ping".toList) then echoPong state
  else if funArgs.head? = some (toUtf8 "getwinsize".toList) then updateTermSize state
  else state

/-! ## The `ssh` process -/

def getwinsize : Message := [toUtf8 "getwinsize".toList]

/-- The size in a message, if it is a `setwinsize`. -/
def request (funArgv : Message) : Option Size :=
  if funArgv.head? = some (toUtf8 "setwinsize".toList) then
    some (Int32.ofInt (atoi (funArgv.getD 1 [])), Int32.ofInt (atoi (funArgv.getD 2 [])))
  else none

def myIpcCallBack (state : State) (funArgv : Message) : State :=
  match request funArgv with
  | none => state
  | some size =>
    let state := { state with consumed := state.consumed + 1 }
    if size ≠ state.cached then { state with cached := size, event := true, raised := state.raised + 1 } else state

/-- `client_check_window_change`: `channel_send_window_changes` asks once for each of its open terminals. -/
def checkWindowChange (state : State) (terminals : Nat) : State :=
  { state with event := false, toGui := state.toGui ++ List.replicate terminals getwinsize }

/-! ## Steps -/

/-- What happens from outside: the user resizes the window, the connection is made, `ssh` sends a message of its
own (a question for the size, or any other), or it comes back from a suspension. -/
inductive Input : State → State → Prop where
  | resize (state : State) (size : Size) : Input state { state with size, deferred := state.deferred + 1 }
  | connect (state : State) : Input state { state with connected := true }
  | say (state : State) (funArgs : Message) : Input state { state with toGui := state.toGui ++ [funArgs] }
  | suspend (state : State) : Input state { state with event := true }

/-- What the two sides do with what there is. -/
inductive Exchange : State → State → Prop where
  | deferred (state : State) (pending : 0 < state.deferred) :
      Exchange state (updateTermSize { state with deferred := state.deferred - 1 })
  | answer (state : State) (funArgs : Message) (rest : List Message) (connected : state.connected = true)
      (queue : state.toGui = funArgs :: rest) : Exchange state (onMessage { state with toGui := rest } funArgs)
  | consume (state : State) (funArgv : Message) (rest : List Message) (queue : state.toSsh = funArgv :: rest) :
      Exchange state (myIpcCallBack { state with toSsh := rest } funArgv)
  | check (state : State) (terminals : Nat) (event : state.event = true) :
      Exchange state (checkWindowChange state terminals)

def Step (state next : State) : Prop := Input state next ∨ Exchange state next

/-- The states that a window of some size and its `ssh` process can get to. -/
def Reachable (size : Size) : State → Prop := Relation.ReflTransGen Step { size }

/-- Nothing is on its way. -/
structure Quiet (state : State) : Prop where
  toSsh : state.toSsh = []
  toGui : state.toGui = []
  deferred : state.deferred = 0

/-! ## Numbers -/

variable (state : State) (funArgv : Message) (n : Nat)

theorem digitsValue_toDigits : digitsValue ((Nat.toDigits 10 n).map Char.toUInt8) = n := by
  have values : ∀ (digits : List Char) (start : Nat), (∀ c ∈ digits, c.toUInt8.toNat = c.toNat) →
      (digits.map Char.toUInt8).foldl (fun value digit => 10 * value + (digit.toNat - 48)) start =
        Nat.ofDigitChars 10 digits start := by
    intro digits
    induction digits with
    | nil => exact fun _ _ => rfl
    | cons c digits ih =>
      intro start same
      rw [List.map_cons, List.foldl_cons, ih _ fun d member => same d (List.mem_cons_of_mem _ member),
        same c List.mem_cons_self]
      rfl
  rw [digitsValue, values _ 0 fun c member => (digit_bytes n c member).2.2, Nat.ofDigitChars_ten_toDigits]

theorem toDigits_decimal : ∀ c ∈ (Nat.toDigits 10 n).map Char.toUInt8, Terminal.Data.isDigit c = true := by
  intro byte member
  obtain ⟨c, inside, rfl⟩ := List.mem_map.mp member
  obtain ⟨lower, upper, _⟩ := digit_bytes n c inside
  exact (Terminal.Data.isDigit_iff _).mpr ⟨lower, upper⟩

theorem atoi_toDigits (small : n ≤ 2147483648) : atoi (toUtf8 (Nat.toDigits 10 n)) = wrap n := by
  rw [toUtf8_toDigits, Terminal.Data.atoi_digits _ (toDigits_decimal n), digitsValue_toDigits, min_eq_left (by omega)]

theorem atoi_minus (small : n ≤ 2147483648) : atoi (toUtf8 ('-' :: Nat.toDigits 10 n)) = wrap (-n) := by
  have minus : toUtf8 ('-' :: Nat.toDigits 10 n) = 45 :: (Nat.toDigits 10 n).map Char.toUInt8 := by
    rw [← toUtf8_toDigits]
    rfl
  have body : (45 :: (Nat.toDigits 10 n).map Char.toUInt8).dropWhile
      (fun byte => decide (byte = 32) || (decide (9 ≤ byte) && decide (byte ≤ 13))) =
      45 :: (Nat.toDigits 10 n).map Char.toUInt8 := List.dropWhile_cons_of_neg (by decide)
  have signed : (45 : UInt8) = Terminal.Data.byte '-' := rfl
  rw [minus]
  simp only [atoi, body, List.head?_cons, ← signed, true_or, if_true, List.drop_succ_cons, List.drop_zero,
    List.takeWhile_eq_self_iff.mpr (toDigits_decimal n), digitsValue_toDigits]
  rw [max_eq_left (by omega)]

theorem atoi_number (n : Int32) : Int32.ofInt (atoi (toUtf8 (number n))) = n := by
  have lower := n.le_toInt
  have upper := n.toInt_lt
  have read : atoi (toUtf8 (number n)) = n.toInt := by
    unfold number
    split
    · rw [atoi_minus _ (by omega), wrap]
      omega
    · rw [atoi_toDigits _ (by omega), wrap]
      omega
  rw [read, Int32.ofInt_toInt]

theorem request_setwinsize (size : Size) : request (setwinsize size) = some size := by
  have head : (setwinsize size).head? = some (toUtf8 "setwinsize".toList) := rfl
  rw [request, if_pos head]
  exact congrArg some (Prod.ext (atoi_number size.1) (atoi_number size.2))

theorem request_pong (count : Int32) : request (pong count) = none := by
  apply if_neg
  change ¬ some (toUtf8 "pong".toList) = some (toUtf8 "setwinsize".toList)
  decide

/-! ## Agreement -/

/-- The sizes on their way to `ssh`. -/
def underway (state : State) : List Size := state.toSsh.filterMap request

/-- The size that `ssh` will have once it has read everything that is on its way. -/
def latest (state : State) : Size := (underway state).getLast?.getD state.cached

/-- A size that `ssh` does not know yet will still be sent, or none has been sent so far. -/
structure Tracked (state : State) : Prop where
  silent : state.connected = false → state.toSsh = [] ∧ state.consumed = 0
  latest : 0 < state.deferred ∨ (underway state = [] ∧ state.consumed = 0) ∨ latest state = state.size

theorem sizes_setwinsize (queue : List Message) (size : Size) :
    (queue ++ [setwinsize size]).filterMap request = queue.filterMap request ++ [size] := by
  rw [List.filterMap_append, List.filterMap_cons_some (request_setwinsize size), List.filterMap_nil]

theorem sizes_pong (queue : List Message) (count : Int32) :
    (queue ++ [pong count]).filterMap request = queue.filterMap request := by
  rw [List.filterMap_append, List.filterMap_cons_none (request_pong count), List.filterMap_nil, List.append_nil]

theorem updateTermSize_connected (connected : state.connected = true) :
    updateTermSize state = { state with toSsh := state.toSsh ++ [setwinsize state.size] } := if_pos connected

theorem echoPong_connected (connected : state.connected = true) :
    echoPong state = { state with count := state.count + 1, toSsh := state.toSsh ++ [pong state.count] } :=
  if_pos connected

theorem tracked_updateTermSize (connected : state.connected = true) : Tracked (updateTermSize state) := by
  rw [updateTermSize_connected state connected]
  refine ⟨?_, .inr (.inr ?_)⟩
  · intro other
    exact absurd (connected.symm.trans other) (by decide)
  · rw [latest, underway, sizes_setwinsize, List.getLast?_concat]
    rfl

theorem tracked_echoPong (connected : state.connected = true) (tracked : Tracked state) : Tracked (echoPong state) := by
  rw [echoPong_connected state connected]
  refine ⟨?_, ?_⟩
  · intro other
    exact absurd (connected.symm.trans other) (by decide)
  · rw [latest, underway, sizes_pong]
    exact tracked.latest

theorem myIpcCallBack_some (size : Size) (found : request funArgv = some size) :
    myIpcCallBack state funArgv =
      { state with
        consumed := state.consumed + 1
        cached := size
        event := state.event || decide (size ≠ state.cached)
        raised := state.raised + if size ≠ state.cached then 1 else 0 } := by
  unfold myIpcCallBack
  rw [found]
  dsimp only
  by_cases same : size = state.cached
  · simp [same]
  · simp [same]

theorem myIpcCallBack_none (other : request funArgv = none) : myIpcCallBack state funArgv = state := by
  unfold myIpcCallBack
  rw [other]

theorem tracked_consume (rest : List Message) (queue : state.toSsh = funArgv :: rest) (tracked : Tracked state) :
    Tracked (myIpcCallBack { state with toSsh := rest } funArgv) := by
  have connected : state.connected ≠ false := by
    intro other
    rw [(tracked.silent other).1] at queue
    cases queue
  have kept := tracked.latest
  rw [latest, underway, queue] at kept
  cases found : request funArgv with
  | none =>
    rw [List.filterMap_cons_none found] at kept
    rw [myIpcCallBack_none _ _ found]
    exact ⟨fun other => absurd other connected, kept⟩
  | some size =>
    rw [List.filterMap_cons_some found, List.getLast?_cons] at kept
    rw [myIpcCallBack_some _ _ _ found]
    refine ⟨fun other => absurd other connected, ?_⟩
    rcases kept with pending | ⟨nothing, -⟩ | known
    · exact .inl pending
    · cases nothing
    · exact .inr (.inr known)

theorem tracked_step (state next : State) (step : Step state next) (tracked : Tracked state) : Tracked next := by
  rcases step with input | exchange
  · cases input with
    | resize size => exact ⟨tracked.silent, .inl (Nat.succ_pos _)⟩
    | connect => exact ⟨nofun, tracked.latest⟩
    | say funArgs => exact ⟨tracked.silent, tracked.latest⟩
    | suspend => exact ⟨tracked.silent, tracked.latest⟩
  · cases exchange with
    | deferred pending =>
      by_cases connected : state.connected = true
      · exact tracked_updateTermSize _ connected
      · -- the call has no effect, but then nothing has been sent at all
        have dropped : updateTermSize { state with deferred := state.deferred - 1 } =
            { state with deferred := state.deferred - 1 } := if_neg connected
        obtain ⟨empty, none⟩ := tracked.silent (eq_false_of_ne_true connected)
        rw [dropped]
        refine ⟨tracked.silent, .inr (.inl ⟨?_, none⟩)⟩
        rw [underway, empty]
        rfl
    | answer funArgs rest connected queue =>
      have kept : Tracked { state with toGui := rest } := ⟨tracked.silent, tracked.latest⟩
      unfold onMessage
      split_ifs
      · exact tracked_echoPong _ connected kept
      · exact tracked_updateTermSize _ connected
      · exact kept
    | consume funArgv rest queue => exact tracked_consume state funArgv rest queue tracked
    | check terminals event => exact ⟨tracked.silent, tracked.latest⟩

theorem tracked_reachable (size : Size) (state : State) (reachable : Reachable size state) : Tracked state := by
  induction reachable with
  | refl => exact ⟨fun _ => ⟨rfl, rfl⟩, .inr (.inl ⟨rfl, rfl⟩)⟩
  | tail _ step ih => exact tracked_step _ _ step ih

/-! ## No endless exchange -/

/-- How often the size changes along a list of sizes. -/
def changes : Size → List Size → Nat
  | _, [] => 0
  | current, next :: later => (if next = current then 0 else 1) + changes next later

theorem changes_again (current size : Size) (sizes : List Size) :
    changes current (sizes ++ [size] ++ [size]) = changes current (sizes ++ [size]) := by
  induction sizes generalizing current with
  | nil => simp [changes]
  | cons next sizes ih =>
    simp only [List.cons_append, changes] at ih ⊢
    rw [ih]

/-- What is still to be done: the changes that `ssh` has ahead of it, as long as the window keeps its size,
then the event, then everything that waits. -/
def rank (state : State) : ℕ ×ₗ ℕ ×ₗ ℕ :=
  toLex (changes state.cached (underway state ++ [state.size]),
    toLex (if state.event then 1 else 0, 2 * state.deferred + 2 * state.toGui.length + state.toSsh.length))

theorem rank_lt (state next : State) (same : changes next.cached (underway next ++ [next.size]) =
      changes state.cached (underway state ++ [state.size])) (event : next.event = state.event)
    (less : 2 * next.deferred + 2 * next.toGui.length + next.toSsh.length <
      2 * state.deferred + 2 * state.toGui.length + state.toSsh.length) : rank next < rank state := by
  rw [rank, rank, Prod.Lex.toLex_lt_toLex, Prod.Lex.toLex_lt_toLex]
  exact .inr ⟨same, .inr ⟨by rw [event], less⟩⟩

theorem rank_updateTermSize (state before : State) (cached : state.cached = before.cached)
    (queue : state.toSsh = before.toSsh) (size : state.size = before.size) (event : state.event = before.event)
    (less : 2 * state.deferred + 2 * state.toGui.length + 2 ≤ 2 * before.deferred + 2 * before.toGui.length) :
    rank (updateTermSize state) < rank before := by
  have same : underway state = underway before := by rw [underway, queue, underway]
  unfold updateTermSize write
  split
  · apply rank_lt
    · rw [underway, sizes_setwinsize, ← underway, same, cached, size, changes_again]
    · exact event
    · dsimp only
      rw [List.length_append, queue, List.length_singleton]
      omega
  · exact rank_lt _ _ (by rw [same, cached, size]) event (by rw [queue]; omega)

theorem rank_onMessage (funArgs : Message) (rest : List Message) (connected : state.connected = true)
    (queue : state.toGui = funArgs :: rest) : rank (onMessage { state with toGui := rest } funArgs) < rank state := by
  have length : state.toGui.length = rest.length + 1 := by rw [queue, List.length_cons]
  unfold onMessage
  split_ifs
  · rw [echoPong_connected { state with toGui := rest } connected]
    apply rank_lt
    · rw [underway, sizes_pong, underway]
    · rfl
    · dsimp only
      rw [List.length_append, List.length_singleton]
      omega
  · exact rank_updateTermSize _ state rfl rfl rfl rfl (by dsimp only; omega)
  · apply rank_lt
    · rfl
    · rfl
    · dsimp only
      omega

theorem rank_myIpcCallBack (rest : List Message) (queue : state.toSsh = funArgv :: rest) :
    rank (myIpcCallBack { state with toSsh := rest } funArgv) < rank state := by
  have length : state.toSsh.length = rest.length + 1 := by rw [queue, List.length_cons]
  cases found : request funArgv with
  | none =>
    have same : underway { state with toSsh := rest } = underway state := by
      rw [underway, underway, queue, List.filterMap_cons_none found]
    rw [myIpcCallBack_none _ _ found]
    apply rank_lt
    · rw [same]
    · rfl
    · dsimp only
      omega
  | some size =>
    have ahead : underway state = size :: underway { state with toSsh := rest } := by
      rw [underway, queue, List.filterMap_cons_some found]
      rfl
    rw [myIpcCallBack_some _ _ _ found]
    by_cases same : size = state.cached
    · apply rank_lt
      · rw [ahead, List.cons_append, changes, if_pos same, Nat.zero_add]
        rfl
      · simp [same]
      · dsimp only
        omega
    · -- a new size raises the event, but it is one change less
      rw [rank, rank, Prod.Lex.toLex_lt_toLex, ahead, List.cons_append]
      refine .inl ?_
      dsimp only
      rw [changes, if_neg same]
      exact Nat.lt_add_of_pos_left Nat.one_pos

theorem exchange_rank (state next : State) (exchange : Exchange state next) : rank next < rank state := by
  cases exchange with
  | deferred pending => exact rank_updateTermSize _ state rfl rfl rfl rfl (by dsimp only; omega)
  | answer funArgs rest connected queue => exact rank_onMessage state funArgs rest connected queue
  | consume funArgv rest queue => exact rank_myIpcCallBack state funArgv rest queue
  | check terminals event =>
    -- the questions count for nothing against the event that is taken back
    rw [rank, rank, Prod.Lex.toLex_lt_toLex, Prod.Lex.toLex_lt_toLex]
    refine .inr ⟨rfl, .inl ?_⟩
    simp [checkWindowChange, event]

/-- Window and `ssh` agree on the size whenever nothing is on its way and a size has been received; a received
size raises an event exactly when it is a new one; and left to themselves the two sides come to rest, whatever
the events make `ssh` ask. -/
theorem window_size_agreement :
    (∀ size state, Reachable size state → Quiet state → 0 < state.consumed → state.cached = state.size) ∧
    (∀ state funArgv size, request funArgv = some size →
      (myIpcCallBack state funArgv).cached = size ∧
      (myIpcCallBack state funArgv).raised = state.raised + if size ≠ state.cached then 1 else 0) ∧
    WellFounded fun next state => Exchange state next := by
  refine ⟨?_, ?_, ?_⟩
  · intro size state reachable quiet some_size
    have tracked := tracked_reachable size state reachable
    rcases tracked.latest with pending | ⟨-, none⟩ | known
    · rw [quiet.deferred] at pending
      cases pending
    · rw [none] at some_size
      cases some_size
    · rw [latest, underway, quiet.toSsh] at known
      exact known
  · intro state funArgv size found
    rw [myIpcCallBack_some _ _ _ found]
    exact ⟨rfl, rfl⟩
  · exact Subrelation.wf (fun {next state} exchange => exchange_rank state next exchange)
      (InvImage.wf rank wellFounded_lt)

/-- A window of another size than `ssh` starts with, and its answer to the first question. -/
theorem window_size_agreement_first : ∃ state, Reachable (100, 30) state ∧ Quiet state ∧ state.cached = (100, 30) := by
  let asked : State := { size := (100, 30), connected := true, toGui := [getwinsize] }
  let answered : State := { size := (100, 30), connected := true, toSsh := [setwinsize (100, 30)] }
  have connect : Step { size := (100, 30) } { size := (100, 30), connected := true } := .inl (.connect _)
  have ask : Step { size := (100, 30), connected := true } asked := .inl (.say _ getwinsize)
  have answer : Step asked answered := .inr (.answer asked getwinsize [] rfl rfl)
  have consume : Step answered (myIpcCallBack { answered with toSsh := [] } (setwinsize (100, 30))) :=
    .inr (.consume answered (setwinsize (100, 30)) [] rfl)
  have reachable : Reachable (100, 30) (myIpcCallBack { answered with toSsh := [] } (setwinsize (100, 30))) :=
    .tail (.tail (.tail (.single connect) ask) answer) consume
  have received := myIpcCallBack_some { answered with toSsh := [] } _ _ (request_setwinsize (100, 30))
  have quiet : Quiet (myIpcCallBack { answered with toSsh := [] } (setwinsize (100, 30))) := by
    rw [received]
    exact ⟨rfl, rfl, rfl⟩
  have agreed := window_size_agreement.1 (100, 30) _ reachable quiet (by rw [received]; exact Nat.one_pos)
  refine ⟨_, reachable, quiet, agreed.trans ?_⟩
  rw [received]

end Woterm.Ipc.WindowSize
