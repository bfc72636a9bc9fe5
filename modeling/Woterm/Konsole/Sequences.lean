import Mathlib.Data.Nat.Digits.Lemmas
import Woterm.Konsole.Session

/-!
How control sequences with numbers are read, and one that takes a terminal out of its arrays.
-/

namespace Woterm.Konsole.Tokenizer
open Woterm.Konsole.History

/-! ## Inside of a control sequence -/

/-- A control sequence is read, with a question mark behind the bracket or none, and there is no blank before the
last character. -/
structure Inside (t : Tokenizer) (mark : Bool) : Prop where
  bracket : t.tok 1 = '['.toNat
  first : 3 ≤ t.tokenBufferPos → t.tok 2 ≠ '!'.toNat ∧ t.tok 2 ≠ '>'.toNat ∧ (t.tok 2 = '?'.toNat ↔ mark = true)
  second : 4 ≤ t.tokenBufferPos → t.tok 3 ≠ ' '.toNat

theorem Inside.not_Xpe {t : Tokenizer} {mark : Bool} (inside : t.Inside mark) : ¬t.Xpe := by
  rintro ⟨_, text⟩
  rw [inside.bracket] at text
  exact absurd text (by decide)

theorem Inside.endsWith {t : Tokenizer} {mark : Bool} (inside : t.Inside mark) (long : 3 ≤ t.tokenBufferPos)
    (final : Bool) : t.endsWith final ↔ mark = false ∧ final = true := by
  obtain ⟨other, greater, same⟩ := inside.first long
  constructor
  · rintro ⟨_, question, _, _, ends⟩
    exact ⟨Bool.eq_false_iff.mpr fun marked => question (same.mpr marked), ends⟩
  · rintro ⟨unmarked, ends⟩
    exact ⟨long, fun question => Bool.eq_false_iff.mp unmarked (same.mp question), other, greater, ends⟩

/-- A character that does not make the sequence another one. -/
def Plain (cc : WChar) : Prop :=
  32 ≤ cc ∧ cc ≠ 127 ∧ cc ≠ '?'.toNat ∧ cc ≠ '!'.toNat ∧ cc ≠ '>'.toNat ∧ cc ≠ ' '.toNat

instance (cc : WChar) : Decidable (Plain cc) := inferInstanceAs (Decidable (_ ∧ _))

/-- A control sequence is read, up to some number. -/
structure Reading (t : Tokenizer) (mark : Bool) (args : List Nat) : Prop where
  valid : t.Valid
  inside : t.Inside mark
  position : 2 + mark.toNat ≤ t.tokenBufferPos
  count : args.length = t.argc + 1
  args : t.argv.take args.length = args

theorem tok_added (t : Tokenizer) (valid : t.Valid) (cc : WChar) (i position : Nat) :
    tok { t with tokenBuffer := t.tokenBuffer.set t.tokenBufferPos cc, tokenBufferPos := position } i =
      if i = t.tokenBufferPos then cc else t.tok i := by
  have inside : t.tokenBufferPos < t.tokenBuffer.length := by
    rw [valid.buffer]
    exact valid.position
  simp only [tok, List.getD_eq_getElem?_getD]
  split
  next here => rw [here, List.getElem?_set_self inside, Option.getD_some]
  next elsewhere => rw [List.getElem?_set_ne (Ne.symm elsewhere)]

theorem Reading.add {t : Tokenizer} {mark : Bool} {args : List Nat} (reading : Reading t mark args) {cc : WChar}
    (plain : Plain cc) :
    ∃ u, t.addToCurrentToken cc = some u ∧ Reading u mark args ∧ 3 + mark.toNat ≤ u.tokenBufferPos := by
  obtain ⟨valid, inside, position, count, same⟩ := reading
  obtain ⟨u, added, still⟩ := valid.addToCurrentToken cc
  have room : t.tokenBufferPos < t.tokenBuffer.length := by
    rw [valid.buffer]
    exact valid.position
  have shape : u = { t with
      tokenBuffer := t.tokenBuffer.set t.tokenBufferPos cc
      tokenBufferPos := min (t.tokenBufferPos + 1) (MAX_TOKEN_LENGTH - 1) } := by
    have found := congrArg (Option.bind · fun tokenBuffer => some { t with
      tokenBuffer, tokenBufferPos := min (t.tokenBufferPos + 1) (MAX_TOKEN_LENGTH - 1) }) (store_eq room cc)
    exact Option.some.inj (added.symm.trans found)
  have small : mark.toNat ≤ 1 := Bool.toNat_le mark
  have longer : 3 + mark.toNat ≤ min (t.tokenBufferPos + 1) (MAX_TOKEN_LENGTH - 1) := by
    simp only [MAX_TOKEN_LENGTH]
    omega
  refine ⟨u, added, ⟨still, ?_, ?_, ?_, ?_⟩, ?_⟩
  · obtain ⟨bracket, first, second⟩ := inside
    obtain ⟨_, _, question, plain⟩ := plain
    rw [shape]
    refine ⟨?_, fun long => ?_, fun long => ?_⟩
    · rw [tok_added t valid, if_neg (by omega)]
      exact bracket
    · rw [tok_added t valid]
      split
      next here =>
        have unmarked : mark ≠ true := by
          rintro rfl
          exact absurd position (by rw [← here]; decide)
        tauto
      next => exact first (by omega)
    · rw [tok_added t valid]
      split
      · tauto
      next =>
        refine second ?_
        change 4 ≤ min (t.tokenBufferPos + 1) (MAX_TOKEN_LENGTH - 1) at long
        omega
  · rw [shape]
    exact Nat.le_trans (by omega) longer
  · rw [shape]
    exact count
  · rw [shape]
    exact same
  · rw [shape]
    exact longer

end Woterm.Konsole.Tokenizer

namespace Woterm.Konsole.Emulation
open Woterm.Konsole.History Woterm.Konsole.Screen

theorem scanAnsi_inside (e : Emulation) {mark : Bool} (inside : e.tokenizer.Inside mark)
    (long : 3 + mark.toNat ≤ e.tokenizer.tokenBufferPos) (cc : WChar) {a₀ a₁ a₂ : Nat}
    (read₀ : e.tokenizer.argv[0]? = some a₀) (read₁ : e.tokenizer.argv[1]? = some a₁)
    (read₂ : e.tokenizer.argv[2]? = some a₂) :
    e.scanAnsi cc =
      if mark = false ∧ isCPN cc = true then e.finish (.csiPn (low cc)) a₀ a₁
      else if mark = false ∧ cc = 't'.toNat then e.finish (.csiPs (low cc) (a₀ % 0x10000)) a₁ a₂
      else if isDIG cc then e.onTokenizer (Tokenizer.addDigit (cc - 0x30))
      else if cc = ';'.toNat then e.onTokenizer Tokenizer.addArgument
      else (e.dispatch cc MAXARGS 0).bind resetTokenizer := by
  have three : 3 ≤ e.tokenizer.tokenBufferPos := by omega
  obtain ⟨other, greater, question⟩ := inside.first three
  have second := inside.second
  have text := inside.not_Xpe
  have ended : ¬e.tokenizer.Xte cc := fun ended => text ended.1
  have group : isSCS (e.tokenizer.tok 1) = false := by
    rw [inside.bracket]
    decide
  have hash : e.tokenizer.tok 1 ≠ '#'.toNat := by
    rw [inside.bracket]
    decide
  have short : ¬(e.tokenizer.tokenBufferPos = 3 ∧
      (e.tokenizer.tok 2 = '?'.toNat ∨ e.tokenizer.tok 2 = '>'.toNat ∨ e.tokenizer.tok 2 = '!'.toNat)) := by
    rintro ⟨exact, marked | marked | marked⟩
    · rw [question.mp marked, exact] at long
      exact absurd long (by decide)
    · exact greater marked
    · exact other marked
  unfold scanAnsi
  dsimp only
  rw [read₀, read₁, read₂, if_neg (by omega), if_neg (by omega), if_neg (by omega), if_neg ended, if_neg text,
    if_neg short, if_neg (by omega), if_neg (by omega), if_neg (by simp [group]), if_neg (by tauto)]
  refine if_congr (inside.endsWith three _) rfl ?_
  rw [if_neg (fun blank => second (by omega) blank.2), if_neg (fun blank => second (by omega) blank.2.2)]
  refine if_congr ((inside.endsWith three _).trans (by simp)) rfl ?_
  rw [if_neg (by tauto)]
  refine if_congr (and_iff_right three) rfl (if_congr (and_iff_right three) rfl rfl)

/-! ## Numbers -/

theorem receive_cons (e : Emulation) (cc : WChar) (text : List WChar) :
    e.receive (cc :: text) = (e.receiveChar cc).bind fun e => e.receive text :=
  rfl

theorem receive_append (e : Emulation) (first second : List WChar) :
    e.receive (first ++ second) = (e.receive first).bind fun e => e.receive second :=
  List.foldlM_append

theorem receiveChar_printable {e : Emulation} (ansi : e.getMode .ansi = true) {cc : WChar} (printable : 32 ≤ cc)
    (delete : cc ≠ 127) {u : Tokenizer} (added : e.tokenizer.addToCurrentToken cc = some u) :
    e.receiveChar cc = scanAnsi cc (e.withTokenizer u) := by
  have text : ¬(cc < 32 ∧ ¬e.tokenizer.Xte cc) := fun control => absurd control.1 (Nat.not_lt.mpr printable)
  rw [receiveChar, if_neg delete, if_neg text, scan, onTokenizer, added]
  exact if_pos ansi

theorem receiveChar_reading {e : Emulation} (ansi : e.getMode .ansi = true) {mark : Bool} {args : List Nat}
    (reading : e.tokenizer.Reading mark args) {cc : WChar} (plain : Tokenizer.Plain cc) :
    ∃ u : Tokenizer, u.Reading mark args ∧ 3 + mark.toNat ≤ u.tokenBufferPos ∧
      e.receiveChar cc = scanAnsi cc (e.withTokenizer u) := by
  obtain ⟨u, added, still, long⟩ := reading.add plain
  obtain ⟨printable, delete, _⟩ := plain
  exact ⟨u, still, long, receiveChar_printable ansi printable delete added⟩

/-- What a digit makes of a number. -/
def withDigit (value digit : Nat) : Nat := if value < MAX_ARGUMENT then 10 * value + digit else value

theorem digit_class : ∀ d < 10, Tokenizer.Plain (0x30 + d) ∧ isCPN (0x30 + d) = false ∧ 0x30 + d ≠ 't'.toNat ∧
    isDIG (0x30 + d) = true := by
  decide

end Woterm.Konsole.Emulation

namespace Woterm.Konsole.Tokenizer
open Woterm.Konsole.History Woterm.Konsole.Emulation

variable {t : Tokenizer} {mark : Bool}

theorem Reading.last {before : List Nat} {value : Nat} (reading : Reading t mark (before ++ [value])) :
    t.argv[t.argc]? = some value := by
  have count := reading.count
  have taken := congrArg (·[t.argc]?) reading.args
  rw [List.length_append, List.length_singleton] at count
  have here : before.length = t.argc := by omega
  simp only [List.length_append, List.length_singleton] at taken
  rw [List.getElem?_take_of_lt (by omega), ← here, List.getElem?_concat_length] at taken
  rw [← here]
  exact taken

theorem Reading.argument {args : List Nat} (reading : Reading t mark args) (i : Nat) {value : Nat}
    (here : args[i]? = some value) : t.argv[i]? = some value := by
  have inside : i < args.length := (List.getElem?_eq_some_iff.mp here).1
  have taken := congrArg (·[i]?) reading.args
  rwa [List.getElem?_take_of_lt inside, here] at taken

theorem Reading.addDigit {before : List Nat} {value : Nat} (reading : Reading t mark (before ++ [value]))
    (digit : Nat) : ∃ u, t.addDigit digit = some u ∧ Reading u mark (before ++ [withDigit value digit]) := by
  have count := reading.count
  have same := reading.args
  rw [List.length_append, List.length_singleton] at count same
  have room : t.argc < t.argv.length := by
    rw [reading.valid.arguments]
    exact reading.valid.count
  obtain ⟨u, added, valid⟩ := reading.valid.addDigit digit
  refine ⟨u, added, ?_⟩
  unfold Tokenizer.addDigit at added
  rw [reading.last, Option.bind_eq_bind, Option.bind_some] at added
  unfold withDigit
  split at added
  next small =>
    rw [if_pos small]
    rw [store_eq room] at added
    obtain rfl := Option.some.inj added
    refine ⟨valid, ⟨reading.inside.bracket, reading.inside.first, reading.inside.second⟩, reading.position, ?_, ?_⟩
    · rw [List.length_append, List.length_singleton]
      exact count
    · rw [List.length_append, List.length_singleton, List.take_set, same, show t.argc = before.length by omega]
      simp
  next large =>
    rw [if_neg large]
    obtain rfl := Option.some.inj added
    exact reading

theorem Reading.addArgument {args : List Nat} (reading : Reading t mark args) (few : args.length < MAXARGS) :
    ∃ u, t.addArgument = some u ∧ Reading u mark (args ++ [0]) := by
  have count := reading.count
  have next : min (t.argc + 1) (MAXARGS - 1) = args.length := by
    simp only [MAXARGS] at few ⊢
    omega
  have room : args.length < t.argv.length := by
    rw [reading.valid.arguments]
    exact few
  obtain ⟨u, added, valid⟩ := reading.valid.addArgument
  refine ⟨u, added, ?_⟩
  unfold Tokenizer.addArgument at added
  simp only [next, store_eq room] at added
  obtain rfl := Option.some.inj added
  refine ⟨valid, ⟨reading.inside.bracket, reading.inside.first, reading.inside.second⟩, reading.position, ?_, ?_⟩
  · rw [List.length_append, List.length_singleton]
  · rw [List.length_append, List.length_singleton, List.take_set, List.take_succ_eq_append_getElem room, reading.args]
    simp

end Woterm.Konsole.Tokenizer

namespace Woterm.Konsole.Emulation
open Woterm.Konsole.History Woterm.Konsole.Screen Woterm.Konsole.Width

variable {e : Emulation} {t : Tokenizer}

theorem receive_digits (ansi : e.getMode .ansi = true) {mark : Bool} (before : List Nat) (value : Nat)
    (reading : e.tokenizer.Reading mark (before ++ [value])) (digits : List Nat) (small : ∀ d ∈ digits, d < 10) :
    ∃ u : Tokenizer, e.receive (digits.map (0x30 + ·)) = some (e.withTokenizer u) ∧
      u.Reading mark (before ++ [digits.foldl withDigit value]) := by
  induction digits generalizing e value with
  | nil => exact ⟨e.tokenizer, rfl, reading⟩
  | cons d digits ih =>
    obtain ⟨plain, final, size, digit⟩ := digit_class d (small d List.mem_cons_self)
    obtain ⟨u, still, long, received⟩ := receiveChar_reading ansi reading plain
    obtain ⟨a₀, read₀⟩ := still.valid.argument (show 0 < MAXARGS by decide)
    obtain ⟨a₁, read₁⟩ := still.valid.argument (show 1 < MAXARGS by decide)
    obtain ⟨a₂, read₂⟩ := still.valid.argument (show 2 < MAXARGS by decide)
    obtain ⟨v, added, again⟩ := still.addDigit d
    have scanned : e.receiveChar (0x30 + d) = some (e.withTokenizer v) := by
      rw [received, scanAnsi_inside (e.withTokenizer u) still.inside long _ read₀ read₁ read₂,
        if_neg (fun ends => Bool.eq_false_iff.mp final ends.2), if_neg (fun ends => size ends.2), if_pos digit,
        Nat.add_sub_cancel_left]
      exact congrArg (Option.bind · fun t => some (e.withTokenizer t)) added
    obtain ⟨w, rest, last⟩ := ih (e := (e.withTokenizer v)) ansi (withDigit value d) again
      fun d member => small d (List.mem_cons_of_mem _ member)
    refine ⟨w, ?_, last⟩
    rw [List.map_cons, receive_cons, scanned]
    exact rest

/-- Numbers in a control sequence, each by its digits. -/
def parameters : List (List Nat) → List WChar
  | [] => []
  | [digits] => digits.map (0x30 + ·)
  | digits :: rest => digits.map (0x30 + ·) ++ ';'.toNat :: parameters rest

/-- The number that is read. -/
def argument (digits : List Nat) : Nat := digits.foldl withDigit 0

theorem semicolon_class : Tokenizer.Plain ';'.toNat ∧ isCPN ';'.toNat = false ∧ ';'.toNat ≠ 't'.toNat ∧
    isDIG ';'.toNat = false := by
  decide

theorem receive_semicolon (ansi : e.getMode .ansi = true) {mark : Bool} {args : List Nat}
    (reading : e.tokenizer.Reading mark args) (few : args.length < MAXARGS) :
    ∃ u : Tokenizer, e.receiveChar ';'.toNat = some (e.withTokenizer u) ∧ u.Reading mark (args ++ [0]) := by
  obtain ⟨plain, final, size, digit⟩ := semicolon_class
  obtain ⟨u, still, long, received⟩ := receiveChar_reading ansi reading plain
  obtain ⟨a₀, read₀⟩ := still.valid.argument (show 0 < MAXARGS by decide)
  obtain ⟨a₁, read₁⟩ := still.valid.argument (show 1 < MAXARGS by decide)
  obtain ⟨a₂, read₂⟩ := still.valid.argument (show 2 < MAXARGS by decide)
  obtain ⟨v, added, again⟩ := still.addArgument few
  refine ⟨v, ?_, again⟩
  rw [received, scanAnsi_inside (e.withTokenizer u) still.inside long _ read₀ read₁ read₂,
    if_neg (fun ends => Bool.eq_false_iff.mp final ends.2), if_neg (fun ends => size ends.2),
    if_neg (Bool.eq_false_iff.mp digit), if_pos rfl]
  exact congrArg (Option.bind · fun t => some (e.withTokenizer t)) added

theorem receive_parameters (ansi : e.getMode .ansi = true) {mark : Bool} (before : List Nat) (digits : List Nat)
    (rest : List (List Nat)) (reading : e.tokenizer.Reading mark (before ++ [0]))
    (few : before.length + rest.length < MAXARGS) (small : ∀ digits' ∈ digits :: rest, ∀ d ∈ digits', d < 10) :
    ∃ u : Tokenizer, e.receive (parameters (digits :: rest)) = some (e.withTokenizer u) ∧
      u.Reading mark (before ++ (digits :: rest).map argument) := by
  induction rest generalizing e before digits with
  | nil => exact receive_digits ansi before 0 reading digits (small digits List.mem_cons_self)
  | cons second rest ih =>
    obtain ⟨u, first, still⟩ := receive_digits ansi before 0 reading digits (small digits List.mem_cons_self)
    have room : (before ++ [argument digits]).length < MAXARGS := by
      rw [List.length_append, List.length_singleton]
      rw [List.length_cons] at few
      omega
    obtain ⟨v, separated, again⟩ := receive_semicolon (e := (e.withTokenizer u)) ansi still room
    obtain ⟨w, others, last⟩ := ih (e := (e.withTokenizer v)) ansi (before ++ [argument digits]) second again
      (by
        rw [List.length_append, List.length_singleton]
        rw [List.length_cons] at few
        omega)
      fun digits' member => small digits' (List.mem_cons_of_mem _ member)
    refine ⟨w, ?_, ?_⟩
    · rw [parameters, receive_append, first, Option.bind_some, receive_cons, separated]
      · exact others
      · exact List.cons_ne_nil _ _
    · rw [List.append_assoc] at last
      exact last

/-- The characters of a control sequence in front of its numbers. -/
def csiStart (mark : Bool) : List WChar := ESC :: '['.toNat :: bif mark then ['?'.toNat] else []

def csi (mark : Bool) (params : List (List Nat)) (cc : WChar) : List WChar :=
  csiStart mark ++ (parameters params ++ [cc])

theorem receive_singleton (e : Emulation) (cc : WChar) : e.receive [cc] = e.receiveChar cc := by
  rw [receive_cons]
  cases e.receiveChar cc <;> rfl

/-- The tokenizer behind an escape character. -/
def escaped (t : Tokenizer) : Tokenizer :=
  { t.restarted with tokenBuffer := t.tokenBuffer.set 0 ESC, tokenBufferPos := 1 }

theorem receiveChar_escape (valid : e.tokenizer.Valid) (ansi : e.getMode .ansi = true) (idle : ¬e.tokenizer.Xpe) :
    e.receiveChar ESC = some (e.withTokenizer (escaped e.tokenizer)) := by
  have control : ESC < 32 ∧ ¬e.tokenizer.Xte ESC := ⟨by decide, fun ended => idle ended.1⟩
  have room : 0 < e.tokenizer.tokenBuffer.length := by
    rw [valid.buffer]
    decide
  have added : e.tokenizer.restarted.addToCurrentToken ESC = some (escaped e.tokenizer) :=
    congrArg (Option.bind · _) (Tokenizer.store_eq room ESC)
  have first : (escaped e.tokenizer).tok 0 = ESC := by simp [Tokenizer.tok, escaped, room]
  rw [receiveChar, if_neg (by decide), if_pos control, if_neg idle, if_pos rfl, resetTokenizer_eq valid]
  change (e.restarted.onTokenizer (Tokenizer.addToCurrentToken ESC)).bind _ = _
  rw [onTokenizer, show e.restarted.tokenizer = e.tokenizer.restarted from rfl, added]
  refine (if_pos ansi).trans ?_
  exact if_pos ⟨rfl, first⟩

/-- The tokenizer behind the start of a control sequence. -/
def opened (t : Tokenizer) : Tokenizer :=
  { t.restarted with tokenBuffer := (t.tokenBuffer.set 0 ESC).set 1 '['.toNat, tokenBufferPos := 2 }

theorem reading_opened (valid : t.Valid) : (opened t).Reading false [0] := by
  have still := valid.resetTokenizer.2
  have buffer := valid.buffer
  have arguments := valid.arguments
  refine ⟨⟨?_, show 2 < MAX_TOKEN_LENGTH by decide, still.arguments, still.count⟩, ⟨?_, ?_, ?_⟩, Nat.le_refl 2, rfl, ?_⟩
  · simp [opened, buffer]
  · simp [Tokenizer.tok, opened, buffer, MAX_TOKEN_LENGTH]
  · intro long
    exact absurd long (by simp [opened])
  · intro long
    exact absurd long (by simp [opened])
  · change ((t.argv.set 0 0).set 1 0).take 1 = [0]
    obtain ⟨a, argv, shape⟩ := List.exists_cons_of_length_pos (show 0 < t.argv.length by rw [arguments]; decide)
    rw [shape]
    rfl

/-- The tokenizer behind the start of a private sequence. -/
def marked (t : Tokenizer) : Tokenizer :=
  { opened t with tokenBuffer := (opened t).tokenBuffer.set 2 '?'.toNat, tokenBufferPos := 3 }

theorem tok_marked (valid : t.Valid) (i : Nat) : (marked t).tok i = if i = 2 then '?'.toNat else (opened t).tok i :=
  Tokenizer.tok_added (opened t) (reading_opened valid).valid '?'.toNat i 3

theorem reading_marked (valid : t.Valid) : (marked t).Reading true [0] := by
  obtain ⟨still, inside, _, count, same⟩ := reading_opened valid
  refine ⟨⟨?_, show 3 < MAX_TOKEN_LENGTH by decide, still.arguments, still.count⟩, ⟨?_, ?_, ?_⟩, Nat.le_refl 3, count,
    same⟩
  · rw [marked, List.length_set]
    exact still.buffer
  · rw [tok_marked valid, if_neg (by decide)]
    exact inside.bracket
  · intro _
    rw [tok_marked valid, if_pos rfl]
    decide
  · intro long
    exact absurd long (by simp [marked])

theorem scanAnsi_group (e : Emulation) (cc : WChar) (two : e.tokenizer.tokenBufferPos = 2)
    (group : isGRP (e.tokenizer.tok 1) = true) : e.scanAnsi cc = some e := by
  have short (p : Prop) : ¬(e.tokenizer.tokenBufferPos = 1 ∧ p) := fun one => by omega
  exact (if_neg (short _)).trans ((if_neg (short _)).trans (if_pos ⟨two, group⟩))

theorem scanAnsi_question (e : Emulation) (cc : WChar) (three : e.tokenizer.tokenBufferPos = 3)
    (text : ¬e.tokenizer.Xpe) (question : e.tokenizer.tok 2 = '?'.toNat) : e.scanAnsi cc = some e := by
  have short (n : Nat) (other : n ≠ 3) (p : Prop) : ¬(e.tokenizer.tokenBufferPos = n ∧ p) := fun same => by omega
  unfold scanAnsi
  dsimp only
  rw [if_neg (short 1 (by decide) _), if_neg (short 1 (by decide) _), if_neg (short 2 (by decide) _),
    if_neg fun ended => text ended.1, if_neg text, if_pos ⟨three, .inl question⟩]

theorem receive_bracket (valid : e.tokenizer.Valid) (ansi : e.getMode .ansi = true) (idle : ¬e.tokenizer.Xpe) :
    e.receive [ESC, '['.toNat] = some (e.withTokenizer (opened e.tokenizer)) := by
  have room : 1 < (escaped e.tokenizer).tokenBuffer.length := by
    rw [escaped, List.length_set, valid.buffer]
    decide
  have added : (escaped e.tokenizer).addToCurrentToken '['.toNat = some (opened e.tokenizer) :=
    congrArg (Option.bind · _) (Tokenizer.store_eq room '['.toNat)
  have group : isGRP ((opened e.tokenizer).tok 1) = true := by
    rw [(reading_opened valid).inside.bracket]
    decide
  rw [receive_cons, receiveChar_escape valid ansi idle, Option.bind_some, receive_singleton,
    receiveChar_printable (e := e.withTokenizer (escaped e.tokenizer)) ansi (by decide) (by decide) added]
  exact scanAnsi_group (e.withTokenizer (opened e.tokenizer)) _ rfl group

theorem receiveChar_question (valid : t.Valid) (ansi : e.getMode .ansi = true) (start : e.tokenizer = opened t) :
    e.receiveChar '?'.toNat = some (e.withTokenizer (marked t)) := by
  have room : 2 < (opened t).tokenBuffer.length := by
    rw [(reading_opened valid).valid.buffer]
    decide
  have added : (opened t).addToCurrentToken '?'.toNat = some (marked t) :=
    congrArg (Option.bind · _) (Tokenizer.store_eq room '?'.toNat)
  have question : (marked t).tok 2 = '?'.toNat := by rw [tok_marked valid, if_pos rfl]
  rw [← start] at added
  rw [receiveChar_printable ansi (by decide) (by decide) added]
  exact scanAnsi_question (e.withTokenizer (marked t)) _ rfl (reading_marked valid).inside.not_Xpe question

theorem receive_csiStart (valid : e.tokenizer.Valid) (ansi : e.getMode .ansi = true) (idle : ¬e.tokenizer.Xpe)
    (mark : Bool) : ∃ u : Tokenizer, e.receive (csiStart mark) = some (e.withTokenizer u) ∧ u.Reading mark [0] := by
  cases mark with
  | false => exact ⟨_, receive_bracket valid ansi idle, reading_opened valid⟩
  | true =>
    refine ⟨_, ?_, reading_marked valid⟩
    rw [show csiStart true = [ESC, '['.toNat] ++ ['?'.toNat] from rfl, receive_append, receive_bracket valid ansi idle,
      Option.bind_some, receive_singleton]
    exact receiveChar_question (e := e.withTokenizer (opened e.tokenizer)) valid ansi rfl

/-- A control sequence is read up to its last character. -/
theorem receive_csi (valid : e.tokenizer.Valid) (ansi : e.getMode .ansi = true) (idle : ¬e.tokenizer.Xpe) (mark : Bool)
    (digits : List Nat) (rest : List (List Nat)) (few : rest.length < MAXARGS)
    (small : ∀ digits' ∈ digits :: rest, ∀ d ∈ digits', d < 10) {cc : WChar} (plain : Tokenizer.Plain cc) :
    ∃ u : Tokenizer, u.Reading mark ((digits :: rest).map argument) ∧ 3 + mark.toNat ≤ u.tokenBufferPos ∧
      e.receive (csi mark (digits :: rest) cc) = scanAnsi cc (e.withTokenizer u) := by
  obtain ⟨s, started, start⟩ := receive_csiStart valid ansi idle mark
  obtain ⟨t, numbers, reading⟩ := receive_parameters (e := e.withTokenizer s) ansi [] digits rest start
    (by rw [List.length_nil, Nat.zero_add]; exact few) small
  obtain ⟨u, still, long, received⟩ := receiveChar_reading (e := e.withTokenizer t) ansi reading plain
  refine ⟨u, still, long, ?_⟩
  rw [csi, receive_append, started, Option.bind_some, receive_append, numbers, Option.bind_some, receive_singleton]
  exact received

/-! ## What the sequences do -/

/-- A terminal that waits for a code. -/
structure Ready (e : Emulation) : Prop where
  tokenizer : e.tokenizer.Valid
  ansi : e.getMode .ansi = true
  idle : ¬e.tokenizer.Xpe

theorem Ready.restarted (tokenizer : e.tokenizer.Valid) (ansi : e.getMode .ansi = true) : e.restarted.Ready :=
  ⟨tokenizer.resetTokenizer.2, ansi, fun text =>
    absurd text.1 (by simp [Emulation.restarted, withTokenizer, Tokenizer.restarted])⟩

theorem Ready.fresh (start : e.tokenizer = {}) (ansi : e.getMode .ansi = true) : e.Ready :=
  ⟨by rw [start]; exact Tokenizer.valid_default, ansi, by rw [start]; exact fun text => absurd text.1 (by decide)⟩

/-- A change of the current screen. -/
def mapCurrent (f : Screen → Screen) (e : Emulation) : Emulation :=
  if e.onAlternate then { e with screen1 := f e.screen1 } else { e with screen0 := f e.screen0 }

theorem onCurrent_some (f : Screen → Screen) (e : Emulation) :
    (e.onCurrent fun s => some (f s)) = some (e.mapCurrent f) := by
  unfold onCurrent mapCurrent
  split <;> rfl

theorem mapCurrent_same (f : Screen → Screen) (e : Emulation) :
    (e.mapCurrent f).tokenizer = e.tokenizer ∧ (e.mapCurrent f).currentModes = e.currentModes ∧
      (e.mapCurrent f).events = e.events ∧ (e.mapCurrent f).currentScreen = f e.currentScreen := by
  unfold mapCurrent currentScreen
  split <;> simp_all

/-- The code of a sequence that is none of the others. -/
def code (mark : Bool) (a : Char) (n : Nat) : Token := bif mark then .csiPr a n else .csiPs a n

theorem dispatch_code (e : Emulation) {mark : Bool} {cc : WChar} {fuel i arg : Nat} (inside : i ≤ e.tokenizer.argc)
    (number : e.tokenizer.argv[i]? = some arg) (question : e.tokenizer.tok 2 = '?'.toNat ↔ mark = true)
    (greater : e.tokenizer.tok 2 ≠ '>'.toNat) (rendition : cc ≠ 'm'.toNat) :
    e.dispatch cc (fuel + 1) i =
      (e.processToken (code mark (low cc) (arg % 0x10000)) 0 0).bind fun e => e.dispatch cc fuel (i + 1) := by
  rw [dispatch, if_pos inside, number, Option.bind_eq_bind, Option.bind_some]
  cases mark with
  | true => rw [if_pos (question.mpr rfl)]; rfl
  | false =>
    rw [if_neg (fun marked => Bool.noConfusion (question.mp marked)), if_neg greater,
      if_neg (fun colors => rendition colors.1), if_neg (fun colors => rendition colors.1)]
    rfl

theorem Ready.receive_single (ready : e.Ready) (mark : Bool) (digits : List Nat) (small : ∀ d ∈ digits, d < 10)
    (cc : WChar) (plain : Tokenizer.Plain cc)
    (other : isCPN cc = false ∧ cc ≠ 't'.toNat ∧ isDIG cc = false ∧ cc ≠ ';'.toNat ∧ cc ≠ 'm'.toNat)
    (does : Emulation → Emulation) (same : ∀ e, (does e).tokenizer = e.tokenizer)
    (run : ∀ e, processToken (code mark (low cc) (argument digits % 0x10000)) 0 0 e = some (does e)) :
    ∃ u : Tokenizer, u.Valid ∧ e.receive (csi mark [digits] cc) = some (does (e.withTokenizer u)).restarted := by
  obtain ⟨u, reading, long, received⟩ := receive_csi ready.tokenizer ready.ansi ready.idle mark digits [] (by decide)
    (by simpa using small) plain
  have valid := reading.valid
  obtain ⟨a₀, read₀⟩ := valid.argument (show 0 < MAXARGS by decide)
  obtain ⟨a₁, read₁⟩ := valid.argument (show 1 < MAXARGS by decide)
  obtain ⟨a₂, read₂⟩ := valid.argument (show 2 < MAXARGS by decide)
  obtain ⟨final, size, digit, semicolon, rendition⟩ := other
  have alone : u.argc = 0 := Nat.succ.inj reading.count.symm
  have number : u.argv[0]? = some (argument digits) := reading.argument 0 rfl
  obtain ⟨_, greater, question⟩ := reading.inside.first (by omega)
  have rest : (does (e.withTokenizer u)).dispatch cc 14 1 = some (does (e.withTokenizer u)) := by
    have ended : ¬1 ≤ (does (e.withTokenizer u)).tokenizer.argc := by
      rw [same]
      exact Nat.not_le.mpr (Nat.lt_succ_of_le (Nat.le_of_eq alone))
    exact if_neg ended
  have dispatched : (e.withTokenizer u).dispatch cc MAXARGS 0 = some (does (e.withTokenizer u)) := by
    rw [show MAXARGS = 14 + 1 from rfl,
      dispatch_code (e.withTokenizer u) (Nat.zero_le _) number question greater rendition, run, Option.bind_some]
    exact rest
  refine ⟨u, valid, ?_⟩
  rw [received, scanAnsi_inside (e.withTokenizer u) reading.inside long cc read₀ read₁ read₂,
    if_neg (fun ends => Bool.eq_false_iff.mp final ends.2), if_neg (fun ends => size ends.2),
    if_neg (Bool.eq_false_iff.mp digit), if_neg semicolon, dispatched, Option.bind_some]
  exact resetTokenizer_eq (by rw [same]; exact valid)

theorem Ready.receive_pair (ready : e.Ready) (first second : List Nat)
    (small : ∀ digits ∈ [first, second], ∀ d ∈ digits, d < 10) (cc : WChar) (plain : Tokenizer.Plain cc)
    (final : isCPN cc = true) :
    ∃ u : Tokenizer, u.Valid ∧ e.receive (csi false [first, second] cc) =
      (e.withTokenizer u).finish (.csiPn (low cc)) (argument first) (argument second) := by
  obtain ⟨u, reading, long, received⟩ := receive_csi ready.tokenizer ready.ansi ready.idle false first [second]
    (show 1 < MAXARGS by decide) small plain
  obtain ⟨a₂, read₂⟩ := reading.valid.argument (show 2 < MAXARGS by decide)
  refine ⟨u, reading.valid, ?_⟩
  rw [received, scanAnsi_inside (e.withTokenizer u) reading.inside long cc (reading.argument 0 rfl)
    (reading.argument 1 rfl) read₂, if_pos ⟨rfl, final⟩]

/-- The digits of a number. -/
def decimal (n : Nat) : List Nat := (Nat.digits 10 n).reverse

theorem decimal_lt (n : Nat) : ∀ d ∈ decimal n, d < 10 := fun _ member =>
  Nat.digits_lt_base (by decide) (List.mem_reverse.mp member)

theorem argument_decimal (n : Nat) (small : n < 10 * MAX_ARGUMENT) : argument (decimal n) = n := by
  induction n using Nat.strong_induction_on with
  | h n ih =>
    rcases Nat.eq_zero_or_pos n with rfl | positive
    · rfl
    · have fewer := ih (n / 10) (by omega) (by omega)
      rw [argument, decimal] at fewer ⊢
      rw [Nat.digits_def' (by decide) positive, List.reverse_cons, List.foldl_append, fewer, List.foldl_cons, List.foldl_nil,
        withDigit, if_pos (by omega)]
      omega

theorem setCursorYX_place (s : Screen) (row column : Nat) :
    (s.setCursorYX row column).cuY =
        min (s.lines - 1) (orOne row - 1 + if s.currentModes.origin then s.topMargin else 0) ∧
      (s.setCursorYX row column).cuX = min (s.columns - 1) (orOne column - 1) := by
  unfold setCursorYX setCursorY setCursorX orOne
  constructor
  · dsimp only
    split_ifs <;> omega
  · dsimp only
    split_ifs <;> omega

/-- A program that moves the cursor and asks for its position gets the place it asked for, or the last one that there
is. But with lines relative to the top margin, the answer is not relative to it. -/
theorem reported_position {e : Emulation} (ready : e.Ready) (row column : Nat)
    (small : row < 10 * MAX_ARGUMENT ∧ column < 10 * MAX_ARGUMENT) :
    ∃ f, e.receive (csi false [decimal row, decimal column] 'H'.toNat ++ csi false [[6]] 'n'.toNat) = some f ∧ f.Ready ∧
      f.events = e.events ++ [.sendData (
        let s := e.currentScreen
        let y := min (s.lines - 1) (orOne row - 1 + if s.currentModes.origin then s.topMargin else 0)
        let x := min (s.columns - 1) (orOne column - 1)
        s!"\x1b[{y + 1};{x + 1}R")] := by
  obtain ⟨u, valid, moved⟩ := ready.receive_pair (decimal row) (decimal column)
    (by simpa using ⟨decimal_lt row, decimal_lt column⟩) 'H'.toNat (by decide) (by decide)
  rw [argument_decimal row small.1, argument_decimal column small.2] at moved
  have processed : (e.withTokenizer u).processToken (.csiPn 'H') row column =
      some ((e.withTokenizer u).mapCurrent fun s => s.setCursorYX row column) := by
    change ((e.withTokenizer u).onCurrent fun s => some (s.setCursorYX row column)).bind some = _
    rw [onCurrent_some]
    rfl
  obtain ⟨tokenizer, modes, events, screen⟩ := mapCurrent_same (fun s => s.setCursorYX row column) (e.withTokenizer u)
  generalize (e.withTokenizer u).mapCurrent (fun s => s.setCursorYX row column) = f
    at processed tokenizer modes events screen
  have valid' : f.tokenizer.Valid := by
    rw [tokenizer]
    exact valid
  have ansi : f.getMode .ansi = true := by
    rw [getMode, modes]
    exact ready.ansi
  have first : e.receive (csi false [decimal row, decimal column] 'H'.toNat) = some f.restarted := by
    rw [moved, finish, show low 'H'.toNat = 'H' from rfl, processed]
    exact resetTokenizer_eq valid'
  obtain ⟨v, valid'', second⟩ := (Ready.restarted valid' ansi).receive_single false [6] (by decide) 'n'.toNat
    (by decide) (by decide) reportCursorPosition (fun _ => rfl) (fun _ => rfl)
  refine ⟨_, ?_, Ready.restarted (e := (f.restarted.withTokenizer v).reportCursorPosition) valid'' ansi, ?_⟩
  · rw [receive_append, first, Option.bind_some, second]
  · obtain ⟨y, x⟩ := setCursorYX_place (e.withTokenizer u).currentScreen row column
    change f.events ++ [.sendData s!"\x1b[{f.currentScreen.cuY + 1};{f.currentScreen.cuX + 1}R"] = _
    rw [events, screen, y, x]
    rfl

/-- A program finds out how large the terminal is. -/
theorem reported_size : ∃ e f : Emulation, e.Valid ∧ e.currentScreen.lines = 24 ∧ e.currentScreen.columns = 80 ∧
    e.receive (csi false [decimal 999, decimal 999] 'H'.toNat ++ csi false [[6]] 'n'.toNat) = some f ∧
      f.events = [.sendData "\x1b[24;80R"] := by
  obtain ⟨s, _, valid, lines, columns⟩ := Screen.new_valid 24 80 (by decide) (by decide)
  let e : Emulation := { screen0 := s, screen1 := s, currentModes := Function.update (fun _ => false) .ansi true }
  obtain ⟨f, received, _, events⟩ := reported_position (e := e) (.fresh rfl rfl) 999 999 (by decide)
  refine ⟨e, f, ⟨valid, valid, Tokenizer.valid_default⟩, lines, columns, received, events.trans ?_⟩
  have y (n : Nat) : min (s.lines - 1) (orOne 999 - 1 + n) = 23 := by
    rw [lines, show orOne 999 = 999 from rfl]
    omega
  have x : min (s.columns - 1) (orOne 999 - 1) = 79 := by rw [columns]; rfl
  simp only [show e.currentScreen = s from rfl, y, x]
  rfl

end Woterm.Konsole.Emulation
