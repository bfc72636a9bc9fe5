import Woterm.Konsole.Bounds
import Woterm.Konsole.Emulation

/-!
Whatever a host sends, a terminal of two columns or more stays inside of its arrays. A host can make the terminal one
column wide, and then a wide character is written before the start of a row.
-/

namespace Woterm.Konsole.Screen

theorem Op.safe (op : Op) : Safe op.run := by
  cases op with
  | displayCharacter c => exact safe_displayCharacter c
  | backspace => exact safe_backspace
  | tab n => exact safe_tab n
  | backtab n => exact safe_backtab n
  | newLine => exact safe_newLine
  | toStartOfLine => exact Safe.pure fun _ valid => valid.toStartOfLine
  | index => exact safe_index
  | nextLine => exact safe_nextLine
  | reverseIndex => exact safe_reverseIndex
  | changeTabStop set => exact safe_changeTabStop set
  | clearTabStops => exact safe_clearTabStops
  | setLineProperty property enable => exact safe_setLineProperty property enable
  | helpAlign => exact safe_helpAlign
  | clearToEndOfLine => exact safe_clearToEndOfLine
  | clearToBeginOfLine => exact safe_clearToBeginOfLine
  | clearEntireLine => exact safe_clearEntireLine
  | clearToEndOfScreen => exact safe_clearToEndOfScreen
  | clearToBeginOfScreen => exact safe_clearToBeginOfScreen
  | clearEntireScreen => exact safe_clearEntireScreen
  | setMode m => exact Safe.pure fun _ valid => valid.setMode m
  | resetMode m => exact Safe.pure fun _ valid => valid.resetMode m
  | saveMode m => exact Safe.pure fun _ valid => valid.saveMode m
  | restoreMode m => exact Safe.pure fun _ valid => valid.restoreMode m
  | setDefaultRendition => exact Safe.pure fun _ valid => valid.setDefaultRendition
  | setRendition re => exact Safe.pure fun _ valid => valid.setRendition re
  | resetRendition re => exact Safe.pure fun _ valid => valid.resetRendition re
  | setForeColor space color => exact Safe.pure fun _ valid => valid.setForeColor space color
  | setBackColor space color => exact Safe.pure fun _ valid => valid.setBackColor space color
  | insertChars n => exact safe_insertChars n
  | deleteChars n => exact safe_deleteChars n
  | eraseChars n => exact safe_eraseChars n
  | repeatChars count => exact safe_repeatChars count
  | insertLines n => exact safe_insertLines n
  | deleteLines n => exact safe_deleteLines n
  | scrollUp n => exact safe_scrollUp n
  | scrollDown n => exact safe_scrollDown n
  | cursorUp n => exact Safe.pure fun _ valid => valid.cursorUp n
  | cursorDown n => exact Safe.pure fun _ valid => valid.cursorDown n
  | cursorRight n => exact Safe.pure fun _ valid => valid.cursorRight n
  | cursorLeft n => exact Safe.pure fun _ valid => valid.cursorLeft n
  | setCursorX x => exact Safe.pure fun _ valid => valid.setCursorX x
  | setCursorY y => exact Safe.pure fun _ valid => valid.setCursorY y
  | setCursorYX y x => exact Safe.pure fun _ valid => valid.setCursorYX y x
  | setMargins top bot => exact Safe.pure fun _ valid => valid.setMargins top bot
  | setDefaultMargins => exact Safe.pure fun _ valid => valid.setDefaultMargins
  | saveCursor => exact Safe.pure fun _ valid => valid.saveCursor
  | restoreCursor => exact Safe.pure fun _ valid => valid.restoreCursor
  | clearSelection => exact Safe.pure fun _ valid => valid.repaint rfl _
  | reset => exact safe_reset

/-- An operation that keeps a screen valid, of whatever size it is then. -/
def Kept (op : Screen → Option Screen) : Prop := ∀ s, s.Valid → ∃ t, op s = some t ∧ t.Valid

theorem Safe.kept {op : Screen → Option Screen} (safe : Safe op) : Kept op := by
  intro s valid
  obtain ⟨t, found, follows⟩ := safe s valid
  exact ⟨t, found, follows.valid⟩

end Woterm.Konsole.Screen

namespace Woterm.Konsole.Tokenizer
open Woterm.Konsole.History

/-! ## Valid tokenizers -/

structure Valid (t : Tokenizer) : Prop where
  buffer : t.tokenBuffer.length = MAX_TOKEN_LENGTH
  position : t.tokenBufferPos < MAX_TOKEN_LENGTH
  arguments : t.argv.length = MAXARGS
  count : t.argc < MAXARGS

theorem valid_default : Valid {} :=
  ⟨List.length_replicate, by decide, List.length_replicate, by decide⟩

/-- A tokenizer that starts again. -/
def restarted (t : Tokenizer) : Tokenizer :=
  { t with tokenBufferPos := 0, argc := 0, argv := (t.argv.set 0 0).set 1 0, prevCC := 0 }

theorem store_eq {α : Type} {array : List α} {i : Nat} (inside : i < array.length) (value : α) :
    store array i value = some (array.set i value) :=
  if_pos inside

variable {t : Tokenizer}

theorem Valid.resetTokenizer (valid : t.Valid) : t.resetTokenizer = some t.restarted ∧ t.restarted.Valid := by
  have room := valid.arguments
  have stored : (store t.argv 0 0).bind (fun argv => store argv 1 0) = some ((t.argv.set 0 0).set 1 0) := by
    simp [store, room, MAXARGS]
  refine ⟨?_, valid.buffer, Nat.zero_lt_succ _, ?_, Nat.zero_lt_succ _⟩
  · unfold Tokenizer.resetTokenizer
    rw [← bind_assoc]
    exact congrArg (Option.bind · _) stored
  · rw [restarted, List.length_set, List.length_set]
    exact room

theorem Valid.addToCurrentToken (valid : t.Valid) (cc : WChar) : ∃ u, t.addToCurrentToken cc = some u ∧ u.Valid := by
  have inside : t.tokenBufferPos < t.tokenBuffer.length := by
    rw [valid.buffer]
    exact valid.position
  refine ⟨_, congrArg (Option.bind · _) (store_eq inside cc), List.length_set.trans valid.buffer, ?_, valid.arguments,
    valid.count⟩
  exact Nat.lt_of_le_of_lt (Nat.min_le_right _ _) (by decide)

theorem Valid.argument (valid : t.Valid) {i : Nat} (inside : i < MAXARGS) : ∃ arg, t.argv[i]? = some arg :=
  ⟨_, List.getElem?_eq_getElem (by rw [valid.arguments]; exact inside)⟩

theorem Valid.character (valid : t.Valid) {i : Nat} (inside : i < MAX_TOKEN_LENGTH) : ∃ c, t.tokenBuffer[i]? = some c :=
  ⟨_, List.getElem?_eq_getElem (by rw [valid.buffer]; exact inside)⟩

theorem Valid.attributeFrom (valid : t.Valid) (fuel : Nat) {i : Nat} (inside : i < MAX_TOKEN_LENGTH) (number : Nat) :
    ∃ j value, t.attributeFrom fuel i number = some (j, value) ∧ j < MAX_TOKEN_LENGTH := by
  induction fuel generalizing i number with
  | zero => exact ⟨i, number, rfl, inside⟩
  | succ fuel ih =>
    have position := valid.position
    obtain ⟨c, read⟩ := valid.character inside
    simp only [Tokenizer.attributeFrom, read, Option.bind_eq_bind, Option.bind_some]
    split_ifs
    · exact ih (by omega) _
    · exact ⟨i, number, rfl, inside⟩
    · exact ⟨i, number, rfl, inside⟩

theorem Valid.addDigit (valid : t.Valid) (digit : Nat) : ∃ u, t.addDigit digit = some u ∧ u.Valid := by
  have inside : t.argc < t.argv.length := by
    rw [valid.arguments]
    exact valid.count
  obtain ⟨value, read⟩ := valid.argument valid.count
  unfold Tokenizer.addDigit
  simp only [read, Option.bind_eq_bind, Option.bind_some]
  split
  · exact ⟨_, congrArg (Option.bind · _) (store_eq inside _), valid.buffer, valid.position,
      List.length_set.trans valid.arguments, valid.count⟩
  · exact ⟨t, rfl, valid⟩

theorem Valid.addArgument (valid : t.Valid) : ∃ u, t.addArgument = some u ∧ u.Valid := by
  have count : min (t.argc + 1) (MAXARGS - 1) < MAXARGS := Nat.lt_of_le_of_lt (Nat.min_le_right _ _) (by decide)
  have inside : min (t.argc + 1) (MAXARGS - 1) < t.argv.length := by
    rw [valid.arguments]
    exact count
  exact ⟨_, congrArg (Option.bind · _) (store_eq inside 0), valid.buffer, valid.position,
    List.length_set.trans valid.arguments, count⟩

theorem Valid.bracket (valid : t.Valid) :
    ∃ u, (store t.tokenBuffer 0 ESC >>= fun tokenBuffer =>
      Tokenizer.addToCurrentToken '['.toNat { t with tokenBuffer }) = some u ∧ u.Valid := by
  have inside : 0 < t.tokenBuffer.length := by
    rw [valid.buffer]
    decide
  have still : { t with tokenBuffer := t.tokenBuffer.set 0 ESC }.Valid :=
    ⟨List.length_set.trans valid.buffer, valid.position, valid.arguments, valid.count⟩
  rw [store_eq inside]
  exact still.addToCurrentToken _

end Woterm.Konsole.Tokenizer

namespace Woterm.Konsole.Emulation
open Woterm.Lib Woterm.Konsole.History Woterm.Konsole.Screen

/-! ## Valid terminals -/

structure Valid (e : Emulation) : Prop where
  screen0 : e.screen0.Valid
  screen1 : e.screen1.Valid
  tokenizer : e.tokenizer.Valid

/-- A step that has a result on every valid terminal, which is valid too. -/
def Sound (step : Emulation → Option Emulation) : Prop := ∀ e, e.Valid → ∃ f, step e = some f ∧ f.Valid

theorem Sound.bind {first second : Emulation → Option Emulation} (one : Sound first) (two : Sound second) :
    Sound fun e => first e >>= second := by
  intro e valid
  obtain ⟨f, found, kept⟩ := one e valid
  obtain ⟨g, again, still⟩ := two f kept
  exact ⟨g, by simp only [found]; exact again, still⟩

theorem Sound.foldlM {α : Type} {step : α → Emulation → Option Emulation} (list : List α)
    (sound : ∀ a ∈ list, Sound (step a)) : Sound fun e => list.foldlM (fun e a => step a e) e := by
  induction list with
  | nil => exact fun e valid => ⟨e, rfl, valid⟩
  | cons a list ih =>
    have first := sound a List.mem_cons_self
    have rest := ih fun b member => sound b (List.mem_cons_of_mem a member)
    exact fun e valid => (first.bind rest) e valid

theorem Valid.withScreens {e f : Emulation} (valid : e.Valid) (screen0 : f.screen0.Valid) (screen1 : f.screen1.Valid)
    (same : f.tokenizer = e.tokenizer) : f.Valid :=
  ⟨screen0, screen1, same ▸ valid.tokenizer⟩

theorem Sound.pure {f : Emulation → Emulation} (kept : ∀ e, e.Valid → (f e).Valid) : Sound fun e => some (f e) :=
  fun e valid => ⟨f e, rfl, kept e valid⟩

variable {e : Emulation} {op : Screen → Option Screen} (a : Char) (m : EmulationMode)

theorem sound_onScreen0 (kept : Kept op) : Sound (onScreen0 op) := by
  intro e valid
  obtain ⟨t, found, still⟩ := kept e.screen0 valid.screen0
  exact ⟨_, congrArg (Option.bind · _) found, valid.withScreens still valid.screen1 rfl⟩

theorem sound_onScreen1 (kept : Kept op) : Sound (onScreen1 op) := by
  intro e valid
  obtain ⟨t, found, still⟩ := kept e.screen1 valid.screen1
  exact ⟨_, congrArg (Option.bind · _) found, valid.withScreens valid.screen0 still rfl⟩

theorem sound_onCurrent (kept : Kept op) : Sound (onCurrent op) := by
  intro e valid
  unfold onCurrent
  split
  · exact sound_onScreen1 kept e valid
  · exact sound_onScreen0 kept e valid

theorem sound_onBoth (kept : Kept op) : Sound (onBoth op) :=
  (sound_onScreen0 kept).bind (sound_onScreen1 kept)

/-! ## What codes do -/

theorem resizeScreens_eq (rows0 : e.screen0.Rows) (rows1 : e.screen1.Rows) {lines columns : Nat}
    (some_lines : 1 ≤ lines) (some_columns : 1 ≤ columns) (valid0 : e.screen0.columns = columns → e.screen0.Valid)
    (valid1 : e.screen1.columns = columns → e.screen1.Valid) :
    ∃ s t : Screen, s.Rows ∧ t.Rows ∧ s.columns = columns ∧ t.columns = columns ∧ (2 ≤ columns → s.Valid ∧ t.Valid) ∧
      e.resizeScreens lines columns =
        some (Emulation.emit (.imageSizeChanged lines columns) { e with screen0 := s, screen1 := t }) := by
  obtain ⟨s, found0, width0, still0, kept0⟩ := rows0.resizeImage lines columns some_lines some_columns valid0
  obtain ⟨t, found1, width1, still1, kept1⟩ := rows1.resizeImage lines columns some_lines some_columns valid1
  refine ⟨s, t, still0, still1, width0, width1, fun wide => ⟨kept0 wide, kept1 wide⟩, ?_⟩
  unfold resizeScreens onBoth onScreen0 onScreen1
  simp only [found0, found1, Option.bind_eq_bind, Option.bind_some, Option.pure_def]

/-- Only without a view is a terminal left with one column. -/
theorem Valid.setImageSize (valid : e.Valid) (lines columns : Nat) :
    ∃ f, e.setImageSize lines columns = some f ∧ f.tokenizer = e.tokenizer ∧
      (f.Valid ∨ columns = 1 ∧ f.views = none ∧ f.screen0.columns = 1) := by
  unfold Emulation.setImageSize
  split
  · exact ⟨e, rfl, rfl, .inl valid⟩
  next =>
    split
    · exact ⟨e, rfl, rfl, .inl valid⟩
    next =>
      obtain ⟨s, t, rows0, rows1, width0, width1, kept, resized⟩ := resizeScreens_eq valid.screen0.rows valid.screen1.rows
        (show 1 ≤ lines by omega) (show 1 ≤ columns by omega) (fun _ => valid.screen0) (fun _ => valid.screen1)
      simp only [resized, Option.bind_eq_bind, Option.bind_some]
      have wide_valid (wide : 2 ≤ columns) :
          (Emulation.emit (.imageSizeChanged lines columns) { e with screen0 := s, screen1 := t }).Valid :=
        ⟨(kept wide).1, (kept wide).2, valid.tokenizer⟩
      unfold updateTerminalSize
      split
      next hidden =>
        refine ⟨_, rfl, rfl, ?_⟩
        rcases Nat.lt_or_ge columns 2 with narrow | wide
        · exact .inr ⟨by omega, hidden, show s.columns = 1 by omega⟩
        · exact .inl (wide_valid wide)
      next view _ =>
        have two := view.two_columns
        split
        next same =>
          have equal : view.columns = s.columns := same.2.1
          exact ⟨_, rfl, rfl, .inl (wide_valid (by omega))⟩
        next =>
          obtain ⟨u, v, _, _, _, _, again, found⟩ := resizeScreens_eq
            (e := Emulation.emit (.imageSizeChanged lines columns) { e with screen0 := s, screen1 := t }) rows0 rows1
            (Nat.le_of_lt view.two_lines) (Nat.le_of_lt two)
            (fun same : s.columns = view.columns => (kept (by omega)).1)
            (fun same : t.columns = view.columns => (kept (by omega)).2)
          exact ⟨_, found, rfl, .inl ⟨(again two).1, (again two).2, valid.tokenizer⟩⟩

theorem sound_setImageSize (lines columns : Nat) (wide : columns ≠ 1) : Sound (setImageSize lines columns) := by
  intro e valid
  obtain ⟨f, found, _, still | narrow⟩ := valid.setImageSize lines columns
  · exact ⟨f, found, still⟩
  · exact absurd narrow.1 wide

theorem renewed_valid {history : HistoryScroll} (valid : history.Valid) :
    ∃ fresh, renewed history = some fresh ∧ fresh.Valid := by
  cases history with
  | none => exact ⟨.none, rfl, trivial⟩
  | file => exact ⟨.file, rfl, trivial⟩
  | buffer h =>
    obtain ⟨fresh, created, still, _⟩ := HistoryScrollBuffer.new_valid h.maxLineCount valid.room
    exact ⟨.buffer fresh, congrArg (Option.map HistoryScroll.buffer) created, still⟩

theorem kept_renewScroll : Kept renewScroll := by
  intro s valid
  have cleared : Follows s s.clearSelection := valid.repaint rfl _
  obtain ⟨fresh, created, still⟩ := renewed_valid valid.history
  exact ⟨_, congrArg (Option.bind · _) created, (cleared.valid.withHistory still).valid⟩

theorem sound_clearScreenAndSetColumns (columnCount : Nat) (wide : columnCount ≠ 1) :
    Sound (clearScreenAndSetColumns columnCount) := by
  have sized : Sound fun e => e.setImageSize e.currentScreen.lines columnCount :=
    fun e valid => sound_setImageSize e.currentScreen.lines columnCount wide e valid
  exact sized.bind ((sound_onCurrent safe_clearEntireScreen.kept).bind
    ((sound_onBoth (Safe.pure fun _ valid => valid.setDefaultMargins).kept).bind
      (sound_onCurrent (Safe.pure fun _ valid => valid.setCursorYX 0 0).kept)))

theorem Valid.withMode (valid : e.Valid) (m : EmulationMode) (value : Bool) : (e.withMode m value).Valid :=
  valid.withScreens valid.screen0 valid.screen1 rfl

theorem Valid.emit (valid : e.Valid) (event : Event) : (e.emit event).Valid :=
  valid.withScreens valid.screen0 valid.screen1 rfl

theorem Valid.saveMode (valid : e.Valid) (m : EmulationMode) : (e.saveMode m).Valid :=
  valid.withScreens valid.screen0 valid.screen1 rfl

theorem sound_setMode : Sound (setMode m) := by
  intro e valid
  have changed := valid.withMode m true
  cases m with
  | screen m => exact sound_onBoth (Safe.pure fun _ valid => valid.setMode m).kept _ changed
  | columns132 =>
    simp only [setMode]
    split
    · exact sound_clearScreenAndSetColumns 132 (by decide) _ changed
    · exact ⟨_, rfl, changed.withMode _ _⟩
  | mouse1000 | mouse1001 | mouse1002 | mouse1003 | bracketedPaste => exact ⟨_, rfl, changed.emit _⟩
  | appScreen => exact ⟨_, rfl, changed.withScreens changed.screen0 (changed.screen1.repaint rfl _).valid rfl⟩
  | appCuKeys | appKeyPad | mouse1005 | mouse1006 | mouse1015 | ansi | allow132Columns => exact ⟨_, rfl, changed⟩

theorem sound_resetMode : Sound (resetMode m) := by
  intro e valid
  have changed := valid.withMode m false
  cases m with
  | screen m => exact sound_onBoth (Safe.pure fun _ valid => valid.resetMode m).kept _ changed
  | columns132 =>
    simp only [resetMode]
    split
    · exact sound_clearScreenAndSetColumns 80 (by decide) _ changed
    · exact ⟨_, rfl, changed⟩
  | mouse1000 | mouse1001 | mouse1002 | mouse1003 | bracketedPaste => exact ⟨_, rfl, changed.emit _⟩
  | appScreen => exact ⟨_, rfl, changed.withScreens (changed.screen0.repaint rfl _).valid changed.screen1 rfl⟩
  | appCuKeys | appKeyPad | mouse1005 | mouse1006 | mouse1015 | ansi | allow132Columns => exact ⟨_, rfl, changed⟩

theorem sound_restoreMode : Sound (restoreMode m) := by
  intro e valid
  unfold restoreMode
  split
  · exact sound_setMode m e valid
  · exact sound_resetMode m e valid

theorem sound_resetModes : Sound resetModes := by
  have each : ∀ m ∈ resettable, Sound fun e : Emulation => e.resetMode m >>= fun e => some (e.saveMode m) :=
    fun m _ => (sound_resetMode m).bind (Sound.pure fun _ valid => valid.saveMode m)
  exact (Sound.foldlM resettable each).bind ((sound_resetMode (.screen .newLine)).bind (sound_setMode .ansi))

theorem sound_onTokenizer {op : Tokenizer → Option Tokenizer}
    (kept : ∀ t : Tokenizer, t.Valid → ∃ u, op t = some u ∧ u.Valid) : Sound (onTokenizer op) := by
  intro e valid
  obtain ⟨t, found, still⟩ := kept e.tokenizer valid.tokenizer
  exact ⟨_, congrArg (Option.bind · _) found, valid.screen0, valid.screen1, still⟩

/-- The terminal, with a tokenizer that starts again. -/
def restarted (e : Emulation) : Emulation := e.withTokenizer e.tokenizer.restarted

theorem resetTokenizer_eq (valid : e.tokenizer.Valid) : e.resetTokenizer = some e.restarted := by
  rw [resetTokenizer, onTokenizer, valid.resetTokenizer.1]
  rfl

theorem Valid.restarted (valid : e.Valid) : e.restarted.Valid :=
  ⟨valid.screen0, valid.screen1, valid.tokenizer.resetTokenizer.2⟩

theorem sound_resetTokenizer : Sound resetTokenizer := fun e valid =>
  ⟨e.restarted, resetTokenizer_eq valid.tokenizer, valid.restarted⟩

theorem Valid.withCharset (valid : e.Valid) (f : CharCodes → CharCodes) : (e.withCharset f).Valid := by
  unfold Emulation.withCharset
  split <;> exact valid.withScreens valid.screen0 valid.screen1 rfl

theorem sound_saveCursor : Sound saveCursor := fun _ valid =>
  sound_onCurrent (Safe.pure fun _ valid => valid.saveCursor).kept _ (valid.withCharset _)

theorem sound_restoreCursor : Sound restoreCursor := fun _ valid =>
  sound_onCurrent (Safe.pure fun _ valid => valid.restoreCursor).kept _ (valid.withCharset _)

theorem Valid.resetCharset (valid : e.Valid) (n : Nat) : (e.resetCharset n).Valid := by
  unfold Emulation.resetCharset
  split <;> exact valid.withScreens valid.screen0 valid.screen1 rfl

theorem sound_reset : Sound reset := by
  have first : Sound fun e => (e.resetCharset 0).onScreen0 Screen.reset := fun _ valid =>
    sound_onScreen0 safe_reset.kept _ (valid.resetCharset 0)
  have second : Sound fun e => (e.resetCharset 1).onScreen1 Screen.reset := fun _ valid =>
    sound_onScreen1 safe_reset.kept _ (valid.resetCharset 1)
  exact sound_resetTokenizer.bind (sound_resetModes.bind (first.bind (second.bind (Sound.pure fun _ valid =>
    valid.emit _))))

theorem Valid.useCharset (valid : e.Valid) (n : Nat) : (e.useCharset n).Valid := valid.withCharset _

theorem Valid.withCharsets (valid : e.Valid) (charset0 charset1 : CharCodes) : { e with charset0, charset1 }.Valid :=
  valid.withScreens valid.screen0 valid.screen1 rfl

theorem Valid.setCharset (valid : e.Valid) (n : Nat) (cs : Char) : (e.setCharset n cs).Valid :=
  (((valid.withCharsets (e.charset0.designate n cs) e.charset1).useCharset _).withCharsets _ _).useCharset _

theorem Valid.setAndUseCharset (valid : e.Valid) (n : Nat) (cs : Char) : (e.setAndUseCharset n cs).Valid :=
  (valid.withCharset _).useCharset (n % 4)

/-- The size of the terminal is left alone, and nothing is sent but reports. -/
def Action.Ordinary : Action → Prop
  | .setImageSize _ _ => False
  | .signal (.sendData _) => False
  | _ => True

theorem Action.sound (action : Action) (ordinary : action.Ordinary) : Sound action.run := by
  cases action with
  | current op => exact sound_onCurrent op.safe.kept
  | alternate op => exact sound_onScreen1 op.safe.kept
  | both op => exact sound_onBoth op.safe.kept
  | signal event => exact Sound.pure fun _ valid => valid.emit event
  | reportTerminalType => exact Sound.pure fun _ valid => valid.emit _
  | reportSecondaryAttributes => exact Sound.pure fun _ valid => valid.emit _
  | reportStatus => exact Sound.pure fun _ valid => valid.emit _
  | reportCursorPosition => exact Sound.pure fun _ valid => valid.emit _
  | reportTerminalParms p => exact Sound.pure fun _ valid => valid.emit _
  | reportAnswerBack => exact Sound.pure fun _ valid => valid.emit _
  | reportFocusEvents on => exact Sound.pure fun _ valid => valid.withScreens valid.screen0 valid.screen1 rfl
  | reset => exact sound_reset
  | useCharset n => exact Sound.pure fun _ valid => valid.withCharset _
  | setCharset n cs => exact Sound.pure fun _ valid => valid.setCharset n cs
  | setAndUseCharset n cs => exact Sound.pure fun _ valid => valid.setAndUseCharset n cs
  | saveCursor => exact sound_saveCursor
  | restoreCursor => exact sound_restoreCursor
  | setMode m => exact sound_setMode m
  | resetMode m => exact sound_resetMode m
  | saveMode m => exact Sound.pure fun _ valid => valid.saveMode m
  | restoreMode m => exact sound_restoreMode m
  | setImageSize lines columns => exact ordinary.elim
  | clearHistory => exact sound_onScreen0 kept_renewScroll

/-! ## The table of codes -/

theorem ordinary_controlActions : ∀ action ∈ controlActions a, action.Ordinary := by
  unfold controlActions
  split <;> simp [Action.Ordinary]

theorem ordinary_escapeActions : ∀ action ∈ escapeActions a, action.Ordinary := by
  unfold escapeActions
  split <;> simp [Action.Ordinary]

theorem ordinary_charsetActions (a b : Char) : ∀ action ∈ charsetActions a b, action.Ordinary := by
  have designate (n : Nat) : ∀ action ∈ charsetActions.designate b n, action.Ordinary := by
    unfold charsetActions.designate
    split <;> simp [Action.Ordinary]
  unfold charsetActions
  split
  iterate 4 exact designate _
  · split_ifs <;> simp [Action.Ordinary]
  · simp

theorem ordinary_lineActions : ∀ action ∈ lineActions a, action.Ordinary := by
  unfold lineActions
  split <;> simp [Action.Ordinary, lineActions.lineSize]

theorem ordinary_renditionActions (n p q : Nat) : ∀ action ∈ renditionActions n p q, action.Ordinary := by
  unfold renditionActions
  split_ifs
  iterate 4 simp [Action.Ordinary]
  split <;> simp [Action.Ordinary]

theorem ordinary_cursorActions (n : Nat) : ∀ action ∈ cursorActions n, action.Ordinary := by
  unfold cursorActions
  split <;> simp [Action.Ordinary]

theorem ordinary_numberedActions (p q : Nat) : ∀ action ∈ numberedActions a p q, action.Ordinary := by
  unfold numberedActions
  split <;> simp [Action.Ordinary]

theorem ordinary_modeActions : ∀ action ∈ modeActions a m, action.Ordinary := by
  unfold modeActions
  split <;> simp [Action.Ordinary]

theorem ordinary_screenModeActions (m : Mode) : ∀ action ∈ screenModeActions a m, action.Ordinary := by
  unfold screenModeActions
  split <;> simp [Action.Ordinary]

theorem ordinary_privateActions (n : Nat) : ∀ action ∈ privateActions a n, action.Ordinary := by
  unfold privateActions
  split <;> (try split_ifs) <;>
    first
    | exact ordinary_modeActions _ _
    | exact ordinary_screenModeActions _ _
    | simp [Action.Ordinary]

theorem ordinary_vt52Actions (p q : Nat) : ∀ action ∈ vt52Actions a p q, action.Ordinary := by
  unfold vt52Actions
  split <;> simp [Action.Ordinary]

/-- All codes but one are about colors, renditions and the like. -/
theorem ordinary_namedActions (n p q : Nat) (other : ¬(a = 't' ∧ n = 8)) :
    ∀ action ∈ namedActions a n p q, action.Ordinary := by
  unfold namedActions
  split
  · split_ifs with eight
    · exact absurd ⟨rfl, eight⟩ other
    · simp [Action.Ordinary]
    · simp
  · split <;> simp [Action.Ordinary]
  · split <;> simp [Action.Ordinary]
  iterate 5 split_ifs <;> simp [Action.Ordinary]
  · exact ordinary_renditionActions n p q
  iterate 2 split_ifs <;> simp [Action.Ordinary]
  · simp

theorem actions_ordinary (token : Token) (p q : Nat) (other : token ≠ .csiPs 't' 8) :
    ∀ action ∈ actions token p q, action.Ordinary := by
  cases token with
  | chr => simp [actions, Action.Ordinary]
  | ctl a => exact ordinary_controlActions a
  | esc a => exact ordinary_escapeActions a
  | escCs a b => exact ordinary_charsetActions a b
  | escDe a => exact ordinary_lineActions a
  | csiPs a n =>
    refine ordinary_namedActions a n p q fun both => other ?_
    rw [both.1, both.2]
  | csiPn a => exact ordinary_numberedActions a p q
  | csiPr a n => exact ordinary_privateActions a n
  | csiPsSp a n =>
    change ∀ action ∈ if a = 'q' then cursorActions n else [], _
    split
    · exact ordinary_cursorActions n
    · simp
  | vt52 a => exact ordinary_vt52Actions a p q
  | csiPg a =>
    change ∀ action ∈ if a = 'c' then [Action.reportSecondaryAttributes] else [], _
    split <;> simp [Action.Ordinary]
  | csiPe a => simp [actions]

/-! ## Whole codes -/

theorem sound_processToken (token : Token) (p q : Nat) (other : token ≠ .csiPs 't' 8 ∨ q ≠ 1) :
    Sound (processToken token p q) := by
  by_cases resize : token = .csiPs 't' 8
  · subst resize
    exact (sound_setImageSize p q (other.resolve_left fun different => different rfl)).bind
      ((Sound.pure fun _ valid => valid.emit _).bind fun e valid => ⟨e, rfl, valid⟩)
  · exact Sound.foldlM _ fun action member => action.sound (actions_ordinary token p q resize action member)

/-- The terminal is valid, or it has no view and one column. -/
def Survives (result : Option Emulation) : Prop :=
  ∃ f, result = some f ∧ (f.Valid ∨ f.views = none ∧ f.screen0.columns = 1)

theorem Sound.survives {step : Emulation → Option Emulation} (sound : Sound step) {e : Emulation} (valid : e.Valid) :
    Survives (step e) := by
  obtain ⟨f, found, kept⟩ := sound e valid
  exact ⟨f, found, .inl kept⟩

theorem Valid.finish (valid : e.Valid) (token : Token) (p q : Nat) : Survives (e.finish token p q) := by
  by_cases resize : token = .csiPs 't' 8 ∧ q = 1
  · obtain ⟨rfl, rfl⟩ := resize
    unfold Emulation.finish
    obtain ⟨f, found, tokenizer, still⟩ := valid.setImageSize p 1
    have processed : e.processToken (.csiPs 't' 8) p 1 = _ := congrArg (Option.bind · _) found
    rw [processed]
    refine ⟨_, resetTokenizer_eq (tokenizer ▸ valid.tokenizer), ?_⟩
    exact still.imp (fun still => (still.emit _).restarted) And.right
  · exact ((sound_processToken token p q (by tauto)).bind sound_resetTokenizer).survives valid

/-! ## The tokenizer -/

theorem sound_dispatch (cc : WChar) (fuel i : Nat) : Sound (dispatch cc fuel i) := by
  induction fuel generalizing i with
  | zero => exact fun e valid => ⟨e, rfl, valid⟩
  | succ fuel ih =>
    intro e valid
    unfold dispatch
    dsimp only
    split
    next there =>
      have bound := valid.tokenizer.count
      obtain ⟨arg, read⟩ := valid.tokenizer.argument (show i < MAXARGS by omega)
      simp only [read, Option.bind_eq_bind, Option.bind_some]
      split_ifs with question greater red index
      · exact ((sound_processToken _ _ _ (.inr (by decide))).bind (ih (i + 1))) e valid
      · exact ((sound_processToken _ _ _ (.inr (by decide))).bind (ih (i + 1))) e valid
      · obtain ⟨rfl, more, _⟩ := red
        obtain ⟨red, read₂⟩ := valid.tokenizer.argument (show i + 2 < MAXARGS by omega)
        obtain ⟨green, read₃⟩ := valid.tokenizer.argument (show i + 3 < MAXARGS by omega)
        obtain ⟨blue, read₄⟩ := valid.tokenizer.argument (show i + 4 < MAXARGS by omega)
        simp only [read₂, read₃, read₄, Option.bind_some]
        exact ((sound_processToken _ _ _ (.inl (by simp [low]))).bind (ih (i + 5))) e valid
      · obtain ⟨rfl, more, _⟩ := index
        obtain ⟨index, read₂⟩ := valid.tokenizer.argument (show i + 2 < MAXARGS by omega)
        simp only [read₂, Option.bind_some]
        exact ((sound_processToken _ _ _ (.inl (by simp [low]))).bind (ih (i + 3))) e valid
      · exact ((sound_processToken _ _ _ (.inr (by decide))).bind (ih (i + 1))) e valid
    · exact ⟨e, rfl, valid⟩

theorem Survives.ite {condition : Prop} [Decidable condition] {yes no : Option Emulation} (one : Survives yes)
    (two : Survives no) : Survives (if condition then yes else no) := by
  split
  · exact one
  · exact two

theorem sound_processWindowAttributeChange : Sound processWindowAttributeChange := by
  intro e valid
  obtain ⟨i, number, found, inside⟩ := valid.tokenizer.attributeFrom MAX_TOKEN_LENGTH (show 2 < MAX_TOKEN_LENGTH by decide) 0
  obtain ⟨c, read⟩ := valid.tokenizer.character inside
  have position := valid.tokenizer.position
  have copied := HistoryScrollBuffer.mapM_some (List.range (e.tokenizer.tokenBufferPos - i - 2))
    (f := fun j => e.tokenizer.tokenBuffer[i + 1 + j]?) (g := fun j => e.tokenizer.tok (i + 1 + j)) fun j member => by
      obtain ⟨d, next⟩ := valid.tokenizer.character (show i + 1 + j < _ by have := List.mem_range.mp member; omega)
      rw [Tokenizer.tok, List.getD_eq_getElem?_getD, next, Option.getD_some]
  unfold Emulation.processWindowAttributeChange
  simp only [found, read, copied, Option.bind_eq_bind, Option.bind_some]
  split
  · exact ⟨e, rfl, valid⟩
  · exact ⟨_, rfl, valid.emit _⟩

theorem sound_prevCC (cc : WChar) : Sound (onTokenizer fun t => some { t with prevCC := cc }) :=
  sound_onTokenizer fun _ valid => ⟨_, rfl, valid.buffer, valid.position, valid.arguments, valid.count⟩

/-- The branches of the scanner, in their order. -/
theorem Valid.scanAnsi (valid : e.Valid) (cc : WChar) : Survives (e.scanAnsi cc) := by
  have here : Survives (some e) := ⟨e, rfl, .inl valid⟩
  obtain ⟨a₀, read₀⟩ := valid.tokenizer.argument (show 0 < MAXARGS by decide)
  obtain ⟨a₁, read₁⟩ := valid.tokenizer.argument (show 1 < MAXARGS by decide)
  obtain ⟨a₂, read₂⟩ := valid.tokenizer.argument (show 2 < MAXARGS by decide)
  unfold Emulation.scanAnsi
  dsimp only
  rw [read₀, read₁, read₂]
  refine here.ite (.ite ?_ (here.ite (.ite ?_ (.ite ?_ (here.ite ?_)))))
  · exact (sound_onTokenizer fun _ valid => valid.bracket).survives valid
  · exact (sound_processWindowAttributeChange.bind sound_resetTokenizer).survives valid
  · exact (sound_prevCC cc).survives valid
  refine (valid.finish _ _ _).ite ((valid.finish _ _ _).ite ((valid.finish _ _ _).ite ((valid.finish _ _ _).ite ?_)))
  refine (valid.finish _ _ _).ite (here.ite ((valid.finish _ _ _).ite ((valid.finish _ _ _).ite ?_)))
  refine (valid.finish _ _ _).ite (.ite ?_ (.ite ?_ ?_))
  · exact (sound_onTokenizer fun _ valid => valid.addDigit _).survives valid
  · exact (sound_onTokenizer fun _ valid => valid.addArgument).survives valid
  exact ((sound_dispatch cc MAXARGS 0).bind sound_resetTokenizer).survives valid

theorem Valid.scanVt52 (valid : e.Valid) : Survives e.scanVt52 := by
  have here : Survives (some e) := ⟨e, rfl, .inl valid⟩
  exact here.ite ((valid.finish _ _ _).ite (here.ite ((valid.finish _ _ _).ite (valid.finish _ _ _))))

theorem Valid.scan (valid : e.Valid) (cc : WChar) : Survives (e.scan cc) := by
  obtain ⟨f, added, still⟩ := sound_onTokenizer (fun _ valid => valid.addToCurrentToken cc) e valid
  unfold Emulation.scan
  rw [added]
  exact (still.scanAnsi cc).ite still.scanVt52

theorem Valid.receiveChar (valid : e.Valid) (cc : WChar) : Survives (e.receiveChar cc) := by
  have here : Survives (some e) := ⟨e, rfl, .inl valid⟩
  have control (token : Token) (other : token ≠ .csiPs 't' 8) := sound_processToken token 0 0 (.inl other)
  refine here.ite (.ite (.ite ?_ (.ite ?_ (.ite ?_ ?_))) (valid.scan cc))
  · exact (sound_prevCC cc).survives valid
  · rw [resetTokenizer_eq valid.tokenizer]
    exact valid.restarted.scan cc
  · exact (sound_resetTokenizer.bind (control _ (by simp))).survives valid
  · exact (control _ (by simp)).survives valid

/-! ## Whatever is received -/

theorem Valid.receive (valid : e.Valid) (text : List WChar) :
    (∃ f, e.receive text = some f ∧ f.Valid) ∨
      ∃ before f, before <+: text ∧ e.receive before = some f ∧ f.views = none ∧ f.screen0.columns = 1 := by
  induction text generalizing e with
  | nil => exact .inl ⟨e, rfl, valid⟩
  | cons cc text ih =>
    obtain ⟨f, received, still | narrow⟩ := valid.receiveChar cc
    · have first (rest : List WChar) : e.receive (cc :: rest) = f.receive rest :=
        congrArg (Option.bind · fun f : Emulation => f.receive rest) received
      rcases ih still with ⟨g, found, kept⟩ | ⟨before, g, start, found, narrow⟩
      · exact .inl ⟨g, (first text).trans found, kept⟩
      · exact .inr ⟨cc :: before, g, List.cons_prefix_cons.mpr ⟨rfl, start⟩, (first before).trans found, narrow⟩
    · have alone : e.receive [cc] = some f := congrArg (Option.bind · some) received
      exact .inr ⟨[cc], f, List.cons_prefix_cons.mpr ⟨rfl, List.nil_prefix⟩, alone, narrow⟩

theorem new_valid : ∃ e, new = some e ∧ e.Valid := by
  obtain ⟨s, created, valid, _⟩ := Screen.new_valid 40 80 (by decide) (by decide)
  obtain ⟨e, started, still⟩ := sound_reset { screen0 := s, screen1 := s } ⟨valid, valid, Tokenizer.valid_default⟩
  refine ⟨e, ?_, still⟩
  rw [new, created]
  exact started

end Woterm.Konsole.Emulation
