import Woterm.Konsole.Session
import Woterm.Lib.Along

/-!
What a terminal sends by itself: answers to questions in the text that it receives. Whoever writes that text must not
be able to make the terminal type a command. Nor does the text change what the session knows of its views, without
which alone a terminal can be made too narrow for its arrays.
-/

namespace Woterm.Konsole
open Woterm.Lib Woterm.Konsole.History Woterm.Konsole.Screen

/-- Escape, or a character that can be printed. -/
def isPrinted (c : Char) : Bool := c.toNat = 27 || 32 ≤ c.toNat && c.toNat < 127

/-- A text without control characters besides escape. -/
def Printed (data : String) : Prop := data.toList.all isPrinted = true

theorem Printed.append {first second : String} (one : Printed first) (two : Printed second) :
    Printed (first ++ second) := by
  rw [Printed, String.toList_append, List.all_append, Bool.and_eq_true]
  exact ⟨one, two⟩

theorem printed_toString (n : Nat) : Printed (toString n) := by
  rw [Printed, Nat.toString_eq_repr, Nat.repr, String.toList_ofList, List.all_eq_true]
  intro c member
  have digit : c.isDigit = true := Nat.isDigit_of_mem_toDigits (by decide) (by decide) member
  have range : 48 ≤ c.toNat ∧ c.toNat ≤ 57 := by
    simpa [Char.isDigit, UInt32.le_iff_toNat_le] using digit
  simp only [isPrinted, Bool.or_eq_true, Bool.and_eq_true, decide_eq_true_eq]
  omega

theorem printed_position (row column : Nat) : Printed s!"\x1b[{row};{column}R" := by
  have start : Printed "\x1b[" := rfl
  have separator : Printed ";" := rfl
  have final : Printed "R" := rfl
  exact (((start.append (printed_toString row)).append separator).append (printed_toString column)).append final

theorem printed_parms (p : Nat) : Printed s!"\x1b[{p};1;1;112;112;1;0x" := by
  have start : Printed "\x1b[" := rfl
  have rest : Printed ";1;1;112;112;1;0x" := rfl
  exact (start.append (printed_toString p)).append rest

theorem printed_ite (condition : Prop) [Decidable condition] {first second : String} (one : Printed first)
    (two : Printed second) : Printed (if condition then first else second) := by
  split
  · exact one
  · exact two

def Event.Quiet : Event → Prop
  | .sendData data => Printed data
  | _ => True

namespace Emulation

/-- What happened between two states of a terminal is quiet, and its views are the same. -/
structure Tells (e f : Emulation) : Prop where
  views : f.views = e.views
  quiet : ∃ sent, f.events = e.events ++ sent ∧ ∀ event ∈ sent, event.Quiet

theorem tells_same {e f : Emulation} (same : (f.events, f.views) = (e.events, e.views)) : Tells e f := by
  obtain ⟨events, views⟩ := Prod.mk.inj same
  refine ⟨views, [], ?_, fun _ member => absurd member List.not_mem_nil⟩
  rw [events, List.append_nil]

variable (op : Screen → Option Screen) (cc : WChar) (e : Emulation)

theorem tells_refl : Tells e e := tells_same rfl

theorem tells_trans (e f g : Emulation) (one : Tells e f) (two : Tells f g) : Tells e g := by
  obtain ⟨views, first, sent, quiet⟩ := one
  obtain ⟨same, second, again, still⟩ := two
  refine ⟨same.trans views, first ++ second, ?_, fun event member => ?_⟩
  · rw [again, sent, List.append_assoc]
  · rcases List.mem_append.mp member with earlier | later
    · exact quiet event earlier
    · exact still event later

theorem tells_emit {event : Event} (quiet : event.Quiet) : Tells e (e.emit event) :=
  ⟨rfl, [event], rfl, by simpa using quiet⟩

/-! ## What codes tell -/

theorem along_onScreen0 : Along Tells e (e.onScreen0 op) :=
  .read fun _ => .some (tells_same rfl)

theorem along_onScreen1 : Along Tells e (e.onScreen1 op) :=
  .read fun _ => .some (tells_same rfl)

theorem along_onCurrent : Along Tells e (e.onCurrent op) :=
  (along_onScreen1 op e).ite (along_onScreen0 op e)

theorem along_onBoth : Along Tells e (e.onBoth op) :=
  (along_onScreen0 op e).bind tells_trans (along_onScreen1 op)

theorem along_onTokenizer (op : Tokenizer → Option Tokenizer) (e : Emulation) : Along Tells e (e.onTokenizer op) :=
  .read fun _ => .some (tells_same rfl)

theorem along_resizeScreens (lines columns : Nat) (e : Emulation) : Along Tells e (e.resizeScreens lines columns) :=
  (along_onBoth _ e).bind tells_trans fun f => .some (tells_emit f trivial)

theorem along_updateTerminalSize : Along Tells e e.updateTerminalSize := by
  unfold updateTerminalSize
  split
  · exact .some (tells_refl e)
  · exact Along.ite (.some (tells_refl e)) (along_resizeScreens _ _ e)

theorem along_setImageSize (lines columns : Nat) (e : Emulation) : Along Tells e (e.setImageSize lines columns) := by
  have here : Along Tells e (some e) := .some (tells_refl e)
  exact here.ite (here.ite ((along_resizeScreens _ _ e).bind tells_trans along_updateTerminalSize))

theorem along_clearScreenAndSetColumns (columnCount : Nat) (e : Emulation) :
    Along Tells e (e.clearScreenAndSetColumns columnCount) :=
  (along_setImageSize _ columnCount e).bind tells_trans fun f => (along_onCurrent _ f).bind tells_trans fun f =>
    (along_onBoth _ f).bind tells_trans (along_onCurrent _)

theorem along_setMode (m : EmulationMode) (e : Emulation) : Along Tells e (e.setMode m) := by
  have changed : Tells e (e.withMode m true) := tells_same rfl
  refine .behind tells_trans changed ?_
  cases m with
  | screen m => exact along_onBoth _ _
  | columns132 => exact (along_clearScreenAndSetColumns 132 _).ite (.some (tells_same rfl))
  | mouse1000 | mouse1001 | mouse1002 | mouse1003 | bracketedPaste => exact .some (tells_emit _ trivial)
  | appScreen | appCuKeys | appKeyPad | mouse1005 | mouse1006 | mouse1015 | ansi | allow132Columns =>
    exact .some (tells_same rfl)

theorem along_resetMode (m : EmulationMode) (e : Emulation) : Along Tells e (e.resetMode m) := by
  have changed : Tells e (e.withMode m false) := tells_same rfl
  refine .behind tells_trans changed ?_
  cases m with
  | screen m => exact along_onBoth _ _
  | columns132 => exact (along_clearScreenAndSetColumns 80 _).ite (.some (tells_same rfl))
  | mouse1000 | mouse1001 | mouse1002 | mouse1003 | bracketedPaste => exact .some (tells_emit _ trivial)
  | appScreen | appCuKeys | appKeyPad | mouse1005 | mouse1006 | mouse1015 | ansi | allow132Columns =>
    exact .some (tells_same rfl)

theorem along_resetModes : Along Tells e e.resetModes := by
  have each : ∀ m ∈ resettable, ∀ e : Emulation, Along Tells e (e.resetMode m >>= fun e => some (e.saveMode m)) :=
    fun m _ e => (along_resetMode m e).bind tells_trans fun _ => .some (tells_same rfl)
  exact (Along.foldlM tells_trans tells_refl resettable each).bind tells_trans fun f =>
    (along_resetMode _ f).bind tells_trans (along_setMode .ansi)

theorem events_withCharset (f : CharCodes → CharCodes) (e : Emulation) :
    ((e.withCharset f).events, (e.withCharset f).views) = (e.events, e.views) := by
  unfold withCharset
  split <;> rfl

theorem events_setCharset (n : Nat) (cs : Char) (e : Emulation) :
    ((e.setCharset n cs).events, (e.setCharset n cs).views) = (e.events, e.views) := by
  simp only [setCharset, useCharset, events_withCharset]

theorem events_setAndUseCharset (n : Nat) (cs : Char) (e : Emulation) :
    ((e.setAndUseCharset n cs).events, (e.setAndUseCharset n cs).views) = (e.events, e.views) := by
  simp only [setAndUseCharset, useCharset, events_withCharset]

theorem tells_resetCharset (n : Nat) (e : Emulation) : Tells e (e.resetCharset n) := by
  unfold resetCharset
  split <;> exact tells_same rfl

theorem along_reset : Along Tells e e.reset :=
  (along_onTokenizer _ e).bind tells_trans fun f => (along_resetModes f).bind tells_trans fun f =>
    Along.bind tells_trans (.behind tells_trans (tells_resetCharset 0 f) (along_onScreen0 _ _)) fun f =>
      Along.bind tells_trans (.behind tells_trans (tells_resetCharset 1 f) (along_onScreen1 _ _)) fun f =>
        .some (tells_emit f trivial)

theorem Action.along (action : Action) (other : ∀ data, action ≠ .signal (.sendData data)) (e : Emulation) :
    Along Tells e (action.run e) := by
  cases action with
  | current op => exact along_onCurrent _ e
  | alternate op => exact along_onScreen1 _ e
  | both op => exact along_onBoth _ e
  | signal event =>
    cases event with
    | sendData data => exact absurd rfl (other data)
    | _ => exact .some (tells_emit e trivial)
  | reportTerminalType => exact .some (tells_emit e (printed_ite _ rfl rfl))
  | reportSecondaryAttributes => exact .some (tells_emit e (printed_ite _ rfl rfl))
  | reportStatus => exact .some (tells_emit e (show Printed _ from rfl))
  | reportCursorPosition => exact .some (tells_emit e (printed_position _ _))
  | reportTerminalParms p => exact .some (tells_emit e (printed_parms p))
  | reportAnswerBack => exact .some (tells_emit e (show Printed _ from rfl))
  | reportFocusEvents on => exact .some (tells_same rfl)
  | reset => exact along_reset e
  | useCharset n => exact .some (tells_same (events_withCharset _ e))
  | setCharset n cs => exact .some (tells_same (events_setCharset n cs e))
  | setAndUseCharset n cs => exact .some (tells_same (events_setAndUseCharset n cs e))
  | saveCursor => exact .behind tells_trans (tells_same (events_withCharset _ e)) (along_onCurrent _ _)
  | restoreCursor => exact .behind tells_trans (tells_same (events_withCharset _ e)) (along_onCurrent _ _)
  | setMode m => exact along_setMode m e
  | resetMode m => exact along_resetMode m e
  | saveMode m => exact .some (tells_same rfl)
  | restoreMode m => exact (along_setMode m e).ite (along_resetMode m e)
  | setImageSize lines columns => exact along_setImageSize lines columns e
  | clearHistory => exact along_onScreen0 _ e

theorem actions_report (token : Token) (p q : Nat) (action : Action) (member : action ∈ actions token p q)
    (data : String) :
    action ≠ .signal (.sendData data) := by
  rintro rfl
  by_cases resize : token = .csiPs 't' 8
  · subst resize
    simp [actions, namedActions] at member
  · exact actions_ordinary token p q resize _ member

theorem along_processToken (token : Token) (p q : Nat) (e : Emulation) : Along Tells e (e.processToken token p q) :=
  Along.foldlM tells_trans tells_refl _ fun action member => action.along (actions_report token p q action member)

theorem along_finish (token : Token) (p q : Nat) (e : Emulation) : Along Tells e (e.finish token p q) :=
  (along_processToken token p q e).bind tells_trans (along_onTokenizer _)

/-! ## Whatever is received -/

theorem along_dispatch (fuel i : Nat) (e : Emulation) : Along Tells e (e.dispatch cc fuel i) := by
  induction fuel generalizing i e with
  | zero => exact .some (tells_refl e)
  | succ fuel ih =>
    have next (token : Token) (p q i : Nat) :
        Along Tells e (e.processToken token p q >>= fun e => e.dispatch cc fuel i) :=
      (along_processToken token p q e).bind tells_trans (ih i)
    refine Along.ite (.read fun arg => ?_) (.some (tells_refl e))
    refine (next _ _ _ _).ite ((next _ _ _ _).ite (Along.ite ?_ (Along.ite ?_ (next _ _ _ _))))
    · exact .read fun red => .read fun green => .read fun blue => next _ _ _ _
    · exact .read fun index => next _ _ _ _

theorem along_processWindowAttributeChange : Along Tells e e.processWindowAttributeChange :=
  .read fun _ => .read fun _ => .ite (.some (tells_refl e)) (.read fun _ => .some (tells_emit e trivial))

theorem along_scanAnsi : Along Tells e (e.scanAnsi cc) := by
  have here : Along Tells e (some e) := .some (tells_refl e)
  unfold scanAnsi
  dsimp only
  refine here.ite ((along_onTokenizer _ e).ite (here.ite (Along.ite ?_ ((along_onTokenizer _ e).ite (here.ite ?_)))))
  · exact (along_processWindowAttributeChange e).bind tells_trans (along_onTokenizer _)
  refine (along_finish _ _ _ e).ite ((along_finish _ _ _ e).ite ?_)
  refine (along_finish _ _ _ e).ite ((along_finish _ _ _ e).ite ?_)
  refine Along.ite (.read fun p => .read fun q => along_finish _ _ _ e) (here.ite (Along.ite ?_ (Along.ite ?_ ?_)))
  · exact .read fun arg => along_finish _ _ _ e
  · exact .read fun n => .read fun p => .read fun q => along_finish _ _ _ e
  refine (along_finish _ _ _ e).ite ((along_onTokenizer _ e).ite ((along_onTokenizer _ e).ite ?_))
  exact (along_dispatch cc MAXARGS 0 e).bind tells_trans (along_onTokenizer _)

theorem along_scan : Along Tells e (e.scan cc) := by
  refine (along_onTokenizer _ e).bind tells_trans fun f => Along.ite (along_scanAnsi cc f) ?_
  have here : Along Tells f (some f) := .some (tells_refl f)
  exact here.ite ((along_finish _ _ _ f).ite (here.ite ((along_finish _ _ _ f).ite (along_finish _ _ _ f))))

theorem along_receiveChar : Along Tells e (e.receiveChar cc) := by
  have here : Along Tells e (some e) := .some (tells_refl e)
  refine here.ite (Along.ite ((along_onTokenizer _ e).ite (Along.ite ?_ (Along.ite ?_ ?_))) (along_scan cc e))
  · exact (along_onTokenizer _ e).bind tells_trans (along_scan cc)
  · exact (along_onTokenizer _ e).bind tells_trans (along_processToken _ 0 0)
  · exact along_processToken _ 0 0 e

/-- Whatever is received, all that a terminal sends in answer is free of line ends and of any other control character
but escape. -/
theorem receive_tells (e : Emulation) (text : List WChar) : Along Tells e (e.receive text) :=
  Along.foldlM tells_trans tells_refl text fun cc _ e => along_receiveChar cc e

theorem receive_views {e f : Emulation} {text : List WChar} (received : e.receive text = some f) : f.views = e.views :=
  (Along.foldlM tells_trans tells_refl text (fun cc _ e => along_receiveChar cc e) f received).views

/-- Whatever is received, a terminal stays inside of its arrays, unless no view gives it a size and a part of the text
made it one column wide before. -/
theorem receive_survives {e : Emulation} (valid : e.Valid) (text : List WChar) :
    (∃ f, e.receive text = some f ∧ f.Valid) ∨
      e.views = none ∧ ∃ before f, before <+: text ∧ e.receive before = some f ∧ f.screen0.columns = 1 := by
  rcases valid.receive text with survived | ⟨before, f, start, received, hidden, narrow⟩
  · exact .inl survived
  · exact .inr ⟨(receive_views received).symm.trans hidden, before, f, start, received, narrow⟩

/-- A new terminal in a view of 24 lines and 80 columns. -/
theorem new_survives : ∃ e, new = some e ∧ e.Valid ∧
    ∀ text, ∃ f, Emulation.receive { e with views := some ⟨24, 80, by decide, by decide⟩ } text = some f ∧ f.Valid := by
  obtain ⟨e, created, valid⟩ := new_valid
  refine ⟨e, created, valid, fun text => ?_⟩
  have shown : Valid { e with views := some ⟨24, 80, by decide, by decide⟩ } :=
    ⟨valid.screen0, valid.screen1, valid.tokenizer⟩
  exact (receive_survives shown text).resolve_right fun hidden => by cases hidden.1

end Emulation

end Woterm.Konsole
