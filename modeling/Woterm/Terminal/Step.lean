import Woterm.Terminal.Geometry

/-!
One byte in the parser. The cases that a byte can fall into are stated once, as a rule.
-/

namespace Woterm.Terminal.Step
open Woterm.Terminal.Data Woterm.Terminal.Vte Woterm.Terminal.Geometry

/-! ## The cases of a byte -/

/-- The characters that end a string. -/
def endsString (c : uchar) : Bool := c = 0x07 || c = 0x18 || c = 0x1a || c = 0x1b || isControlC1 c

/-- The state in which a byte is looked at. A string that was open is finished. -/
def arrival (v : VTE) : VTE :=
  if v.mode = .string then
    { resetEscape { v with events := [] } with strData := { v.strData with finished := true } }
  else { v with events := [] }

/-- A byte goes into the open string, or overflows it. -/
def keep (c : uchar) (v : VTE) : VTE := (handleString c { v with events := [] }).1

theorem arrival_of_ne {v : VTE} (outside : v.mode ≠ .string) : arrival v = { v with events := [] } := if_neg outside

theorem arrival_string {v : VTE} (inside : v.mode = .string) : arrival v =
    { resetEscape { v with events := [] } with strData := { v.strData with finished := true } } := if_pos inside

theorem arrival_log (v : VTE) : (arrival v).events = [] := by
  unfold arrival
  split_ifs <;> rfl

theorem arrival_utf8Buffer (v : VTE) : (arrival v).utf8Buffer = v.utf8Buffer := by
  unfold arrival
  split_ifs <;> rfl

theorem arrival_still (v : VTE) : Still { v with events := [] } (arrival v) := by
  unfold arrival
  split_ifs
  · exact ⟨rfl, rfl⟩
  · exact Still.refl _

theorem arrival_screen (v : VTE) : ∃ mode csiData strData,
    arrival v = { v with events := [], mode := mode, csiData := csiData, strData := strData } := by
  unfold arrival
  split_ifs
  · exact ⟨.ground, {}, _, rfl⟩
  · exact ⟨v.mode, v.csiData, v.strData, rfl⟩

theorem control_of_endsString : ∀ c, endsString c = true → isControl c = true :=
  forall_uchar (by decide +kernel)

variable (frontend : Frontend)

theorem process_eq_keep (v : VTE) (c : uchar) (inside : v.mode = .string) (other : endsString c = false) :
    process frontend v c = keep c v := by
  have used : (handleString c { v with events := [] }).2 = true := by
    unfold handleString
    unfold endsString at other
    rw [if_neg (by rw [other]; exact Bool.false_ne_true)]
    split <;> rfl
  have mode : ({ v with events := [] } : VTE).mode = .string := inside
  rw [process]
  dsimp only
  rw [if_pos mode, if_pos used]
  rfl

theorem process_eq_dispatch (v : VTE) (c : uchar) (given : v.mode = .string → endsString c = true) :
    process frontend v c = dispatch frontend c (arrival v) := by
  by_cases inside : v.mode = .string
  · have ends := given inside
    unfold endsString at ends
    have unused : handleString c { v with events := [] } = (arrival v, false) := by
      rw [arrival_string inside, handleString, if_pos ends]
    have mode : ({ v with events := [] } : VTE).mode = .string := inside
    rw [process]
    dsimp only
    rw [if_pos mode, unused]
    rfl
  · have mode : ({ v with events := [] } : VTE).mode ≠ .string := inside
    rw [process]
    dsimp only
    rw [if_neg mode, arrival_of_ne inside]

theorem process_eq_control (v : VTE) (c : uchar) (found : Control) (between : v.utf8Buffer = [])
    (known : controlTable.lookup c = some found) (given : v.mode = .string → endsString c = true) :
    process frontend v c = control frontend found (arrival v) := by
  have controls : isControl c = true :=
    (by decide : ∀ entry ∈ controlTable, isControl entry.1 = true) _ (lookup_mem c found controlTable known)
  rw [process_eq_dispatch frontend v c given, dispatch, arrival_utf8Buffer, between, controls]
  simp only [List.isEmpty_nil, Bool.and_self, if_true, handleControl, known]

theorem process_escaped {v : VTE} (between : v.utf8Buffer = []) :
    process frontend v 0x1b = { arrival v with mode := .esc } :=
  process_eq_control frontend v 0x1b .ESC between (by decide) (fun _ => by decide)

/-- What has to be shown of a byte, case by case. -/
structure Cases (motive : VTE → Prop) (v : VTE) (c : uchar) : Prop where
  keep : v.mode = .string → endsString c = false → motive (keep c v)
  control : ∀ found, v.utf8Buffer = [] → controlTable.lookup c = some found →
    motive (Vte.control frontend found (arrival v))
  idle : controlTable.lookup c = none → motive (arrival v)
  escape : ∀ found, v.mode = .esc → escapeTable.lookup c = some found → motive (Vte.escape found (arrival v))
  argument : ∀ data, v.mode = .csi → motive { arrival v with csiData := data }
  final : ∀ found, v.mode = .csi → v.csiData.spaceLeft = true → finalTable.lookup c = some found →
    motive (resetEscape (Vte.final frontend found (arrival v)))
  dropped : v.mode = .esc ∨ v.mode = .csi → motive (resetEscape (arrival v))
  hash : v.mode = .hash → motive (handleHash c (arrival v))
  charset : v.mode = .charset → motive (handleCharset c (arrival v))
  utf8 : v.mode = .utf8 → motive (handleUtf8 c (arrival v))
  text : (v.utf8Buffer = [] → isControl c = false ∧ v.mode = .ground) → (arrival v).mode = .ground →
    motive (handleText frontend c (arrival v))

/-- The rule: what holds after every kind of byte holds after the byte. -/
theorem Cases.process {motive : VTE → Prop} {v : VTE} {c : uchar} (cases : Cases frontend motive v c) :
    motive (Vte.process frontend v c) := by
  by_cases kept : v.mode = .string ∧ endsString c = false
  · rw [process_eq_keep frontend v c kept.1 kept.2]
    exact cases.keep kept.1 kept.2
  have given : v.mode = .string → endsString c = true := by
    intro inside
    cases ends : endsString c with
    | true => rfl
    | false => exact absurd ⟨inside, ends⟩ kept
  rw [process_eq_dispatch frontend v c given]
  unfold dispatch
  rw [arrival_utf8Buffer]
  split_ifs with acts
  · obtain ⟨empty, control⟩ := Bool.and_eq_true_iff.mp acts
    unfold handleControl
    split
    · exact cases.control _ (List.isEmpty_iff.mp empty) ‹_›
    · exact cases.idle ‹_›
  · have stays : v.mode ≠ .string → (arrival v).mode = v.mode := by
      intro outside
      rw [arrival_of_ne outside]
    have ground : v.mode = .string → (arrival v).mode = .ground := by
      intro inside
      rw [arrival_string inside]
      rfl
    have passed : v.utf8Buffer = [] → isControl c = false := by
      intro empty
      rw [empty] at acts
      simpa using acts
    cases mode : v.mode with
    | esc =>
      rw [stays (by rw [mode]; decide), mode]
      dsimp only
      unfold handleEsc
      split
      · exact cases.escape _ mode ‹_›
      · exact cases.dropped (.inl mode)
    | csi =>
      rw [stays (by rw [mode]; decide), mode]
      dsimp only
      have same : (arrival v).csiData = v.csiData := by rw [arrival_of_ne (by rw [mode]; decide)]
      unfold handleCsi
      rw [same]
      split_ifs with space
      · split
        · exact cases.argument _ mode
        · split
          · exact cases.final _ mode space ‹_›
          · exact cases.dropped (.inr mode)
      · exact cases.dropped (.inr mode)
    | hash =>
      rw [stays (by rw [mode]; decide), mode]
      exact cases.hash mode
    | charset =>
      rw [stays (by rw [mode]; decide), mode]
      exact cases.charset mode
    | utf8 =>
      rw [stays (by rw [mode]; decide), mode]
      exact cases.utf8 mode
    | ground =>
      have same := (stays (by rw [mode]; decide)).trans mode
      rw [same]
      exact cases.text (fun empty => ⟨passed empty, mode⟩) same
    | string =>
      rw [ground mode]
      refine cases.text (fun empty => ?_) (ground mode)
      have controls := control_of_endsString c (given mode)
      rw [passed empty] at controls
      cases controls

end Woterm.Terminal.Step
