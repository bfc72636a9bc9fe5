import Mathlib.Data.Fintype.Basic
import Mathlib.Tactic.SplitIfs
import Woterm.Qt

/-!
The line that `lsz` and `lrz` talk over (`zm.c`): `zsendline` writes a byte so that neither flow control nor the other
end takes it for anything else, and `zdlread` reads it back. A line is all that arrives until it is closed. Then every
`read` fails, which `readline_internal` returns as `TIMEOUT`. As long as it is open and silent `read` waits, without
a limit: nothing is said here about a line on which nothing more arrives and which nobody closes.
-/

namespace Woterm.Zmodem.Line
open Woterm.Qt

/-- `'*'`. -/
def ZPAD : UInt8 := 42
/-- The escape character, which is also `CAN`. -/
def ZDLE : UInt8 := 24
def CAN : UInt8 := 24
def XON : UInt8 := 17
def XOFF : UInt8 := 19
/-- `'h'`, `'i'`, `'j'` and `'k'`: the ends of a data subpacket. -/
def ZCRCE : UInt8 := 104
def ZCRCG : UInt8 := 105
def ZCRCQ : UInt8 := 106
def ZCRCW : UInt8 := 107
def ZRUB0 : UInt8 := 108
def ZRUB1 : UInt8 := 109

/-! ## Sending -/

/-- The options `Zctlesc` and `turbo_escape`. -/
structure Escaping where
  ctlesc : Bool
  turbo : Bool
deriving DecidableEq, Repr

/-- The entries 0, 1 and 2 of `zsendline_tab`. -/
inductive Treatment where
  | plain
  | escape
  | afterAt
deriving DecidableEq, Repr

def isFlow (c : UInt8) : Bool := c == XON || c == XON ||| 0x80 || c == XOFF || c == XOFF ||| 0x80

/-- `!(c & 0140)`. -/
def isControl (c : UInt8) : Bool := c &&& 0x60 == 0

/-- `zsendline_tab` as `zsendline_init` fills it. -/
def zsendlineTab (e : Escaping) (i : UInt8) : Treatment :=
  if !isControl i then .plain
  else if i == ZDLE || isFlow i then .escape
  else if i == 0x10 || i == 0x90 then if e.turbo then .plain else .escape
  else if i == 0x0d || i == 0x8d then
    if e.ctlesc then .escape else if !e.turbo then .afterAt else .plain
  else if e.ctlesc then .escape else .plain

/-- What has been written, and the variable `lastsent`. -/
structure Output where
  bytes : QByteArray := []
  lastsent : UInt8 := 0
deriving DecidableEq, Repr

def xsendline (o : Output) (c : UInt8) : Output := { o with bytes := o.bytes ++ [c] }

/-- `xsendline(lastsent = c)`. -/
def sendlast (o : Output) (c : UInt8) : Output := { bytes := o.bytes ++ [c], lastsent := c }

def sendescaped (o : Output) (c : UInt8) : Output := sendlast (xsendline o ZDLE) (c ^^^ 0x40)

def zsendline (e : Escaping) (o : Output) (c : UInt8) : Output :=
  match zsendlineTab e c with
  | .plain => sendlast o c
  | .escape => sendescaped o c
  | .afterAt => if o.lastsent &&& 0x7f ≠ 64 then sendlast o c else sendescaped o c

/-- `fwrite` of a stretch, and its last byte in `lastsent`. -/
def sendrun (o : Output) (run : QByteArray) : Output :=
  { bytes := o.bytes ++ run, lastsent := run.getLastD o.lastsent }

/-- `zsendline_s`, which writes stretches without anything to escape at once. -/
def zsendlineS (e : Escaping) (o : Output) (s : QByteArray) : Output :=
  let run := s.takeWhile fun c => zsendlineTab e c == .plain
  match _ : s.dropWhile fun c => zsendlineTab e c == .plain with
  | [] => sendrun o run
  | c :: rest => zsendlineS e (zsendline e (sendrun o run) c) rest
termination_by s.length
decreasing_by
  rename_i behind
  have shorter := (List.dropWhile_suffix (l := s) fun c => zsendlineTab e c == .plain).length_le
  rw [behind, List.length_cons] at shorter
  exact shorter

/-! ## Receiving -/

/-- What `zdlread` returns: a byte, or one of the codes beyond a byte. -/
inductive Reading where
  | byte (c : UInt8)
  /-- `GOTCRCE`, `GOTCRCG`, `GOTCRCQ` or `GOTCRCW`. -/
  | frameEnd (c : UInt8)
  | can
  | error
  | timeout
deriving DecidableEq, Repr

/-- Behind `ZDLE`, with the number of `CAN`s that are still skipped. -/
def zdlread2 (ctlesc : Bool) : Nat → QByteArray → Reading × QByteArray
  | _, [] => (.timeout, [])
  | cans, c :: line =>
    if c = CAN then
      match cans with
      | 0 => (.can, line)
      | cans + 1 => zdlread2 ctlesc cans line
    else if c = ZCRCE ∨ c = ZCRCG ∨ c = ZCRCQ ∨ c = ZCRCW then (.frameEnd c, line)
    else if c = ZRUB0 then (.byte 0x7f, line)
    else if c = ZRUB1 then (.byte 0xff, line)
    else if isFlow c || ctlesc && isControl c then zdlread2 ctlesc 3 line
    else if c &&& 0x60 = 0x40 then (.byte (c ^^^ 0x40), line)
    else (.error, line)

def zdlread (ctlesc : Bool) : QByteArray → Reading × QByteArray
  | [] => (.timeout, [])
  | c :: line =>
    if !isControl c then (.byte c, line)
    else if c = ZDLE then zdlread2 ctlesc 3 line
    else if isFlow c || ctlesc then zdlread ctlesc line
    else (.byte c, line)

variable (e : Escaping) (ctlesc : Bool) (o : Output) (c : UInt8)

theorem zdlread2_suffix (cans : Nat) (line : QByteArray) : (zdlread2 ctlesc cans line).2 <:+ line.tail := by
  fun_induction zdlread2 ctlesc cans line with
  | case1 | case2 | case4 | case5 | case6 | case8 | case9 => exact List.suffix_rfl
  | case3 _ _ ih => exact ih.trans (List.tail_suffix _)
  | case7 _ _ _ _ _ _ _ _ ih => exact ih.trans (List.tail_suffix _)

theorem zdlread_suffix (line : QByteArray) : (zdlread ctlesc line).2 <:+ line.tail := by
  fun_induction zdlread ctlesc line with
  | case1 | case2 | case5 => exact List.suffix_rfl
  | case3 => exact (zdlread2_suffix ctlesc 3 _).trans (List.tail_suffix _)
  | case4 _ _ _ _ _ ih => exact ih.trans (List.tail_suffix _)

/-! ## One byte -/

theorem forall_byte {P : UInt8 → Prop} (check : ∀ i : Fin 256, P (UInt8.ofFin i)) (c : UInt8) : P c :=
  check c.toFin

/-- A piece of line from which a byte is read. -/
def Carries (read : QByteArray → Reading × QByteArray) (code : QByteArray) (c : UInt8) : Prop :=
  ∀ line, read (code ++ line) = (.byte c, line)

theorem carries_escaped (control : isControl c = true) : Carries (zdlread ctlesc) [ZDLE, c ^^^ 0x40] c := by
  have facts : ∀ c, isControl c = true → c ^^^ 0x40 ≠ CAN ∧
      ¬ (c ^^^ 0x40 = ZCRCE ∨ c ^^^ 0x40 = ZCRCG ∨ c ^^^ 0x40 = ZCRCQ ∨ c ^^^ 0x40 = ZCRCW) ∧
      c ^^^ 0x40 ≠ ZRUB0 ∧ c ^^^ 0x40 ≠ ZRUB1 ∧ isFlow (c ^^^ 0x40) = false ∧ isControl (c ^^^ 0x40) = false ∧
      (c ^^^ 0x40) &&& 0x60 = 0x40 ∧ c ^^^ 0x40 ^^^ 0x40 = c := forall_byte (by decide +kernel)
  obtain ⟨noCan, noEnd, noRub0, noRub1, noFlow, noControl, shifted, back⟩ := facts c control
  intro line
  have head : zdlread ctlesc (ZDLE :: (c ^^^ 0x40) :: line) = zdlread2 ctlesc 3 ((c ^^^ 0x40) :: line) := rfl
  rw [List.cons_append, List.cons_append, List.nil_append, head, zdlread2, if_neg noCan, if_neg noEnd, if_neg noRub0,
    if_neg noRub1, noFlow, noControl, if_neg (by simp), if_pos shifted, back]

theorem carries_plain (clean : isControl c = false ∨ (c ≠ ZDLE ∧ isFlow c = false ∧ ctlesc = false)) :
    Carries (zdlread ctlesc) [c] c := by
  intro line
  rw [List.singleton_append, zdlread]
  rcases clean with printable | ⟨noEscape, noFlow, off⟩
  · rw [printable, if_pos (by rfl)]
  · by_cases control : isControl c = true
    · rw [control, if_neg (by simp), if_neg noEscape, noFlow, off, if_neg (by simp)]
    · rw [if_pos (by simpa using control)]

/-- Every control character is escaped: `turbo_escape` makes an exception of `^P`. -/
def Escaping.Full (e : Escaping) : Prop := e.ctlesc = true ∧ e.turbo = false
deriving Decidable

theorem zsendlineTab_cases :
    (zsendlineTab e c = .escape ∧ isControl c = true) ∨
      (zsendlineTab e c = .afterAt ∧ isControl c = true ∧ c ≠ ZDLE ∧ isFlow c = false ∧ ¬ e.Full) ∨
      (zsendlineTab e c = .plain ∧ (isControl c = false ∨ (c ≠ ZDLE ∧ isFlow c = false ∧ ¬ e.Full))) := by
  revert c
  obtain ⟨ctlesc, turbo⟩ := e
  apply forall_byte
  cases ctlesc <;> cases turbo <;> decide +kernel

theorem zsendline_cases :
    (zsendline e o c = sendescaped o c ∧ isControl c = true) ∨ (zsendline e o c = sendlast o c ∧
        (isControl c = false ∨ (c ≠ ZDLE ∧ isFlow c = false ∧ ¬ e.Full))) := by
  rcases zsendlineTab_cases e c with ⟨entry, control⟩ | ⟨entry, control, clean⟩ | ⟨entry, clean⟩
  · exact .inl ⟨by rw [zsendline, entry], control⟩
  · by_cases at_sign : o.lastsent &&& 0x7f ≠ 64
    · refine .inr ⟨?_, .inr clean⟩
      rw [zsendline, entry]
      exact if_pos at_sign
    · refine .inl ⟨?_, control⟩
      rw [zsendline, entry]
      exact if_neg at_sign
  · exact .inr ⟨by rw [zsendline, entry], clean⟩

/-! ## Many bytes -/

/-- A piece of line from which bytes are read one after the other. -/
inductive Encodes (read : QByteArray → Reading × QByteArray) : QByteArray → QByteArray → Prop where
  | nil : Encodes read [] []
  | cons {code : QByteArray} {c : UInt8} {codes bytes : QByteArray} :
      Carries read code c → Encodes read codes bytes → Encodes read (code ++ codes) (c :: bytes)

/-- A receiver that drops control characters needs a sender that escapes them. -/
theorem zsendline_carries (agreed : ctlesc = true → e.Full) (o : Output) (c : UInt8) :
    ∃ code, (zsendline e o c).bytes = o.bytes ++ code ∧ Carries (zdlread ctlesc) code c := by
  rcases zsendline_cases e o c with ⟨sent, control⟩ | ⟨sent, clean⟩
  · refine ⟨[ZDLE, c ^^^ 0x40], ?_, carries_escaped ctlesc c control⟩
    rw [sent, sendescaped, sendlast, xsendline, List.append_assoc]
    rfl
  · refine ⟨[c], by rw [sent, sendlast], carries_plain ctlesc c ?_⟩
    refine clean.imp_right fun ⟨noEscape, noFlow, partly⟩ => ⟨noEscape, noFlow, ?_⟩
    by_contra on
    exact partly (agreed (by simpa using on))

theorem zsendlines_encodes (agreed : ctlesc = true → e.Full) (o : Output) (bytes : QByteArray) :
    ∃ code, (bytes.foldl (zsendline e) o).bytes = o.bytes ++ code ∧ Encodes (zdlread ctlesc) code bytes := by
  induction bytes generalizing o with
  | nil => exact ⟨[], by simp, .nil⟩
  | cons c bytes ih =>
    obtain ⟨code, first, carries⟩ := zsendline_carries e ctlesc agreed o c
    obtain ⟨codes, rest, encodes⟩ := ih (zsendline e o c)
    refine ⟨code ++ codes, ?_, .cons carries encodes⟩
    rw [List.foldl_cons, rest, first, List.append_assoc]

/-! ## Stretches -/

theorem foldl_zsendline_plain (run : QByteArray) (plain : ∀ c ∈ run, zsendlineTab e c = .plain) :
    run.foldl (zsendline e) o = sendrun o run := by
  induction run generalizing o with
  | nil => simp [sendrun]
  | cons c run ih =>
    have first : zsendline e o c = sendlast o c := by rw [zsendline, plain c List.mem_cons_self]
    rw [List.foldl_cons, first, ih _ fun other member => plain other (List.mem_cons_of_mem c member), sendrun, sendrun,
      sendlast, List.getLastD_cons, List.append_assoc, List.singleton_append]

theorem zsendlineS_eq (s : QByteArray) : zsendlineS e o s = s.foldl (zsendline e) o := by
  fun_induction zsendlineS e o s with
  | case1 o s run behind =>
    have whole := List.takeWhile_append_dropWhile (p := fun c => zsendlineTab e c == .plain) (l := s)
    rw [behind, List.append_nil] at whole
    have plain : ∀ c ∈ run, zsendlineTab e c = .plain := fun c member => by simpa using List.mem_takeWhile_imp member
    calc
      sendrun o run = run.foldl (zsendline e) o := (foldl_zsendline_plain e o run plain).symm
      _ = s.foldl (zsendline e) o := by rw [show run = s from whole]
  | case2 o s run c rest behind ih =>
    have whole := List.takeWhile_append_dropWhile (p := fun c => zsendlineTab e c == .plain) (l := s)
    rw [behind] at whole
    have plain : ∀ c ∈ run, zsendlineTab e c = .plain := fun c member => by simpa using List.mem_takeWhile_imp member
    rw [ih, ← whole, List.foldl_append, List.foldl_cons]
    exact congrArg (fun o => rest.foldl (zsendline e) (zsendline e o c)) (foldl_zsendline_plain e o run plain).symm

/-! ## Transparency -/

/-- Nothing in the piece stops the line, nothing is lost on a line without control characters if all of them are
escaped, and nothing behind `ZDLE` is the end of a subpacket or another `ZDLE`. -/
structure Quiet (e : Escaping) (code : QByteArray) : Prop where
  noFlow : ∀ c ∈ code, isFlow c = false
  noControl : e.Full → ∀ c ∈ code, isControl c = true → c = ZDLE
  shifted : ∀ front back, code = front ++ ZDLE :: back → ∃ c rest, back = c :: rest ∧ c &&& 0x60 = 0x40

theorem Quiet.nil : Quiet e [] where
  noFlow := by simp
  noControl := by simp
  shifted front back split := by simp at split

theorem Quiet.append {e : Escaping} {code code' : QByteArray} (first : Quiet e code) (second : Quiet e code') :
    Quiet e (code ++ code') where
  noFlow c member := (List.mem_append.mp member).elim (first.noFlow c) (second.noFlow c)
  noControl full c member := (List.mem_append.mp member).elim (first.noControl full c) (second.noControl full c)
  shifted front back split := by
    rcases List.append_eq_append_iff.mp split with ⟨middle, before, after⟩ | ⟨middle, before, after⟩
    · exact second.shifted middle back after
    · cases middle with
      | nil => exact second.shifted [] back after.symm
      | cons head middle =>
        obtain ⟨rfl, rfl⟩ := List.cons.inj after
        obtain ⟨c, rest, behind, shifted⟩ := first.shifted front middle before
        exact ⟨c, rest ++ code', by rw [behind]; rfl, shifted⟩

theorem quiet_escaped (control : isControl c = true) : Quiet e [ZDLE, c ^^^ 0x40] := by
  have facts : ∀ c, isControl c = true → isFlow (c ^^^ 0x40) = false ∧ isControl (c ^^^ 0x40) = false ∧
      c ^^^ 0x40 ≠ ZDLE ∧ (c ^^^ 0x40) &&& 0x60 = 0x40 := forall_byte (by decide +kernel)
  obtain ⟨noFlow, noControl, noEscape, shifted⟩ := facts c control
  constructor
  · intro b member
    rcases List.mem_pair.mp member with rfl | rfl
    · rfl
    · exact noFlow
  · intro _ b member control
    rcases List.mem_pair.mp member with rfl | rfl
    · rfl
    · rw [noControl] at control
      cases control
  · intro front back split
    cases front with
    | nil =>
      obtain ⟨_, rfl⟩ := List.cons.inj split
      exact ⟨_, [], rfl, shifted⟩
    | cons head front =>
      have member : ZDLE ∈ [c ^^^ 0x40] := (List.cons.inj split).2 ▸ List.mem_append_right front List.mem_cons_self
      exact absurd (List.mem_singleton.mp member).symm noEscape

theorem quiet_plain (clean : isControl c = false ∨ (c ≠ ZDLE ∧ isFlow c = false ∧ ¬ e.Full)) : Quiet e [c] := by
  have facts : ∀ c, isControl c = false → isFlow c = false ∧ c ≠ ZDLE := forall_byte (by decide +kernel)
  have ordinary : isFlow c = false ∧ c ≠ ZDLE :=
    clean.elim (facts c) fun ⟨noEscape, noFlow, _⟩ => ⟨noFlow, noEscape⟩
  constructor
  · intro b member
    rw [List.mem_singleton.mp member]
    exact ordinary.1
  · intro full b member control
    rw [List.mem_singleton.mp member] at control
    rcases clean with printable | ⟨_, _, partly⟩
    · rw [printable] at control
      cases control
    · exact absurd full partly
  · intro front back split
    have member : ZDLE ∈ [c] := split ▸ List.mem_append_right front List.mem_cons_self
    exact absurd (List.mem_singleton.mp member).symm ordinary.2

theorem zsendline_quiet (before : Quiet e o.bytes) : Quiet e (zsendline e o c).bytes := by
  rcases zsendline_cases e o c with ⟨sent, control⟩ | ⟨sent, clean⟩
  · rw [sent, sendescaped, sendlast, xsendline, List.append_assoc]
    exact before.append (quiet_escaped e c control)
  · rw [sent, sendlast]
    exact before.append (quiet_plain e c clean)

/-- Any bytes can be sent: what is written keeps clear of flow control and of the ends of subpackets, and it is read
back unless the receiver drops control characters that the sender does not escape. -/
theorem zsendlineS_transparent (e : Escaping) (ctlesc : Bool) (agreed : ctlesc = true → e.Full) (lastsent : UInt8)
    (s : QByteArray) :
    Quiet e (zsendlineS e { lastsent } s).bytes ∧ Encodes (zdlread ctlesc) (zsendlineS e { lastsent } s).bytes s := by
  rw [zsendlineS_eq]
  constructor
  · exact List.foldlRecOn s (zsendline e) (Quiet.nil e) fun o quiet c _ => zsendline_quiet e o c quiet
  · obtain ⟨code, sent, encodes⟩ := zsendlines_encodes e ctlesc agreed { lastsent } s
    rw [sent]
    exact encodes

theorem zsendlineS_transparent_controls :
    Quiet ⟨true, false⟩ (zsendlineS ⟨true, false⟩ {} [64, 13, 24, 17, 255]).bytes ∧
      Encodes (zdlread true) (zsendlineS ⟨true, false⟩ {} [64, 13, 24, 17, 255]).bytes [64, 13, 24, 17, 255] :=
  zsendlineS_transparent ⟨true, false⟩ true (fun _ => by decide) 0 _

end Woterm.Zmodem.Line
