import Woterm.Terminal.TextBytes
import Woterm.Terminal.Utf8Text

/-!
Bytes that are not UTF-8. Where no character starts, the parser holds bytes until its buffer is
full and drops them with the next one: groups of eight bytes, and the ASCII characters in them are
lost.
-/

namespace Woterm.Terminal.Malformed
open Woterm.Lib Woterm.Terminal.Data Woterm.Terminal.Vte Woterm.Terminal.Decoder
open Woterm.Terminal.Codes Woterm.Terminal.TextBytes Woterm.Terminal.Utf8Text

/-- No character starts with the first of the bytes. -/
def Startless (u : List uchar) : Prop := ∀ (c : Char) (back : List uchar), u ≠ String.utf8EncodeChar c ++ back

/-- Read from the left, every part of the bytes is a character, or eight bytes that start no
character and hold no printable one; the last part may be shorter. -/
inductive Spared : List uchar → Prop where
  | char (c : Char) {u : List uchar} : Spared u → Spared (String.utf8EncodeChar c ++ u)
  | group {g u : List uchar} : g.length = 8 → Startless g → (∀ b ∈ g, ¬ Printable b) → Spared u → Spared (g ++ u)
  | rest {g : List uchar} : g.length < 8 → Startless g → (∀ b ∈ g, ¬ Printable b) → Spared g

/-! ## The parts are determined -/

theorem startless_iff (u : List uchar) : Startless u ↔ utf8Scan u 0 0 = none := by
  rw [Option.eq_none_iff_forall_ne_some]
  refine ⟨?_, ?_⟩
  · intro startless code found
    obtain ⟨c, back, start, -⟩ := (utf8Scan_iff u code).mp found
    exact startless c back start
  · intro unfinished c back start
    exact unfinished c.val ((utf8Scan_iff u c.val).mpr ⟨c, back, start, rfl⟩)

theorem Startless.front {g u : List uchar} (startless : Startless (g ++ u)) : Startless g :=
  fun c back same => startless c (back ++ u) (by rw [same, List.append_assoc])

/-- Eight bytes are enough to see a character. -/
theorem Startless.extend {g : List uchar} (startless : Startless g) (long : 4 ≤ g.length) (u : List uchar) :
    Startless (g ++ u) := by
  intro c back same
  have size : (String.utf8EncodeChar c).length ≤ g.length := by
    rw [String.length_utf8EncodeChar]
    exact le_trans (Char.utf8Size_le_four c) long
  have prefixed : g <+: String.utf8EncodeChar c ++ back := same ▸ List.prefix_append g u
  obtain ⟨rest, shape⟩ := List.prefix_of_prefix_length_le (List.prefix_append _ back) prefixed size
  exact startless c rest shape.symm

theorem spared_char (c : Char) (u : List uchar) : Spared (String.utf8EncodeChar c ++ u) ↔ Spared u := by
  refine ⟨?_, .char c⟩
  generalize whole : String.utf8EncodeChar c ++ u = w
  intro spared
  cases spared with
  | char d spared =>
    obtain ⟨-, rfl⟩ := Utf8.encodeChar_append_inj c d _ _ whole
    exact spared
  | group length startless _ _ =>
    exact absurd whole.symm (startless.extend (by omega) _ c u)
  | rest _ startless _ => exact absurd whole.symm (startless c u)

theorem spared_rest (g : List uchar) (short : g.length < 8) (startless : Startless g) :
    Spared g ↔ ∀ b ∈ g, ¬ Printable b := by
  refine ⟨?_, .rest short startless⟩
  intro spared
  cases spared with
  | char c spared => exact absurd rfl (startless c _)
  | group length _ _ _ =>
    rw [List.length_append] at short
    omega
  | rest _ _ unprintable => exact unprintable

theorem spared_group (g u : List uchar) (length : g.length = 8) (startless : Startless g) :
    Spared (g ++ u) ↔ (∀ b ∈ g, ¬ Printable b) ∧ Spared u := by
  refine ⟨?_, fun parts => .group length startless parts.1 parts.2⟩
  generalize whole : g ++ u = w
  intro spared
  cases spared with
  | char c spared => exact absurd whole (startless.extend (by omega) u c _)
  | group other _ unprintable spared =>
    obtain ⟨rfl, rfl⟩ := List.append_inj whole (length.trans other.symm)
    exact ⟨unprintable, spared⟩
  | rest short _ _ =>
    rw [← whole, List.length_append] at short
    omega

/-! ## What reaches the terminal -/

variable (frontend : Frontend)

/-- Every printable byte is put as it is when it arrives. -/
def Reaches (v : VTE) (u : List uchar) : Prop :=
  ∀ front c back, u = front ++ c :: back → Printable c →
    c.toUInt32 ∈ codes (process frontend (run frontend v front) c)

theorem reaches_nil (v : VTE) : Reaches frontend v [] := by
  intro front c back split
  simp at split

theorem reaches_cons (v : VTE) (c : uchar) (u : List uchar) :
    Reaches frontend v (c :: u) ↔
      (Printable c → c.toUInt32 ∈ codes (process frontend v c)) ∧ Reaches frontend (process frontend v c) u := by
  refine ⟨?_, ?_⟩
  · intro reaches
    refine ⟨reaches [] c u rfl, fun front d back split => ?_⟩
    exact reaches (c :: front) d back (by rw [split, List.cons_append])
  · rintro ⟨first, later⟩ front d back split
    cases front with
    | nil =>
      obtain ⟨rfl, rfl⟩ := List.cons.inj split
      exact first
    | cons before front =>
      obtain ⟨rfl, rest⟩ := List.cons.inj split
      exact later front d back rest

theorem reaches_append (v : VTE) (first second : List uchar) :
    Reaches frontend v (first ++ second) ↔
      Reaches frontend v first ∧ Reaches frontend (run frontend v first) second := by
  induction first generalizing v with
  | nil => exact ⟨fun reaches => ⟨reaches_nil frontend v, reaches⟩, fun reaches => reaches.2⟩
  | cons c first ih =>
    rw [List.cons_append, reaches_cons, reaches_cons, ih, and_assoc]
    rfl

theorem run_startless (front back : List uchar) (v : VTE) (startless : Startless (front ++ back))
    (short : (front ++ back).length ≤ 7) (clean : ∀ b ∈ back, isControl b = false) (holding : Holding front v) :
    Holding (front ++ back) (run frontend v back) ∧
      (Reaches frontend v back ↔ ∀ b ∈ back, ¬ Printable b) := by
  induction back generalizing front v with
  | nil =>
    rw [List.append_nil]
    exact ⟨holding, iff_of_true (reaches_nil frontend v) (by simp)⟩
  | cons b back ih =>
    obtain ⟨held, put⟩ := process_text frontend front b v holding (.inr (clean b List.mem_cons_self))
    rw [List.append_cons] at startless short ⊢
    have room : front.length ≠ 7 := by
      simp only [List.length_append, List.length_cons, List.length_nil] at short
      omega
    have unfinished : utf8Scan (front ++ [b]) 0 0 = none := (startless_iff _).mp startless.front
    unfold collect at held put
    rw [if_neg room, unfinished] at held put
    obtain ⟨final, later⟩ := ih (front ++ [b]) _ startless short
      (fun d member => clean d (List.mem_cons_of_mem b member)) held
    refine ⟨final, ?_⟩
    rw [reaches_cons, later, put, List.forall_mem_cons]
    simp

theorem run_group (g : List uchar) (v : VTE) (length : g.length = 8) (startless : Startless g)
    (clean : ∀ b ∈ g, isControl b = false) (holding : Holding [] v) :
    Holding [] (run frontend v g) ∧ (Reaches frontend v g ↔ ∀ b ∈ g, ¬ Printable b) := by
  obtain ⟨front, last, rfl⟩ : ∃ front last, g = front ++ [last] := by
    rcases List.eq_nil_or_concat' g with rfl | shape
    · cases length
    · exact shape
  have full : front.length = 7 := by
    rw [List.length_append, List.length_singleton] at length
    omega
  obtain ⟨held, first⟩ := run_startless frontend [] front v startless.front (le_of_eq full)
    (fun b member => clean b (List.mem_append_left _ member)) holding
  obtain ⟨dropped, put⟩ := process_text frontend front last _ held
    (.inr (clean last (by simp)))
  unfold collect at dropped put
  rw [if_pos full] at dropped put
  refine ⟨by rw [run_append]; exact dropped, ?_⟩
  rw [reaches_append, first, reaches_cons, put, List.forall_mem_append, List.forall_mem_singleton]
  simp [reaches_nil]

theorem shown_byte (b : uchar) :
    b.toUInt32 = shown frontend b.toUInt32 ↔ 1 ≤ frontend.getCharWidth b.toUInt32 := by
  unfold shown
  split_ifs with flat
  · refine iff_of_false ?_ (by omega)
    intro same
    have number := congrArg UInt32.toNat same
    have small := b.toNat_lt
    rw [UInt8.toNat_toUInt32] at number
    simp at number
    omega
  · exact iff_of_true rfl (by omega)

theorem visible_of_clean (c : Char) (clean : ∀ b ∈ String.utf8EncodeChar c, isControl b = false) :
    0x20 ≤ c.val.toNat := by
  by_contra small
  have ascii : c.toNat < 128 := lt_trans (Nat.not_le.mp small) (by decide)
  have control := clean c.toUInt8 (by rw [Utf8.encodeChar_ascii c ascii]; exact List.mem_singleton_self _)
  have number := Utf8.toNat_toUInt8 c ascii
  have value : c.val.toNat = c.toNat := rfl
  rw [isControl_eq_false_iff] at control
  omega

theorem reaches_char (c : Char) (v : VTE) (clean : ∀ b ∈ String.utf8EncodeChar c, isControl b = false)
    (holding : Holding [] v) :
    Holding [] (run frontend v (String.utf8EncodeChar c)) ∧
      (Reaches frontend v (String.utf8EncodeChar c) ↔
        ∀ b ∈ String.utf8EncodeChar c, Printable b → 1 ≤ frontend.getCharWidth b.toUInt32) := by
  obtain ⟨put, held⟩ := run_char frontend c (visible_of_clean c clean) v holding
  refine ⟨held, ?_⟩
  by_cases ascii : c.toNat < 128
  · have value : c.val = c.toUInt8.toUInt32 := by
      rw [← UInt32.toNat_inj, UInt8.toNat_toUInt32, Utf8.toNat_toUInt8 c ascii]
      rfl
    rw [Utf8.encodeChar_ascii c ascii, value, putCodes, putCodes, List.append_nil] at put
    rw [Utf8.encodeChar_ascii c ascii, reaches_cons, put, List.mem_singleton, shown_byte, List.forall_mem_singleton]
    exact and_iff_left (reaches_nil frontend _)
  · have high (b : uchar) (member : b ∈ String.utf8EncodeChar c) : ¬ Printable b := by
      intro printable
      have large := Utf8.encodeChar_high c (by omega) b member
      have small := UInt8.le_iff_toNat_le.mp printable.2
      exact absurd (le_trans large small) (by decide)
    refine iff_of_true ?_ fun b member printable => absurd printable (high b member)
    intro front b back split printable
    exact absurd printable (high b (by rw [split]; simp))

/-- A printable byte is put if and only if it is in a part that is a character, and has a width. -/
theorem reaches_spared (u : List uchar) (v : VTE) (clean : ∀ b ∈ u, isControl b = false) (holding : Holding [] v) :
    Reaches frontend v u ↔ Spared u ∧ ∀ b ∈ u, Printable b → 1 ≤ frontend.getCharWidth b.toUInt32 := by
  induction size : u.length using Nat.strong_induction_on generalizing u v with
  | h n ih =>
    subst size
    by_cases starts : ∃ (c : Char) (back : List uchar), u = String.utf8EncodeChar c ++ back
    · obtain ⟨c, back, rfl⟩ := starts
      obtain ⟨first, later⟩ := List.forall_mem_append.mp clean
      obtain ⟨held, put⟩ := reaches_char frontend c v first holding
      have shorter : back.length < (String.utf8EncodeChar c ++ back).length := by
        have positive := List.length_pos_iff.mpr (Utf8.encodeChar_ne_nil c)
        rw [List.length_append]
        omega
      rw [reaches_append, put, ih _ shorter back _ later held rfl, spared_char, List.forall_mem_append]
      tauto
    · have startless : Startless u := fun c back same => starts ⟨c, back, same⟩
      have wide (g : List uchar) (unprintable : ∀ b ∈ g, ¬ Printable b) :
          ∀ b ∈ g, Printable b → 1 ≤ frontend.getCharWidth b.toUInt32 :=
        fun b member printable => absurd printable (unprintable b member)
      by_cases short : u.length < 8
      · have room : ([] ++ u).length ≤ 7 := Nat.le_of_lt_succ short
        obtain ⟨-, reaches⟩ := run_startless frontend [] u v startless room clean holding
        rw [reaches, spared_rest u short startless]
        exact ⟨fun unprintable => ⟨unprintable, wide u unprintable⟩, fun given => given.1⟩
      · obtain ⟨g, rest, length, rfl⟩ : ∃ g rest : List uchar, g.length = 8 ∧ u = g ++ rest :=
          ⟨u.take 8, u.drop 8, by rw [List.length_take]; omega, (List.take_append_drop 8 u).symm⟩
        obtain ⟨first, later⟩ := List.forall_mem_append.mp clean
        obtain ⟨held, put⟩ := run_group frontend g v length startless.front first holding
        have shorter : rest.length < (g ++ rest).length := by
          rw [List.length_append]
          omega
        rw [reaches_append, put, ih _ shorter rest _ later held rfl, spared_group g rest length startless.front,
          List.forall_mem_append]
        have covered := wide g
        tauto

/-- Text with malformed UTF-8 in it loses no printable byte if and only if every group of bytes that
is dropped is free of them. -/
theorem reaches_iff (u : List uchar) (clean : ∀ c ∈ u, isControl c = false) (v : VTE) (ground : v.mode = .ground)
    (utf8 : v.flags .UTF8 = true) (empty : v.utf8Buffer.length = 0) :
    Reaches frontend v u ↔ Spared u ∧ ∀ c ∈ u, Printable c → 1 ≤ frontend.getCharWidth c.toUInt32 :=
  reaches_spared frontend u v clean ⟨ground, utf8, List.length_eq_zero_iff.mp empty⟩

/-- After a byte that starts no character, an `a` is lost. -/
theorem stray_swallows : ¬ Reaches CmdSpy.frontend CmdSpy.fresh.vte [0xff, byte 'a'] := by
  intro reaches
  have put := reaches [0xff] (byte 'a') [] rfl ⟨by decide, by decide⟩
  exact absurd put (by decide +kernel)

/-- Eight such bytes are dropped together, and the `a` behind them is put. -/
theorem reaches_iff_group : Reaches CmdSpy.frontend CmdSpy.fresh.vte (List.replicate 8 0xff ++ [byte 'a']) := by
  have startless : Startless (List.replicate 8 0xff) := (startless_iff _).mpr (by decide)
  have nothing : Spared [] := .rest (by decide) ((startless_iff _).mpr rfl) (by simp)
  refine (reaches_iff CmdSpy.frontend _ (by decide) CmdSpy.fresh.vte (by decide) (by decide) (by decide)).mpr ⟨?_, ?_⟩
  · exact .group (by decide) startless (by decide) (.char 'a' nothing)
  · exact fun c _ _ => le_refl 1

end Woterm.Terminal.Malformed
