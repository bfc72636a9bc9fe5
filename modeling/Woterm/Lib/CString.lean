import Woterm.Lib.Text

/-! NUL-terminated strings: a byte list seen as C code sees it, up to its first NUL. -/

namespace Woterm.Lib.CString

/-- The bytes before the first NUL. -/
def cstr (bytes : List UInt8) : List UInt8 :=
  bytes.takeWhile (· ≠ 0)

def NulFree (bytes : List UInt8) : Prop := (0 : UInt8) ∉ bytes

instance (bytes : List UInt8) : Decidable (NulFree bytes) := by
  unfold NulFree
  infer_instance

def strlen (bytes : List UInt8) : Nat := (cstr bytes).length

variable (bytes : List UInt8)

theorem cstr_eq_self (clean : NulFree bytes) : cstr bytes = bytes := by
  unfold cstr
  rw [List.takeWhile_eq_self_iff]
  intro byte member
  have different : byte ≠ 0 := fun same => clean (same ▸ member)
  simpa using different

theorem cstr_before_nul (bytes after : List UInt8) : cstr (bytes ++ 0 :: after) = cstr bytes :=
  Text.takeWhile_append_stop bytes 0 after (by simp)

theorem cstr_append_nul (bytes after : List UInt8) (clean : NulFree bytes) : cstr (bytes ++ 0 :: after) = bytes := by
  rw [cstr_before_nul, cstr_eq_self bytes clean]

theorem cstr_nulFree : NulFree (cstr bytes) := by
  intro member
  have kept := List.mem_takeWhile_imp member
  simp at kept

theorem take_strlen : bytes.take (strlen bytes) = cstr bytes :=
  (List.prefix_iff_eq_take.mp (List.takeWhile_prefix _)).symm

theorem strlen_le_length : strlen bytes ≤ bytes.length :=
  (List.takeWhile_prefix _).length_le

theorem cstr_cstr : cstr (cstr bytes) = cstr bytes :=
  cstr_eq_self _ (cstr_nulFree bytes)

theorem strlen_eq_length (clean : NulFree bytes) : strlen bytes = bytes.length := by
  rw [strlen, cstr_eq_self bytes clean]

theorem cstr_append (front bytes : List UInt8) (clean : NulFree front) :
    cstr (front ++ bytes) = front ++ cstr bytes := by
  unfold cstr
  rw [List.takeWhile_append_of_pos]
  intro byte member
  have different : byte ≠ 0 := fun same => clean (same ▸ member)
  simpa using different

/-! ## Strings in one buffer -/

/-- Where the strings start that are written one after the other, each with a NUL behind it. -/
def offsets : Nat → List (List UInt8) → List Nat
  | _, [] => []
  | start, text :: texts => start :: offsets (start + text.length + 1) texts

theorem offsets_length (start : Nat) (texts : List (List UInt8)) : (offsets start texts).length = texts.length := by
  induction texts generalizing start with
  | nil => rfl
  | cons text texts ih => rw [offsets, List.length_cons, List.length_cons, ih]

theorem cstr_offset (texts : List (List UInt8)) (clean : ∀ text ∈ texts, NulFree text) (front after : List UInt8)
    (i : Nat) (text : List UInt8) (known : texts[i]? = some text) :
    ∃ start, (offsets front.length texts)[i]? = some start ∧
      cstr ((front ++ [0].intercalate texts ++ 0 :: after).drop start) = text := by
  induction texts generalizing front i with
  | nil => simp at known
  | cons first texts ih =>
    have solid := clean first List.mem_cons_self
    cases i with
    | zero =>
      obtain rfl := Option.some.inj known
      refine ⟨front.length, rfl, ?_⟩
      rw [List.append_assoc, List.drop_left]
      cases texts with
      | nil =>
        rw [List.intercalate_singleton]
        exact cstr_append_nul first after solid
      | cons second texts =>
        rw [List.intercalate_cons_cons, List.append_assoc, List.append_assoc]
        exact cstr_append_nul first _ solid
    | succ i =>
      cases texts with
      | nil => simp at known
      | cons second texts =>
        have length : (front ++ first ++ [0]).length = front.length + first.length + 1 := by simp [Nat.add_assoc]
        have others := fun other member => clean other (List.mem_cons_of_mem first member)
        have later := ih others (front ++ first ++ [0]) i
          known
        rw [length] at later
        obtain ⟨start, offset, found⟩ := later
        refine ⟨start, offset, ?_⟩
        rw [List.intercalate_cons_cons]
        simpa only [List.append_assoc] using found

end Woterm.Lib.CString
