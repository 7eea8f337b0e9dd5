import DevConsole.Name
import DevConsole.Proofs.Text.Folded
import Mathlib.Order.Basic
import Mathlib.Data.String.Basic

/-!
# The order of bytes

UTF-8 keeps the order of texts (`bytes_lt_iff`): of two characters the greater one has a greater byte
at the first place where they differ. So the names of a listing are in the order of the bytes of the
folded names, and the spellings of one name in the order of their own bytes (`nameBefore_iff`).
-/

namespace DevConsole

namespace Text

/-- The first byte in which two characters differ decides, whatever follows them. -/
theorem utf8EncodeChar_append_lt {c d : Char} (h : c < d) (as bs : List UInt8) :
    String.utf8EncodeChar c ++ as < String.utf8EncodeChar d ++ bs := by
  have hlt : c.val.toNat < d.val.toNat := UInt32.lt_iff_toNat_lt.mp (Char.lt_def.mp h)
  have hvalid : d.val.toNat < 0x110000 := by
    have := d.valid
    unfold UInt32.isValidChar Nat.isValidChar at this
    omega
  have hdigits : ∀ n : ℕ,
      n = n / 262144 * 262144 + n / 4096 % 64 * 4096 + n / 64 % 64 * 64 + n % 64 := by omega
  have hc := hdigits c.val.toNat
  have hd := hdigits d.val.toNat
  unfold String.utf8EncodeChar
  dsimp only
  split_ifs <;>
    simp (disch := omega) only [List.cons_append, List.nil_append, List.cons_lt_cons_iff,
      UInt8.lt_iff_toNat_lt, ← UInt8.toNat_inj, UInt8.toNat_ofNat', Nat.mod_eq_of_lt] <;>
    omega

theorem flatMap_utf8EncodeChar_lt : ∀ {cs ds : List Char}, cs < ds →
    cs.flatMap String.utf8EncodeChar < ds.flatMap String.utf8EncodeChar
  | _, [], h => absurd h (List.not_lt_nil _)
  | [], d :: ds, _ => by
    obtain ⟨b, bs, hd⟩ := List.exists_cons_of_ne_nil (l := String.utf8EncodeChar d) (by simp)
    rw [List.flatMap_nil, List.flatMap_cons, hd, List.cons_append]
    exact List.nil_lt_cons _ _
  | c :: cs, d :: ds, h => by
    rw [List.flatMap_cons, List.flatMap_cons]
    rcases List.cons_lt_cons_iff.mp h with hlt | ⟨rfl, hlt⟩
    · exact utf8EncodeChar_append_lt hlt _ _
    · exact List.append_left_lt (flatMap_utf8EncodeChar_lt hlt)

/-- **Texts are in the order of their bytes.** -/
theorem bytes_lt_iff {a b : String} : bytes a < bytes b ↔ a < b := by
  have hmono : ∀ {a b : String}, a < b → bytes a < bytes b :=
    fun h => flatMap_utf8EncodeChar_lt (String.lt_iff.mp h)
  refine ⟨fun h => ?_, hmono⟩
  rcases lt_trichotomy a b with hlt | rfl | hgt
  · exact hlt
  · exact absurd h (List.lt_irrefl _)
  · exact absurd (hmono hgt) (List.lt_asymm h)

end Text

/-! ### Names in listings -/

theorem nameBefore_iff {a b : String} : nameBefore a b = true ↔
    Text.Before a b ∨ (Text.sameName a b = true ∧ a ≤ b) := by
  rw [nameBefore, Text.Before, Text.bytes_lt_iff, ← Text.fold_eq_iff]
  simp

theorem nameBefore_trans (a b c : String) (hab : nameBefore a b = true) (hbc : nameBefore b c = true) :
    nameBefore a c = true := by
  rw [nameBefore_iff, Text.Before, Text.bytes_lt_iff, ← Text.fold_eq_iff] at *
  rcases hab with hab | ⟨hab, hle⟩ <;> rcases hbc with hbc | ⟨hbc, hle'⟩
  · exact .inl (hab.trans hbc)
  · exact .inl (hbc ▸ hab)
  · exact .inl (hab ▸ hbc)
  · exact .inr ⟨hab.trans hbc, hle.trans hle'⟩

theorem nameBefore_total (a b : String) : (nameBefore a b || nameBefore b a) = true := by
  rw [Bool.or_eq_true, nameBefore_iff, nameBefore_iff, Text.Before, Text.Before, Text.bytes_lt_iff,
    Text.bytes_lt_iff, ← Text.fold_eq_iff, ← Text.fold_eq_iff]
  rcases lt_trichotomy (Text.fold a) (Text.fold b) with hlt | heq | hgt
  · exact .inl (.inl hlt)
  · exact (le_total a b).imp (fun hle => .inr ⟨heq, hle⟩) fun hle => .inr ⟨heq.symm, hle⟩
  · exact .inr (.inl hgt)

theorem Text.Before.trans {a b c : String} (hab : Text.Before a b) (hbc : Text.Before b c) :
    Text.Before a c := List.lt_trans hab hbc

end DevConsole
