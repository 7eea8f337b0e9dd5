import DevConsole.Text.Fold

/-!
# Folded bytes

To fold the bytes of a text is to fold its characters (`foldBytes_eq`): a capital is one byte, and no
byte of a character outside of ASCII is that of a capital. UTF-8 keeps beginnings, so texts compare
as names by their folded bytes.
-/

namespace DevConsole.Text

theorem bytes_eq_data (s : String) : bytes s = s.toUTF8.data.toList := by
  rw [String.toUTF8, ← String.utf8Encode_toList, List.utf8Encode, List.toList_data_toByteArray]
  rfl

theorem bytes_inj {a b : String} : bytes a = bytes b ↔ a = b := by
  rw [bytes_eq_data, bytes_eq_data, Array.toList_inj, ← ByteArray.ext_iff, String.toUTF8,
    String.toUTF8, String.toByteArray_inj]

/-- A text begins another one exactly if its bytes do. -/
theorem bytes_isPrefix_iff {a b : String} : bytes a <+: bytes b ↔ a.toList <+: b.toList := by
  constructor
  · rintro ⟨bs, h⟩
    refine List.isPrefix_of_utf8Encode_append_eq_utf8Encode bs.toByteArray ?_
    rw [List.utf8Encode, List.utf8Encode, ← List.toByteArray_append]
    exact congrArg List.toByteArray h
  · rintro ⟨cs, h⟩
    refine ⟨cs.flatMap String.utf8EncodeChar, ?_⟩
    rw [bytes, bytes, ← h, List.flatMap_append]

theorem foldByte_of_ge {b : UInt8} (h : 128 ≤ b) : foldByte b = b := by
  refine if_neg fun hcapital => ?_
  obtain ⟨-, hle⟩ := (Bool.and_eq_true _ _).mp hcapital
  exact absurd (UInt8.le_trans h (of_decide_eq_true hle)) (by decide)

theorem toNat_toLower (c : Char) : c.toLower.val.toNat =
    if 65 ≤ c.val.toNat ∧ c.val.toNat ≤ 90 then c.val.toNat + 32 else c.val.toNat := by
  have hcapital : ('A'.val ≤ c.val ∧ c.val ≤ 'Z'.val) ↔ 65 ≤ c.val.toNat ∧ c.val.toNat ≤ 90 := by
    rw [UInt32.le_iff_toNat_le, UInt32.le_iff_toNat_le]
    rfl
  unfold Char.toLower
  by_cases h : 'A'.val ≤ c.val ∧ c.val ≤ 'Z'.val
  · have hle := (hcapital.mp h).2
    rw [dif_pos h, if_pos (hcapital.mp h)]
    show (c.val + 32).toNat = _
    rw [UInt32.toNat_add, show (32 : UInt32).toNat = 32 from rfl]
    omega
  · rw [dif_neg h, if_neg (mt hcapital.mpr h)]

/-- Letter case plays no role for the characters before the letters. -/
theorem toLower_eq_iff {c d : Char} (hd : d.val.toNat < 65) : c.toLower = d ↔ c = d := by
  have hval := toNat_toLower c
  constructor
  · rintro rfl
    rw [if_neg (by split at hval <;> omega)] at hval
    exact Char.ext (UInt32.toNat_inj.mp hval.symm)
  · rintro rfl
    rw [if_neg (by omega)] at hval
    exact Char.ext (UInt32.toNat_inj.mp hval)

theorem foldByte_ofNat : ∀ v < 128, foldByte (UInt8.ofNat v) =
    UInt8.ofNat (if 65 ≤ v ∧ v ≤ 90 then v + 32 else v) := by decide +kernel

theorem utf8EncodeChar_of_lt {c : Char} (h : c.val.toNat < 128) :
    String.utf8EncodeChar c = [UInt8.ofNat c.val.toNat] :=
  if_pos (Nat.le_of_lt_succ h)

theorem le_of_mem_utf8EncodeChar {c : Char} (h : 128 ≤ c.val.toNat) :
    ∀ b ∈ String.utf8EncodeChar c, 128 ≤ b := by
  have hbyte : ∀ v : Nat, 128 ≤ v → v < 256 → 128 ≤ UInt8.ofNat v := by
    intro v hv hlt
    rw [UInt8.le_iff_toNat_le, UInt8.toNat_ofNat_of_lt' hlt]
    exact hv
  intro b hb
  unfold String.utf8EncodeChar at hb
  dsimp only at hb
  rw [if_neg (by omega)] at hb
  split at hb
  · simp only [List.mem_cons, List.not_mem_nil, or_false] at hb
    rcases hb with rfl | rfl <;> exact hbyte _ (by omega) (by omega)
  · split at hb
    · simp only [List.mem_cons, List.not_mem_nil, or_false] at hb
      rcases hb with rfl | rfl | rfl <;> exact hbyte _ (by omega) (by omega)
    · simp only [List.mem_cons, List.not_mem_nil, or_false] at hb
      rcases hb with rfl | rfl | rfl | rfl <;> exact hbyte _ (by omega) (by omega)

theorem map_foldByte_utf8EncodeChar (c : Char) :
    (String.utf8EncodeChar c).map foldByte = String.utf8EncodeChar c.toLower := by
  have hlower := toNat_toLower c
  by_cases hc : c.val.toNat < 128
  · rw [utf8EncodeChar_of_lt hc, utf8EncodeChar_of_lt (by split at hlower <;> omega), hlower,
      List.map_singleton, foldByte_ofNat _ hc]
  · rw [if_neg (by omega)] at hlower
    rw [Char.ext (UInt32.toNat_inj.mp hlower)]
    exact (List.map_congr_left fun b hb => foldByte_of_ge
      (le_of_mem_utf8EncodeChar (Nat.le_of_not_lt hc) b hb)).trans (List.map_id _)

/-- **The folded bytes are the bytes of the folded text.** -/
theorem foldBytes_eq (s : String) : foldBytes s = bytes (fold s) := by
  rw [foldBytes, bytes, bytes, fold, String.toList_ofList, foldChars, List.map_flatMap,
    List.flatMap_map]
  exact congrArg (s.toList.flatMap ·) (funext map_foldByte_utf8EncodeChar)

/-- The first text comes before the second in the order of the bytes of the folded texts. -/
def Before (a b : String) : Prop := bytes (fold a) < bytes (fold b)

theorem before_iff {a b : String} : Before a b ↔ foldBytes a < foldBytes b := by
  rw [foldBytes_eq, foldBytes_eq, Before]

theorem foldBytes_isPrefix_iff {a b : String} :
    foldBytes a <+: foldBytes b ↔ startsName a b = true := by
  rw [foldBytes_eq, foldBytes_eq, bytes_isPrefix_iff, startsName, List.isPrefixOf_iff_prefix, fold,
    fold, String.toList_ofList, String.toList_ofList]

theorem fold_eq_iff {a b : String} : fold a = fold b ↔ sameName a b = true := by
  rw [fold, fold, String.ofList_inj, sameName_iff]

theorem foldBytes_eq_iff {a b : String} : foldBytes a = foldBytes b ↔ sameName a b = true := by
  rw [foldBytes_eq, foldBytes_eq, bytes_inj, fold_eq_iff]

theorem Before.sameName_eq_false {a b : String} (h : Before a b) : sameName a b = false := by
  refine Bool.eq_false_iff.mpr fun hsame => ?_
  rw [Before, fold_eq_iff.mpr hsame] at h
  exact List.lt_irrefl _ h

end DevConsole.Text
