import DevConsole.Proofs.Number.Written
import DevConsole.Proofs.Text.Folded
import DevConsole.Text.Bytes

/-!
# The bytes of a number

Numbers are read from the bytes of a text. A character of a number is one byte, and no byte of a
character outside of ASCII is that of one inside (`exists_utf8EncodeChar_eq_cons`). So at the end of a
beginning of the text the next byte tells the next character (`getElem?_utf8`), and the digits that
follow are as many bytes as characters (`takeWhile_utf8`).
-/

namespace DevConsole

namespace Text

/-- The bytes of the UTF-8 form. -/
def utf8 (cs : List Char) : List UInt8 := cs.flatMap String.utf8EncodeChar

/-- The byte of a character of ASCII. -/
def byteOf (c : Char) : UInt8 := UInt8.ofNat c.val.toNat

@[simp] theorem utf8_nil : utf8 [] = [] := rfl

@[simp] theorem utf8_append (as bs : List Char) : utf8 (as ++ bs) = utf8 as ++ utf8 bs :=
  List.flatMap_append

theorem utf8_cons (c : Char) (cs : List Char) : utf8 (c :: cs) = String.utf8EncodeChar c ++ utf8 cs :=
  rfl

theorem length_utf8 (cs : List Char) : (utf8 cs).length = byteLength cs := by
  induction cs with
  | nil => rfl
  | cons c cs ih => rw [utf8_cons, List.length_append, ih, String.length_utf8EncodeChar, byteLength]

/-- The first byte tells a character of ASCII from all others. -/
theorem exists_utf8EncodeChar_eq_cons (c : Char) : ∃ b bs, String.utf8EncodeChar c = b :: bs ∧
    (c.val.toNat < 128 → b = byteOf c ∧ bs = []) ∧ (128 ≤ c.val.toNat → 128 ≤ b) := by
  obtain ⟨b, bs, hcons⟩ := List.exists_cons_of_ne_nil (l := String.utf8EncodeChar c) (by simp)
  refine ⟨b, bs, hcons, fun hlt => ?_, fun hle => ?_⟩
  · rw [utf8EncodeChar_of_lt hlt] at hcons
    obtain ⟨rfl, rfl⟩ := List.cons.inj hcons
    exact ⟨rfl, rfl⟩
  · exact le_of_mem_utf8EncodeChar hle b (hcons ▸ List.mem_cons_self)

theorem toNat_byteOf {c : Char} (h : c.val.toNat < 128) : (byteOf c).toNat = c.val.toNat :=
  UInt8.toNat_ofNat_of_lt' (by rw [show UInt8.size = 256 from rfl]; omega)

theorem byteOf_inj {c d : Char} (hc : c.val.toNat < 128) (hd : d.val.toNat < 128) :
    byteOf c = byteOf d ↔ c = d := by
  rw [← UInt8.toNat_inj, toNat_byteOf hc, toNat_byteOf hd, UInt32.toNat_inj]
  exact ⟨Char.ext, fun h => congrArg _ h⟩

theorem head?_utf8 {c : Char} (hc : c.val.toNat < 128) (cs : List Char) :
    (utf8 cs).head? = some (byteOf c) ↔ cs.head? = some c := by
  cases cs with
  | nil => simp
  | cons d cs =>
    obtain ⟨b, bs, hcons, hlt, hle⟩ := exists_utf8EncodeChar_eq_cons d
    rw [utf8_cons, hcons, List.cons_append, List.head?_cons, List.head?_cons, Option.some_inj,
      Option.some_inj]
    by_cases hd : d.val.toNat < 128
    · rw [(hlt hd).1, byteOf_inj hd hc]
    · refine iff_of_false (fun hb => ?_) fun hdc => hd (hdc ▸ hc)
      have hge := UInt8.le_iff_toNat_le.mp (hle (Nat.le_of_not_lt hd))
      rw [hb, toNat_byteOf hc] at hge
      exact absurd hge (Nat.not_le.mpr hc)

/-- **The byte at the end of a beginning tells the character there**, if it is one of ASCII. -/
theorem getElem?_utf8 {c : Char} (hc : c.val.toNat < 128) (as bs : List Char) :
    (utf8 (as ++ bs))[byteLength as]? = some (byteOf c) ↔ bs.head? = some c := by
  rw [utf8_append, ← length_utf8, List.getElem?_append_right (Nat.le_refl _), Nat.sub_self,
    ← List.head?_eq_getElem?, head?_utf8 hc]

end Text

namespace Number

open Text

/-- The byte is that of a digit. -/
def isDigitByte (b : UInt8) : Bool := 48 ≤ b && b ≤ 57

theorem isDigit_iff {c : Char} : isDigit c = true ↔ 48 ≤ c.val.toNat ∧ c.val.toNat ≤ 57 := by
  rw [isDigit, Bool.and_eq_true, decide_eq_true_iff, decide_eq_true_iff, Char.le_def, Char.le_def,
    UInt32.le_iff_toNat_le, UInt32.le_iff_toNat_le]
  rfl

theorem isDigitByte_iff {b : UInt8} : isDigitByte b = true ↔ 48 ≤ b.toNat ∧ b.toNat ≤ 57 := by
  rw [isDigitByte, Bool.and_eq_true, decide_eq_true_iff, decide_eq_true_iff, UInt8.le_iff_toNat_le,
    UInt8.le_iff_toNat_le]
  rfl

theorem lt_of_isDigit {c : Char} (h : isDigit c = true) : c.val.toNat < 128 := by
  have := isDigit_iff.mp h
  omega

theorem utf8_digit {c : Char} (h : isDigit c = true) : String.utf8EncodeChar c = [byteOf c] :=
  utf8EncodeChar_of_lt (lt_of_isDigit h)

theorem isDigitByte_byteOf {c : Char} (h : isDigit c = true) : isDigitByte (byteOf c) = true := by
  rw [isDigitByte_iff, toNat_byteOf (lt_of_isDigit h), ← isDigit_iff]
  exact h

/-- **The run of digit bytes is the run of digits.** -/
theorem takeWhile_utf8 (cs : List Char) :
    (utf8 cs).takeWhile isDigitByte = utf8 (cs.takeWhile isDigit) := by
  induction cs with
  | nil => rfl
  | cons c cs ih =>
    rw [utf8_cons]
    by_cases hc : isDigit c = true
    · rw [utf8_digit hc, List.cons_append, List.nil_append,
        List.takeWhile_cons_of_pos (isDigitByte_byteOf hc), ih, List.takeWhile_cons_of_pos hc,
        utf8_cons, utf8_digit hc]
      rfl
    · obtain ⟨b, bs, hcons, hlt, hle⟩ := exists_utf8EncodeChar_eq_cons c
      have hb : ¬ isDigitByte b = true := by
        rw [isDigitByte_iff]
        by_cases hascii : c.val.toNat < 128
        · rw [(hlt hascii).1, toNat_byteOf hascii, ← isDigit_iff]
          exact hc
        · have hge := UInt8.le_iff_toNat_le.mp (hle (Nat.le_of_not_lt hascii))
          rw [show (128 : UInt8).toNat = 128 from rfl] at hge
          omega
      rw [hcons, List.cons_append, List.takeWhile_cons_of_neg hb, List.takeWhile_cons_of_neg hc]
      rfl

/-! ### Signs -/

/-- The characters begin with a sign, or with something else. -/
theorem splitSign_cases (cs : List Char) :
    (∃ rest, cs = '-' :: rest ∧ splitSign cs = (['-'], rest)) ∨
    (∃ rest, cs = '+' :: rest ∧ splitSign cs = (['+'], rest)) ∨
    (∀ c, cs.head? = some c → c ≠ '-' ∧ c ≠ '+') ∧ splitSign cs = ([], cs) := by
  unfold splitSign
  split
  · next rest => exact .inl ⟨rest, rfl, rfl⟩
  · next rest => exact .inr (.inl ⟨rest, rfl, rfl⟩)
  · next hminus hplus =>
    refine .inr (.inr ⟨fun c hc => ?_, rfl⟩)
    obtain ⟨rest, rfl⟩ := List.head?_eq_some_iff.mp hc
    exact ⟨fun h => hminus rest (h ▸ rfl), fun h => hplus rest (h ▸ rfl)⟩

/-- The sign of a number: a minus, a plus, or none if what follows does not begin with one. -/
def IsSign (sign rest : List Char) : Prop :=
  sign = ['-'] ∨ sign = ['+'] ∨ sign = [] ∧ ∀ c, rest.head? = some c → c ≠ '-' ∧ c ≠ '+'

theorem splitSign_append {sign rest : List Char} (h : IsSign sign rest) :
    splitSign (sign ++ rest) = (sign, rest) := by
  rcases h with rfl | rfl | ⟨rfl, hrest⟩
  · rfl
  · rfl
  · rcases splitSign_cases rest with ⟨tail, rfl, -⟩ | ⟨tail, rfl, -⟩ | ⟨-, heq⟩
    · exact absurd rfl (hrest _ rfl).1
    · exact absurd rfl (hrest _ rfl).2
    · exact heq

theorem isSign_splitSign (cs : List Char) : IsSign (splitSign cs).1 (splitSign cs).2 ∧
    (splitSign cs).1 ++ (splitSign cs).2 = cs := by
  rcases splitSign_cases cs with ⟨rest, rfl, heq⟩ | ⟨rest, rfl, heq⟩ | ⟨hhead, heq⟩ <;> rw [heq]
  · exact ⟨.inl rfl, rfl⟩
  · exact ⟨.inr (.inl rfl), rfl⟩
  · exact ⟨.inr (.inr ⟨rfl, hhead⟩), rfl⟩

/-- A digit is one byte. -/
theorem byteLength_digits {ds : List Char} (h : ∀ d ∈ ds, isDigit d = true) :
    byteLength ds = ds.length := by
  induction ds with
  | nil => rfl
  | cons d ds ih =>
    obtain ⟨hd, hds⟩ := List.forall_mem_cons.mp h
    rw [byteLength, ih hds, ← String.length_utf8EncodeChar, utf8_digit hd, List.length_singleton,
      List.length_cons, Nat.add_comm]

end Number

end DevConsole
