import DevConsole.Proofs.Number.Bytes

/-!
# The longest numeral

The grammar of numerals is `[+-]? (D+ ('.' D*)? | '.' D+) ([eE] [+-]? D+)?` with `D` a digit
(`IsNumeral`). What a number of binary32 is read from is the longest numeral that the text begins with:
it is one (`isNumeral_leadingNumeral`), and every other one that the text begins with is the beginning of
it (`isPrefix_leadingNumeral`). The parts are found one after the other, and a part that can be missing
ends where the next one starts, because no part starts like the rest of the one before
(`leadingUnsigned_append`). Found byte by byte, the end of the numeral is one between two characters
(`numeralEnd?_utf8`), and what ends there is always read as a number (`leadingSingle_longest`).
-/

namespace DevConsole.Number

open Text

/-! ### The grammar -/

/-- `D+` -/
def IsDigits (ds : List Char) : Prop := ds ≠ [] ∧ ∀ d ∈ ds, isDigit d = true

/-- `[+-]?` -/
def IsOptionalSign (sign : List Char) : Prop := sign = ['-'] ∨ sign = ['+'] ∨ sign = []

/-- `D+ ('.' D*)? | '.' D+` -/
inductive IsMantissa : List Char → Prop
  | whole {ds : List Char} : IsDigits ds → IsMantissa ds
  | point {ds fs : List Char} : IsDigits ds → (∀ f ∈ fs, isDigit f = true) →
    IsMantissa (ds ++ '.' :: fs)
  | fraction {fs : List Char} : IsDigits fs → IsMantissa ('.' :: fs)

/-- `[eE] [+-]? D+` -/
inductive IsExponent : List Char → Prop
  | mk {c : Char} {sign ds : List Char} : c = 'e' ∨ c = 'E' → IsOptionalSign sign → IsDigits ds →
    IsExponent (c :: (sign ++ ds))

/-- `[+-]? (D+ ('.' D*)? | '.' D+) ([eE] [+-]? D+)?` -/
inductive IsNumeral : List Char → Prop
  | plain {sign m : List Char} : IsOptionalSign sign → IsMantissa m → IsNumeral (sign ++ m)
  | scientific {sign m e : List Char} : IsOptionalSign sign → IsMantissa m → IsExponent e →
    IsNumeral (sign ++ (m ++ e))

theorem IsDigits.exists_cons {ds : List Char} (h : IsDigits ds) :
    ∃ d rest, ds = d :: rest ∧ isDigit d = true := by
  obtain ⟨d, rest, rfl⟩ := List.exists_cons_of_ne_nil h.1
  exact ⟨d, rest, rfl, h.2 d List.mem_cons_self⟩

theorem isExponentMark_iff {c : Char} : isExponentMark c = true ↔ c = 'e' ∨ c = 'E' := by
  simp [isExponentMark]

/-- An optional sign before a character that is none is the sign. -/
theorem IsOptionalSign.isSign {sign rest : List Char} (h : IsOptionalSign sign)
    (hrest : ∀ c, rest.head? = some c → c ≠ '-' ∧ c ≠ '+') : IsSign sign rest := by
  rcases h with h | h | h
  · exact .inl h
  · exact .inr (.inl h)
  · exact .inr (.inr ⟨h, hrest⟩)

theorem IsSign.optional {sign rest : List Char} (h : IsSign sign rest) : IsOptionalSign sign := by
  rcases h with h | h | ⟨h, -⟩
  · exact .inl h
  · exact .inr (.inl h)
  · exact .inr (.inr h)

theorem not_sign_of_isDigit {c : Char} (h : isDigit c = true) : c ≠ '-' ∧ c ≠ '+' := by
  constructor <;> rintro rfl <;> exact absurd h (by decide)

theorem IsDigits.not_sign {ds : List Char} (h : IsDigits ds) (tail : List Char) :
    ∀ c, (ds ++ tail).head? = some c → c ≠ '-' ∧ c ≠ '+' := by
  obtain ⟨d, rest, rfl, hd⟩ := h.exists_cons
  intro c hc
  obtain rfl : d = c := Option.some.inj hc
  exact not_sign_of_isDigit hd

theorem IsMantissa.not_sign {m : List Char} (h : IsMantissa m) (tail : List Char) :
    ∀ c, (m ++ tail).head? = some c → c ≠ '-' ∧ c ≠ '+' := by
  cases h with
  | whole hds => exact hds.not_sign tail
  | point hds _ => rw [List.append_assoc]; exact hds.not_sign _
  | fraction _ => intro c hc; exact Option.some.inj hc ▸ (by decide)

theorem IsMantissa.ne_nil {m : List Char} (h : IsMantissa m) : m ≠ [] := by
  cases h with
  | whole hds => exact hds.1
  | point _ _ => simp
  | fraction _ => simp

theorem takeWhile_append {ds : List Char} (h : ∀ d ∈ ds, isDigit d = true) (tail : List Char) :
    (ds ++ tail).takeWhile isDigit = ds ++ tail.takeWhile isDigit := List.takeWhile_append_of_pos h

theorem dropWhile_append {ds : List Char} (h : ∀ d ∈ ds, isDigit d = true) (tail : List Char) :
    (ds ++ tail).dropWhile isDigit = tail.dropWhile isDigit := List.dropWhile_append_of_pos h

/-! ### The parts of a numeral -/

/-- The longest numeral without a sign that the characters start with. -/
def leadingUnsigned (cs : List Char) : List Char :=
  let whole := cs.takeWhile isDigit
  let rest := cs.dropWhile isDigit
  let fraction := leadingFraction (whole ≠ []) rest
  if whole = [] ∧ fraction = [] then []
  else whole ++ fraction ++ leadingExponent (rest.drop fraction.length)

theorem leadingNumeral_eq (cs : List Char) : leadingNumeral cs =
    if leadingUnsigned (splitSign cs).2 = [] then []
    else (splitSign cs).1 ++ leadingUnsigned (splitSign cs).2 := by
  unfold leadingNumeral leadingUnsigned
  dsimp only
  split
  · simp
  · next h =>
    rw [if_neg fun hnil => h ?_]
    · simp [List.append_assoc]
    · simp only [List.append_eq_nil_iff] at hnil
      exact ⟨hnil.1.1, hnil.1.2⟩

/-- An exponent is taken as a whole, with the digits that follow. -/
theorem leadingExponent_append {e : List Char} (h : IsExponent e) (tail : List Char) :
    ∃ more, leadingExponent (e ++ tail) = e ++ more := by
  cases h with
  | @mk c sign ds hc hsign hds =>
    have hsplit : splitSign (sign ++ (ds ++ tail)) = (sign, ds ++ tail) :=
      splitSign_append (hsign.isSign (hds.not_sign tail))
    refine ⟨tail.takeWhile isDigit, ?_⟩
    rw [List.cons_append, List.append_assoc, leadingExponent, hsplit]
    dsimp only
    rw [takeWhile_append hds.2, if_pos]
    · simp [List.append_assoc]
    · simp [isExponentMark_iff.mpr hc, hds.1]

/-- **A mantissa is taken as a whole**, and if an exponent mark follows, it is all that is taken before
the exponent. -/
theorem leadingUnsigned_append {m : List Char} (h : IsMantissa m) (tail : List Char) :
    ∃ more, leadingUnsigned (m ++ tail) = m ++ more ∧
      ((∃ c, tail.head? = some c ∧ (c = 'e' ∨ c = 'E')) → more = leadingExponent tail) := by
  have hmark : (∃ c, tail.head? = some c ∧ (c = 'e' ∨ c = 'E')) →
      tail.takeWhile isDigit = [] ∧ tail.dropWhile isDigit = tail ∧
        ∀ hasWhole, leadingFraction hasWhole tail = [] := by
    rintro ⟨c, hc, hmark⟩
    obtain ⟨rest, rfl⟩ := List.head?_eq_some_iff.mp hc
    rcases hmark with rfl | rfl <;> exact ⟨rfl, rfl, fun _ => rfl⟩
  unfold leadingUnsigned
  cases h with
  | whole hds =>
    dsimp only
    rw [takeWhile_append hds.2, dropWhile_append hds.2, if_neg fun hnil => hds.1 (by simp_all)]
    refine ⟨_, by rw [List.append_assoc, List.append_assoc], fun h => ?_⟩
    obtain ⟨htake, hdrop, hfraction⟩ := hmark h
    simp [htake, hdrop, hfraction]
  | @point ds fs hds hfs =>
    have htake : (ds ++ '.' :: fs ++ tail).takeWhile isDigit = ds := by
      rw [List.append_assoc, takeWhile_append hds.2]
      exact List.append_nil ds
    have hdrop : (ds ++ '.' :: fs ++ tail).dropWhile isDigit = '.' :: (fs ++ tail) := by
      rw [List.append_assoc, dropWhile_append hds.2]
      rfl
    have hfraction : leadingFraction (decide (ds ≠ [])) ('.' :: (fs ++ tail)) =
        '.' :: (fs ++ tail.takeWhile isDigit) := by
      rw [leadingFraction, takeWhile_append hfs, decide_eq_true hds.1]
      rfl
    dsimp only
    rw [htake, hdrop, hfraction, if_neg fun hnil => hds.1 hnil.1]
    refine ⟨_, by rw [List.append_assoc, List.append_assoc, List.cons_append, List.append_assoc,
      List.cons_append], fun h => ?_⟩
    obtain ⟨htail, -, -⟩ := hmark h
    simp [htail]
  | @fraction fs hfs =>
    have hfraction : leadingFraction (decide (([] : List Char) ≠ [])) ('.' :: (fs ++ tail)) =
        '.' :: (fs ++ tail.takeWhile isDigit) := by
      rw [leadingFraction, takeWhile_append hfs.2, if_pos]
      simp [hfs.1]
    have htake : ('.' :: fs ++ tail).takeWhile isDigit = [] := rfl
    have hdrop : ('.' :: fs ++ tail).dropWhile isDigit = '.' :: (fs ++ tail) := rfl
    dsimp only
    rw [htake, hdrop, hfraction, if_neg (by simp)]
    refine ⟨_, by rw [List.nil_append, List.cons_append, List.append_assoc, List.cons_append],
      fun h => ?_⟩
    obtain ⟨htail, -, -⟩ := hmark h
    simp [htail]

theorem leadingFraction_cases (hasWhole : Bool) (cs : List Char) :
    leadingFraction hasWhole cs = [] ∨ ∃ fs rest, cs = '.' :: (fs ++ rest) ∧
      leadingFraction hasWhole cs = '.' :: fs ∧ (∀ f ∈ fs, isDigit f = true) ∧
        (hasWhole = true ∨ fs ≠ []) := by
  unfold leadingFraction
  split
  · next cs =>
    dsimp only
    split
    · next h =>
      refine .inr ⟨cs.takeWhile isDigit, cs.dropWhile isDigit, ?_, rfl,
        fun f hf => List.mem_takeWhile_imp hf, by simpa using h⟩
      rw [List.takeWhile_append_dropWhile]
    · exact .inl rfl
  · exact .inl rfl

/-- What is taken of a fraction is in front of the rest. -/
theorem leadingFraction_append_drop (hasWhole : Bool) (cs : List Char) :
    leadingFraction hasWhole cs ++ cs.drop (leadingFraction hasWhole cs).length = cs := by
  rcases leadingFraction_cases hasWhole cs with hnone | ⟨fs, rest, hcs, hfraction, -, -⟩
  · rw [hnone]
    rfl
  · rw [hfraction, hcs]
    simp

theorem leadingExponent_cases (cs : List Char) :
    leadingExponent cs = [] ∨ IsExponent (leadingExponent cs) ∧ leadingExponent cs <+: cs := by
  cases cs with
  | nil => exact .inl rfl
  | cons c cs =>
    obtain ⟨hsign, happend⟩ := isSign_splitSign cs
    rw [leadingExponent]
    dsimp only
    split
    · next h =>
      rw [Bool.and_eq_true, decide_eq_true_iff] at h
      refine .inr ⟨.mk (isExponentMark_iff.mp h.1) hsign.optional
        ⟨h.2, fun d hd => List.mem_takeWhile_imp hd⟩, List.cons_prefix_cons.mpr ⟨rfl, ?_⟩⟩
      conv_rhs => rw [← happend]
      exact (List.prefix_append_right_inj _).mpr (List.takeWhile_prefix _)
    · exact .inl rfl

/-- What is taken without a sign is a mantissa with an exponent or without one. -/
theorem leadingUnsigned_cases (cs : List Char) : leadingUnsigned cs = [] ∨
    ∃ m e, leadingUnsigned cs = m ++ e ∧ IsMantissa m ∧ (e = [] ∨ IsExponent e) ∧ m ++ e <+: cs := by
  have hwhole : ∀ d ∈ cs.takeWhile isDigit, isDigit d = true := fun d hd => List.mem_takeWhile_imp hd
  have hcs : cs.takeWhile isDigit ++ cs.dropWhile isDigit = cs := List.takeWhile_append_dropWhile
  unfold leadingUnsigned
  dsimp only
  split
  · exact .inl rfl
  · next hsome =>
    refine .inr ⟨cs.takeWhile isDigit ++ leadingFraction _ (cs.dropWhile isDigit), _, rfl, ?_, ?_, ?_⟩
    · rcases leadingFraction_cases (cs.takeWhile isDigit ≠ []) (cs.dropWhile isDigit) with
        hnone | ⟨fs, rest, -, hfraction, hfs, hdigit⟩
      · rw [hnone, List.append_nil]
        exact .whole ⟨fun hnil => hsome ⟨hnil, hnone⟩, hwhole⟩
      · rw [hfraction]
        by_cases hnil : cs.takeWhile isDigit = []
        · rw [hnil]
          exact .fraction ⟨hdigit.resolve_left (by simp [hnil]), hfs⟩
        · exact .point ⟨hnil, hwhole⟩ hfs
    · exact (leadingExponent_cases _).imp id And.left
    · have hrest := leadingFraction_append_drop (cs.takeWhile isDigit ≠ []) (cs.dropWhile isDigit)
      conv_rhs => rw [← hcs, ← hrest]
      rw [List.append_assoc, List.prefix_append_right_inj, List.prefix_append_right_inj]
      rcases leadingExponent_cases ((cs.dropWhile isDigit).drop
        (leadingFraction (cs.takeWhile isDigit ≠ []) (cs.dropWhile isDigit)).length) with
          hnone | ⟨-, hprefix⟩
      · rw [hnone]
        exact List.nil_prefix
      · exact hprefix

/-! ### The longest one -/

/-- What is taken is a beginning of the characters and a numeral, unless it is nothing. -/
theorem isNumeral_leadingNumeral (cs : List Char) : leadingNumeral cs = [] ∨
    IsNumeral (leadingNumeral cs) ∧ leadingNumeral cs <+: cs := by
  obtain ⟨hsign, happend⟩ := isSign_splitSign cs
  rw [leadingNumeral_eq]
  rcases leadingUnsigned_cases (splitSign cs).2 with hnone | ⟨m, e, heq, hm, he, hprefix⟩
  · exact .inl (if_pos hnone)
  · rw [heq, if_neg fun h => hm.ne_nil (List.append_eq_nil_iff.mp h).1]
    refine .inr ⟨?_, ?_⟩
    · rcases he with rfl | he
      · rw [List.append_nil]
        exact .plain hsign.optional hm
      · exact .scientific hsign.optional hm he
    · conv_rhs => rw [← happend]
      exact (List.prefix_append_right_inj _).mpr hprefix

/-- **Every numeral that the characters begin with is the beginning of the one that is taken.** -/
theorem isPrefix_leadingNumeral {p cs : List Char} (h : IsNumeral p) (hp : p <+: cs) :
    p <+: leadingNumeral cs := by
  obtain ⟨tail, rfl⟩ := hp
  rw [leadingNumeral_eq]
  cases h with
  | @plain sign m hsign hm =>
    obtain ⟨more, hmore, -⟩ := leadingUnsigned_append hm tail
    rw [List.append_assoc, splitSign_append (hsign.isSign (hm.not_sign tail)), hmore, if_neg]
    · exact (List.prefix_append_right_inj _).mpr (List.prefix_append _ _)
    · exact fun hnil => hm.ne_nil (List.append_eq_nil_iff.mp hnil).1
  | @scientific sign m e hsign hm he =>
    obtain ⟨more, hmore⟩ := leadingExponent_append he tail
    obtain ⟨rest, hrest, hexponent⟩ := leadingUnsigned_append hm (e ++ tail)
    have hhead : ∃ c, (e ++ tail).head? = some c ∧ (c = 'e' ∨ c = 'E') := by
      cases he with
      | mk hc _ _ => exact ⟨_, rfl, hc⟩
    rw [List.append_assoc, List.append_assoc, splitSign_append (hsign.isSign (hm.not_sign _)), hrest,
      hexponent hhead, hmore, if_neg]
    · rw [List.prefix_append_right_inj, List.prefix_append_right_inj]
      exact List.prefix_append _ _
    · exact fun hnil => hm.ne_nil (List.append_eq_nil_iff.mp hnil).1

theorem IsNumeral.ne_nil {p : List Char} (h : IsNumeral p) : p ≠ [] := by
  cases h with
  | plain _ hm => simp [hm.ne_nil]
  | scientific _ hm _ => simp [hm.ne_nil]

/-- Something is taken exactly if the characters begin with a numeral. -/
theorem leadingNumeral_eq_nil_iff {cs : List Char} :
    leadingNumeral cs = [] ↔ ¬ ∃ p, p <+: cs ∧ IsNumeral p := by
  constructor
  · rintro hnil ⟨p, hp, hnumeral⟩
    have hprefix := isPrefix_leadingNumeral hnumeral hp
    rw [hnil] at hprefix
    exact hnumeral.ne_nil (List.prefix_nil.mp hprefix)
  · intro hnone
    exact (isNumeral_leadingNumeral cs).resolve_right fun h => hnone ⟨_, h.2, h.1⟩

/-! ### Numerals are numbers -/

theorem exponentOf?_isSome {e : List Char} (h : IsExponent e) : (exponentOf? e).isSome = true := by
  cases h with
  | @mk c sign ds hc hsign hds =>
    have hsplit : splitSign (sign ++ ds) = (sign, ds) :=
      splitSign_append (hsign.isSign (by simpa using hds.not_sign []))
    rw [exponentOf?, hsplit]
    dsimp only
    rw [if_pos ⟨isExponentMark_iff.mpr hc, hds.1, List.all_eq_true.mpr hds.2⟩]
    rfl

/-- A mantissa with what follows is read, if what follows is nothing or an exponent. -/
theorem ofChars?_append {sign m e : List Char} (hsign : IsOptionalSign sign) (hm : IsMantissa m)
    (he : e = [] ∨ IsExponent e) : (Decimal.ofChars? (sign ++ (m ++ e))).isSome = true := by
  have hexponent : (exponentOf? e).isSome = true := by
    rcases he with rfl | he
    · rfl
    · exact exponentOf?_isSome he
  have hmark : e.takeWhile isDigit = [] ∧ e.dropWhile isDigit = e ∧ ∀ rest, e ≠ '.' :: rest := by
    rcases he with rfl | he
    · exact ⟨rfl, rfl, fun _ h => by cases h⟩
    · cases he with
      | mk hc _ _ => rcases hc with rfl | rfl <;> exact ⟨rfl, rfl, fun _ h => by cases h⟩
  obtain ⟨htake, hdrop, hpoint⟩ := hmark
  unfold Decimal.ofChars?
  rw [splitSign_append (hsign.isSign (hm.not_sign e))]
  dsimp only
  cases hm with
  | whole hds =>
    rw [takeWhile_append hds.2, dropWhile_append hds.2, htake, hdrop, List.append_nil]
    split
    · exact absurd rfl (hpoint _)
    · rw [if_neg fun h => hds.1 h.1, Option.isSome_map]
      exact hexponent
  | @point ds fs hds hfs =>
    rw [List.append_assoc, takeWhile_append hds.2, dropWhile_append hds.2, List.cons_append,
      List.takeWhile_cons_of_neg (by decide), List.dropWhile_cons_of_neg (by decide), List.append_nil]
    change (if ds = [] ∧ (fs ++ e).takeWhile isDigit = [] then none
      else (exponentOf? ((fs ++ e).dropWhile isDigit)).map _).isSome = true
    rw [takeWhile_append hfs, dropWhile_append hfs, hdrop, if_neg fun h => hds.1 h.1, Option.isSome_map]
    exact hexponent
  | @fraction fs hfs =>
    rw [List.cons_append, List.takeWhile_cons_of_neg (by decide), List.dropWhile_cons_of_neg (by decide)]
    change (if [] = [] ∧ (fs ++ e).takeWhile isDigit = [] then none
      else (exponentOf? ((fs ++ e).dropWhile isDigit)).map _).isSome = true
    rw [takeWhile_append hfs.2, dropWhile_append hfs.2, hdrop, htake, List.append_nil,
      if_neg fun h => hfs.1 h.2, Option.isSome_map]
    exact hexponent

/-- **Every numeral is the text of a number.** -/
theorem IsNumeral.ofText? {p : List Char} (h : IsNumeral p) : ∃ d, Decimal.ofChars? p = some d ∧
    Single.ofText? (String.ofList p) = some d.toSingle := by
  have hsome : (Decimal.ofChars? p).isSome = true := by
    cases h with
    | @plain sign m hsign hm =>
      have hplain := ofChars?_append hsign hm (.inl rfl)
      rwa [List.append_nil] at hplain
    | scientific hsign hm he => exact ofChars?_append hsign hm (.inr he)
  obtain ⟨d, hd⟩ := Option.isSome_iff_exists.mp hsome
  refine ⟨d, hd, ?_⟩
  rw [Single.ofText?, String.toList_ofList, hd]

/-! ### Byte by byte -/

/-- The place after the digits at a place. -/
def skipDigits (bs : List UInt8) (i : ℕ) : ℕ := i + ((bs.drop i).takeWhile isDigitByte).length

/-- The place after a sign at a place. -/
def skipSign (bs : List UInt8) (i : ℕ) : ℕ :=
  if bs[i]? = some 45 ∨ bs[i]? = some 43 then i + 1 else i

/-- The place after a point and digits at a place, if there are digits on one side of the point; those
before it begin at `start`. -/
def skipFraction (bs : List UInt8) (start i : ℕ) : ℕ :=
  if bs[i]? = some 46 ∧ (start < i ∨ i + 1 < skipDigits bs (i + 1)) then skipDigits bs (i + 1) else i

/-- The place after an exponent at a place, if it has digits. -/
def skipExponent (bs : List UInt8) (i : ℕ) : ℕ :=
  if (bs[i]? = some 101 ∨ bs[i]? = some 69) ∧
    skipSign bs (i + 1) < skipDigits bs (skipSign bs (i + 1)) then
      skipDigits bs (skipSign bs (i + 1))
  else i

/-- The end of the numeral that the bytes start with, found without going back. -/
def numeralEnd? (bs : List UInt8) : Option ℕ :=
  let start := skipSign bs 0
  let mantissa := skipFraction bs start (skipDigits bs start)
  if mantissa = start then none else some (skipExponent bs mantissa)

section utf8
variable (as bs : List Char)

theorem skipDigits_utf8 :
    skipDigits (utf8 (as ++ bs)) (byteLength as) = byteLength (as ++ bs.takeWhile isDigit) := by
  rw [skipDigits, utf8_append, ← length_utf8 as, List.drop_left, takeWhile_utf8, length_utf8,
    length_utf8, byteLength_append]

theorem skipSign_utf8 :
    skipSign (utf8 (as ++ bs)) (byteLength as) = byteLength (as ++ (splitSign bs).1) := by
  have hminus := getElem?_utf8 (c := '-') (by decide) as bs
  have hplus := getElem?_utf8 (c := '+') (by decide) as bs
  rw [show byteOf '-' = 45 from rfl] at hminus
  rw [show byteOf '+' = 43 from rfl] at hplus
  simp only [skipSign, hminus, hplus, byteLength_append]
  rcases splitSign_cases bs with ⟨rest, rfl, heq⟩ | ⟨rest, rfl, heq⟩ | ⟨hhead, heq⟩ <;> rw [heq]
  · exact if_pos (.inl rfl)
  · exact if_pos (.inr rfl)
  · exact if_neg fun h => h.elim (fun h => (hhead _ h).1 rfl) fun h => (hhead _ h).2 rfl

theorem skipFraction_utf8 (start : ℕ) :
    skipFraction (utf8 (as ++ bs)) start (byteLength as) =
      byteLength (as ++ leadingFraction (start < byteLength as) bs) := by
  have hpoint := getElem?_utf8 (c := '.') (by decide) as bs
  rw [show byteOf '.' = 46 from rfl] at hpoint
  simp only [skipFraction, hpoint]
  have hdigits : ∀ rest : List Char,
      byteLength (rest.takeWhile isDigit) = (rest.takeWhile isDigit).length :=
    fun rest => byteLength_digits fun d hd => List.mem_takeWhile_imp hd
  by_cases hhead : bs.head? = some '.'
  · obtain ⟨rest, rfl⟩ := List.head?_eq_some_iff.mp hhead
    have hone : byteLength (as ++ ['.']) = byteLength as + 1 := byteLength_append as ['.']
    have hskip := skipDigits_utf8 (as ++ ['.']) rest
    rw [hone, List.append_assoc, List.singleton_append, byteLength_append, hone, hdigits] at hskip
    have hlonger : byteLength as + 1 < byteLength as + 1 + (rest.takeWhile isDigit).length ↔
        rest.takeWhile isDigit ≠ [] := by
      rw [← List.length_pos_iff]
      omega
    simp only [hskip, hlonger]
    rw [leadingFraction]
    by_cases hsome : start < byteLength as ∨ rest.takeWhile isDigit ≠ []
    · rw [if_pos ⟨hhead, hsome⟩, if_pos (by simpa using hsome), byteLength_append, byteLength, hdigits,
        Nat.add_assoc]
      rfl
    · rw [if_neg fun h => hsome h.2, if_neg (by simpa using hsome), List.append_nil]
  · have hnone : leadingFraction (decide (start < byteLength as)) bs = [] := by
      unfold leadingFraction
      split
      · exact absurd rfl hhead
      · rfl
    rw [if_neg fun h => hhead h.1, hnone, List.append_nil]

theorem skipExponent_utf8 :
    skipExponent (utf8 (as ++ bs)) (byteLength as) = byteLength (as ++ leadingExponent bs) := by
  have hsmall := getElem?_utf8 (c := 'e') (by decide) as bs
  have hcapital := getElem?_utf8 (c := 'E') (by decide) as bs
  rw [show byteOf 'e' = 101 from rfl] at hsmall
  rw [show byteOf 'E' = 69 from rfl] at hcapital
  simp only [skipExponent, hsmall, hcapital]
  by_cases hhead : bs.head? = some 'e' ∨ bs.head? = some 'E'
  · obtain ⟨c, rest, rfl, hc⟩ : ∃ c rest, bs = c :: rest ∧ (c = 'e' ∨ c = 'E') := by
      rcases hhead with h | h <;> obtain ⟨rest, rfl⟩ := List.head?_eq_some_iff.mp h
      · exact ⟨_, rest, rfl, .inl rfl⟩
      · exact ⟨_, rest, rfl, .inr rfl⟩
    have hone : byteLength (as ++ [c]) = byteLength as + 1 := by
      rw [byteLength_append]
      rcases hc with rfl | rfl <;> rfl
    have happend : as ++ c :: rest = as ++ [c] ++ rest := by simp
    have hsign := skipSign_utf8 (as ++ [c]) rest
    have hskip := skipDigits_utf8 (as ++ [c] ++ (splitSign rest).1) (splitSign rest).2
    rw [List.append_assoc (as ++ [c]), (isSign_splitSign rest).2] at hskip
    rw [hone] at hsign
    have hlonger : byteLength (as ++ [c] ++ (splitSign rest).1) <
        byteLength (as ++ [c] ++ (splitSign rest).1 ++ (splitSign rest).2.takeWhile isDigit) ↔
          (splitSign rest).2.takeWhile isDigit ≠ [] := by
      rw [byteLength_append _ (List.takeWhile _ _),
        byteLength_digits fun d hd => List.mem_takeWhile_imp hd, ← List.length_pos_iff]
      omega
    simp only [happend, hsign, hskip, hlonger]
    rw [leadingExponent]
    dsimp only
    by_cases hsome : (splitSign rest).2.takeWhile isDigit ≠ []
    · rw [if_pos ⟨hhead, hsome⟩, if_pos (by simp [isExponentMark_iff.mpr hc, hsome])]
      simp
    · rw [if_neg fun h => hsome h.2, if_neg (by simp [hsome]), List.append_nil]
  · have hnone : leadingExponent bs = [] := by
      cases bs with
      | nil => rfl
      | cons c rest =>
        have hc : isExponentMark c = false := by
          rw [Bool.eq_false_iff, Ne, isExponentMark_iff]
          exact fun h => hhead (h.imp (congrArg some) (congrArg some))
        rw [leadingExponent, hc]
        rfl
    rw [if_neg fun h => hhead h.1, hnone, List.append_nil]

end utf8

/-- **The end that is found byte by byte is that of the numeral**, if there is one. -/
theorem numeralEnd?_utf8 (cs : List Char) : numeralEnd? (utf8 cs) =
    if leadingNumeral cs = [] then none else some (byteLength (leadingNumeral cs)) := by
  obtain ⟨-, hcs⟩ := isSign_splitSign cs
  have hstart := skipSign_utf8 [] cs
  rw [List.nil_append, List.nil_append, byteLength] at hstart
  unfold numeralEnd? leadingNumeral
  rw [hstart]
  generalize splitSign cs = parts at hcs ⊢
  obtain ⟨sign, rest⟩ := parts
  dsimp only at hcs ⊢
  have hwhole := skipDigits_utf8 sign rest
  have hfraction := skipFraction_utf8 (sign ++ rest.takeWhile isDigit) (rest.dropWhile isDigit)
    (byteLength sign)
  have hsome : byteLength sign < byteLength (sign ++ rest.takeWhile isDigit) ↔
      rest.takeWhile isDigit ≠ [] := by
    rw [byteLength_append, Ne, ← byteLength_eq_zero_iff]
    omega
  simp only [List.append_assoc, List.takeWhile_append_dropWhile, hcs, hsome] at hwhole hfraction
  have hexponent := skipExponent_utf8
    (sign ++ (rest.takeWhile isDigit ++
      leadingFraction (rest.takeWhile isDigit ≠ []) (rest.dropWhile isDigit)))
    ((rest.dropWhile isDigit).drop
      (leadingFraction (rest.takeWhile isDigit ≠ []) (rest.dropWhile isDigit)).length)
  simp only [List.append_assoc, leadingFraction_append_drop, List.takeWhile_append_dropWhile, hcs]
    at hexponent
  have hmantissa : ∀ whole fraction : List Char,
      byteLength (sign ++ (whole ++ fraction)) = byteLength sign ↔ whole = [] ∧ fraction = [] := by
    intro whole fraction
    rw [byteLength_append, ← List.append_eq_nil_iff, ← byteLength_eq_zero_iff]
    omega
  simp only [hwhole, hfraction, hexponent, hmantissa]
  by_cases hnone : rest.takeWhile isDigit = [] ∧
      leadingFraction (rest.takeWhile isDigit ≠ []) (rest.dropWhile isDigit) = []
  · simp only [if_pos hnone, if_true]
  · simp only [if_neg hnone, List.append_assoc]
    rw [if_neg fun h => hnone ?_]
    simp only [List.append_eq_nil_iff] at h
    exact ⟨h.2.1, h.2.2.1⟩

/-- The number is read from the longest numeral that the characters begin with. -/
structure ReadFrom (cs slice : List Char) (x : Single) : Prop where
  numeral : IsNumeral slice
  begins : slice <+: cs
  longest : ∀ p, IsNumeral p → p <+: cs → p <+: slice
  /-- The end is found byte by byte and is a position between two characters. -/
  finish : ∃ finish, numeralEnd? (utf8 cs) = some finish ∧ takeBytes? finish cs = some slice
  /-- Up to there it is the text of the number. -/
  number : Single.ofText? (String.ofList slice) = some x

/-- **A number is read from the longest numeral.** If a text, after its white space, begins with
numerals, then what is taken is the longest of them, of which all others are beginnings, and this is
always the text of a number, which is the result. If the text begins with no numeral, the result is
zero. -/
theorem leadingSingle_longest (s : String) :
    ((∃ p, p <+: dropBlank s.toList ∧ IsNumeral p) →
      ReadFrom (dropBlank s.toList) (leadingNumeral (dropBlank s.toList)) (leadingSingle s)) ∧
    ((¬ ∃ p, p <+: dropBlank s.toList ∧ IsNumeral p) →
      numeralEnd? (utf8 (dropBlank s.toList)) = none ∧ leadingSingle s = .zero) := by
  unfold leadingSingle
  generalize dropBlank s.toList = cs
  refine ⟨fun hsome => ?_, fun hnone => ?_⟩
  · have hne : leadingNumeral cs ≠ [] := fun hnil => leadingNumeral_eq_nil_iff.mp hnil hsome
    obtain ⟨hnumeral, hbegins⟩ := (isNumeral_leadingNumeral cs).resolve_left hne
    obtain ⟨d, hd, htext⟩ := hnumeral.ofText?
    have hend : numeralEnd? (utf8 cs) = some (byteLength (leadingNumeral cs)) := by
      rw [numeralEnd?_utf8, if_neg hne]
    have hcut : takeBytes? (byteLength (leadingNumeral cs)) cs = some (leadingNumeral cs) := by
      obtain ⟨rest, hrest⟩ := hbegins
      have htake := takeBytes?_byteLength (leadingNumeral cs) rest
      rwa [hrest] at htake
    rw [hd]
    exact ⟨hnumeral, hbegins, fun p hp => isPrefix_leadingNumeral hp, ⟨_, hend, hcut⟩, htext⟩
  · have hnil := leadingNumeral_eq_nil_iff.mpr hnone
    rw [numeralEnd?_utf8, if_pos hnil, hnil]
    exact ⟨rfl, rfl⟩

/-- A point without digits behind it is taken, an exponent without digits is not. -/
example : leadingNumeral "-1.e+é".toList = "-1.".toList := by decide

end DevConsole.Number
