/-!
# Lengths in bytes

Positions in a line and lengths of names count the bytes of the UTF-8 form. A cut at such a
position exists only between two characters.
-/

namespace DevConsole.Text

/-- The number of bytes of the UTF-8 form. -/
def byteLength : List Char → Nat
  | [] => 0
  | c :: cs => c.utf8Size + byteLength cs

/-- The characters that make up the first `n` bytes, if that many bytes end between two
characters. -/
def takeBytes? : Nat → List Char → Option (List Char)
  | 0, _ => some []
  | _ + 1, [] => none
  | n + 1, c :: cs =>
    if c.utf8Size ≤ n + 1 then (takeBytes? (n + 1 - c.utf8Size) cs).map (c :: ·) else none

/-- The characters behind the first `n` bytes, if that many bytes end between two characters. -/
def dropBytes? : Nat → List Char → Option (List Char)
  | 0, cs => some cs
  | _ + 1, [] => none
  | n + 1, c :: cs => if c.utf8Size ≤ n + 1 then dropBytes? (n + 1 - c.utf8Size) cs else none

/-- The two sides of a cut behind `n` bytes, if that is a place between two characters. -/
def splitBytes? (n : Nat) (cs : List Char) : Option (List Char × List Char) :=
  (takeBytes? n cs).bind fun before => (dropBytes? n cs).map fun rest => (before, rest)

/-- The characters with the positions at which they start, the first one at `n`. -/
def charIndices : Nat → List Char → List (Nat × Char)
  | _, [] => []
  | n, c :: cs => (n, c) :: charIndices (n + c.utf8Size) cs

theorem byteLength_append (xs ys : List Char) :
    byteLength (xs ++ ys) = byteLength xs + byteLength ys := by
  induction xs with
  | nil => simp [byteLength]
  | cons c cs ih => simp only [List.cons_append, byteLength, ih]; omega

/-- Every character has a byte. -/
theorem byteLength_eq_zero_iff {cs : List Char} : byteLength cs = 0 ↔ cs = [] := by
  cases cs with
  | nil => simp [byteLength]
  | cons c cs => simp [byteLength, Nat.ne_of_gt c.utf8Size_pos]

/-- As many bytes as a beginning has are that beginning. -/
theorem takeBytes?_byteLength (xs ys : List Char) :
    takeBytes? (byteLength xs) (xs ++ ys) = some xs := by
  induction xs with
  | nil => simp [byteLength, takeBytes?]
  | cons c cs ih =>
    have hc : 0 < c.utf8Size := c.utf8Size_pos
    obtain ⟨n, hn⟩ : ∃ n, c.utf8Size + byteLength cs = n + 1 :=
      ⟨c.utf8Size + byteLength cs - 1, by omega⟩
    have hrest : n + 1 - c.utf8Size = byteLength cs := by omega
    simp only [byteLength, List.cons_append, hn, takeBytes?]
    rw [if_pos (by omega), hrest, ih]
    rfl

/-- Behind as many bytes as a beginning has is the rest. -/
theorem dropBytes?_byteLength (xs ys : List Char) :
    dropBytes? (byteLength xs) (xs ++ ys) = some ys := by
  induction xs with
  | nil => simp [byteLength, dropBytes?]
  | cons c cs ih =>
    have hc : 0 < c.utf8Size := c.utf8Size_pos
    obtain ⟨n, hn⟩ : ∃ n, c.utf8Size + byteLength cs = n + 1 :=
      ⟨c.utf8Size + byteLength cs - 1, by omega⟩
    have hrest : n + 1 - c.utf8Size = byteLength cs := by omega
    rw [byteLength, List.cons_append, hn, dropBytes?, if_pos (by omega), hrest, ih]

/-- A text is cut where it was put together. -/
theorem splitBytes?_byteLength (xs ys : List Char) :
    splitBytes? (byteLength xs) (xs ++ ys) = some (xs, ys) := by
  rw [splitBytes?, takeBytes?_byteLength, dropBytes?_byteLength]
  rfl

theorem map_snd_charIndices (n : Nat) (cs : List Char) :
    (charIndices n cs).map Prod.snd = cs := by
  induction cs generalizing n with
  | nil => rfl
  | cons c cs ih => rw [charIndices, List.map_cons, ih]

theorem charIndices_append (n : Nat) (xs ys : List Char) :
    charIndices n (xs ++ ys) = charIndices n xs ++ charIndices (n + byteLength xs) ys := by
  induction xs generalizing n with
  | nil => rfl
  | cons c cs ih =>
    rw [List.cons_append, charIndices, charIndices, ih, byteLength, Nat.add_assoc, List.cons_append]

/-- Starting further on shifts all positions. -/
theorem charIndices_add (k n : Nat) (cs : List Char) :
    charIndices (k + n) cs = (charIndices n cs).map (Prod.map (k + ·) id) := by
  induction cs generalizing n with
  | nil => rfl
  | cons c cs ih =>
    rw [charIndices, charIndices, List.map_cons, Nat.add_assoc, ih]
    rfl

/-- A beginning of the given number of bytes has that number of bytes. -/
theorem byteLength_of_takeBytes? {n : Nat} {cs xs : List Char} (h : takeBytes? n cs = some xs) :
    byteLength xs = n := by
  induction cs generalizing n xs with
  | nil =>
    cases n with
    | zero => simp_all [takeBytes?, byteLength]
    | succ n => simp [takeBytes?] at h
  | cons c cs ih =>
    cases n with
    | zero => simp_all [takeBytes?, byteLength]
    | succ n =>
      simp only [takeBytes?] at h
      split at h
      · obtain ⟨ys, hys, rfl⟩ := Option.map_eq_some_iff.1 h
        have := ih hys
        simp only [byteLength]
        omega
      · simp at h

end DevConsole.Text
