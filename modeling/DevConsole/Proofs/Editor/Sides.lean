import DevConsole.Editor.LineBuffer
import DevConsole.Text.Bytes
import Mathlib.Data.List.DropRight

/-!
# The two sides of the cursor

The line being edited is as good as the texts before and after its cursor: along any edits, the line
shows two texts on which every edit has a plain meaning, with the same replies (`edits_two_sided`).
The texts hold printable ASCII only, so every position in the line is one between two characters, also
where positions count bytes, and the pieces that edits put in the place of others lie in the line.
-/

namespace DevConsole

namespace Text

/-- The characters with `new` in the place of the bytes from `i` to `j`, if both positions are in the
text and between two characters. -/
def replaceBytes? (i j : Nat) (new cs : List Char) : Option (List Char) :=
  (takeBytes? i cs).bind fun before => (takeBytes? j cs).bind fun upto =>
    if i ≤ j then some (before ++ new ++ cs.drop upto.length) else none

end Text

/-- The character is printable ASCII. -/
def printable (c : Char) : Bool := 32 ≤ c.toNat && c.toNat ≤ 126

/-- The line can hold printable ASCII. -/
theorem isLineChar_eq : isLineChar = printable := by
  funext c
  rw [Bool.eq_iff_iff, isLineChar, printable, Bool.and_eq_true, Bool.and_eq_true]
  simp only [decide_eq_true_iff]
  rfl

theorem utf8Size_printable {c : Char} (h : printable c = true) : c.utf8Size = 1 := by
  have hle : c.toNat ≤ 126 := of_decide_eq_true (Bool.and_eq_true_iff.mp h).2
  exact Char.utf8Size_eq_one_iff.mpr (UInt32.le_iff_toNat_le.mpr (Nat.le_trans hle (by decide)))

/-! ### Positions in printable texts -/

section Printable
variable {cs : List Char} (h : ∀ c ∈ cs, printable c = true)
include h

theorem byteLength_printable : Text.byteLength cs = cs.length := by
  induction cs with
  | nil => rfl
  | cons c cs ih =>
    obtain ⟨hc, hcs⟩ := List.forall_mem_cons.mp h
    rw [Text.byteLength, utf8Size_printable hc, ih hcs, List.length_cons, Nat.add_comm]

/-- Every position in a printable text is between two characters. -/
theorem takeBytes?_printable {i : Nat} (hi : i ≤ cs.length) :
    Text.takeBytes? i cs = some (cs.take i) := by
  have hlength : Text.byteLength (cs.take i) = i := by
    rw [byteLength_printable fun c hc => h c (List.mem_of_mem_take hc), List.length_take_of_le hi]
  have htake := Text.takeBytes?_byteLength (cs.take i) (cs.drop i)
  rwa [hlength, List.take_append_drop] at htake

theorem replaceBytes?_printable {i j : Nat} (hij : i ≤ j) (hj : j ≤ cs.length) (new : List Char) :
    Text.replaceBytes? i j new cs = some (cs.take i ++ new ++ cs.drop j) := by
  rw [Text.replaceBytes?, takeBytes?_printable h (Nat.le_trans hij hj), takeBytes?_printable h hj,
    Option.bind_some, Option.bind_some, if_pos hij, List.length_take_of_le hj]

end Printable

/-! ### Edits -/

namespace LineBuffer

/-- An edit of the line. -/
inductive Edit
  | insert (c : Char)
  | insertText (s : String)
  | append (s : String)
  | set (s : String)
  | backspace
  | delete
  | left
  | right
  | home
  | toEnd
  | reset
  /-- Takes out the text. -/
  | take
  | setOverwrite (on : Bool)
  | setCursorFromEnd (n : Nat)

/-- What an edit reports. -/
inductive Reply
  | none
  /-- A character was put in or taken out. -/
  | changed (b : Bool)
  /-- So many characters were put in. -/
  | count (n : Nat)
  | text (s : String)

/-- The line after an edit that may find nothing to do. -/
def attempt (b : LineBuffer) : Option LineBuffer → LineBuffer × Reply
  | some b' => (b', .changed true)
  | Option.none => (b, .changed false)

/-- The line after an edit, and what it reports. -/
def edit (b : LineBuffer) : Edit → LineBuffer × Reply
  | .insert c => (b.insert c, .changed (isLineChar c))
  | .insertText s => (b.insertText s, .count (accepted s))
  | .append s => (b.append s, .none)
  | .set s => (b.set s, .none)
  | .backspace => b.attempt b.backspace?
  | .delete => b.attempt b.delete?
  | .left => (b.moveLeft, .none)
  | .right => (b.moveRight, .none)
  | .home => (b.moveHome, .none)
  | .toEnd => (b.moveEnd, .none)
  | .reset => (b.reset, .none)
  | .take => (b.reset, .text b.text)
  | .setOverwrite on => (b.setOverwrite on, .none)
  | .setCursorFromEnd n => (b.setCursorFromEnd n, .none)

/-- What edits lead to one after the other, with all reports. -/
def replay {σ : Type} (step : σ → Edit → σ × Reply) (s : σ) : List Edit → σ × List Reply
  | [] => (s, [])
  | e :: edits =>
    ((replay step (step s e).1 edits).1, (step s e).2 :: (replay step (step s e).1 edits).2)

end LineBuffer

/-! ### The two sides -/

/-- The texts before and after the cursor. -/
structure Sides where
  before : List Char := []
  after : List Char := []
  overwrite : Bool := false

namespace Sides

open LineBuffer (Edit Reply)

/-- The characters of a text that are printable ASCII. -/
def typed (t : String) : List Char := t.toList.filter printable

/-- Characters go in before the cursor, in overwrite mode in the place of those after it. -/
def put (s : Sides) (cs : List Char) : Sides :=
  { s with
    before := s.before ++ cs
    after := if s.overwrite then s.after.drop cs.length else s.after }

/-- The whole text. -/
def chars (s : Sides) : List Char := s.before ++ s.after

/-- The two sides after an edit, and what it reports. -/
def edit (s : Sides) : Edit → Sides × Reply
  | .insert c => if printable c then (s.put [c], .changed true) else (s, .changed false)
  | .insertText t => (s.put (typed t), .count (typed t).length)
  | .append t => ({ s with after := s.after ++ typed t }, .none)
  | .set t => ({ s with before := typed t, after := [] }, .none)
  | .backspace => ({ s with before := s.before.dropLast }, .changed !s.before.isEmpty)
  | .delete => ({ s with after := s.after.tail }, .changed !s.after.isEmpty)
  | .left => match s.before.getLast? with
    | none => (s, .none)
    | some c => ({ s with before := s.before.dropLast, after := c :: s.after }, .none)
  | .right => match s.after with
    | [] => (s, .none)
    | c :: cs => ({ s with before := s.before ++ [c], after := cs }, .none)
  | .home => ({ s with before := [], after := s.chars }, .none)
  | .toEnd => ({ s with before := s.chars, after := [] }, .none)
  | .reset => ({ s with before := [], after := [] }, .none)
  | .take => ({ s with before := [], after := [] }, .text (String.ofList s.chars))
  | .setOverwrite on => ({ s with overwrite := on }, .none)
  | .setCursorFromEnd n => ({ s with before := s.chars.rdrop n, after := s.chars.rtake n }, .none)

/-- The line with the texts on the two sides of its cursor. -/
def line (s : Sides) : LineBuffer where
  chars := s.chars
  cursor := s.before.length
  overwrite := s.overwrite

variable (s : Sides)

theorem size_line : s.line.size = s.before.length + s.after.length := List.length_append

theorem rdrop_append_rtake (n : Nat) : s.chars.rdrop n ++ s.chars.rtake n = s.chars :=
  List.take_append_drop _ _

theorem put_put (xs ys : List Char) : (s.put xs).put ys = s.put (xs ++ ys) := by
  cases hover : s.overwrite <;> simp [put, hover]

/-! ### Edits of the line -/

/-- **Typing a character** puts it before the cursor. -/
theorem insert_line {c : Char} (hc : printable c = true) : s.line.insert c = (s.put [c]).line := by
  have hinsert : ∀ before after : List Char,
      (before ++ after).insertIdx before.length c = before ++ c :: after := by
    intro before after
    induction before with
    | nil => rfl
    | cons d before ih => rw [List.cons_append, List.length_cons, List.insertIdx_succ_cons, ih]; rfl
  obtain ⟨before, after, overwrite⟩ := s
  rw [LineBuffer.insert, isLineChar_eq, if_pos hc]
  cases overwrite with
  | false => simp [line, put, chars, hinsert]
  | true => cases after <;> simp [line, put, chars, LineBuffer.size]

/-- A refused character changes nothing. -/
theorem insert_refused {b : LineBuffer} {c : Char} (hc : ¬ printable c = true) : b.insert c = b := by
  rw [LineBuffer.insert, isLineChar_eq, if_neg hc]

/-- Typing a text puts its printable characters before the cursor. -/
theorem insertText_line (t : String) : s.line.insertText t = (s.put (typed t)).line := by
  have hchars : ∀ (cs : List Char) (s : Sides),
      cs.foldl LineBuffer.insert s.line = (s.put (cs.filter printable)).line := by
    intro cs
    induction cs with
    | nil => intro s; simp [put]
    | cons c cs ih =>
      intro s
      rw [List.foldl_cons]
      by_cases hc : printable c = true
      · rw [insert_line s hc, ih, put_put, List.filter_cons_of_pos hc, List.singleton_append]
      · rw [insert_refused hc, ih, List.filter_cons_of_neg hc]
  exact hchars t.toList s

theorem eraseIdx_length (before after : List Char) (c : Char) :
    (before ++ c :: after).eraseIdx before.length = before ++ after := by
  rw [List.eraseIdx_append_of_length_le (Nat.le_refl _), Nat.sub_self, List.eraseIdx_zero,
    List.tail_cons]

theorem backspace?_line : s.line.backspace? =
    if s.before = [] then none else some (s.edit .backspace).1.line := by
  obtain ⟨before, after, overwrite⟩ := s
  rcases List.eq_nil_or_concat' before with rfl | ⟨before, c, rfl⟩
  · rfl
  · simp [LineBuffer.backspace?, line, chars, edit, eraseIdx_length]

theorem delete?_line : s.line.delete? =
    if s.after = [] then none else some (s.edit .delete).1.line := by
  obtain ⟨before, after, overwrite⟩ := s
  cases after with
  | nil => simp [LineBuffer.delete?, line, chars, LineBuffer.size]
  | cons c after => simp [LineBuffer.delete?, line, chars, edit, LineBuffer.size, eraseIdx_length]

/-- **An edit of the line is one of its two sides.** -/
theorem edit_line (e : Edit) : s.line.edit e = ((s.edit e).1.line, (s.edit e).2) := by
  cases e with
  | insert c =>
    by_cases hc : printable c = true
    · rw [LineBuffer.edit, insert_line s hc, isLineChar_eq, edit, if_pos hc, hc]
    · rw [LineBuffer.edit, insert_refused hc, isLineChar_eq, edit, if_neg hc,
        Bool.eq_false_iff.mpr hc]
  | insertText t =>
    rw [LineBuffer.edit, insertText_line, LineBuffer.accepted, isLineChar_eq,
      List.countP_eq_length_filter]
    rfl
  | append t => simp [LineBuffer.edit, edit, LineBuffer.append, isLineChar_eq, line, chars, typed]
  | set t =>
    simp [LineBuffer.edit, edit, LineBuffer.set, LineBuffer.moveEnd, LineBuffer.append,
      LineBuffer.reset, LineBuffer.size, isLineChar_eq, line, chars, typed]
  | backspace =>
    rw [LineBuffer.edit, backspace?_line]
    obtain ⟨_ | ⟨c, before⟩, after, overwrite⟩ := s <;> rfl
  | delete =>
    rw [LineBuffer.edit, delete?_line]
    obtain ⟨before, _ | ⟨c, after⟩, overwrite⟩ := s <;> rfl
  | left =>
    obtain ⟨before, after, overwrite⟩ := s
    rcases List.eq_nil_or_concat' before with rfl | ⟨before, c, rfl⟩
    · rfl
    · simp [LineBuffer.edit, edit, LineBuffer.moveLeft, line, chars]
  | right =>
    obtain ⟨before, after, overwrite⟩ := s
    cases after <;> simp [LineBuffer.edit, edit, LineBuffer.moveRight, line, chars, LineBuffer.size]
  | home => simp [LineBuffer.edit, edit, LineBuffer.moveHome, line, chars]
  | toEnd => simp [LineBuffer.edit, edit, LineBuffer.moveEnd, line, chars, LineBuffer.size]
  | reset => rfl
  | take => rfl
  | setOverwrite on => rfl
  | setCursorFromEnd n =>
    have hcursor : (s.chars.rdrop n).length = s.chars.length - min n s.chars.length := by
      rw [List.rdrop, List.length_take]
      omega
    show (LineBuffer.mk s.chars (s.chars.length - min n s.chars.length) s.overwrite, Reply.none) =
      (LineBuffer.mk (s.chars.rdrop n ++ s.chars.rtake n) (s.chars.rdrop n).length s.overwrite, .none)
    rw [hcursor, s.rdrop_append_rtake]

/-- **Along any edits the line is that of its two sides**, with the same reports. -/
theorem replay_line (edits : List Edit) : ∀ s : Sides, LineBuffer.replay LineBuffer.edit s.line edits =
    ((LineBuffer.replay edit s edits).1.line, (LineBuffer.replay edit s edits).2) := by
  induction edits with
  | nil => exact fun s => rfl
  | cons e edits ih =>
    intro s
    rw [LineBuffer.replay, edit_line, ih]
    rfl

/-! ### Printable texts -/

/-- Both texts are printable ASCII. -/
def Printable : Prop := ∀ c ∈ s.chars, printable c = true

variable {s}

theorem mem_chars {c : Char} : c ∈ s.chars ↔ c ∈ s.before ∨ c ∈ s.after := List.mem_append

theorem Printable.put (h : s.Printable) {cs : List Char} (hcs : ∀ c ∈ cs, printable c = true) :
    (s.put cs).Printable := by
  intro c hc
  rcases mem_chars.mp hc with hbefore | hafter
  · rcases List.mem_append.mp hbefore with hold | hnew
    · exact h c (mem_chars.mpr (.inl hold))
    · exact hcs c hnew
  · refine h c (mem_chars.mpr (.inr ?_))
    rw [Sides.put] at hafter
    dsimp only at hafter
    split at hafter
    · exact List.mem_of_mem_drop hafter
    · exact hafter

/-- **Edits put in printable ASCII only.** -/
theorem Printable.edit (h : s.Printable) (e : Edit) : (s.edit e).1.Printable := by
  have htyped (t : String) : ∀ c ∈ typed t, printable c = true := fun c hc => (List.mem_filter.mp hc).2
  have hchars {t : Sides} (ht : t.chars ⊆ s.chars) : t.Printable := fun c hc => h c (ht hc)
  cases e with
  | insert c =>
    by_cases hc : printable c = true
    · rw [Sides.edit, if_pos hc]
      exact h.put (List.forall_mem_singleton.mpr hc)
    · rw [Sides.edit, if_neg hc]
      exact h
  | insertText t => exact h.put (htyped t)
  | append t =>
    intro c hc
    rcases mem_chars.mp hc with hold | hnew
    · exact h c (mem_chars.mpr (.inl hold))
    · rcases List.mem_append.mp hnew with hold | hnew
      · exact h c (mem_chars.mpr (.inr hold))
      · exact htyped t c hnew
  | set t =>
    intro c hc
    exact (mem_chars.mp hc).elim (htyped t c) fun hnone => nomatch hnone
  | backspace => exact hchars ((List.dropLast_sublist _).append_right _).subset
  | delete => exact hchars ((List.tail_sublist _).append_left _).subset
  | left =>
    obtain ⟨before, after, overwrite⟩ := s
    rcases List.eq_nil_or_concat' before with rfl | ⟨before, c, rfl⟩
    · exact h
    · exact hchars (by simp [Sides.edit, chars])
  | right =>
    obtain ⟨before, after, overwrite⟩ := s
    cases after with
    | nil => exact h
    | cons c after => exact hchars (by simp [Sides.edit, chars])
  | home => exact h
  | toEnd => exact hchars (by simp [Sides.edit, chars])
  | reset => exact fun _ hc => nomatch hc
  | take => exact fun _ hc => nomatch hc
  | setOverwrite on => exact h
  | setCursorFromEnd n => exact hchars fun c hc => s.rdrop_append_rtake n ▸ hc

theorem Printable.replay (edits : List Edit) :
    ∀ {s : Sides}, s.Printable → (LineBuffer.replay Sides.edit s edits).1.Printable := by
  induction edits with
  | nil => exact id
  | cons e edits ih => exact fun h => ih (h.edit e)

end Sides

namespace LineBuffer

/-- The line shows the two sides, and its positions are good ones. -/
structure Shows (b : LineBuffer) (s : Sides) : Prop where
  chars : b.chars = s.before ++ s.after
  cursor : b.cursor = s.before.length
  overwrite : b.overwrite = s.overwrite
  printable : ∀ c ∈ b.chars, 32 ≤ c.toNat ∧ c.toNat ≤ 126
  cursor_le : b.cursor ≤ b.size
  cursor_add : b.cursor + b.cursorFromEnd = b.size
  fromEnd : ∀ n, (b.setCursorFromEnd n).cursorFromEnd = min n b.size
  /-- Positions count bytes as well, and each one is between two characters. -/
  byteLength : Text.byteLength b.chars = b.size
  between : ∀ i ≤ b.size, Text.takeBytes? i b.chars = some (b.chars.take i)
  /-- Edits replace bytes that are there. -/
  insert : ∀ c, DevConsole.printable c = true → Text.replaceBytes? b.cursor
    (if b.overwrite && b.cursor < b.size then b.cursor + 1 else b.cursor) [c] b.chars =
      some (b.insert c).chars
  backspace : ∀ b', b.backspace? = some b' → 0 < b.cursor ∧
    Text.replaceBytes? (b.cursor - 1) b.cursor [] b.chars = some b'.chars
  delete : ∀ b', b.delete? = some b' →
    Text.replaceBytes? b.cursor (b.cursor + 1) [] b.chars = some b'.chars
  /-- Typing a text is typing its characters, so these edits are covered as well. -/
  insertText : ∀ t, b.insertText t = (replay edit b (t.toList.map .insert)).1

theorem foldl_insert (cs : List Char) :
    ∀ b : LineBuffer, cs.foldl insert b = (replay edit b (cs.map .insert)).1 := by
  induction cs with
  | nil => exact fun b => rfl
  | cons c cs ih => exact fun b => ih (b.insert c)

section Replaced
variable {s : Sides} (h : s.Printable)
include h

/-! ### Bytes -/

/-- Characters put in the place of some of those after the cursor. -/
theorem replaceBytes?_line {k : Nat} (hk : k ≤ s.after.length) (new : List Char) :
    Text.replaceBytes? s.line.cursor (s.line.cursor + k) new s.line.chars =
      some (s.before ++ new ++ s.after.drop k) := by
  have hle : s.line.cursor + k ≤ s.line.chars.length := by
    show s.before.length + k ≤ (s.before ++ s.after).length
    rw [List.length_append]
    exact Nat.add_le_add_left hk _
  have htake : s.line.chars.take s.line.cursor = s.before := List.take_left
  have hdrop : s.line.chars.drop (s.line.cursor + k) = s.after.drop k := List.drop_length_add_append k
  have hreplace := replaceBytes?_printable (show ∀ c ∈ s.line.chars, _ from h)
    (Nat.le_add_right s.line.cursor k) hle new
  rw [hreplace, htake, hdrop]

theorem replaceBytes?_insert {c : Char} (hc : DevConsole.printable c = true) :
    Text.replaceBytes? s.line.cursor
      (if s.line.overwrite && s.line.cursor < s.line.size then s.line.cursor + 1 else s.line.cursor)
      [c] s.line.chars = some (s.line.insert c).chars := by
  have hput {k : Nat} (hk : k ≤ s.after.length) (hafter : (s.put [c]).after = s.after.drop k) :
      Text.replaceBytes? s.line.cursor (s.line.cursor + k) [c] s.line.chars =
        some (s.put [c]).line.chars := by
    rw [replaceBytes?_line h hk, ← hafter]
    rfl
  rw [Sides.insert_line s hc]
  split
  · next hover =>
    obtain ⟨hoverwrite, hlt⟩ := Bool.and_eq_true_iff.mp hover
    rw [decide_eq_true_iff, s.size_line] at hlt
    exact hput (Nat.lt_add_right_iff_pos.mp hlt) (if_pos hoverwrite)
  · next hover =>
    refine hput (Nat.zero_le _) ?_
    rw [Sides.put, List.drop_zero]
    dsimp only
    split
    · next hoverwrite =>
      -- the cursor is at the end
      have hend : s.after = [] := by
        refine List.eq_nil_iff_length_eq_zero.mpr (Nat.eq_zero_of_not_pos fun hpos => hover ?_)
        rw [Bool.and_eq_true, decide_eq_true_iff, s.size_line]
        exact ⟨hoverwrite, Nat.lt_add_of_pos_right hpos⟩
      rw [hend, List.drop_nil]
    · rfl

theorem replaceBytes?_backspace {b : LineBuffer} (hb : s.line.backspace? = some b) :
    0 < s.line.cursor ∧
      Text.replaceBytes? (s.line.cursor - 1) s.line.cursor [] s.line.chars = some b.chars := by
  rw [Sides.backspace?_line] at hb
  obtain ⟨before, after, overwrite⟩ := s
  rcases List.eq_nil_or_concat' before with rfl | ⟨before, c, rfl⟩
  · cases hb
  · rw [if_neg (List.append_ne_nil_of_right_ne_nil _ (List.cons_ne_nil _ _))] at hb
    obtain rfl := Option.some.inj hb
    -- the character before the cursor is the one after it with the cursor one to the left
    have hchars : (before ++ [c]) ++ after = before ++ c :: after := List.append_cons _ _ _ |>.symm
    have hleft : (Sides.mk before (c :: after) overwrite).Printable := by
      show ∀ d ∈ before ++ c :: after, DevConsole.printable d = true
      rw [← hchars]
      exact h
    have hreplace := replaceBytes?_line hleft (k := 1) (Nat.le_add_left _ _) []
    have hlength : (before ++ [c]).length = before.length + 1 := List.length_append
    have hpos : 0 < (before ++ [c]).length := hlength ▸ Nat.succ_pos before.length
    refine ⟨hpos, ?_⟩
    show Text.replaceBytes? ((before ++ [c]).length - 1) (before ++ [c]).length []
      ((before ++ [c]) ++ after) = some ((before ++ [c]).dropLast ++ after)
    rw [hlength, hchars, List.dropLast_concat]
    rwa [List.append_nil] at hreplace

theorem replaceBytes?_delete {b : LineBuffer} (hb : s.line.delete? = some b) :
    Text.replaceBytes? s.line.cursor (s.line.cursor + 1) [] s.line.chars = some b.chars := by
  rw [Sides.delete?_line] at hb
  split at hb
  · cases hb
  · next hafter =>
    obtain rfl := Option.some.inj hb
    rw [replaceBytes?_line h (List.length_pos_iff.mpr hafter), List.append_nil, List.drop_one]
    rfl

/-- A line with two printable sides shows them. -/
theorem shows_line : Shows s.line s where
  chars := rfl
  cursor := rfl
  overwrite := rfl
  printable c hc := by
    have hprintable := h c hc
    rwa [DevConsole.printable, Bool.and_eq_true, decide_eq_true_iff, decide_eq_true_iff] at hprintable
  cursor_le := by rw [s.size_line]; exact Nat.le_add_right _ _
  cursor_add := by
    rw [cursorFromEnd, s.size_line]
    exact Nat.add_sub_cancel' (Nat.le_add_right _ _)
  fromEnd n := by
    show s.line.size - (s.line.size - min n s.line.size) = _
    omega
  byteLength := byteLength_printable h
  between i hi := takeBytes?_printable h hi
  insert c hc := replaceBytes?_insert h hc
  backspace b hb := replaceBytes?_backspace h hb
  delete b hb := replaceBytes?_delete h hb
  insertText t := foldl_insert t.toList _

end Replaced

/-- **The line is edited as its two sides**, along any edits of the empty line. -/
theorem edits_two_sided (edits : List Edit) :
    Shows (replay edit .empty edits).1 (replay Sides.edit {} edits).1 ∧
      (replay edit .empty edits).2 = (replay Sides.edit {} edits).2 := by
  have hrun : replay edit .empty edits = _ := Sides.replay_line edits {}
  rw [hrun]
  exact ⟨shows_line (Sides.Printable.replay edits fun _ hc => nomatch hc), rfl⟩

end LineBuffer

end DevConsole
