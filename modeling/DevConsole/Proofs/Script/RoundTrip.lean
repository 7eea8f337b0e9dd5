import DevConsole.Proofs.Disk.Written
import DevConsole.Proofs.Run.Reachable
import DevConsole.Proofs.Run.Recorded
import DevConsole.Proofs.Text.Trimmed

/-!
# Writing and reading recordings

A recording is written with a line feed after each of its lines, and the file is read as if each of
the lines were a script of its own (`lines_text`). Recorded lines are texts of stages, so they are not
empty and have no white space around them (`Reachable.recorded`). So the file gives the recorded lines
back exactly if none of them has a line feed in it or begins a comment (`read_writeScript`).
-/

namespace DevConsole

namespace Text

theorem linesFrom_append (ys : List Char) : ∀ xs line : List Char,
    linesFrom line (xs ++ '\n' :: ys) = linesFrom line (xs ++ ['\n']) ++ linesFrom [] ys
  | [], line => by simp [linesFrom]
  | c :: xs, line => by
    rw [List.cons_append, List.cons_append, linesFrom, linesFrom]
    split
    · rw [linesFrom_append ys xs [], List.cons_append]
    · exact linesFrom_append ys xs (c :: line)

/-- A line feed closes the last line, and begins no new one. -/
theorem linesFrom_concat : ∀ cs line : List Char, ∃ init last,
    linesFrom line (cs ++ ['\n']) = init ++ [dropReturn last] ∧
      linesFrom line cs = init ++ if last = [] then [] else [last]
  | [], line => ⟨[], line.reverse, by simp [linesFrom], by simp [linesFrom]⟩
  | c :: cs, line => by
    rw [List.cons_append, linesFrom, linesFrom]
    split
    · obtain ⟨init, last, hclosed, hopen⟩ := linesFrom_concat cs []
      exact ⟨dropReturn line.reverse :: init, last, by rw [hclosed]; rfl, by rw [hopen]; rfl⟩
    · exact linesFrom_concat cs (c :: line)

theorem trimChars_dropReturn (cs : List Char) : trimChars (dropReturn cs) = trimChars cs := by
  unfold dropReturn
  split
  · next hlast =>
    obtain ⟨init, rfl⟩ := List.getLast?_eq_some_iff.mp hlast
    rw [List.dropLast_concat, trimChars_concat_blank (by decide)]
  · rfl

end Text

namespace Script

/-- The line is a comment. -/
def isComment (cs : List Char) : Bool := ['/', '/'].isPrefixOf cs || cs.head? == some '#'

/-! ### Reading -/

theorem lines_append (s t : String) : lines (s ++ "\n" ++ t) = lines (s ++ "\n") ++ lines t := by
  have hfeed : "\n".toList = ['\n'] := by decide
  unfold lines Text.lines
  rw [String.toList_append, String.toList_append, hfeed, List.append_assoc, List.singleton_append,
    Text.linesFrom_append, List.map_append, List.map_append, List.filter_append]

theorem lines_newline (s : String) : lines (s ++ "\n") = lines s := by
  have hfeed : "\n".toList = ['\n'] := by decide
  obtain ⟨init, last, hclosed, hopen⟩ := Text.linesFrom_concat s.toList []
  unfold lines Text.lines
  rw [String.toList_append, hfeed, hclosed, hopen, List.map_append, List.map_append,
    List.map_append, List.map_append, List.filter_append, List.filter_append]
  refine congrArg _ ?_
  by_cases hlast : last = []
  · subst hlast
    decide
  · rw [if_neg hlast, List.map_singleton, List.map_singleton, List.map_singleton,
      List.map_singleton, Text.trim, Text.trim, String.toList_ofList, String.toList_ofList,
      Text.trimChars_dropReturn]

/-- **A recording is read line by line.** -/
theorem lines_text (r : Recorder) : lines r.text = r.lines.toList.flatMap lines := by
  unfold Recorder.text
  induction r.lines.toList with
  | nil => decide
  | cons line ls ih =>
    rw [List.map_cons, String.join_cons, lines_append, lines_newline, ih, List.flatMap_cons]

theorem of_mem_lines {text line : String} (h : line ∈ lines text) :
    '\n' ∉ line.toList ∧ isSkipped line.toList = false := by
  obtain ⟨h, hskipped⟩ := List.mem_filter.mp h
  obtain ⟨l, hl, rfl⟩ := List.mem_map.mp h
  refine ⟨fun hmem => Text.newline_notMem_of_mem_lines hl ?_, by simpa using hskipped⟩
  rw [Text.trim, String.toList_ofList] at hmem
  exact Text.mem_of_mem_trimChars hmem

theorem lines_eq_singleton {line : String} (htrim : Text.trim line = line)
    (hnewline : '\n' ∉ line.toList) (hskipped : isSkipped line.toList = false) :
    lines line = [line] := by
  have hne : line ≠ "" := by
    rintro rfl
    cases hskipped
  rw [lines, Text.lines_of_newline_notMem hnewline, if_neg hne, List.map_singleton, htrim]
  exact List.filter_cons_of_pos (by simp [hskipped])

/-- Lines are read as they are exactly if none is broken by a line feed or skipped. -/
theorem flatMap_lines_eq_iff {ls : List String} (htrim : ∀ line ∈ ls, Text.trim line = line) :
    ls.flatMap lines = ls ↔
      ∀ line ∈ ls, '\n' ∉ line.toList ∧ isSkipped line.toList = false := by
  constructor
  · intro heq line hline
    rw [← heq] at hline
    obtain ⟨text, -, hread⟩ := List.mem_flatMap.mp hline
    exact of_mem_lines hread
  · intro hall
    calc ls.flatMap lines = ls.flatMap fun line => [line] := by
          refine List.flatMap_congr fun line hline => ?_
          exact lines_eq_singleton (htrim line hline) (hall line hline).1 (hall line hline).2
      _ = ls := List.flatMap_singleton' ls

end Script

namespace Console

/-! ### Recorded lines -/

/-- A known stage has a text, without white space around it. -/
theorem text_of_known {t : Turn} {line : String} (h : t.known? = some line) :
    Text.trim line = line ∧ line ≠ "" := by
  unfold Turn.known? at h
  split at h
  · cases h
  · next text _ _ _ =>
    split at h
    · next hknows =>
      obtain rfl := Option.some.inj h
      have htext : (Stage.ofText text).text = Text.trim text := rfl
      refine ⟨by rw [htext, Text.trim_trim], fun hempty => ?_⟩
      have hchars : Text.trimChars text.toList = [] := by
        rw [htext, Text.trim] at hempty
        rw [← String.toList_ofList (l := Text.trimChars text.toList), hempty, String.toList_empty]
      have hhead : (Stage.ofText text).head? = none := by
        unfold Stage.ofText
        rw [hchars]
        rfl
      rw [knows, hhead] at hknows
      cases hknows
    · cases h

/-- The lines of a recording have a text, without white space around it. -/
theorem Reachable.recorded {c : Console} (h : c.Reachable) :
    ∀ line ∈ c.recorder.lines, Text.trim line = line ∧ line ≠ "" := by
  induction h with
  | new settings =>
    have hlines : (Console.new settings).recorder.lines = #[] :=
      new_induction (P := fun c => c.recorder.lines = #[]) settings rfl
        (fun c v hc => by rw [(sameSetup_registerVariable c v).recorder, hc])
        fun c k _ hc => by rw [(sameSetup_addCommand c k).recorder, hc]
    intro line hline
    rw [hlines] at hline
    cases Array.not_mem_empty line hline
  | @call c d limit k hc hd ih =>
    cases k with
    | enter e =>
      have hresult : (e.watched limit c).result = some d := (e.watched_result limit c).trans hd
      intro line hline
      rcases comesFrom_law.pipeLaw.entrance limit c e d hresult line hline with hold | ⟨t, -, hknown⟩
      · exact ih line hold
      · exact text_of_known hknown
    | operation o =>
      obtain rfl := Option.some.inj hd
      exact fun line hline => ih line (lines_perform hline)
    | addCommand k =>
      obtain rfl := Option.some.inj hd
      rw [(sameSetup_addCommand c k).recorder]
      exact ih
    | files disk =>
      obtain rfl := Option.some.inj hd
      exact ih

/-- **A recorded script is read back line by line.** The file that a recording was written to is read
as if each of the recorded lines were a script of its own. The recorded lines come back, as many as
the writing answered, exactly if none of them has a line feed in it or begins a comment. -/
theorem read_writeScript {c d : Console} {path : String} {n : Nat} (hc : c.Reachable)
    (h : c.writeScript path = (.ok n, d)) :
    n = c.recorder.lines.size ∧
      Script.read d.disk path = .ok (c.recorder.lines.toList.flatMap Script.lines) ∧
      (Script.read d.disk path = .ok c.recorder.lines.toList ↔
        ∀ line ∈ c.recorder.lines, '\n' ∉ line.toList ∧ Script.isComment line.toList = false) := by
  unfold writeScript Script.write at h
  cases hwrite : c.disk.write path c.recorder.text.toUTF8 with
  | error fault => rw [hwrite] at h; cases h
  | ok disk =>
    rw [hwrite] at h
    obtain ⟨hn, rfl⟩ := Prod.mk.inj h
    have hread : Script.read disk path =
        .ok (c.recorder.lines.toList.flatMap Script.lines) := by
      rw [Script.read, Disk.readText_write hwrite, ← Script.lines_text]
    refine ⟨(Except.ok.inj hn).symm, hread, ?_⟩
    show Script.read disk path = _ ↔ _
    rw [hread, Except.ok.injEq, Script.flatMap_lines_eq_iff fun line hline =>
      (hc.recorded line (Array.mem_toList_iff.mp hline)).1]
    simp only [Array.mem_toList_iff]
    refine forall_congr' fun line => forall_congr' fun hline => and_congr_right fun _ => ?_
    have hne : line.toList.isEmpty = false := by
      rw [List.isEmpty_eq_false_iff, ne_eq, String.toList_eq_nil_iff]
      exact (hc.recorded line hline).2
    rw [Script.isSkipped, Script.isComment, hne, Bool.false_or]

/-- A console with a command whose name begins a comment, while a recording is on. -/
def commenting : Console :=
  ((Console.new {}).addCommand
    { name := "#hi", description := none, handler := fun _ => .info "hi" }).2.startRecording

theorem reachable_commenting : commenting.Reachable :=
  @Reachable.call _ _ 0 (.operation .startRecording) ((Reachable.new {}).addCommand _) rfl

/-- The line of a command whose name begins a comment does not come back. -/
theorem read_writeScript_commenting : ∃ c d : Console, c.writeScript "s" = (.ok 2, d) ∧
    c.recorder.lines.toList = ["echo a", "#hi"] ∧ Script.read d.disk "s" = .ok ["echo a"] := by
  have hrun : (commenting.execute 5 "echo a; #hi").map (fun c =>
      (c.recorder.lines.toList, (c.writeScript "s").1.toOption)) =
        some (["echo a", "#hi"], some 2) := by decide +kernel
  obtain ⟨c, hc, hpair⟩ := Option.map_eq_some_iff.mp hrun
  obtain ⟨hlines, hanswer⟩ := Prod.mk.inj hpair
  have hreach : c.Reachable :=
    @Reachable.call _ c 5 (.enter (.execute "echo a; #hi")) reachable_commenting hc
  cases hwrite : c.writeScript "s" with
  | mk answer d =>
    rw [hwrite] at hanswer
    cases answer with
    | error e => cases hanswer
    | ok n =>
      obtain rfl : n = 2 := Option.some.inj hanswer
      obtain ⟨-, hread, -⟩ := read_writeScript hreach hwrite
      refine ⟨c, d, hwrite, hlines, ?_⟩
      rw [hread, hlines]
      decide +kernel

end Console

end DevConsole
