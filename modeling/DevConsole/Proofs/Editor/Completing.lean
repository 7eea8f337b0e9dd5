import DevConsole.Proofs.Editor.Cuts
import DevConsole.Proofs.Editor.Sides
import DevConsole.Proofs.Run.TablesReachable

/-!
# Completing a line again

While several names begin with a word, completion puts in its place the beginning that all of them
share. The new line is split at the same place, since no character of a name ends a word and no name
starts with the marker (`LastWord.splitLastWord_eq`), and the longer word has the same candidates
(`candidates_commonLead`). So completing the new line changes nothing more (`complete_again`).
-/

namespace DevConsole

open Text

/-! ### Beginnings of names -/

theorem startsName_iff {lead name : String} :
    startsName lead name = true ↔ foldChars lead.toList <+: foldChars name.toList :=
  List.isPrefixOf_iff_prefix

theorem startsName_trans {a b c : String} (hab : startsName a b = true) (hbc : startsName b c = true) :
    startsName a c = true :=
  startsName_iff.mpr ((startsName_iff.mp hab).trans (startsName_iff.mp hbc))

/-- A text begins a name exactly if it is a beginning of the name, but for case. -/
theorem startsName_iff_exists {lead name : String} : startsName lead name = true ↔
    ∃ p, p <+: name.toList ∧ foldChars p = foldChars lead.toList := by
  rw [startsName_iff]
  constructor
  · intro h
    refine ⟨name.toList.take lead.toList.length, List.take_prefix _ _, ?_⟩
    have htake := List.prefix_iff_eq_take.mp h
    rw [foldChars, foldChars, List.length_map, ← List.map_take] at htake
    exact htake.symm
  · rintro ⟨p, hp, hfold⟩
    rw [← hfold]
    exact hp.map _

/-- `lead` is as much as all the names share from the word on, but for case. -/
structure LongestLead (word lead : String) (names : List String) : Prop where
  /-- The word is its beginning. -/
  extends_word : startsName word lead = true
  begins : ∀ name ∈ names, startsName lead name = true
  /-- Whatever begins all the names is a beginning of it, and so no longer than it. -/
  longest : ∀ longer, (∀ name ∈ names, startsName longer name = true) → startsName longer lead = true

/-- Of two beginnings of a text the one with fewer bytes is a beginning of the other. -/
theorem isPrefix_of_byteLength_le {as bs cs : List Char} (ha : as <+: cs) (hb : bs <+: cs)
    (h : byteLength as ≤ byteLength bs) : as <+: bs := by
  rcases List.prefix_or_prefix_of_prefix ha hb with hshort | ⟨more, rfl⟩
  · exact hshort
  · rw [byteLength_append] at h
    have hnone : byteLength more = 0 := by omega
    rw [byteLength_eq_zero_iff.mp hnone, List.append_nil]

theorem commonLead_isPrefix (first : String) (names : List String) :
    (commonLead (first :: names)).toList <+: first.toList :=
  isPrefix_of_takeBytes? (takeBytes?_commonLead first names)

theorem byteLength_commonLead (first : String) (names : List String) :
    byteLength (commonLead (first :: names)).toList = commonLength (first :: names) :=
  byteLength_of_takeBytes? (takeBytes?_commonLead first names)

/-- All names begin with what they share. -/
theorem startsName_commonLead {names : List String} {name : String} (hname : name ∈ names) :
    startsName (commonLead names) name = true := by
  obtain ⟨first, rest, rfl⟩ := List.exists_cons_of_ne_nil (List.ne_nil_of_mem hname)
  have hlead := commonLead_isPrefix first rest
  rcases List.mem_cons.mp hname with rfl | hrest
  · exact startsName_iff_exists.mpr ⟨_, hlead, rfl⟩
  · have hshared := (le_commonLength_iff hlead).mp (byteLength_commonLead first rest).le
    obtain ⟨part, hpart, hfold⟩ := hshared name hrest
    exact startsName_iff_exists.mpr ⟨part, isPrefix_of_takeBytes? hpart, hfold⟩

/-- What begins all names is a beginning of what they share. -/
theorem startsName_commonLead_of_forall {names : List String} (hnames : names ≠ []) {longer : String}
    (h : ∀ name ∈ names, startsName longer name = true) :
    startsName longer (commonLead names) = true := by
  obtain ⟨first, rest, rfl⟩ := List.exists_cons_of_ne_nil hnames
  obtain ⟨p, hp, hfold⟩ := startsName_iff_exists.mp (h first List.mem_cons_self)
  have hlead := commonLead_isPrefix first rest
  have hle : byteLength p ≤ byteLength (commonLead (first :: rest)).toList := by
    rw [byteLength_commonLead, le_commonLength_iff hp]
    intro name hname
    obtain ⟨q, hq, hqfold⟩ := startsName_iff_exists.mp (h name (List.mem_cons_of_mem _ hname))
    refine ⟨q, takeBytes?_eq_some_iff.mpr ⟨hq, ?_⟩, hqfold.trans hfold.symm⟩
    rw [← byteLength_foldChars, hqfold, ← hfold, byteLength_foldChars]
  exact startsName_iff_exists.mpr ⟨p, isPrefix_of_byteLength_le hp hlead hle, hfold⟩

theorem longestLead_commonLead {word : String} {names : List String} (hnames : names ≠ [])
    (hword : ∀ name ∈ names, startsName word name = true) :
    LongestLead word (commonLead names) names where
  extends_word := startsName_commonLead_of_forall hnames hword
  begins _ := startsName_commonLead
  longest _ := startsName_commonLead_of_forall hnames

/-! ### The last word of the completed line -/

/-- **A line has one last word**: it is split where it was put together, if the word does not start
with the marker. -/
theorem LastWord.splitLastWord_eq {cs before word : List Char} (h : LastWord cs before word)
    (hmarker : word.head? ≠ some '@') : splitLastWord cs = (before, word) := by
  obtain rfl := h.append
  rcases h.start with hstart | ⟨outer, rfl, hstart⟩
  · rw [splitLastWord_append hstart h.bare, leaveMarker_of_ne hmarker]
  · have hbare : ∀ c ∈ '@' :: word, endsWord c = false :=
      List.forall_mem_cons.mpr ⟨by decide, h.bare⟩
    rw [List.append_assoc, List.singleton_append, splitLastWord_append hstart hbare]
    rfl

/-- No character of a name ends a word, and no name starts with the marker. -/
theorem isName_chars {name : String} (h : isName name = true) :
    (∀ c ∈ name.toList, endsWord c = false) ∧ name.toList.head? ≠ some '@' := by
  unfold isName at h
  simp only [Bool.and_eq_true, Bool.not_eq_true', List.any_eq_false, bne_iff_ne] at h
  obtain ⟨⟨-, hmarker⟩, hbarred⟩ := h
  refine ⟨fun c hc => ?_, hmarker⟩
  have hc := hbarred c hc
  simp only [barredFromNames, Bool.or_eq_true, not_or, Bool.not_eq_true] at hc
  simp only [endsWord, statementSeparator, stageSeparator, hc, Bool.or_false]

/-- **The beginning of a name in the place of the last word is the last word.** -/
theorem LastWord.splitLastWord_replaced {cs before word new : List Char} (h : LastWord cs before word)
    {name : String} (hname : isName name = true) (hnew : new <+: name.toList) :
    splitLastWord (before ++ new) = (before, new) := by
  obtain ⟨hbare, hmarker⟩ := isName_chars hname
  have hreplaced : LastWord (before ++ new) before new :=
    ⟨rfl, fun c hc => hbare c (hnew.mem hc), h.start⟩
  refine hreplaced.splitLastWord_eq fun hhead => hmarker ?_
  obtain ⟨rest, hrest⟩ := hnew
  rw [← hrest, List.head?_append, hhead, Option.some_or]

/-- A printable text in the place of the last word of a printable line. -/
theorem printable_replaced {cs : List Char} (hcs : ∀ c ∈ cs, printable c = true) {new : String}
    (hnew : ∀ c ∈ new.toList, printable c = true) :
    ∀ c ∈ (String.ofList (splitLastWord cs).1 ++ new).toList, printable c = true := by
  intro c hc
  rw [String.toList_append, String.toList_ofList] at hc
  rcases List.mem_append.mp hc with hbefore | hnew'
  · refine hcs c ?_
    rw [← (lastWord_splitLastWord cs).append]
    exact List.mem_append_left _ hbefore
  · exact hnew c hnew'

/-! ### The candidates for the longer word -/

/-- Which names there are decides which are kept. -/
theorem Merged.eq_of_mem_iff {names names' kept kept' : List String} (h : Merged names kept)
    (h' : Merged names' kept') (hmem : ∀ name, name ∈ names ↔ name ∈ names') : kept = kept' := by
  refine eq_of_ascending id h.ascending h'.ascending fun name => ?_
  rw [h.mem_iff, h'.mem_iff]
  simp only [hmem]

section candidates
variable {H : Type} {commands : Commands H} {vars : Variables} {aliases : Aliases}
  (hcommands : commands.registry.Grown) (hvars : vars.registry.Grown)
  (haliases : aliases.registry.Grown)
include hcommands hvars haliases

/-- The candidates for a word are registered names that begin with it. -/
theorem of_mem_candidates {word name : String} (h : name ∈ candidates commands vars aliases word) :
    IsRegistered commands vars aliases name ∧ startsName word name = true :=
  (mem_startingWith_iff hcommands hvars haliases word name).mp
    ((merged_candidates hcommands hvars haliases word).mem name h)

/-- Words that begin the same registered names have the same candidates. -/
theorem candidates_congr {a b : String} (h : ∀ name, IsRegistered commands vars aliases name →
    startsName a name = startsName b name) :
    candidates commands vars aliases a = candidates commands vars aliases b := by
  refine (merged_candidates hcommands hvars haliases a).eq_of_mem_iff
    (merged_candidates hcommands hvars haliases b) fun name => ?_
  rw [mem_startingWith_iff hcommands hvars haliases, mem_startingWith_iff hcommands hvars haliases]
  exact and_congr_right fun hname => by rw [h name hname]

/-- **The beginning that all candidates for a word share has the same candidates.** -/
theorem candidates_commonLead {word : String} (hne : candidates commands vars aliases word ≠ []) :
    candidates commands vars aliases (commonLead (candidates commands vars aliases word)) =
      candidates commands vars aliases word := by
  have hmerged := merged_candidates hcommands hvars haliases word
  have hlead := longestLead_commonLead hne fun name hname =>
    (of_mem_candidates hcommands hvars haliases hname).2
  refine candidates_congr hcommands hvars haliases fun name hname => Bool.eq_iff_iff.mpr ⟨?_, ?_⟩
  · exact startsName_trans hlead.extends_word
  · intro hword
    -- another spelling of the name is a candidate
    obtain ⟨k, hk, hsame, -⟩ := hmerged.first name
      ((mem_startingWith_iff hcommands hvars haliases word name).mpr ⟨hname, hword⟩)
    rw [← startsName_congr hsame]
    exact hlead.begins k hk

end candidates

/-! ### The line -/

namespace LineBuffer

theorem chars_set (b : LineBuffer) (s : String) : (b.set s).chars = s.toList.filter isLineChar :=
  List.nil_append _

/-- A line that is set holds the whole text if the text is printable. -/
theorem text_set (b : LineBuffer) {s : String} (h : ∀ c ∈ s.toList, printable c = true) :
    (b.set s).text = s := by
  have hall : s.toList.filter isLineChar = s.toList :=
    List.filter_eq_self.mpr fun c hc => by rw [isLineChar_eq, h c hc]
  rw [text, chars_set, hall, String.ofList_toList]

/-- What the line held does not matter once it is set again. -/
@[simp] theorem set_set (b : LineBuffer) (s t : String) : (b.set s).set t = b.set t := rfl

end LineBuffer

namespace Console

theorem line_print (c : Console) (level : Level) (message : String) :
    (c.print level message).line = c.line := by
  unfold print
  split
  · rfl
  · show (c.toSink ⟨level, message⟩).line = c.line
    unfold toSink
    split <;> rfl

theorem line_printAll (c : Console) (names : List String) :
    (names.foldl (fun c name => c.print .result ("  " ++ name)) c).line = c.line := by
  induction names generalizing c with
  | nil => rfl
  | cons name names ih => exact (ih _).trans (c.line_print _ _)

section complete
variable {c : Console} {part : String} {before word : List Char}
  (hsplit : splitLastWord part.toList = (before, word))
include hsplit

theorem count_complete (display auto : Bool) : (c.complete part display auto).1 =
    (candidates c.commands c.vars c.aliases (String.ofList word)).length := by
  unfold complete
  rw [hsplit]

/-- **With several candidates** the line becomes what is before the word and what they share. -/
theorem line_complete (display auto : Bool)
    (hseveral : 1 < (candidates c.commands c.vars c.aliases (String.ofList word)).length) :
    (c.complete part display auto).2.line =
      if auto then c.line.set (String.ofList before ++
        commonLead (candidates c.commands c.vars c.aliases (String.ofList word))) else c.line := by
  unfold complete
  rw [hsplit]
  dsimp only
  generalize candidates c.commands c.vars c.aliases (String.ofList word) = names at hseveral
  have hne : names ≠ [] := List.ne_nil_of_length_pos (Nat.zero_lt_of_lt hseveral)
  have hline : (if display && 1 < names.length then
      names.foldl (fun d name => d.print .result ("  " ++ name)) c else c).line = c.line := by
    split
    · exact c.line_printAll names
    · rfl
  revert hline
  generalize (if display && 1 < names.length then
    names.foldl (fun d name => d.print .result ("  " ++ name)) c else c) = d
  intro hline
  cases auto with
  | false => exact hline
  | true => simp [hne, hline, Nat.ne_of_gt hseveral]

end complete

/-- The names of all entries are printable ASCII. -/
def PlainNames (c : Console) : Prop := ∀ name ∈ c.names, ∀ ch ∈ name.toList, printable ch = true

section names
variable {c : Console} (h : c.TablesReachable)
include h

theorem mem_names_of_mem_candidates {word name : String}
    (hname : name ∈ candidates c.commands c.vars c.aliases word) :
    name ∈ c.names ∧ startsName word name = true := by
  rw [mem_names_iff]
  exact of_mem_candidates h.grown.commands h.grown.vars h.grown.aliases hname

/-- What the candidates share is a beginning of a name. -/
theorem exists_commonLead_isPrefix {word : String}
    (hne : candidates c.commands c.vars c.aliases word ≠ []) : ∃ name ∈ c.names,
      (commonLead (candidates c.commands c.vars c.aliases word)).toList <+: name.toList := by
  obtain ⟨first, rest, hnames⟩ := List.exists_cons_of_ne_nil hne
  have hfirst : first ∈ candidates c.commands c.vars c.aliases word := by
    rw [hnames]
    exact List.mem_cons_self
  rw [hnames]
  exact ⟨first, (mem_names_of_mem_candidates h hfirst).1, commonLead_isPrefix first rest⟩

end names

/-- **Completing a line with several candidates a second time changes nothing.** The line buffer holds
what is before the last word and the longest text that begins all candidates, an extension of the word
but for case. Completing that line again finds the same candidates and leaves the line the same. -/
theorem complete_again {c : Console} (h : c.TablesReachable) (hplain : c.PlainNames) {part : String}
    (hpart : ∀ ch ∈ part.toList, printable ch = true) (display : Bool)
    (hseveral : 1 < (c.complete part display true).1) :
    let before := String.ofList (splitLastWord part.toList).1
    let word := String.ofList (splitLastWord part.toList).2
    let names := candidates c.commands c.vars c.aliases word
    let done := (c.complete part display true).2
    done.completion = .ofNames before names ∧
    ∃ lead, done.line.text = before ++ lead ∧ LongestLead word lead names ∧
      ∀ display' auto, let again := done.complete done.line.text display' auto
        again.1 = names.length ∧ again.2.completion = done.completion ∧ again.2.line = done.line := by
  have hlast := lastWord_splitLastWord part.toList
  have hcompletion := c.completion_complete part display true
  have htables := sameTables_complete c part display true
  obtain ⟨⟨before, word⟩, hsplit⟩ : ∃ split, splitLastWord part.toList = split := ⟨_, rfl⟩
  rw [count_complete hsplit] at hseveral
  have hline := line_complete hsplit display true hseveral
  have hne : candidates c.commands c.vars c.aliases (String.ofList word) ≠ [] :=
    List.ne_nil_of_length_pos (Nat.zero_lt_of_lt hseveral)
  have hlead := longestLead_commonLead hne fun name hname => (mem_names_of_mem_candidates h hname).2
  have hsame := candidates_commonLead h.grown.commands h.grown.vars h.grown.aliases hne
  obtain ⟨name, hname, hbegins⟩ := exists_commonLead_isPrefix h hne
  rw [hsplit] at hlast hcompletion ⊢
  dsimp only at hlast hcompletion ⊢
  generalize (c.complete part display true).2 = done at *
  generalize candidates c.commands c.vars c.aliases (String.ofList word) = names at *
  have htext : done.line.text = String.ofList before ++ commonLead names := by
    rw [hline, if_pos rfl]
    refine c.line.text_set ?_
    have hprintable := printable_replaced hpart fun ch hch => hplain name hname ch (hbegins.mem hch)
    rwa [hsplit] at hprintable
  have hagain : splitLastWord done.line.text.toList = (before, (commonLead names).toList) := by
    rw [htext, String.toList_append, String.toList_ofList]
    exact hlast.splitLastWord_replaced (h.isName hname) hbegins
  have hfound : candidates done.commands done.vars done.aliases
      (String.ofList (commonLead names).toList) = names := by
    rw [htables.commands, htables.vars, htables.aliases, String.ofList_toList, hsame]
  refine ⟨hcompletion, commonLead names, htext, hlead, fun display' auto => ⟨?_, ?_, ?_⟩⟩
  · rw [count_complete hagain, hfound]
  · rw [completion_complete, hagain, hfound, hcompletion]
  · rw [line_complete hagain display' auto (hfound.symm ▸ hseveral), hfound, hline]
    cases auto with
    | false => rfl
    | true => exact c.line.set_set _ _

/-- A console with an alias that begins like a command, in other letters. -/
def helmed : Console := (telling.perform (.setAlias "HELM" "x")).2

theorem reachable_helmed : helmed.Reachable := reachable_telling.perform _

theorem plainNames_helmed : helmed.PlainNames := by
  have hall : (helmed.names.all fun name => name.toList.all printable) = true := by decide +kernel
  simp only [List.all_eq_true] at hall
  exact hall

theorem candidates_helmed :
    candidates helmed.commands helmed.vars helmed.aliases "he" = ["HELM", "help"] := by
  have hgrown := reachable_helmed.tables.grown
  have hkept : Merged ["help", "HELM"] ["HELM", "help"] :=
    ⟨List.pairwise_pair.mpr (before_iff.mpr (by decide +kernel)), by decide, by decide +kernel⟩
  have hunion : helmed.commands.startingWith "he" ++ helmed.vars.startingWith "he" ++
      helmed.aliases.startingWith "he" = ["help", "HELM"] := by decide +kernel
  have hmerged := merged_candidates hgrown.commands hgrown.vars hgrown.aliases "he"
  rw [hunion] at hmerged
  exact hmerged.eq_of_mem_iff hkept fun _ => Iff.rfl

/-- The word after a marker gets the letters that the candidates share. -/
theorem complete_again_helmed :
    let done := (helmed.complete "echo; @he" true true).2
    ∃ lead, done.line.text = "echo; @" ++ lead ∧ LongestLead "he" lead ["HELM", "help"] ∧
      ∀ display auto, let again := done.complete done.line.text display auto
        again.1 = 2 ∧ again.2.completion = done.completion ∧ again.2.line = done.line := by
  have hsplit : splitLastWord "echo; @he".toList = ("echo; @".toList, "he".toList) := by decide +kernel
  have hseveral : 1 < (helmed.complete "echo; @he" true true).1 := by
    rw [count_complete hsplit, String.ofList_toList, candidates_helmed]
    decide
  have hprintable : ∀ ch ∈ "echo; @he".toList, printable ch = true :=
    List.all_eq_true.mp (by decide +kernel)
  obtain ⟨-, lead, htext, hlead, hagain⟩ :=
    complete_again reachable_helmed.tables plainNames_helmed hprintable true hseveral
  rw [hsplit, String.ofList_toList] at htext
  rw [hsplit, String.ofList_toList, candidates_helmed] at hlead hagain
  exact ⟨lead, htext, hlead, hagain⟩

end Console

end DevConsole
