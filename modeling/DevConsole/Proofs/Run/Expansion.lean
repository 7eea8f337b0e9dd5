import DevConsole.Proofs.Run.Alongside
import DevConsole.Proofs.Run.Captured
import DevConsole.Proofs.Run.Names
import DevConsole.Proofs.Run.Sequencing
import DevConsole.Proofs.Run.Termination

/-!
# Aliases and their texts

A line that calls an alias leaves the console as the text of the alias does when it is run in its
place, with the words of the line behind it (`nested_alias`). On the way to the text the line does
nothing but expand the alias (`watched_alias`). From there on the text runs with one alias more
expanded than when it is run directly, and the runs go on side by side (`mirrors_line`), however they
change the aliases. The built-in commands cannot tell them apart (`Builtin.steady_of_mem`).
-/

namespace DevConsole

/-! ### The built-in commands -/

namespace Builtin

open Routine

theorem steady_print (level : Level) (message : String) {next : Routine} (h : next.Steady) :
    (Routine.print level message next).Steady := .perform (.inl rfl) fun _ => h

theorem steady_message (level : Level) (message : String) : (Routine.print level message).Steady :=
  steady_print level message .done

theorem steady_infoAll {next : Routine} (h : next.Steady) :
    ∀ messages : List String, (infoAll messages next).Steady
  | [] => h
  | message :: messages => steady_print .info message (steady_infoAll h messages)

/-- Messages and nothing after them. -/
theorem steady_messages (messages : List String) : (infoAll messages).Steady :=
  steady_infoAll .done messages

variable (args : Args)

theorem steady_help : (help args).Steady := by
  unfold help
  split
  · exact steady_messages _
  · refine .inspect (fun _ _ => rfl) fun s => ?_
    split
    · exact steady_messages _
    · exact steady_message _ _

theorem steady_aliases : (aliases args).Steady := by
  unfold aliases
  split
  · refine .inspect (fun _ _ => rfl) fun s => ?_
    split
    · exact steady_message _ _
    · exact steady_messages _
  · refine .inspect (fun _ _ => rfl) fun s => ?_
    split
    · exact steady_message _ _
    · exact steady_message _ _
  · refine .perform (.inl rfl) fun r => ?_
    cases r with
    | ok u => exact .done
    | error e => exact steady_message _ _

theorem steady_unalias : (unalias args).Steady := by
  unfold unalias
  split
  · exact steady_message _ _
  · refine .perform (.inl rfl) fun found => ?_
    split
    · exact .done
    · exact steady_message _ _

theorem steady_set : (set args).Steady := by
  unfold set
  split
  · refine .inspect (fun _ _ => rfl) fun s => ?_
    split
    · exact .perform (.inl rfl) fun _ => .done
    · refine .perform (.inl rfl) fun r => ?_
      cases r with
      | ok u => exact .done
      | error e => exact steady_message _ _
  · exact steady_message _ _

theorem steady_reset : (reset args).Steady := by
  unfold reset
  split
  · exact steady_message _ _
  · refine .inspect (fun _ _ => rfl) fun s => ?_
    split
    · exact steady_message _ _
    · exact .perform (.inl rfl) fun _ => .done

theorem steady_toggle : (toggle args).Steady := by
  unfold toggle
  split
  · exact steady_message _ _
  · refine .inspect (fun _ _ => rfl) fun s => ?_
    split
    · refine .perform (.inl rfl) fun written => ?_
      split
      · exact steady_message _ _
      · exact .done
    · exact steady_message _ _

theorem steady_exec : (exec args).Steady := by
  unfold exec
  split
  · exact steady_message _ _
  · refine .execFile fun r => ?_
    cases r with
    | ok n => exact .perform (.inl rfl) fun _ => .done
    | error e => exact steady_message _ _

theorem steady_stoprecord : (stoprecord args).Steady := by
  refine .inspect (fun _ _ => rfl) fun s => ?_
  split
  · exact .perform (.inr rfl) fun _ => steady_message _ _
  · exact steady_message _ _

theorem steady_writescript : (writescript args).Steady := by
  unfold writescript
  split
  · exact steady_message _ _
  · refine .perform (.inl rfl) fun r => ?_
    cases r with
    | ok n => exact steady_message _ _
    | error e => exact steady_message _ _

theorem steady_writeconfig : (writeconfig args).Steady := by
  refine .inspect (fun _ _ => rfl) fun s => .perform (.inl rfl) fun r => ?_
  cases r with
  | ok n => exact steady_message _ _
  | error e => exact steady_message _ _

theorem steady_loadconfig : (loadconfig args).Steady := by
  refine .inspect (fun _ _ => rfl) fun s => .perform (.inl rfl) fun r => ?_
  cases r with
  | ok n => exact steady_message _ _
  | error e => exact steady_message _ _

theorem steady_grep : (grep args).Steady := by
  unfold grep
  split
  · exact steady_message _ _
  · refine .perform (.inl rfl) fun piped => ?_
    cases piped with
    | some lines => exact steady_messages _
    | none => exact steady_message _ _

theorem steady_sort : (sort args).Steady := by
  refine .perform (.inl rfl) fun piped => ?_
  cases piped with
  | some lines => exact steady_messages _
  | none => exact steady_message _ _

/-- **The built-in commands are steady.** -/
theorem steady_of_mem {k : Command Handler} (hk : k ∈ commands) : (k.handler args).Steady := by
  simp only [commands, List.mem_cons, List.not_mem_nil, or_false] at hk
  rcases hk with rfl | rfl | rfl | rfl | rfl | rfl | rfl | rfl | rfl | rfl | rfl | rfl | rfl | rfl |
    rfl | rfl | rfl | rfl | rfl
  · exact steady_help args
  · exact .inspect (fun _ _ => rfl) fun s => steady_messages _
  · exact .inspect (fun _ _ => rfl) fun s => steady_infoAll (steady_message _ _) _
  · exact steady_message _ _
  · exact steady_aliases args
  · exact steady_unalias args
  · exact steady_set args
  · exact steady_reset args
  · exact steady_toggle args
  · exact .inspect (fun _ _ => rfl) fun s => steady_messages _
  · exact .perform (.inl rfl) fun _ => .done
  · exact steady_exec args
  · exact .record
  · exact steady_stoprecord args
  · exact steady_writescript args
  · exact steady_writeconfig args
  · exact steady_loadconfig args
  · exact steady_grep args
  · exact steady_sort args

end Builtin

/-! ### The line that calls an alias -/

theorem isWord_of_isName {name : String} (h : isName name = true) : IsWord name := by
  unfold isName at h
  simp only [Bool.and_eq_true, Bool.not_eq_true', List.isEmpty_eq_false_iff] at h
  obtain ⟨⟨hne, -⟩, hbarred⟩ := h
  refine ⟨fun h => hne (String.toList_eq_nil_iff.mpr h), fun c hc => ?_⟩
  have hc' : barredFromNames c = false := Bool.eq_false_iff.mpr (List.any_eq_false.mp hbarred c hc)
  unfold barredFromNames at hc'
  unfold endsWord statementSeparator stageSeparator
  simp only [Bool.or_eq_false_iff] at hc' ⊢
  exact hc'.1

theorem marker_of_isName {name : String} (h : isName name = true) :
    name.toList.head? ≠ some silentMarker := by
  unfold isName at h
  simp only [Bool.and_eq_true] at h
  exact bne_iff_ne.mp h.1.2

namespace Console

/-- The text of an alias with the words that follow its name. -/
theorem expanded_eq_row (value : String) (args : List String) :
    (if args = [] then value else value ++ " " ++ Text.join " " args) = row (value :: args) := by
  cases args with
  | nil => rfl
  | cons w ws => rfl

theorem watchLine_eq (limit : Nat) (line : String) (c : Console) :
    watchLine limit line c = watchStatements (watchDeeper limit) (statements line) c := by
  cases limit <;> rfl

/-- At rest the last stage of a statement finds the console as it is. -/
theorem withPiped_withCapture_of_rest {c : Console} (hc : c.activity = .rest) :
    (c.withPiped none).withCapture none = c := by
  unfold withPiped withCapture
  rw [hc]
  cases c
  cases hc
  rfl

theorem watchExpansion_of_rest {c : Console} (hrest : c.activity = .rest) (limit : Nat)
    (name value : String) (args : List String) :
    watchExpansion (watchDeeper (limit + 1)) name value args c =
      ((watchLine limit (row (value :: args)) (c.withAliasDepth 1)).within .expansion).map
        (·.withAliasDepth 0) := by
  have hdepth : c.activity.aliasDepth = 0 := by rw [hrest]; rfl
  unfold watchExpansion
  rw [hdepth, if_neg (by decide)]
  dsimp only
  rw [expanded_eq_row]
  rfl

/-- The name of an alias names nothing else. -/
theorem get?_alias {c : Console} (hc : c.Sound) {a : Alias} (ha : a ∈ c.aliases.toList) :
    c.commands.get? a.name = none ∧ c.vars.get? a.name = none ∧ c.aliases.get? a.name = some a := by
  have halias : c.has .alias a.name = true :=
    hc.aliases.registry.contains_iff.mpr ⟨a, ha, Text.sameName_self _⟩
  refine ⟨Option.eq_none_iff_forall_not_mem.mpr fun k hk => ?_,
    Option.eq_none_iff_forall_not_mem.mpr fun v hv => ?_,
    hc.aliases.registry.get?_name ha⟩
  · have hcommand : c.has .command a.name = true :=
      hc.commands.registry.contains_iff.mpr ⟨k, hc.commands.registry.get?_eq_some_iff.mp hk⟩
    cases hc.apart .command .alias a.name hcommand halias
  · have hvariable : c.has .variable a.name = true :=
      hc.vars.registry.contains_iff.mpr ⟨v, hc.vars.registry.get?_eq_some_iff.mp hv⟩
    cases hc.apart .variable .alias a.name hvariable halias

section Rest
variable {c : Console} (hrest : c.activity = .rest) (hmuted : c.Muted)
include hrest hmuted

/-- A line of words that starts with the name of an alias does just what its expansion does. -/
theorem watched_alias (hc : c.Sound) {a : Alias} (ha : a ∈ c.aliases.toList) {args : List String}
    (hargs : ∀ w ∈ args, IsWord w) (limit : Nat) :
    (Entrance.nested (row (a.name :: args))).watched limit c =
      (watchExpansion (watchDeeper limit) a.name a.value args c).map (·.withPiped none) := by
  have hname := (hc.aliases.proper a ha).isName
  have hwords : ∀ v ∈ a.name :: args, IsWord v :=
    List.forall_mem_cons.mpr ⟨isWord_of_isName hname, hargs⟩
  obtain ⟨hcommands, hvars, haliases⟩ := get?_alias hc ha
  generalize hline : row (a.name :: args) = line
  have htrim : Text.trim line = line := by
    rw [← hline, Text.trim, (bareEnds_row hwords).trimChars_eq, String.ofList_toList]
  have hne : line ≠ "" := fun h => row_ne_nil hwords (String.toList_eq_nil_iff.mpr (hline.trans h))
  have hstage : Stage.ofText line = ⟨line, false, a.name :: args⟩ :=
    hline ▸ ofText_row hwords (marker_of_isName hname)
  have hcapture : c.activity.capture = none := by rw [hrest]; rfl
  have hpiped : c.activity.piped = none := by rw [hrest]; rfl
  have hecho : watchEcho line false c = .done c := by simp [watchEcho, hmuted.echo]
  have hdispatch : watchDispatch (watchDeeper limit) a.name ⟨line, false, a.name :: args⟩ c =
      (watchExpansion (watchDeeper limit) a.name a.value args c).map (true, ·) := by
    unfold watchDispatch
    rw [hcommands, hvars, haliases]
    rfl
  have hrun : watchStage (watchDeeper limit) ⟨line, false, a.name :: args⟩ c =
      watchExpansion (watchDeeper limit) a.name a.value args c := by
    unfold watchStage
    show (watchDispatch _ a.name _ c).bind _ = _
    rw [hdispatch, Watched.bind_map, hmuted.recording]
    exact Watched.bind_done _
  -- the line is one statement of one stage
  rw [Entrance.watched, watchNested, htrim, if_neg hne, watchLine_eq, ← hline,
    statements_row hwords, hline, watchStatements]
  show (watchStatement _ _ c).bind .done = _
  rw [Watched.bind_done, watchStatement, ← hline, stages_row hwords, hline]
  show (watchEcho _ (Stage.ofText _).silent c).bind _ = _
  rw [hstage, hecho, Watched.done_bind, hcapture, hpiped, watchStages, hstage,
    withPiped_withCapture_of_rest hrest, hrun]

/-- What a line leaves with one alias expanded, it leaves with none. -/
theorem executeNested_of_expanded {limit : Nat} {line : String} {d : Console}
    (hcalm : ∀ m ∈ ((watchLine limit line (c.withAliasDepth 1)).within .expansion).moments, m.Calm)
    (hd : (watchLine limit line (c.withAliasDepth 1)).result = some d) :
    c.executeNested (limit + 1) line = some ((d.withAliasDepth 0).withPiped none) := by
  have hahead : Ahead (c.withAliasDepth 1) c := by
    refine ⟨hmuted.withActivity _, 0, Nat.one_pos, ?_⟩
    have hdepth : c.activity.aliasDepth = 0 := by rw [hrest]; rfl
    have hsame : (c.withAliasDepth 1).withAliasDepth 0 = c.withAliasDepth 0 := rfl
    rw [hsame, ← hdepth]
    rfl
  obtain ⟨e, he, -, n, -, rfl⟩ := (mirrors_line limit (limit + 1) (Nat.le_succ limit) line _ _
    hahead).within .expansion hcalm d hd
  have hnested : c.executeNested (limit + 1) line = some (d.withAliasDepth n) :=
    (executeNested_eq _ _ _).trans he
  -- the second run ends at rest
  have hend := Entrance.rest_run (e := .nested line) hrest hnested
  obtain rfl : n = 0 := congrArg Activity.aliasDepth hend
  have hpiped : d.activity.piped = none := congrArg Activity.piped hend
  rw [hnested]
  unfold withPiped withAliasDepth
  dsimp only
  rw [← hpiped]

end Rest

/-- **An alias means its text**: a line that calls it ends on the same console as its text with the
words of the line behind it, if nothing is recorded on the way, and no alias expanded too deep. -/
theorem nested_alias {c : Console} (hc : c.Reachable)
    (hbuiltin : ∀ k ∈ c.commands.toList, k ∈ Builtin.commands) (hecho : c.settings.echo = false)
    (hrecording : c.recorder.recording = false) {a : Alias} (ha : a ∈ c.aliases.toList)
    {args : List String} (hargs : ∀ w ∈ args, IsWord w) {limit : Nat} (hlimit : maxNesting ≤ limit)
    (hcalm : ∀ m ∈ ((Entrance.nested (row (a.name :: args))).watched limit c).moments, m.Calm) :
    ∃ d, c.executeNested limit (row (a.name :: args)) = some d ∧
      c.executeNested limit (row (a.value :: args)) = some d := by
  have hmuted : c.Muted :=
    ⟨fun k hk args => Builtin.steady_of_mem args (hbuiltin k hk), hecho, hrecording⟩
  have hobeys : c.Obeys .simple := fun k hk args s => Builtin.within_of_mem args s (hbuiltin k hk)
  obtain ⟨d, hd⟩ := Entrance.ends id (.nested (row (a.name :: args))) hobeys
  refine ⟨d, hd limit hlimit, ?_⟩
  have hresult := (Entrance.watched_result limit c _).trans (hd limit hlimit)
  obtain ⟨k, rfl⟩ : ∃ k, limit = k + 1 :=
    Nat.exists_eq_add_one.mpr (Nat.lt_of_lt_of_le (by decide) hlimit)
  rw [watched_alias hc.rest hmuted hc.sound ha hargs,
    watchExpansion_of_rest hc.rest] at hresult hcalm
  obtain ⟨f, hf, rfl⟩ := Option.map_eq_some_iff.mp hresult
  obtain ⟨e, he, rfl⟩ := Option.map_eq_some_iff.mp hf
  exact executeNested_of_expanded hc.rest hmuted hcalm he

theorem calm_of_prints {m : Moment} (hrecorder : (!m.console.recorder.recording) = true)
    (hprints : (!m.act.prints .error) = true) : m.Calm := by
  refine ⟨(Bool.not_eq_true' _).mp hrecorder, fun name hact => ?_⟩
  rw [hact] at hprints
  cases hprints

/-- Aliases that call one another in a pipeline. -/
def nicknamed : Console :=
  ((new { echo := false }).perform (.setAlias "find" "names | grep")).2.perform
    (.setAlias "names" "cvarlist") |>.2

/-- The alias in the pipeline is the second one to be expanded, or the only one. -/
theorem nested_alias_nicknamed : ∃ d,
    nicknamed.executeNested maxNesting (row ["find", "cheats"]) = some d ∧
      nicknamed.executeNested maxNesting (row ["names | grep", "cheats"]) = some d ∧
      d.output = [⟨.info, "sv_cheats = \"0\""⟩] := by
  have hreach : nicknamed.Reachable := ((Reachable.new _).perform _).perform _
  have hbuiltin : ∀ k ∈ nicknamed.commands.toList, k ∈ Builtin.commands := by
    intro k hk
    unfold nicknamed at hk
    exact mem_commands_new _ (mem_commands_perform (mem_commands_perform hk))
  have ha : ⟨"find", "names | grep"⟩ ∈ nicknamed.aliases.toList := by decide +kernel
  have hargs : ∀ w ∈ ["cheats"], IsWord w :=
    List.forall_mem_singleton.mpr (isWord_of_any (by decide) (by decide))
  have hquiet : ((Entrance.nested (row ["find", "cheats"])).watched maxNesting nicknamed).moments.all
      (fun m => !m.console.recorder.recording && !m.act.prints .error) = true := by decide +kernel
  have hcalm : ∀ m ∈ ((Entrance.nested (row ["find", "cheats"])).watched maxNesting
      nicknamed).moments, m.Calm := by
    intro m hm
    obtain ⟨hrecorder, hprints⟩ := (Bool.and_eq_true _ _).mp (List.all_eq_true.mp hquiet m hm)
    exact calm_of_prints hrecorder hprints
  obtain ⟨d, hd, hd'⟩ := nested_alias hreach hbuiltin (by decide +kernel) (by decide +kernel) ha
    hargs le_rfl hcalm
  have houtput : (nicknamed.executeNested maxNesting (row ["find", "cheats"])).map (·.output) =
      some [⟨.info, "sv_cheats = \"0\""⟩] := by decide +kernel
  rw [hd] at houtput
  exact ⟨d, hd, hd', Option.some.inj houtput⟩

end Console

end DevConsole
