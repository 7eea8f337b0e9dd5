import DevConsole.Config.File
import DevConsole.Console.Builtin
import DevConsole.Proofs.Table.Handles
import DevConsole.Proofs.Table.History

/-!
# Listings do not depend on the past

Tables keep their entries newest first, and tries grow with them, so tables that hold the same entries
may be quite different inside. What is listed from them is not: the names that begin with a text and the
sorted entries come in the order of the folded names, and as no two entries share a name there is only
one such order (`Listed.map_eq`). So saved texts, the listings of commands, variables and aliases, and
the candidates for a word are the same for tables with the same entries, whatever their pasts
(`sameListings_of_sameEntries`).
-/

namespace DevConsole

/-! ### One order -/

/-- Two lists in the order of the names that hold the same are the same. -/
theorem eq_of_ascending {β : Type} (name : β → String) {xs ys : List β}
    (hxs : xs.Pairwise fun x y => Text.Before (name x) (name y))
    (hys : ys.Pairwise fun x y => Text.Before (name x) (name y)) (h : ∀ x, x ∈ xs ↔ x ∈ ys) :
    xs = ys := by
  have hnodup : ∀ {zs : List β}, (zs.Pairwise fun x y => Text.Before (name x) (name y)) → zs.Nodup :=
    fun hzs => hzs.imp fun {x y} hxy => by
      rintro rfl
      exact List.lt_irrefl _ hxy
  exact List.Perm.eq_of_pairwise (fun _ _ _ _ hxy hyx => (List.lt_asymm hxy hyx).elim) hxs hys
    ((List.perm_ext_iff_of_nodup (hnodup hxs) (hnodup hys)).mpr h)

namespace Registry

variable {α β : Type} [Named α] [Named β] {r r' : Registry α}

/-- **The names that begin with a text depend on what is shown of the entries alone**, if it tells the
names. -/
theorem Sound.startingWith_eq (h : r.Sound) (h' : r'.Sound) (view : α → β)
    (hname : ∀ e, Named.name (view e) = Named.name e)
    (hsame : ∀ x, x ∈ r.entries.map view ↔ x ∈ r'.entries.map view) (lead : String) :
    r.startingWith lead = r'.startingWith lead := by
  have hnames : ∀ (es : List α) (n : String),
      (∃ e ∈ es, Named.name e = n) ↔ ∃ x ∈ es.map view, Named.name x = n := by
    intro es n
    simp only [List.mem_map, exists_exists_and_eq_and, hname]
  refine eq_of_ascending id (h.startingWith_ascending lead) (h'.startingWith_ascending lead)
    fun n => ?_
  rw [h.mem_startingWith_iff, h'.mem_startingWith_iff, hnames, hnames]
  simp only [hsame]

/-- **So do the sorted entries.** -/
theorem Sound.map_sorted_eq (h : r.Sound) (h' : r'.Sound) (view : α → β)
    (hname : ∀ e, Named.name (view e) = Named.name e)
    (hsame : ∀ x, x ∈ r.entries.map view ↔ x ∈ r'.entries.map view) :
    r.sorted.map view = r'.sorted.map view := by
  have hascending : ∀ {r : Registry α}, r.Sound → (r.sorted.map view).Pairwise fun x y =>
      Text.Before (Named.name x) (Named.name y) := by
    intro r hr
    refine List.pairwise_map.mpr (hr.listed.ascending.imp fun {x y} hxy => ?_)
    rw [hname, hname]
    exact hxy
  refine eq_of_ascending Named.name (hascending h) (hascending h') fun x => ?_
  rw [(h.sorted_perm.map view).mem_iff, (h'.sorted_perm.map view).mem_iff, hsame]

end Registry

/-! ### The same entries -/

/-- The variable without the number of its registration. -/
def Variable.withoutHandle (v : Variable) : Variable := { v with handle := none }

/-- Calls on a reachable store lead to a reachable one. -/
theorem Variables.reachable_calls (calls : List Variables.Call) {s : Variables} (h : s.Reachable) :
    (calls.foldl Variables.Call.run s).Reachable := by
  induction calls generalizing s with
  | nil => exact h
  | cons k calls ih =>
    refine ih ?_
    cases k with
    | register v =>
      rw [Call.run]
      split
      · next hr => exact .register h hr
      · exact h
    | create name value flags =>
      rw [Call.run]
      split
      · next hs => exact .create h hs
      · exact h
    | unregister k =>
      rw [Call.run]
      cases hs : s.unregister k with
      | some p => exact .unregister h hs
      | none => exact h
    | set name value =>
      rw [Call.run]
      cases hs : s.set? name value with
      | some t => exact .set h hs
      | none => exact h
    | reset name =>
      rw [Call.run]
      cases hs : s.reset? name with
      | some t => exact .reset h hs
      | none => exact h

namespace Console

/-- The tables are ones that additions under free names, removals, and changes in place that leave the
names have led to, in any number and order; so are all tables that calls on them lead to. -/
structure TablesGrown (c : Console) : Prop where
  commands : c.commands.registry.Grown
  vars : c.vars.registry.Grown
  aliases : c.aliases.registry.Grown

/-- The tables hold the same entries: commands by name and description, variables by all but the
number of their registration, and aliases. -/
structure SameEntries (c c' : Console) : Prop where
  commands : ∀ k, k ∈ c.commands.withoutHandlers.toList ↔ k ∈ c'.commands.withoutHandlers.toList
  vars : ∀ v, v ∈ c.vars.toList.map Variable.withoutHandle ↔
    v ∈ c'.vars.toList.map Variable.withoutHandle
  aliases : ∀ a, a ∈ c.aliases.toList ↔ a ∈ c'.aliases.toList

/-- The routine prints the messages for information and does nothing else, whatever runs its lines. -/
def Lists (c : Console) (k : Routine) (messages : List String) : Prop :=
  ∀ run : LineRunner, runRoutine run k c = some (messages.foldl info c)

/-- What is listed from the tables is the same. -/
structure SameListings (c c' : Console) : Prop where
  text : Config.text c.vars = Config.text c'.vars
  save : ∀ d path mode, Config.save c.vars d path mode = Config.save c'.vars d path mode
  cmdlist : ∀ args, ∃ messages,
    c.Lists (Builtin.cmdlist args) messages ∧ c'.Lists (Builtin.cmdlist args) messages
  cvarlist : ∀ args, ∃ messages,
    c.Lists (Builtin.cvarlist args) messages ∧ c'.Lists (Builtin.cvarlist args) messages
  aliases : ∀ args : Args, args.words = [] → ∃ messages,
    c.Lists (Builtin.aliases args) messages ∧ c'.Lists (Builtin.aliases args) messages
  candidates : ∀ word, candidates c.commands c.vars c.aliases word =
    candidates c'.commands c'.vars c'.aliases word

/-! ### What routines print -/

theorem lists_infoAll {c : Console} {next : Routine} {later : List String} (messages : List String)
    (h : (messages.foldl info c).Lists next later) :
    c.Lists (Routine.infoAll messages next) (messages ++ later) := by
  intro run
  induction messages generalizing c with
  | nil => exact h run
  | cons message messages ih => exact ih h

theorem lists_info (c : Console) (message : String) : c.Lists (Routine.info message) [message] :=
  fun _ => rfl

theorem lists_all (c : Console) (messages : List String) :
    c.Lists (Routine.infoAll messages) messages := by
  have hdone : (messages.foldl info c).Lists .done [] := fun _ => rfl
  have hlists := lists_infoAll messages hdone
  rwa [List.append_nil] at hlists

theorem lists_cmdlist (c : Console) (args : Args) :
    c.Lists (Builtin.cmdlist args) (c.commands.startingWith ((args.get? 0).getD "")) :=
  lists_all c (c.commands.startingWith ((args.get? 0).getD ""))

/-- What `cvarlist` prints: the lines of the variables and their number. -/
def variableLines (lines : List String) : List String :=
  lines ++ [Number.natText lines.length ++ " variables"]

theorem lists_cvarlist (c : Console) (args : Args) : c.Lists (Builtin.cvarlist args)
    (variableLines ((Builtin.listedVariables c.vars ((args.get? 0).getD "")).map (·.listing))) := by
  unfold variableLines
  rw [List.length_map]
  exact lists_infoAll ((Builtin.listedVariables c.vars ((args.get? 0).getD "")).map (·.listing))
    (lists_info _ _)

/-- What `alias` prints without arguments, from the sorted aliases. -/
def aliasLines : List Alias → List String
  | [] => ["No aliases defined"]
  | a :: as => (a :: as).map fun a => Builtin.aliasLine a.name a.value

theorem lists_aliases (c : Console) {args : Args} (h : args.words = []) :
    c.Lists (Builtin.aliases args) (aliasLines c.aliases.sorted) := by
  intro run
  have hsorted : c.snapshot.aliases.sorted = c.aliases.sorted := rfl
  unfold Builtin.aliases
  rw [h]
  simp only [runRoutine, hsorted]
  cases c.aliases.sorted with
  | nil => exact lists_info c _ run
  | cons a as =>
    have hall := lists_all c ((a :: as).map fun a => Builtin.aliasLine a.name a.value)
    exact hall run

/-! ### The same listings -/

/-- Lines of sorted variables depend on what is shown of the variables alone. -/
theorem map_filter_sorted_eq {s s' : Variables}
    (h : s.sorted.map Variable.withoutHandle = s'.sorted.map Variable.withoutHandle)
    {keep : Variable → Bool} {line : Variable → String}
    (hkeep : ∀ v, keep v.withoutHandle = keep v) (hline : ∀ v, line v.withoutHandle = line v) :
    (s.sorted.filter keep).map line = (s'.sorted.filter keep).map line := by
  have hshown : ∀ vs : List Variable,
      (vs.filter keep).map line = ((vs.map Variable.withoutHandle).filter keep).map line := by
    intro vs
    rw [List.filter_map, List.map_map, show keep ∘ Variable.withoutHandle = keep from funext hkeep,
      show line ∘ Variable.withoutHandle = line from funext hline]
  rw [hshown, h, ← hshown]

/-- A text that is saved, and the answer, depend on the lines of the listed variables alone. -/
theorem save_eq {s s' : Variables}
    (h : (Config.listed s).map Config.line = (Config.listed s').map Config.line) :
    Config.text s = Config.text s' ∧ Config.save s = Config.save s' := by
  have htext : Config.text s = Config.text s' := by rw [Config.text, Config.text, h]
  have hlength : (Config.listed s).length = (Config.listed s').length := by
    rw [← List.length_map Config.line, h, List.length_map]
  refine ⟨htext, funext fun d => funext fun path => funext fun mode => ?_⟩
  rw [Config.save, Config.save, htext, hlength]

section SameEntries
variable {c c' : Console} (h : c.TablesGrown) (h' : c'.TablesGrown) (hsame : SameEntries c c')
include h h' hsame

theorem SameEntries.commandNames : c.commands.startingWith = c'.commands.startingWith :=
  funext (h.commands.sound.startingWith_eq h'.commands.sound
    (fun k => Command.mk k.name k.description ()) (fun _ => rfl) hsame.commands)

theorem SameEntries.variableNames : c.vars.startingWith = c'.vars.startingWith :=
  funext (h.vars.sound.startingWith_eq h'.vars.sound Variable.withoutHandle
    (fun _ => rfl) hsame.vars)

theorem SameEntries.variables :
    c.vars.sorted.map Variable.withoutHandle = c'.vars.sorted.map Variable.withoutHandle :=
  h.vars.sound.map_sorted_eq h'.vars.sound Variable.withoutHandle (fun _ => rfl)
    hsame.vars

theorem SameEntries.aliasNames : c.aliases.startingWith = c'.aliases.startingWith :=
  funext (h.aliases.sound.startingWith_eq h'.aliases.sound id (fun _ => rfl)
    fun a => by rw [List.map_id, List.map_id]; exact hsame.aliases a)

theorem SameEntries.sortedAliases : c.aliases.sorted = c'.aliases.sorted := by
  have hmap := h.aliases.sound.map_sorted_eq h'.aliases.sound id (fun _ => rfl)
    fun a => by rw [List.map_id, List.map_id]; exact hsame.aliases a
  rwa [List.map_id, List.map_id] at hmap

end SameEntries

/-- **Listings and saved files do not depend on the past of the tables**: if two consoles hold the same
entries, whatever led to them, then the same text is saved, `cmdlist` and `cvarlist` print the same for
every beginning of a name, `alias` prints the same without arguments, and every word has the same
candidates. -/
theorem sameListings_of_sameEntries (c c' : Console) (h : c.TablesGrown)
    (h' : c'.TablesGrown) (hsame : SameEntries c c') : SameListings c c' := by
  have hcommands := hsame.commandNames h h'
  have hvariables := hsame.variables h h'
  have haliases := hsame.sortedAliases h h'
  have hsaved : (Config.listed c.vars).map Config.line = (Config.listed c'.vars).map Config.line :=
    map_filter_sorted_eq hvariables (fun _ => rfl) fun _ => rfl
  have hlisted : ∀ lead, (Builtin.listedVariables c.vars lead).map (·.listing) =
      (Builtin.listedVariables c'.vars lead).map (·.listing) :=
    fun lead => map_filter_sorted_eq hvariables (fun _ => rfl) fun _ => rfl
  exact
    { text := (save_eq hsaved).1
      save := fun d path mode => by rw [(save_eq hsaved).2]
      cmdlist := fun args => ⟨_, lists_cmdlist c args, hcommands ▸ lists_cmdlist c' args⟩
      cvarlist := fun args => ⟨_, lists_cvarlist c args, hlisted _ ▸ lists_cvarlist c' args⟩
      aliases := fun args hargs => ⟨_, lists_aliases c hargs, haliases ▸ lists_aliases c' hargs⟩
      candidates := fun word => by
        rw [candidates, candidates, hcommands, hsame.variableNames h h', hsame.aliasNames h h'] }

/-- A console with commands, aliases, and the variables that calls lead to. -/
def shelf (commands : Registry (Command Handler)) (calls : List Variables.Call)
    (aliases : Registry Alias) : Console where
  commands := ⟨commands⟩
  vars := calls.foldl Variables.Call.run .empty
  aliases := ⟨aliases⟩

theorem tablesGrown_shelf {commands : Registry (Command Handler)} (calls : List Variables.Call)
    {aliases : Registry Alias} (hcommands : commands.Grown) (haliases : aliases.Grown) :
    (shelf commands calls aliases).TablesGrown where
  commands := hcommands
  vars := (Variables.reachable_calls calls .empty).grown
  aliases := haliases

/-- A command that does nothing. -/
def quiet (name : String) : Command Handler := ⟨name, some "Does nothing", fun _ => .done⟩

/-- A console where a registered variable is set. -/
def plainShelf : Console :=
  shelf ((Registry.empty.insert (quiet "cat")).insert (quiet "Say"))
    [.register (.ofValue "fov" (.int 80)), .register (.ofValue "name" (.text "x")),
      .set "FOV" (.int 90)]
    ((Registry.empty.insert ⟨"q", "quit"⟩).insert ⟨"hop", "jump"⟩)

/-- A console with the same entries, where the variable takes the place and the value of a temporary
one, and an alias is set anew. -/
def mixedShelf : Console :=
  shelf ((Registry.empty.insert (quiet "Say")).insert (quiet "cat"))
    [.create "Fov" (.int 90) .empty, .register (.ofValue "name" (.text "x")),
      .register (.ofValue "fov" (.int 80))]
    (((Registry.empty.insert ⟨"hop", "jump"⟩).insert ⟨"q", "exit"⟩).modify "Q"
      ({ · with value := "quit" }))

theorem sameListings_shelves : plainShelf.TablesGrown ∧ mixedShelf.TablesGrown ∧
    SameEntries plainShelf mixedShelf ∧
    plainShelf.vars.toList.map (fun v => (v.name, v.handle)) =
      [("name", some ⟨1⟩), ("fov", some ⟨0⟩)] ∧
    mixedShelf.vars.toList.map (fun v => (v.name, v.handle)) =
      [("fov", some ⟨2⟩), ("name", some ⟨1⟩)] ∧
    SameListings plainShelf mixedShelf := by
  have hplain : plainShelf.TablesGrown := tablesGrown_shelf _
    ((Registry.grown_empty.insert rfl).insert rfl) ((Registry.grown_empty.insert rfl).insert rfl)
  have hmixed : mixedShelf.TablesGrown := tablesGrown_shelf _
    ((Registry.grown_empty.insert rfl).insert rfl)
    (((Registry.grown_empty.insert rfl).insert rfl).modify "Q" fun _ => rfl)
  have hsame : SameEntries plainShelf mixedShelf := by
    refine ⟨fun k => ?_, fun v => List.Perm.mem_iff ?_, fun a => List.Perm.mem_iff ?_⟩
    · exact (List.Perm.swap _ _ []).mem_iff
    · decide +kernel
    · decide +kernel
  exact ⟨hplain, hmixed, hsame, by decide +kernel, by decide +kernel,
    sameListings_of_sameEntries plainShelf mixedShelf hplain hmixed hsame⟩

end Console

end DevConsole
