import DevConsole.Console.Builtin

/-!
# Watched runs

A run as it is seen from outside: the moments at which an operation is carried out or a handler
calls `execute`, each with the console just before it and with what it is inside of, and the console
at the end, if the run ends. The watched functions go the way of the dispatcher (`runLine`,
`runRoutine`, …), and forgetting the moments gives the run itself (`watchLine_result`,
`Entrance.watched_result`). A run for which the nesting is not enough has the moments up to there.
-/

namespace DevConsole

/-- What a part of a run can be inside of. -/
inductive Scope
  /-- A submitted line. -/
  | submission
  /-- A stage whose output is captured for the next one. -/
  | producer
  /-- The text of an alias. -/
  | expansion
  /-- A script file. -/
  | script
  deriving DecidableEq

/-- What happens at a moment. -/
inductive Act
  /-- An operation is carried out, by a handler or by the dispatcher itself. -/
  | operation (o : Operation)
  /-- A handler calls `execute`. -/
  | execute (line : String)

/-- A moment of a run. -/
structure Moment where
  /-- What it is inside of, outermost first. -/
  scopes : List Scope
  /-- The console just before. -/
  console : Console
  act : Act

/-- A run with its moments, oldest first; there is no result if the nesting was not enough. -/
structure Watched (α : Type) where
  moments : List Moment
  result : Option α

/-! ### Putting runs together -/

/-- The moment inside one more scope. -/
def Moment.inside (s : Scope) (m : Moment) : Moment := { m with scopes := s :: m.scopes }

namespace Watched

variable {α β γ : Type}

/-- Nothing happens. -/
def done (a : α) : Watched α := ⟨[], some a⟩

/-- The nesting was not enough. -/
def stuck : Watched α := ⟨[], none⟩

/-- One run after the other. -/
def bind (x : Watched α) (f : α → Watched β) : Watched β :=
  match x.result with
  | none => ⟨x.moments, none⟩
  | some a => ⟨x.moments ++ (f a).moments, (f a).result⟩

/-- The run with another result. -/
def map (f : α → β) (x : Watched α) : Watched β := ⟨x.moments, x.result.map f⟩

/-- The run inside one more scope. -/
def within (s : Scope) (x : Watched α) : Watched α := ⟨x.moments.map (·.inside s), x.result⟩

@[simp] theorem result_done (a : α) : (done a).result = some a := rfl

@[simp] theorem moments_done (a : α) : (done a).moments = [] := rfl

@[simp] theorem result_stuck : (stuck : Watched α).result = none := rfl

@[simp] theorem moments_stuck : (stuck : Watched α).moments = [] := rfl

@[simp] theorem result_bind (x : Watched α) (f : α → Watched β) :
    (x.bind f).result = x.result.bind fun a => (f a).result := by
  unfold bind; cases x.result <;> rfl

theorem moments_bind_of_some {x : Watched α} {a : α} (h : x.result = some a) (f : α → Watched β) :
    (x.bind f).moments = x.moments ++ (f a).moments := by
  unfold bind; rw [h]

theorem moments_bind_of_none {x : Watched α} (h : x.result = none) (f : α → Watched β) :
    (x.bind f).moments = x.moments := by
  unfold bind; rw [h]

theorem mem_moments_bind {x : Watched α} {f : α → Watched β} {m : Moment} :
    m ∈ (x.bind f).moments ↔ m ∈ x.moments ∨ ∃ a, x.result = some a ∧ m ∈ (f a).moments := by
  cases h : x.result with
  | none => simp [moments_bind_of_none h]
  | some a => simp [moments_bind_of_some h]

theorem result_bind_eq_some {x : Watched α} {f : α → Watched β} {b : β} :
    (x.bind f).result = some b ↔ ∃ a, x.result = some a ∧ (f a).result = some b := by
  rw [result_bind, Option.bind_eq_some_iff]

@[simp] theorem result_map (f : α → β) (x : Watched α) : (x.map f).result = x.result.map f := rfl

@[simp] theorem moments_map (f : α → β) (x : Watched α) : (x.map f).moments = x.moments := rfl

@[simp] theorem result_within (s : Scope) (x : Watched α) : (x.within s).result = x.result := rfl

@[simp] theorem moments_within (s : Scope) (x : Watched α) :
    (x.within s).moments = x.moments.map (·.inside s) := rfl

@[simp] theorem map_id (x : Watched α) : x.map (fun a => a) = x := by
  obtain ⟨ms, r⟩ := x
  simp [map]

@[simp] theorem map_map (f : α → β) (g : β → γ) (x : Watched α) :
    (x.map f).map g = x.map fun a => g (f a) := by
  obtain ⟨ms, r⟩ := x
  simp [map, Function.comp_def]

theorem done_bind (a : α) (f : α → Watched β) : (done a).bind f = f a := rfl

theorem map_eq_bind (f : α → β) (x : Watched α) : x.map f = x.bind fun a => .done (f a) := by
  obtain ⟨ms, r⟩ := x
  cases r <;> simp [map, bind]

theorem bind_done (x : Watched α) : x.bind .done = x :=
  (map_eq_bind (fun a => a) x).symm.trans (map_id x)

theorem map_bind (x : Watched α) (f : α → Watched β) (g : β → γ) :
    (x.bind f).map g = x.bind fun a => (f a).map g := by
  obtain ⟨ms, r⟩ := x
  cases r <;> rfl

theorem bind_map (x : Watched α) (f : α → β) (g : β → Watched γ) :
    (x.map f).bind g = x.bind fun a => g (f a) := by
  obtain ⟨ms, r⟩ := x
  cases r <;> rfl

end Watched

namespace Console

/-! ### What the dispatcher changes on the way -/

/-- The console with other captured lines. -/
def withCapture (c : Console) (capture : Option (List String)) : Console :=
  { c with activity := { c.activity with capture } }

/-- The console with other lines of the stage before. -/
def withPiped (c : Console) (piped : Option (List String)) : Console :=
  { c with activity := { c.activity with piped } }

/-- The console with another count of expanded aliases. -/
def withAliasDepth (c : Console) (aliasDepth : Nat) : Console :=
  { c with activity := { c.activity with aliasDepth } }

/-- The console with another count of running scripts. -/
def withExecDepth (c : Console) (execDepth : Nat) : Console :=
  { c with activity := { c.activity with execDepth } }

/-- The console at the start of a submitted line. -/
def submitting (c : Console) (line : String) : Console :=
  { c with
    history := c.history.push line
    activity := { c.activity with dispatching := true } }

/-- The console after a submitted line. -/
def settled (c : Console) : Console :=
  { c with activity := { c.activity with capture := none, piped := none, dispatching := false } }

/-- The console whose line buffer was taken. -/
def withLineTaken (c : Console) : Console :=
  { c with line := c.line.reset, completion := .empty, lastCompleted := none }

/-! ### Watched dispatch -/

/-- Runs a line and watches. -/
abbrev LineWatcher := String → Console → Watched Console

section Dispatch
variable (watch : LineWatcher)

/-- Watches an operation. -/
def watchOperation (o : Operation) (c : Console) : Watched (o.Answer × Console) :=
  ⟨[⟨[], c, .operation o⟩], some (c.perform o)⟩

/-- Watches a print. -/
def watchPrint (level : Level) (message : String) (c : Console) : Watched Console :=
  (watchOperation (.print level message) c).map (·.2)

/-- Watches a handler that calls `execute` next. -/
def watchCall (line : String) (c : Console) : Watched Console :=
  ⟨[⟨[], c, .execute line⟩], some c⟩

/-- Watches `runAll`. -/
def watchAll : List String → Console → Watched Console
  | [], c => .done c
  | line :: lines, c => (watch line c).bind (watchAll lines)

/-- Watches `nestedWith`. -/
def watchNested (line : String) (c : Console) : Watched Console :=
  let line := Text.trim line
  if line = "" then .done c else watch line c

/-- Watches `executeWith`. -/
def watchExecute (line : String) (c : Console) : Watched Console :=
  let line := Text.trim line
  if line = "" then .done c
  else if c.activity.dispatching then watchNested watch line c
  else ((watch line (c.submitting line)).within .submission).map settled

/-- Watches `execFileWith`. -/
def watchExecFile (path : String) (c : Console) : Watched (Except ConsoleError Nat × Console) :=
  if maxExecDepth ≤ c.activity.execDepth then
    (watchPrint .error
      ("exec: '" ++ path ++ "' nested more than " ++ Number.natText maxExecDepth ++
        " deep, skipped") c).map (.ok 0, ·)
  else
    match Script.read c.disk path with
    | .error e => .done (.error e, c)
    | .ok lines =>
      (watchOperation
        (.note .dispatcher .debug
          ("executing " ++ Number.natText lines.length ++ " lines from '" ++ path ++ "'")) c).bind
        fun (_, c) =>
          ((watchAll watch lines (c.withExecDepth (c.activity.execDepth + 1))).within .script).map
            fun c => (.ok lines.length, c.withExecDepth (c.activity.execDepth - 1))

/-- Watches `runRoutine`. -/
def watchRoutine : Routine → Console → Watched Console
  | .done, c => .done c
  | .perform o next, c => (watchOperation o c).bind fun (a, c) => watchRoutine (next a) c
  | .inspect next, c => watchRoutine (next c.snapshot) c
  | .addCommand name description handler next, c =>
    let (answer, c) := c.addCommand { name, description, handler }
    watchRoutine (next answer) c
  | .execute line next, c =>
    ((watchCall line c).bind (watchExecute watch line)).bind (watchRoutine next)
  | .nested line next, c => (watchNested watch line c).bind (watchRoutine next)
  | .submit next, c =>
    ((watchCall c.line.text c.withLineTaken).bind (watchExecute watch c.line.text)).bind
      (watchRoutine next)
  | .execFile path next, c =>
    (watchExecFile watch path c).bind fun (answer, c) => watchRoutine (next answer) c

/-- Watches `expandAlias`. -/
def watchExpansion (name value : String) (args : List String) (c : Console) : Watched Console :=
  if maxAliasDepth ≤ c.activity.aliasDepth then
    watchPrint .error ("Alias '" ++ name ++ "': potential infinite recursion") c
  else
    let line := if args = [] then value else value ++ " " ++ Text.join " " args
    ((watch line (c.withAliasDepth (c.activity.aliasDepth + 1))).within .expansion).map
      fun d => if c.activity.aliasDepth = 0 then d.withAliasDepth 0 else d

/-- Watches `callCommand`. -/
def watchCommand (command : Command Handler) (args : Args) (c : Console) : Watched Console :=
  if args.words = ["/?"] then
    watchPrint .info (command.description.getD ("'" ++ args.name ++ "' has no description")) c
  else watchRoutine watch (command.handler args) c

/-- Watches `dispatch`. -/
def watchDispatch (head : String) (stage : Stage) (c : Console) : Watched (Bool × Console) :=
  match c.commands.get? head with
  | some command =>
    (watchCommand watch command { name := head, raw := stage.text, words := stage.args } c).map
      (true, ·)
  | none =>
    match c.vars.get? head with
    | some v =>
      if stage.args = [] then (watchPrint .info v.display c).map (true, ·)
      else (watchOperation (.assign head (Text.join " " stage.args)) c).map fun (_, c) => (true, c)
    | none =>
      match c.aliases.get? head with
      | some a => (watchExpansion watch head a.value stage.args c).map (true, ·)
      | none => (watchPrint .error ("Unknown command: " ++ head) c).map (false, ·)

/-- Watches `recordStage`. -/
def watchRecord (wasRecording : Bool) (text : String) (c : Console) : Watched Console :=
  if wasRecording && c.recorder.recording && c.activity.aliasDepth == 0 &&
      c.activity.execDepth == 0 then
    match c.recorder.record? text with
    | some recorder => .done { c with recorder }
    | none => watchPrint .warn "Script buffer is full, stop recording with 'stoprecord'" c
  else .done c

/-- Watches `runStage`. -/
def watchStage (stage : Stage) (c : Console) : Watched Console :=
  match stage.head? with
  | none => .done c
  | some head =>
    (watchDispatch watch head stage c).bind fun (known, d) =>
      if known then watchRecord c.recorder.recording stage.text d else .done d

/-- Watches `runStages`. -/
def watchStages (outer : Option (List String)) :
    List String → Option (List String) → Console → Watched Console
  | [], _, c => .done c
  | [last], piped, c =>
    (watchStage watch (.ofText last) ((c.withPiped piped).withCapture outer)).map (·.withPiped none)
  | stage :: stages, piped, c =>
    ((watchStage watch (.ofText stage) ((c.withPiped piped).withCapture (some []))).within
      .producer).bind fun c => watchStages outer stages (some (c.activity.capture.getD [])) c

/-- Watches `echo`. -/
def watchEcho (statement : String) (silent : Bool) (c : Console) : Watched Console :=
  if c.settings.echo && c.activity.capture.isNone && c.activity.aliasDepth == 0 && !silent then
    watchPrint .command (c.settings.promptText ++ Text.trim statement) c
  else .done c

/-- Watches `runStatement`. -/
def watchStatement (statement : String) (c : Console) : Watched Console :=
  match stages statement with
  | [] => .done c
  | first :: rest =>
    (watchEcho statement (Stage.ofText first).silent c).bind fun c =>
      watchStages watch c.activity.capture (first :: rest) c.activity.piped c

/-- Watches `runStatements`. -/
def watchStatements : List String → Console → Watched Console
  | [], c => .done c
  | statement :: statements, c =>
    (watchStatement watch statement c).bind (watchStatements statements)

end Dispatch

/-- Watches `runLine`. -/
def watchLine : (limit : Nat) → LineWatcher
  | 0, line, c => watchStatements (fun _ _ => .stuck) (statements line) c
  | limit + 1, line, c => watchStatements (watchLine limit) (statements line) c

/-! ### Forgetting the moments -/

section Result
variable {watch : LineWatcher} {run : LineRunner}
  (h : ∀ line c, (watch line c).result = run line c)

@[simp] theorem watchOperation_result (o : Operation) (c : Console) :
    (watchOperation o c).result = some (c.perform o) := rfl

@[simp] theorem watchCall_result (line : String) (c : Console) :
    (watchCall line c).result = some c := rfl

include h

theorem watchAll_result : ∀ (lines : List String) (c : Console),
    (watchAll watch lines c).result = runAll run lines c
  | [], c => rfl
  | line :: lines, c => by
    rw [watchAll, runAll, Watched.result_bind, h line c]
    exact congrArg _ (funext fun c => watchAll_result lines c)

theorem watchNested_result (line : String) (c : Console) :
    (watchNested watch line c).result = nestedWith run line c := by
  unfold watchNested nestedWith
  dsimp only
  split
  · rfl
  · exact h _ _

theorem watchExecute_result (line : String) (c : Console) :
    (watchExecute watch line c).result = executeWith run line c := by
  unfold watchExecute executeWith
  dsimp only
  split
  · rfl
  · split
    · exact watchNested_result h _ _
    · rw [Watched.result_map, Watched.result_within, h]; rfl

theorem watchExecFile_result (path : String) (c : Console) :
    (watchExecFile watch path c).result = execFileWith run path c := by
  unfold watchExecFile execFileWith
  split
  · rfl
  · cases Script.read c.disk path with
    | error e => rfl
    | ok lines =>
      rw [Watched.result_bind, watchOperation_result, Option.bind_some, Watched.result_map,
        Watched.result_within, watchAll_result h]
      rfl

theorem watchRoutine_result : ∀ (r : Routine) (c : Console),
    (watchRoutine watch r c).result = runRoutine run r c
  | .done, c => rfl
  | .perform o next, c => by
    rw [watchRoutine, runRoutine, Watched.result_bind, watchOperation_result, Option.bind_some]
    exact watchRoutine_result (next _) _
  | .inspect next, c => watchRoutine_result (next _) c
  | .addCommand name description handler next, c => watchRoutine_result (next _) _
  | .execute line next, c => by
    rw [watchRoutine, runRoutine, Watched.result_bind, Watched.result_bind, watchCall_result,
      Option.bind_some, watchExecute_result h]
    exact congrArg _ (funext fun c => watchRoutine_result next c)
  | .nested line next, c => by
    rw [watchRoutine, runRoutine, Watched.result_bind, watchNested_result h]
    exact congrArg _ (funext fun c => watchRoutine_result next c)
  | .submit next, c => by
    rw [watchRoutine, runRoutine, Watched.result_bind, Watched.result_bind, watchCall_result,
      Option.bind_some, watchExecute_result h]
    exact congrArg _ (funext fun c => watchRoutine_result next c)
  | .execFile path next, c => by
    rw [watchRoutine, runRoutine, Watched.result_bind, watchExecFile_result h]
    exact congrArg _ (funext fun (answer, c) => watchRoutine_result (next answer) c)

theorem watchExpansion_result (name value : String) (args : List String) (c : Console) :
    (watchExpansion watch name value args c).result = expandAlias run name value args c := by
  unfold watchExpansion expandAlias
  split
  · rfl
  · rw [Watched.result_map, Watched.result_within, h]; rfl

theorem watchCommand_result (command : Command Handler) (args : Args) (c : Console) :
    (watchCommand watch command args c).result = callCommand run command args c := by
  unfold watchCommand callCommand
  split
  · rfl
  · exact watchRoutine_result h _ _

theorem watchDispatch_result (head : String) (stage : Stage) (c : Console) :
    (watchDispatch watch head stage c).result = dispatch run head stage c := by
  unfold watchDispatch dispatch
  cases c.commands.get? head with
  | some command => dsimp only; rw [Watched.result_map, watchCommand_result h]
  | none =>
    cases c.vars.get? head with
    | some v => dsimp only; split <;> rfl
    | none =>
      cases c.aliases.get? head with
      | some a => dsimp only; rw [Watched.result_map, watchExpansion_result h]
      | none => rfl

omit h in
theorem watchRecord_result (wasRecording : Bool) (text : String) (c : Console) :
    (watchRecord wasRecording text c).result = some (recordStage wasRecording text c) := by
  unfold watchRecord recordStage
  split
  · cases c.recorder.record? text <;> rfl
  · rfl

theorem watchStage_result (stage : Stage) (c : Console) :
    (watchStage watch stage c).result = runStage run stage c := by
  unfold watchStage runStage
  cases stage.head? with
  | none => rfl
  | some head =>
    dsimp only
    rw [Watched.result_bind, watchDispatch_result h, Option.map_eq_bind]
    refine congrArg _ (funext fun (known, d) => ?_)
    cases known
    · rfl
    · exact watchRecord_result _ _ _

theorem watchStages_result (outer : Option (List String)) :
    ∀ (stages : List String) (piped : Option (List String)) (c : Console),
      (watchStages watch outer stages piped c).result = runStages run outer stages piped c
  | [], _, _ => rfl
  | [last], piped, c => by
    rw [watchStages, runStages, Watched.result_map, watchStage_result h]; rfl
  | stage :: next :: stages, piped, c => by
    rw [watchStages, runStages, Watched.result_bind, Watched.result_within, watchStage_result h]
    · exact congrArg _ (funext fun c => watchStages_result outer (next :: stages) _ c)
    · simp
    · simp

omit h in
theorem watchEcho_result (statement : String) (silent : Bool) (c : Console) :
    (watchEcho statement silent c).result = some (c.echo statement silent) := by
  unfold watchEcho echo
  split <;> rfl

theorem watchStatement_result (statement : String) (c : Console) :
    (watchStatement watch statement c).result = runStatement run statement c := by
  unfold watchStatement runStatement
  cases stages statement with
  | nil => rfl
  | cons first rest =>
    dsimp only
    rw [Watched.result_bind, watchEcho_result, Option.bind_some, watchStages_result h]

theorem watchStatements_result : ∀ (statements : List String) (c : Console),
    (watchStatements watch statements c).result = runStatements run statements c
  | [], _ => rfl
  | statement :: statements, c => by
    rw [watchStatements, runStatements, Watched.result_bind, watchStatement_result h]
    exact congrArg _ (funext fun c => watchStatements_result statements c)

end Result

/-- **A watched run ends as the run does.** -/
theorem watchLine_result : ∀ (limit : Nat) (line : String) (c : Console),
    (watchLine limit line c).result = runLine limit line c
  | 0, _, c => watchStatements_result (fun _ _ => rfl) _ c
  | limit + 1, _, c => watchStatements_result (watchLine_result limit) _ c

/-! ### The entrances for the host -/

/-- How the host enters dispatch. -/
inductive Entrance
  | execute (line : String)
  | submit
  | nested (line : String)
  | execFile (path : String)

namespace Entrance

/-- The console after the host's call. -/
def run (limit : Nat) (c : Console) : Entrance → Option Console
  | .execute line => c.execute limit line
  | .submit => c.submit limit
  | .nested line => c.executeNested limit line
  | .execFile path => (c.execFile limit path).map (·.2)

/-- Watches the host's call. -/
def watched (limit : Nat) (c : Console) : Entrance → Watched Console
  | .execute line => watchExecute (watchLine limit) line c
  | .submit => watchExecute (watchLine limit) c.line.text c.withLineTaken
  | .nested line => watchNested (watchLine limit) line c
  | .execFile path => (watchExecFile (watchLine limit) path c).map (·.2)

/-- **A watched call of the host ends as the call does.** -/
theorem watched_result (limit : Nat) (c : Console) (e : Entrance) :
    (e.watched limit c).result = e.run limit c := by
  cases e with
  | execute line => exact watchExecute_result (watchLine_result limit) line c
  | submit => exact watchExecute_result (watchLine_result limit) _ _
  | nested line => exact watchNested_result (watchLine_result limit) line c
  | execFile path =>
    rw [watched, Watched.result_map, watchExecFile_result (watchLine_result limit)]; rfl

end Entrance

end Console

end DevConsole
