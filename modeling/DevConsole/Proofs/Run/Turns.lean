import DevConsole.Proofs.Run.Watched
import DevConsole.Proofs.Text.Trimmed
import Mathlib.Data.List.Basic

/-!
# Turns of a run

A run goes from statement to statement and from stage to stage, and each takes its turn: a statement
when it begins, a stage when it is over. A turn has the console that was found, and what it was that
ran the statement or the stage: a handler, an alias, a script, or nothing if it was typed. The
functions here go the way of the dispatcher (`runLine`, `runRoutine`, …).

Of a line that runs to its end, exactly the statements and stages of its text are typed
(`typedAs_line`).
-/

namespace DevConsole

/-- What runs statements and stages that are not typed. -/
inductive Origin
  /-- A line of a handler. -/
  | handler
  /-- The text of an alias. -/
  | expansion
  /-- A script file. -/
  | script
  /-- A stage whose output is captured for the next one. -/
  | producer
  deriving DecidableEq

/-- What takes a turn. -/
inductive Part
  /-- A statement that has stages. -/
  | statement (text : String)
  /-- A stage, with the moments of its run and, if it is not the last one, with the lines that are
  handed to the next. -/
  | stage (text : String) (moments : List Moment) (handed : Option (List String))

/-- A turn of a statement or a stage. -/
structure Turn where
  /-- What runs it, outermost first. -/
  origins : List Origin
  /-- The console on which it starts. -/
  console : Console
  part : Part

namespace Turn

/-- The turn inside of one more origin. -/
def under (o : Origin) (t : Turn) : Turn := { t with origins := o :: t.origins }

/-- Nothing runs it but the line. -/
def isTyped (t : Turn) : Bool := t.origins.isEmpty

/-- The text of a statement. -/
def statement? (t : Turn) : Option String :=
  match t.part with
  | .statement text => some text
  | .stage .. => none

/-- The text of a stage, without white space around it. -/
def stage? (t : Turn) : Option String :=
  match t.part with
  | .statement _ => none
  | .stage text .. => some (Stage.ofText text).text

/-- What is found in turns of a certain kind. -/
def pick {α : Type} (p : Turn → Bool) (f : Turn → Option α) (ts : List Turn) : List α :=
  (ts.filter p).filterMap f

section Pick
variable {α : Type} {p q : Turn → Bool} {f : Turn → Option α} {o : Origin}

theorem pick_nil : pick p f [] = [] := rfl

theorem pick_cons (t : Turn) (ts : List Turn) :
    pick p f (t :: ts) = (if p t then (f t).toList else []) ++ pick p f ts := by
  cases hp : p t <;> cases hf : f t <;> simp [pick, hp, hf]

theorem pick_append (ts us : List Turn) : pick p f (ts ++ us) = pick p f ts ++ pick p f us := by
  rw [pick, List.filter_append, List.filterMap_append]
  rfl

/-- Under something that does not matter to the kind of the turns. -/
theorem pick_under (hp : ∀ t : Turn, p (t.under o) = p t) (hf : ∀ t : Turn, f (t.under o) = f t)
    (ts : List Turn) : pick p f (ts.map (·.under o)) = pick p f ts := by
  induction ts with
  | nil => rfl
  | cons t ts ih => rw [List.map_cons, pick_cons, pick_cons, hp, hf, ih]

/-- Under something that turns of the kind are not under. -/
theorem pick_under_eq_nil (hp : ∀ t : Turn, p (t.under o) = false) (ts : List Turn) :
    pick p f (ts.map (·.under o)) = [] := by
  induction ts with
  | nil => rfl
  | cons t ts ih => rw [List.map_cons, pick_cons, hp, ih]; rfl

theorem length_pick_le (h : ∀ t, q t = true → p t = true) (ts : List Turn) :
    (pick q f ts).length ≤ (pick p f ts).length :=
  ((List.monotone_filter_right ts h).filterMap f).length_le

/-- In turns of a narrower kind the same is found if and only if nothing is found in the others. -/
theorem pick_eq_pick_iff (h : ∀ t, q t = true → p t = true) (ts : List Turn) :
    pick p f ts = pick q f ts ↔ ∀ t ∈ ts, p t = true → (f t).isSome = true → q t = true := by
  induction ts with
  | nil => simp [pick]
  | cons t ts ih =>
    rw [List.forall_mem_cons, ← ih, pick_cons, pick_cons]
    cases hq : q t with
    | true => simp [h t hq]
    | false =>
      cases hp : p t with
      | false => simp
      | true =>
        cases hf : f t with
        | none => simp
        | some a =>
          -- in the wider kind one more is found than in the others, in the narrower at most as many
          have hlength := length_pick_le (f := f) h ts
          simp only [Option.toList_some, List.cons_append, List.nil_append, Option.isSome_some,
            forall_const, Bool.false_eq_true, false_and, iff_false, if_true, if_false]
          intro heq
          have hcons := congrArg List.length heq
          rw [List.length_cons] at hcons
          omega

end Pick

/-- The turns after a part of a run, if that ends. -/
def following {α : Type} (r : Option α) (f : α → List Turn) : List Turn :=
  match r with
  | none => []
  | some a => f a

@[simp] theorem following_none {α : Type} (f : α → List Turn) : following none f = [] := rfl

@[simp] theorem following_some {α : Type} (a : α) (f : α → List Turn) :
    following (some a) f = f a := rfl

theorem mem_following {α : Type} {r : Option α} {f : α → List Turn} {t : Turn} :
    t ∈ following r f ↔ ∃ a, r = some a ∧ t ∈ f a := by
  cases r <;> simp

@[simp] theorem following_map {α β : Type} (r : Option α) (g : α → β) (f : β → List Turn) :
    following (r.map g) f = following r fun a => f (g a) := by
  cases r <;> rfl

end Turn

namespace Console

open Turn (following)

/-! ### The turns of a run -/

/-- The turns of a line. -/
abbrev LineTurns := String → Console → List Turn

/-- The turn of a stage that ran to its end; `handed` are the lines for the next stage. -/
def stageTurn (c : Console) (text : String) (x : Watched Console)
    (handed : Console → Option (List String)) : List Turn :=
  following x.result fun d => [⟨[], c, .stage text x.moments (handed d)⟩]

theorem mem_stageTurn {c : Console} {text : String} {x : Watched Console}
    {handed : Console → Option (List String)} {t : Turn} :
    t ∈ c.stageTurn text x handed ↔
      ∃ d, x.result = some d ∧ t = ⟨[], c, .stage text x.moments (handed d)⟩ := by
  simp [stageTurn, Turn.mem_following]

section Dispatch
variable (watch : LineWatcher) (turns : LineTurns)

/-- The turns of `runAll`. -/
def turnsAll : List String → Console → List Turn
  | [], _ => []
  | line :: lines, c => turns line c ++ following (watch line c).result (turnsAll lines)

/-- The turns of `nestedWith`. -/
def turnsNested (line : String) (c : Console) : List Turn :=
  let line := Text.trim line
  if line = "" then [] else turns line c

/-- The turns of `executeWith`. -/
def turnsExecute (line : String) (c : Console) : List Turn :=
  let line := Text.trim line
  if line = "" then []
  else if c.activity.dispatching then turnsNested turns line c
  else turns line (c.submitting line)

/-- The turns of `execFileWith`. -/
def turnsExecFile (path : String) (c : Console) : List Turn :=
  if maxExecDepth ≤ c.activity.execDepth then []
  else
    match Script.read c.disk path with
    | .error _ => []
    | .ok lines =>
      let c :=
        c.note .dispatcher .debug
          ("executing " ++ Number.natText lines.length ++ " lines from '" ++ path ++ "'")
      (turnsAll watch turns lines (c.withExecDepth (c.activity.execDepth + 1))).map (·.under .script)

/-- The turns of `runRoutine`. -/
def turnsRoutine : Routine → Console → List Turn
  | .done, _ => []
  | .perform o next, c => turnsRoutine (next (c.perform o).1) (c.perform o).2
  | .inspect next, c => turnsRoutine (next c.snapshot) c
  | .addCommand name description handler next, c =>
    let (answer, c) := c.addCommand { name, description, handler }
    turnsRoutine (next answer) c
  | .execute line next, c =>
    (turnsExecute turns line c).map (·.under .handler) ++
      following (watchExecute watch line c).result (turnsRoutine next)
  | .nested line next, c =>
    (turnsNested turns line c).map (·.under .handler) ++
      following (watchNested watch line c).result (turnsRoutine next)
  | .submit next, c =>
    (turnsExecute turns c.line.text c.withLineTaken).map (·.under .handler) ++
      following (watchExecute watch c.line.text c.withLineTaken).result (turnsRoutine next)
  | .execFile path next, c =>
    turnsExecFile watch turns path c ++
      following (watchExecFile watch path c).result fun (answer, c) => turnsRoutine (next answer) c

/-- The turns of `expandAlias`. -/
def turnsExpansion (value : String) (args : List String) (c : Console) : List Turn :=
  if maxAliasDepth ≤ c.activity.aliasDepth then []
  else
    let line := if args = [] then value else value ++ " " ++ Text.join " " args
    (turns line (c.withAliasDepth (c.activity.aliasDepth + 1))).map (·.under .expansion)

/-- The turns of `callCommand`. -/
def turnsCommand (command : Command Handler) (args : Args) (c : Console) : List Turn :=
  if args.words = ["/?"] then [] else turnsRoutine watch turns (command.handler args) c

/-- The turns of `dispatch`. -/
def turnsDispatch (head : String) (stage : Stage) (c : Console) : List Turn :=
  match c.commands.get? head with
  | some command =>
    turnsCommand watch turns command { name := head, raw := stage.text, words := stage.args } c
  | none =>
    match c.vars.get? head with
    | some _ => []
    | none =>
      match c.aliases.get? head with
      | some a => turnsExpansion turns a.value stage.args c
      | none => []

/-- The turns that a stage runs before its own. -/
def turnsInside (text : String) (c : Console) : List Turn :=
  match (Stage.ofText text).head? with
  | none => []
  | some head => turnsDispatch watch turns head (.ofText text) c

/-- The turns of `runStages`. -/
def turnsStages (outer : Option (List String)) :
    List String → Option (List String) → Console → List Turn
  | [], _, _ => []
  | [last], piped, c =>
    let c := (c.withPiped piped).withCapture outer
    turnsInside watch turns last c ++
      c.stageTurn last (watchStage watch (.ofText last) c) fun _ => none
  | stage :: stages, piped, c =>
    let c := (c.withPiped piped).withCapture (some [])
    let x := watchStage watch (.ofText stage) c
    let handed (d : Console) := some (d.activity.capture.getD [])
    (turnsInside watch turns stage c).map (·.under .producer) ++ c.stageTurn stage x handed ++
      following x.result fun d => turnsStages outer stages (handed d) d

/-- The turns of `runStatement`. -/
def turnsStatement (statement : String) (c : Console) : List Turn :=
  match stages statement with
  | [] => []
  | first :: rest =>
    let d := c.echo statement (Stage.ofText first).silent
    ⟨[], c, .statement statement⟩ ::
      turnsStages watch turns d.activity.capture (first :: rest) d.activity.piped d

/-- The turns of `runStatements`. -/
def turnsStatements : List String → Console → List Turn
  | [], _ => []
  | statement :: statements, c =>
    turnsStatement watch turns statement c ++
      following (watchStatement watch statement c).result (turnsStatements statements)

end Dispatch

/-- The turns of `runLine`. -/
def turnsLine : (limit : Nat) → LineTurns
  | 0, line, c => turnsStatements (fun _ _ => .stuck) (fun _ _ => []) (statements line) c
  | limit + 1, line, c => turnsStatements (watchLine limit) (turnsLine limit) (statements line) c

/-- The turns of a call of the host. -/
def Entrance.turns (limit : Nat) (c : Console) : Entrance → List Turn
  | .execute line => turnsExecute (turnsLine limit) line c
  | .submit => turnsExecute (turnsLine limit) c.line.text c.withLineTaken
  | .nested line => turnsNested (turnsLine limit) line c
  | .execFile path => turnsExecFile (watchLine limit) (turnsLine limit) path c

/-! ### What is typed -/

section Inside
variable {watch : LineWatcher} {turns : LineTurns} {t : Turn}

theorem isTyped_of_mem_map (o : Origin) {ts : List Turn} (h : t ∈ ts.map (·.under o)) :
    t.isTyped = false := by
  obtain ⟨u, -, rfl⟩ := List.mem_map.mp h
  rfl

theorem isTyped_of_mem_execFile {path : String} {c : Console}
    (h : t ∈ turnsExecFile watch turns path c) : t.isTyped = false := by
  unfold turnsExecFile at h
  split at h
  · cases h
  · split at h
    · cases h
    · exact isTyped_of_mem_map .script h

theorem isTyped_of_mem_routine {r : Routine} {c : Console}
    (h : t ∈ turnsRoutine watch turns r c) : t.isTyped = false := by
  induction r generalizing c with
  | done => cases h
  | perform o next ih => exact ih _ h
  | inspect next ih => exact ih _ h
  | addCommand name description handler next _ ih => exact ih _ h
  | execute line next ih | nested line next ih | submit next ih =>
    rw [turnsRoutine] at h
    rcases List.mem_append.mp h with h | h
    · exact isTyped_of_mem_map .handler h
    · obtain ⟨d, -, h⟩ := Turn.mem_following.mp h
      exact ih h
  | execFile path next ih =>
    rw [turnsRoutine] at h
    rcases List.mem_append.mp h with h | h
    · exact isTyped_of_mem_execFile h
    · obtain ⟨⟨answer, d⟩, -, h⟩ := Turn.mem_following.mp h
      exact ih answer h

/-- What a stage runs is not typed. -/
theorem isTyped_of_mem_inside {text : String} {c : Console}
    (h : t ∈ turnsInside watch turns text c) : t.isTyped = false := by
  unfold turnsInside at h
  split at h
  · cases h
  · unfold turnsDispatch at h
    split at h
    · unfold turnsCommand at h
      split at h
      · cases h
      · exact isTyped_of_mem_routine h
    · split at h
      · cases h
      · split at h
        · unfold turnsExpansion at h
          split at h
          · cases h
          · exact isTyped_of_mem_map .expansion h
        · cases h

end Inside

/-- Among the turns, just these statements and stages are typed. -/
structure TypedAs (ts : List Turn) (statements stages : List String) : Prop where
  statements : Turn.pick Turn.isTyped Turn.statement? ts = statements
  stages : Turn.pick Turn.isTyped Turn.stage? ts = stages

section Typed
variable {watch : LineWatcher} (turns : LineTurns) {ts us : List Turn}
  {as bs as' bs' : List String}

theorem TypedAs.append (h : TypedAs ts as bs) (h' : TypedAs us as' bs') :
    TypedAs (ts ++ us) (as ++ as') (bs ++ bs') := by
  constructor
  · rw [Turn.pick_append, h.statements, h'.statements]
  · rw [Turn.pick_append, h.stages, h'.stages]

theorem typedAs_nil_of_not_typed (h : ∀ t ∈ ts, t.isTyped = false) : TypedAs ts [] [] := by
  have hnone : ts.filter Turn.isTyped = [] :=
    List.filter_eq_nil_iff.mpr fun t ht => by simp [h t ht]
  constructor <;> rw [Turn.pick, hnone] <;> rfl

theorem typedAs_stageTurn {c d : Console} {text : String} {x : Watched Console}
    (hd : x.result = some d) (handed : Console → Option (List String)) :
    TypedAs (c.stageTurn text x handed) [] [(Stage.ofText text).text] := by
  rw [stageTurn, hd]
  exact ⟨rfl, rfl⟩

theorem typedAs_stages (outer : Option (List String)) : ∀ (ss : List String)
    (piped : Option (List String)) {c d : Console},
      (watchStages watch outer ss piped c).result = some d →
        TypedAs (turnsStages watch turns outer ss piped c) []
          (ss.map fun s => (Stage.ofText s).text)
  | [], _, _, _, _ => ⟨rfl, rfl⟩
  | [last], piped, c, d, hd => by
    obtain ⟨e, he, -⟩ := Option.map_eq_some_iff.mp hd
    exact (typedAs_nil_of_not_typed fun t ht => isTyped_of_mem_inside ht).append
      (typedAs_stageTurn he _)
  | s :: next :: ss, piped, c, d, hd => by
    obtain ⟨e, he, hrest⟩ := Watched.result_bind_eq_some.mp hd
    rw [Watched.result_within] at he
    have hinside : TypedAs ((turnsInside watch turns s
        ((c.withPiped piped).withCapture (some []))).map (·.under .producer)) [] [] :=
      typedAs_nil_of_not_typed fun t ht => isTyped_of_mem_map .producer ht
    have hnext := typedAs_stages outer (next :: ss) _ hrest
    rw [turnsStages]
    · dsimp only
      rw [he, Turn.following_some]
      exact (hinside.append (typedAs_stageTurn he _)).append hnext
    · simp

/-- The stages of a statement are without white space around them. -/
theorem text_ofText_of_mem_stages {statement s : String} (h : s ∈ stages statement) :
    (Stage.ofText s).text = s := by
  unfold stages at h
  obtain ⟨cs, hcs, hs⟩ := List.mem_filterMap.mp h
  obtain ⟨ds, -, rfl⟩ := List.mem_map.mp hcs
  split at hs
  · cases hs
  · obtain rfl := Option.some.inj hs
    show String.ofList (Text.trimChars (String.ofList _).toList) = _
    rw [String.toList_ofList, Text.trimChars_trimChars]

theorem typedAs_statement (text : String) {c d : Console}
    (hd : (watchStatement watch text c).result = some d) :
    TypedAs (turnsStatement watch turns text c) (if stages text = [] then [] else [text])
      (stages text) := by
  unfold watchStatement at hd
  unfold turnsStatement
  cases hstages : stages text with
  | nil => exact ⟨rfl, rfl⟩
  | cons first rest =>
    rw [hstages] at hd
    dsimp only at hd ⊢
    rw [Watched.result_bind, watchEcho_result, Option.bind_some] at hd
    have htyped := typedAs_stages turns _ (first :: rest) _ hd
    have htexts : (first :: rest).map (fun s => (Stage.ofText s).text) = first :: rest :=
      (List.map_congr_left fun s hs => text_ofText_of_mem_stages (hstages ▸ hs)).trans
        (List.map_id _)
    rw [htexts] at htyped
    rw [if_neg (List.cons_ne_nil first rest)]
    have hbegin : TypedAs [⟨[], c, .statement text⟩] [text] [] := ⟨rfl, rfl⟩
    exact hbegin.append htyped

theorem typedAs_statements : ∀ (texts : List String) {c d : Console},
    (watchStatements watch texts c).result = some d →
      TypedAs (turnsStatements watch turns texts c) (texts.filter (stages · ≠ []))
        (texts.flatMap stages)
  | [], _, _, _ => ⟨rfl, rfl⟩
  | text :: texts, c, d, hd => by
    obtain ⟨e, he, hrest⟩ := Watched.result_bind_eq_some.mp hd
    have hall := (typedAs_statement turns text he).append (typedAs_statements texts hrest)
    rw [turnsStatements, he, Turn.following_some, List.flatMap_cons]
    by_cases hempty : stages text = []
    · rw [List.filter_cons_of_neg (by simp [hempty])]
      rwa [if_pos hempty] at hall
    · rw [List.filter_cons_of_pos (by simp [hempty])]
      rwa [if_neg hempty] at hall

end Typed

/-- **Of a line that runs to its end, exactly the statements and stages of its text are typed.** -/
theorem typedAs_line {limit : Nat} {line : String} {c d : Console}
    (hd : (watchLine limit line c).result = some d) :
    TypedAs (turnsLine limit line c) ((statements line).filter (stages · ≠ []))
      ((statements line).flatMap stages) := by
  cases limit <;> exact typedAs_statements _ _ hd

/-- The same of a line that is executed, submitted or not. -/
theorem typedAs_execute {limit : Nat} {line : String} {c d : Console}
    (hd : (watchExecute (watchLine limit) line c).result = some d) :
    TypedAs (turnsExecute (turnsLine limit) line c)
      ((statements (Text.trim line)).filter (stages · ≠ []))
      ((statements (Text.trim line)).flatMap stages) := by
  unfold watchExecute at hd
  unfold turnsExecute
  dsimp only at hd ⊢
  by_cases hblank : Text.trim line = ""
  · rw [if_pos hblank, hblank]
    exact ⟨by decide, by decide⟩
  · rw [if_neg hblank] at hd ⊢
    split at hd
    · next hdispatching =>
      rw [if_pos hdispatching]
      unfold watchNested at hd
      unfold turnsNested
      rw [Text.trim_trim, if_neg hblank] at hd ⊢
      exact typedAs_line hd
    · next hdispatching =>
      rw [if_neg hdispatching]
      obtain ⟨e, he, -⟩ := Option.map_eq_some_iff.mp hd
      exact typedAs_line he

end Console

end DevConsole
