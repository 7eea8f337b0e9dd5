import DevConsole.Proofs.Run.Rest

/-!
# What runs nest

The aliases that a run expands and the scripts that it runs, as a tree: each with what the console is
in the middle of once it has been entered, with what it nests in turn, and with what comes after it.
The functions here go the way of the dispatcher (`runLine`, `runRoutine`, …).

The console counts expansions up from an outermost one and scripts up and down. The count of
expansions is right: inside of an outermost expansion it grows by one with each expansion and never
falls, so the bound on the count bounds the number of all expansions in an outermost one
(`Entrance.nesting_bounded`).
-/

namespace DevConsole

/-- What a run nests. -/
inductive Nesting
  /-- Nothing. -/
  | flat
  /-- The text of an alias. -/
  | expansion (start : Activity) (inside after : Nesting)
  /-- The lines of a script. -/
  | script (start : Activity) (inside after : Nesting)
  deriving DecidableEq, Repr

namespace Nesting

/-- One after the other. -/
def append : Nesting → Nesting → Nesting
  | .flat, n => n
  | .expansion start inside after, n => .expansion start inside (after.append n)
  | .script start inside after, n => .script start inside (after.append n)

/-- The number of expansions. -/
def expansions : Nesting → Nat
  | .flat => 0
  | .expansion _ inside after => inside.expansions + 1 + after.expansions
  | .script _ inside after => inside.expansions + after.expansions

/-- For each expansion that is inside of no other one, the number of expansions that it consists of,
itself included. -/
def outermost : Nesting → List Nat
  | .flat => []
  | .expansion _ inside after => (inside.expansions + 1) :: after.outermost
  | .script _ inside after => inside.outermost ++ after.outermost

/-- What the console is in the middle of whenever it has entered an alias or a script. -/
def starts : Nesting → List Activity
  | .flat => []
  | .expansion start inside after | .script start inside after =>
    start :: (inside.starts ++ after.starts)

@[simp] theorem append_flat (n : Nesting) : n.append .flat = n := by
  induction n with
  | flat => rfl
  | expansion start inside after _ ih => rw [append, ih]
  | script start inside after _ ih => rw [append, ih]

@[simp] theorem expansions_append (n m : Nesting) :
    (n.append m).expansions = n.expansions + m.expansions := by
  induction n with
  | flat => exact (Nat.zero_add _).symm
  | expansion start inside after _ ih => rw [append, expansions, ih, expansions, Nat.add_assoc _ _ m.expansions]
  | script start inside after _ ih => rw [append, expansions, ih, expansions, Nat.add_assoc]

@[simp] theorem outermost_append (n m : Nesting) :
    (n.append m).outermost = n.outermost ++ m.outermost := by
  induction n with
  | flat => rfl
  | expansion start inside after _ ih => rw [append, outermost, ih, outermost, List.cons_append]
  | script start inside after _ ih => rw [append, outermost, ih, outermost, List.append_assoc]

@[simp] theorem starts_append (n m : Nesting) :
    (n.append m).starts = n.starts ++ m.starts := by
  induction n with
  | flat => rfl
  | expansion start inside after _ ih => rw [append, starts, ih, starts]; simp
  | script start inside after _ ih => rw [append, starts, ih, starts]; simp

/-- What is nested after a part of a run, if that ends. -/
def following {α : Type} (r : Option α) (f : α → Nesting) : Nesting :=
  match r with
  | none => .flat
  | some a => f a

end Nesting

namespace Console

open Nesting (following)

/-! ### The nesting of a run -/

/-- What a line nests. -/
abbrev LineNester := String → Console → Nesting

section Dispatch
variable (run : LineRunner) (nest : LineNester)

/-- The nesting of `runAll`. -/
def nestAll : List String → Console → Nesting
  | [], _ => .flat
  | line :: lines, c => (nest line c).append (following (run line c) (nestAll lines))

/-- The nesting of `nestedWith`. -/
def nestNested (line : String) (c : Console) : Nesting :=
  let line := Text.trim line
  if line = "" then .flat else nest line c

/-- The nesting of `executeWith`. -/
def nestExecute (line : String) (c : Console) : Nesting :=
  let line := Text.trim line
  if line = "" then .flat
  else if c.activity.dispatching then nestNested nest line c
  else nest line (c.submitting line)

/-- The nesting of `execFileWith`. -/
def nestExecFile (path : String) (c : Console) : Nesting :=
  if maxExecDepth ≤ c.activity.execDepth then .flat
  else
    match Script.read c.disk path with
    | .error _ => .flat
    | .ok lines =>
      let c :=
        c.note .dispatcher .debug
          ("executing " ++ Number.natText lines.length ++ " lines from '" ++ path ++ "'")
      let c := c.withExecDepth (c.activity.execDepth + 1)
      .script c.activity (nestAll run nest lines c) .flat

/-- The nesting of `runRoutine`. -/
def nestRoutine : Routine → Console → Nesting
  | .done, _ => .flat
  | .perform o next, c => nestRoutine (next (c.perform o).1) (c.perform o).2
  | .inspect next, c => nestRoutine (next c.snapshot) c
  | .addCommand name description handler next, c =>
    let (answer, c) := c.addCommand { name, description, handler }
    nestRoutine (next answer) c
  | .execute line next, c =>
    (nestExecute nest line c).append (following (executeWith run line c) (nestRoutine next))
  | .nested line next, c =>
    (nestNested nest line c).append (following (nestedWith run line c) (nestRoutine next))
  | .submit next, c =>
    (nestExecute nest c.line.text c.withLineTaken).append
      (following (submitWith run c) (nestRoutine next))
  | .execFile path next, c =>
    (nestExecFile run nest path c).append
      (following (execFileWith run path c) fun (answer, c) => nestRoutine (next answer) c)

/-- The nesting of `expandAlias`. -/
def nestExpansion (value : String) (args : List String) (c : Console) : Nesting :=
  if maxAliasDepth ≤ c.activity.aliasDepth then .flat
  else
    let line := if args = [] then value else value ++ " " ++ Text.join " " args
    let c := c.withAliasDepth (c.activity.aliasDepth + 1)
    .expansion c.activity (nest line c) .flat

/-- The nesting of `callCommand`. -/
def nestCommand (command : Command Handler) (args : Args) (c : Console) : Nesting :=
  if args.words = ["/?"] then .flat else nestRoutine run nest (command.handler args) c

/-- The nesting of `dispatch`. -/
def nestDispatch (head : String) (stage : Stage) (c : Console) : Nesting :=
  match c.commands.get? head with
  | some command =>
    nestCommand run nest command { name := head, raw := stage.text, words := stage.args } c
  | none =>
    match c.vars.get? head with
    | some _ => .flat
    | none =>
      match c.aliases.get? head with
      | some a => nestExpansion nest a.value stage.args c
      | none => .flat

/-- The nesting of `runStage`. -/
def nestStage (stage : Stage) (c : Console) : Nesting :=
  match stage.head? with
  | none => .flat
  | some head => nestDispatch run nest head stage c

/-- The nesting of `runStages`. -/
def nestStages (outer : Option (List String)) :
    List String → Option (List String) → Console → Nesting
  | [], _, _ => .flat
  | [last], piped, c => nestStage run nest (.ofText last) ((c.withPiped piped).withCapture outer)
  | stage :: stages, piped, c =>
    let c := (c.withPiped piped).withCapture (some [])
    (nestStage run nest (.ofText stage) c).append
      (following (runStage run (.ofText stage) c) fun c =>
        nestStages outer stages (some (c.activity.capture.getD [])) c)

/-- The nesting of `runStatement`. -/
def nestStatement (statement : String) (c : Console) : Nesting :=
  match stages statement with
  | [] => .flat
  | first :: rest =>
    let c := c.echo statement (Stage.ofText first).silent
    nestStages run nest c.activity.capture (first :: rest) c.activity.piped c

/-- The nesting of `runStatements`. -/
def nestStatements : List String → Console → Nesting
  | [], _ => .flat
  | statement :: statements, c =>
    (nestStatement run nest statement c).append
      (following (runStatement run statement c) (nestStatements statements))

end Dispatch

/-- The nesting of `runLine`. -/
def nestLine : (limit : Nat) → LineNester
  | 0, line, c => nestStatements (fun _ _ => none) (fun _ _ => .flat) (statements line) c
  | limit + 1, line, c => nestStatements (runLine limit) (nestLine limit) (statements line) c

/-- What a call of the host nests. -/
def Entrance.nesting (limit : Nat) (c : Console) : Entrance → Nesting
  | .execute line => nestExecute (nestLine limit) line c
  | .submit => nestExecute (nestLine limit) c.line.text c.withLineTaken
  | .nested line => nestNested (nestLine limit) line c
  | .execFile path => nestExecFile (runLine limit) (nestLine limit) path c

end Console

/-! ### Bounds -/

/-- The counts of expanded aliases and running scripts are within their bounds. -/
structure Activity.Bounded (a : Activity) : Prop where
  aliasDepth : a.aliasDepth ≤ Console.maxAliasDepth
  execDepth : a.execDepth ≤ Console.maxExecDepth

namespace Console

/-- The consoles have the same counts. -/
structure SameDepths (c d : Console) : Prop where
  aliasDepth : d.activity.aliasDepth = c.activity.aliasDepth
  execDepth : d.activity.execDepth = c.activity.execDepth

theorem Abides.sameDepths {c d : Console} (h : Abides c d) : SameDepths c d :=
  ⟨h.aliasDepth, h.execDepth⟩

/-- A part of a run that starts on the console nests so and ends so. -/
structure Counted (c : Console) (n : Nesting) (r : Option Console) : Prop where
  /-- The counts are within their bounds throughout. -/
  starts : ∀ start ∈ n.starts, start.Bounded
  /-- If no alias was running, no outermost expansion is too large. -/
  outermost : c.activity.aliasDepth = 0 → ∀ k ∈ n.outermost, k ≤ maxAliasDepth
  /-- If one was, there is room for all expansions. -/
  room : c.activity.aliasDepth ≠ 0 → c.activity.aliasDepth + n.expansions ≤ maxAliasDepth
  aliasDepth : ∀ d, r = some d → d.activity.aliasDepth =
    if c.activity.aliasDepth = 0 then 0 else c.activity.aliasDepth + n.expansions
  execDepth : ∀ d, r = some d → d.activity.execDepth = c.activity.execDepth

/-- Within the bounds, the expansions are counted right. -/
def Counts (c : Console) (n : Nesting) (r : Option Console) : Prop :=
  c.activity.Bounded → Counted c n r

section Counts
variable {c d : Console} {n : Nesting} {r : Option Console}

theorem Counted.bounded (h : Counted c n (some d)) (hc : c.activity.Bounded) :
    d.activity.Bounded where
  aliasDepth := by
    rw [h.aliasDepth d rfl]
    split
    · exact Nat.zero_le _
    · next h0 => exact h.room h0
  execDepth := (h.execDepth d rfl).trans_le hc.execDepth

theorem counts_none (c : Console) : Counts c .flat none := fun hc =>
  ⟨List.forall_mem_nil _, fun _ => List.forall_mem_nil _, fun _ => hc.aliasDepth,
    fun d hd => absurd hd (Option.some_ne_none d).symm,
    fun d hd => absurd hd (Option.some_ne_none d).symm⟩

theorem counts_flat (h : SameDepths c d) : Counts c .flat (some d) := by
  intro hc
  refine ⟨List.forall_mem_nil _, fun _ => List.forall_mem_nil _, fun _ => hc.aliasDepth, ?_, ?_⟩
  · rintro e ⟨⟩
    rw [h.aliasDepth]
    split
    · assumption
    · rfl
  · rintro e ⟨⟩
    exact h.execDepth

/-- Only the counts of the console at the start matter. -/
theorem Counts.of_start (h : SameDepths c d) (hd : Counts d n r) : Counts c n r := by
  intro hc
  have hcounted := hd ⟨h.aliasDepth.trans_le hc.aliasDepth, h.execDepth.trans_le hc.execDepth⟩
  exact ⟨hcounted.starts, h.aliasDepth ▸ hcounted.outermost, h.aliasDepth ▸ hcounted.room,
    h.aliasDepth ▸ hcounted.aliasDepth, h.execDepth ▸ hcounted.execDepth⟩

/-- And only the counts of the console at the end. -/
theorem Counts.of_map {α : Type} {x : Option α} {f g : α → Console} (h : Counts c n (x.map f))
    (hfg : ∀ a, SameDepths (f a) (g a)) : Counts c n (x.map g) := by
  intro hc
  have hcounted := h hc
  refine ⟨hcounted.starts, hcounted.outermost, hcounted.room, fun e he => ?_, fun e he => ?_⟩
  · obtain ⟨a, ha, rfl⟩ := Option.map_eq_some_iff.mp he
    exact (hfg a).aliasDepth.trans (hcounted.aliasDepth (f a) (Option.map_eq_some_iff.mpr ⟨a, ha, rfl⟩))
  · obtain ⟨a, ha, rfl⟩ := Option.map_eq_some_iff.mp he
    exact (hfg a).execDepth.trans (hcounted.execDepth (f a) (Option.map_eq_some_iff.mpr ⟨a, ha, rfl⟩))

theorem Counts.map (h : Counts c n r) {f : Console → Console} (hf : ∀ d, SameDepths d (f d)) :
    Counts c n (r.map f) :=
  Counts.of_map (f := fun d => d) (by rwa [Option.map_id']) hf

/-- One part of a run after the other; `f` gives the console in the middle. -/
theorem Counts.following {α : Type} {x : Option α} {f : α → Console} {m : α → Nesting}
    {y : α → Option Console} (hx : Counts c n (x.map f))
    (hy : ∀ a, x = some a → Counts (f a) (m a) (y a)) :
    Counts c (n.append (Nesting.following x m)) (x.bind y) := by
  intro hc
  cases x with
  | none =>
    rw [Nesting.following, Nesting.append_flat]
    exact hx hc
  | some a =>
    have hn := hx hc
    have hm := hy a rfl (hn.bounded hc)
    have hdepth : (f a).activity.aliasDepth =
        if c.activity.aliasDepth = 0 then 0 else c.activity.aliasDepth + n.expansions :=
      hn.aliasDepth _ rfl
    refine ⟨fun s hs => ?_, fun h0 k hk => ?_, fun h0 => ?_, fun e he => ?_, fun e he => ?_⟩
    · rw [Nesting.following, Nesting.starts_append] at hs
      exact (List.mem_append.mp hs).elim (hn.starts s) (hm.starts s)
    · rw [Nesting.following, Nesting.outermost_append] at hk
      rw [if_pos h0] at hdepth
      exact (List.mem_append.mp hk).elim (hn.outermost h0 k) (hm.outermost hdepth k)
    · rw [Nesting.following, Nesting.expansions_append]
      rw [if_neg h0] at hdepth
      have hroom := hm.room (by omega)
      omega
    · rw [hm.aliasDepth e he, Nesting.following, Nesting.expansions_append, hdepth]
      by_cases h0 : c.activity.aliasDepth = 0
      · rw [if_pos h0, if_pos rfl, if_pos h0]
      · rw [if_neg h0, if_neg h0, if_neg (by omega), Nat.add_assoc]
    · exact (hm.execDepth e he).trans (hn.execDepth _ rfl)

theorem Counts.bind {m : Console → Nesting} {y : Console → Option Console} (hr : Counts c n r)
    (hy : ∀ d, r = some d → Counts d (m d) (y d)) :
    Counts c (n.append (Nesting.following r m)) (r.bind y) :=
  Counts.following (f := fun d => d) (by rwa [Option.map_id']) hy

/-- An alias: its text runs with a count that is higher by one, and the outermost one sets the count
back. -/
theorem Counts.expansion (hdepth : c.activity.aliasDepth < maxAliasDepth)
    (h : Counts (c.withAliasDepth (c.activity.aliasDepth + 1)) n r) :
    Counts c (.expansion (c.withAliasDepth (c.activity.aliasDepth + 1)).activity n .flat)
      (r.map fun d => if c.activity.aliasDepth = 0 then d.withAliasDepth 0 else d) := by
  intro hc
  have hstart : (c.withAliasDepth (c.activity.aliasDepth + 1)).activity.Bounded :=
    ⟨hdepth, hc.execDepth⟩
  have hn := h hstart
  have hroom : c.activity.aliasDepth + 1 + n.expansions ≤ maxAliasDepth :=
    hn.room (Nat.succ_ne_zero _)
  refine ⟨fun s hs => ?_, fun h0 k hk => ?_, fun h0 => ?_, fun e he => ?_, fun e he => ?_⟩
  · rcases List.mem_cons.mp hs with rfl | hs
    · exact hstart
    · rw [Nesting.starts, List.append_nil] at hs
      exact hn.starts s hs
  · obtain rfl : k = n.expansions + 1 := List.mem_singleton.mp hk
    omega
  · show c.activity.aliasDepth + (n.expansions + 1 + 0) ≤ maxAliasDepth
    omega
  · obtain ⟨d, hd, rfl⟩ := Option.map_eq_some_iff.mp he
    have hd' : d.activity.aliasDepth = c.activity.aliasDepth + 1 + n.expansions :=
      hn.aliasDepth d hd
    by_cases h0 : c.activity.aliasDepth = 0
    · rw [if_pos h0, if_pos h0]
      rfl
    · rw [if_neg h0, if_neg h0]
      show d.activity.aliasDepth = c.activity.aliasDepth + (n.expansions + 1 + 0)
      omega
  · obtain ⟨d, hd, rfl⟩ := Option.map_eq_some_iff.mp he
    have hd' : d.activity.execDepth = c.activity.execDepth := hn.execDepth d hd
    split <;> exact hd'

/-- A script: its lines run with a count of scripts that is higher by one. -/
theorem Counts.script (hdepth : c.activity.execDepth < maxExecDepth)
    (h : Counts (c.withExecDepth (c.activity.execDepth + 1)) n r) :
    Counts c (.script (c.withExecDepth (c.activity.execDepth + 1)).activity n .flat)
      (r.map fun d => d.withExecDepth (d.activity.execDepth - 1)) := by
  intro hc
  have hstart : (c.withExecDepth (c.activity.execDepth + 1)).activity.Bounded :=
    ⟨hc.aliasDepth, hdepth⟩
  have hn := h hstart
  refine ⟨fun s hs => ?_, fun h0 k hk => ?_, hn.room, fun e he => ?_, fun e he => ?_⟩
  · rcases List.mem_cons.mp hs with rfl | hs
    · exact hstart
    · rw [Nesting.starts, List.append_nil] at hs
      exact hn.starts s hs
  · rw [Nesting.outermost, Nesting.outermost, List.append_nil] at hk
    exact hn.outermost h0 k hk
  · obtain ⟨d, hd, rfl⟩ := Option.map_eq_some_iff.mp he
    exact hn.aliasDepth d hd
  · obtain ⟨d, hd, rfl⟩ := Option.map_eq_some_iff.mp he
    have hd' : d.activity.execDepth = c.activity.execDepth + 1 := hn.execDepth d hd
    show d.activity.execDepth - 1 = c.activity.execDepth
    omega

end Counts

section Dispatch
variable {run : LineRunner} {nest : LineNester} (h : ∀ line c, Counts c (nest line c) (run line c))

theorem sameDepths_print (c : Console) (level : Level) (message : String) :
    SameDepths c (c.print level message) := (abides_print c level message).sameDepths

include h

theorem counts_all : ∀ (lines : List String) (c : Console),
    Counts c (nestAll run nest lines c) (runAll run lines c)
  | [], _ => counts_flat ⟨rfl, rfl⟩
  | line :: lines, c => (h line c).bind fun d _ => counts_all lines d

theorem counts_nested (line : String) (c : Console) :
    Counts c (nestNested nest line c) (nestedWith run line c) := by
  unfold nestNested nestedWith
  dsimp only
  split
  · exact counts_flat ⟨rfl, rfl⟩
  · exact h _ c

theorem counts_execute (line : String) (c : Console) :
    Counts c (nestExecute nest line c) (executeWith run line c) := by
  unfold nestExecute executeWith
  dsimp only
  split
  · exact counts_flat ⟨rfl, rfl⟩
  · split
    · exact counts_nested h _ c
    · refine Counts.map (f := settled) ?_ fun d => ⟨rfl, rfl⟩
      exact Counts.of_start (d := c.submitting _) ⟨rfl, rfl⟩ (h _ _)

theorem counts_execFile (path : String) (c : Console) :
    Counts c (nestExecFile run nest path c) ((execFileWith run path c).map (·.2)) := by
  unfold nestExecFile execFileWith
  split
  · exact counts_flat (sameDepths_print c _ _)
  · next hdepth =>
    cases Script.read c.disk path with
    | error e => exact counts_flat ⟨rfl, rfl⟩
    | ok lines =>
      dsimp only
      rw [Option.map_map]
      generalize hnote : c.note .dispatcher .debug _ = d
      have hsame : SameDepths c d := hnote ▸ ⟨rfl, rfl⟩
      have hdepth' : d.activity.execDepth < maxExecDepth :=
        hsame.execDepth.trans_lt (Nat.lt_of_not_le hdepth)
      exact Counts.of_start hsame (Counts.script hdepth' (counts_all h lines _))

theorem counts_routine : ∀ (r : Routine) (c : Console),
    Counts c (nestRoutine run nest r c) (runRoutine run r c)
  | .done, c => counts_flat ⟨rfl, rfl⟩
  | .perform o next, c =>
    (counts_routine (next _) (c.perform o).2).of_start (abides_perform c o).sameDepths
  | .inspect next, c => counts_routine (next _) c
  | .addCommand name description handler next, c => by
    have hsame := (same_addCommand c ⟨name, description, handler⟩).activity
    exact (counts_routine (next _) _).of_start (abides_of_activity hsame).sameDepths
  | .execute line next, c => (counts_execute h line c).bind fun d _ => counts_routine next d
  | .nested line next, c => (counts_nested h line c).bind fun d _ => counts_routine next d
  | .submit next, c => by
    have hline : Counts c (nestExecute nest c.line.text c.withLineTaken) (submitWith run c) :=
      Counts.of_start (d := c.withLineTaken) ⟨rfl, rfl⟩ (counts_execute h _ _)
    exact hline.bind fun d _ => counts_routine next d
  | .execFile path next, c =>
    (counts_execFile h path c).following fun (a, d) _ => counts_routine (next a) d

theorem counts_expand (name value : String) (args : List String) (c : Console) :
    Counts c (nestExpansion nest value args c) (expandAlias run name value args c) := by
  unfold nestExpansion expandAlias
  split
  · exact counts_flat (sameDepths_print c _ _)
  · next hdepth => exact Counts.expansion (Nat.lt_of_not_le hdepth) (h _ _)

theorem counts_command (k : Command Handler) (args : Args) (c : Console) :
    Counts c (nestCommand run nest k args c) (callCommand run k args c) := by
  unfold nestCommand callCommand
  split
  · exact counts_flat (sameDepths_print c _ _)
  · exact counts_routine h _ c

theorem counts_dispatch (head : String) (stage : Stage) (c : Console) :
    Counts c (nestDispatch run nest head stage c)
      ((dispatch run head stage c).map (·.2)) := by
  unfold nestDispatch dispatch
  cases c.commands.get? head with
  | some k =>
    dsimp only
    rw [Option.map_map]
    exact Counts.map (f := fun d => d) (counts_command h k _ c) fun d => ⟨rfl, rfl⟩
  | none =>
    cases c.vars.get? head with
    | some v =>
      dsimp only
      split
      · exact counts_flat (sameDepths_print c _ _)
      · exact counts_flat (abides_printing.assign c _ _).sameDepths
    | none =>
      cases c.aliases.get? head with
      | some a =>
        dsimp only
        rw [Option.map_map]
        exact Counts.map (f := fun d => d) (counts_expand h head _ _ c) fun d => ⟨rfl, rfl⟩
      | none => exact counts_flat (sameDepths_print c _ _)

omit h in
theorem sameDepths_recordStage (wasRecording : Bool) (text : String) (c : Console) :
    SameDepths c (recordStage wasRecording text c) := by
  unfold recordStage
  split
  · split
    · exact ⟨rfl, rfl⟩
    · exact sameDepths_print c _ _
  · exact ⟨rfl, rfl⟩

theorem counts_stage (stage : Stage) (c : Console) :
    Counts c (nestStage run nest stage c) (runStage run stage c) := by
  unfold nestStage runStage
  cases stage.head? with
  | none => exact counts_flat ⟨rfl, rfl⟩
  | some head =>
    refine (counts_dispatch h head stage c).of_map fun (known, d) => ?_
    dsimp only
    split
    · exact sameDepths_recordStage _ _ d
    · exact ⟨rfl, rfl⟩

theorem counts_stages (outer : Option (List String)) : ∀ (ss : List String)
    (piped : Option (List String)) (c : Console),
      Counts c (nestStages run nest outer ss piped c) (runStages run outer ss piped c)
  | [], _, _ => counts_flat ⟨rfl, rfl⟩
  | [last], piped, c => by
    refine Counts.map (f := (·.withPiped none)) ?_ fun d => ⟨rfl, rfl⟩
    exact Counts.of_start (d := (c.withPiped piped).withCapture outer) ⟨rfl, rfl⟩
      (counts_stage h _ _)
  | s :: next :: ss, piped, c => by
    refine Counts.of_start (d := (c.withPiped piped).withCapture (some [])) ⟨rfl, rfl⟩ ?_
    exact (counts_stage h (.ofText s) _).bind fun d _ => counts_stages outer (next :: ss) _ d

theorem counts_statement (text : String) (c : Console) :
    Counts c (nestStatement run nest text c) (runStatement run text c) := by
  unfold nestStatement runStatement
  cases stages text with
  | nil => exact counts_flat ⟨rfl, rfl⟩
  | cons first rest =>
    have hecho : SameDepths c (c.echo text (Stage.ofText first).silent) := by
      unfold echo
      split
      · exact sameDepths_print c _ _
      · exact ⟨rfl, rfl⟩
    exact (counts_stages h _ (first :: rest) _ _).of_start hecho

theorem counts_statements : ∀ (texts : List String) (c : Console),
    Counts c (nestStatements run nest texts c) (runStatements run texts c)
  | [], _ => counts_flat ⟨rfl, rfl⟩
  | text :: texts, c => (counts_statement h text c).bind fun d _ => counts_statements texts d

end Dispatch

theorem counts_line : ∀ (limit : Nat) (line : String) (c : Console),
    Counts c (nestLine limit line c) (runLine limit line c)
  | 0, _, c => counts_statements (fun _ d => counts_none d) _ c
  | limit + 1, _, c => counts_statements (counts_line limit) _ c

/-- **Calls of the host count expansions right.** -/
theorem Entrance.counts (limit : Nat) (c : Console) (e : Entrance) :
    Counts c (e.nesting limit c) (e.run limit c) := by
  cases e with
  | execute line => exact counts_execute (counts_line limit) line c
  | submit =>
    exact Counts.of_start (d := c.withLineTaken) ⟨rfl, rfl⟩ (counts_execute (counts_line limit) _ _)
  | nested line => exact counts_nested (counts_line limit) line c
  | execFile path => exact counts_execFile (counts_line limit) path c

end Console

end DevConsole
