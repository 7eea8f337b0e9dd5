import DevConsole.Proofs.Pipeline.Run
import DevConsole.Proofs.Run.Nesting
import DevConsole.Proofs.Run.Obeying

/-!
# Runs end

A run goes deeper through aliases and scripts. Below a running alias the count of expansions never
falls, and below a running script the count of scripts is higher, so what is left of both bounds, the
headroom, is less for every line that a run goes into, and never more after it. Handlers that run no
lines but those of scripts cannot go deeper in another way. So with the built-in commands every run
ends, whatever the variables, the aliases and the files (`builtin_ends`).
-/

namespace DevConsole

namespace Console

/-- How many more aliases and scripts can be entered, one inside of the other. -/
def headroom (c : Console) : Nat :=
  (maxAliasDepth - c.activity.aliasDepth) + (maxExecDepth - c.activity.execDepth)

/-- The deepest nesting of aliases and scripts. -/
def maxNesting : Nat := maxAliasDepth + maxExecDepth

/-- A run from the first console may end on the second. -/
structure Later (p : Policy) (c d : Console) : Prop where
  obeys : d.Obeys p
  aliasDepth : c.activity.aliasDepth ≤ d.activity.aliasDepth
  execDepth : d.activity.execDepth = c.activity.execDepth

/-- From the limit `n` on, whatever the limit, the run from the console ends with the same answer,
and there on a console that may be the last one. -/
def Ends {α : Type} (p : Policy) (f : α → Console) (n : Nat) (c : Console) (x : Nat → Option α) :
    Prop :=
  ∃ a, Later p c (f a) ∧ ∀ limit, n ≤ limit → x limit = some a

section Ends
variable {p : Policy} {n : Nat} {c d e : Console} {α β : Type} {f : α → Console} {g : β → Console}
  {x : Nat → Option α}

theorem Later.headroom_le (h : Later p c d) : d.headroom ≤ c.headroom := by
  have haliases := h.aliasDepth
  have hscripts := h.execDepth
  unfold headroom
  omega

theorem Later.trans (h : Later p c d) (h' : Later p d e) : Later p c e where
  obeys := h'.obeys
  aliasDepth := h.aliasDepth.trans h'.aliasDepth
  execDepth := h'.execDepth.trans h.execDepth

/-- Nothing is entered or added. -/
theorem later_of_same (hc : c.Obeys p) (hcommands : d.commands = c.commands)
    (h : SameDepths c d) : Later p c d where
  obeys k hk := hc k (by rwa [hcommands] at hk)
  aliasDepth := h.aliasDepth.ge
  execDepth := h.execDepth

theorem later_refl (hc : c.Obeys p) : Later p c c := later_of_same hc rfl ⟨rfl, rfl⟩

theorem later_perform (hc : c.Obeys p) (o : Operation) : Later p c (c.perform o).2 where
  obeys := hc.perform o
  aliasDepth := (abides_perform c o).aliasDepth.ge
  execDepth := (abides_perform c o).execDepth

theorem later_print (hc : c.Obeys p) (level : Level) (message : String) :
    Later p c (c.print level message) := later_perform hc (.print level message)

theorem ends_some {a : α} (h : Later p c (f a)) : Ends p f n c fun _ => some a :=
  ⟨a, h, fun _ _ => rfl⟩

theorem Ends.of_start (h : Later p c d) (hx : Ends p f n d x) : Ends p f n c x := by
  obtain ⟨a, ha, hlimit⟩ := hx
  exact ⟨a, h.trans ha, hlimit⟩

theorem Ends.bind {y : α → Nat → Option β} (hx : Ends p f n c x)
    (hy : ∀ a, Later p c (f a) → Ends p g n (f a) (y a)) :
    Ends p g n c fun limit => (x limit).bind fun a => y a limit := by
  obtain ⟨a, ha, hlimit⟩ := hx
  obtain ⟨b, hb, hlimit'⟩ := hy a ha
  refine ⟨b, ha.trans hb, fun limit hn => ?_⟩
  dsimp only
  rw [hlimit limit hn, Option.bind_some, hlimit' limit hn]

theorem Ends.map {k : α → β} (hx : Ends p f n d x) (h : ∀ a, Later p d (f a) → Later p c (g (k a))) :
    Ends p g n c fun limit => (x limit).map k := by
  obtain ⟨a, ha, hlimit⟩ := hx
  refine ⟨k a, h a ha, fun limit hn => ?_⟩
  dsimp only
  rw [hlimit limit hn, Option.map_some]

end Ends

/-! ### One level of nesting -/

section Dispatch
variable {p : Policy} (hp : ¬ p.dispatches) {n : Nat}
  (h : ∀ line c, c.Obeys p → c.headroom < n → Ends p id n c fun limit => deeper limit line c)
include h

theorem ends_all : ∀ (lines : List String) (c : Console), c.Obeys p → c.headroom < n →
    Ends p id n c fun limit => runAll (deeper limit) lines c
  | [], _, hc, _ => ends_some (later_refl hc)
  | line :: lines, c, hc, hn => (h line c hc hn).bind fun d hd =>
    ends_all lines d hd.obeys (hd.headroom_le.trans_lt hn)

theorem ends_nested (line : String) {c : Console} (hc : c.Obeys p) (hn : c.headroom < n) :
    Ends p id n c fun limit => nestedWith (deeper limit) line c := by
  unfold nestedWith
  dsimp only
  split
  · exact ends_some (later_refl hc)
  · exact h _ c hc hn

theorem ends_execute (line : String) {c : Console} (hc : c.Obeys p) (hn : c.headroom < n) :
    Ends p id n c fun limit => executeWith (deeper limit) line c := by
  unfold executeWith
  dsimp only
  split
  · exact ends_some (later_refl hc)
  · split
    · exact ends_nested h _ hc hn
    · exact (h _ (c.submitting _) hc hn).map fun d hd => ⟨hd.obeys, hd.aliasDepth, hd.execDepth⟩

/-- A script leaves less headroom to its lines. -/
theorem ends_execFile (path : String) {c : Console} (hc : c.Obeys p) (hn : c.headroom ≤ n) :
    Ends p Prod.snd n c fun limit => execFileWith (deeper limit) path c := by
  unfold execFileWith
  split
  · exact ends_some (later_print hc _ _)
  · next hdepth =>
    cases Script.read c.disk path with
    | error e => exact ends_some (later_refl hc)
    | ok lines =>
      dsimp only
      generalize hnote : c.note .dispatcher .debug _ = d
      have hd : Later p c d := hnote ▸ later_perform hc (.note .dispatcher .debug _)
      have hroom : (d.withExecDepth (d.activity.execDepth + 1)).headroom < n := by
        have hle := hd.headroom_le
        have hexec := hd.execDepth
        unfold headroom at hle hn ⊢
        show maxAliasDepth - d.activity.aliasDepth +
          (maxExecDepth - (d.activity.execDepth + 1)) < n
        omega
      refine (ends_all h lines (d.withExecDepth (d.activity.execDepth + 1)) hd.obeys hroom).map
        fun e he => hd.trans ⟨he.obeys, he.aliasDepth, ?_⟩
      have hexec : e.activity.execDepth = d.activity.execDepth + 1 := he.execDepth
      show e.activity.execDepth - 1 = d.activity.execDepth
      omega

/-- An alias leaves less headroom to its text. -/
theorem ends_expand (name value : String) (args : List String) {c : Console} (hc : c.Obeys p)
    (hn : c.headroom ≤ n) :
    Ends p id n c fun limit => expandAlias (deeper limit) name value args c := by
  unfold expandAlias
  split
  · exact ends_some (later_print hc _ _)
  · next hdepth =>
    have hroom : (c.withAliasDepth (c.activity.aliasDepth + 1)).headroom < n := by
      unfold headroom at hn ⊢
      show maxAliasDepth - (c.activity.aliasDepth + 1) +
        (maxExecDepth - c.activity.execDepth) < n
      omega
    refine (h _ (c.withAliasDepth (c.activity.aliasDepth + 1)) hc hroom).map fun d hd => ?_
    have haliases : c.activity.aliasDepth + 1 ≤ d.activity.aliasDepth := hd.aliasDepth
    dsimp only [id]
    split
    · next h0 => exact ⟨hd.obeys, h0.le, hd.execDepth⟩
    · exact ⟨hd.obeys, Nat.le_of_succ_le haliases, hd.execDepth⟩

include hp

theorem ends_routine : ∀ (r : Routine) (c : Console), r.Within p c.snapshot → c.Obeys p →
    c.headroom ≤ n → Ends p id n c fun limit => runRoutine (deeper limit) r c
  | .done, _, _, hc, _ => ends_some (later_refl hc)
  | .perform o next, c, .perform _ hnext, hc, hn => by
    have hd := later_perform hc o
    exact (ends_routine (next (c.perform o).1) _ (hnext _ _) hd.obeys
      (hd.headroom_le.trans hn)).of_start hd
  | .inspect next, c, .inspect hnext, hc, hn => ends_routine (next c.snapshot) c hnext hc hn
  | .addCommand .., _, .addCommand hd _ _, _, _ => absurd hd hp
  | .execute .., _, .execute hd _, _, _ => absurd hd hp
  | .nested .., _, .nested hd _, _, _ => absurd hd hp
  | .submit _, _, .submit hd _, _, _ => absurd hd hp
  | .execFile path next, c, .execFile hnext, hc, hn =>
    (ends_execFile h path hc hn).bind fun (a, d) hd =>
      ends_routine (next a) d (hnext a _) hd.obeys (hd.headroom_le.trans hn)

theorem ends_command {k : Command Handler} (hk : ∀ args s, (k.handler args).Within p s)
    (args : Args) {c : Console} (hc : c.Obeys p) (hn : c.headroom ≤ n) :
    Ends p id n c fun limit => callCommand (deeper limit) k args c := by
  unfold callCommand
  split
  · exact ends_some (later_print hc _ _)
  · exact ends_routine hp h _ c (hk args _) hc hn

theorem ends_dispatch (head : String) (stage : Stage) {c : Console} (hc : c.Obeys p)
    (hn : c.headroom ≤ n) :
    Ends p Prod.snd n c fun limit => dispatch (deeper limit) head stage c := by
  unfold dispatch
  cases hget : c.commands.get? head with
  | some k =>
    obtain ⟨i, -, hi⟩ := Option.bind_eq_some_iff.mp hget
    exact (ends_command hp h (hc k (List.mem_of_getElem? hi)) _ hc hn).map fun d hd => hd
  | none =>
    cases c.vars.get? head with
    | some v =>
      dsimp only
      split
      · exact ends_some (later_print hc _ _)
      · exact ends_some (later_perform hc (.assign head _))
    | none =>
      cases c.aliases.get? head with
      | some a => exact (ends_expand h head _ _ hc hn).map fun d hd => hd
      | none => exact ends_some (later_print hc _ _)

omit h hp in
theorem later_recordStage {c : Console} (hc : c.Obeys p) (wasRecording : Bool) (text : String) :
    Later p c (recordStage wasRecording text c) := by
  unfold recordStage
  split
  · split
    · exact later_of_same hc rfl ⟨rfl, rfl⟩
    · exact later_print hc _ _
  · exact later_refl hc

theorem ends_stage (stage : Stage) {c : Console} (hc : c.Obeys p) (hn : c.headroom ≤ n) :
    Ends p id n c fun limit => runStage (deeper limit) stage c := by
  unfold runStage
  cases stage.head? with
  | none => exact ends_some (later_refl hc)
  | some head =>
    refine (ends_dispatch hp h head stage hc hn).map fun (known, d) hd => ?_
    dsimp only [id]
    split
    · exact hd.trans (later_recordStage hd.obeys _ _)
    · exact hd

theorem ends_stages (outer : Option (List String)) : ∀ (ss : List String)
    (piped : Option (List String)) (c : Console), c.Obeys p → c.headroom ≤ n →
      Ends p id n c fun limit => runStages (deeper limit) outer ss piped c
  | [], _, _, hc, _ => ends_some (later_refl hc)
  | [last], piped, c, hc, hn =>
    (ends_stage hp h (.ofText last) (c := (c.withPiped piped).withCapture outer) hc hn).map
      fun d hd => ⟨hd.obeys, hd.aliasDepth, hd.execDepth⟩
  | s :: next :: ss, piped, c, hc, hn => by
    have hstart : Later p c ((c.withPiped piped).withCapture (some [])) :=
      later_of_same hc rfl ⟨rfl, rfl⟩
    exact Ends.of_start hstart ((ends_stage hp h (.ofText s) hstart.obeys hn).bind fun d hd =>
      ends_stages outer (next :: ss) _ d hd.obeys (hd.headroom_le.trans hn))

theorem ends_statement (text : String) {c : Console} (hc : c.Obeys p) (hn : c.headroom ≤ n) :
    Ends p id n c fun limit => runStatement (deeper limit) text c := by
  unfold runStatement
  cases stages text with
  | nil => exact ends_some (later_refl hc)
  | cons first rest =>
    have hecho : Later p c (c.echo text (Stage.ofText first).silent) := by
      unfold echo
      split
      · exact later_print hc _ _
      · exact later_refl hc
    exact (ends_stages hp h _ (first :: rest) _ _ hecho.obeys
      (hecho.headroom_le.trans hn)).of_start hecho

theorem ends_statements : ∀ (texts : List String) (c : Console), c.Obeys p → c.headroom ≤ n →
    Ends p id n c fun limit => runStatements (deeper limit) texts c
  | [], _, hc, _ => ends_some (later_refl hc)
  | text :: texts, _, hc, hn => (ends_statement hp h text hc hn).bind fun d hd =>
    ends_statements texts d hd.obeys (hd.headroom_le.trans hn)

end Dispatch

/-! ### Lines and calls of the host -/

/-- A limit that is one higher is one for what a line runs in turn. -/
theorem Ends.deeper {p : Policy} {α : Type} {f : α → Console} {n : Nat} {c : Console}
    {x : LineRunner → Option α} (h : Ends p f n c fun limit => x (runLine limit)) :
    Ends p f (n + 1) c fun limit => x (deeper limit) := by
  obtain ⟨a, ha, hlimit⟩ := h
  refine ⟨a, ha, fun limit hn => ?_⟩
  obtain ⟨m, rfl⟩ := Nat.exists_eq_add_of_le' (Nat.one_le_of_lt hn)
  exact hlimit m (by omega)

/-- **With headroom `n`, a nesting of `n` is enough for every line.** -/
theorem ends_line {p : Policy} (hp : ¬ p.dispatches) : ∀ (n : Nat) (line : String) (c : Console),
    c.Obeys p → c.headroom ≤ n → Ends p id n c fun limit => runLine limit line c := by
  intro n
  induction n with
  | zero =>
    intro line c hc hn
    simp only [runLine_eq]
    exact ends_statements hp (fun _ _ _ hlt => absurd hlt (Nat.not_lt_zero _)) _ c hc hn
  | succ n ih =>
    intro line c hc hn
    simp only [runLine_eq]
    exact ends_statements hp (fun line d hd hlt =>
      Ends.deeper (x := fun run => run line d) (ih line d hd (Nat.le_of_lt_succ hlt))) _ c hc hn

/-- Handlers that run no lines but those of scripts make every call of the host end. -/
theorem Entrance.ends {p : Policy} (hp : ¬ p.dispatches) (e : Entrance) {c : Console}
    (hc : c.Obeys p) : ∃ d, ∀ limit, maxNesting ≤ limit → e.run limit c = some d := by
  have hroom : ∀ d : Console, d.headroom < maxNesting + 1 := fun d => by
    unfold headroom maxNesting
    omega
  have hline : ∀ line d, d.Obeys p → d.headroom < maxNesting + 1 →
      Ends p id (maxNesting + 1) d fun limit => deeper limit line d := fun line d hd hlt =>
    Ends.deeper (x := fun run => run line d) (ends_line hp maxNesting line d hd
      (Nat.le_of_lt_succ hlt))
  -- what a host's call runs is one level deeper than the call
  cases e with
  | execute line =>
    obtain ⟨d, -, hd⟩ := ends_execute hline line hc (hroom c)
    refine ⟨d, fun limit hn => ?_⟩
    show executeWith (deeper (limit + 1)) line c = some d
    exact hd (limit + 1) (Nat.succ_le_succ hn)
  | submit =>
    obtain ⟨d, -, hd⟩ := ends_execute hline c.line.text (c := c.withLineTaken) hc (hroom _)
    refine ⟨d, fun limit hn => ?_⟩
    show executeWith (deeper (limit + 1)) c.line.text c.withLineTaken = some d
    exact hd (limit + 1) (Nat.succ_le_succ hn)
  | nested line =>
    obtain ⟨d, -, hd⟩ := ends_nested hline line hc (hroom c)
    refine ⟨d, fun limit hn => ?_⟩
    show nestedWith (deeper (limit + 1)) line c = some d
    exact hd (limit + 1) (Nat.succ_le_succ hn)
  | execFile path =>
    obtain ⟨r, -, hr⟩ := ends_execFile hline path hc (hroom c).le
    refine ⟨r.2, fun limit hn => ?_⟩
    show (execFileWith (deeper (limit + 1)) path c).map Prod.snd = some r.2
    exact congrArg (Option.map Prod.snd) (hr (limit + 1) (Nat.succ_le_succ hn))

/-- Every step of a run keeps the counts within their bounds. -/
theorem kept_bounded : Kept fun c => c.activity.Bounded where
  operation {c} o h :=
    ⟨(abides_perform c o).aliasDepth.trans_le h.aliasDepth,
      (abides_perform c o).execDepth.trans_le h.execDepth⟩
  addCommand {c} k h := (same_addCommand c k).activity ▸ h
  takeLine h := h
  record _ h := h
  piped _ h := ⟨h.aliasDepth, h.execDepth⟩
  capture _ h := ⟨h.aliasDepth, h.execDepth⟩
  submitting _ h := ⟨h.aliasDepth, h.execDepth⟩
  settled h := ⟨h.aliasDepth, h.execDepth⟩
  expanding hdepth h := ⟨hdepth, h.execDepth⟩
  expanded h := ⟨Nat.zero_le _, h.execDepth⟩
  entering hdepth h := ⟨h.aliasDepth, hdepth⟩
  leaving h := ⟨h.aliasDepth, (Nat.sub_le _ _).trans h.execDepth⟩

/-- **With the built-in commands every run ends**, on the same console for all limits that are enough,
with no alias and no script running. Throughout, the counts of expanded aliases and running scripts
are within their bounds, and no outermost expansion consists of more than `maxAliasDepth`. -/
theorem builtin_ends (e : Entrance) (c : Console)
    (hbuiltin : ∀ k ∈ c.commands.toList, k ∈ Builtin.commands)
    (haliases : c.activity.aliasDepth = 0) (hscripts : c.activity.execDepth = 0) :
    (∃ d, (∀ limit, maxNesting ≤ limit → e.run limit c = some d) ∧
      d.activity.aliasDepth = 0 ∧ d.activity.execDepth = 0) ∧
    ∀ limit,
      (∀ m ∈ (e.watched limit c).moments, m.console.activity.Bounded) ∧
      (∀ start ∈ (e.nesting limit c).starts, start.Bounded) ∧
      ∀ k ∈ (e.nesting limit c).outermost, k ≤ maxAliasDepth := by
  have hobeys : c.Obeys .simple := fun k hk args s => Builtin.within_of_mem args s (hbuiltin k hk)
  have hbounded : c.activity.Bounded := ⟨by omega, by omega⟩
  constructor
  · obtain ⟨d, hd⟩ := e.ends id hobeys
    have hcounted := e.counts maxNesting c hbounded
    refine ⟨d, hd, ?_, ?_⟩
    · rw [hcounted.aliasDepth d (hd _ le_rfl), if_pos haliases]
    · rw [hcounted.execDepth d (hd _ le_rfl), hscripts]
  · intro limit
    have hcounted := e.counts limit c hbounded
    exact ⟨(kept_bounded.law.entrance limit c e hbounded).1, hcounted.starts,
      hcounted.outermost haliases⟩

/-- Two aliases that stand for each other, and a script that runs itself. -/
def looping : Console where
  commands := (new {}).commands
  aliases := ⟨(Registry.empty.insert ⟨"ping", "pong"⟩).insert ⟨"pong", "ping"⟩⟩
  disk := ⟨[(["loop"], .file "exec loop".toUTF8)]⟩

/-- The aliases are expanded as often as they can be. -/
theorem builtin_ends_looping :
    (∃ d, (∀ limit, maxNesting ≤ limit →
        (Entrance.execute "ping; exec loop").run limit looping = some d) ∧
      d.activity.aliasDepth = 0 ∧ d.activity.execDepth = 0) ∧
    ((Entrance.execute "ping; exec loop").nesting maxNesting looping).outermost =
      [maxAliasDepth] := by
  have hcommands : looping.commands = (new {}).commands := by rw [looping]
  have hbuiltin : ∀ k ∈ looping.commands.toList, k ∈ Builtin.commands := by
    intro k hk
    rw [hcommands] at hk
    exact mem_commands_new {} hk
  have haliases : looping.activity.aliasDepth = 0 := rfl
  have hscripts : looping.activity.execDepth = 0 := rfl
  obtain ⟨hends, -⟩ := builtin_ends (.execute "ping; exec loop") looping hbuiltin haliases hscripts
  exact ⟨hends, by decide +kernel⟩

end Console

end DevConsole
