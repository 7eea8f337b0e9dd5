import DevConsole.Proofs.Run.Printed
import DevConsole.Proofs.Text.Trimmed

/-!
# Lines run by a handler

A handler that calls `execute` inside a submitted line stays in its stage: the call is the call of
`nested`, nothing is added to the history, and what the line and the rest of the handler print goes
on filling the capture of the stage (`StaysInStage`). A call outside a submitted line submits its
line anew: the line goes to the history, and neither the capture nor the lines of the stage before
are there afterwards (`SubmitsAnew`). The marks on the consoles of a run tell the two apart
(`marked_law`). Calls of `execute` and `submit` by the host have all of their run inside a submitted
line, calls of `nested` and `execFile` need not (`execute_call`).
-/

namespace DevConsole

/-- A handler calls `execute` with the line. -/
def Act.isCall (line : String) : Act → Bool
  | .operation _ => false
  | .execute l => l == line

namespace Console

/-! ### Marks -/

/-- Each console of the run is marked as dispatching if the first one is, or a line was submitted
on the way to it; the last one is marked as the first. -/
def Marked (c : Console) (x : Watched Console) : Prop :=
  (∀ m ∈ x.moments, m.console.activity.dispatching =
    (c.activity.dispatching || decide (.submission ∈ m.scopes))) ∧
  ∀ d, x.result = some d → d.activity.dispatching = c.activity.dispatching

theorem marked_done {c d : Console} (h : d.activity.dispatching = c.activity.dispatching) :
    Marked c (.done d) := by
  refine ⟨fun m hm => by simp at hm, fun e he => ?_⟩
  obtain rfl : d = e := Option.some.inj he
  exact h

/-- A scope other than that of a submitted line changes no marks. -/
theorem Marked.inside {c d : Console} {x : Watched Console} {s : Scope} {f : Console → Console}
    (hx : Marked d x) (hs : s ≠ .submission)
    (hd : d.activity.dispatching = c.activity.dispatching)
    (hf : ∀ e, (f e).activity.dispatching = e.activity.dispatching) :
    Marked c ((x.within s).map f) := by
  obtain ⟨hmoments, hresult⟩ := hx
  refine ⟨fun m hm => ?_, fun e he => ?_⟩
  · obtain ⟨n, hn, rfl⟩ := List.mem_map.mp hm
    have hmark := hmoments n hn
    simp only [Moment.inside, List.mem_cons, hs.symm, false_or]
    rw [hmark, hd]
  · obtain ⟨e, hxe, rfl⟩ := Option.map_eq_some_iff.mp he
    rw [hf, hresult e hxe, hd]

/-- **The consoles of every run are marked.** -/
theorem marked_law : Law Marked where
  done c := marked_done rfl
  stuck c := ⟨fun m hm => by simp at hm, fun d hd => by simp at hd⟩
  bind c x f hx hf := by
    obtain ⟨hmoments, hresult⟩ := hx
    refine ⟨fun m hm => ?_, fun e he => ?_⟩
    · obtain hm | ⟨d, hd, hm⟩ := Watched.mem_moments_bind.mp hm
      · exact hmoments m hm
      · rw [(hf d hd).1 m hm, hresult d hd]
    · obtain ⟨d, hd, he⟩ := Watched.result_bind_eq_some.mp he
      exact ((hf d hd).2 e he).trans (hresult d hd)
  operation c o := by
    refine ⟨fun m hm => ?_, fun d hd => ?_⟩
    · obtain rfl := List.mem_singleton.mp hm
      simp
    · obtain rfl : (c.perform o).2 = d := Option.some.inj hd
      exact (course_perform c o).dispatching
  call c line := by
    refine ⟨fun m hm => ?_, fun d hd => ?_⟩
    · obtain rfl := List.mem_singleton.mp hm
      simp
    · obtain rfl : c = d := Option.some.inj hd
      rfl
  addCommand c k := marked_done (by rw [(same_addCommand c k).activity])
  takeLine c := marked_done rfl
  record c text recorder _ := marked_done rfl
  piped c piped := marked_done rfl
  submission c line x hc hx := by
    obtain ⟨hmoments, -⟩ := hx
    refine ⟨fun m hm => ?_, fun e he => ?_⟩
    · obtain ⟨n, hn, rfl⟩ := List.mem_map.mp hm
      have hmark := hmoments n hn
      simp only [Moment.inside, List.mem_cons, true_or, decide_true, Bool.or_true]
      rw [hmark]
      rfl
    · obtain ⟨d, -, rfl⟩ := Option.map_eq_some_iff.mp he
      exact hc.symm
  producer c x hx := hx.inside (by decide) rfl fun _ => rfl
  expansion c x _ hx := hx.inside (by decide) rfl fun d => by split <;> rfl
  script c x _ hx := hx.inside (by decide) rfl fun _ => rfl

/-! ### The two meanings of a call -/

/-- A call of `execute` on the console stays in the stage it is made in. -/
structure StaysInStage (c : Console) (line : String) : Prop where
  /-- The call is the call of `nested`. -/
  nested : ∀ limit, c.execute limit line = c.executeNested limit line
  /-- Nothing is added to the history. -/
  history : ∀ limit d, c.execute limit line = some d → d.history = c.history
  /-- The line and the rest of the handler add all they print to the capture of the stage. -/
  capture : ∀ limit rest d, runRoutine (runLine limit) (.execute line rest) c = some d →
    d.activity.capture = c.activity.capture.map
      (· ++ capturedIn (watchRoutine (watchLine limit) (.execute line rest) c).moments)

/-- A call of `execute` on the console submits its line. -/
structure SubmitsAnew (c : Console) (line : String) : Prop where
  history : ∀ limit d, c.execute limit line = some d → d.history = c.history.push (Text.trim line)
  capture : ∀ limit d, c.execute limit line = some d → d.activity.capture = none
  piped : ∀ limit d, c.execute limit line = some d → d.activity.piped = none

theorem executeNested_trim (c : Console) (limit : Nat) (line : String) :
    c.executeNested limit (Text.trim line) = c.executeNested limit line := by
  unfold executeNested nestedWith
  rw [Text.trim_trim]

theorem execute_of_dispatching {c : Console} (hc : c.activity.dispatching = true) (limit : Nat)
    (line : String) : c.execute limit line = c.executeNested limit line := by
  unfold execute executeWith
  dsimp only
  split
  · next hblank => rw [executeNested, nestedWith, if_pos hblank]
  · exact executeNested_trim c limit line

theorem staysInStage {c : Console} (hc : c.activity.dispatching = true) (line : String) :
    c.StaysInStage line where
  nested limit := execute_of_dispatching hc limit line
  history limit d hd := by
    have hresult : (watchExecute (watchLine limit) line c).result = some d := by
      rw [watchExecute_result (watchLine_result limit)]
      exact hd
    exact (course_law.execute (course_law.line limit) line c hc d hresult).history
  capture limit rest d hd := by
    rw [← watchRoutine_result (watchLine_result limit)] at hd
    exact (course_law.routine (course_law.line limit) _ c hc d hd).capture

theorem submitsAnew {c : Console} (hc : c.activity.dispatching = false) {line : String}
    (hline : Text.trim line ≠ "") : c.SubmitsAnew line := by
  have hexecute : ∀ limit d, c.execute limit line = some d →
      ∃ e, runLine limit (Text.trim line) (c.submitting (Text.trim line)) = some e ∧
        e.settled = d := by
    intro limit d hd
    unfold execute executeWith at hd
    dsimp only at hd
    rw [if_neg hline, if_neg (by simp [hc])] at hd
    exact Option.map_eq_some_iff.mp hd
  refine ⟨fun limit d hd => ?_, fun limit d hd => ?_, fun limit d hd => ?_⟩
  · obtain ⟨e, he, rfl⟩ := hexecute limit d hd
    rw [← watchLine_result] at he
    exact (course_law.line limit _ _ rfl e he).history
  · obtain ⟨e, -, rfl⟩ := hexecute limit d hd
    rfl
  · obtain ⟨e, -, rfl⟩ := hexecute limit d hd
    rfl

/-! ### Calls from the host -/

/-- The host submits a line. -/
def Entrance.submits : Entrance → Bool
  | .execute _ | .submit => true
  | .nested _ | .execFile _ => false

theorem watchExecute_inside {watch : LineWatcher} {c : Console} {line : String}
    (hc : c.activity.dispatching = false) {m : Moment}
    (hm : m ∈ (watchExecute watch line c).moments) : .submission ∈ m.scopes := by
  unfold watchExecute at hm
  dsimp only at hm
  split at hm
  · simp at hm
  · rw [if_neg (by simp [hc])] at hm
    obtain ⟨n, -, rfl⟩ := List.mem_map.mp hm
    exact List.mem_cons_self

theorem Entrance.inside_submission {limit : Nat} {c : Console} {e : Entrance}
    (hc : c.activity.dispatching = false) (he : e.submits = true) {m : Moment}
    (hm : m ∈ (e.watched limit c).moments) : .submission ∈ m.scopes := by
  cases e with
  | execute line => exact watchExecute_inside hc hm
  | submit => exact watchExecute_inside (c := c.withLineTaken) hc hm
  | nested line => cases he
  | execFile path => cases he

/-- **A call of `execute` stays in its stage inside a submitted line, and submits its line anew
outside of one.** This is so at every moment of a run, and in particular where a handler makes the
call; if the host submits a line, all moments are inside of it. -/
theorem execute_call (limit : Nat) (c : Console) (e : Entrance) (hrest : c.activity = .rest)
    (m : Moment) (hm : m ∈ (e.watched limit c).moments) (line : String) :
    (e.submits = true → .submission ∈ m.scopes) ∧
      (.submission ∈ m.scopes → m.console.StaysInStage line) ∧
      (.submission ∉ m.scopes → Text.trim line ≠ "" → m.console.SubmitsAnew line) := by
  have hc : c.activity.dispatching = false := by rw [hrest]; rfl
  have hmark := (marked_law.entrance limit c e).1 m hm
  rw [hc, Bool.false_or] at hmark
  refine ⟨fun he => e.inside_submission hc he hm, fun hin => ?_, fun hout hline => ?_⟩
  · exact staysInStage (by rw [hmark]; exact decide_eq_true hin) line
  · exact submitsAnew (by rw [hmark]; exact decide_eq_false hout) hline

/-- A console with a command that runs a line and prints after it. -/
def telling : Console :=
  ((Console.new {}).addCommand
    { name := "tell", description := none, handler := fun _ => .execute "echo hi" (.info "rest") }).2

theorem execute_call_submitted :
    ∃ m ∈ ((Entrance.execute "tell | grep h").watched 5 telling).moments,
      m.act.isCall "echo hi" = true ∧ m.console.StaysInStage "echo hi" := by
  have hcall : ((Entrance.execute "tell | grep h").watched 5 telling).moments.any
      (·.act.isCall "echo hi") = true := by decide +kernel
  obtain ⟨m, hm, hact⟩ := List.any_eq_true.mp hcall
  obtain ⟨hinside, hstays, -⟩ := execute_call 5 telling _ (by decide +kernel) m hm "echo hi"
  exact ⟨m, hm, hact, hstays (hinside rfl)⟩

/-- A call need not stay in its stage if the host runs the line with `nested`. -/
theorem execute_call_not_submitted :
    ¬ ∀ (limit : Nat) (c : Console) (e : Entrance), c.activity = .rest →
      ∀ m ∈ (e.watched limit c).moments, ∀ line, m.act.isCall line = true →
        m.console.StaysInStage line := by
  intro hall
  have hcall : ((Entrance.nested "tell | grep h").watched 5 telling).moments.any (fun m =>
      m.act.isCall "echo hi" && (m.console.execute 5 "echo hi").map (·.history.lines) !=
        (m.console.executeNested 5 "echo hi").map (·.history.lines)) = true := by decide +kernel
  obtain ⟨m, hm, hboth⟩ := List.any_eq_true.mp hcall
  obtain ⟨hact, hdiff⟩ := (Bool.and_eq_true _ _).mp hboth
  have hsame := (hall 5 telling _ (by decide +kernel) m hm "echo hi" hact).nested 5
  rw [hsame] at hdiff
  simp at hdiff

end Console

end DevConsole
