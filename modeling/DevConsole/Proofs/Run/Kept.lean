import DevConsole.Proofs.Run.Law

/-!
# Properties that runs keep

If every step of a run keeps a property of consoles (`Kept`), then a run that starts on a console with
the property has it at every moment and at its end. As a relation between the console and the run
this is a law (`Kept.law`), so it holds of every line and every call of the host.
-/

namespace DevConsole

namespace Console

/-- If the console has the property, the run has it at its end, and its moments are as said. -/
def Keeps (I : Console → Prop) (M : Console → Act → Prop) (c : Console) (x : Watched Console) :
    Prop :=
  I c → (∀ m ∈ x.moments, M m.console m.act) ∧ ∀ d, x.result = some d → I d

/-- Every step of a run keeps the property. -/
structure Kept (I : Console → Prop) : Prop where
  operation : ∀ {c} (o : Operation), I c → I (c.perform o).2
  addCommand : ∀ {c} (k : Command Handler), I c → I (c.addCommand k).2
  takeLine : ∀ {c}, I c → I c.withLineTaken
  record : ∀ {c} (recorder : Recorder), I c → I { c with recorder }
  piped : ∀ {c} (piped : Option (List String)), I c → I (c.withPiped piped)
  capture : ∀ {c} (capture : Option (List String)), I c → I (c.withCapture capture)
  submitting : ∀ {c} (line : String), I c → I (c.submitting line)
  settled : ∀ {c}, I c → I c.settled
  /-- An alias is entered below the bound, and the outermost one sets the count back. -/
  expanding : ∀ {c}, c.activity.aliasDepth < maxAliasDepth → I c →
    I (c.withAliasDepth (c.activity.aliasDepth + 1))
  expanded : ∀ {c}, I c → I (c.withAliasDepth 0)
  /-- A script is entered below the bound and left again. -/
  entering : ∀ {c}, c.activity.execDepth < maxExecDepth → I c →
    I (c.withExecDepth (c.activity.execDepth + 1))
  leaving : ∀ {c}, I c → I (c.withExecDepth (c.activity.execDepth - 1))

section Keeps
variable {I : Console → Prop} {M : Console → Act → Prop}

theorem keeps_done {c d : Console} (h : I c → I d) : Keeps I M c (.done d) := by
  intro hc
  refine ⟨fun m hm => by simp at hm, fun e he => ?_⟩
  obtain rfl : d = e := Option.some.inj he
  exact h hc

theorem keeps_stuck {c : Console} : Keeps I M c .stuck :=
  fun _ => ⟨fun m hm => by simp at hm, fun d hd => by simp at hd⟩

/-- A scope that is entered and left with the property. -/
theorem Keeps.inside {c d : Console} {x : Watched Console} {s : Scope} {f : Console → Console}
    (hx : Keeps I M d x) (hd : I c → I d) (hf : ∀ e, I e → I (f e)) :
    Keeps I M c ((x.within s).map f) := by
  intro hc
  obtain ⟨hmoments, hresult⟩ := hx (hd hc)
  refine ⟨fun m hm => ?_, fun e he => ?_⟩
  · obtain ⟨n, hn, rfl⟩ := List.mem_map.mp hm
    exact hmoments n hn
  · obtain ⟨e, hxe, rfl⟩ := Option.map_eq_some_iff.mp he
    exact hf e (hresult e hxe)

theorem Keeps.bind {c : Console} {x : Watched Console} {f : Console → Watched Console}
    (hx : Keeps I M c x) (hf : ∀ d, x.result = some d → Keeps I M d (f d)) :
    Keeps I M c (x.bind f) := by
  intro hc
  obtain ⟨hmoments, hresult⟩ := hx hc
  refine ⟨fun m hm => ?_, fun e he => ?_⟩
  · obtain hm | ⟨d, hd, hm⟩ := Watched.mem_moments_bind.mp hm
    · exact hmoments m hm
    · exact (hf d hd (hresult d hd)).1 m hm
  · obtain ⟨d, hd, he⟩ := Watched.result_bind_eq_some.mp he
    exact (hf d hd (hresult d hd)).2 e he

/-- A moment on the console itself. -/
theorem keeps_moment {c d : Console} {act : Act} (hM : I c → M c act) (h : I c → I d) :
    Keeps I M c ⟨[⟨[], c, act⟩], some d⟩ := by
  intro hc
  refine ⟨fun m hm => ?_, fun e he => ?_⟩
  · obtain rfl := List.mem_singleton.mp hm
    exact hM hc
  · obtain rfl : d = e := Option.some.inj he
    exact h hc

end Keeps

/-- **What every step keeps, every run keeps.** -/
theorem Kept.law {I : Console → Prop} (h : Kept I) : Law (Keeps I fun c _ => I c) where
  done c := keeps_done id
  stuck c := keeps_stuck
  bind c x f hx hf := hx.bind hf
  operation c o := keeps_moment id (h.operation o)
  call c line := keeps_moment id id
  addCommand c k := keeps_done (h.addCommand k)
  takeLine c := keeps_done h.takeLine
  record c text recorder _ := keeps_done (h.record recorder)
  piped c piped := keeps_done (h.piped piped)
  submission c line x _ hx := hx.inside (h.submitting line) fun _ => h.settled
  producer c x hx := hx.inside (h.capture _) fun _ => h.capture _
  expansion c x hdepth hx := hx.inside (h.expanding hdepth) fun e he => by
    split
    · exact h.expanded he
    · exact he
  script c x hdepth hx := hx.inside (h.entering hdepth) fun _ => h.leaving

end Console

end DevConsole
