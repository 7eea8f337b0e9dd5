import DevConsole.Proofs.Run.Printing

/-!
# What operations do to the settings and the recorder

Only turning the echo on or off changes the settings, and only starting and stopping a recording
changes the recorder; no other operation does (`sameSetup_perform`).
-/

namespace DevConsole

/-- The operation changes the settings or the recorder. -/
def Operation.isSetup : Operation → Bool
  | .setEcho _ | .startRecording | .stopRecording => true
  | _ => false

namespace Console

/-- The consoles have the same settings and the same recorder. -/
structure SameSetup (c d : Console) : Prop where
  settings : d.settings = c.settings
  recorder : d.recorder = c.recorder

theorem SameSetup.trans {c d e : Console} (h : SameSetup c d) (h' : SameSetup d e) :
    SameSetup c e where
  settings := h'.settings.trans h.settings
  recorder := h'.recorder.trans h.recorder

theorem sameSetup_print (c : Console) (level : Level) (message : String) :
    SameSetup c (c.print level message) := by
  have hsink : SameSetup c (c.toSink ⟨level, message⟩) := by
    unfold toSink
    split <;> exact ⟨rfl, rfl⟩
  unfold print
  split
  · exact ⟨rfl, rfl⟩
  · exact ⟨hsink.settings, hsink.recorder⟩

theorem sameSetup_echo (c : Console) (statement : String) (silent : Bool) :
    SameSetup c (c.echo statement silent) := by
  unfold echo
  split
  · exact sameSetup_print c _ _
  · exact ⟨rfl, rfl⟩

theorem sameSetup_printing : Printing SameSetup where
  trans := .trans
  print c level message _ := sameSetup_print c level message
  besides _ _ _ _ _ _ := ⟨rfl, rfl⟩

theorem sameSetup_withName {α : Type} {c : Console} {act : Except ConsoleError α × Console}
    (h : SameSetup c act.2) (name : String) (kind : EntryKind) :
    SameSetup c (c.withName name kind act).2 := by
  unfold withName
  split
  · exact ⟨rfl, rfl⟩
  · exact h

theorem sameSetup_registerVariable (c : Console) (v : Variable) :
    SameSetup c (c.registerVariable v).2 := by
  refine sameSetup_withName ?_ _ _
  cases c.vars.register v with
  | error e => exact ⟨rfl, rfl⟩
  | ok r => dsimp only; split <;> exact ⟨rfl, rfl⟩

theorem sameSetup_addCommand (c : Console) (k : Command Handler) :
    SameSetup c (c.addCommand k).2 := by
  refine sameSetup_withName ?_ _ _
  split <;> exact ⟨rfl, rfl⟩

theorem sameSetup_takeLoaded (c : Console) (r : Except ConsoleError Config.Loaded) :
    SameSetup c (c.takeLoaded r).2 := by
  cases r with
  | error e => exact ⟨rfl, rfl⟩
  | ok l =>
    rw [takeLoaded_ok]
    exact ⟨rfl, rfl⟩

/-- **All other operations leave the settings and the recorder.** -/
theorem sameSetup_perform {o : Operation} (ho : o.isSetup = false) (c : Console) :
    SameSetup c (c.perform o).2 := by
  cases hprinting : o.isPrinting with
  | true => exact sameSetup_printing.perform hprinting fun _ _ _ => sameSetup_print c _ _
  | false =>
    cases o with
    | print | assign | complete | cycle => cases hprinting
    | setEcho | startRecording | stopRecording => cases ho
    | display | note | takePiped | setSink | requestClear | takeOutput | takeChanges | takeClear
    | edit => exact ⟨rfl, rfl⟩
    | registerVariable v => exact sameSetup_registerVariable c v
    | createVariable name value flags =>
      refine sameSetup_withName ?_ _ _
      split <;> exact ⟨rfl, rfl⟩
    | setVariable name value => exact sameSetup_printing.setVariable c name value
    | setAlias name value =>
      refine sameSetup_withName ?_ _ _
      split <;> exact ⟨rfl, rfl⟩
    | choose step => exact sameSetup_printing.choose c step
    | loadConfig path => exact sameSetup_takeLoaded c _
    | loadText text path => exact sameSetup_takeLoaded c _
    | unregisterVariable h =>
      simp only [perform, unregisterVariable]
      split <;> exact ⟨rfl, rfl⟩
    | resetVariable name =>
      simp only [perform, resetVariable]
      split <;> exact ⟨rfl, rfl⟩
    | removeAlias name =>
      simp only [perform, removeAlias]
      split <;> exact ⟨rfl, rfl⟩
    | removeCommand name =>
      simp only [perform, removeCommand]
      split <;> exact ⟨rfl, rfl⟩
    | recallLine back =>
      simp only [perform, recallLine]
      split <;> exact ⟨rfl, rfl⟩
    | writeScript path =>
      simp only [perform, writeScript]
      split <;> exact ⟨rfl, rfl⟩
    | saveConfig path mode =>
      simp only [perform, saveConfig]
      split <;> exact ⟨rfl, rfl⟩


end Console

end DevConsole
