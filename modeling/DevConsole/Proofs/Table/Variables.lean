import DevConsole.Proofs.Table.Registry
import DevConsole.Variables

/-!
# Reachable stores of variables

The stores that the operations on variables lead to from the store without variables. Each has a
sound registry, and all its variables have valid names (`Reachable.sound`).
-/

namespace DevConsole

namespace Variables

/-- The stores that the operations lead to. -/
inductive Reachable : Variables → Prop
  | empty : Reachable .empty
  | register {s : Variables} {v : Variable} {r : Registration} :
    Reachable s → s.register v = .ok r → Reachable r.store
  | create {s s' : Variables} {name : String} {value : Value} {flags : Flags} :
    Reachable s → s.create name value flags = .ok s' → Reachable s'
  | unregister {s s' : Variables} {h : Handle} {v : Variable} :
    Reachable s → s.unregister h = some (v, s') → Reachable s'
  | set {s s' : Variables} {name : String} {value : Value} :
    Reachable s → s.set? name value = some s' → Reachable s'
  | reset {s s' : Variables} {name : String} :
    Reachable s → s.reset? name = some s' → Reachable s'

/-- The registry is sound, and the variables have valid names. -/
structure Sound (s : Variables) : Prop where
  registry : s.registry.Sound
  isName : ∀ v ∈ s.toList, isName v.name = true

theorem isName_of_checkName {name : String} (h : checkName name = .ok ()) : isName name = true := by
  unfold checkName at h
  split at h
  · assumption
  · cases h

theorem sound_empty : empty.Sound where
  registry := Registry.sound_empty
  isName v h := by cases h

theorem Sound.add {s : Variables} (hs : s.Sound) {v : Variable} (hv : DevConsole.isName v.name = true)
    (hfree : s.registry.contains v.name = false) : (s.add v).store.Sound where
  registry := hs.registry.insert hfree
  isName w hw := by
    rcases List.mem_cons.mp hw with rfl | hw
    · exact hv
    · exact hs.isName w hw

/-- A change of variables without their names. -/
theorem Sound.modify {s : Variables} (hs : s.Sound) {name : String} {f : Variable → Variable}
    (hf : ∀ v, (f v).name = v.name) : Sound { s with registry := s.registry.modify name f } where
  registry := hs.registry.modify hf
  isName w hw := by
    have hw' : w ∈ s.registry.entries.map (Registry.onName name f) := by
      rw [toList, hs.registry.modify_eq] at hw
      exact hw
    obtain ⟨v, hv, rfl⟩ := List.mem_map.mp hw'
    have hname : (Registry.onName name f v).name = v.name := Registry.name_onName hf name v
    rw [hname]
    exact hs.isName v hv

theorem Sound.removed {s : Variables} (hs : s.Sound) {v : Variable} {r : Registry Variable}
    (hr : r.Sound) (hperm : s.registry.entries.Perm (v :: r.entries)) :
    Sound { s with registry := r } where
  registry := hr
  isName w hw := hs.isName w (hperm.mem_iff.mpr (List.mem_cons_of_mem v hw))

theorem Sound.register {s : Variables} (hs : s.Sound) {v : Variable} {r : Registration}
    (h : s.register v = .ok r) : r.store.Sound := by
  unfold Variables.register at h
  cases hname : checkName v.name with
  | error e => rw [hname] at h; cases h
  | ok u =>
    rw [hname] at h
    have hv := isName_of_checkName hname
    cases hr : s.registry.remove? v.name with
    | none =>
      rw [hr] at h
      cases h
      exact hs.add hv (hs.registry.remove?_eq_none hr)
    | some p =>
      obtain ⟨old, registry⟩ := p
      obtain ⟨hsound, hperm, -, hfree⟩ := hs.registry.remove?_eq_some hr
      have hs' := hs.removed hsound hperm
      rw [hr] at h
      change (if old.flags.has .temp then _ else _) = _ at h
      split at h
      · cases h
        split
        · exact hs'.add hv hfree
        · exact hs'.add (v := v.withValueOf old) hv hfree
      · cases h

theorem Sound.create {s s' : Variables} (hs : s.Sound) {name : String} {value : Value}
    {flags : Flags} (h : s.create name value flags = .ok s') : s'.Sound := by
  unfold Variables.create at h
  cases hset : s.set? name value with
  | some t =>
    rw [hset] at h
    cases h
    unfold set? at hset
    split at hset
    · cases hset
      exact hs.modify fun _ => rfl
    · cases hset
  | none =>
    rw [hset] at h
    cases hname : checkName name with
    | error e => rw [hname] at h; cases h
    | ok u =>
      rw [hname] at h
      cases h
      refine hs.add (isName_of_checkName hname) (Bool.eq_false_iff.mpr fun hcontains => ?_)
      have hno : ¬ s.contains name = true := by
        intro hc
        rw [set?, if_pos hc] at hset
        cases hset
      exact hno hcontains

/-- **Every reachable store is sound.** -/
theorem Reachable.sound {s : Variables} (h : s.Reachable) : s.Sound := by
  induction h with
  | empty => exact sound_empty
  | register _ h ih => exact ih.register h
  | create _ h ih => exact ih.create h
  | unregister _ h ih =>
    obtain ⟨⟨w, r⟩, hr, hpair⟩ := Option.map_eq_some_iff.mp h
    obtain ⟨rfl, rfl⟩ := Prod.mk.inj hpair
    obtain ⟨i, -, hr⟩ := Option.bind_eq_some_iff.mp hr
    obtain ⟨hsound, hperm⟩ := ih.registry.removeAt? hr
    exact ih.removed hsound hperm
  | set _ h ih =>
    unfold set? at h
    split at h
    · cases h
      exact ih.modify fun _ => rfl
    · cases h
  | reset _ h ih =>
    unfold reset? at h
    split at h
    · cases h
      exact ih.modify fun _ => rfl
    · cases h

theorem Sound.contains_iff {s : Variables} (hs : s.Sound) {name : String} :
    s.contains name = true ↔ ∃ v ∈ s.toList, Text.sameName v.name name = true :=
  hs.registry.contains_iff

theorem Sound.eq_of_sameName {s : Variables} (hs : s.Sound) {v w : Variable} (hv : v ∈ s.toList)
    (hw : w ∈ s.toList) (h : Text.sameName v.name w.name = true) : v = w :=
  hs.registry.distinct.eq_of_sameName hv hw h

/-- The text that is found under a variable's name is its own. -/
theorem Sound.string_eq {s : Variables} (hs : s.Sound) {v : Variable} (hv : v ∈ s.toList) :
    s.string v.name = v.views.string := by
  have hget : s.get? v.name = some v := hs.registry.get?_name hv
  rw [string, hget]
  rfl

theorem contains_of_set? {s s' : Variables} {name : String} {value : Value}
    (h : s.set? name value = some s') : s.contains name = true := by
  unfold set? at h
  split at h
  · assumption
  · cases h

/-- **Setting a variable changes the one with the name and no other.** -/
theorem Sound.set?_eq {s : Variables} (hs : s.Sound) {name : String} (h : s.contains name = true)
    (value : Value) :
    ∃ s', s.set? name value = some s' ∧ s'.Sound ∧ s'.nextHandle = s.nextHandle ∧
      (∀ n, s'.contains n = s.contains n) ∧
      s'.toList = s.toList.map (Registry.onName name (·.set value)) := by
  refine ⟨_, if_pos h, hs.modify fun _ => rfl, rfl, fun n => ?_, ?_⟩
  · show (s.registry.modify name (·.set value)).contains n = s.registry.contains n
    rw [hs.registry.modify_eq]
    rfl
  · show (s.registry.modify name (·.set value)).entries = _
    rw [hs.registry.modify_eq]
    rfl

end Variables

end DevConsole
