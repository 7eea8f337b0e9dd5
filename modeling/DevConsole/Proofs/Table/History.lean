import DevConsole.Proofs.Table.Names
import Mathlib.Data.List.ReduceOption

/-!
# Registries over time

A registry keeps its entries in a list and their names in a trie, and changes the two apart. They
stay together exactly as long as new entries come under free names and changes in place leave the
names, as a whole, as they were registered: these are the changes that keep a registry sound
(`Change.sound_run_iff`), and each does to the list of its entries what it does to the history of
all entries that were ever inserted (`Change.entries_run`). The tables of commands, variables and
aliases change their registries in no other way (`Commands.Reachable.grown`,
`Variables.Reachable.grown`, `Aliases.Reachable.grown`).
-/

namespace DevConsole

namespace Registry

variable {α : Type}

/-- A change of a registry. -/
inductive Change (α : Type)
  | insert (e : α)
  | remove (name : String)
  | removeAt (i : Nat)
  | removeWhere (p : α → Bool)
  | modify (name : String) (f : α → α)
  | modifyAll (f : α → α)

/-! ### Histories -/

/-- All entries that were ever inserted, newest first, as they are now, without those taken out. -/
abbrev History (α : Type) := List (Option α)

namespace History

/-- The entries that are still there, newest first. -/
def live (h : History α) : List α := h.reduceOption

/-- Takes out the entry at a place among those that are still there. -/
def vacate : Nat → History α → History α
  | _, [] => []
  | i, none :: h => none :: vacate i h
  | 0, some _ :: h => none :: h
  | i + 1, some e :: h => some e :: vacate i h

@[simp] theorem live_cons_none (h : History α) : live (none :: h) = live h := rfl

@[simp] theorem live_cons_some (e : α) (h : History α) : live (some e :: h) = e :: live h := rfl

theorem live_vacate : ∀ (i : Nat) (h : History α), live (vacate i h) = (live h).eraseIdx i
  | _, [] => rfl
  | i, none :: h => by
    rw [vacate, live_cons_none, live_cons_none, live_vacate i h]
  | 0, some _ :: _ => rfl
  | i + 1, some e :: h => by
    rw [vacate, live_cons_some, live_cons_some, live_vacate i h, List.eraseIdx_cons_succ]

theorem live_map (f : α → α) (h : History α) :
    live (h.map (Option.map f)) = (live h).map f := List.reduceOption_map

theorem live_filter (p : α → Bool) : ∀ h : History α,
    live (h.map (Option.filter p)) = (live h).filter p
  | [] => rfl
  | none :: h => live_filter p h
  | some e :: h => by
    rw [List.map_cons, live_cons_some, List.filter_cons, ← live_filter p h, Option.filter_some]
    split <;> rfl

end History

variable [Named α]

namespace Change

/-- The registry after a change; what is not there is not taken out. -/
def run : Change α → Registry α → Registry α
  | insert e, r => r.insert e
  | remove name, r => ((r.remove? name).map Prod.snd).getD r
  | removeAt i, r => ((r.removeAt? i).map Prod.snd).getD r
  | removeWhere p, r => ((r.removeWhere? p).map Prod.snd).getD r
  | modify name f, r => r.modify name f
  | modifyAll f, r => r.modifyAll f

/-- A new entry comes under a free name, and changes in place leave the names, as a whole, as they
are. -/
def Allowed (r : Registry α) : Change α → Prop
  | insert e => r.contains (Named.name e) = false
  | remove _ | removeAt _ | removeWhere _ => True
  | modify name f =>
    ((r.entries.map (onName name f)).map Named.name).Perm (r.entries.map Named.name)
  | modifyAll f => ((r.entries.map f).map Named.name).Perm (r.entries.map Named.name)

/-- The history after a change. -/
def note : Change α → History α → History α
  | insert e, h => some e :: h
  | remove name, h => h.map (Option.filter fun e => !Text.sameName (Named.name e) name)
  | removeAt i, h => h.vacate i
  | removeWhere p, h =>
    match h.live.findIdx? p with
    | some i => h.vacate i
    | none => h
  | modify name f, h => h.map (Option.map (onName name f))
  | modifyAll f, h => h.map (Option.map f)

variable {r : Registry α}

theorem entries_removeAt (i : Nat) (r : Registry α) :
    ((removeAt i).run r).entries = r.entries.eraseIdx i := by
  rw [run, Registry.removeAt?]
  cases hi : r.entries[i]? with
  | some e => rfl
  | none => exact (List.eraseIdx_of_length_le (List.getElem?_eq_none_iff.mp hi)).symm

theorem run_remove (name : String) (r : Registry α) : (remove name).run r =
    match r.position? name with
    | some i => (removeAt i).run r
    | none => r := by
  rw [run, Registry.remove?]
  cases r.position? name <;> rfl

theorem run_removeWhere (p : α → Bool) (r : Registry α) : (removeWhere p).run r =
    match r.entries.findIdx? p with
    | some i => (removeAt i).run r
    | none => r := by
  rw [run, Registry.removeWhere?]
  cases r.entries.findIdx? p <;> rfl

theorem sound_removeAt (h : r.Sound) (i : Nat) : ((removeAt i).run r).Sound := by
  rw [run]
  cases hr : r.removeAt? i with
  | some p => exact (h.removeAt? hr).1
  | none => exact h

/-- **The allowed changes are those that keep a registry sound.** -/
theorem sound_run_iff (h : r.Sound) (c : Change α) : (c.run r).Sound ↔ c.Allowed r := by
  cases c with
  | insert e => exact h.insert_iff
  | remove name =>
    refine iff_of_true ?_ trivial
    rw [run_remove]
    split
    · exact sound_removeAt h _
    · exact h
  | removeAt i => exact iff_of_true (sound_removeAt h i) trivial
  | removeWhere p =>
    refine iff_of_true ?_ trivial
    rw [run_removeWhere]
    split
    · exact sound_removeAt h _
    · exact h
  | modify name f =>
    show (r.modify name f).Sound ↔ _
    rw [h.modify_eq]
    exact h.mapEntries_iff _
  | modifyAll f => exact h.mapEntries_iff f

/-- **A change does to the entries what it does to their history.** -/
theorem entries_run (h : r.Sound) {past : History α} (hpast : r.entries = past.live)
    (c : Change α) : (c.run r).entries = (c.note past).live := by
  cases c with
  | insert e =>
    show e :: r.entries = _
    rw [hpast]
    rfl
  | remove name =>
    rw [run_remove, note, History.live_filter, ← hpast, h.position?_eq]
    cases hi : r.entries.findIdx? fun e => Text.sameName (Named.name e) name with
    | some i =>
      show ((removeAt i).run r).entries = _
      rw [entries_removeAt, h.distinct.eraseIdx_eq_filter hi]
    | none =>
      have hno := List.findIdx?_eq_none_iff.mp hi
      exact (List.filter_eq_self.mpr fun e he => by simp [hno e he]).symm
  | removeAt i => rw [entries_removeAt, note, History.live_vacate, hpast]
  | removeWhere p =>
    rw [run_removeWhere, note, hpast]
    cases past.live.findIdx? p with
    | some i =>
      show ((removeAt i).run r).entries = (past.vacate i).live
      rw [entries_removeAt, History.live_vacate, hpast]
    | none => exact hpast
  | modify name f =>
    show (r.modify name f).entries = _
    rw [h.modify_eq, note, History.live_map, ← hpast]
  | modifyAll f =>
    show r.entries.map f = _
    rw [note, History.live_map, ← hpast]

end Change

/-- Allowed changes of the registry without entries lead to the registry, with the history. -/
inductive Made : Registry α → History α → Prop
  | empty : Made .empty []
  | change {r : Registry α} {past : History α} (c : Change α) : Made r past → c.Allowed r →
    Made (c.run r) (c.note past)

theorem Made.sound_entries {r : Registry α} {past : History α} (h : Made r past) :
    r.Sound ∧ r.entries = past.live := by
  induction h with
  | empty => exact ⟨sound_empty, rfl⟩
  | change c _ hc ih => exact ⟨(c.sound_run_iff ih.1).mpr hc, c.entries_run ih.1 ih.2⟩

/-! ### Together -/

/-- Each entry is listed once, in the order of the folded names. -/
structure Listed (listed entries : List α) : Prop where
  perm : listed.Perm entries
  ascending : listed.Pairwise fun x y => Text.Before (Named.name x) (Named.name y)

/-- The trie and the list of a registry agree. -/
structure Together (r : Registry α) (past : History α) : Prop where
  /-- The entries are those still there of all that were inserted, newest first. -/
  entries : r.entries = past.live
  /-- A name in the trie is that of one entry, and another name that of none. -/
  one : ∀ name, r.entries.countP (fun e => Text.sameName (Named.name e) name) =
    if r.names.contains name then 1 else 0
  contains : ∀ name, r.contains name = true ↔
    ∃ e ∈ r.entries, Text.sameName (Named.name e) name = true
  position? : ∀ name i, r.position? name = some i ↔
    ∃ e, r.entries[i]? = some e ∧ Text.sameName (Named.name e) name = true
  get? : ∀ name e, r.get? name = some e ↔
    e ∈ r.entries ∧ Text.sameName (Named.name e) name = true
  modify : ∀ name f, (r.modify name f).entries = r.entries.map (onName name f)
  startingWith : ∀ lead name, name ∈ r.startingWith lead ↔
    (∃ e ∈ r.entries, Named.name e = name) ∧ Text.startsName lead name = true
  ascending : ∀ lead, (r.startingWith lead).Pairwise Text.Before
  sorted : Listed r.sorted r.entries

theorem Sound.listed {r : Registry α} (h : r.Sound) : Listed r.sorted r.entries where
  perm := h.sorted_perm
  ascending := by
    have hnames : r.sortedNames.Pairwise Text.Before := h.startingWith_ascending ""
    rw [← h.map_name_sorted] at hnames
    exact List.pairwise_map.mp hnames

theorem Made.together {r : Registry α} {past : History α} (h : Made r past) : Together r past := by
  obtain ⟨hsound, hentries⟩ := h.sound_entries
  exact {
    entries := hentries
    one := hsound.countP_sameName
    contains := fun name => hsound.contains_iff
    position? := fun name i => hsound.position?_eq_some_iff
    get? := fun name e => hsound.get?_eq_some_iff
    modify := fun name f => by rw [hsound.modify_eq]
    startingWith := fun lead name => hsound.mem_startingWith_iff
    ascending := hsound.startingWith_ascending
    sorted := hsound.listed }

end Registry

/-! ### The tables -/

/-- The registry is one that allowed changes lead to. -/
def Registry.Grown {α : Type} [Named α] (r : Registry α) : Prop := ∃ past, Made r past

section Grown
variable {α : Type} [Named α] {r : Registry α}

theorem Registry.grown_empty : (empty : Registry α).Grown := ⟨[], .empty⟩

theorem Registry.Grown.sound (h : r.Grown) : r.Sound := by
  obtain ⟨past, hpast⟩ := h
  exact hpast.sound_entries.1

theorem Registry.Grown.run (h : r.Grown) {c : Change α} (hc : c.Allowed r) : (c.run r).Grown := by
  obtain ⟨past, hpast⟩ := h
  exact ⟨c.note past, .change c hpast hc⟩

theorem Registry.Grown.insert (h : r.Grown) {e : α} (he : r.contains (Named.name e) = false) :
    (r.insert e).Grown := h.run (c := .insert e) he

theorem Registry.Grown.removeAt? (h : r.Grown) {i : Nat} {e : α} {r' : Registry α}
    (hr : r.removeAt? i = some (e, r')) : r'.Grown := by
  have hrun : (Change.removeAt i).run r = r' := by rw [Change.run, hr]; rfl
  exact hrun ▸ h.run (c := .removeAt i) trivial

theorem Registry.Grown.modify (h : r.Grown) (name : String) {f : α → α}
    (hf : ∀ e, Named.name (f e) = Named.name e) : (r.modify name f).Grown := by
  refine h.run (c := .modify name f) ?_
  show (_ : List String).Perm _
  rw [map_name_map fun e _ => name_onName hf name e]

end Grown

namespace Commands

variable {H : Type}

/-- The tables of commands that adding and taking out lead to. -/
inductive Reachable : Commands H → Prop
  | empty : Reachable .empty
  | add {t t' : Commands H} {k : Command H} : Reachable t → t.add k = .ok t' → Reachable t'
  | remove {t t' : Commands H} {name : String} {k : Command H} : Reachable t →
    t.remove? name = some (k, t') → Reachable t'

theorem Reachable.grown {t : Commands H} (h : t.Reachable) : t.registry.Grown := by
  induction h with
  | empty => exact Registry.grown_empty
  | add _ hadd ih =>
    obtain ⟨-, hfree, rfl⟩ := add_eq_ok hadd
    exact ih.insert hfree
  | remove _ hremove ih =>
    obtain ⟨i, hi⟩ := remove?_eq_some hremove
    exact ih.removeAt? hi

end Commands

namespace Aliases

/-- The tables of aliases that setting and taking out lead to. -/
inductive Reachable : Aliases → Prop
  | empty : Reachable .empty
  | set {t t' : Aliases} {name value : String} : Reachable t → t.set name value = .ok t' →
    Reachable t'
  | remove {t t' : Aliases} {name : String} {a : Alias} : Reachable t →
    t.remove? name = some (a, t') → Reachable t'

theorem Reachable.grown {t : Aliases} (h : t.Reachable) : t.registry.Grown := by
  induction h with
  | empty => exact Registry.grown_empty
  | set _ hset ih =>
    obtain ⟨-, ⟨-, rfl⟩ | ⟨hfree, rfl⟩⟩ := set_eq_ok hset
    · exact ih.modify _ fun _ => rfl
    · exact ih.insert hfree
  | remove _ hremove ih =>
    obtain ⟨i, hi⟩ := remove?_eq_some hremove
    exact ih.removeAt? hi

end Aliases

namespace Variables

variable {s : Variables}

theorem grown_add (h : s.registry.Grown) {v : Variable} (hfree : s.contains v.name = false) :
    (s.add v).store.registry.Grown := h.insert (e := { v with handle := some ⟨s.nextHandle⟩ }) hfree

theorem grown_register (h : s.registry.Grown) {v : Variable} {r : Registration}
    (hr : s.register v = .ok r) : r.store.registry.Grown := by
  unfold register at hr
  cases hname : checkName v.name with
  | error e => rw [hname] at hr; cases hr
  | ok u =>
    rw [hname] at hr
    cases hremove : s.registry.remove? v.name with
    | none =>
      rw [hremove] at hr
      cases hr
      exact grown_add h (h.sound.remove?_eq_none hremove)
    | some p =>
      obtain ⟨old, registry⟩ := p
      obtain ⟨-, -, -, hfree⟩ := h.sound.remove?_eq_some hremove
      obtain ⟨i, hi⟩ := Registry.removeAt?_of_remove? hremove
      have hgrown : ({ s with registry } : Variables).registry.Grown := h.removeAt? hi
      rw [hremove] at hr
      change (if old.flags.has .temp then _ else _) = _ at hr
      split at hr
      · cases hr
        split
        · exact grown_add hgrown hfree
        · exact grown_add (v := v.withValueOf old) hgrown hfree
      · cases hr

theorem Reachable.grown (h : s.Reachable) : s.registry.Grown := by
  induction h with
  | empty => exact Registry.grown_empty
  | register _ hr ih => exact grown_register ih hr
  | create _ hcreate ih =>
    rcases create_eq_ok hcreate with hset | ⟨-, hfree, rfl⟩
    · rw [set?_eq_some hset]
      exact ih.modify _ fun _ => rfl
    · exact grown_add ih hfree
  | unregister _ hv ih =>
    obtain ⟨⟨w, r⟩, hr, hpair⟩ := Option.map_eq_some_iff.mp hv
    obtain ⟨rfl, rfl⟩ := Prod.mk.inj hpair
    obtain ⟨i, hi⟩ := Registry.removeAt?_of_removeWhere? hr
    exact ih.removeAt? hi
  | set _ hset ih =>
    rw [set?_eq_some hset]
    exact ih.modify _ fun _ => rfl
  | reset _ hreset ih =>
    rw [reset?_eq_some hreset]
    exact ih.modify _ fun _ => rfl

end Variables

namespace Registry

/-- **The list and the trie of a registry stay together** as long as new entries come under free
names and changes in place leave the names, as a whole, as they are. The tables change their
registries in no other way, and so list each entry once, in the order of the names. -/
theorem list_and_trie_together :
    (∀ {α : Type} [Named α] {r : Registry α} {past : History α}, Made r past → Together r past) ∧
    (∀ {H : Type} {t : Commands H}, t.Reachable → t.registry.Grown ∧ Listed t.sorted t.toList) ∧
    (∀ {s : Variables}, s.Reachable → s.registry.Grown ∧ Listed s.sorted s.toList) ∧
    ∀ {t : Aliases}, t.Reachable → t.registry.Grown ∧ Listed t.sorted t.toList :=
  ⟨fun h => h.together, fun h => ⟨h.grown, h.grown.sound.listed⟩,
    fun h => ⟨h.grown, h.grown.sound.listed⟩, fun h => ⟨h.grown, h.grown.sound.listed⟩⟩

/-- The aliases after one was changed under another spelling of its name and one was taken out. -/
def respelt : Registry Alias :=
  (Change.remove "SAY").run ((Change.modify "q" ({ · with value := "exit" })).run
    ((Registry.empty.insert ⟨"Q", "quit"⟩).insert ⟨"say", "echo"⟩))

/-- The aliases of `respelt`, and tables with a few entries, of which the variable took the place of a
temporary one with another spelling of its name. -/
theorem list_and_trie_together_respelt :
    Together respelt [none, some ⟨"Q", "exit"⟩] ∧ respelt.startingWith "q" = ["Q"] ∧
      (∃ t : Commands Unit, Listed t.sorted t.toList ∧ t.sorted.map Command.name = ["cat", "Echo"]) ∧
      (∃ s : Variables, Listed s.sorted s.toList ∧ s.sorted.map Variable.name = ["fov"]) ∧
      ∃ t : Aliases, Listed t.sorted t.toList ∧ t.sorted.map Alias.name = ["q"] := by
  obtain ⟨hregistry, hcommands, hvariables, haliases⟩ := list_and_trie_together
  have hmade : Made respelt [none, some ⟨"Q", "exit"⟩] := by
    have hquit : Made _ _ := .change (.insert (⟨"Q", "quit"⟩ : Alias)) .empty rfl
    have hsay : Made _ _ := .change (.insert (⟨"say", "echo"⟩ : Alias)) hquit rfl
    have hexit : Made _ _ := .change (.modify "q" ({ · with value := "exit" })) hsay
      (by rw [Change.Allowed]; decide +kernel)
    exact .change (.remove "SAY") hexit trivial
  have hcat : (Commands.empty (H := Unit)).add ⟨"cat", none, ()⟩ = .ok _ := rfl
  have hecho := hcommands (.add (k := ⟨"Echo", none, ()⟩) (.add .empty hcat) rfl)
  have hfov : Variables.empty.create "Fov" (.int 90) .empty = .ok _ := rfl
  have hclaimed := hvariables (.register (v := .ofValue "fov" (.int 80)) (.create .empty hfov) rfl)
  have hset : Aliases.empty.set "q" "quit" = .ok _ := rfl
  exact ⟨hregistry hmade, by decide +kernel, ⟨_, hecho.2, by decide +kernel⟩,
    ⟨_, hclaimed.2, by decide +kernel⟩, _, (haliases (.set .empty hset)).2, by decide +kernel⟩

end Registry

end DevConsole
