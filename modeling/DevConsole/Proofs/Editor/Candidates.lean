import DevConsole.Editor.Completion
import DevConsole.Proofs.Table.History
import DevConsole.Proofs.Text.ByteOrder

/-!
# The candidates for a word

The names that begin with a word come from three tables, which may spell one name in different ways.
Brought into one order, equal names stand next to each other with the spelling of the smallest bytes
first, so dropping those that repeat the name before leaves exactly that one (`Merged`). A name that is
the word itself comes before all longer ones and is in front already (`Merged.exactFirst_eq`).
-/

namespace DevConsole

open Text

/-- The same name begins with the same words. -/
theorem startsName_congr {word a b : String} (h : sameName a b = true) :
    startsName word a = startsName word b := by
  rw [startsName, startsName, (sameName_iff a b).mp h]

/-! ### Dropping repeats -/

/-- `kept` has of each name in `names` the first spelling in order, and nothing else. -/
structure Merged (names kept : List String) : Prop where
  ascending : kept.Pairwise Before
  mem : ∀ name ∈ kept, name ∈ names
  first : ∀ name ∈ names, ∃ k ∈ kept, sameName k name = true ∧ nameBefore k name = true

theorem nameBefore_self (name : String) : nameBefore name name = true :=
  nameBefore_iff.mpr (.inr ⟨sameName_self name, le_refl name⟩)

/-- A name that is not the same as a later one is before it. -/
theorem before_of_nameBefore {a b : String} (h : nameBefore a b = true) (hab : ¬ sameName a b = true) :
    Before a b := (nameBefore_iff.mp h).resolve_right fun hsame => hab hsame.1

section cons
variable {last next : String} {names kept : List String}

/-- Another spelling of the name before changes nothing. -/
theorem Merged.repeated (h : Merged (last :: names) (last :: kept)) (hsame : sameName last next = true)
    (hnext : nameBefore last next = true) : Merged (last :: next :: names) (last :: kept) where
  ascending := h.ascending
  mem name hname := by
    rcases List.mem_cons.mp (h.mem name hname) with rfl | hname
    · exact List.mem_cons_self
    · exact List.mem_cons_of_mem _ (List.mem_cons_of_mem _ hname)
  first name hname := by
    rcases List.mem_cons.mp hname with rfl | hname
    · exact h.first _ List.mem_cons_self
    · rcases List.mem_cons.mp hname with rfl | hname
      · exact ⟨last, List.mem_cons_self, hsame, hnext⟩
      · exact h.first name (List.mem_cons_of_mem _ hname)

/-- A name before all others is kept. -/
theorem Merged.cons (h : Merged names (next :: kept)) (hbefore : Before last next) :
    Merged (last :: names) (last :: next :: kept) where
  ascending := by
    refine List.pairwise_cons.mpr ⟨fun name hname => ?_, h.ascending⟩
    rcases List.mem_cons.mp hname with rfl | hlater
    · exact hbefore
    · exact hbefore.trans ((List.pairwise_cons.mp h.ascending).1 name hlater)
  mem name hname := by
    rcases List.mem_cons.mp hname with rfl | hname
    · exact List.mem_cons_self
    · exact List.mem_cons_of_mem _ (h.mem name hname)
  first name hname := by
    rcases List.mem_cons.mp hname with rfl | hname
    · exact ⟨name, List.mem_cons_self, sameName_self name, nameBefore_self name⟩
    · obtain ⟨k, hk, hfirst⟩ := h.first name hname
      exact ⟨k, List.mem_cons_of_mem _ hk, hfirst⟩

end cons

/-- **Of names in order those that do not repeat the name before are the first spellings.** -/
theorem merged_dropRepeats {last : String} {names : List String}
    (h : (last :: names).Pairwise fun a b => nameBefore a b = true) :
    Merged (last :: names) (last :: dropRepeats last names) := by
  induction names generalizing last with
  | nil =>
    refine ⟨List.pairwise_singleton _ _, fun name hname => hname, fun name hname => ?_⟩
    exact ⟨name, hname, sameName_self name, nameBefore_self name⟩
  | cons next names ih =>
    obtain ⟨hlast, hrest⟩ := List.pairwise_cons.mp h
    have hnext : nameBefore last next = true := hlast next List.mem_cons_self
    rw [dropRepeats]
    split_ifs with hsame
    · have hlater : ∀ name ∈ names, nameBefore last name = true :=
        fun name hname => hlast name (List.mem_cons_of_mem _ hname)
      exact (ih (List.pairwise_cons.mpr ⟨hlater, hrest.of_cons⟩)).repeated hsame hnext
    · exact (ih hrest).cons (before_of_nameBefore hnext hsame)

/-- **The merged names have of each name the first spelling.** -/
theorem merged_mergeNames (names : List String) : Merged names (mergeNames names) := by
  have hperm := List.mergeSort_perm names nameBefore
  have hsorted : (names.mergeSort nameBefore).Pairwise fun a b => nameBefore a b = true :=
    List.pairwise_mergeSort nameBefore_trans nameBefore_total names
  unfold mergeNames
  generalize names.mergeSort nameBefore = sorted at hperm hsorted
  cases sorted with
  | nil =>
    rw [← hperm.nil_eq]
    exact ⟨List.Pairwise.nil, fun name hname => hname, fun name hname => nomatch hname⟩
  | cons last rest =>
    have hmerged := merged_dropRepeats hsorted
    exact ⟨hmerged.ascending, fun name hname => hperm.mem_iff.mp (hmerged.mem name hname),
      fun name hname => hmerged.first name (hperm.mem_iff.mpr hname)⟩

namespace Merged

variable {names kept : List String} (h : Merged names kept)
include h

theorem eq_of_sameName {a b : String} (ha : a ∈ kept) (hb : b ∈ kept) (hab : sameName a b = true) :
    a = b := by
  have hsymm : Std.Symm fun a b : String => sameName a b = false := ⟨fun _ _ => Registry.distinct_symm⟩
  have hdistinct : kept.Pairwise fun a b => sameName a b = false :=
    h.ascending.imp Before.sameName_eq_false
  by_contra hne
  rw [hdistinct.forall ha hb hne] at hab
  cases hab

/-- **Kept of each name is the spelling with the smallest bytes.** -/
theorem mem_iff {name : String} : name ∈ kept ↔
    name ∈ names ∧ ∀ other ∈ names, sameName other name = true → ¬ bytes other < bytes name := by
  constructor
  · refine fun hname => ⟨h.mem name hname, fun other hother hsame hlt => ?_⟩
    obtain ⟨k, hk, hkother, hbefore⟩ := h.first other hother
    obtain rfl := h.eq_of_sameName hk hname (sameName_trans hkother hsame)
    rcases nameBefore_iff.mp hbefore with hbefore | ⟨-, hle⟩
    · exact Bool.false_ne_true (hbefore.sameName_eq_false.symm.trans hkother)
    · exact absurd (bytes_lt_iff.mp hlt) (not_lt.mpr hle)
  · rintro ⟨hname, hsmallest⟩
    obtain ⟨k, hk, hsame, hbefore⟩ := h.first name hname
    rcases nameBefore_iff.mp hbefore with hbefore | ⟨-, hle⟩
    · exact absurd hsame (Bool.eq_false_iff.mp hbefore.sameName_eq_false)
    · have hge := mt bytes_lt_iff.mpr (hsmallest k (h.mem k hk) hsame)
      rwa [← le_antisymm hle (not_lt.mp hge)]

theorem existsUnique {name : String} (hname : name ∈ names) :
    ∃! k, k ∈ kept ∧ sameName k name = true := by
  obtain ⟨k, hk, hsame, -⟩ := h.first name hname
  exact ⟨k, ⟨hk, hsame⟩, fun other hother =>
    h.eq_of_sameName hother.1 hk (Registry.sameName_of_both hother.2 hsame)⟩

variable {word : String} (hword : ∀ name ∈ names, startsName word name = true)
include hword

/-- **A name that is the word itself is in front**: the word begins all other names. -/
theorem head?_eq_of_sameName {name : String} (hname : name ∈ kept) (hsame : sameName name word = true) :
    kept.head? = some name := by
  cases kept with
  | nil => cases hname
  | cons first rest =>
    rcases List.mem_cons.mp hname with rfl | hrest
    · rfl
    · have hbefore : Before first name := (List.pairwise_cons.mp h.ascending).1 name hrest
      rw [before_iff, foldBytes_eq_iff.mpr hsame] at hbefore
      have hlead := foldBytes_isPrefix_iff.mpr (hword first (h.mem first List.mem_cons_self))
      exact absurd hbefore (List.not_lt.mpr hlead.le)

/-- Nothing has to be put in front. -/
theorem exactFirst_eq : exactFirst word kept = kept := by
  unfold exactFirst
  by_cases hexact : ∃ name ∈ kept, sameName name word = true
  · obtain ⟨name, hname, hsame⟩ := hexact
    obtain ⟨rest, rfl⟩ := List.head?_eq_some_iff.mp (h.head?_eq_of_sameName hword hname hsame)
    rw [List.findIdx?_cons, if_pos hsame]
    rfl
  · rw [List.findIdx?_eq_none_iff.mpr fun name hname =>
      Bool.eq_false_iff.mpr fun hsame => hexact ⟨name, hname, hsame⟩]

end Merged

/-! ### The names of three tables -/

section candidates
variable {H : Type} {commands : Commands H} {vars : Variables} {aliases : Aliases}

/-- A command, a variable or an alias has the name, spelt like that. -/
def IsRegistered (commands : Commands H) (vars : Variables) (aliases : Aliases) (name : String) :
    Prop :=
  (∃ k ∈ commands.toList, k.name = name) ∨ (∃ v ∈ vars.toList, v.name = name) ∨
    ∃ a ∈ aliases.toList, a.name = name

variable (hcommands : commands.registry.Grown) (hvars : vars.registry.Grown)
  (haliases : aliases.registry.Grown)
include hcommands hvars haliases

theorem mem_startingWith_iff (word name : String) :
    name ∈ commands.startingWith word ++ vars.startingWith word ++ aliases.startingWith word ↔
      IsRegistered commands vars aliases name ∧ startsName word name = true := by
  rw [List.mem_append, List.mem_append, Commands.startingWith, Variables.startingWith,
    Aliases.startingWith, hcommands.sound.mem_startingWith_iff, hvars.sound.mem_startingWith_iff,
    haliases.sound.mem_startingWith_iff, ← or_and_right, ← or_and_right, or_assoc]
  rfl

theorem merged_candidates (word : String) :
    Merged (commands.startingWith word ++ vars.startingWith word ++ aliases.startingWith word)
      (candidates commands vars aliases word) := by
  have hmerged := merged_mergeNames
    (commands.startingWith word ++ vars.startingWith word ++ aliases.startingWith word)
  rw [candidates, hmerged.exactFirst_eq fun name hname =>
    ((mem_startingWith_iff hcommands hvars haliases word name).mp hname).2]
  exact hmerged

/-- **The candidates for a word are exactly right**, whatever the tables hold and however they spell it:
of each registered name that begins with the word, the spelling with the smallest bytes and no other, in
the order of the folded names, and the word itself in front if it is a name. -/
theorem candidates_exact (word : String) :
    let names := candidates commands vars aliases word
    (∀ name, name ∈ names ↔ IsRegistered commands vars aliases name ∧ startsName word name = true ∧
      ∀ other, IsRegistered commands vars aliases other → sameName other name = true →
        ¬ bytes other < bytes name) ∧
    (∀ name, IsRegistered commands vars aliases name → startsName word name = true →
      ∃! chosen, chosen ∈ names ∧ sameName chosen name = true) ∧
    names.Pairwise Before ∧
    ∀ name ∈ names, sameName name word = true → names.head? = some name := by
  have hmerged := merged_candidates hcommands hvars haliases word
  have hmem := mem_startingWith_iff hcommands hvars haliases word
  refine ⟨fun name => ?_, fun name hname hlead => ?_, hmerged.ascending, fun name hname hsame => ?_⟩
  · rw [hmerged.mem_iff, hmem, and_assoc]
    refine and_congr_right fun _ => and_congr_right fun hlead => forall_congr' fun other => ?_
    rw [hmem]
    refine ⟨fun h hother hsame => h ⟨hother, ?_⟩ hsame, fun h hother => h hother.1⟩
    rwa [startsName_congr hsame]
  · exact hmerged.existsUnique ((hmem name).mpr ⟨hname, hlead⟩)
  · exact hmerged.head?_eq_of_sameName (fun name hname => ((hmem name).mp hname).2) hname hsame

end candidates

/-- A command, a variable and an alias that spell one name in three ways, and a longer name. -/
theorem candidates_exact_spelt :
    let commands : Commands Unit := ⟨Registry.empty.insert { name := "Foo", handler := () }⟩
    let vars : Variables :=
      { registry := (Registry.empty.insert (.ofValue "foo" (.int 0))).insert (.ofValue "food" (.int 0)) }
    let aliases : Aliases := ⟨Registry.empty.insert { name := "FOO", value := "x y" }⟩
    "FOO" ∈ candidates commands vars aliases "fo" ∧ "Foo" ∉ candidates commands vars aliases "fo" ∧
      (candidates commands vars aliases "foO").head? = some "FOO" := by
  intro commands vars aliases
  have hcommands : commands.registry.Grown := Registry.grown_empty.insert (by decide +kernel)
  have hvars : vars.registry.Grown :=
    (Registry.grown_empty.insert (by decide +kernel)).insert (by decide +kernel)
  have haliases : aliases.registry.Grown := Registry.grown_empty.insert (by decide +kernel)
  have hexact := candidates_exact hcommands hvars haliases
  have hregistered : IsRegistered commands vars aliases "FOO" :=
    .inr (.inr ⟨_, List.mem_singleton_self _, rfl⟩)
  have hsmallest : ∀ other, IsRegistered commands vars aliases other → sameName other "FOO" = true →
      ¬ bytes other < bytes "FOO" := by
    rintro other (⟨k, hk, rfl⟩ | ⟨v, hv, rfl⟩ | ⟨a, ha, rfl⟩) hsame
    · obtain rfl := List.mem_singleton.mp hk
      decide +kernel
    · rcases List.mem_pair.mp hv with rfl | rfl <;> decide +kernel
    · obtain rfl := List.mem_singleton.mp ha
      decide +kernel
  refine ⟨((hexact "fo").1 "FOO").mpr ⟨hregistered, by decide +kernel, hsmallest⟩, fun hmem => ?_, ?_⟩
  · exact (((hexact "fo").1 "Foo").mp hmem).2.2 "FOO" hregistered (by decide +kernel) (by decide +kernel)
  · refine (hexact "foO").2.2.2 "FOO" ?_ (by decide +kernel)
    exact ((hexact "foO").1 "FOO").mpr ⟨hregistered, by decide +kernel, hsmallest⟩

end DevConsole
