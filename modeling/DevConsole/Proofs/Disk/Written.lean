import DevConsole.Disk
import Mathlib.Tactic.SplitIfs

/-!
# Reading what was written

After a file is written, its path leads to it and reading gives the content back (`read_write`): the
write changed only the place of the file, and the directories on the way to it are no files.
-/

namespace DevConsole.Disk

variable {d d' : Disk} {place start finish : List String} {content : ByteArray}

/-! ### Places -/

theorem lookup_filter_ne {nodes : List (List String × Node)} {q : List String} (h : q ≠ place) :
    (nodes.filter (·.1 ≠ place)).lookup q = nodes.lookup q := by
  induction nodes with
  | nil => rfl
  | cons p nodes ih =>
    obtain ⟨r, node⟩ := p
    rw [List.filter_cons, List.lookup_cons]
    by_cases hr : r = place
    · have hq : (q == r) = false := by simp [hr, h]
      rw [if_neg (by simp [hr]), ih, hq]
    · rw [if_pos (by simp [hr]), List.lookup_cons, ih]

theorem find?_put_of_ne {q : List String} (h : q ≠ place) (node : Node) :
    (d.put place node).find? q = d.find? q := by
  unfold find? put
  rw [List.lookup_cons, lookup_filter_ne h, beq_eq_false_iff_ne.mpr h]

theorem find?_put_self (h : isTopOrAbove place = false) (node : Node) :
    (d.put place node).find? place = some node := by
  simp [find?, put, h]

theorem not_isTopOrAbove (h : d.find? place ≠ some .directory) : isTopOrAbove place = false := by
  refine Bool.eq_false_iff.mpr fun htop => h ?_
  rw [find?, if_pos htop]

/-! ### Walks -/

/-- **One step of a walk** starts at a directory, and where it leads depends on the name only. -/
theorem walk_cons_eq_ok {name : String} {names : List String}
    (h : d.walk start (name :: names) = .ok finish) :
    d.find? start = some .directory ∧ ∃ next, d.walk next names = .ok finish ∧
      ∀ (e : Disk) (names : List String), e.find? start = some .directory →
        e.walk start (name :: names) = e.walk next names := by
  rw [walk] at h
  cases hfind : d.find? start with
  | none => rw [hfind] at h; cases h
  | some node =>
    rw [hfind] at h
    cases node with
    | file old => cases h
    | directory =>
      refine ⟨rfl, ?_⟩
      dsimp only at h
      split_ifs at h with hlong hdot hup
      · refine ⟨start, h, fun e names he => ?_⟩
        rw [walk, he]
        exact (if_neg hlong).trans (if_pos hdot)
      · refine ⟨above start, h, fun e names he => ?_⟩
        rw [walk, he]
        exact (if_neg hlong).trans ((if_neg hdot).trans (if_pos hup))
      · refine ⟨start ++ [name], h, fun e names he => ?_⟩
        rw [walk, he]
        exact (if_neg hlong).trans ((if_neg hdot).trans (if_neg hup))

theorem walk_append {names : List String} (names' : List String)
    (h : d.walk start names = .ok finish) :
    d.walk start (names ++ names') = d.walk finish names' := by
  induction names generalizing start with
  | nil =>
    obtain rfl : start = finish := Except.ok.inj h
    rfl
  | cons name names ih =>
    obtain ⟨hstart, next, hnext, hstep⟩ := walk_cons_eq_ok h
    rw [List.cons_append, hstep d _ hstart]
    exact ih hnext

/-- A walk meets directories only, so a place that holds none is not on the way. -/
theorem walk_put {names : List String} (hplace : d.find? place ≠ some .directory) (node : Node)
    (h : d.walk start names = .ok finish) : (d.put place node).walk start names = .ok finish := by
  induction names generalizing start with
  | nil => exact h
  | cons name names ih =>
    obtain ⟨hstart, next, hnext, hstep⟩ := walk_cons_eq_ok h
    have hne : start ≠ place := by
      rintro rfl
      exact hplace hstart
    rw [hstep _ _ ((find?_put_of_ne hne node).trans hstart)]
    exact ih hnext

/-! ### Files -/

theorem of_bind_eq_ok {α β : Type} {x : Except FileFault α} {f : α → Except FileFault β} {b : β}
    (h : x >>= f = .ok b) : ∃ a, x = .ok a ∧ f a = .ok b := by
  cases x with
  | error fault => cases h
  | ok a => exact ⟨a, rfl, h⟩

/-- The place where a file can be written is no directory, and the path leads to it. -/
theorem writable_eq_ok {path : String} {old : ByteArray} (h : d.writable path = .ok (place, old)) :
    Path.fault? path = none ∧ (Path.ofText path).asDirectory = false ∧
      d.find? place ≠ some .directory ∧ d.walk [] (Path.ofText path).names = .ok place := by
  rw [writable] at h
  cases hfault : Path.fault? path with
  | some fault => rw [hfault] at h; cases h
  | none =>
    rw [hfault] at h
    obtain ⟨start, hstart, h⟩ := of_bind_eq_ok h
    dsimp only at h
    split at h
    · cases h
    · cases h
    · cases hslash : (Path.ofText path).asDirectory with
      | true => rw [hslash] at h; cases h
      | false =>
        rw [hslash] at h
        obtain ⟨finish, hlast, h⟩ := of_bind_eq_ok h
        have hnode : d.find? finish ≠ some .directory := by
          intro hdirectory
          rw [hdirectory] at h
          cases h
        obtain rfl : finish = place := by
          split at h
          · exact (Prod.mk.inj (Except.ok.inj h)).1
          · cases h
          · exact (Prod.mk.inj (Except.ok.inj h)).1
        refine ⟨rfl, rfl, hnode, ?_⟩
        have hwalk := (walk_append _ hstart).trans hlast
        rcases List.eq_nil_or_concat (Path.ofText path).names with hnames | ⟨ys, name, hnames⟩
        · simpa [hnames] using hwalk
        · simpa [hnames] using hwalk

/-- What is put where a path can be written is read at the path. -/
theorem read_put {path : String} {old : ByteArray} (h : d.writable path = .ok (place, old)) :
    (d.put place (.file content)).read path = .ok content := by
  obtain ⟨hfault, hfile, hnode, hwalk⟩ := writable_eq_ok h
  have hresolve : (d.put place (.file content)).resolve path = .ok place := by
    rw [resolve, hfault]
    exact walk_put hnode _ hwalk
  have hfound : (d.put place (.file content)).node path = .ok (.file content) := by
    simp only [node, hresolve, bind, Except.bind, find?_put_self (not_isTopOrAbove hnode)]
    exact if_neg (by simp [hfile])
  rw [read, hfound]
  rfl

/-- **Reading a file gives back what was written to it.** -/
theorem read_write {path : String} (h : d.write path content = .ok d') :
    d'.read path = .ok content := by
  rw [write] at h
  cases hplace : d.writable path with
  | error fault => rw [hplace] at h; cases h
  | ok found =>
    rw [hplace] at h
    obtain rfl : d.put found.1 (.file content) = d' := Except.ok.inj h
    exact read_put hplace

/-- The bytes of a text are read as the text. -/
theorem readText_write {path text : String} (h : d.write path text.toUTF8 = .ok d') :
    d'.readText path = .ok text := by
  have hdecoded : String.fromUTF8? text.toUTF8 = some text := dif_pos text.isValidUTF8
  simp only [readText, read_write h, bind, Except.bind, hdecoded]
  rfl

end DevConsole.Disk
