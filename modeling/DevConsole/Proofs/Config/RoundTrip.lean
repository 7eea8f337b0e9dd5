import DevConsole.Config.File
import DevConsole.Proofs.Config.Loading
import DevConsole.Proofs.Config.Writing
import DevConsole.Proofs.Disk.Written

/-!
# Saving and loading

A store is saved to a file, and the file is loaded into a store with the same variables but other
values. For given variables this brings all persistent values back, whatever the values are, exactly
if no name of a persistent variable begins a comment (`roundTrips_iff`). The line of a variable
whose name begins one is itself read as a comment.
-/

namespace DevConsole.Config

/-- The stores hold variables of the same names and flags. -/
def SameVariables (s s' : Variables) : Prop :=
  (s.toList.map fun v => (v.name, v.flags)).Perm (s'.toList.map fun v => (v.name, v.flags))

/-- The variable with the value that the store has for it, if it is a persistent one. -/
def restored (s : Variables) (v : Variable) : Variable :=
  if v.flags.has .persistent then v.set (.text (s.string v.name)) else v

theorem restored_flags (s : Variables) (v : Variable) : (restored s v).flags = v.flags := by
  unfold restored
  split <;> rfl

/-- Saving the first store anywhere and loading the file into the second gives the second the
persistent values of the first and changes nothing else. -/
def RoundTrips (s s' : Variables) : Prop :=
  ∀ (d d' : Disk) (path : String) (n : Nat), save s d path .overwrite = (.ok n, d') →
    ∃ written l, d'.readText path = .ok written ∧ load s' written path = .ok l ∧
      l.count = s.persistent.length ∧ l.store.toList = s'.toList.map (restored s)

theorem SameVariables.symm {s s' : Variables} (h : SameVariables s s') : SameVariables s' s :=
  List.Perm.symm h

/-- A variable of the one store is in the other under the same name with the same flags. -/
theorem SameVariables.exists_mem {s s' : Variables} (h : SameVariables s s') {v : Variable}
    (hv : v ∈ s.toList) : ∃ w ∈ s'.toList, w.name = v.name ∧ w.flags = v.flags := by
  obtain ⟨w, hw, hpair⟩ := List.mem_map.mp (h.mem_iff.mp (List.mem_map_of_mem hv))
  exact ⟨w, hw, (Prod.mk.inj hpair).1, (Prod.mk.inj hpair).2⟩

/-! ### Saving -/

/-- **The file holds the written text**, if the store could be saved. -/
theorem readText_save {s : Variables} {d d' : Disk} {path : String} {n : Nat}
    (h : save s d path .overwrite = (.ok n, d')) : d'.readText path = .ok (text s) := by
  unfold save at h
  split at h
  · cases h
  · next d₀ hprepare =>
    dsimp only at h
    cases hwrite : d₀.write path (text s).toUTF8 with
    | error fault => rw [hwrite] at h; cases h
    | ok d₁ =>
      rw [hwrite] at h
      obtain rfl : d₁ = d' := (Prod.mk.inj h).2
      exact Disk.readText_write hwrite

theorem mem_listed {s : Variables} (hs : s.Sound) {v : Variable} :
    v ∈ listed s ↔ v ∈ s.toList ∧ v.flags.has .persistent = true := by
  rw [listed, List.mem_filter]
  exact and_congr_left fun _ => hs.registry.sorted_perm.mem_iff

theorem length_listed {s : Variables} (hs : s.Sound) : (listed s).length = s.persistent.length :=
  (hs.registry.sorted_perm.filter _).length_eq

/-! ### Names that begin no comment -/

/-- The pairs that a written text is to be read as. -/
def written (s : Variables) : List (String × String) :=
  (listed s).map fun v => (v.name, v.views.string)

/-- The last value of a persistent variable is the one that was saved, and others have none. -/
theorem valued_written {s s' : Variables} (hs : s.Sound) (h : SameVariables s s') {v : Variable}
    (hv : v ∈ s'.toList) : valued (written s) v = restored s v := by
  obtain ⟨u, hu, hname, hflags⟩ := h.symm.exists_mem hv
  unfold valued restored
  by_cases hpersistent : v.flags.has .persistent = true
  · have hlisted : u ∈ listed s := (mem_listed hs).mpr ⟨hu, by rw [hflags]; exact hpersistent⟩
    have hlast : lastValue (written s) v.name = some u.views.string := by
      refine lastValue_eq_some ⟨_, List.mem_map_of_mem hlisted, ?_⟩ fun p hp hsame => ?_
      · rw [hname, Text.sameName_self]
      · obtain ⟨w, hw, rfl⟩ := List.mem_map.mp hp
        rw [← hname] at hsame
        rw [hs.eq_of_sameName hu ((mem_listed hs).mp hw).1 hsame]
    rw [hlast, if_pos hpersistent, ← hname, hs.string_eq hu]
  · have hlast : lastValue (written s) v.name = none := by
      refine lastValue_eq_none fun p hp => Bool.eq_false_iff.mpr fun hsame => hpersistent ?_
      obtain ⟨w, hw, rfl⟩ := List.mem_map.mp hp
      obtain ⟨hmem, hflag⟩ := (mem_listed hs).mp hw
      rw [← hname] at hsame
      rw [← hflags, hs.eq_of_sameName hu hmem hsame]
      exact hflag
    rw [hlast, if_neg hpersistent]

/-- **If no persistent name begins a comment, what was saved is loaded.** -/
theorem roundTrips_of_names {s s' : Variables} (hs : s.Sound) (hs' : s'.Sound)
    (h : SameVariables s s') (hnames : ∀ v ∈ s.persistent, beginsComment v.name.toList = false) :
    RoundTrips s s' := by
  intro d d' path n hsave
  have hlisted : ∀ v ∈ listed s, v ∈ s.toList ∧ v.flags.has .persistent = true :=
    fun v hv => (mem_listed hs).mp hv
  obtain ⟨ts, hts, htexts⟩ := tokens_text (s := s) (fun v hv => hs.isName v (hlisted v hv).1)
    fun v hv => hnames v (List.mem_filter.mpr (hlisted v hv))
  have hknown : ∀ p ∈ written s, s'.contains p.1 = true := by
    intro p hp
    obtain ⟨v, hv, rfl⟩ := List.mem_map.mp hp
    obtain ⟨w, hw, hname, -⟩ := h.exists_mem (hlisted v hv).1
    exact hs'.contains_iff.mpr ⟨w, hw, by rw [hname, Text.sameName_self]⟩
  have hpairs : ts.map (·.text) = (written s).flatMap fun p => [p.1, p.2] := by
    rw [htexts, entries, written, List.flatMap_map]
  obtain ⟨hcount, hassigned⟩ := read_pairs hs' (readable_of_known hknown) hpairs
  refine ⟨text s, assign { store := s' } ts, readText_save hsave, by rw [load, hts], ?_, ?_⟩
  · rw [hcount, List.filter_eq_self.mpr hknown, written, List.length_map, length_listed hs]
  · rw [hassigned.toList]
    exact List.map_congr_left fun v hv => valued_written hs h hv

/-! ### Names that begin a comment -/

/-- The store with one text as the value of all its variables. -/
def level (s : Variables) (value : String) : Variables :=
  (assign { store := s } (s.toList.flatMap fun v => [⟨v.name, 1⟩, ⟨value, 1⟩])).store

theorem reachable_assign {s : Variables} (hs : s.Reachable) (ts : List Token) :
    (assign { store := s } ts).store.Reachable :=
  assign_preserves (fun _ _ _ _ _ hs hset => .set hs hset) hs

theorem reachable_level {s : Variables} (hs : s.Reachable) (value : String) :
    (level s value).Reachable :=
  reachable_assign hs _

theorem toList_level {s : Variables} (hs : s.Sound) (value : String) :
    (level s value).toList = s.toList.map (·.set (.text value)) := by
  have hread : Readable s (s.toList.map fun v => (v.name, value)) := by
    refine readable_of_known fun p hp => ?_
    obtain ⟨v, hv, rfl⟩ := List.mem_map.mp hp
    exact hs.contains_iff.mpr ⟨v, hv, Text.sameName_self v.name⟩
  have hpairs : (s.toList.flatMap fun v => [Token.mk v.name 1, ⟨value, 1⟩]).map (·.text) =
      (s.toList.map fun v => (v.name, value)).flatMap fun p => [p.1, p.2] := by
    rw [List.map_flatMap, List.flatMap_map]
    rfl
  obtain ⟨-, hassigned⟩ := read_pairs hs hread hpairs
  refine hassigned.toList.trans (List.map_congr_left fun v hv => ?_)
  have hlast : lastValue (s.toList.map fun v => (v.name, value)) v.name = some value := by
    refine lastValue_eq_some ⟨_, List.mem_map_of_mem hv, Text.sameName_self v.name⟩ fun p hp _ => ?_
    obtain ⟨w, -, rfl⟩ := List.mem_map.mp hp
    rfl
  rw [valued, hlast]

theorem sameVariables_level {s : Variables} (hs : s.Sound) (value : String) :
    SameVariables s (level s value) := by
  rw [SameVariables, toList_level hs, List.map_map]
  exact .refl _

theorem string_of_mem_level {s : Variables} (hs : s.Sound) {value : String} {v : Variable}
    (hv : v ∈ (level s value).toList) : v.views.string = value := by
  rw [toList_level hs] at hv
  obtain ⟨u, -, rfl⟩ := List.mem_map.mp hv
  rfl

/-- A level store has its value to give back for each persistent variable. -/
theorem string_restored_level {s : Variables} (hs : s.Reachable) {value value' : String}
    {v : Variable} (hv : v ∈ (level s value').toList) (hflag : v.flags.has .persistent = true) :
    (restored (level s value) v).views.string = value := by
  have hsame : SameVariables (level s value') (level s value) :=
    (sameVariables_level hs.sound value').symm.trans (sameVariables_level hs.sound value)
  obtain ⟨u, hu, hname, -⟩ := hsame.exists_mem hv
  rw [restored, if_pos hflag, ← hname, (reachable_level hs value).sound.string_eq hu,
    string_of_mem_level hs.sound hu]
  rfl

theorem mem_assign {l : Loaded} {ts : List Token} (hl : l.store.Sound) {v : Variable}
    (hv : v ∈ l.store.toList) (hts : ∀ t ∈ ts, Text.sameName v.name t.text = false) :
    v ∈ (assign l ts).store.toList := by
  have hkept : (assign l ts).store.Sound ∧ v ∈ (assign l ts).store.toList := by
    refine assign_preserves (P := fun s => s.Sound ∧ v ∈ s.toList) ?_ ⟨hl, hv⟩
    rintro s s' value t ht ⟨hs, hmem⟩ hset
    obtain ⟨s₂, hset₂, hs₂, -, -, hlist⟩ := hs.set?_eq (Variables.contains_of_set? hset) value
    obtain rfl : s₂ = s' := Option.some.inj (hset₂.symm.trans hset)
    refine ⟨hs₂, ?_⟩
    rw [hlist]
    exact List.mem_map.mpr ⟨v, hmem, if_neg (by
      rw [show Text.sameName (Named.name v) t.text = false from hts t ht]
      decide)⟩
  exact hkept.2

theorem write_empty (content : ByteArray) :
    Disk.empty.write "f" content = .ok (Disk.empty.put ["f"] (.file content)) := by
  have hfault : Path.fault? "f" = none := by decide +kernel
  have hpath : Path.ofText "f" = ⟨["f"], false⟩ := by decide +kernel
  have hplace : Disk.empty.writable "f" = .ok (["f"], .empty) := by
    rw [Disk.writable, hfault, hpath]
    rfl
  rw [Disk.write, hplace]
  rfl

theorem save_empty (s : Variables) : save s .empty "f" .overwrite =
    (.ok (listed s).length, Disk.empty.put ["f"] (.file (text s).toUTF8)) := by
  have hparent : Path.parent "f" = "" := by decide +kernel
  have hprepare : prepare .empty "f" = (.empty, .ok ()) := by
    rw [prepare, hparent]
    exact if_pos rfl
  rw [save, hprepare]
  dsimp only
  rw [write_empty]

theorem sameName_of_beginsComment {a b : String} (ha : beginsComment a.toList = true)
    (hb : beginsComment b.toList = false) : Text.sameName a b = false := by
  refine (Text.sameName_eq_false_iff a b).mpr fun hfold => ?_
  rw [← beginsComment_fold, hfold, beginsComment_fold, hb] at ha
  cases ha

/-- **A variable whose name begins a comment is not loaded** from a file of empty values. -/
theorem not_roundTrips_level {s : Variables} (hs : s.Reachable) {v : Variable}
    (hv : v ∈ s.persistent) (hname : beginsComment v.name.toList = true) :
    ¬ RoundTrips (level s "") (level s "x") := by
  intro hround
  obtain ⟨hmem, hflag⟩ := List.mem_filter.mp hv
  have hempty := (reachable_level hs "").sound
  have hfull : v.set (.text "x") ∈ (level s "x").toList := by
    rw [toList_level hs.sound]
    exact List.mem_map_of_mem hmem
  obtain ⟨written, l, hread, hload, -, hlist⟩ := hround _ _ _ _ (save_empty _)
  obtain rfl : text (level s "") = written :=
    Except.ok.inj ((readText_save (save_empty _)).symm.trans hread)
  have hharmless := harmless_text (fun w hw => hempty.isName w ((mem_listed hempty).mp hw).1)
    fun w hw => string_of_mem_level hs.sound ((mem_listed hempty).mp hw).1
  -- no token names the variable, so it keeps its value
  have hkept : v.set (.text "x") ∈ l.store.toList := by
    rw [load] at hload
    cases htokens : tokens (text (level s "")) with
    | error e => rw [htokens] at hload; cases hload
    | ok ts =>
      rw [htokens] at hload
      obtain rfl := Except.ok.inj hload
      exact mem_assign (l := { store := level s "x" }) (reachable_level hs "x").sound hfull
        fun t ht => sameName_of_beginsComment hname (hharmless ts htokens t ht)
  -- but loading was to bring the empty value back
  rw [hlist] at hkept
  obtain ⟨w, hw, hrestored⟩ := List.mem_map.mp hkept
  have hwflag : w.flags.has .persistent = true := by
    rw [← restored_flags (level s "") w, hrestored]
    exact hflag
  have hvalue : (restored (level s "") w).views.string = "" := string_restored_level hs hw hwflag
  rw [hrestored] at hvalue
  have hsame : "x" = "" := hvalue
  exact absurd hsame (by decide)

/-- **Saving and loading bring the persistent values back, whatever they are, exactly if no name of
a persistent variable begins a comment.** -/
theorem roundTrips_iff (s : Variables) (hs : s.Reachable) :
    (∀ s₁ s₂ : Variables, s₁.Reachable → s₂.Reachable → SameVariables s s₁ → SameVariables s s₂ →
      RoundTrips s₁ s₂) ↔ ∀ v ∈ s.persistent, beginsComment v.name.toList = false := by
  constructor
  · intro h v hv
    refine Bool.eq_false_iff.mpr fun hname => not_roundTrips_level hs hv hname ?_
    exact h _ _ (reachable_level hs "") (reachable_level hs "x") (sameVariables_level hs.sound "")
      (sameVariables_level hs.sound "x")
  · intro hnames s₁ s₂ hs₁ hs₂ h₁ h₂
    refine roundTrips_of_names hs₁.sound hs₂.sound (h₁.symm.trans h₂) fun v hv => ?_
    obtain ⟨hmem, hflag⟩ := List.mem_filter.mp hv
    obtain ⟨w, hw, hname, hflags⟩ := h₁.symm.exists_mem hmem
    rw [← hname]
    exact hnames w (List.mem_filter.mpr ⟨hw, by rw [hflags]; exact hflag⟩)

/-- A store with one persistent variable. -/
def profile : Variables :=
  (Variables.empty.add (.ofValue "name" (.text "Big \"Bob\"") (.single .persistent))).store

theorem reachable_profile : profile.Reachable :=
  .register (v := .ofValue "name" (.text "Big \"Bob\"") (.single .persistent))
    (r := Variables.empty.add (.ofValue "name" (.text "Big \"Bob\"") (.single .persistent)))
    .empty rfl

theorem roundTrips_profile : ∃ written l,
    (save profile .empty "f" .overwrite).2.readText "f" = .ok written ∧
      load (level profile "") written "f" = .ok l ∧ l.count = 1 ∧
      l.store.toList.map (·.views.string) = ["Big \"Bob\""] := by
  have hnames : ∀ v ∈ profile.persistent, beginsComment v.name.toList = false := by
    decide +kernel
  have hround : RoundTrips profile (level profile "") :=
    (roundTrips_iff profile reachable_profile).mpr hnames _ _ reachable_profile
      (reachable_level reachable_profile "") (.refl _)
      (sameVariables_level reachable_profile.sound "")
  obtain ⟨written, l, hread, hload, hcount, hlist⟩ := hround _ _ "f" _ (save_empty profile)
  refine ⟨written, l, by rw [save_empty]; exact hread, hload, hcount.trans (by decide +kernel), ?_⟩
  rw [hlist]
  decide +kernel

end DevConsole.Config
