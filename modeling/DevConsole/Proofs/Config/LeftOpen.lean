import DevConsole.Proofs.Config.Appending
import DevConsole.Proofs.Table.Handles
import Mathlib.Data.Set.Finite.Basic

/-!
# A name left open before what is saved

If the text before leaves a name open, the first saved name becomes its value, and the variable of
that name does not get its saved value (`lost_of_leftOpen`). So saving behind a text that can be read
brings the persistent values back, whatever they are, exactly if this text leaves no name open
(`restoresAppended_iff`).
-/

namespace DevConsole.Config

/-! ### Names left open -/

theorem leftOpen_append {known : String → Bool} {ts : List Token} (h : leftOpen known ts = false)
    (us : List Token) : leftOpen known (ts ++ us) = leftOpen known us := by
  fun_induction leftOpen known ts with
  | case1 => rfl
  | case2 t hname => cases h
  | case3 t hname v ts ih => rw [List.cons_append, List.cons_append, leftOpen_known hname, ih h]
  | case4 t ts hname ih => rw [List.cons_append, leftOpen_unknown hname, ih h]

/-- The name that is left open is the last token. -/
theorem eq_concat_of_leftOpen {known : String → Bool} {ts : List Token}
    (h : leftOpen known ts = true) :
    ∃ us t, ts = us ++ [t] ∧ leftOpen known us = false ∧ known t.text = true := by
  fun_induction leftOpen known ts with
  | case1 => cases h
  | case2 t hname => exact ⟨[], t, rfl, rfl, hname⟩
  | case3 t hname v ts ih =>
    obtain ⟨us, u, rfl, hus, hu⟩ := ih h
    exact ⟨t :: v :: us, u, rfl, by rw [leftOpen_known hname, hus], hu⟩
  | case4 t ts hname ih =>
    obtain ⟨us, u, rfl, hus, hu⟩ := ih h
    exact ⟨t :: us, u, rfl, by rw [leftOpen_unknown hname, hus], hu⟩

theorem exists_kept {s : Variables} (ts : List Token) {v : Variable} (hv : v ∈ s.toList) :
    ∃ w ∈ (assign { store := s } ts).store.toList, Kept ts v w := by
  obtain ⟨i, hi, rfl⟩ := List.getElem_of_mem hv
  obtain ⟨hlength, hkept⟩ := List.forall₂_iff_get.mp (onlyAssigns_assign s ts).toList
  exact ⟨_, List.getElem_mem (hlength ▸ hi), hkept i hi (hlength ▸ hi)⟩

/-- **A name left open takes the token behind it.** If this is the name of a variable, and nothing
else names that variable or is the value, then the variable does not get the value. -/
theorem lost_of_leftOpen {s : Variables} (hs : s.Reachable) {ts : List Token}
    (hopen : leftOpen s.contains ts = true) {v : Variable} (hv : v ∈ s.toList) {value : String}
    (hvalue : v.views.string ≠ value ∧ v.name ≠ value ∧ ∀ u ∈ ts, u.text ≠ value)
    {t : Token} (ht : t.text = v.name) {us : List Token}
    (hus : ∀ u ∈ us, Text.sameName v.name u.text = false) :
    (assign { store := s } (ts ++ t :: us)).store.string v.name ≠ value := by
  obtain ⟨hbefore, hname, hts⟩ := hvalue
  obtain ⟨xs, x, rfl, hxs, hx⟩ := eq_concat_of_leftOpen hopen
  have hsplit : (xs ++ [x]) ++ t :: us = (xs ++ [x, t]) ++ us := by simp
  have hclosed : leftOpen s.contains (xs ++ [x, t]) = false := by
    rw [leftOpen_append hxs, leftOpen_known hx]
    rfl
  -- the name is closed by the token, and up to there no token is the value
  obtain ⟨w, hw, hkept⟩ := exists_kept (xs ++ [x, t]) hv
  have hwname : w.name = v.name := by rw [hkept.1]
  have hwstring : w.views.string ≠ value := by
    rcases hkept.2 with hviews | ⟨y, z, hnear, -, hviews⟩
    · rw [hviews]
      exact hbefore
    · have hz : z ∈ (xs ++ [x]) ++ [t] := by
        rw [List.append_assoc]
        exact hnear.subset (by simp)
      rw [hviews]
      show z.text ≠ value
      rcases List.mem_append.mp hz with hz | hz
      · exact hts z hz
      · rw [List.mem_singleton.mp hz, ht]
        exact hname
  -- behind it nothing names the variable
  have hlast : w ∈ (assign { store := s } ((xs ++ [x, t]) ++ us)).store.toList := by
    rw [assign_append _ _ _ hclosed]
    exact mem_assign (reachable_assign hs (xs ++ [x, t])).sound hw (hwname ▸ hus)
  rw [hsplit, ← hwname, (reachable_assign hs _).sound.string_eq hlast]
  exact hwstring

/-- There is a text that is none of these and no name. -/
theorem exists_fresh (taken : List String) : ∃ value, value ∉ taken ∧ isName value = false := by
  have hinjective : Function.Injective fun rest : String => " " ++ rest := fun a b h =>
    (String.append_right_inj " ").mp h
  obtain ⟨value, ⟨rest, rfl⟩, hfree⟩ :=
    (Set.infinite_range_of_injective hinjective).exists_notMem_finset taken.toFinset
  refine ⟨" " ++ rest, fun hmem => hfree (List.mem_toFinset.mpr hmem), ?_⟩
  have hspace : (" " ++ rest).toList = ' ' :: rest.toList := by rw [String.toList_append]; rfl
  simp [isName, hspace, show barredFromNames ' ' = true by decide]

/-! ### Values that are not read back -/

theorem SameVariables.exists_persistent {s s' : Variables} (h : SameVariables s s') {v : Variable}
    (hv : v ∈ s.persistent) : ∃ w ∈ s'.persistent, w.name = v.name := by
  obtain ⟨hmem, hflag⟩ := List.mem_filter.mp hv
  obtain ⟨w, hw, hname, hflags⟩ := h.exists_mem hmem
  exact ⟨w, List.mem_filter.mpr ⟨hw, by rw [hflags]; exact hflag⟩, hname⟩

theorem SameVariables.beginsComment_eq_false {s s' : Variables} (h : SameVariables s s')
    (hnames : ∀ v ∈ s.persistent, beginsComment v.name.toList = false) :
    ∀ v ∈ s'.persistent, beginsComment v.name.toList = false := by
  intro v hv
  obtain ⟨w, hw, hname⟩ := h.symm.exists_persistent hv
  exact hname ▸ hnames w hw

/-- No two lines of a written text are of one variable. -/
theorem pairwise_listed {s : Variables} (hs : s.Sound) :
    (listed s).Pairwise fun v w => Text.sameName v.name w.name = false :=
  ((hs.registry.sorted_perm.pairwise_iff fun h => Registry.distinct_symm h).mpr
    hs.registry.distinct).filter _

theorem sameName_of_isName {a b : String} (ha : isName a = true) (hb : isName b = false) :
    Text.sameName a b = false := by
  refine Bool.eq_false_iff.mpr fun h => ?_
  rw [isName_congr h, hb] at ha
  cases ha

/-- In a written text with one value, which is no name, only the first text names the first variable. -/
theorem sameName_of_mem_entries {v : Variable} {vs : List Variable} {value : String}
    (hdistinct : (v :: vs).Pairwise fun v w => Text.sameName v.name w.name = false)
    (hname : isName v.name = true) (hvalue : isName value = false)
    (hvalues : ∀ w ∈ v :: vs, w.views.string = value) :
    ∀ text ∈ v.views.string :: entries vs, Text.sameName v.name text = false := by
  have hother : Text.sameName v.name value = false := sameName_of_isName hname hvalue
  obtain ⟨hfirst, hrest⟩ := List.forall_mem_cons.mp hvalues
  intro text htext
  rcases List.mem_cons.mp htext with rfl | htext
  · rw [hfirst, hother]
  · obtain ⟨w, hw, htext⟩ := List.mem_flatMap.mp htext
    simp only [List.mem_cons, List.not_mem_nil, or_false] at htext
    rcases htext with rfl | rfl
    · exact (List.pairwise_cons.mp hdistinct).1 w hw
    · rw [hrest w hw, hother]

/-- **With a name left open before it, not all that was saved is read back**, if the saved values are
all the same, no name, and stand nowhere before. -/
theorem not_restores_level {s : Variables} (hs : s.Reachable) (hsome : s.persistent ≠ [])
    (hnames : ∀ v ∈ s.persistent, beginsComment v.name.toList = false) {old : String}
    {ts : List Token} (hbefore : tokens (old ++ header ++ "\n") = .ok ts)
    (hopen : leftOpen s.contains ts = true) {value : String} (hvalue : isName value = false)
    (hempty : "" ≠ value) (hfresh : ∀ t ∈ ts, t.text ≠ value) :
    ¬ Restores (level s value) (old ++ text (level s value)) (level s "") := by
  intro hback
  have hs₁ := reachable_level hs value
  have hs' := reachable_level hs ""
  have hsame₁ : SameVariables s (level s value) := sameVariables_level hs.sound value
  have hsame' : SameVariables (level s value) (level s "") :=
    hsame₁.symm.trans (sameVariables_level hs.sound "")
  have hlisted : ∀ v ∈ listed (level s value), v ∈ (level s value).persistent := fun v hv =>
    List.mem_filter.mpr ((mem_listed hs₁.sound).mp hv)
  have hisName : ∀ v ∈ listed (level s value), isName v.name = true := fun v hv =>
    hs₁.sound.isName v (List.mem_filter.mp (hlisted v hv)).1
  have hvalues : ∀ v ∈ listed (level s value), v.views.string = value := fun v hv =>
    string_of_mem_level hs.sound (List.mem_filter.mp (hlisted v hv)).1
  have hdistinct := pairwise_listed hs₁.sound
  obtain ⟨us, hus, htexts⟩ := tokens_text hisName fun v hv =>
    hsame₁.beginsComment_eq_false hnames v (hlisted v hv)
  obtain ⟨xs, hxs, hread⟩ := tokens_append hbefore hus
  obtain ⟨l, hload, hgiven⟩ := hback "f"
  rw [load, hxs] at hload
  obtain rfl := Except.ok.inj hload
  -- the first saved variable is the one that is lost: its name stands behind the open one
  obtain ⟨v, vs, hcons⟩ : ∃ v vs, listed (level s value) = v :: vs := by
    obtain ⟨u, hu⟩ := List.exists_mem_of_ne_nil _ hsome
    obtain ⟨w, hw, -⟩ := hsame₁.exists_persistent hu
    exact List.exists_cons_of_ne_nil
      (List.ne_nil_of_mem ((mem_listed hs₁.sound).mpr (List.mem_filter.mp hw)))
  rw [hcons] at hlisted hisName hvalues hdistinct htexts
  have hv := hlisted v List.mem_cons_self
  have hname := hisName v List.mem_cons_self
  obtain ⟨w, hw, hsame, -⟩ := hsame'.exists_mem (List.mem_filter.mp hv).1
  rw [htexts, entries, List.flatMap_cons] at hread
  obtain ⟨t, rest, rfl, ht, hrest⟩ := List.map_eq_cons_iff.mp hread
  have hlater : ∀ u ∈ rest, Text.sameName w.name u.text = false := by
    intro u hu
    have hmem : u.text ∈ rest.map (·.text) := List.mem_map_of_mem hu
    rw [hrest] at hmem
    rw [hsame]
    exact sameName_of_mem_entries hdistinct hname hvalue hvalues _ hmem
  refine lost_of_leftOpen hs' ?_ hw ⟨?_, ?_, hfresh⟩ (ht.trans hsame.symm) hlater ?_
  · rwa [← hsame'.contains_eq hs₁.sound hs'.sound, ← hsame₁.contains_eq hs.sound hs₁.sound]
  · rw [string_of_mem_level hs.sound hw]
    exact hempty
  · rintro rfl
    rw [hsame, hname] at hvalue
    cases hvalue
  · rw [hsame, hgiven v hv, hvalues v List.mem_cons_self]

/-- **Appending wins, whatever the values are, exactly if no name is left open before the first saved
variable.** Here some variable is persistent, and no name of a persistent variable begins a comment, so
that each store's own text brings its values back. -/
theorem restoresAppended_iff (s : Variables) (hs : s.Reachable) (hsome : s.persistent ≠ [])
    (hnames : ∀ v ∈ s.persistent, beginsComment v.name.toList = false) (old path : String)
    (l : Loaded) (hload : load s old path = .ok l) :
    (∀ s₁ : Variables, s₁.Reachable → SameVariables s s₁ → ∀ (d : Disk) (file : String),
      d.readText file = .ok old → RestoresAppended s₁ d file) ↔
      ∀ ts, tokens (old ++ header ++ "\n") = .ok ts → leftOpen s.contains ts = false := by
  constructor
  · intro hall ts hts
    refine Bool.eq_false_iff.mpr fun hopen => ?_
    -- all variables are given a value that stands nowhere else and is no name
    obtain ⟨value, hfresh, hvalue⟩ := exists_fresh ("" :: ts.map (·.text))
    rw [List.mem_cons, not_or] at hfresh
    have hs₁ := reachable_level hs value
    have hsame₁ := sameVariables_level hs.sound value
    have hwins := (restoresAppended_iff_behind hs₁.sound (readText_oneFile old)).mp
      (hall _ hs₁ hsame₁ _ _ (readText_oneFile old))
    refine not_restores_level hs hsome hnames hts hopen hvalue (fun h => hfresh.1 h.symm)
      (fun t ht htext => hfresh.2 (htext ▸ List.mem_map_of_mem ht)) ?_
    exact hwins _ (reachable_level hs "") (hsame₁.symm.trans (sameVariables_level hs.sound ""))
  · intro hclosed s₁ hs₁ hsame d file hold
    obtain ⟨ts₀, hts₀, -⟩ := load_eq_ok hload
    obtain ⟨ts, hts⟩ := tokens_header hts₀
    have hcontains : s.contains = s₁.contains := hsame.contains_eq hs.sound hs₁.sound
    refine (restoresAppended_iff_behind hs₁.sound hold).mpr fun s' hs' hsame' => ?_
    exact restores_behind hs₁ (loadsBack_of_names hs₁ (hsame.beginsComment_eq_false hnames)) hts
      (hcontains ▸ hclosed ts hts) hs' hsame'

end DevConsole.Config
