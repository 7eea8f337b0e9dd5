import DevConsole.Proofs.Config.Assigning
import DevConsole.Proofs.Config.RoundTrip
import DevConsole.Proofs.Config.Seam
import DevConsole.Proofs.Disk.Appended

/-!
# Saving behind another text

A store is saved behind the text that a file holds. What was saved is read last, so it gives the
persistent variables their values, whatever the text before assigns. But reading goes token by token: a
name at the end of the text before, with nothing behind it, takes the first saved name as its value, and
then the saved value stands alone (`restores_append_open`). If reading the text before, with the first
line that is saved behind it, leaves no name without its value, saving there brings the persistent
values back (`restores_append`).
-/

namespace DevConsole.Config

/-- Reading the text into the second store gives it the persistent values of the first. -/
def Restores (s : Variables) (written : String) (s' : Variables) : Prop :=
  ∀ path, ∃ l, load s' written path = .ok l ∧
    ∀ v ∈ s.persistent, l.store.string v.name = v.views.string

/-- The own text of the store brings its persistent values back, in any store with its variables. -/
def LoadsBack (s : Variables) : Prop :=
  ∀ s' : Variables, s'.Reachable → SameVariables s s' → Restores s (text s) s'

/-- Saving behind what the file holds succeeds, and reading the file then brings the persistent values
back, in any store with the variables. -/
def RestoresAppended (s : Variables) (d : Disk) (path : String) : Prop :=
  ∃ d' written, save s d path .append = (.ok s.persistent.length, d') ∧
    d'.readText path = .ok written ∧
    ∀ s' : Variables, s'.Reachable → SameVariables s s' → Restores s written s'

/-- The tokens end with one that is read as a name and has no value behind it. -/
def leftOpen (known : String → Bool) : List Token → Bool
  | [] => false
  | t :: ts =>
    if known t.text then
      match ts with
      | [] => true
      | _ :: ts => leftOpen known ts
    else leftOpen known ts

/-! ### The file -/

/-- **Saving behind what a file holds succeeds** where it can be read, and the file holds both then. -/
theorem save_append (s : Variables) {d : Disk} {path old : String} (h : d.readText path = .ok old) :
    ∃ d', save s d path .append = (.ok (listed s).length, d') ∧
      d'.readText path = .ok (old ++ text s) := by
  obtain ⟨bytes, hbytes, -⟩ := Disk.of_bind_eq_ok h
  obtain ⟨d', happend, hread⟩ := Disk.readText_append h (text s)
  have hprepare : prepare d path = (d, .ok ()) := by
    rw [prepare]
    rcases Disk.parent_of_read hbytes with hparent | hparent <;> simp [hparent]
  exact ⟨d', by rw [save, hprepare]; simp only [happend], hread⟩

/-- What has to be read back is the saved text behind the text before. -/
theorem restoresAppended_iff_behind {s : Variables} (hs : s.Sound) {d : Disk} {path old : String}
    (hold : d.readText path = .ok old) : RestoresAppended s d path ↔
      ∀ s' : Variables, s'.Reachable → SameVariables s s' → Restores s (old ++ text s) s' := by
  obtain ⟨d', hsave, hread⟩ := save_append s hold
  constructor
  · rintro ⟨d₁, written, hsave₁, hread₁, h⟩
    obtain rfl : d' = d₁ := (Prod.mk.inj (hsave.symm.trans hsave₁)).2
    obtain rfl := Except.ok.inj (hread.symm.trans hread₁)
    exact h
  · exact fun h => ⟨d', _, by rw [hsave, length_listed hs], hread, h⟩

/-! ### The tokens -/

/-- The first line that is saved can be read behind any text that can be read. -/
theorem tokens_header {old : String} {ts : List Token} (h : tokens old = .ok ts) :
    ∃ us, tokens (old ++ header ++ "\n") = .ok us := by
  have hplain : Plain (header.toList ++ ['\n']) := by decide
  have hchars : (old ++ header ++ "\n").toList = old.toList ++ (header.toList ++ ['\n']) := by
    rw [String.toList_append, String.toList_append, List.append_assoc]
    rfl
  rw [tokens, hchars]
  exact scan_glued hplain h

/-- **Behind the first line the tokens are those of the saved text.** -/
theorem tokens_append {old : String} {s : Variables} {ts us : List Token}
    (hbefore : tokens (old ++ header ++ "\n") = .ok ts) (htext : tokens (text s) = .ok us) :
    ∃ vs, tokens (old ++ text s) = .ok (ts ++ vs) ∧ vs.map (·.text) = us.map (·.text) := by
  obtain ⟨body, hbody⟩ : ∃ body, body = (listed s).flatMap fun v => (line v).toList := ⟨_, rfl⟩
  have hsaved : (text s).toList = header.toList ++ '\n' :: body := by rw [toList_text, hbody]
  have hchars : (old ++ header ++ "\n").toList = (old.toList ++ header.toList) ++ ['\n'] := by
    rw [String.toList_append, String.toList_append]
    rfl
  rw [tokens, hchars] at hbefore
  obtain ⟨m, hm⟩ := scan_newline hbefore
  rw [tokens, hsaved, scan_header] at htext
  have hsame := texts_scan (.refl .gap) m 2 body
  rw [htext] at hsame
  cases hscan : scan .gap m body with
  | error e => rw [hscan] at hsame; cases hsame
  | ok vs =>
    rw [hscan] at hsame
    refine ⟨vs, ?_, Option.some.inj hsame⟩
    rw [tokens, String.toList_append, hsaved, ← List.append_assoc, hm, hscan]
    rfl

/-! ### The assignments -/

section LeftOpen
variable {known : String → Bool} {t : Token}

theorem leftOpen_known (h : known t.text = true) (v : Token) (ts : List Token) :
    leftOpen known (t :: v :: ts) = leftOpen known ts := by
  rw [leftOpen.eq_def]
  exact if_pos h

theorem leftOpen_unknown (h : ¬ known t.text = true) (ts : List Token) :
    leftOpen known (t :: ts) = leftOpen known ts := by
  rw [leftOpen.eq_def]
  exact if_neg h

end LeftOpen

/-- **Tokens behind others are read after them**, unless a name is left without its value. -/
theorem assign_append (l : Loaded) (ts us : List Token) (h : leftOpen l.store.contains ts = false) :
    assign l (ts ++ us) = assign (assign l ts) us := by
  fun_induction assign l ts with
  | case1 l => rfl
  | case2 l t hname => simp [leftOpen, hname] at h
  | case3 l t hname v ts ih =>
    obtain ⟨s, hset⟩ : ∃ s, l.store.set? t.text (.text v.text) = some s := ⟨_, if_pos hname⟩
    have hcontains : s.contains = l.store.contains := funext (Variables.contains_set? hset)
    simp only [hset, Option.getD_some, hcontains] at ih ⊢
    rw [leftOpen_known hname] at h
    show assign ⟨l.count, l.store, l.skipped⟩ (t :: v :: (ts ++ us)) = _
    rw [assign_known hname hset, ← ih h]
  | case4 l t ts hname ih =>
    rw [leftOpen_unknown hname] at h
    show assign ⟨l.count, l.store, l.skipped⟩ (t :: (ts ++ us)) = _
    rw [assign_unknown (Bool.eq_false_iff.mpr hname), ← ih h]

/-- Reading gives the same store where the texts of the tokens are the same. -/
theorem store_assign_congr {l l' : Loaded} {ts us : List Token} (hstore : l'.store = l.store)
    (htexts : us.map (·.text) = ts.map (·.text)) : (assign l' us).store = (assign l ts).store := by
  fun_induction assign l ts generalizing l' us with
  | case1 l =>
    obtain rfl := List.map_eq_nil_iff.mp htexts
    exact hstore
  | case2 l t hname =>
    obtain ⟨u, us, rfl, -, hnone⟩ := List.map_eq_cons_iff.mp htexts
    obtain rfl := List.map_eq_nil_iff.mp hnone
    exact assign_last.2.trans hstore
  | case3 l t hname v ts ih =>
    obtain ⟨u, us, rfl, htext, hrest⟩ := List.map_eq_cons_iff.mp htexts
    obtain ⟨w, us, rfl, hvalue, hrest⟩ := List.map_eq_cons_iff.mp hrest
    obtain ⟨s, hset⟩ : ∃ s, l.store.set? t.text (.text v.text) = some s := ⟨_, if_pos hname⟩
    dsimp only at htext hvalue
    rw [← hstore, ← htext] at hname
    show (assign ⟨l'.count, l'.store, l'.skipped⟩ (u :: w :: us)).store = _
    rw [assign_known hname (by rw [hstore, htext, hvalue, hset])]
    exact ih (by rw [hset]; rfl) hrest
  | case4 l t ts hname ih =>
    obtain ⟨u, us, rfl, htext, hrest⟩ := List.map_eq_cons_iff.mp htexts
    dsimp only at htext
    rw [← hstore, ← htext] at hname
    show (assign ⟨l'.count, l'.store, l'.skipped⟩ (u :: us)).store = _
    rw [assign_unknown (Bool.eq_false_iff.mpr hname)]
    exact ih hstore hrest

/-! ### The stores -/

theorem SameVariables.contains_eq {s s' : Variables} (h : SameVariables s s') (hs : s.Sound)
    (hs' : s'.Sound) : s.contains = s'.contains := by
  have hle : ∀ {s s' : Variables}, SameVariables s s' → s.Sound → s'.Sound → ∀ name,
      s.contains name = true → s'.contains name = true := by
    intro s s' h hs hs' name hname
    obtain ⟨v, hv, hsame⟩ := hs.contains_iff.mp hname
    obtain ⟨w, hw, hspelt, -⟩ := h.exists_mem hv
    exact hs'.contains_iff.mpr ⟨w, hw, hspelt ▸ hsame⟩
  funext name
  exact Bool.eq_iff_iff.mpr ⟨hle h hs hs' name, hle h.symm hs' hs name⟩

/-- Reading tokens leaves the variables what they are, but for their values. -/
theorem sameVariables_assign (s : Variables) (ts : List Token) :
    SameVariables s (assign { store := s } ts).store := by
  have hsame : ∀ {vs ws : List Variable}, List.Forall₂ (Kept ts) vs ws →
      vs.map (fun v => (v.name, v.flags)) = ws.map fun w => (w.name, w.flags) := by
    intro vs ws h
    induction h with
    | nil => rfl
    | cons hkept _ ih => rw [List.map_cons, List.map_cons, ih, hkept.1]
  exact .of_eq (hsame (onlyAssigns_assign s ts).toList)

/-- What can be loaded has tokens that can be read. -/
theorem load_eq_ok {s : Variables} {text path : String} {l : Loaded}
    (h : load s text path = .ok l) : ∃ ts, tokens text = .ok ts ∧ l = assign { store := s } ts := by
  rw [load] at h
  cases htokens : tokens text with
  | error e => rw [htokens] at h; cases h
  | ok ts =>
    rw [htokens] at h
    exact ⟨ts, rfl, (Except.ok.inj h).symm⟩

/-- **The saved values win over those of the text before**, if that leaves no name without a value. -/
theorem restores_behind {s s' : Variables} {old : String} {ts : List Token} (hs : s.Reachable)
    (hback : LoadsBack s) (hbefore : tokens (old ++ header ++ "\n") = .ok ts)
    (hclosed : leftOpen s.contains ts = false) (hs' : s'.Reachable) (hsame : SameVariables s s') :
    Restores s (old ++ text s) s' := by
  intro path
  -- the saved text is read where reading the text before has led to
  obtain ⟨middle, hmiddle⟩ : ∃ middle, middle = assign { store := s' } ts := ⟨_, rfl⟩
  have hreached : middle.store.Reachable := hmiddle ▸ reachable_assign hs' ts
  have hkept : SameVariables s middle.store := hmiddle ▸ hsame.trans (sameVariables_assign s' ts)
  obtain ⟨l, hload, hvalues⟩ := hback middle.store hreached hkept path
  obtain ⟨us, hus, rfl⟩ := load_eq_ok hload
  obtain ⟨vs, hvs, htexts⟩ := tokens_append hbefore hus
  have hstore : (assign { store := s' } (ts ++ vs)).store =
      (assign { store := middle.store } us).store := by
    rw [assign_append _ _ _ (by rwa [← hsame.contains_eq hs.sound hs'.sound]), ← hmiddle]
    exact store_assign_congr rfl htexts
  refine ⟨_, by rw [load, hvs], ?_⟩
  rw [hstore]
  exact hvalues

/-- If no name of a persistent variable begins a comment, the own text brings the values back. -/
theorem loadsBack_of_names {s : Variables} (hs : s.Reachable)
    (hnames : ∀ v ∈ s.persistent, beginsComment v.name.toList = false) : LoadsBack s := by
  intro s' hs' hsame path
  obtain ⟨written, l, hread, hload, -, hlist⟩ :=
    roundTrips_of_names hs.sound hs'.sound hsame hnames _ _ "f" _ (save_empty s)
  obtain rfl : text s = written := Except.ok.inj ((readText_save (save_empty s)).symm.trans hread)
  obtain ⟨ts, hts, rfl⟩ := load_eq_ok hload
  refine ⟨_, by rw [load, hts], fun v hv => ?_⟩
  obtain ⟨hmem, hflag⟩ := List.mem_filter.mp hv
  obtain ⟨w, hw, hname, hflags⟩ := hsame.exists_mem hmem
  have hrestored : w.set (.text (s.string w.name)) ∈ (assign { store := s' } ts).store.toList := by
    rw [hlist]
    exact List.mem_map.mpr ⟨w, hw, if_pos (hflags ▸ hflag)⟩
  rw [← hname]
  refine ((reachable_assign hs' ts).sound.string_eq hrestored).trans ?_
  show s.string w.name = v.views.string
  rw [hname, hs.sound.string_eq hmem]

/-- **Appending a save wins.** If the own text of a store brings its persistent values back, and a
file holds a text that can be loaded, then the store can be saved behind it, and loading what the file
holds then brings the persistent values back in every store with its variables, provided that the text
before, read with the first saved line behind it, leaves no name without its value. -/
theorem restores_append (s : Variables) (hs : s.Reachable) (hback : LoadsBack s) (d : Disk)
    (path old : String) (hold : d.readText path = .ok old) (l : Loaded)
    (hload : load s old path = .ok l)
    (hclosed : ∀ ts, tokens (old ++ header ++ "\n") = .ok ts → leftOpen s.contains ts = false) :
    RestoresAppended s d path := by
  obtain ⟨ts₀, hts₀, -⟩ := load_eq_ok hload
  obtain ⟨ts, hts⟩ := tokens_header hts₀
  refine (restoresAppended_iff_behind hs.sound hold).mpr fun s' hs' hsame => ?_
  exact restores_behind hs hback hts (hclosed ts hts) hs' hsame

/-- A disk with one file. -/
def oneFile (text : String) : Disk := Disk.empty.put ["f"] (.file text.toUTF8)

theorem readText_oneFile (text : String) : (oneFile text).readText "f" = .ok text :=
  Disk.readText_write (write_empty text.toUTF8)

theorem loadsBack_profile : LoadsBack profile :=
  loadsBack_of_names reachable_profile (by decide +kernel)

/-- The text before does not end its last line, so its value runs into the first line that is saved. -/
theorem restores_append_unended : RestoresAppended profile (oneFile "name Bob") "f" := by
  have htokens : (tokens ("name Bob" ++ header ++ "\n")).toOption.map
      (leftOpen profile.contains) = some false := by decide +kernel
  refine restores_append profile reachable_profile loadsBack_profile (oneFile "name Bob") "f"
    "name Bob" (readText_oneFile _) (assign { store := profile } [⟨"name", 1⟩, ⟨"Bob", 1⟩]) rfl fun ts hts => ?_
  rw [hts] at htokens
  exact Option.some.inj htokens

/-- A name at the end of the text before takes the first saved name as its value. -/
theorem restores_append_open : ¬ ∀ (s : Variables) (d : Disk) (path old : String) (l : Loaded),
    s.Reachable → LoadsBack s → d.readText path = .ok old → load s old path = .ok l →
      RestoresAppended s d path := by
  intro h
  have hrestores := (restoresAppended_iff_behind reachable_profile.sound (readText_oneFile "name\n")).mp
    (h profile _ "f" "name\n" { store := profile } reachable_profile loadsBack_profile
      (readText_oneFile "name\n") rfl)
  obtain ⟨l, hload, hvalues⟩ := hrestores profile reachable_profile (.refl _) "f"
  have hlost : (load profile ("name\n" ++ text profile) "f").toOption.map (fun l =>
      decide (∀ v ∈ profile.persistent, l.store.string v.name = v.views.string)) = some false := by
    decide +kernel
  rw [hload] at hlost
  exact of_decide_eq_false (Option.some.inj hlost) hvalues

end DevConsole.Config
