import DevConsole.Proofs.Table.Names
import Mathlib.Data.List.Nodup

/-!
# Handles of variables

A store gives every variable that it brings in, registered or created on the spot, the next handle.
So the variables that calls on a store have ever brought in are told apart by their handles, and the
store holds, newest first, those of them that have not gone (`Tells`). A handle takes out the variable
that was born with it, as it is by then, or nothing if that variable has gone, whoever has its name now
(`handles_identify`). A variable goes when it is unregistered, or when it was temporary and another one
is registered under its name; that one takes over its value, unless it is a system variable.
-/

namespace DevConsole

/-! ### Spellings of names -/

/-- Letter case plays no role for what is barred from names. -/
theorem barredFromNames_toLower (c : Char) : barredFromNames c.toLower = barredFromNames c := by
  by_cases hupper : 65 ≤ c.val.toNat ∧ c.val.toNat ≤ 90
  · have hletters : ∀ n < 91, 65 ≤ n → barredFromNames (Char.ofNat n).toLower = false ∧
        barredFromNames (Char.ofNat n) = false := by decide
    obtain ⟨hsmall, hcapital⟩ := hletters c.toNat (Nat.lt_succ_of_le hupper.2) hupper.1
    rw [Char.ofNat_toNat] at hsmall hcapital
    rw [hsmall, hcapital]
  · have hval := Text.toNat_toLower c
    rw [if_neg hupper] at hval
    rw [Char.ext (UInt32.toNat_inj.mp hval)]

/-- **Letter case plays no role for what can be a name.** -/
theorem isName_congr {a b : String} (h : Text.sameName a b = true) : isName a = isName b := by
  have hfold : ∀ cs : List Char, (!cs.isEmpty && cs.head? != some '@' && !cs.any barredFromNames) =
      (!(Text.foldChars cs).isEmpty && (Text.foldChars cs).head? != some '@' &&
        !(Text.foldChars cs).any barredFromNames) := by
    intro cs
    have hany : (Text.foldChars cs).any barredFromNames = cs.any barredFromNames := by
      rw [Text.foldChars, List.any_map]
      exact congrArg cs.any (funext barredFromNames_toLower)
    rw [hany]
    cases cs with
    | nil => rfl
    | cons c cs =>
      have hmarker : (c.toLower == '@') = (c == '@') := by
        rw [Bool.eq_iff_iff, beq_iff_eq, beq_iff_eq]
        exact Text.toLower_eq_iff (by decide)
      simp [Text.foldChars, bne, hmarker]
  unfold isName
  dsimp only
  rw [hfold a.toList, hfold b.toList, (Text.sameName_iff a b).mp h]

/-! ### Taking entries out -/

namespace Registry

variable {α : Type} {r : Registry α}

section Where
variable {p : α → Bool}

/-- The only entry that passes a test is taken out by it. -/
theorem removeWhere?_eq_some [Named α] (hone : r.entries.Pairwise fun x y => p x = true → p y = false)
    {e : α} (he : e ∈ r.entries) (hp : p e = true) :
    ∃ r', r.removeWhere? p = some (e, r') ∧ r'.entries = r.entries.filter fun x => !p x := by
  obtain ⟨i, hi⟩ : ∃ i, r.entries.findIdx? p = some i :=
    ⟨_, List.findIdx?_eq_some_of_exists ⟨e, he, hp⟩⟩
  obtain ⟨hlt, hpass, -⟩ := List.findIdx?_eq_some_iff_getElem.mp hi
  have hsame : r.entries[i] = e := by
    obtain ⟨j, hj, rfl⟩ := List.getElem_of_mem he
    rcases Nat.lt_trichotomy i j with hij | rfl | hij
    · have hdiff := List.pairwise_iff_getElem.mp hone i j hlt hj hij hpass
      rw [hp] at hdiff
      cases hdiff
    · rfl
    · have hdiff := List.pairwise_iff_getElem.mp hone j i hj hlt hij hp
      rw [hpass] at hdiff
      cases hdiff
  refine ⟨⟨r.entries.eraseIdx i, r.names.erase (Named.name e)⟩, ?_, eraseIdx_eq_filter hone hi⟩
  rw [removeWhere?, hi, Option.bind_some, removeAt?, List.getElem?_eq_getElem hlt, hsame,
    Option.map_some]

theorem removeWhere?_eq_none [Named α] (hno : ∀ e ∈ r.entries, p e = false) :
    r.removeWhere? p = none := by
  rw [removeWhere?, List.findIdx?_eq_none_iff.mpr hno, Option.bind_none]

end Where

variable [Named α]

theorem modify_of_free {name : String} (hfree : r.contains name = false) (f : α → α) :
    r.modify name f = r := by
  rw [modify, position?, hfree]
  rfl

theorem Sound.filter_of_free (h : r.Sound) {name : String} (hfree : r.contains name = false) :
    r.entries.filter (fun e => !Text.sameName (Named.name e) name) = r.entries := by
  refine List.filter_eq_self.mpr fun e he => ?_
  rw [Bool.not_eq_true']
  exact Bool.eq_false_iff.mpr fun hsame =>
    Bool.eq_false_iff.mp hfree (h.contains_iff.mpr ⟨e, he, hsame⟩)

theorem Sound.get?_of_free (h : r.Sound) {name : String} (hfree : r.contains name = false) :
    r.get? name = none := by
  refine Option.eq_none_iff_forall_ne_some.mpr fun e he => ?_
  exact Bool.eq_false_iff.mp hfree (h.contains_iff.mpr ⟨e, h.get?_eq_some_iff.mp he⟩)

/-- **The entry that is taken out by its name is the one that is found by it.** -/
theorem Sound.remove?_eq (h : r.Sound) (name : String) : ∃ r', r'.Sound ∧
    r'.entries = r.entries.filter (fun e => !Text.sameName (Named.name e) name) ∧
    r.remove? name = (r.get? name).map (·, r') := by
  cases hr : r.remove? name with
  | some p =>
    obtain ⟨e, r'⟩ := p
    obtain ⟨hsound, hperm, hname, -⟩ := h.remove?_eq_some hr
    have hget := h.get?_eq_some_iff.mpr ⟨hperm.mem_iff.mpr List.mem_cons_self, hname⟩
    refine ⟨r', hsound, ?_, by rw [hget, Option.map_some]⟩
    rw [remove?, h.position?_eq] at hr
    obtain ⟨i, hi, hr⟩ := Option.bind_eq_some_iff.mp hr
    obtain ⟨x, -, hpair⟩ := Option.map_eq_some_iff.mp hr
    rw [← (Prod.mk.inj hpair).2]
    exact h.distinct.eraseIdx_eq_filter hi
  | none =>
    have hfree := h.remove?_eq_none hr
    refine ⟨r, h, (h.filter_of_free hfree).symm, ?_⟩
    rw [h.get?_of_free hfree, Option.map_none]

end Registry

/-! ### Registrations -/

/-- The variable as it is registered where `old` is the one with its name: it takes over the value,
unless it is a system variable. -/
def Variable.inPlaceOf (v : Variable) : Option Variable → Variable
  | some old => if v.flags.has .system then v else v.withValueOf old
  | none => v

theorem Variable.name_inPlaceOf (v : Variable) (old : Option Variable) :
    (v.inPlaceOf old).name = v.name := by
  unfold inPlaceOf
  split
  · split <;> rfl
  · rfl

namespace Variables

variable {s : Variables}

/-- The variables but the one with the name. -/
def others (s : Variables) (name : String) : List Variable :=
  s.toList.filter fun u => !Text.sameName u.name name

theorem Sound.others_of_free (hs : s.Sound) {name : String} (hfree : s.contains name = false) :
    s.others name = s.toList := hs.registry.filter_of_free hfree

/-- The registration brings in the variable under the next handle, in the place of the one with its
name. -/
structure Registered (s : Variables) (v : Variable) (r : Registration) : Prop where
  handle : r.handle = ⟨s.nextHandle⟩
  next : r.store.nextHandle = s.nextHandle + 1
  toList : r.store.toList =
    { v.inPlaceOf (s.get? v.name) with handle := some r.handle } :: s.others v.name

/-- The variable has a valid name, which is free or that of a temporary variable. -/
structure Accepts (s : Variables) (v : Variable) : Prop where
  isName : isName v.name = true
  temp : ∀ old, s.get? v.name = some old → old.flags.has .temp = true

theorem toList_add (s : Variables) (v : Variable) :
    (s.add v).store.toList = { v with handle := some ⟨s.nextHandle⟩ } :: s.toList := rfl

/-- There is one variable with a name that is there. -/
theorem Sound.length_others (hs : s.Sound) {name : String} {v : Variable}
    (hv : s.get? name = some v) : (s.others name).length + 1 = s.toList.length := by
  have hone : s.toList.countP (fun u => Text.sameName u.name name) = 1 := by
    have hcount := hs.registry.countP_sameName name
    rwa [if_pos (hs.registry.contains_iff.mpr ⟨v, hs.registry.get?_eq_some_iff.mp hv⟩)] at hcount
  rw [List.length_eq_countP_add_countP (fun u => Text.sameName u.name name) (l := s.toList), hone,
    others, ← List.countP_eq_length_filter, Nat.add_comm]
  simp

/-- **Exactly the accepted variables are registered.** -/
theorem Sound.register_cases (hs : s.Sound) (v : Variable) :
    s.Accepts v ∧ (∃ r, s.register v = .ok r ∧ Registered s v r) ∨
      ¬ s.Accepts v ∧ ∃ e, s.register v = .error e := by
  by_cases hname : DevConsole.isName v.name = true
  · have hcheck : checkName v.name = .ok () := if_pos hname
    obtain ⟨rest, -, hrest, hremove⟩ := hs.registry.remove?_eq v.name
    have hothers : ({ s with registry := rest } : Variables).toList = s.others v.name := hrest
    unfold Variables.register
    rw [hcheck, hremove]
    cases hget : s.get? v.name with
    | none =>
      have hfree : s.registry.contains v.name = false := by
        refine Bool.eq_false_iff.mpr fun hcontains => ?_
        obtain ⟨old, hold⟩ := hs.registry.contains_iff.mp hcontains
        cases hget.symm.trans (hs.registry.get?_eq_some_iff.mpr hold)
      rw [show s.registry.get? v.name = none from hget]
      refine .inl ⟨⟨hname, fun old hold => ?_⟩, s.add v, rfl, rfl, rfl, ?_⟩
      · cases hget.symm.trans hold
      · rw [toList_add, hget, hs.others_of_free hfree]
        rfl
    | some old =>
      rw [show s.registry.get? v.name = some old from hget]
      cases htemp : old.flags.has .temp with
      | true =>
        refine .inl ⟨⟨hname, fun old' hold => ?_⟩, _, if_pos htemp, rfl, rfl, ?_⟩
        · obtain rfl := Option.some.inj (hget.symm.trans hold)
          exact htemp
        · rw [toList_add, hget, hothers]
          rfl
      | false =>
        refine .inr ⟨fun haccepts => ?_, _, if_neg (by rw [htemp]; exact Bool.false_ne_true)⟩
        rw [haccepts.temp old hget] at htemp
        cases htemp
  · refine .inr ⟨fun haccepts => hname haccepts.isName, .invalidName v.name, ?_⟩
    have hcheck : checkName v.name = .error (.invalidName v.name) := if_neg hname
    unfold Variables.register
    rw [hcheck]
    rfl

/-! ### Calls and births -/

/-- A call on a store. -/
inductive Call
  | register (v : Variable)
  | create (name : String) (value : Value) (flags : Flags)
  | unregister (h : Handle)
  | set (name : String) (value : Value)
  | reset (name : String)

/-- The store after a call; a call that is refused changes nothing. -/
def Call.run (s : Variables) : Call → Variables
  | register v => match s.register v with
    | .ok r => r.store
    | .error _ => s
  | create name value flags => match s.create name value flags with
    | .ok t => t
    | .error _ => s
  | unregister h => ((s.unregister h).map Prod.snd).getD s
  | set name value => (s.set? name value).getD s
  | reset name => (s.reset? name).getD s

/-- A variable that was brought into a store. -/
structure Birth where
  handle : Handle
  /-- The variable as it is now, if it has not gone. -/
  now : Option Variable

namespace Birth

/-- The variables that have not gone, oldest first. -/
def live (past : List Birth) : List Variable := past.filterMap (·.now)

/-- A variable with the name goes. -/
def makeWay (name : String) (b : Birth) : Birth :=
  { b with now := b.now.filter fun v => !Text.sameName v.name name }

/-- A variable with the name is changed. -/
def change (name : String) (f : Variable → Variable) (b : Birth) : Birth :=
  { b with now := b.now.map (Registry.onName name f) }

/-- The variable goes if it was born with the handle. -/
def leave (h : Handle) (b : Birth) : Birth := if b.handle = h then { b with now := none } else b

theorem handle_leave (h : Handle) (b : Birth) : (b.leave h).handle = b.handle := by
  unfold leave
  split <;> rfl

theorem live_concat (past : List Birth) (h : Handle) (v : Variable) :
    live (past ++ [⟨h, some v⟩]) = live past ++ [v] := List.filterMap_append

theorem live_makeWay (name : String) (past : List Birth) : live (past.map (makeWay name)) =
    (live past).filter fun v => !Text.sameName v.name name := by
  rw [live, live, List.filterMap_map, List.filter_filterMap]
  rfl

theorem live_change (name : String) (f : Variable → Variable) (past : List Birth) :
    live (past.map (change name f)) = (live past).map (Registry.onName name f) := by
  rw [live, live, List.filterMap_map, List.map_filterMap]
  rfl

/-- If the variables carry their handles, these are among the handles of the births. -/
theorem map_handle_live : ∀ {past : List Birth},
    (∀ b ∈ past, ∀ v, b.now = some v → v.handle = some b.handle) →
      ((live past).map (·.handle)).Sublist (past.map fun b => some b.handle)
  | [], _ => .slnil
  | b :: past, hown => by
    obtain ⟨hb, hpast⟩ := List.forall_mem_cons.mp hown
    have ih := map_handle_live hpast
    cases hv : b.now with
    | none =>
      rw [live, List.filterMap_cons_none hv]
      exact ih.cons _
    | some v =>
      rw [live, List.filterMap_cons_some hv, List.map_cons, List.map_cons, hb v hv]
      exact ih.cons_cons _

/-- If the variables carry their handles, the one with a handle goes. -/
theorem live_leave {past : List Birth} (hown : ∀ b ∈ past, ∀ v, b.now = some v → v.handle = some b.handle)
    (h : Handle) : live (past.map (leave h)) = (live past).filter fun v => !(v.handle == some h) := by
  rw [live, live, List.filterMap_map, List.filter_filterMap]
  refine List.filterMap_congr fun b hb => ?_
  show (b.leave h).now = b.now.filter _
  unfold leave
  cases hv : b.now with
  | none => split <;> simp [hv]
  | some v =>
    rw [Option.filter_some, hown b hb v hv]
    split
    · next hsame => simp [hsame]
    · next hdiff => simp [hv, hdiff]

end Birth

/-- The births after a call. The new variable is the one that is then found under its name. -/
def Call.note (s : Variables) (past : List Birth) : Call → List Birth
  | register v => match s.register v with
    | .ok r => past.map (.makeWay v.name) ++ [⟨r.handle, r.store.get? v.name⟩]
    | .error _ => past
  | create name value flags => match s.create name value flags with
    | .ok t =>
      if s.contains name then past.map (.change name (·.set value))
      else past ++ [⟨⟨s.nextHandle⟩, t.get? name⟩]
    | .error _ => past
  | unregister h => past.map (.leave h)
  | set name value => past.map (.change name (·.set value))
  | reset name => past.map (.change name (·.reset))

/-- The store and the births after calls on the store without variables. -/
def after (calls : List Call) : Variables × List Birth :=
  calls.foldl (fun (s, past) k => (k.run s, k.note s past)) (.empty, [])

/-- The births tell what the store holds. -/
structure Tells (past : List Birth) (s : Variables) : Prop where
  sound : s.Sound
  /-- The store holds the variables that have not gone, newest first. -/
  toList : s.toList = (Birth.live past).reverse
  /-- The handles count the births. -/
  handles : past.map (·.handle) = (List.range past.length).map Handle.mk
  next : s.nextHandle = past.length
  /-- A variable carries the handle that it was born with. -/
  own : ∀ b ∈ past, ∀ v, b.now = some v → v.handle = some b.handle

/-- Where there is no such variable, setting it changes none. -/
theorem set?_getD (s : Variables) (name : String) (value : Value) :
    (s.set? name value).getD s = { s with registry := s.registry.modify name (·.set value) } := by
  unfold set?
  split
  · rfl
  · next hno => rw [Registry.modify_of_free (Bool.eq_false_iff.mpr hno)]; rfl

theorem reset?_getD (s : Variables) (name : String) :
    (s.reset? name).getD s = { s with registry := s.registry.modify name (·.reset) } := by
  unfold reset?
  split
  · rfl
  · next hno => rw [Registry.modify_of_free (Bool.eq_false_iff.mpr hno)]; rfl

theorem tells_empty : Tells [] .empty := ⟨sound_empty, rfl, rfl, rfl, fun _ hb => nomatch hb⟩

section Tells
variable {past : List Birth}

theorem Tells.mem_iff (h : Tells past s) {v : Variable} :
    v ∈ s.toList ↔ ∃ b ∈ past, b.now = some v := by
  rw [h.toList, List.mem_reverse, Birth.live, List.mem_filterMap]

/-- Births whose variables change, or go, each by itself. -/
theorem Tells.map (h : Tells past s) {t : Variables} {g : Birth → Birth} (ht : t.Sound)
    (hnext : t.nextHandle = s.nextHandle) (hg : ∀ b, (g b).handle = b.handle)
    (hlist : t.toList = (Birth.live (past.map g)).reverse)
    (hown : ∀ b ∈ past, ∀ v, (g b).now = some v → ∃ u, b.now = some u ∧ v.handle = u.handle) :
    Tells (past.map g) t where
  sound := ht
  toList := hlist
  handles := by
    rw [List.map_map, List.length_map, ← h.handles]
    exact List.map_congr_left fun b _ => hg b
  next := by rw [hnext, h.next, List.length_map]
  own b hb v hv := by
    obtain ⟨c, hc, rfl⟩ := List.mem_map.mp hb
    obtain ⟨u, hu, hvu⟩ := hown c hc v hv
    rw [hvu, hg, h.own c hc u hu]

/-- A variable is brought in, in the place of the one with its name. -/
theorem Tells.bring (h : Tells past s) {t : Variables} (ht : t.Sound)
    (hnext : t.nextHandle = s.nextHandle + 1) {v : Variable} {name : String} (hv : v.name = name)
    {k : Handle} (hk : k = ⟨s.nextHandle⟩)
    (hlist : t.toList = { v with handle := some k } :: s.others name) :
    Tells (past.map (.makeWay name) ++ [⟨k, t.get? name⟩]) t := by
  subst hv
  have hmem : { v with handle := some k } ∈ t.toList := hlist ▸ List.mem_cons_self
  have hget : t.get? v.name = some { v with handle := some k } :=
    ht.registry.get?_eq_some_iff.mpr ⟨hmem, Text.sameName_self _⟩
  have hmakeWay : ∀ b ∈ past.map (Birth.makeWay v.name), ∀ w, b.now = some w →
      w.handle = some b.handle := by
    intro b hb w hw
    obtain ⟨c, hc, rfl⟩ := List.mem_map.mp hb
    exact h.own c hc w (Option.eq_some_of_filter_eq_some hw)
  rw [hget]
  refine ⟨ht, ?_, ?_, ?_, ?_⟩
  · rw [hlist, Birth.live_concat, Birth.live_makeWay, List.reverse_append, others, h.toList,
      List.filter_reverse]
    rfl
  · rw [List.map_append, List.map_map, List.length_append, List.length_map, List.length_singleton,
      List.range_succ, List.map_append, ← h.handles, hk, h.next]
    rfl
  · rw [hnext, h.next, List.length_append, List.length_map, List.length_singleton]
  · intro b hb w hw
    rcases List.mem_append.mp hb with hb | hb
    · exact hmakeWay b hb w hw
    · obtain rfl := List.mem_singleton.mp hb
      obtain rfl := Option.some.inj hw
      rfl

theorem Tells.modify (h : Tells past s) (name : String) {f : Variable → Variable}
    (hname : ∀ v, (f v).name = v.name) (hhandle : ∀ v, (f v).handle = v.handle) :
    Tells (past.map (.change name f)) { s with registry := s.registry.modify name f } := by
  refine h.map (g := .change name f) (h.sound.modify hname) rfl (fun _ => rfl) ?_ fun b _ v hv => ?_
  · show (s.registry.modify name f).entries = _
    rw [Birth.live_change, ← List.map_reverse, ← h.toList, h.sound.registry.modify_eq]
    rfl
  · obtain ⟨u, hu, rfl⟩ := Option.map_eq_some_iff.mp hv
    refine ⟨u, hu, ?_⟩
    unfold Registry.onName
    split
    · exact hhandle u
    · rfl

/-- The next handle is not that of a birth. -/
theorem Tells.handle_ne (h : Tells past s) {b : Birth} (hb : b ∈ past) :
    b.handle ≠ ⟨past.length⟩ := by
  intro heq
  have hmem := List.mem_map_of_mem (f := (·.handle)) hb
  rw [h.handles, heq] at hmem
  obtain ⟨n, hn, hnumber⟩ := List.mem_map.mp hmem
  rw [Handle.mk.inj hnumber] at hn
  exact Nat.lt_irrefl _ (List.mem_range.mp hn)

theorem Tells.nodup_handles (h : Tells past s) : (past.map (·.handle)).Nodup := by
  rw [h.handles]
  exact List.nodup_range.map fun m n hmn => Handle.mk.inj hmn

theorem Tells.eq_of_handle (h : Tells past s) {b c : Birth} (hb : b ∈ past) (hc : c ∈ past)
    (hbc : b.handle = c.handle) : b = c :=
  List.inj_on_of_nodup_map h.nodup_handles hb hc hbc

/-- Nobody makes way for a free name. -/
theorem Tells.map_makeWay (h : Tells past s) {name : String} (hfree : s.contains name = false) :
    past.map (.makeWay name) = past := by
  refine (List.map_congr_left fun b hb => ?_).trans (List.map_id past)
  obtain ⟨k, now⟩ := b
  cases now with
  | none => rfl
  | some v =>
    have hdiff : Text.sameName v.name name = false := Bool.eq_false_iff.mpr fun hsame =>
      Bool.eq_false_iff.mp hfree (h.sound.contains_iff.mpr ⟨v, h.mem_iff.mpr ⟨_, hb, rfl⟩, hsame⟩)
    rw [Birth.makeWay, Option.filter_some, hdiff]
    rfl

/-- No two variables carry the same handle. -/
theorem Tells.nodup (h : Tells past s) : (s.toList.map (·.handle)).Nodup := by
  have hall : (past.map fun b => some b.handle).Nodup := by
    rw [← Function.comp_def some, ← List.map_map]
    exact h.nodup_handles.map fun _ _ => Option.some.inj
  rw [h.toList, List.map_reverse, List.nodup_reverse]
  exact hall.sublist (Birth.map_handle_live h.own)

/-- A handle leaves out just the variable that carries it. -/
theorem Tells.filter_eq_erase (h : Tells past s) {b : Birth} (hb : b ∈ past) {v : Variable}
    (hv : b.now = some v) :
    (s.toList.filter fun w => !(w.handle == some b.handle)) = s.toList.erase v := by
  have hmem : v ∈ s.toList := h.mem_iff.mpr ⟨b, hb, hv⟩
  rw [h.nodup.of_map.erase_eq_filter]
  refine List.filter_congr fun w hw => ?_
  rw [← h.own b hb v hv, bne, Bool.not_inj_iff, Bool.eq_iff_iff, beq_iff_eq, beq_iff_eq]
  exact ⟨List.inj_on_of_nodup_map h.nodup hw hmem, congrArg _⟩

/-- **The handle of a variable that is there takes out this variable.** -/
theorem Tells.unregister_eq_some (h : Tells past s) {b : Birth} (hb : b ∈ past) {v : Variable}
    (hv : b.now = some v) : ∃ t, s.unregister b.handle = some (v, t) ∧ t.Sound ∧
      t.nextHandle = s.nextHandle ∧ t.toList = s.toList.filter fun w => !(w.handle == some b.handle) := by
  have hone : s.registry.entries.Pairwise fun x y =>
      (x.handle == some b.handle) = true → (y.handle == some b.handle) = false := by
    refine (List.pairwise_map.mp h.nodup).imp fun hdiff hx => ?_
    rw [beq_iff_eq] at hx
    rw [beq_eq_false_iff_ne, ← hx]
    exact hdiff.symm
  obtain ⟨r, hr, hentries⟩ := Registry.removeWhere?_eq_some hone (h.mem_iff.mpr ⟨b, hb, hv⟩)
    (by rw [h.own b hb v hv, beq_self_eq_true])
  have hunregister : s.unregister b.handle = some (v, { s with registry := r }) := by
    rw [unregister, hr]
    rfl
  exact ⟨_, hunregister, (h.sound.unregister hunregister).1, rfl, hentries⟩

/-- **A handle of no variable that is there takes out nothing.** -/
theorem Tells.unregister_eq_none (h : Tells past s) {k : Handle}
    (hno : ∀ b ∈ past, b.handle = k → b.now = none) : s.unregister k = none := by
  have hnone : ∀ v ∈ s.registry.entries, (v.handle == some k) = false := by
    intro v hv
    obtain ⟨b, hb, hbv⟩ := h.mem_iff.mp hv
    rw [h.own b hb v hbv, beq_eq_false_iff_ne]
    intro hk
    rw [hno b hb (Option.some.inj hk)] at hbv
    cases hbv
  rw [unregister, Registry.removeWhere?_eq_none hnone]
  rfl

theorem Tells.leave (h : Tells past s) (k : Handle) :
    Tells (past.map (.leave k)) ((Call.unregister k).run s) := by
  have hlive := Birth.live_leave h.own k
  have hstays : ∀ b ∈ past, ∀ v, (Birth.leave k b).now = some v → ∃ u, b.now = some u ∧
      v.handle = u.handle := by
    intro b _ v hv
    unfold Birth.leave at hv
    split at hv
    · cases hv
    · exact ⟨v, hv, rfl⟩
  by_cases hthere : ∃ b ∈ past, b.handle = k ∧ b.now ≠ none
  · obtain ⟨b, hb, rfl, hnow⟩ := hthere
    obtain ⟨v, hv⟩ := Option.ne_none_iff_exists'.mp hnow
    obtain ⟨t, ht, hsound, hnext, hlist⟩ := h.unregister_eq_some hb hv
    rw [Call.run, ht]
    refine h.map hsound hnext (Birth.handle_leave _) ?_ hstays
    show t.toList = _
    rw [hlist, hlive, h.toList, List.filter_reverse]
  · have hno : ∀ b ∈ past, b.handle = k → b.now = none := fun b hb hk =>
      Classical.byContradiction fun hnow => hthere ⟨b, hb, hk, hnow⟩
    rw [Call.run, h.unregister_eq_none hno]
    refine h.map h.sound rfl (Birth.handle_leave _) ?_ hstays
    show s.toList = _
    rw [hlive, List.filter_eq_self.mpr, h.toList]
    intro v hv
    obtain ⟨b, hb, hbv⟩ := List.mem_filterMap.mp hv
    rw [h.own b hb v hbv, Bool.not_eq_true', beq_eq_false_iff_ne]
    intro hk
    rw [hno b hb (Option.some.inj hk)] at hbv
    cases hbv

/-- **After every call the births tell what the store holds.** -/
theorem Tells.call (h : Tells past s) (k : Call) : Tells (k.note s past) (k.run s) := by
  cases k with
  | register v =>
    rcases h.sound.register_cases v with ⟨-, r, hr, hregistered⟩ | ⟨-, e, he⟩
    · simp only [Call.note, Call.run, hr]
      exact h.bring (h.sound.register hr) hregistered.next (v.name_inPlaceOf _) hregistered.handle
        hregistered.toList
    · simp only [Call.note, Call.run, he]
      exact h
  | create name value flags =>
    cases hcreate : s.create name value flags with
    | error e =>
      simp only [Call.note, Call.run, hcreate]
      exact h
    | ok t =>
      simp only [Call.note, Call.run, hcreate]
      rcases create_eq_ok hcreate with hset | ⟨-, hfree, rfl⟩
      · rw [if_pos (contains_of_set? hset), set?_eq_some hset]
        exact h.modify name (fun _ => rfl) fun _ => rfl
      · obtain ⟨v, hv⟩ : ∃ v, v = Variable.ofValue name value (flags.union (.single .temp)) :=
          ⟨_, rfl⟩
        rw [← hv] at hcreate ⊢
        have hlist : (s.add v).store.toList =
            { v with handle := some ⟨s.nextHandle⟩ } :: s.others name := by
          rw [toList_add, h.sound.others_of_free hfree]
        have hbring := h.bring (h.sound.create hcreate) rfl (by rw [hv]; rfl) rfl hlist
        rw [h.map_makeWay hfree] at hbring
        rw [hfree]
        exact hbring
  | unregister k => exact h.leave k
  | set name value =>
    rw [Call.run, set?_getD]
    exact h.modify name (fun _ => rfl) fun _ => rfl
  | reset name =>
    rw [Call.run, reset?_getD]
    exact h.modify name (fun _ => rfl) fun _ => rfl

end Tells

/-- **Along any calls the births tell what the store holds.** -/
theorem tells_after (calls : List Call) : Tells (after calls).2 (after calls).1 := by
  have hrun : ∀ (calls : List Call) {s : Variables} {past : List Birth}, Tells past s →
      Tells (calls.foldl (fun (s, past) k => (k.run s, k.note s past)) (s, past)).2
        (calls.foldl (fun (s, past) k => (k.run s, k.note s past)) (s, past)).1 := by
    intro calls
    induction calls with
    | nil => exact id
    | cons k calls ih => exact fun h => ih (h.call k)
  exact hrun calls tells_empty

/-! ### Identity -/

/-- A variable is registered over a temporary one. -/
structure Claimed (s : Variables) (old v : Variable) (r : Registration) (w : Variable) : Prop where
  get? : r.store.get? v.name = some w
  /-- There are as many variables as before, the others the same. -/
  length : r.store.toList.length = s.toList.length
  others : r.store.others v.name = s.others v.name
  name : w.name = v.name
  handle : w.handle = some r.handle
  views : w.views = if v.flags.has .system then v.views else old.views
  default : w.default = v.default
  flags : w.flags = v.flags
  description : w.description = v.description
  /-- A new system variable has the value of its default. -/
  fresh : ∀ value, v = .ofValue v.name value v.flags v.description → v.flags.has .system = true →
    w.views = value.views ∧ w.default = value.views.string

/-- The store is accepted to have the valid name of a variable that it has. -/
theorem Sound.accepts_of_temp (hs : s.Sound) {v old : Variable} (hold : s.get? v.name = some old)
    (htemp : old.flags.has .temp = true) : s.Accepts v where
  isName := by
    obtain ⟨hmem, hsame⟩ := hs.registry.get?_eq_some_iff.mp hold
    rw [← isName_congr hsame]
    exact hs.isName old hmem
  temp other hother := by
    obtain rfl := Option.some.inj (hold.symm.trans hother)
    exact htemp

/-- **A temporary variable makes way for a registration**, which takes over its value. -/
theorem Sound.claim (hs : s.Sound) {v old : Variable} (hold : s.get? v.name = some old)
    (htemp : old.flags.has .temp = true) :
    ∃ r w, s.register v = .ok r ∧ Claimed s old v r w := by
  rcases hs.register_cases v with ⟨-, r, hr, hregistered⟩ | ⟨hno, -⟩
  · obtain ⟨w, hw⟩ : ∃ w, w = { v.inPlaceOf (some old) with handle := some r.handle } := ⟨_, rfl⟩
    have hlist : r.store.toList = w :: s.others v.name := by rw [hregistered.toList, hold, hw]
    have hname : w.name = v.name := by rw [hw]; exact v.name_inPlaceOf _
    have hsame : Text.sameName w.name v.name = true := by rw [hname]; exact Text.sameName_self _
    have hmem : w ∈ r.store.toList := hlist ▸ List.mem_cons_self
    refine ⟨r, w, hr, (hs.register hr).registry.get?_eq_some_iff.mpr ⟨hmem, hsame⟩, ?_, ?_, hname,
      by rw [hw], ?_, ?_, ?_, ?_, ?_⟩
    · rw [hlist, List.length_cons, hs.length_others hold]
    · rw [Variables.others, hlist, List.filter_cons_of_neg (by simp [hsame]), Variables.others,
        List.filter_filter]
      simp
    · rw [hw, Variable.inPlaceOf]
      split <;> rfl
    · rw [hw, Variable.inPlaceOf]
      split <;> rfl
    · rw [hw, Variable.inPlaceOf]
      split <;> rfl
    · rw [hw, Variable.inPlaceOf]
      split <;> rfl
    · intro value hfresh hsystem
      rw [hw, Variable.inPlaceOf, if_pos hsystem, hfresh]
      exact ⟨rfl, rfl⟩
  · exact absurd (hs.accepts_of_temp hold htemp) hno

/-- Handles identify the variables that were born. -/
structure Identified (s : Variables) (past : List Birth) : Prop where
  /-- The store holds the variables that have not gone, newest first. -/
  toList : s.toList = (Birth.live past).reverse
  /-- The handles count all variables that were ever born. -/
  handles : past.map (·.handle) = (List.range past.length).map Handle.mk
  /-- A variable carries the handle that it was born with. -/
  own : ∀ b ∈ past, ∀ v, b.now = some v → v.handle = some b.handle
  /-- A registration brings in the variable under the next handle. -/
  registered : ∀ v r, s.register v = .ok r → Registered s v r
  /-- This is a handle that no variable ever had. -/
  fresh : ∀ v r, s.register v = .ok r → ∀ b ∈ past, b.handle ≠ r.handle
  /-- Only a temporary variable makes way for a registration. -/
  makesWay : ∀ v r, s.register v = .ok r → ∀ b ∈ past, ∀ old, b.now = some old →
    Text.sameName old.name v.name = true → old.flags.has .temp = true
  /-- The handle of a variable that is there takes out this variable and no other. -/
  unregister : ∀ b ∈ past, ∀ v, b.now = some v → ∃ t, s.unregister b.handle = some (v, t) ∧
    t.nextHandle = s.nextHandle ∧ t.toList = s.toList.erase v
  /-- The handle of a variable that has gone takes out nothing, whoever has its name now. -/
  gone : ∀ b ∈ past, b.now = none →
    s.unregister b.handle = none ∧ (Call.unregister b.handle).run s = s
  /-- A registration over a temporary variable takes its place. -/
  claim : ∀ v old, s.get? v.name = some old → old.flags.has .temp = true →
    ∃ r w, s.register v = .ok r ∧ Claimed s old v r w

/-- Handles identify what births tell of. -/
theorem Tells.identified (h : Tells past s) : Identified s past := by
  have hregister : ∀ v r, s.register v = .ok r → s.Accepts v ∧ Registered s v r := by
    intro v r hr
    rcases h.sound.register_cases v with ⟨haccepts, r', hr', hregistered⟩ | ⟨-, e, he⟩
    · obtain rfl := Except.ok.inj (hr.symm.trans hr')
      exact ⟨haccepts, hregistered⟩
    · cases hr.symm.trans he
  refine ⟨h.toList, h.handles, h.own, fun v r hr => (hregister v r hr).2, fun v r hr b hb => ?_,
    fun v r hr b hb old hold hsame => ?_, fun b hb v hv => ?_, fun b hb hgone => ?_,
    fun v old hold htemp => h.sound.claim hold htemp⟩
  · rw [(hregister v r hr).2.handle, h.next]
    exact h.handle_ne hb
  · refine (hregister v r hr).1.temp old (h.sound.registry.get?_eq_some_iff.mpr ⟨?_, hsame⟩)
    exact h.mem_iff.mpr ⟨b, hb, hold⟩
  · obtain ⟨t, ht, -, hnext, hlist⟩ := h.unregister_eq_some hb hv
    exact ⟨t, ht, hnext, hlist.trans (h.filter_eq_erase hb hv)⟩
  · have hnone : s.unregister b.handle = none := by
      refine h.unregister_eq_none fun c hc hsame => ?_
      rw [h.eq_of_handle hc hb hsame]
      exact hgone
    exact ⟨hnone, by rw [Call.run, hnone]; rfl⟩

/-- **Handles identify registrations**, along any calls on a store. -/
theorem handles_identify (calls : List Call) : Identified (after calls).1 (after calls).2 :=
  (tells_after calls).identified

/-- A variable made on the spot makes way for one in another spelling, which its handle leaves alone. -/
example : ((after [.create "Fov" (.int 90) .empty, .register (.ofValue "fov" (.int 75)),
    .unregister ⟨0⟩]).1.toList.map fun v => (v.name, v.views.string, v.default, v.handle)) =
      [("fov", "90", "75", some ⟨1⟩)] := by decide +kernel

end Variables

end DevConsole
