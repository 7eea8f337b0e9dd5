import DevConsole.Config.Assignments
import DevConsole.Proofs.Table.Variables

/-!
# Loading pairs of tokens

A config text whose tokens are pairs of a name and a value, where some names may be unknown. Reading
goes token by token, so the value of an unknown name is itself tried as a name. If none of these
values is a name, but for the last pair, reading gives each variable the value of the last pair with
its name, counts the pairs with known names, and changes nothing else (`load_pairs`).
-/

namespace DevConsole.Config

/-- The value of the last pair with the name. -/
def lastValue (pairs : List (String × String)) (name : String) : Option String :=
  ((pairs.filter fun p => Text.sameName name p.1).getLast?).map Prod.snd

/-- The variable with the value of the last pair with its name, if there is one. -/
def valued (pairs : List (String × String)) (v : Variable) : Variable :=
  match lastValue pairs v.name with
  | some value => v.set (.text value)
  | none => v

/-- The values of unknown names are no names, but for the last pair. -/
def Readable (s : Variables) (pairs : List (String × String)) : Prop :=
  ∀ p ∈ pairs.dropLast, s.contains p.1 = false → s.contains p.2 = false

theorem lastValue_cons (p : String × String) (pairs : List (String × String)) (name : String) :
    lastValue (p :: pairs) name =
      (lastValue pairs name).or (if Text.sameName name p.1 then some p.2 else none) := by
  unfold lastValue
  rw [List.filter_cons]
  by_cases hp : Text.sameName name p.1 = true
  · rw [if_pos hp, if_pos hp, List.getLast?_cons]
    cases (pairs.filter fun p => Text.sameName name p.1).getLast? <;> rfl
  · rw [if_neg hp, if_neg hp, Option.or_none]

theorem lastValue_eq_none {pairs : List (String × String)} {name : String}
    (h : ∀ p ∈ pairs, Text.sameName name p.1 = false) : lastValue pairs name = none := by
  have hnone : (pairs.filter fun p => Text.sameName name p.1) = [] :=
    List.filter_eq_nil_iff.mpr fun p hp => by simp [h p hp]
  rw [lastValue, hnone]
  rfl

/-- If all pairs with a name have one value, this is the value of the last one. -/
theorem lastValue_eq_some {pairs : List (String × String)} {name value : String}
    (hsome : ∃ p ∈ pairs, Text.sameName name p.1 = true)
    (hvalue : ∀ p ∈ pairs, Text.sameName name p.1 = true → p.2 = value) :
    lastValue pairs name = some value := by
  obtain ⟨p, hp, hname⟩ := hsome
  have hmem : p ∈ pairs.filter fun p => Text.sameName name p.1 := List.mem_filter.mpr ⟨hp, hname⟩
  have hlast := List.getLast?_eq_some_getLast (List.ne_nil_of_mem hmem)
  obtain ⟨hq, hqname⟩ := List.mem_filter.mp (List.getLast_mem (List.ne_nil_of_mem hmem))
  rw [lastValue, hlast, Option.map_some, hvalue _ hq hqname]

theorem valued_cons (p : String × String) (pairs : List (String × String)) (v : Variable) :
    valued (p :: pairs) v = valued pairs (Registry.onName p.1 (·.set (.text p.2)) v) := by
  unfold valued
  rw [lastValue_cons]
  unfold Registry.onName
  by_cases hp : Text.sameName v.name p.1 = true
  · have hp' : Text.sameName (Named.name v) p.1 = true := hp
    rw [if_pos hp, if_pos hp']
    show _ = match lastValue pairs v.name with
      | some value => (v.set (.text p.2)).set (.text value)
      | none => v.set (.text p.2)
    cases lastValue pairs v.name <;> rfl
  · have hp' : ¬ Text.sameName (Named.name v) p.1 = true := hp
    rw [if_neg hp, if_neg hp', Option.or_none]

theorem valued_cons_unknown {s : Variables} (hs : s.Sound) {p : String × String}
    (hp : s.contains p.1 = false) (pairs : List (String × String)) :
    s.toList.map (valued (p :: pairs)) = s.toList.map (valued pairs) := by
  refine List.map_congr_left fun v hv => ?_
  have hdiff : ¬ Text.sameName v.name p.1 = true := fun hsame =>
    Bool.eq_false_iff.mp hp (hs.contains_iff.mpr ⟨v, hv, hsame⟩)
  rw [valued_cons]
  exact congrArg (valued pairs) (if_neg hdiff)

/-- The store after a load, from the store before and the pairs. -/
structure Assigned (s : Variables) (pairs : List (String × String)) (s' : Variables) : Prop where
  /-- The variables, in their order, with the values of their last pairs. -/
  toList : s'.toList = s.toList.map (valued pairs)
  /-- The names are those that were there. -/
  contains : ∀ name, s'.contains name = s.contains name
  nextHandle : s'.nextHandle = s.nextHandle

theorem Assigned.nil (s : Variables) : Assigned s [] s :=
  ⟨(List.map_id _).symm, fun _ => rfl, rfl⟩

/-- A pair of an unknown name assigns nothing. -/
theorem Assigned.cons_unknown {s s' : Variables} (hs : s.Sound) {name : String}
    (hname : s.contains name = false) {pairs : List (String × String)} (h : Assigned s pairs s')
    (value : String) : Assigned s ((name, value) :: pairs) s' :=
  have hsame := valued_cons_unknown hs (p := (name, value)) hname pairs
  ⟨h.toList.trans hsame.symm, h.contains, h.nextHandle⟩

theorem Readable.tail {s : Variables} {p : String × String} {pairs : List (String × String)}
    (h : Readable s (p :: pairs)) : Readable s pairs := by
  intro q hq
  refine h q ?_
  cases pairs with
  | nil => cases hq
  | cons r pairs => exact List.mem_cons_of_mem p hq

theorem readable_of_known {s : Variables} {pairs : List (String × String)}
    (h : ∀ p ∈ pairs, s.contains p.1 = true) : Readable s pairs := by
  intro p hp hno
  rw [h p ((List.dropLast_sublist _).mem hp)] at hno
  cases hno

/-! ### Reading -/

section Reading
variable {s : Variables} {n : Nat} {skipped : List String} {t : Token}

theorem assign_known {s' : Variables} {v : Token} (h : s.contains t.text = true)
    (hset : s.set? t.text (.text v.text) = some s') (ts : List Token) :
    assign ⟨n, s, skipped⟩ (t :: v :: ts) = assign ⟨n + 1, s', skipped⟩ ts := by
  rw [assign, if_pos h, hset]
  rfl

theorem assign_unknown (h : s.contains t.text = false) (ts : List Token) :
    assign ⟨n, s, skipped⟩ (t :: ts) = assign ⟨n, s, skipped ++ [t.text]⟩ ts := by
  cases ts <;> simp [assign, h]

/-- A last token assigns nothing, whether it is a name or not. -/
theorem assign_last :
    (assign ⟨n, s, skipped⟩ [t]).count = n ∧ (assign ⟨n, s, skipped⟩ [t]).store = s := by
  cases h : s.contains t.text with
  | true => simp [assign, h]
  | false => simp [assign, h]

end Reading

/-- What every assignment of a token's value keeps holds after reading. -/
theorem assign_preserves {P : Variables → Prop} {l : Loaded} {ts : List Token}
    (hset : ∀ (s s' : Variables) (value : Value), ∀ t ∈ ts, P s →
      s.set? t.text value = some s' → P s') (h : P l.store) : P (assign l ts).store := by
  fun_induction assign l ts with
  | case1 l => exact h
  | case2 l t hname => exact h
  | case3 l t hname v ts ih =>
    refine ih (fun s s' value u hu => hset s s' value u (List.mem_cons_of_mem t
      (List.mem_cons_of_mem v hu))) ?_
    cases hs : l.store.set? t.text (.text v.text) with
    | none => exact h
    | some s' => exact hset _ _ _ t List.mem_cons_self h hs
  | case4 l t ts hname ih =>
    exact ih (fun s s' value u hu => hset s s' value u (List.mem_cons_of_mem t hu)) h

/-- **Reading pairs assigns them.** -/
theorem assign_pairs {pairs : List (String × String)} {s : Variables} {n : Nat}
    {skipped : List String} {ts : List Token} (hs : s.Sound) (hread : Readable s pairs)
    (hts : ts.map (·.text) = pairs.flatMap fun p => [p.1, p.2]) :
    (assign ⟨n, s, skipped⟩ ts).count = n + (pairs.filter fun p => s.contains p.1).length ∧
      Assigned s pairs (assign ⟨n, s, skipped⟩ ts).store := by
  induction pairs generalizing s n skipped ts with
  | nil =>
    obtain rfl : ts = [] := List.map_eq_nil_iff.mp hts
    exact ⟨rfl, .nil s⟩
  | cons p pairs ih =>
    obtain ⟨name, value⟩ := p
    obtain ⟨t, rest, rfl, rfl, hrest⟩ := List.map_eq_cons_iff.mp hts
    obtain ⟨v, rest, rfl, rfl, hpairs⟩ := List.map_eq_cons_iff.mp hrest
    rw [List.filter_cons]
    cases hname : s.contains t.text with
    | true =>
      obtain ⟨s', hset, hs', hhandle, hcontains, hlist⟩ := hs.set?_eq hname (.text v.text)
      have hread' : Readable s' pairs := by
        intro p hp hno
        rw [hcontains] at hno ⊢
        exact hread.tail p hp hno
      obtain ⟨hcount, hassigned⟩ := ih (n := n + 1) hs' hread' hpairs
      rw [assign_known hname hset]
      refine ⟨?_, ?_, fun n => (hassigned.contains n).trans (hcontains n),
        hassigned.nextHandle.trans hhandle⟩
      · rw [hcount, if_pos rfl, List.length_cons]
        simp only [hcontains]
        omega
      · rw [hassigned.toList, hlist, List.map_map]
        exact List.map_congr_left fun w _ => (valued_cons (t.text, v.text) pairs w).symm
    | false =>
      rw [assign_unknown hname, if_neg (by simp)]
      cases pairs with
      | nil =>
        -- the value of the last pair has nothing after it
        obtain rfl : rest = [] := List.map_eq_nil_iff.mp hpairs
        obtain ⟨hcount, hstore⟩ := assign_last (s := s) (n := n) (t := v)
        rw [hstore]
        exact ⟨hcount, .cons_unknown hs hname (.nil s) v.text⟩
      | cons q pairs =>
        have hmem : (t.text, v.text) ∈ ((t.text, v.text) :: q :: pairs).dropLast := by
          rw [List.dropLast_cons_cons]
          exact List.mem_cons_self
        have hvalue : s.contains v.text = false := hread (t.text, v.text) hmem hname
        rw [assign_unknown hvalue]
        obtain ⟨hcount, hassigned⟩ := ih hs hread.tail hpairs
        exact ⟨hcount, hassigned.cons_unknown hs hname v.text⟩

theorem read_pairs {pairs : List (String × String)} {s : Variables} {ts : List Token}
    (hs : s.Sound) (hread : Readable s pairs)
    (hts : ts.map (·.text) = pairs.flatMap fun p => [p.1, p.2]) :
    (assign { store := s } ts).count = (pairs.filter fun p => s.contains p.1).length ∧
      Assigned s pairs (assign { store := s } ts).store := by
  obtain ⟨hcount, hassigned⟩ := assign_pairs (n := 0) hs hread hts
  exact ⟨hcount.trans (Nat.zero_add _), hassigned⟩

/-- **Loading pairs of names and values gives each variable the value of its last pair**, counts the
pairs whose names are known, and changes nothing else, if no value of an unknown name, but for the
last value of all, is itself a name. -/
theorem load_pairs (s : Variables) (hs : s.Reachable) (text path : String) (ts : List Token)
    (htokens : tokens text = .ok ts) (pairs : List (String × String))
    (hts : ts.map (·.text) = pairs.flatMap fun p => [p.1, p.2]) (hread : Readable s pairs) :
    ∃ l, load s text path = .ok l ∧
      l.count = (pairs.filter fun p => s.contains p.1).length ∧ Assigned s pairs l.store := by
  obtain ⟨hcount, hassigned⟩ := read_pairs hs.sound hread hts
  exact ⟨assign { store := s } ts, by rw [load, htokens], hcount, hassigned⟩

/-- A store with one variable. -/
def gravity : Variables := (Variables.empty.add (.ofValue "sv_gravity" (.text "800"))).store

theorem reachable_gravity : gravity.Reachable :=
  .register (v := .ofValue "sv_gravity" (.text "800"))
    (r := Variables.empty.add (.ofValue "sv_gravity" (.text "800"))) .empty rfl

theorem load_pairs_gravity : ∃ l, load gravity "unknown 5\nsv_gravity 100" "f" = .ok l ∧
    l.count = 1 ∧ l.store.toList.map (·.views.string) = ["100"] := by
  have htokens : tokens "unknown 5\nsv_gravity 100" =
      .ok [⟨"unknown", 1⟩, ⟨"5", 1⟩, ⟨"sv_gravity", 2⟩, ⟨"100", 2⟩] := by decide +kernel
  have hread : Readable gravity [("unknown", "5"), ("sv_gravity", "100")] := by
    unfold Readable
    decide +kernel
  obtain ⟨l, hl, hcount, hassigned⟩ :=
    load_pairs gravity reachable_gravity _ "f" _ htokens _ rfl hread
  refine ⟨l, hl, hcount.trans (by decide +kernel), ?_⟩
  rw [hassigned.toList]
  decide +kernel

/-- The value of an unknown name may itself be a name, and then takes what follows as its value. -/
theorem load_pairs_unreadable :
    ¬ ∀ (s : Variables), s.Reachable → ∀ (text path : String) (ts : List Token),
      tokens text = .ok ts → ∀ pairs : List (String × String),
      (ts.map (·.text) = pairs.flatMap fun p => [p.1, p.2]) →
      ∃ l, load s text path = .ok l ∧
        l.count = (pairs.filter fun p => s.contains p.1).length ∧ Assigned s pairs l.store := by
  intro hall
  have htokens : tokens "unknown sv_gravity\nsv_gravity 100" =
      .ok [⟨"unknown", 1⟩, ⟨"sv_gravity", 1⟩, ⟨"sv_gravity", 2⟩, ⟨"100", 2⟩] := by decide +kernel
  obtain ⟨l, hl, -, hassigned⟩ := hall gravity reachable_gravity _ "f" _ htokens
    [("unknown", "sv_gravity"), ("sv_gravity", "100")] rfl
  have hload : (match load gravity "unknown sv_gravity\nsv_gravity 100" "f" with
    | .ok l => l.store.toList.map (·.views.string)
    | .error _ => []) = ["sv_gravity"] := by decide +kernel
  rw [hl] at hload
  have hstrings : l.store.toList.map (·.views.string) = ["sv_gravity"] := hload
  rw [hassigned.toList] at hstrings
  revert hstrings
  decide +kernel

end DevConsole.Config
