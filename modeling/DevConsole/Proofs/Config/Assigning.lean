import DevConsole.Config.Assignments
import DevConsole.Proofs.Table.Names
import Mathlib.Data.List.Forall2

/-!
# Loading only assigns

Reading tokens is a run of assignments (`assignAll_pairs`): each takes a token that names a variable
and the token behind it, and none takes a token that another one has taken. An assignment gives one
variable new views and leaves names, order, flags, defaults, descriptions and handles, so reading
tokens does no more than this (`onlyAssigns_assign`), whatever the tokens and the store are.
-/

namespace DevConsole.Config

/-- The neighbouring tokens that are read as a name and its value, where `known` tells the names. -/
def pairs (known : String → Bool) : List Token → List (Token × Token)
  | [] => []
  | t :: ts =>
    if known t.text then
      match ts with
      | [] => []
      | v :: ts => (t, v) :: pairs known ts
    else pairs known ts

/-- Gives the variables that the first tokens name the values of the second ones, pair by pair; each
of them has to be there. -/
def assignAll (s : Variables) (made : List (Token × Token)) : Option Variables :=
  made.foldlM (fun s p => s.set? p.1.text (.text p.2.text)) s

/-- The variable after tokens were read: its views are unchanged or those of a token that stands
right behind its name. -/
def Kept (ts : List Token) (v w : Variable) : Prop :=
  w = { v with views := w.views } ∧
    (w.views = v.views ∨ ∃ t u, [t, u] <:+: ts ∧ Text.sameName v.name t.text = true ∧
      w.views = (Value.text u.text).views)

/-- What reading tokens does to a store, with the number that it answers. -/
structure OnlyAssigns (s : Variables) (ts : List Token) (n : Nat) (s' : Variables) : Prop where
  /-- The variables are the same in the same order, but for their views. -/
  toList : List.Forall₂ (Kept ts) s.toList s'.toList
  /-- The names are those that were filed before, as they were spelt. -/
  names : s'.registry.names = s.registry.names
  nextHandle : s'.nextHandle = s.nextHandle
  /-- The answer is the number of assignments. Each of them is made from two neighbouring tokens, and
  they stand in the text one behind the other. -/
  made : ∃ made, assignAll s made = some s' ∧ made.length = n ∧
    (∀ p ∈ made, [p.1, p.2] <:+: ts) ∧ (made.flatMap fun p => [p.1, p.2]).Sublist ts
  /-- No more than half of the tokens are values. -/
  count : 2 * n ≤ ts.length

/-! ### The pairs -/

section Pairs
variable {known : String → Bool}

theorem pairs_known {t : Token} (h : known t.text = true) (v : Token) (ts : List Token) :
    pairs known (t :: v :: ts) = (t, v) :: pairs known ts := by
  rw [pairs.eq_def]
  exact if_pos h

theorem pairs_unknown {t : Token} (h : ¬ known t.text = true) (ts : List Token) :
    pairs known (t :: ts) = pairs known ts := by
  rw [pairs.eq_def]
  exact if_neg h

/-- The tokens of the pairs stand one behind the other. -/
theorem pairs_sublist (ts : List Token) :
    ((pairs known ts).flatMap fun p => [p.1, p.2]).Sublist ts := by
  fun_induction pairs known ts with
  | case1 => exact .refl _
  | case2 t hname => exact List.nil_sublist _
  | case3 t hname v ts ih => exact (ih.cons_cons v).cons_cons t
  | case4 t ts hname ih => exact ih.cons t

/-- The tokens of a pair are neighbours. -/
theorem infix_of_mem_pairs {ts : List Token} {p : Token × Token} (h : p ∈ pairs known ts) :
    [p.1, p.2] <:+: ts := by
  fun_induction pairs known ts with
  | case1 => cases h
  | case2 t hname => cases h
  | case3 t hname v ts ih =>
    rcases List.mem_cons.mp h with rfl | h
    · exact ⟨[], ts, rfl⟩
    · exact List.infix_cons (List.infix_cons (ih h))
  | case4 t ts hname ih => exact List.infix_cons (ih h)

theorem length_pairs (ts : List Token) : 2 * (pairs known ts).length ≤ ts.length := by
  fun_induction pairs known ts with
  | case1 => exact Nat.le_refl _
  | case2 t hname => exact Nat.zero_le _
  | case3 t hname v ts ih =>
    simp only [List.length_cons]
    omega
  | case4 t ts hname ih => exact Nat.le_succ_of_le ih

end Pairs

/-! ### Runs of assignments -/

theorem assignAll_cons {s s' : Variables} {p : Token × Token}
    (h : s.set? p.1.text (.text p.2.text) = some s') (made : List (Token × Token)) :
    assignAll s (p :: made) = assignAll s' made := by
  rw [assignAll, List.foldlM_cons, h]
  rfl

/-- **Reading tokens makes the assignments of the pairs**, and each of them succeeds. -/
theorem assignAll_pairs (l : Loaded) (ts : List Token) :
    assignAll l.store (pairs l.store.contains ts) = some (assign l ts).store ∧
      (assign l ts).count = l.count + (pairs l.store.contains ts).length := by
  fun_induction assign l ts with
  | case1 l => exact ⟨rfl, rfl⟩
  | case2 l t hname =>
    have hnone : pairs l.store.contains [t] = [] := by
      rw [pairs.eq_def]
      exact if_pos hname
    rw [hnone]
    exact ⟨rfl, rfl⟩
  | case3 l t hname v ts ih =>
    obtain ⟨s, hset⟩ : ∃ s, l.store.set? t.text (.text v.text) = some s := ⟨_, if_pos hname⟩
    -- the rest is read by the names that the assignment leaves, and these are the same
    have hcontains : s.contains = l.store.contains := funext (Variables.contains_set? hset)
    simp only [hset, Option.getD_some, hcontains] at ih ⊢
    rw [pairs_known hname, assignAll_cons (p := (t, v)) hset, List.length_cons]
    exact ⟨ih.1, by rw [ih.2, Nat.add_right_comm, Nat.add_assoc]⟩
  | case4 l t ts hname ih =>
    rw [pairs_unknown hname]
    exact ih

section Assignments
variable {ts : List Token} {s s' : Variables}

theorem Kept.refl (v : Variable) : Kept ts v v := ⟨rfl, .inl rfl⟩

theorem Kept.trans {u v w : Variable} (h : Kept ts u v) (h' : Kept ts v w) : Kept ts u w := by
  have hname : v.name = u.name := by rw [h.1]
  refine ⟨h'.1.trans (by rw [h.1]), ?_⟩
  rcases h'.2 with heq | ⟨t, x, hnear, hsame, hviews⟩
  · rw [heq]
    exact h.2
  · exact .inr ⟨t, x, hnear, hname ▸ hsame, hviews⟩

theorem forall₂_kept_refl (vs : List Variable) : List.Forall₂ (Kept ts) vs vs :=
  List.forall₂_same.mpr fun v _ => Kept.refl v

theorem forall₂_kept_trans : ∀ {us vs ws : List Variable}, List.Forall₂ (Kept ts) us vs →
    List.Forall₂ (Kept ts) vs ws → List.Forall₂ (Kept ts) us ws
  | _, _, _, .nil, .nil => .nil
  | _, _, _, .cons h hs, .cons h' hs' => .cons (h.trans h') (forall₂_kept_trans hs hs')

/-- One variable is changed in its place, and the others stay as they are. -/
theorem forall₂_kept_modify {f : Variable → Variable} : ∀ {vs : List Variable} {i : Nat},
    (∀ v, vs[i]? = some v → Kept ts v (f v)) → List.Forall₂ (Kept ts) vs (vs.modify i f)
  | [], _, _ => by rw [List.modify_nil]; exact .nil
  | v :: vs, 0, h => .cons (h v rfl) (forall₂_kept_refl vs)
  | v :: vs, _ + 1, h => .cons (Kept.refl v) (forall₂_kept_modify h)

/-- What one assignment of a token's text does, where the name stands right before the token. -/
theorem kept_set? {t u : Token} (hnear : [t, u] <:+: ts)
    (h : s.set? t.text (.text u.text) = some s') : List.Forall₂ (Kept ts) s.toList s'.toList := by
  rw [Variables.set?_eq_some h]
  show List.Forall₂ (Kept ts) s.registry.entries
    (s.registry.modify t.text (·.set (.text u.text))).entries
  unfold Registry.modify
  split
  · next i hi =>
    refine forall₂_kept_modify fun v hv => ⟨rfl, .inr ⟨t, u, hnear, ?_, rfl⟩⟩
    exact Registry.sameName_of_position? hi hv
  · exact forall₂_kept_refl _

/-- What a run of assignments does: the variables are kept but for their views. -/
theorem kept_assignAll {made : List (Token × Token)} (hmade : ∀ p ∈ made, [p.1, p.2] <:+: ts)
    (h : assignAll s made = some s') : List.Forall₂ (Kept ts) s.toList s'.toList ∧
      s'.registry.names = s.registry.names ∧ s'.nextHandle = s.nextHandle := by
  induction made generalizing s with
  | nil =>
    obtain rfl := Option.some.inj h
    exact ⟨forall₂_kept_refl _, rfl, rfl⟩
  | cons p made ih =>
    obtain ⟨s₁, hset, hrest⟩ := Option.bind_eq_some_iff.mp h
    obtain ⟨hlist, hnames, hhandle⟩ := ih (fun q hq => hmade q (List.mem_cons_of_mem p hq)) hrest
    have hfirst := kept_set? (hmade p List.mem_cons_self) hset
    refine ⟨forall₂_kept_trans hfirst hlist, ?_, ?_⟩
    · rw [hnames, Variables.set?_eq_some hset]
      exact Registry.names_modify ..
    · rw [hhandle, Variables.set?_eq_some hset]

end Assignments

/-- **Reading tokens only assigns.** -/
theorem onlyAssigns_assign (s : Variables) (ts : List Token) :
    OnlyAssigns s ts (assign { store := s } ts).count (assign { store := s } ts).store := by
  obtain ⟨hmade, hcount⟩ := assignAll_pairs { store := s } ts
  have hnumber : (assign { store := s } ts).count = (pairs s.contains ts).length := by
    rw [hcount, Nat.zero_add]
  obtain ⟨hlist, hnames, hhandle⟩ := kept_assignAll (fun p hp => infix_of_mem_pairs hp) hmade
  exact
    { toList := hlist
      names := hnames
      nextHandle := hhandle
      made := ⟨_, hmade, hnumber.symm, fun p hp => infix_of_mem_pairs hp, pairs_sublist ts⟩
      count := hnumber ▸ length_pairs ts }

end DevConsole.Config
