import DevConsole.Proofs.Text.Folded
import DevConsole.Trie

/-!
# What a trie holds

The paths of a trie are its entries with the bytes they are filed under. In an ordered trie the paths
stand in increasing order (`paths_ascending`), and the entry of a path is the one of the node that it
leads to (`mem_paths_iff`). An insertion or a removal changes the entry of one path and no other
(`entry_insert`, `entry_remove`). So a trie in which each entry is filed under the folded bytes of its
own key is a map from folded keys (`Trie.Filed`).
-/

namespace DevConsole

namespace Branches

variable {α : Type}

/-- The entries with the bytes that lead to them, a node before what is below it. -/
def paths : Branches α → List (List UInt8 × (String × α))
  | nil => []
  | node b key value below rest =>
    (TrieNode.entry ⟨key, value, below⟩).toList.map ([b], ·) ++
      below.paths.map (fun (p, e) => (b :: p, e)) ++ rest.paths

/-- All bytes at the top come after a byte. -/
def Above (b : UInt8) : Branches α → Prop
  | nil => True
  | node d _ _ _ rest => b < d ∧ rest.Above b

/-- The bytes at the top and below each of them increase. -/
def Ordered : Branches α → Prop
  | nil => True
  | node b _ _ below rest => below.Ordered ∧ rest.Above b ∧ rest.Ordered

/-- All nodes have a property. -/
def Every (P : TrieNode α → Prop) : Branches α → Prop
  | nil => True
  | node _ key value below rest => P ⟨key, value, below⟩ ∧ below.Every P ∧ rest.Every P

/-! ### Children by their bytes -/

theorem Above.trans {b d : UInt8} (hbd : b < d) : ∀ {bs : Branches α}, bs.Above d → bs.Above b
  | nil, _ => trivial
  | node .., ⟨hd, hrest⟩ => ⟨UInt8.lt_trans hbd hd, hrest.trans hbd⟩

theorem Above.find?_eq_none {b : UInt8} : ∀ {bs : Branches α}, bs.Above b → bs.find? b = none
  | nil, _ => rfl
  | node d .., ⟨hd, hrest⟩ => by
    have hne : b ≠ d := fun h => UInt8.lt_irrefl d (h ▸ hd)
    rw [find?, if_neg hne, hrest.find?_eq_none]

theorem find?_put (b : UInt8) (n : TrieNode α) (c : UInt8) : ∀ bs : Branches α,
    (bs.put b n).find? c = if c = b then some n else bs.find? c
  | nil => rfl
  | node d key value below rest => by
    unfold put
    split
    · next h =>
      subst h
      by_cases hc : c = b <;> simp [find?, hc]
    · next hne =>
      split
      · rfl
      · rw [find?, find?, find?_put b n c rest]
        by_cases hc : c = d
        · rw [if_pos hc, if_pos hc, if_neg fun h => hne (h.symm.trans hc)]
        · rw [if_neg hc, if_neg hc]

theorem find?_remove (b c : UInt8) : ∀ {bs : Branches α}, bs.Ordered →
    (bs.remove b).find? c = if c = b then none else bs.find? c
  | nil, _ => by simp [remove, find?]
  | node d key value below rest, ⟨_, habove, hrest⟩ => by
    unfold remove
    split
    · next h =>
      subst h
      by_cases hc : c = b
      · rw [if_pos hc, hc, habove.find?_eq_none]
      · rw [if_neg hc, find?, if_neg hc]
    · next hne =>
      rw [find?, find?, find?_remove b c hrest]
      by_cases hc : c = d
      · rw [if_pos hc, if_pos hc, if_neg fun h => hne (h.symm.trans hc)]
      · rw [if_neg hc, if_neg hc]

theorem above_put {a b : UInt8} (hb : a < b) (n : TrieNode α) : ∀ {bs : Branches α}, bs.Above a →
    (bs.put b n).Above a
  | nil, _ => ⟨hb, trivial⟩
  | node d key value below rest, ⟨hd, hrest⟩ => by
    unfold put
    split
    · exact ⟨hb, hrest⟩
    · split
      · exact ⟨hb, hd, hrest⟩
      · exact ⟨hd, above_put hb n hrest⟩

theorem ordered_put {b : UInt8} {n : TrieNode α} (hn : n.below.Ordered) : ∀ {bs : Branches α},
    bs.Ordered → (bs.put b n).Ordered
  | nil, _ => ⟨hn, trivial, trivial⟩
  | node d key value below rest, ⟨hbelow, habove, hrest⟩ => by
    unfold put
    split
    · next h => exact ⟨hn, h ▸ habove, hrest⟩
    · next hne =>
      split
      · next hlt => exact ⟨hn, ⟨hlt, habove.trans hlt⟩, hbelow, habove, hrest⟩
      · next hnlt =>
        have hlt : d < b := UInt8.lt_of_le_of_ne (UInt8.not_lt.mp hnlt) (Ne.symm hne)
        exact ⟨hbelow, above_put hlt n habove, ordered_put hn hrest⟩

theorem above_remove {a : UInt8} (b : UInt8) : ∀ {bs : Branches α}, bs.Above a →
    (bs.remove b).Above a
  | nil, _ => trivial
  | node d key value below rest, ⟨hd, hrest⟩ => by
    unfold remove
    split
    · exact hrest
    · exact ⟨hd, above_remove b hrest⟩

theorem ordered_remove (b : UInt8) : ∀ {bs : Branches α}, bs.Ordered → (bs.remove b).Ordered
  | nil, _ => trivial
  | node d key value below rest, ⟨hbelow, habove, hrest⟩ => by
    unfold remove
    split
    · exact hrest
    · exact ⟨hbelow, above_remove b habove, ordered_remove b hrest⟩

theorem ordered_of_find? {b : UInt8} {n : TrieNode α} : ∀ {bs : Branches α}, bs.Ordered →
    bs.find? b = some n → n.below.Ordered
  | nil, _, h => by cases h
  | node d key value below rest, ⟨hbelow, _, hrest⟩, h => by
    unfold find? at h
    split at h
    · exact Option.some.inj h ▸ hbelow
    · exact ordered_of_find? hrest h

section Every
variable {P : TrieNode α → Prop} {b : UInt8} {n : TrieNode α}

theorem every_put (hP : P n) (hn : n.below.Every P) : ∀ {bs : Branches α}, bs.Every P →
    (bs.put b n).Every P
  | nil, _ => ⟨hP, hn, trivial⟩
  | node d key value below rest, ⟨hd, hbelow, hrest⟩ => by
    unfold put
    split
    · exact ⟨hP, hn, hrest⟩
    · split
      · exact ⟨hP, hn, hd, hbelow, hrest⟩
      · exact ⟨hd, hbelow, every_put hP hn hrest⟩

theorem every_remove : ∀ {bs : Branches α}, bs.Every P → (bs.remove b).Every P
  | nil, _ => trivial
  | node d key value below rest, ⟨hd, hbelow, hrest⟩ => by
    unfold remove
    split
    · exact hrest
    · exact ⟨hd, hbelow, every_remove hrest⟩

theorem every_of_find? : ∀ {bs : Branches α}, bs.Every P → bs.find? b = some n →
    P n ∧ n.below.Every P
  | nil, _, h => by cases h
  | node d key value below rest, ⟨hd, hbelow, hrest⟩, h => by
    unfold find? at h
    split at h
    · exact Option.some.inj h ▸ ⟨hd, hbelow⟩
    · exact every_of_find? hrest h

end Every

theorem isEmpty_put (b : UInt8) (n : TrieNode α) (bs : Branches α) :
    (bs.put b n).isEmpty = false := by
  cases bs with
  | nil => rfl
  | node d key value below rest =>
    unfold put
    split
    · rfl
    · split <;> rfl

theorem eq_nil_of_isEmpty {bs : Branches α} (h : bs.isEmpty = true) : bs = nil := by
  cases bs with
  | nil => rfl
  | node d key value below rest => cases h

/-! ### Paths -/

theorem mem_paths_node {b : UInt8} {key : Option String} {value : Option α}
    {below rest : Branches α} {p : List UInt8} {e : String × α} :
    (p, e) ∈ (node b key value below rest).paths ↔
      (p = [b] ∧ TrieNode.entry ⟨key, value, below⟩ = some e) ∨
        (∃ q, p = b :: q ∧ (q, e) ∈ below.paths) ∨ (p, e) ∈ rest.paths := by
  rw [paths, List.mem_append, List.mem_append, or_assoc]
  refine or_congr ?_ (or_congr ?_ Iff.rfl)
  · constructor
    · intro h
      obtain ⟨x, hx, hpair⟩ := List.mem_map.mp h
      obtain ⟨rfl, rfl⟩ := Prod.mk.inj hpair
      exact ⟨rfl, Option.mem_toList.mp hx⟩
    · rintro ⟨rfl, h⟩
      exact List.mem_map.mpr ⟨e, Option.mem_toList.mpr h, rfl⟩
  · constructor
    · intro h
      obtain ⟨⟨q, x⟩, hx, hpair⟩ := List.mem_map.mp h
      obtain ⟨rfl, rfl⟩ := Prod.mk.inj hpair
      exact ⟨q, rfl, hx⟩
    · rintro ⟨q, rfl, h⟩
      exact List.mem_map.mpr ⟨(q, e), h, rfl⟩

theorem nil_notMem_paths : ∀ {bs : Branches α} {e : String × α}, ([], e) ∉ bs.paths
  | nil, _, h => by cases h
  | node b key value below rest, e, h => by
    rcases mem_paths_node.mp h with ⟨h, -⟩ | ⟨q, h, -⟩ | h
    · cases h
    · cases h
    · exact nil_notMem_paths h

theorem Above.lt_of_mem {b : UInt8} : ∀ {bs : Branches α} (_ : bs.Above b) {d : UInt8}
    {p : List UInt8} {e : String × α}, (d :: p, e) ∈ bs.paths → b < d
  | nil, _, _, _, _, h => by cases h
  | node c key value below rest, ⟨hc, hrest⟩, d, p, e, h => by
    rcases mem_paths_node.mp h with ⟨h, -⟩ | ⟨q, h, -⟩ | h
    · rw [(List.cons.inj h).1]
      exact hc
    · rw [(List.cons.inj h).1]
      exact hc
    · exact hrest.lt_of_mem h

/-- **The paths of an ordered trie stand in increasing order.** -/
theorem paths_ascending : ∀ {bs : Branches α}, bs.Ordered → bs.paths.Pairwise fun x y => x.1 < y.1
  | nil, _ => List.Pairwise.nil
  | node b key value below rest, ⟨hbelow, habove, hrest⟩ => by
    rw [paths, List.append_assoc, List.pairwise_append, List.pairwise_append]
    refine ⟨?_, ⟨?_, paths_ascending hrest, ?_⟩, ?_⟩
    · cases TrieNode.entry ⟨key, value, below⟩ <;> simp
    · exact List.pairwise_map.mpr ((paths_ascending hbelow).imp fun h => List.Lex.cons h)
    · intro x hx y hy
      obtain ⟨⟨q, e⟩, -, rfl⟩ := List.mem_map.mp hx
      obtain ⟨p, e'⟩ := y
      cases p with
      | nil => exact absurd hy nil_notMem_paths
      | cons d p => exact List.Lex.rel (habove.lt_of_mem hy)
    · intro x hx y hy
      obtain ⟨e, -, rfl⟩ := List.mem_map.mp hx
      obtain ⟨p, e'⟩ := y
      rcases List.mem_append.mp hy with hy | hy
      · obtain ⟨⟨q, e''⟩, hq, hpair⟩ := List.mem_map.mp hy
        obtain ⟨rfl, rfl⟩ := Prod.mk.inj hpair
        cases q with
        | nil => exact absurd hq nil_notMem_paths
        | cons d q => exact List.Lex.cons List.Lex.nil
      · cases p with
        | nil => exact absurd hy nil_notMem_paths
        | cons d p => exact List.Lex.rel (habove.lt_of_mem hy)

/-- **The entry of a path is that of the node it leads to.** -/
theorem mem_paths_iff : ∀ {bs : Branches α}, bs.Ordered → ∀ {c : UInt8} {cs : List UInt8}
    {e : String × α}, (c :: cs, e) ∈ bs.paths ↔
      ((bs.find? c).bind (TrieNode.descend cs)).bind TrieNode.entry = some e
  | nil, _, c, cs, e => by simp [paths, find?]
  | node d key value below rest, ⟨hbelow, habove, hrest⟩, c, cs, e => by
    rw [mem_paths_node, find?]
    by_cases hc : c = d
    · subst hc
      have hno : (c :: cs, e) ∉ rest.paths := fun h => UInt8.lt_irrefl c (habove.lt_of_mem h)
      rw [if_pos rfl, Option.bind_some]
      cases cs with
      | nil => simp [hno, nil_notMem_paths, TrieNode.descend]
      | cons c' cs => simp [hno, mem_paths_iff hbelow, TrieNode.descend]
    · rw [if_neg hc, ← mem_paths_iff hrest]
      simp [hc]

end Branches

namespace TrieNode

variable {α : Type}

/-! ### Nodes in order -/

/-- A node that leads to a value, and has a spelling if it has a value itself. -/
structure Live (n : TrieNode α) : Prop where
  paired : n.key.isSome = n.value.isSome
  occupied : n.isVacant = false

/-- The children are in order, the node has a spelling if it has a value, and all nodes below it are
live. -/
structure Sound (n : TrieNode α) : Prop where
  ordered : n.below.Ordered
  paired : n.key.isSome = n.value.isSome
  live : n.below.Every Live

variable {n m : TrieNode α}

theorem sound_default : Sound ({} : TrieNode α) := ⟨trivial, rfl, trivial⟩

theorem Sound.find? (h : n.Sound) {b : UInt8} (hm : n.below.find? b = some m) : m.Sound := by
  obtain ⟨hlive, hbelow⟩ := Branches.every_of_find? h.live hm
  exact ⟨Branches.ordered_of_find? h.ordered hm, hlive.paired, hbelow⟩

theorem Sound.child (h : n.Sound) (b : UInt8) : ((n.below.find? b).getD {}).Sound := by
  cases hm : n.below.find? b with
  | none => exact sound_default
  | some m => exact h.find? hm

theorem Sound.put (h : n.Sound) (hm : m.Sound) (hoccupied : m.isVacant = false) (b : UInt8) :
    Sound { n with below := n.below.put b m } where
  ordered := Branches.ordered_put hm.ordered h.ordered
  paired := h.paired
  live := Branches.every_put ⟨hm.paired, hoccupied⟩ hm.live h.live

theorem Sound.dropChild (h : n.Sound) (b : UInt8) :
    Sound { n with below := n.below.remove b } where
  ordered := Branches.ordered_remove b h.ordered
  paired := h.paired
  live := Branches.every_remove h.live

theorem Sound.descend : ∀ {p : List UInt8} {n : TrieNode α}, n.Sound →
    n.descend p = some m → m.Sound
  | [], _, h, hm => Option.some.inj hm ▸ h
  | _ :: _, _, h, hm => by
    obtain ⟨child, hchild, hm⟩ := Option.bind_eq_some_iff.mp hm
    exact Sound.descend (h.find? hchild) hm

theorem Sound.live_of_descend : ∀ {p : List UInt8} {n : TrieNode α}, n.Sound → p ≠ [] →
    n.descend p = some m → m.Live
  | [], _, _, hne, _ => absurd rfl hne
  | b :: bs, n, h, _, hm => by
    obtain ⟨child, hchild, hm⟩ := Option.bind_eq_some_iff.mp hm
    obtain ⟨hlive, -⟩ := Branches.every_of_find? h.live hchild
    cases bs with
    | nil => exact Option.some.inj hm ▸ hlive
    | cons c cs => exact Sound.live_of_descend (h.find? hchild) (List.cons_ne_nil c cs) hm

/-- Live children lead to values. -/
theorem exists_value_of_live : ∀ {bs : Branches α} (n : TrieNode α), n.below = bs → bs.Every Live →
    bs.isEmpty = false → ∃ p m, n.descend p = some m ∧ m.value.isSome = true
  | .nil, _, _, _, hempty => by cases hempty
  | .node b key value below rest, n, hn, ⟨⟨_, hoccupied⟩, hbelow, _⟩, _ => by
    have hfirst : n.below.find? b = some ⟨key, value, below⟩ := by
      rw [hn]
      exact if_pos rfl
    have hstep : ∀ p, n.descend (b :: p) = (⟨key, value, below⟩ : TrieNode α).descend p := by
      intro p
      rw [descend, hfirst, Option.bind_some]
    cases value with
    | some v => exact ⟨[b], _, hstep [], rfl⟩
    | none =>
      obtain ⟨p, m, hp, hm⟩ := exists_value_of_live ⟨key, none, below⟩ rfl hbelow hoccupied
      exact ⟨b :: p, m, (hstep p).trans hp, hm⟩

theorem Sound.exists_value (h : n.Sound) (hn : n.Live) :
    ∃ p m, n.descend p = some m ∧ m.value.isSome = true := by
  have hoccupied := hn.occupied
  unfold isVacant at hoccupied
  cases hvalue : n.value with
  | some v => exact ⟨[], n, rfl, by rw [hvalue]; rfl⟩
  | none =>
    rw [hvalue] at hoccupied
    exact exists_value_of_live n rfl h.live hoccupied

/-! ### Entries -/

theorem Sound.map_snd_entry (h : n.Sound) : n.entry.map Prod.snd = n.value := by
  have hpaired := h.paired
  unfold entry
  cases hkey : n.key <;> cases hvalue : n.value <;> simp_all

theorem Sound.map_fst_entry (h : n.Sound) : n.entry.map Prod.fst = n.key := by
  have hpaired := h.paired
  unfold entry
  cases hkey : n.key <;> cases hvalue : n.value <;> simp_all

/-- A vacant node leads to no value. -/
theorem value_of_isVacant (h : n.isVacant = true) (p : List UInt8) :
    (n.descend p).bind value = none := by
  obtain ⟨hvalue, hbelow⟩ := (Bool.and_eq_true _ _).mp h
  cases p with
  | nil => exact Option.isNone_iff_eq_none.mp hvalue
  | cons b bs =>
    rw [descend, Branches.eq_nil_of_isEmpty hbelow]
    rfl

theorem entry_of_value_eq_none {x : Option (TrieNode α)} (h : x.bind value = none) :
    x.bind entry = none := by
  cases x with
  | none => rfl
  | some m =>
    have hvalue : m.value = none := h
    show m.entry = none
    unfold entry
    rw [hvalue]
    cases m.key <;> rfl

theorem descend_getD (n : TrieNode α) (b : UInt8) (p : List UInt8) {β : Type}
    {f : TrieNode α → Option β} (hf : f {} = none) :
    (((n.below.find? b).getD {}).descend p).bind f = (n.descend (b :: p)).bind f := by
  rw [descend]
  cases n.below.find? b with
  | some m => rfl
  | none =>
    cases p with
    | nil => exact hf
    | cons c cs => rfl

theorem descend_append (p q : List UInt8) (n : TrieNode α) :
    n.descend (p ++ q) = (n.descend p).bind (descend q) := by
  induction p generalizing n with
  | nil => rfl
  | cons b bs ih =>
    rw [List.cons_append, descend, descend, Option.bind_assoc]
    exact congrArg _ (funext ih)

/-! ### Inserting -/

section Insert
variable (key : String) (value : α)

theorem insert_fst (p : List UInt8) (n : TrieNode α) :
    (insert key value p n).1 = (n.descend p).bind TrieNode.value := by
  induction p generalizing n with
  | nil => rfl
  | cons b bs ih =>
    rw [← descend_getD n b bs rfl]
    exact ih _

theorem isVacant_insert (p : List UInt8) (n : TrieNode α) :
    (insert key value p n).2.isVacant = false := by
  cases p with
  | nil => rfl
  | cons b bs =>
    show (n.value.isNone && (n.below.put b _).isEmpty) = false
    rw [Branches.isEmpty_put, Bool.and_false]

theorem Sound.insert {n : TrieNode α} (h : n.Sound) (p : List UInt8) :
    (insert key value p n).2.Sound := by
  induction p generalizing n with
  | nil => exact ⟨h.ordered, rfl, h.live⟩
  | cons b bs ih => exact h.put (ih (h.child b)) (isVacant_insert key value bs _) b

/-- **An insertion changes the entry of one path and no other.** -/
theorem entry_insert (p q : List UInt8) (n : TrieNode α) :
    ((insert key value p n).2.descend q).bind entry =
      if q = p then some (key, value) else (n.descend q).bind entry := by
  induction p generalizing q n with
  | nil =>
    cases q with
    | nil => rfl
    | cons c cs => rfl
  | cons b bs ih =>
    cases q with
    | nil => rfl
    | cons c cs =>
      show (((n.below.put b _).find? c).bind (descend cs)).bind entry = _
      rw [Branches.find?_put]
      by_cases hc : c = b
      · subst hc
        rw [if_pos rfl, Option.bind_some, ih, descend_getD n c cs rfl]
        simp
      · rw [if_neg hc, if_neg (fun h => hc (List.cons.inj h).1)]
        rfl

end Insert

/-! ### Removing -/

theorem remove_cons_of_none {n : TrieNode α} {b : UInt8} (bs : List UInt8)
    (h : n.below.find? b = none) : remove (b :: bs) n = (none, n) := by
  rw [remove, h]

theorem remove_cons_of_some {n child : TrieNode α} {b : UInt8} (bs : List UInt8)
    (h : n.below.find? b = some child) : remove (b :: bs) n =
      ((remove bs child).1, { n with
        below := if (remove bs child).2.isVacant = true then n.below.remove b
          else n.below.put b (remove bs child).2 }) := by
  rw [remove, h]

theorem remove_fst (p : List UInt8) (n : TrieNode α) :
    (remove p n).1 = (n.descend p).bind value := by
  induction p generalizing n with
  | nil => rfl
  | cons b bs ih =>
    rw [descend]
    cases hchild : n.below.find? b with
    | none =>
      rw [remove_cons_of_none bs hchild]
      rfl
    | some child =>
      rw [remove_cons_of_some bs hchild]
      exact ih child

theorem Sound.remove {n : TrieNode α} (h : n.Sound) (p : List UInt8) : (remove p n).2.Sound := by
  induction p generalizing n with
  | nil => exact ⟨h.ordered, rfl, h.live⟩
  | cons b bs ih =>
    cases hchild : n.below.find? b with
    | none => rwa [remove_cons_of_none bs hchild]
    | some child =>
      rw [remove_cons_of_some bs hchild]
      split
      · exact h.dropChild b
      · next hoccupied => exact h.put (ih (h.find? hchild)) (Bool.eq_false_iff.mpr hoccupied) b

/-- A child that is left vacant is as good as none. -/
theorem entry_settled {bs : Branches α} (h : bs.Ordered) (m : TrieNode α) (b c : UInt8)
    (cs : List UInt8) :
    (((if m.isVacant = true then bs.remove b else bs.put b m).find? c).bind (descend cs)).bind entry =
      if c = b then (m.descend cs).bind entry else ((bs.find? c).bind (descend cs)).bind entry := by
  split
  · next hvacant =>
    rw [Branches.find?_remove b c h]
    split
    · exact (entry_of_value_eq_none (value_of_isVacant hvacant cs)).symm
    · rfl
  · rw [Branches.find?_put]
    split <;> rfl

/-- **A removal takes out the entry of one path and no other.** -/
theorem entry_remove {n : TrieNode α} (h : n.Sound) (p q : List UInt8) :
    ((remove p n).2.descend q).bind entry = if q = p then none else (n.descend q).bind entry := by
  induction p generalizing q n with
  | nil =>
    cases q with
    | nil =>
      show entry { n with key := none, value := none } = none
      rfl
    | cons c cs => rfl
  | cons b bs ih =>
    cases hchild : n.below.find? b with
    | none =>
      rw [remove_cons_of_none bs hchild]
      split
      · next hq => rw [hq, descend, hchild]; rfl
      · rfl
    | some child =>
      rw [remove_cons_of_some bs hchild]
      cases q with
      | nil => rfl
      | cons c cs =>
        rw [descend, entry_settled h.ordered]
        by_cases hc : c = b
        · have hsame : (n.descend (b :: cs)).bind entry = (child.descend cs).bind entry := by
            rw [descend, hchild, Option.bind_some]
          rw [if_pos hc, ih (h.find? hchild), hc, hsame]
          simp
        · rw [if_neg hc, if_neg (fun h => hc (List.cons.inj h).1)]
          rfl

/-! ### Walking -/

/-- The entries with the bytes they are filed under. -/
def paths (n : TrieNode α) : List (List UInt8 × (String × α)) :=
  n.entry.toList.map ([], ·) ++ n.below.paths

theorem mem_paths {p : List UInt8} {e : String × α} :
    (p, e) ∈ n.paths ↔ (p = [] ∧ n.entry = some e) ∨ (p, e) ∈ n.below.paths := by
  rw [paths, List.mem_append]
  refine or_congr ?_ Iff.rfl
  constructor
  · intro h
    obtain ⟨x, hx, hpair⟩ := List.mem_map.mp h
    obtain ⟨rfl, rfl⟩ := Prod.mk.inj hpair
    exact ⟨rfl, Option.mem_toList.mp hx⟩
  · rintro ⟨rfl, h⟩
    exact List.mem_map.mpr ⟨e, Option.mem_toList.mpr h, rfl⟩

theorem Sound.mem_paths_iff (h : n.Sound) {p : List UInt8} {e : String × α} :
    (p, e) ∈ n.paths ↔ (n.descend p).bind entry = some e := by
  rw [mem_paths]
  cases p with
  | nil => simp [TrieNode.descend, Branches.nil_notMem_paths]
  | cons c cs =>
    rw [Branches.mem_paths_iff h.ordered]
    simp [TrieNode.descend]

theorem Sound.ascending (h : n.Sound) : n.paths.Pairwise fun x y => x.1 < y.1 := by
  rw [paths, List.pairwise_append]
  refine ⟨?_, Branches.paths_ascending h.ordered, ?_⟩
  · cases n.entry <;> simp
  · intro x hx y hy
    obtain ⟨e, -, rfl⟩ := List.mem_map.mp hx
    obtain ⟨p, e'⟩ := y
    cases p with
    | nil => exact absurd hy Branches.nil_notMem_paths
    | cons c p => exact List.Lex.nil

theorem map_snd_paths (n : TrieNode α) :
    n.paths.map Prod.snd = n.entry.toList ++ n.below.paths.map Prod.snd := by
  simp [paths, Function.comp_def]

theorem map_snd_paths_below : ∀ bs : Branches α,
    bs.paths.map Prod.snd = bs.nodes.flatMap fun n => n.paths.map Prod.snd
  | .nil => rfl
  | .node b key value below rest => by
    rw [Branches.paths, Branches.nodes, List.flatMap_cons, map_snd_paths, ← map_snd_paths_below rest]
    simp [Function.comp_def]

/-- **A walk lists the entries of each node on the stack in the order of their paths.** -/
theorem walk_eq (stack : List (TrieNode α)) :
    walk stack = stack.flatMap fun n => n.paths.map Prod.snd := by
  induction stack using walk.induct with
  | case1 => rw [walk, List.flatMap_nil]
  | case2 n stack ih =>
    rw [walk, ih, List.flatMap_append, ← map_snd_paths_below, List.flatMap_cons, map_snd_paths,
      List.append_assoc]

end TrieNode

namespace Trie

variable {α : Type} {t : Trie α}

/-- The trie is sound, and each entry is filed under the folded bytes of its key. -/
structure Filed (t : Trie α) : Prop where
  sound : t.root.Sound
  filed : ∀ p e, (p, e) ∈ t.root.paths → p = Text.foldBytes e.1

/-- The entry of a key. -/
def find? (t : Trie α) (key : String) : Option (String × α) := (t.node? key).bind TrieNode.entry

theorem startingWith_eq (t : Trie α) (lead : String) :
    t.startingWith lead = ((t.node? lead).map fun n => n.paths.map Prod.snd).getD [] := by
  rw [startingWith, TrieNode.walk_eq]
  cases t.node? lead with
  | none => rfl
  | some n => exact List.append_nil _

theorem toList_eq (t : Trie α) : t.toList = t.root.paths.map Prod.snd := startingWith_eq t ""

theorem toList_empty : (empty : Trie α).toList = [] := by
  rw [toList_eq]
  rfl

/-- Behind a beginning of keys the entries are filed under the rest of their keys. -/
theorem Filed.rest (h : t.Filed) {lead : String} {n : TrieNode α} (hn : t.node? lead = some n)
    {q : List UInt8} {e : String × α} (hq : (q, e) ∈ n.paths) :
    Text.foldBytes lead ++ q = Text.foldBytes e.1 := by
  refine h.filed _ e (h.sound.mem_paths_iff.mpr ?_)
  rw [TrieNode.descend_append, ← node?, hn]
  exact (h.sound.descend hn).mem_paths_iff.mp hq

/-- **The entries under a beginning of keys stand in the order of their folded keys.** -/
theorem Filed.ascending (h : t.Filed) (lead : String) :
    (t.startingWith lead).Pairwise fun x y => Text.Before x.1 y.1 := by
  rw [startingWith_eq]
  cases hn : t.node? lead with
  | none => exact .nil
  | some n =>
    refine List.pairwise_map.mpr ((h.sound.descend hn).ascending.imp_of_mem ?_)
    intro x y hx hy hlt
    rw [Text.before_iff, ← h.rest hn hx, ← h.rest hn hy]
    exact List.append_left_lt hlt

theorem Filed.distinct (h : t.Filed) :
    t.toList.Pairwise fun x y => Text.sameName x.1 y.1 = false :=
  (h.ascending "").imp fun hbefore => hbefore.sameName_eq_false

theorem Filed.mem_toList_iff (h : t.Filed) {e : String × α} :
    e ∈ t.toList ↔ (Text.foldBytes e.1, e) ∈ t.root.paths := by
  rw [toList_eq]
  constructor
  · intro he
    obtain ⟨⟨p, e⟩, hp, rfl⟩ := List.mem_map.mp he
    rw [← h.filed p e hp]
    exact hp
  · exact fun hp => List.mem_map.mpr ⟨_, hp, rfl⟩

/-- **The entries under a beginning of keys are those whose keys begin with it.** -/
theorem Filed.mem_startingWith_iff (h : t.Filed) {lead : String} {e : String × α} :
    e ∈ t.startingWith lead ↔ e ∈ t.toList ∧ Text.startsName lead e.1 = true := by
  rw [startingWith_eq, h.mem_toList_iff, ← Text.foldBytes_isPrefix_iff]
  have hpath : ∀ q, Text.foldBytes lead ++ q = Text.foldBytes e.1 →
      ((Text.foldBytes e.1, e) ∈ t.root.paths ↔
        ((t.node? lead).bind (TrieNode.descend q)).bind TrieNode.entry = some e) := by
    intro q hq
    rw [h.sound.mem_paths_iff, ← hq, TrieNode.descend_append]
    rfl
  cases hn : t.node? lead with
  | none =>
    refine iff_of_false List.not_mem_nil fun ⟨he, q, hq⟩ => ?_
    rw [hpath q hq, hn] at he
    cases he
  | some n =>
    rw [Option.map_some, Option.getD_some]
    constructor
    · intro he
      obtain ⟨⟨q, e⟩, hq, rfl⟩ := List.mem_map.mp he
      have hrest := h.rest hn hq
      rw [hpath q hrest, hn]
      exact ⟨(h.sound.descend hn).mem_paths_iff.mp hq, q, hrest⟩
    · rintro ⟨he, q, hq⟩
      rw [hpath q hq, hn] at he
      exact List.mem_map.mpr ⟨(q, e), (h.sound.descend hn).mem_paths_iff.mpr he, rfl⟩

/-- **A search finds the entry whose key is the same name.** -/
theorem Filed.find?_eq_some_iff (h : t.Filed) {key : String} {e : String × α} :
    t.find? key = some e ↔ e ∈ t.toList ∧ Text.sameName e.1 key = true := by
  rw [find?, node?, ← h.sound.mem_paths_iff, h.mem_toList_iff, ← Text.foldBytes_eq_iff]
  constructor
  · intro hp
    have hkey := h.filed _ _ hp
    rw [← hkey]
    exact ⟨hp, rfl⟩
  · rintro ⟨hp, hkey⟩
    rwa [hkey] at hp

theorem Filed.get?_eq (h : t.Filed) (key : String) : t.get? key = (t.find? key).map Prod.snd := by
  unfold get? find?
  cases hn : t.node? key with
  | none => rfl
  | some n => exact (h.sound.descend hn).map_snd_entry.symm

theorem Filed.spelling?_eq (h : t.Filed) (key : String) :
    t.spelling? key = (t.find? key).map Prod.fst := by
  unfold spelling? find?
  cases hn : t.node? key with
  | none => rfl
  | some n => exact (h.sound.descend hn).map_fst_entry.symm

theorem Filed.contains_iff (h : t.Filed) {key : String} :
    t.contains key = true ↔ ∃ e ∈ t.toList, Text.sameName e.1 key = true := by
  rw [contains, h.get?_eq, Option.isSome_map, Option.isSome_iff_exists]
  exact exists_congr fun e => h.find?_eq_some_iff

theorem filed_empty : (empty : Trie α).Filed where
  sound := TrieNode.sound_default
  filed p e h := by cases h

theorem Filed.insert (h : t.Filed) (key : String) (v : α) : (t.insert key v).Filed where
  sound := h.sound.insert key v _
  filed p e hp := by
    have hentry := ((h.sound.insert key v _).mem_paths_iff).mp hp
    rw [TrieNode.entry_insert] at hentry
    split at hentry
    · next hp =>
      rw [hp, ← Option.some.inj hentry]
    · exact h.filed p e (h.sound.mem_paths_iff.mpr hentry)

theorem Filed.erase (h : t.Filed) (key : String) : (t.erase key).Filed where
  sound := h.sound.remove _
  filed p e hp := by
    have hentry := ((h.sound.remove _).mem_paths_iff).mp hp
    rw [TrieNode.entry_remove h.sound] at hentry
    split at hentry
    · cases hentry
    · exact h.filed p e (h.sound.mem_paths_iff.mpr hentry)

theorem find?_insert (t : Trie α) (key : String) (v : α) (k : String) :
    (t.insert key v).find? k = if Text.sameName k key then some (key, v) else t.find? k := by
  show ((TrieNode.insert key v _ t.root).2.descend _).bind TrieNode.entry = _
  rw [TrieNode.entry_insert]
  simp only [Text.foldBytes_eq_iff]
  rfl

theorem Filed.find?_erase (h : t.Filed) (key k : String) :
    (t.erase key).find? k = if Text.sameName k key then none else t.find? k := by
  show ((TrieNode.remove _ t.root).2.descend _).bind TrieNode.entry = _
  rw [TrieNode.entry_remove h.sound]
  simp only [Text.foldBytes_eq_iff]
  rfl

theorem Filed.mem_toList_iff_find? (h : t.Filed) {e : String × α} :
    e ∈ t.toList ↔ t.find? e.1 = some e := by
  rw [h.find?_eq_some_iff]
  simp

theorem Filed.mem_toList_insert (h : t.Filed) {key : String} {v : α} {e : String × α} :
    e ∈ (t.insert key v).toList ↔ e = (key, v) ∨
      (Text.sameName e.1 key = false ∧ e ∈ t.toList) := by
  rw [(h.insert key v).mem_toList_iff_find?, find?_insert, h.mem_toList_iff_find?]
  by_cases hsame : Text.sameName e.1 key = true
  · rw [if_pos hsame, hsame]
    simp [eq_comm]
  · rw [if_neg hsame]
    have hne : e ≠ (key, v) := fun he => hsame (by rw [he, Text.sameName_self])
    simp [hne, hsame]

theorem Filed.mem_toList_erase (h : t.Filed) {key : String} {e : String × α} :
    e ∈ (t.erase key).toList ↔ Text.sameName e.1 key = false ∧ e ∈ t.toList := by
  rw [(h.erase key).mem_toList_iff_find?, h.find?_erase, h.mem_toList_iff_find?]
  by_cases hsame : Text.sameName e.1 key = true <;> simp [hsame]

theorem startingWith_empty (t : Trie α) : t.startingWith "" = t.toList := rfl

end Trie

end DevConsole
