import DevConsole.Proofs.Editor.Completing
import Mathlib.Algebra.BigOperators.Group.List.Basic
import Mathlib.Data.Int.ModEq
import Mathlib.Data.List.Rotate

/-!
# The completion key walks in a circle

The first press of the completion key completes the line, and the next ones walk through the candidates
as long as nothing else is done. A press goes on if the line is the one that the press before left; each
press remembers the line that it leaves, so the next one goes on (`Circling.cycle`,
`Circling.showing`). By induction on the presses the candidate that is shown is the one at the place
where all moves so far end, counted in a circle (`Circling.pressed`).
-/

namespace DevConsole

/-! ### Places in a circle -/

/-- How far a press moves. -/
def stride (reverse : Bool) : ℤ := if reverse then -1 else 1

/-- Where presses end in a circle of `n` places: the first press goes to the first place or, in reverse,
to the last one, and each later one moves by one place. -/
def place (n : ℕ) (first : Bool) (later : List Bool) : ℕ :=
  (((if first then -1 else 0) + (later.map stride).sum) % (n : ℤ)).toNat

section place
variable {n : ℕ} (hn : 0 < n) (first : Bool) (later : List Bool)
include hn

theorem natCast_place : (place n first later : ℤ) =
    ((if first then -1 else 0) + (later.map stride).sum) % n :=
  Int.toNat_of_nonneg (Int.emod_nonneg _ (Int.natCast_ne_zero.mpr hn.ne'))

theorem place_nil : place n first [] = if first then n - 1 else 0 := by
  refine Int.natCast_inj.mp ((natCast_place hn first []).trans ?_)
  cases first with
  | false => simp
  | true =>
    have hlast : (-1 + n : ℤ) % n = -1 + n := Int.emod_eq_of_lt (by omega) (by omega)
    rw [List.map_nil, List.sum_nil, Int.add_zero, if_pos rfl, if_pos rfl, ← Int.add_emod_right, hlast]
    omega

/-- **A later press moves by one place.** -/
theorem place_concat (reverse : Bool) : place n first (later ++ [reverse]) =
    if reverse then (place n first later + n - 1) % n else (place n first later + 1) % n := by
  refine Int.natCast_inj.mp ?_
  rw [natCast_place hn, List.map_append, List.sum_append, List.map_singleton, List.sum_singleton,
    ← Int.add_assoc]
  cases reverse with
  | false =>
    rw [if_neg Bool.false_ne_true, Int.natCast_emod, Int.natCast_add, natCast_place hn,
      Int.emod_add_emod]
    rfl
  | true =>
    have hback : ((place n first later + n - 1 : ℕ) : ℤ) = place n first later + -1 + n := by omega
    rw [if_pos rfl, Int.natCast_emod, hback, Int.add_emod_right, natCast_place hn, Int.emod_add_emod]
    rfl

/-- Forward presses move by as many places as they are. -/
theorem place_replicate (i : ℕ) : place n first (later ++ List.replicate i false) =
    (place n first later + i) % n := by
  refine Int.natCast_inj.mp ?_
  have hsum : ((List.replicate i false).map stride).sum = i := by simp [stride]
  rw [natCast_place hn, Int.natCast_emod, Int.natCast_add, natCast_place hn, Int.emod_add_emod,
    List.map_append, List.sum_append, hsum, Int.add_assoc]

/-- A press and one the other way lead back. -/
theorem place_undone (reverse : Bool) : place n first (later ++ [reverse, !reverse]) =
    place n first later := by
  have hsum : ([reverse, !reverse].map stride).sum = 0 := by cases reverse <;> rfl
  refine Int.natCast_inj.mp ?_
  rw [natCast_place hn, natCast_place hn, List.map_append, List.sum_append, hsum, Int.add_zero]

end place

/-- A round from any place of a circle meets each element once. -/
theorem perm_of_circle {α : Type} {xs : List α} (j : ℕ) {f : ℕ → α}
    (hf : ∀ i < xs.length, xs[(j + i) % xs.length]? = some (f i)) :
    ((List.range xs.length).map f).Perm xs := by
  have hrotate : (List.range xs.length).map f = xs.rotate j := by
    refine List.ext_getElem (by simp) fun i hi _ => ?_
    rw [List.length_map, List.length_range] at hi
    refine Option.some.inj ?_
    rw [← List.getElem?_eq_getElem, ← List.getElem?_eq_getElem, List.getElem?_rotate hi, Nat.add_comm,
      hf i hi, List.getElem?_map, List.getElem?_range hi, Option.map_some]
  rw [hrotate]
  exact List.rotate_perm xs j

theorem Merged.nodup {names kept : List String} (h : Merged names kept) : kept.Nodup :=
  h.ascending.imp fun hbefore => by
    rintro rfl
    exact List.lt_irrefl _ hbefore

namespace Completion

theorem target_lt {c : Completion} (h : 0 < c.candidates.length) (step : Step) :
    c.target step < c.candidates.length := by
  cases step with
  | first => exact h
  | last => exact Nat.sub_lt h Nat.one_pos
  | next =>
    unfold target
    dsimp only
    split
    · exact h
    · exact Nat.mod_lt _ h
  | prev =>
    unfold target
    dsimp only
    split
    · exact Nat.sub_lt h Nat.one_pos
    · exact Nat.mod_lt _ h

end Completion

namespace Console

/-- The next press of the completion key goes on: there are several candidates, and the line is the one
that the last press left. Otherwise it is a first press. -/
def GoesOn (c : Console) : Prop :=
  1 < c.completion.candidates.length ∧ c.lastCompleted = some c.line.text

/-- The console after presses of the completion key, in reverse where it says so. -/
def pressed (c : Console) (presses : List Bool) : Console :=
  presses.foldl (fun c reverse => (c.cycle reverse).2) c

/-- The console with the candidate at a place as the current one and its line in the line buffer. -/
def showing (c : Console) (k : ℕ) (text : String) : Console :=
  { c with
    line := c.line.set text
    completion := { c.completion with cursor := some k }
    lastCompleted := some text }

theorem pressed_concat (c : Console) (presses : List Bool) (reverse : Bool) :
    c.pressed (presses ++ [reverse]) = ((c.pressed presses).cycle reverse).2 :=
  List.foldl_concat ..

@[simp] theorem showing_showing (c : Console) (k k' : ℕ) (text text' : String) :
    (c.showing k text).showing k' text' = c.showing k' text' := rfl

/-! ### One press -/

/-- A press that goes on moves to another candidate. -/
theorem cycle_of_goesOn {c : Console} (h : c.GoesOn) (reverse : Bool) :
    let d := (c.choose (if reverse then .prev else .next)).2
    c.cycle reverse =
      (d.completion.candidates.length, { d with lastCompleted := some d.line.text }) := by
  have hgoing : (1 < c.completion.candidates.length && c.lastCompleted == some c.line.text) = true := by
    rw [Bool.and_eq_true, decide_eq_true_iff, beq_iff_eq]
    exact h
  unfold cycle
  rw [hgoing]
  rfl

/-- A first press completes the line. -/
theorem cycle_of_not_goesOn {c : Console} (h : ¬ c.GoesOn) (reverse : Bool) :
    let d := (c.complete c.line.text true true).2
    c.cycle reverse =
      (d.completion.candidates.length, { d with lastCompleted := some d.line.text }) := by
  have hgoing : (1 < c.completion.candidates.length && c.lastCompleted == some c.line.text) = false := by
    rw [Bool.eq_false_iff, Ne, Bool.and_eq_true, decide_eq_true_iff, beq_iff_eq]
    exact h
  unfold cycle
  rw [hgoing]
  rfl

/-- A first press answers with the number of candidates for the last word. -/
theorem count_of_not_goesOn {c : Console} (h : ¬ c.GoesOn) (reverse : Bool) :
    (c.cycle reverse).1 = (candidates c.commands c.vars c.aliases
      (String.ofList (splitLastWord c.line.chars).2)).length := by
  rw [cycle_of_not_goesOn h reverse]
  dsimp only
  rw [completion_complete, LineBuffer.text, String.toList_ofList]
  exact List.length_map _

theorem choose_eq {c : Console} {step : Completion.Step} {x : Candidate}
    (h : c.completion.candidates[c.completion.target step]? = some x) : (c.choose step).2 =
      { c with
        completion := { c.completion with cursor := some (c.completion.target step) }
        line := c.line.set x.line } := by
  unfold choose Completion.move?
  rw [h]
  rfl

/-- The next press goes on with the names, after what stands before the word. -/
structure Circling (c : Console) (lead : String) (names : List String) : Prop where
  candidates : c.completion.candidates = (Completion.ofNames lead names).candidates
  several : 1 < names.length
  printable : ∀ name ∈ names, ∀ ch ∈ (lead ++ name).toList, printable ch = true
  current : c.lastCompleted = some c.line.text

namespace Circling

variable {c : Console} {lead : String} {names : List String} (h : Circling c lead names)
include h

theorem length_candidates : c.completion.candidates.length = names.length := by
  rw [h.candidates]
  exact List.length_map _

theorem goesOn : c.GoesOn := ⟨h.length_candidates ▸ h.several, h.current⟩

/-- **A press shows the candidate at the place where the move ends.** -/
theorem cycle (reverse : Bool) : ∃ name,
    names[c.completion.target (if reverse then .prev else .next)]? = some name ∧
      c.cycle reverse = (names.length,
        c.showing (c.completion.target (if reverse then .prev else .next)) (lead ++ name)) := by
  have hcycle := cycle_of_goesOn h.goesOn reverse
  generalize (if reverse then Completion.Step.prev else .next) = step at hcycle ⊢
  have hpos : 0 < c.completion.candidates.length := h.length_candidates ▸ Nat.zero_lt_of_lt h.several
  have hlt := Completion.target_lt hpos step
  rw [h.length_candidates] at hlt
  obtain ⟨name, hname⟩ : ∃ name, names[c.completion.target step]? = some name :=
    ⟨_, List.getElem?_eq_getElem hlt⟩
  have hchosen : c.completion.candidates[c.completion.target step]? = some ⟨lead, name⟩ := by
    rw [h.candidates, Completion.ofNames, List.getElem?_map, hname]
    rfl
  have htext : (c.line.set (lead ++ name)).text = lead ++ name :=
    c.line.text_set (h.printable name (List.mem_of_getElem? hname))
  refine ⟨name, hname, hcycle.trans ?_⟩
  rw [choose_eq hchosen]
  refine Prod.ext h.length_candidates ?_
  show { c with line := _, completion := _, lastCompleted := some (c.line.set (lead ++ name)).text } = _
  rw [htext]
  rfl

theorem showing {name : String} (hname : name ∈ names) (k : ℕ) :
    Circling (c.showing k (lead ++ name)) lead names where
  candidates := h.candidates
  several := h.several
  printable := h.printable
  current := by
    show some (lead ++ name) = some (c.line.set (lead ++ name)).text
    rw [c.line.text_set (h.printable name hname)]

/-! ### Many presses -/

/-- **Presses show the candidate at the place where they end**, and all else is as it was before. -/
theorem pressed (hstart : c.completion.cursor = none) (first : Bool) (later : List Bool) :
    ∃ name, names[place names.length first later]? = some name ∧
      c.pressed (first :: later) = c.showing (place names.length first later) (lead ++ name) := by
  have hpos : 0 < names.length := Nat.zero_lt_of_lt h.several
  induction later using List.reverseRecOn with
  | nil =>
    obtain ⟨name, hname, hcycle⟩ := h.cycle first
    have htarget : c.completion.target (if first then .prev else .next) =
        place names.length first [] := by
      rw [place_nil hpos]
      cases first <;> simp [Completion.target, hstart, h.length_candidates]
    rw [htarget] at hname hcycle
    exact ⟨name, hname, congrArg Prod.snd hcycle⟩
  | append_singleton later reverse ih =>
    obtain ⟨shown, hshown, hpressed⟩ := ih
    have hcircling := h.showing (List.mem_of_getElem? hshown) (place names.length first later)
    obtain ⟨name, hname, hcycle⟩ := hcircling.cycle reverse
    have htarget : (c.showing (place names.length first later) (lead ++ shown)).completion.target
        (if reverse then .prev else .next) = place names.length first (later ++ [reverse]) := by
      rw [place_concat hpos]
      cases reverse <;> simp [Completion.target, Console.showing, h.length_candidates]
    rw [htarget] at hname hcycle
    refine ⟨name, hname, ?_⟩
    rw [← List.cons_append, pressed_concat, hpressed, hcycle]
    exact c.showing_showing ..

theorem after (hstart : c.completion.cursor = none) (presses : List Bool) :
    Circling (c.pressed presses) lead names := by
  cases presses with
  | nil => exact h
  | cons first later =>
    obtain ⟨name, hname, hpressed⟩ := h.pressed hstart first later
    rw [hpressed]
    exact h.showing (List.mem_of_getElem? hname) _

end Circling

/-! ### The circle -/

/-- Presses of the completion key walk through the names in a circle. -/
structure WalksCircle (c : Console) (lead : String) (names : List String) : Prop where
  candidates : c.completion.candidates = names.map fun name => ⟨lead, name⟩
  distinct : names.Nodup
  /-- Each press shows the name at the place where the presses so far end. -/
  shows : ∀ first later, (names.map (lead ++ ·))[place names.length first later]? =
    some (c.pressed (first :: later)).line.text
  /-- Each press answers with the number of names. -/
  answers : ∀ presses reverse, ((c.pressed presses).cycle reverse).1 = names.length
  /-- Nothing is printed, and the candidates stay: all that changes is the line, which candidate is the
  current one, and what is remembered of the line. -/
  quiet : ∀ presses, ∃ line cursor lastCompleted, c.pressed presses =
    { c with line, completion := { c.completion with cursor }, lastCompleted }
  /-- After any presses, as many forward ones as there are names show each name once. -/
  round : ∀ presses, ((List.range names.length).map fun i =>
    (c.pressed (presses ++ List.replicate (i + 1) false)).line.text).Perm (names.map (lead ++ ·))
  /-- A press that is not the first and one the other way cancel out. -/
  cancels : ∀ first later reverse,
    c.pressed (first :: later ++ [reverse, !reverse]) = c.pressed (first :: later)

section Circling
variable {c : Console} {lead : String} {names : List String} (h : Circling c lead names)
  (hstart : c.completion.cursor = none)
include h hstart

theorem Circling.shows (first : Bool) (later : List Bool) :
    (names.map (lead ++ ·))[place names.length first later]? =
      some (c.pressed (first :: later)).line.text := by
  obtain ⟨name, hname, hpressed⟩ := h.pressed hstart first later
  rw [List.getElem?_map, hname, hpressed]
  show some (lead ++ name) = some (c.line.set (lead ++ name)).text
  rw [c.line.text_set (h.printable name (List.mem_of_getElem? hname))]

theorem Circling.round (presses : List Bool) : ((List.range names.length).map fun i =>
    (c.pressed (presses ++ List.replicate (i + 1) false)).line.text).Perm
      (names.map (lead ++ ·)) := by
  have hpos : 0 < names.length := Nat.zero_lt_of_lt h.several
  -- the round starts at the place after the one where the presses end
  obtain ⟨j, hj⟩ : ∃ j, ∀ i, (names.map (lead ++ ·))[(j + i) % names.length]? =
      some (c.pressed (presses ++ List.replicate (i + 1) false)).line.text := by
    cases presses with
    | nil =>
      refine ⟨0, fun i => ?_⟩
      have hplace := place_replicate hpos false [] i
      rw [place_nil hpos, if_neg Bool.false_ne_true] at hplace
      rw [← hplace, List.nil_append, List.nil_append, List.replicate_succ]
      exact h.shows hstart false (List.replicate i false)
    | cons first later =>
      refine ⟨place names.length first later + 1, fun i => ?_⟩
      have hplace := place_replicate hpos first later (i + 1)
      rw [Nat.add_assoc, Nat.add_comm 1 i, ← hplace, List.cons_append]
      exact h.shows hstart first _
  have hlength : (names.map (lead ++ ·)).length = names.length := List.length_map _
  rw [← hlength] at hj ⊢
  exact perm_of_circle j fun i _ => hj i

theorem Circling.walksCircle (hdistinct : names.Nodup) : WalksCircle c lead names where
  candidates := h.candidates
  distinct := hdistinct
  shows := h.shows hstart
  answers presses reverse := by
    obtain ⟨name, -, hcycle⟩ := (h.after hstart presses).cycle reverse
    rw [hcycle]
  quiet presses := by
    cases presses with
    | nil => exact ⟨_, _, _, rfl⟩
    | cons first later =>
      obtain ⟨name, -, hpressed⟩ := h.pressed hstart first later
      exact ⟨_, _, _, hpressed⟩
  round := h.round hstart
  cancels first later reverse := by
    have hpos : 0 < names.length := Nat.zero_lt_of_lt h.several
    obtain ⟨name, hname, hpressed⟩ := h.pressed hstart first later
    obtain ⟨name', hname', hpressed'⟩ := h.pressed hstart first (later ++ [reverse, !reverse])
    rw [place_undone hpos] at hname' hpressed'
    obtain rfl := Option.some.inj (hname.symm.trans hname')
    rw [List.cons_append, hpressed', hpressed]

end Circling

/-- **The completion key walks through the candidates in a circle.** A first press that finds several
candidates completes the line, and the next presses, in any directions and with nothing else done in
between, show the candidates one after another behind what stands before the last word, beginning with
the first one or, in reverse, with the last. -/
theorem cycle_walksCircle {c : Console} (h : c.TablesReachable) (hplain : c.PlainNames)
    (hline : ∀ ch ∈ c.line.chars, printable ch = true) (hfirst : ¬ c.GoesOn) (reverse : Bool)
    (hseveral : 2 ≤ (c.cycle reverse).1) :
    let before := String.ofList (splitLastWord c.line.chars).1
    let word := String.ofList (splitLastWord c.line.chars).2
    let names := candidates c.commands c.vars c.aliases word
    (c.cycle reverse).1 = names.length ∧ WalksCircle (c.cycle reverse).2 before names := by
  intro before word names
  have hcount : (c.cycle reverse).1 = names.length := count_of_not_goesOn hfirst reverse
  refine ⟨hcount, ?_⟩
  rw [hcount] at hseveral
  have hcompletion := c.completion_complete c.line.text true true
  rw [cycle_of_not_goesOn hfirst reverse]
  dsimp only
  generalize (c.complete c.line.text true true).2 = done at hcompletion ⊢
  rw [LineBuffer.text, String.toList_ofList] at hcompletion
  have hcircling : Circling { done with lastCompleted := some done.line.text } before names :=
    { candidates := congrArg Completion.candidates hcompletion
      several := hseveral
      printable := fun name hname =>
        printable_replaced hline (hplain name (mem_names_of_mem_candidates h hname).1)
      current := rfl }
  have hdistinct : names.Nodup :=
    (merged_candidates h.grown.commands h.grown.vars h.grown.aliases word).nodup
  exact hcircling.walksCircle (congrArg Completion.cursor hcompletion) hdistinct

/-- The console with a line that is not finished. -/
def unfinished : Console := (helmed.perform (.edit (·.set "echo; @he"))).2

theorem cycle_walksCircle_unfinished :
    let c := (unfinished.cycle true).2
    (unfinished.cycle true).1 = 2 ∧ (c.pressed [false]).line.text = "echo; @HELM" ∧
      (c.pressed [true]).line.text = "echo; @help" ∧
      (c.pressed [true, true, true]).line.text = "echo; @help" ∧
      c.pressed [true, false, true] = c.pressed [true] := by
  have htables : unfinished.TablesReachable := (reachable_helmed.perform _).tables
  have hplain : unfinished.PlainNames := plainNames_helmed
  have hchars : unfinished.line.chars = "echo; @he".toList := by decide +kernel
  have hsplit : splitLastWord "echo; @he".toList = ("echo; @".toList, "he".toList) := by decide +kernel
  have hline : ∀ ch ∈ unfinished.line.chars, printable ch = true := by
    rw [hchars]
    exact List.all_eq_true.mp (by decide +kernel)
  have hsame : SameTables helmed unfinished := sameTables_perform rfl helmed
  have hcandidates : candidates unfinished.commands unfinished.vars unfinished.aliases "he" =
      ["HELM", "help"] := by
    rw [hsame.commands, hsame.vars, hsame.aliases, candidates_helmed]
  have hnone : unfinished.lastCompleted = none := by decide +kernel
  have hfirst : ¬ unfinished.GoesOn := fun hgoes => nomatch hnone.symm.trans hgoes.2
  have hseveral : 2 ≤ (unfinished.cycle true).1 := by
    rw [count_of_not_goesOn hfirst, hchars, hsplit, String.ofList_toList, hcandidates]
    decide
  obtain ⟨hcount, hcircle⟩ := cycle_walksCircle htables hplain hline hfirst true hseveral
  rw [hchars, hsplit, String.ofList_toList, String.ofList_toList] at hcircle
  rw [hchars, hsplit, String.ofList_toList, hcandidates] at hcount
  rw [hcandidates] at hcircle
  have hshown : ∀ first later text, ["echo; @HELM", "echo; @help"][place 2 first later]? = some text →
      ((unfinished.cycle true).2.pressed (first :: later)).line.text = text :=
    fun first later text htext => Option.some.inj ((hcircle.shows first later).symm.trans htext)
  exact ⟨hcount, hshown false [] _ (by decide), hshown true [] _ (by decide),
    hshown true [true, true] _ (by decide), hcircle.cancels true [] false⟩

end Console

end DevConsole
