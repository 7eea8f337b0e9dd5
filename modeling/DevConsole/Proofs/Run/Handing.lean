import DevConsole.Proofs.Run.TurnLaw
import Mathlib.Data.List.Chain

/-!
# Lines handed from stage to stage

The turns of a run that the same origins run are one level of it. On a level the turn after a stage
that hands lines over is the one of the next stage, and that stage starts with these lines piped; a
level of a run that ends does not end with a stage that hands lines over (`HandedOn`). The stages of
a statement are on the level of the statement, and all they run is deeper, so this is a law of whole
pipelines (`handsOn_law`).
-/

namespace DevConsole

/-- The lines that a stage hands over. -/
def Part.handed? : Part → Option (List String)
  | .statement _ => none
  | .stage _ _ handed => handed

namespace Turn

/-- If the first turn is one of a stage that hands lines over, the second is one of a stage that
starts with these lines piped. -/
def Feeds (t u : Turn) : Prop :=
  ∀ lines, t.part.handed? = some lines →
    (∃ text ms handed, u.part = .stage text ms handed) ∧ u.console.activity.piped = some lines

/-- The turns that just these origins run. -/
def level (os : List Origin) (ts : List Turn) : List Turn := ts.filter (·.origins = os)

@[simp] theorem level_nil (os : List Origin) : level os [] = [] := rfl

theorem level_append (os : List Origin) (ts us : List Turn) :
    level os (ts ++ us) = level os ts ++ level os us := List.filter_append ..

theorem level_nil_under (o : Origin) (ts : List Turn) : level [] (ts.map (·.under o)) = [] := by
  refine List.filter_eq_nil_iff.mpr fun t ht => ?_
  obtain ⟨u, -, rfl⟩ := List.mem_map.mp ht
  simp [under]

theorem level_cons_under (o o' : Origin) (os : List Origin) (ts : List Turn) :
    level (o' :: os) (ts.map (·.under o)) =
      if o = o' then (level os ts).map (·.under o) else [] := by
  rw [level, List.filter_map]
  split
  · next heq =>
    subst heq
    refine congrArg (List.map _) (List.filter_congr fun t _ => ?_)
    simp [under]
  · next hne =>
    rw [List.filter_eq_nil_iff.mpr fun t _ => by simp [under, hne], List.map_nil]

theorem level_cons_self (t : Turn) (ts : List Turn) (h : t.origins = []) :
    level [] (t :: ts) = t :: level [] ts := List.filter_cons_of_pos (by simp [h])

theorem level_cons_ne (t : Turn) (ts : List Turn) (h : t.origins = []) {os : List Origin}
    (hos : os ≠ []) : level os (t :: ts) = level os ts :=
  List.filter_cons_of_neg (by simp [h, hos.symm])

theorem level_nil_of_not_typed {ts : List Turn} (h : ∀ t ∈ ts, t.isTyped = false) :
    level [] ts = [] := by
  refine List.filter_eq_nil_iff.mpr fun t ht => ?_
  simpa [isTyped] using h t ht

theorem feeds_of_handed {t u : Turn} (h : t.part.handed? = none) : Feeds t u := by
  intro lines hlines
  rw [h] at hlines
  cases hlines

end Turn

open Turn (following level)

/-- On each level a stage that hands lines over is followed by one that starts with them, and if the
run has ended, no level ends with a stage that hands lines over. -/
structure HandedOn (ended : Bool) (ts : List Turn) : Prop where
  next : ∀ os, (level os ts).IsChain Turn.Feeds
  last : ended = true → ∀ os, ∀ t ∈ (level os ts).getLast?, t.part.handed? = none

namespace HandedOn

variable {ended : Bool} {ts us : List Turn}

theorem nil : HandedOn ended [] := ⟨fun _ => .nil, fun _ _ _ ht => by cases ht⟩

theorem unended (h : HandedOn ended ts) : HandedOn false ts := ⟨h.next, nofun⟩

theorem append (h : HandedOn true ts) (h' : HandedOn ended us) : HandedOn ended (ts ++ us) where
  next os := by
    rw [Turn.level_append]
    exact (h.next os).append (h'.next os) fun t ht u _ => Turn.feeds_of_handed (h.last rfl os t ht)
  last hended os t ht := by
    rw [Turn.level_append, List.getLast?_append, Option.mem_def, Option.or_eq_some_iff] at ht
    obtain ht | ⟨-, ht⟩ := ht
    · exact h'.last hended os t ht
    · exact h.last rfl os t ht

theorem under (h : HandedOn ended ts) (o : Origin) : HandedOn ended (ts.map (·.under o)) where
  next
    | [] => by rw [Turn.level_nil_under]; exact .nil
    | o' :: os => by
      rw [Turn.level_cons_under]
      split
      · exact (List.isChain_map _).mpr (h.next os)
      · exact .nil
  last hended
    | [], t, ht => by rw [Turn.level_nil_under] at ht; cases ht
    | o' :: os, t, ht => by
      rw [Turn.level_cons_under] at ht
      split at ht
      · rw [List.getLast?_map] at ht
        obtain ⟨u, hu, rfl⟩ := Option.map_eq_some_iff.mp ht
        exact h.last hended os u hu
      · cases ht

/-- A typed turn in front of those that it feeds. -/
theorem cons {t : Turn} (ht : t.origins = []) (h : HandedOn ended us)
    (hfeeds : ∀ u ∈ (level [] us).head?, t.Feeds u)
    (hlast : ended = true → level [] us = [] → t.part.handed? = none) :
    HandedOn ended (t :: us) where
  next os := by
    by_cases hos : os = []
    · rw [hos, Turn.level_cons_self t us ht]
      exact List.isChain_cons.mpr ⟨hfeeds, h.next []⟩
    · rw [Turn.level_cons_ne t us ht hos]
      exact h.next os
  last hended os u hu := by
    by_cases hos : os = []
    · rw [hos, Turn.level_cons_self t us ht, List.getLast?_cons] at hu
      obtain rfl := Option.some.inj hu
      cases hv : (level [] us).getLast? with
      | none => exact hlast hended (List.getLast?_eq_none_iff.mp hv)
      | some v => exact h.last hended [] v hv
    · rw [Turn.level_cons_ne t us ht hos] at hu
      exact h.last hended os u hu

end HandedOn

namespace Console

/-- In a run, lines are handed on, to the end if the run ends. -/
def HandsOn (_ : Console) (x : Watched Console) (ts : List Turn) : Prop :=
  HandedOn x.result.isSome ts

theorem handsOn_nil (c : Console) (x : Watched Console) : HandsOn c x [] := .nil

theorem HandsOn.bind {c : Console} {x : Watched Console} {f : Console → Watched Console}
    {ts : List Turn} {us : Console → List Turn} (hx : HandsOn c x ts)
    (hf : ∀ d, x.result = some d → HandsOn d (f d) (us d)) :
    HandsOn c (x.bind f) (ts ++ following x.result us) := by
  unfold HandsOn at hx ⊢
  rw [Watched.result_bind]
  cases hd : x.result with
  | none =>
    rw [Turn.following_none, List.append_nil]
    exact hx.unended
  | some d =>
    rw [hd] at hx
    exact hx.append (hf d hd)

/-- A scope ends if and only if what runs in it does. -/
theorem handsOn_inside {c : Console} {x : Watched Console} {s : Scope} {f : Console → Console}
    {ts : List Turn} (hx : HandedOn x.result.isSome ts) : HandsOn c ((x.within s).map f) ts := by
  unfold HandsOn
  rwa [Watched.result_map, Option.isSome_map]

/-! ### The stages of a statement -/

/-- The first typed turn is the one of a stage that starts with the lines piped, and there is one if
the run has ended. -/
structure StartsPiped (piped : Option (List String)) (ended : Bool) (ts : List Turn) : Prop where
  first : ∀ u ∈ (level [] ts).head?,
    (∃ text ms handed, u.part = .stage text ms handed) ∧ u.console.activity.piped = piped
  any : ended = true → level [] ts ≠ []

section Stages
variable {watch : LineWatcher} {turns : LineTurns}

theorem startsPiped_append {piped : Option (List String)} {ended : Bool} {ts us : List Turn}
    (hts : level [] ts = []) (hus : StartsPiped piped ended us) :
    StartsPiped piped ended (ts ++ us) := by
  have hlevel : level [] (ts ++ us) = level [] us := by rw [Turn.level_append, hts, List.nil_append]
  exact ⟨hlevel ▸ hus.first, hlevel ▸ hus.any⟩

theorem startsPiped_stageTurn (c : Console) (text : String) (x : Watched Console)
    (handed : Console → Option (List String)) {ended : Bool}
    (hended : ended = true → x.result.isSome = true) (us : Console → List Turn) :
    StartsPiped c.activity.piped ended (c.stageTurn text x handed ++ following x.result us) := by
  unfold stageTurn
  cases hx : x.result with
  | none =>
    rw [hx] at hended
    exact ⟨by simp, fun h => absurd (hended h) Bool.false_ne_true⟩
  | some d =>
    rw [Turn.following_some, Turn.following_some, List.cons_append, List.nil_append]
    refine ⟨fun u hu => ?_, fun _ => ?_⟩
    · rw [Turn.level_cons_self _ _ rfl, List.head?_cons] at hu
      obtain rfl := Option.some.inj hu
      exact ⟨⟨text, _, _, rfl⟩, rfl⟩
    · rw [Turn.level_cons_self _ _ rfl]
      exact List.cons_ne_nil _ _

/-- The stages of a statement start with what is piped to the first. -/
theorem startsPiped_stages (outer : Option (List String)) (s : String) (ss : List String)
    (piped : Option (List String)) (c : Console) :
    StartsPiped piped (watchStages watch outer (s :: ss) piped c).result.isSome
      (turnsStages watch turns outer (s :: ss) piped c) := by
  cases ss with
  | nil =>
    rw [turnsStages]
    refine startsPiped_append (Turn.level_nil_of_not_typed fun t ht => isTyped_of_mem_inside ht) ?_
    have hended : (watchStages watch outer [s] piped c).result.isSome = true → (watchStage watch
        (.ofText s) ((c.withPiped piped).withCapture outer)).result.isSome = true := by
      simp [watchStages]
    have hlast := startsPiped_stageTurn ((c.withPiped piped).withCapture outer) s _ (fun _ => none)
      hended fun _ => []
    rwa [Turn.following_nil, List.append_nil] at hlast
  | cons next ss =>
    rw [turnsStages, List.append_assoc]
    · refine startsPiped_append (Turn.level_nil_under ..) ?_
      refine startsPiped_stageTurn ((c.withPiped piped).withCapture (some [])) s _ _
        (fun hended => ?_) _
      rw [watchStages, Watched.result_bind, Watched.result_within] at hended
      · exact Option.isSome_of_isSome_bind hended
      · simp
    · simp

/-- A stage that ends has run what it runs. -/
theorem isSome_watchInside {text : String} {c d : Console}
    (h : (watchStage watch (.ofText text) c).result = some d) :
    (watchInside watch text c).result.isSome = true := by
  rw [watchStage_eq, Watched.result_bind_eq_some] at h
  obtain ⟨e, he, -⟩ := h
  rw [he]
  rfl

/-- **Each stage but the last hands its lines on to the next.** -/
theorem handsOn_stages
    (h : ∀ text c, HandsOn c (watchInside watch text c) (turnsInside watch turns text c))
    (outer : Option (List String)) : ∀ (s : String) (ss : List String)
    (piped : Option (List String)) (c : Console),
      HandsOn (c.withCapture outer) (watchStages watch outer (s :: ss) piped c)
        (turnsStages watch turns outer (s :: ss) piped c)
  | last, [], piped, c => by
    have hinside := h last ((c.withPiped piped).withCapture outer)
    unfold HandsOn at hinside ⊢
    rw [turnsStages, watchStages, Watched.result_map, Option.isSome_map, stageTurn]
    cases hd : (watchStage watch (.ofText last) ((c.withPiped piped).withCapture outer)).result with
    | none =>
      rw [Turn.following_none, List.append_nil]
      exact hinside.unended
    | some d =>
      rw [isSome_watchInside hd] at hinside
      exact hinside.append (.cons rfl .nil (by simp) fun _ _ => rfl)
  | s, next :: ss, piped, c => by
    have hinside := h s ((c.withPiped piped).withCapture (some []))
    unfold HandsOn at hinside ⊢
    rw [turnsStages, watchStages, Watched.result_bind, Watched.result_within, stageTurn]
    · cases hd : (watchStage watch (.ofText s)
          ((c.withPiped piped).withCapture (some []))).result with
      | none =>
        rw [Turn.following_none, Turn.following_none, List.append_nil, List.append_nil]
        exact (hinside.under .producer).unended
      | some d =>
        rw [isSome_watchInside hd] at hinside
        have hstarts := @startsPiped_stages watch turns outer next ss
          (some (d.activity.capture.getD [])) d
        rw [Turn.following_some, Turn.following_some, List.append_assoc, Option.bind_some]
        refine (hinside.under .producer).append
          (.cons rfl (handsOn_stages h outer next ss _ d) (fun u hu lines hlines => ?_)
            fun hended hnone => absurd hnone (hstarts.any hended))
        exact hlines ▸ hstarts.first u hu
    · simp
    · simp

end Stages

/-- **Lines are handed on in every run.** -/
theorem handsOn_law : PipeLaw .any HandsOn where
  own _ _ _ _ := trivial
  obeys _ _ _ h := h fun k _ args s => Routine.within_any (k.handler args) s
  done c := handsOn_nil c _
  stuck c := handsOn_nil c _
  bind c x f ts us _ hx hf := hx.bind hf
  operation c o _ := handsOn_nil c _
  call c line := handsOn_nil c _
  addCommand c k _ := handsOn_nil c _
  takeLine c := handsOn_nil c _
  begins c text first rest f ts _ hx := by
    unfold HandsOn at hx ⊢
    rw [Watched.result_bind, watchEcho_result, Option.bind_some]
    exact .cons rfl hx (fun u _ => Turn.feeds_of_handed rfl) fun _ _ => rfl
  submission c line x ts _ hx := handsOn_inside hx
  expansion c x ts _ hx := handsOn_inside (hx.under .expansion)
  script c x ts _ hx := handsOn_inside (hx.under .script)
  handler _ c x ts hx := hx.under .handler
  stages watch turns _ h := handsOn_stages h

end Console

end DevConsole
