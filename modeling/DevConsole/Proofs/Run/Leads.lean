import DevConsole.Proofs.Editor.Completing

/-!
# Names that begin with a text

There are two ways to find the names that begin with a text: the trie walks from where the folded bytes
of the text lead, and `cvarlist` looks at as many bytes of each sorted name as the text has. Such a
beginning is there only if the bytes end between two characters, and folding keeps the number of bytes,
so both find the same names (`hasLead_eq`), in the same order (`listed_startingWith`).
-/

namespace DevConsole

open Text

/-- **The first bytes of a name are the text, but for case, exactly if the name begins with it.** -/
theorem Builtin.hasLead_eq (lead name : String) : hasLead lead name = startsName lead name := by
  rw [Bool.eq_iff_iff, startsName_iff_exists, hasLead]
  constructor
  · intro h
    split at h
    · next head hhead => exact ⟨head, isPrefix_of_takeBytes? hhead, eq_of_beq h⟩
    · cases h
  · rintro ⟨head, hhead, hfold⟩
    have hlength : byteLength head = byteLength lead.toList := by
      rw [← byteLength_foldChars, hfold, byteLength_foldChars]
    rw [takeBytes?_eq_some_iff.mpr ⟨hhead, hlength⟩]
    exact beq_iff_eq.mpr hfold

namespace Registry

variable {α : Type} [Named α] {r : Registry α}

/-- The names of the sorted entries that begin with a text are those that the trie has for it. -/
theorem Sound.map_name_filter_sorted (h : r.Sound) (lead : String) :
    (r.sorted.filter fun e => startsName lead (Named.name e)).map Named.name =
      r.startingWith lead := by
  refine eq_of_ascending id (List.pairwise_map.mpr (h.listed.ascending.filter _))
    (h.startingWith_ascending lead) fun name => ?_
  simp only [h.mem_startingWith_iff, List.mem_map, List.mem_filter, h.sorted_perm.mem_iff]
  constructor
  · rintro ⟨e, ⟨he, hlead⟩, rfl⟩
    exact ⟨⟨e, he, rfl⟩, hlead⟩
  · rintro ⟨⟨e, he, rfl⟩, hlead⟩
    exact ⟨e, ⟨he, hlead⟩, rfl⟩

end Registry

namespace Variables

/-- **`cvarlist` lists the variables that the trie has for a text**, in the same order: for every store
that calls lead to and every text, the names that are kept are those that the trie walk finds, and what
is printed are the lines of these variables and their number. -/
theorem listed_startingWith (s : Variables) (hs : s.Reachable) (lead : String) :
    (Builtin.listedVariables s lead).map (·.name) = s.startingWith lead ∧
    Builtin.listedVariables s lead = (s.startingWith lead).filterMap s.get? ∧
    ∀ (c : Console) (args : Args), c.vars = s → (args.get? 0).getD "" = lead →
      c.Lists (Builtin.cvarlist args) (((s.startingWith lead).filterMap s.get?).map (·.listing) ++
        [Number.natText (s.startingWith lead).length ++ " variables"]) := by
  have hsound := hs.sound.registry
  have hkept : Builtin.listedVariables s lead =
      s.sorted.filter fun v => startsName lead (Named.name v) :=
    List.filter_congr fun v _ => Builtin.hasLead_eq lead v.name
  have hnames : (Builtin.listedVariables s lead).map Named.name = s.startingWith lead := by
    rw [hkept]
    exact hsound.map_name_filter_sorted lead
  have hfound : Builtin.listedVariables s lead = (s.startingWith lead).filterMap s.get? := by
    have hmem : ∀ v ∈ Builtin.listedVariables s lead, v ∈ s.registry.entries := fun v hv =>
      hsound.sorted_perm.mem_iff.mp (List.mem_filter.mp hv).1
    rw [← hnames]
    exact (hsound.filterMap_get? hmem).symm
  refine ⟨hnames, hfound, ?_⟩
  rintro c args rfl rfl
  have hlists := Console.lists_cvarlist c args
  rw [Console.variableLines, List.length_map] at hlists
  rw [← hfound, ← hnames, List.length_map]
  exact hlists

/-- Variables whose names hold characters of two and three bytes. -/
def coloured : Variables :=
  [.create "GRÜN" (.text "dark") .empty, .create "gr€y" (.text "costly") .empty,
    .create "GRüße" (.text "kind") .empty, .create "grün" (.text "pale") .empty,
    .create "gr" (.text "short") .empty].foldl Call.run .empty

/-- Four bytes end in the middle of a character, are another letter to the names, or are not there. -/
theorem listed_startingWith_coloured : coloured.Reachable ∧
    coloured.sorted.map (·.name) = ["gr", "GRÜN", "grün", "GRüße", "gr€y"] ∧
    (Builtin.listedVariables coloured "gRü").map (·.name) = ["grün", "GRüße"] ∧
    coloured.startingWith "gRü" = ["grün", "GRüße"] ∧
    Console.Lists { vars := coloured } (Builtin.cvarlist ⟨"cvarlist", "cvarlist gRü", ["gRü"]⟩)
      ["grün = \"pale\" [temp]", "GRüße = \"kind\" [temp]", "2 variables"] := by
  have hreachable : coloured.Reachable := reachable_calls _ .empty
  have hnames : coloured.startingWith "gRü" = ["grün", "GRüße"] := by decide +kernel
  obtain ⟨hkept, _, hlists⟩ := listed_startingWith coloured hreachable "gRü"
  have hlines : ((coloured.startingWith "gRü").filterMap coloured.get?).map (·.listing) =
      ["grün = \"pale\" [temp]", "GRüße = \"kind\" [temp]"] := by decide +kernel
  have hsize : Number.natText ["grün", "GRüße"].length ++ " variables" = "2 variables" := by
    rw [Number.natText, Number.digitChars]
    rfl
  refine ⟨hreachable, by decide +kernel, hkept.trans hnames, hnames, ?_⟩
  have hprinted := hlists { vars := coloured } ⟨"cvarlist", "cvarlist gRü", ["gRü"]⟩ rfl rfl
  rwa [hlines, hnames, hsize] at hprinted

end Variables

end DevConsole
