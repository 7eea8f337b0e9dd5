import DevConsole.Proofs.Disk.Written

/-!
# Appending to a file that is there

A file that can be read can be written, and it lies in a directory that is there under the path without
its last name (`parent_of_read`). So what is appended to it is read behind what it held
(`readText_append`).
-/

namespace DevConsole

/-! ### Pieces of a path -/

namespace Text

/-- Between two pieces there is a separator. -/
theorem pieces_eq_append {p : Char → Bool} {cs : List Char} {xs ys : List (List Char)}
    (h : pieces p cs = xs ++ ys) (hxs : xs ≠ []) (hys : ys ≠ []) :
    ∃ as c bs, cs = as ++ c :: bs ∧ p c = true ∧ pieces p as = xs ∧ pieces p bs = ys := by
  induction cs generalizing xs with
  | nil =>
    have hlength := congrArg List.length h
    rw [List.length_append] at hlength
    have hx := List.length_pos_iff.mpr hxs
    have hy := List.length_pos_iff.mpr hys
    simp only [pieces, List.length_singleton] at hlength
    omega
  | cons c cs ih =>
    obtain ⟨x, xs, rfl⟩ := List.exists_cons_of_ne_nil hxs
    by_cases hc : p c = true
    · rw [pieces, if_pos hc, List.cons_append] at h
      obtain ⟨rfl, hrest⟩ := List.cons.inj h
      cases xs with
      | nil => exact ⟨[], c, cs, rfl, hc, rfl, hrest⟩
      | cons x xs =>
        obtain ⟨as, d, bs, rfl, hd, hx, hy⟩ := ih hrest (by simp)
        exact ⟨c :: as, d, bs, rfl, hd, by rw [pieces, if_pos hc, hx], hy⟩
    · obtain ⟨w, ws, hw⟩ := List.exists_cons_of_ne_nil (pieces_ne_nil p cs)
      rw [pieces, if_neg hc, hw, List.cons_append] at h
      obtain ⟨rfl, rfl⟩ := List.cons.inj h
      have hpieces : pieces p cs = (w :: xs) ++ ys := hw
      obtain ⟨as, d, bs, rfl, hd, hx, hy⟩ := ih hpieces (by simp)
      exact ⟨c :: as, d, bs, rfl, hd, by rw [pieces, if_neg hc, hx], hy⟩

/-- The pieces with their separators between them are the text. -/
theorem join_pieces (cs : List Char) :
    (join "/" ((pieces (· == '/') cs).map String.ofList)).toList = cs := by
  induction cs with
  | nil => rfl
  | cons c cs ih =>
    obtain ⟨w, ws, hw⟩ := List.exists_cons_of_ne_nil (pieces_ne_nil (· == '/') cs)
    rw [hw, List.map_cons, toList_join_cons] at ih
    by_cases hc : (c == '/') = true
    · obtain rfl := beq_iff_eq.mp hc
      rw [pieces, if_pos hc, hw, List.map_cons, List.map_cons, toList_join_cons, List.flatMap_cons]
      simpa using ih
    · rw [pieces, if_neg hc, hw, List.map_cons, toList_join_cons]
      simpa using ih

end Text

namespace Path

/-- The names of the pieces of a path. -/
def namesOf (ps : List (List Char)) : List String := (ps.filter (· ≠ [])).map String.ofList

theorem namesOf_append (ps qs : List (List Char)) : namesOf (ps ++ qs) = namesOf ps ++ namesOf qs := by
  rw [namesOf, List.filter_append, List.map_append]
  rfl

/-- What is dropped from the end of a path is hollow, and what remains ends in a name. -/
theorem dropHollow_cases (ps : List (List Char)) : ∃ hollow, ps = hollow ++ dropHollow ps ∧
    (∀ p ∈ hollow, p = [] ∨ p = ['.']) ∧ ∀ p ∈ (dropHollow ps).head?, p ≠ [] := by
  fun_induction dropHollow ps with
  | case1 => exact ⟨[], rfl, by simp, by simp⟩
  | case2 => exact ⟨[[]], rfl, by simp, by simp⟩
  | case3 p hp => exact ⟨[], rfl, by simp, by simpa using hp⟩
  | case4 p ps _ hp ih =>
    obtain ⟨hollow, hsplit, hall, hhead⟩ := ih
    refine ⟨p :: hollow, by rw [List.cons_append, ← hsplit], ?_, hhead⟩
    exact List.forall_mem_cons.mpr ⟨hp, hall⟩
  | case5 p ps _ hp => exact ⟨[], rfl, by simp, by simpa using fun h => hp (.inl h)⟩

theorem names_ofText (path : String) : (ofText path).names = namesOf (pieces path) := rfl

theorem eq_dot_of_hollow {hollow : List (List Char)} (h : ∀ p ∈ hollow, p = [] ∨ p = ['.']) :
    ∀ name ∈ namesOf hollow, name = "." := by
  intro name hname
  obtain ⟨p, hp, rfl⟩ := List.mem_map.mp hname
  obtain ⟨hmem, hne⟩ := List.mem_filter.mp hp
  rcases h p hmem with rfl | rfl
  · simp at hne
  · rfl

/-- **The path without its last name** leads on over nothing but dots to where that name is looked for,
and it is no longer than the path. -/
theorem parent_cases {path : String} {qs : List (List Char)} {p : List Char}
    (hpieces : pieces path = qs ++ [p]) (hname : p ≠ [] ∧ p ≠ ['.']) : parent path = "" ∨
      ∃ dots, (∀ name ∈ dots, name = ".") ∧ namesOf qs = (ofText (parent path)).names ++ dots ∧
        parent path ≠ "" ∧ ∃ rest, path.toList = (parent path).toList ++ '/' :: rest := by
  obtain ⟨hollow, hsplit, hall, hhead⟩ := dropHollow_cases qs.reverse
  have hlast : dropHollow (p :: qs.reverse) = p :: qs.reverse := by
    cases qs.reverse with
    | nil => rw [dropHollow, if_neg hname.1]
    | cons q qs => rw [dropHollow, if_neg (not_or.mpr hname)]; simp
  have hparent : parent path = Text.join "/" ((dropHollow qs.reverse).reverse.map String.ofList) := by
    rw [parent, hpieces, List.reverse_concat, hlast, List.tail_cons]
  obtain ⟨ps, hps⟩ : ∃ ps, ps = (dropHollow qs.reverse).reverse := ⟨_, rfl⟩
  have hqs : qs = ps ++ hollow.reverse := by
    rw [hps, ← List.reverse_append, ← hsplit, List.reverse_reverse]
  rw [← hps] at hparent
  by_cases hnone : ps = []
  · exact .inl (by rw [hparent, hnone]; rfl)
  · right
    rw [hqs, List.append_assoc] at hpieces
    obtain ⟨as, c, bs, hpath, hc, has, -⟩ := Text.pieces_eq_append hpieces hnone (by simp)
    obtain rfl := beq_iff_eq.mp hc
    have htext : (parent path).toList = as := by rw [hparent, ← has, Text.join_pieces]
    refine ⟨namesOf hollow.reverse, eq_dot_of_hollow fun q hq => hall q (List.mem_reverse.mp hq), ?_,
      fun hempty => ?_, bs, by rw [htext, hpath]⟩
    · rw [hqs, namesOf_append, names_ofText, pieces, htext, has]
    · obtain rfl : [] = as := by rw [← htext, hempty]; rfl
      have hlast : (dropHollow qs.reverse).head? = some [] := by
        rw [← List.getLast?_reverse, ← hps, ← has]
        rfl
      exact hhead [] hlast rfl

end Path

namespace Disk

variable {d : Disk} {start finish place : List String} {content : ByteArray}

/-- A walk over names that follow others is a walk from where these lead. -/
theorem walk_append_eq_ok {names names' : List String}
    (h : d.walk start (names ++ names') = .ok finish) :
    ∃ middle, d.walk start names = .ok middle ∧ d.walk middle names' = .ok finish := by
  induction names generalizing start with
  | nil => exact ⟨start, rfl, h⟩
  | cons name names ih =>
    obtain ⟨hstart, next, hnext, hstep⟩ := walk_cons_eq_ok h
    obtain ⟨middle, hmiddle, hrest⟩ := ih hnext
    exact ⟨middle, (hstep d names hstart).trans hmiddle, hrest⟩

/-- A dot leads nowhere else. -/
theorem walk_dot (h : d.find? start = some .directory) (names : List String) :
    d.walk start ("." :: names) = d.walk start names := by
  rw [walk, h]
  exact (if_neg (by decide)).trans (if_pos rfl)

theorem walk_dots {names : List String} (hdots : ∀ name ∈ names, name = ".")
    (h : d.walk start names = .ok finish) : finish = start := by
  induction names with
  | nil => exact (Except.ok.inj h).symm
  | cons name names ih =>
    obtain ⟨rfl, hrest⟩ := List.forall_mem_cons.mp hdots
    rw [walk_dot (walk_cons_eq_ok h).1] at h
    exact ih hrest h

/-- What can be read is a file, and the path, which does not ask for a directory, leads to it. -/
theorem read_eq_ok {path : String} (h : d.read path = .ok content) : ∃ place,
    Path.fault? path = none ∧ (Path.ofText path).asDirectory = false ∧
      d.walk [] (Path.ofText path).names = .ok place ∧ d.find? place = some (.file content) := by
  rw [read] at h
  obtain ⟨node, hnode, h⟩ := of_bind_eq_ok h
  rw [Disk.node] at hnode
  obtain ⟨place, hplace, hnode⟩ := of_bind_eq_ok hnode
  rw [resolve] at hplace
  cases hfault : Path.fault? path with
  | some fault => rw [hfault] at hplace; cases hplace
  | none =>
    rw [hfault] at hplace
    refine ⟨place, rfl, ?_⟩
    cases hfind : d.find? place with
    | none => rw [hfind] at hnode; cases hnode
    | some found =>
      rw [hfind] at hnode
      cases found with
      | directory => cases hnode; cases h
      | file old =>
        dsimp only at hnode
        cases hslash : (Path.ofText path).asDirectory with
        | true => rw [hslash] at hnode; cases hnode
        | false =>
          rw [hslash] at hnode
          cases hnode
          cases h
          exact ⟨rfl, hplace, rfl⟩

/-- **A file that can be read can be written**, and it is there that it is read. -/
theorem writable_of_read {path : String} (h : d.read path = .ok content) :
    ∃ place, d.writable path = .ok (place, content) := by
  obtain ⟨place, hfault, hslash, hwalk, hfind⟩ := read_eq_ok h
  refine ⟨place, ?_⟩
  rcases List.eq_nil_or_concat (Path.ofText path).names with hnames | ⟨names, name, hnames⟩
  · -- the top is a directory
    rw [hnames] at hwalk
    obtain rfl := Except.ok.inj hwalk
    cases hfind
  · rw [hnames, List.concat_eq_append] at hwalk
    obtain ⟨above, habove, hlast⟩ := walk_append_eq_ok hwalk
    have hdirectory := (walk_cons_eq_ok hlast).1
    simp [writable, hfault, hnames, habove, hdirectory, hslash, hlast, hfind, bind, Except.bind, pure,
      Except.pure]

/-- A path that is only shorter is no worse. -/
theorem fault?_eq_none {path : String} {cs rest : List Char} (h : Path.fault? path = none)
    (hpath : path.toList = cs ++ rest) (hne : cs ≠ []) : Path.fault? (String.ofList cs) = none := by
  unfold Path.fault? at h ⊢
  rw [hpath, Text.byteLength_append] at h
  split_ifs at h with hzero hempty hlong
  rw [String.toList_ofList, if_neg fun hmem => hzero (List.mem_append_left rest hmem), if_neg, if_neg]
  · omega
  · intro hnil
    exact hne (by rw [← String.toList_ofList (l := cs), hnil]; rfl)

/-- **A file that can be read lies in a directory that is there.** -/
theorem parent_of_read {path : String} (h : d.read path = .ok content) :
    Path.parent path = "" ∨ d.pathExists (Path.parent path) = true := by
  obtain ⟨place, hfault, hslash, hwalk, hfind⟩ := read_eq_ok h
  obtain ⟨qs, p, hpieces⟩ : ∃ qs p, Path.pieces path = qs ++ [p] := by
    rcases List.eq_nil_or_concat (Path.pieces path) with hnil | ⟨qs, p, hconcat⟩
    · exact absurd hnil (Text.pieces_ne_nil _ _)
    · exact ⟨qs, p, by rw [hconcat, List.concat_eq_append]⟩
  have hnames : (Path.ofText path).names = Path.namesOf qs ++ Path.namesOf [p] := by
    rw [Path.names_ofText, hpieces, Path.namesOf_append]
  have hp : p ≠ [] := by
    rintro rfl
    by_cases hempty : path = ""
    · rw [hempty] at hfault
      cases hfault
    · rw [Path.ofText, hpieces, List.getLast?_concat] at hslash
      simp [hempty] at hslash
  rw [hnames] at hwalk
  obtain ⟨above, habove, hlast⟩ := walk_append_eq_ok hwalk
  have hname : Path.namesOf [p] = [String.ofList p] := by simp [Path.namesOf, hp]
  rw [hname] at hlast
  have hdirectory := (walk_cons_eq_ok hlast).1
  have hdot : p ≠ ['.'] := by
    rintro rfl
    have hstay : d.walk above ["."] = .ok place := hlast
    rw [walk_dot hdirectory] at hstay
    obtain rfl := Except.ok.inj hstay
    cases hdirectory.symm.trans hfind
  rcases Path.parent_cases hpieces ⟨hp, hdot⟩ with hempty | ⟨dots, hdots, hsplit, hne, rest, hrest⟩
  · exact .inl hempty
  · right
    rw [hsplit] at habove
    obtain ⟨middle, hmiddle, hstay⟩ := walk_append_eq_ok habove
    obtain rfl := walk_dots hdots hstay
    have hparent : Path.fault? (Path.parent path) = none := by
      have hfree := fault?_eq_none hfault hrest fun hnil => hne (String.toList_eq_nil_iff.mp hnil)
      rwa [String.ofList_toList] at hfree
    have hresolve : d.resolve (Path.parent path) = .ok above := by
      rw [resolve, hparent]
      exact hmiddle
    simp [pathExists, node, hresolve, hdirectory, bind, Except.bind, pure, Except.pure,
      Except.toOption]

/-- **What is appended to a file that can be read is read behind what it held.** -/
theorem readText_append {path old : String} (h : d.readText path = .ok old) (new : String) :
    ∃ d', d.append path new.toUTF8 = .ok d' ∧ d'.readText path = .ok (old ++ new) := by
  rw [readText] at h
  obtain ⟨bytes, hbytes, h⟩ := of_bind_eq_ok h
  have hold : bytes = old.toUTF8 := by
    cases htext : String.fromUTF8? bytes with
    | none => rw [htext] at h; cases h
    | some text =>
      rw [htext] at h
      obtain rfl := Except.ok.inj h
      rw [String.fromUTF8?] at htext
      split at htext
      · obtain rfl := Option.some.inj htext
        rfl
      · cases htext
  obtain ⟨place, hplace⟩ := writable_of_read hbytes
  have happend : d.append path new.toUTF8 = .ok (d.put place (.file (bytes ++ new.toUTF8))) := by
    rw [append, hplace]
    rfl
  have hdecoded : String.fromUTF8? (bytes ++ new.toUTF8) = some (old ++ new) := by
    rw [hold, show old.toUTF8 ++ new.toUTF8 = (old ++ new).toUTF8 from String.toByteArray_append.symm]
    exact dif_pos (old ++ new).isValidUTF8
  refine ⟨_, happend, ?_⟩
  simp only [readText, read_put hplace, bind, Except.bind, hdecoded]
  rfl

end Disk

end DevConsole
