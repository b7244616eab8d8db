import Templating.Proofs.Disk.Tree

/-! What changes in a tree. A directory is made in one that was there, so a tree stays sound and
only grows, and a file that is written takes the place of the file of its name
and of nothing else. -/
namespace Templating.Disk.Tree
variable {t t' t'' : Tree} {p q r : Path} {s text path name : String} {names rest : List String}

theorem change_ok {f : Tree → Except Error Tree} (h : f t = .ok t') :
    change f t = (.ok (), t') := by
  rw [change, h]

/-! A file -/

theorem entry?_putFile (t : Tree) (p : Path) (text : String) (q : Path) :
    Tree.entry? (t.putFile p text) q = if q = p then some (.file text) else t.entry? q := by
  rw [Tree.entry?, putFile, List.find?_append]
  by_cases h : q = p
  · subst h
    have hgone : (t.files.filter (·.1 != q)).find? (·.1 == q) = none := by
      rw [List.find?_eq_none]
      intro e he
      simpa using (List.mem_filter.mp he).2
    simp [hgone]
  · have hkept : (t.files.filter (·.1 != p)).find? (·.1 == q) = t.files.find? (·.1 == q) := by
      rw [List.find?_filter]
      congr 1
      funext e
      by_cases he : e.1 = q
      · simp [he, h]
      · simp [he]
    have hnew : [(p, text)].find? (·.1 == q) = none := by simp [Ne.symm h]
    rw [hkept, hnew, Option.or_none, if_neg h]
    rfl

theorem isDirectory_putFile (h : t.isDirectory p = false) (text : String) (q : Path) :
    (t.putFile p text).isDirectory q = t.isDirectory q := by
  unfold isDirectory at h ⊢
  rw [entry?_putFile]
  split
  next heq =>
    rw [heq, h]
    rfl
  · rfl

/-! What grows -/

/-- What stood in a tree stands there still, no file has come, and paths start where they did. -/
structure Grows (t t' : Tree) : Prop where
  kept : ∀ p e, t.entry? p = some e → t'.entry? p = some e
  files : ∀ p text, t'.entry? p = some (.file text) → t.entry? p = some (.file text)
  current : t'.current = t.current

theorem Grows.refl (t : Tree) : Grows t t := ⟨fun _ _ h => h, fun _ _ h => h, rfl⟩

theorem Grows.trans (h : Grows t t') (h' : Grows t' t'') : Grows t t'' :=
  ⟨fun p e he => h'.kept p e (h.kept p e he), fun p text he => h.files p text (h'.files p text he),
    h'.current.trans h.current⟩

theorem Grows.isDirectory (h : Grows t t') (hp : t.isDirectory p = true) :
    t'.isDirectory p = true :=
  isDirectory_iff.mpr (h.kept p _ (isDirectory_iff.mp hp))

theorem mem_directories_addDirectory : q ∈ (t.addDirectory p).directories ↔ q ∈ t.directories ∨
    q.parts <+: p.parts := by
  have hinsert : ∀ (ps ds : List Path), q ∈ ps.foldl (fun ds d => ds.insert d) ds ↔
      q ∈ ds ∨ q ∈ ps := by
    intro ps
    induction ps with
    | nil => simp
    | cons d ps ih =>
      intro ds
      rw [List.foldl_cons, ih, List.mem_insert_iff, List.mem_cons]
      tauto
  rw [← Path.mem_way]
  exact hinsert p.way t.directories

theorem entry?_addDirectory (t : Tree) (p q : Path) :
    Tree.entry? (t.addDirectory p) q =
      (t.entry? q).or (if q.parts <+: p.parts then some .directory else none) := by
  have hfiles : (t.addDirectory p).files = t.files := rfl
  have hdirectories :
      (t.addDirectory p).directories.contains q =
      (t.directories.contains q || decide (q.parts <+: p.parts)) := by
    rw [Bool.eq_iff_iff]
    simp [mem_directories_addDirectory]
  rw [Tree.entry?, Tree.entry?, hfiles, hdirectories]
  cases t.files.find? (·.1 == q) with
  | some e => rfl
  | none =>
    simp only [Bool.or_eq_true, decide_eq_true_eq]
    by_cases hold : q.parts.isEmpty = true ∨ t.directories.contains q = true
    · rw [if_pos hold, if_pos (by tauto)]
      rfl
    · rw [if_neg hold, Option.none_or]
      exact if_congr (by tauto) rfl rfl

theorem grows_addDirectory (t : Tree) (p : Path) : Grows t (t.addDirectory p) := by
  refine ⟨fun q e h => by rw [entry?_addDirectory, h]; rfl, fun q text h => ?_, rfl⟩
  rw [entry?_addDirectory] at h
  cases hold : t.entry? q with
  | some e => rwa [hold] at h
  | none =>
    rw [hold] at h
    split at h <;> cases h

theorem Sound.addDirectory (ht : t.Sound) (hp : t.isDirectory p = true) (hs : Proper s) :
    (t.addDirectory (p.child s)).Sound := by
  have hgrows := grows_addDirectory t (p.child s)
  have hplaces : ∀ q ∈ (t.addDirectory (p.child s)).places, q ∈ t.places ∨
      q.parts <+: p.parts ++ [s] := by
    intro q hq
    rcases List.mem_append.mp hq with hq | hq
    · exact .inl (List.mem_append_left _ hq)
    · exact (mem_directories_addDirectory.mp hq).imp_left (List.mem_append_right _)
  refine ⟨fun q hq => ?_, fun q hq => ?_, hgrows.isDirectory ht.current⟩
  · refine hgrows.isDirectory ?_
    rcases hplaces q hq with hq | hq
    · exact ht.held q hq
    · rcases List.prefix_concat_iff.mp hq with hq | ⟨b, hb⟩
      · rwa [Path.parent, hq, List.dropLast_concat]
      · have hway : t.isDirectory q = true := ht.isDirectory_way (b := b) (by rw [hb]; exact hp)
        exact ht.isDirectory_parent (isSome_of_isDirectory hway)
  · rcases hplaces q hq with hq | hq
    · exact ht.named q hq
    · intro x hx
      rcases List.mem_append.mp (hq.subset hx) with hx | hx
      · exact ht.proper (isSome_of_isDirectory hp) x hx
      · exact List.mem_singleton.mp hx ▸ hs

/-! Directories on the way -/

theorem walk_append (a b : List String) : t.walk p (a ++ b) = (t.walk p a).bind fun q =>
    t.walk q b := by
  induction a generalizing p with
  | nil => rfl
  | cons s a ih =>
    simp only [List.cons_append, walk, ih]
    split_ifs <;> rfl

theorem isDirectory_of_walk (h : t.walk p names = .ok q) (hq : t.isDirectory q = true) :
    t.isDirectory p = true := by
  cases names with
  | nil =>
    obtain rfl := Except.ok.inj h
    exact hq
  | cons s names =>
    by_contra hp
    rw [walk, if_pos (by simpa using hp)] at h
    cases h

theorem walk_of_filter (h : t.walk p (names.filter (· != "")) = .ok q)
    (hq : t.isDirectory q = true) : t.walk p names = .ok q := by
  induction names generalizing p with
  | nil => exact h
  | cons s names ih =>
    have hp : t.isDirectory p = true := isDirectory_of_walk h hq
    by_cases hs : s = ""
    · rw [hs, List.filter_cons_of_neg (by simp)] at h
      rw [hs]
      simpa [walk, hp] using ih h
    · rw [List.filter_cons_of_pos (by simpa using hs)] at h
      rw [walk] at h ⊢
      split_ifs at h ⊢ <;> exact ih h

theorem walk_mono (hdirectory : ∀ r, t.isDirectory r = true → t'.isDirectory r = true)
    (hentry : ∀ r, t'.entry? r = none → t.entry? r = none) (h : t.walk p names = .ok q) :
    t'.walk p names = .ok q := by
  induction names generalizing p with
  | nil => exact h
  | cons s names ih =>
    rw [walk] at h ⊢
    by_cases hp : t.isDirectory p = true
    · rw [if_neg (by simp [hp])] at h
      rw [if_neg (by simp [hdirectory p hp])]
      split_ifs at h ⊢ with hskip hup hlost hthere
      · exact ih h
      · exact ih h
      · exact absurd (hentry _ (Option.isNone_iff_eq_none.mp hlost)) (by simpa using hthere)
      · exact ih h
    · rw [if_pos (by simpa using hp)] at h
      cases h

theorem makeSteps_spec (ht : t.Sound) (hp : t.isDirectory p = true)
    (hnames : ∀ s ∈ names, s ≠ "" ∧ '/' ∉ s.toList)
    (h : t.makeSteps p names = .ok t') :
    t'.Sound ∧ Grows t t' ∧ ∃ q, t'.walk p names = .ok q ∧ t'.isDirectory q = true := by
  induction names generalizing t p with
  | nil =>
    obtain rfl := Except.ok.inj h
    exact ⟨ht, .refl t, p, rfl, hp⟩
  | cons s names ih =>
    obtain ⟨hempty, hslash⟩ := hnames s List.mem_cons_self
    have hrest : ∀ s ∈ names, s ≠ "" ∧ '/' ∉ s.toList :=
      fun q hq => hnames q (List.mem_cons_of_mem s hq)
    rw [makeSteps] at h
    by_cases hhere : s = "."
    · rw [if_pos (by simpa using hhere)] at h
      obtain ⟨hsound, hgrows, q, hwalk, hq⟩ := ih ht hp hrest h
      refine ⟨hsound, hgrows, q, ?_, hq⟩
      simpa [walk, hgrows.isDirectory hp, hhere] using hwalk
    rw [if_neg (by simpa using hhere)] at h
    by_cases hup : s = ".."
    · rw [if_pos (by simpa using hup)] at h
      have hparent : t.isDirectory p.parent = true :=
        ht.isDirectory_parent (isSome_of_isDirectory hp)
      obtain ⟨hsound, hgrows, q, hwalk, hq⟩ := ih ht hparent hrest h
      refine ⟨hsound, hgrows, q, ?_, hq⟩
      simpa [walk, hgrows.isDirectory hp, hup] using hwalk
    rw [if_neg (by simpa using hup)] at h
    have hproper : Proper s := ⟨hempty, hhere, hup, hslash⟩
    -- whichever tree the way goes on in, it is sound, and the next directory is in it
    obtain ⟨u, hu, hgrowth, hchild, hsteps⟩ : ∃ u : Tree, u.Sound ∧ Grows t u ∧
      u.isDirectory (p.child s) = true ∧
        u.makeSteps (p.child s) names = .ok t' := by
      split at h
      next hentry => exact ⟨t, ht, .refl t, isDirectory_iff.mpr hentry, h⟩
      next => cases h
      next hentry =>
        refine ⟨_, ht.addDirectory hp hproper, grows_addDirectory t _, ?_, h⟩
        rw [isDirectory_iff, entry?_addDirectory, hentry]
        simp
    obtain ⟨hsound, hgrows, q, hwalk, hq⟩ := ih hu hchild hrest hsteps
    refine ⟨hsound, hgrowth.trans hgrows, q, ?_, hq⟩
    rw [walk_step ((hgrowth.trans hgrows).isDirectory hp) hproper,
      isDirectory_iff.mp (hgrows.isDirectory hchild)]
    exact hwalk

theorem isDirectory_start (ht : t.Sound) (path : String) : t.isDirectory (t.start path) = true := by
  unfold start
  split
  · exact ht.isDirectory_root
  · exact ht.current

theorem makeDirectory_spec (ht : t.Sound) (h : t.makeDirectory path = .ok t') :
    t'.Sound ∧ Grows t t' ∧ ∃ q, t'.walk (t'.start path) (Naming.components path) = .ok q ∧
      t'.isDirectory q = true := by
  have hnames : ∀ s ∈ steps path, s ≠ "" ∧ '/' ∉ s.toList := by
    intro s hs
    obtain ⟨hs, hempty⟩ := List.mem_filter.mp hs
    obtain ⟨cs, hcs, rfl⟩ := List.mem_map.mp hs
    refine ⟨by simpa using hempty, fun hmem => ?_⟩
    rw [String.toList_ofList] at hmem
    simpa using (Text.mem_of_splitAt hcs _ hmem).2
  obtain ⟨hsound, hgrows, q, hwalk, hq⟩ := makeSteps_spec ht (isDirectory_start ht path) hnames h
  refine ⟨hsound, hgrows, q, ?_, hq⟩
  have hstart : t'.start path = t.start path := by rw [start, start, hgrows.current]
  rw [hstart]
  exact walk_of_filter hwalk hq

/-! Files in a directory -/

theorem startsWith_slash (path : String) :
    path.startsWith "/" = path.toList.head?.any (· == '/') := by
  rw [Bool.eq_iff_iff, String.startsWith_string_iff, show "/".toList = ['/'] from rfl]
  cases path.toList with
  | nil => simp
  | cons c cs =>
    rw [List.cons_prefix_cons, List.head?_cons, Option.any_some, beq_iff_eq]
    exact ⟨fun h => h.1.symm, fun h => ⟨h.symm, List.nil_prefix⟩⟩

theorem start_inside (t : Tree) (directory : String) (hname : Proper name) :
    t.start (inside directory name) = t.start directory := by
  have hhead : (inside directory name).startsWith "/" = directory.startsWith "/" := by
    rw [startsWith_slash, startsWith_slash]
    by_cases hempty : directory = ""
    · have hplain : name.toList.head?.any (· == '/') = false := by
        rw [Option.any_eq_false]
        intro c hc
        simpa using hname.clear c (List.mem_of_head? hc)
      rw [inside, hempty]
      simpa using hplain
    · obtain ⟨c, cs, hdirectory⟩ :=
        List.exists_cons_of_ne_nil (l := directory.toList) (by simpa using hempty)
      unfold inside
      split
      · simp only [String.toList_append, hdirectory, List.cons_append, List.head?_cons]
      · simp only [String.toList_append, hdirectory, List.cons_append, List.head?_cons]
  rw [start, start, hhead]

theorem components_inside (directory : String) (hname : Proper name) : ∃ front,
    Naming.components (inside directory name) = front ++ [name] ∧
      (Naming.components directory = front ∨ Naming.components directory = front ++ [""]) := by
  have hlast : (Text.splitAt (· == '/') name.toList).map String.ofList = [name] := by
    rw [Text.splitAt_self hname.clear]
    simp
  unfold Naming.components inside
  split
  next hends =>
    by_cases hempty : directory = ""
    · exact ⟨[], by simpa [hempty] using hlast, .inr (by simp [hempty, Text.splitAt])⟩
    · obtain ⟨front, hfront⟩ : ['/'] <:+ directory.toList := by
        rw [show ['/'] = "/".toList from rfl, ← String.copy_toSlice (s := directory),
          ← String.Slice.endsWith_string_iff,
          String.endsWith_toSlice]
        simpa [hempty] using hends
      refine ⟨(Text.splitAt (· == '/') front).map String.ofList, ?_, .inr ?_⟩
      · rw [String.toList_append, ← hfront, List.append_assoc, List.singleton_append,
          Text.splitAt_mark (by rfl), List.map_append,
          hlast]
      · rw [← hfront, Text.splitAt_mark (by rfl), List.map_append]
        rfl
  next =>
    refine ⟨_, ?_, .inl rfl⟩
    rw [String.toList_append, String.toList_append, List.append_assoc, show "/".toList =
      ['/'] from rfl, List.singleton_append,
      Text.splitAt_mark (by rfl), List.map_append, hlast]

theorem write_inside {directory : String}
    (hwalk : t.walk (t.start directory) (Naming.components directory) = .ok p)
    (hp : t.isDirectory p = true) (hname : Proper name)
    (hfree : t.isDirectory (p.child name) = false) (text : String) :
    t.write (inside directory name) text = .ok (t.putFile (p.child name) text) := by
  obtain ⟨front, hinside, hdirectory⟩ := components_inside directory hname
  have hfront : t.walk (t.start directory) front = .ok p := by
    rcases hdirectory with hfront | hfront
    · rwa [hfront] at hwalk
    · rw [hfront, walk_append] at hwalk
      cases hwalked : t.walk (t.start directory) front with
      | error e =>
        rw [hwalked] at hwalk
        cases hwalk
      | ok q =>
        rw [hwalked] at hwalk
        have hq : t.isDirectory q = true := isDirectory_of_walk hwalk hp
        simpa [Except.bind, walk, hq] using hwalk
  rw [write, hinside, List.getLast?_concat, List.dropLast_concat,
    start_inside t directory hname, hfront]
  obtain ⟨hempty, hhere, hup, -⟩ := hname
  simp [Bind.bind, Except.bind, hp, hempty, hhere, hup, hfree]
  rfl

end Templating.Disk.Tree
