import Templating.Proofs.CommandLine.Imports
import Templating.Proofs.Compiler.Reported
import Templating.Proofs.Disk.Change

/-! What becomes of the units of a run. Each is written under its name into one directory, so that
of the units of one name only the last is left. -/
namespace Templating
open Disk (Tree Proper)

/-! The names of units -/

theorem join_dots_inj {names names' : List String} {s s' : String}
    (h : ∀ q ∈ names ++ [s], Code.Wordy q.toList) (h' : ∀ q ∈ names' ++ [s'], Code.Wordy q.toList) :
    Text.join "." (names ++ [s]) = Text.join "." (names' ++ [s']) ↔ names = names' ∧ s = s' := by
  constructor
  · intro heq
    have hsplit := Page.splitAt_dots (by simp) h
    rw [heq, Page.splitAt_dots (by simp) h'] at hsplit
    obtain ⟨hnames, hlast⟩ := List.append_inj' hsplit rfl
    exact ⟨hnames.symm, (List.singleton_inj.mp hlast).symm⟩
  · rintro ⟨rfl, rfl⟩
    rfl

theorem Request.unitName_page (r : Request) (o : Options) :
    (r.page o).unitName = Text.join "." ((r.page o).segments ++ [r.file.className]) ++ ".g.rs" := by
  obtain ⟨hne, -, hjoin⟩ := r.segments_page o
  have hclass : (r.page o).definition.name = r.file.className := Page.name_build ..
  rw [Page.Document.unitName, hjoin, hclass, join_snoc hne]

theorem Request.wordy_unitName (r : Request) (o : Options) :
    ∀ s ∈ (r.page o).segments ++ [r.file.className], Code.Wordy s.toList := by
  intro s hs
  rcases List.mem_append.mp hs with hs | hs
  · exact ((r.segments_page o).2.1 s hs).2
  · rw [List.mem_singleton.mp hs]
    exact Page.wordy_sanitize r.file.stem

theorem Request.unitName_inj (r s : Request) (o : Options) :
    (r.page o).unitName = (s.page o).unitName ↔
    (r.page o).segments = (s.page o).segments ∧ r.file.className = s.file.className := by
  rw [r.unitName_page, s.unitName_page, String.append_left_inj]
  exact join_dots_inj (r.wordy_unitName o) (s.wordy_unitName o)

theorem nodup_unitNames (o : Options) (rs : List Request) :
    (rs.map fun r => (r.page o).unitName).Nodup ↔
    (rs.map fun r => ((r.page o).segments, r.file.className)).Nodup := by
  rw [List.Nodup, List.Nodup, List.pairwise_map, List.pairwise_map]
  exact List.Pairwise.iff fun r s => not_congr ((r.unitName_inj s o).trans (by rw [Prod.mk.injEq]))

theorem Request.proper_unitName (r : Request) (o : Options) : Proper (r.page o).unitName := by
  have hlength : 5 ≤ (r.page o).unitName.toList.length := by
    rw [Page.Document.unitName, String.toList_append, List.length_append]
    exact Nat.le_add_left 5 _
  have hlong : ∀ s : String, s.toList.length < 5 → (r.page o).unitName ≠ s := fun s hs heq => by
    rw [heq] at hlength
    omega
  refine ⟨hlong "" (by decide), hlong "." (by decide), hlong ".." (by decide), fun hslash => ?_⟩
  rw [r.unitName_page, String.toList_append] at hslash
  rcases List.mem_append.mp hslash with hslash | hslash
  · rcases Page.dotted_join (r.wordy_unitName o) _ hslash with hname | hdot
    · exact absurd hname (by decide)
    · cases hdot
  · exact absurd hslash (by decide)

theorem Compiler.names_compile (o : Options) (rs : List Request) :
    ((new o).compile rs).1.units.map (·.name) =
    if o.edition.supported then rs.map fun r => (r.page o).unitName else [] := by
  have hunit : ∀ r, (Session.output ⟨o, Base.ambient o, []⟩ r).unit?.toList.map (·.name) =
      [(r.page o).unitName] := by
    intro r
    obtain ⟨ms, hunit, -⟩ := compute_answers (c := new o) (Base.ambient_answers o) r
    have hout : (Session.output ⟨o, Base.ambient o, []⟩ r).unit? = _ := hunit
    rw [hout]
    rfl
  have hcompile : ((new o).compile rs).1 = _ := (In.start ⟨o, Base.ambient o, []⟩ rfl).compile_eq rs
  rw [hcompile]
  split
  · rw [Session.together, List.map_flatMap]
    simp only [hunit]
    exact List.map_eq_flatMap.symm
  · rfl

theorem Compiler.proper_compile (o : Options) (rs : List Request) :
    ∀ u ∈ ((new o).compile rs).1.units, Proper u.name := by
  intro u hu
  have hname : u.name ∈ ((new o).compile rs).1.units.map (·.name) := List.mem_map_of_mem hu
  rw [names_compile] at hname
  split at hname
  · obtain ⟨r, -, hr⟩ := List.mem_map.mp hname
    exact hr ▸ r.proper_unitName o
  · cases hname

namespace CommandLine
variable {t t' : Tree} {p : Disk.Path} {units : List CompiledUnit}

def placeAll (t : Tree) (p : Disk.Path) (units : List CompiledUnit) : Tree :=
  units.foldl (fun t u => t.putFile (p.child u.name) u.text) t

/-- Of the units of one name the last is left, and nothing else changes. -/
theorem entry?_placeAll (t : Tree) (p : Disk.Path) (units : List CompiledUnit) (q : Disk.Path) :
    Tree.entry? (placeAll t p units) q =
      ((units.reverse.find? fun u => p.child u.name == q).map fun u => .file u.text).or
        (t.entry? q) := by
  induction units using List.reverseRecOn with
  | nil => rfl
  | append_singleton units u ih =>
    rw [placeAll, List.foldl_append, List.foldl_cons, List.foldl_nil, Tree.entry?_putFile,
      List.reverse_append,
      List.reverse_singleton, List.singleton_append, List.find?_cons]
    by_cases hq : q = p.child u.name
    · rw [if_pos hq, hq, beq_self_eq_true]
      rfl
    · rw [if_neg hq, beq_false_of_ne (Ne.symm hq)]
      exact ih

theorem run_writeUnits {directory : String}
    (hwalk : t.walk (t.start directory) (Naming.components directory) = .ok p)
    (hp : t.isDirectory p = true) (hnames : ∀ u ∈ units, Proper u.name)
    (hfree : ∀ u ∈ units, t.isDirectory (p.child u.name) = false) :
    (writeUnits Tree.disk directory units).run t = (.ok (), placeAll t p units) := by
  induction units generalizing t with
  | nil => rfl
  | cons u units ih =>
    have hu := hfree u List.mem_cons_self
    have hsame := Tree.isDirectory_putFile hu u.text
    have hwrite : Tree.disk.write (Disk.inside directory u.name) u.text t =
        (.ok (), t.putFile (p.child u.name) u.text) :=
      Tree.change_ok (f := (·.write (Disk.inside directory u.name) u.text))
        (Tree.write_inside hwalk hp (hnames u List.mem_cons_self) hu u.text)
    have hstart : (t.putFile (p.child u.name) u.text).start directory = t.start directory := rfl
    refine (run_bind (run_orFail hwrite) _).trans (ih ?_ ?_ ?_ ?_)
    · rw [hstart]
      refine Tree.walk_mono (fun r hr => (hsame r).trans hr) (fun r hr => ?_) hwalk
      rw [Tree.entry?_putFile] at hr
      split at hr
      · cases hr
      · exact hr
    · rw [hsame, hp]
    · exact fun v hv => hnames v (List.mem_cons_of_mem u hv)
    · intro v hv
      rw [hsame]
      exact hfree v (List.mem_cons_of_mem u hv)

/-! A run -/

theorem run_readUnits {paths : List String} (h : ∀ path ∈ paths, ∃ text, t.read path = .ok text) :
    ∃ units, (readUnits Tree.disk paths).run t = (.ok units, t) := by
  induction paths with
  | nil => exact ⟨[], rfl⟩
  | cons path paths ih =>
    obtain ⟨text, htext⟩ := h path List.mem_cons_self
    obtain ⟨units, hunits⟩ := ih fun q hq => h q (List.mem_cons_of_mem path hq)
    have hread : Tree.disk.read path t = (.ok text, t) := congrArg (·, t) htext
    exact ⟨⟨path, text⟩ :: units,
      (run_bind (run_orFail hread) _).trans ((run_bind hunits _).trans rfl)⟩

theorem run_readTemplates (a : Arguments) (root : Disk.Path) {paths : List String}
    (h : ∀ path ∈ paths, Disk.fileName? path ≠ some importName →
      ∃ r, (readTemplate Tree.disk a root path).run t = (.ok r, t)) :
    ∃ rs, (readTemplates Tree.disk a root paths).run t = (.ok rs, t) ∧
      List.Forall₂ (fun path r => (readTemplate Tree.disk a root path).run t = (.ok r, t))
        (paths.filter fun path => Disk.fileName? path != some importName) rs := by
  induction paths with
  | nil => exact ⟨[], rfl, .nil⟩
  | cons path paths ih =>
    obtain ⟨rs, hrs, hall⟩ := ih fun q hq => h q (List.mem_cons_of_mem path hq)
    by_cases hpath : Disk.fileName? path = some importName
    · refine ⟨rs, ?_, by rwa [List.filter_cons_of_neg (by simpa using hpath)]⟩
      rw [readTemplates, if_pos (by simpa using hpath)]
      exact hrs
    · obtain ⟨r, hr⟩ := h path List.mem_cons_self hpath
      refine ⟨r :: rs, ?_, ?_⟩
      · rw [readTemplates, if_neg (by simpa using hpath)]
        exact (run_bind hr _).trans ((run_bind hrs _).trans rfl)
      · rw [List.filter_cons_of_pos (by simpa using hpath)]
        exact .cons hr hall

/-- What a run that writes its units into a directory tells of them. -/
def told (ds : List Diagnostic) : Outcome :=
  match Diagnostic.renderAll? ds with
  | some report => { code := if Diagnostic.hasErrors ds then 1 else 0, stderr := report }
  | none => { code := abortCode }

theorem run_deliver {destination : String} (hdestination : destination ≠ "-")
    (hmade : t.makeDirectory destination = .ok t')
    (hwalk : t'.walk (t'.start destination) (Naming.components destination) = .ok p)
      (hp : t'.isDirectory p = true)
    (hnames : ∀ u ∈ units, Proper u.name)
    (hfree : ∀ u ∈ units, t'.isDirectory (p.child u.name) = false) :
    (deliver Tree.disk destination units).run t = (.ok "", placeAll t' p units) := by
  have hmake : Tree.disk.makeDirectory destination t = (.ok (), t') :=
    Tree.change_ok (f := (·.makeDirectory destination)) hmade
  rw [deliver, if_neg (by simpa using hdestination)]
  exact (run_bind (run_orFail hmake) _).trans
    ((run_bind (run_writeUnits hwalk hp hnames hfree) _).trans rfl)

theorem run_compileAll {a : Arguments} {root : Disk.Path} {codeUnits : List CodeUnit}
    {requests : List Request}
    (hunits : (readUnits Tree.disk a.baseUnits).run t = (.ok codeUnits, t))
      (hroot : t.canonical (a.root?.getD ".") = .ok root)
    (hrequests : (readTemplates Tree.disk a root a.templates).run t = (.ok requests, t))
    (hdeliver : (deliver Tree.disk a.output
      ((Compiler.new (compilerOptions a codeUnits)).compile requests).1.units).run t =
      (.ok "", t')) :
    (compileAll Tree.disk a).run t =
      (.ok (told ((Compiler.new (compilerOptions a codeUnits)).compile requests).1.diagnostics),
        t') := by
  have hplace : Tree.disk.canonical (a.root?.getD ".") t = (.ok root, t) := congrArg (·, t) hroot
  rw [compileAll]
  refine (run_bind hunits _).trans ((run_bind (run_orFail hplace) _).trans ?_)
  refine (run_bind hrequests _).trans ((run_bind hdeliver _).trans ?_)
  rw [told]
  cases Diagnostic.renderAll?
    ((Compiler.new (compilerOptions a codeUnits)).compile requests).1.diagnostics <;> rfl

theorem run_program {args : List String} {a : Arguments} {outcome : Outcome}
    (hargs : Arguments.parse args = .ok a)
    (h : (compileAll Tree.disk a).run t = (.ok outcome, t')) :
    program Tree.disk args t = (outcome, t') := by
  have hbind : ∀ f : Except Failure Outcome → StateM Tree Outcome,
      ((compileAll Tree.disk a).run >>= f) t =
        f ((compileAll Tree.disk a).run t).1 ((compileAll Tree.disk a).run t).2 := fun f => rfl
  rw [program, hargs]
  refine (hbind _).trans ?_
  rw [h]
  rfl

/-- Every unit stands in a file of its own, with its text. -/
structure Delivered (t : Tree) (p : Disk.Path) (units : List CompiledUnit) : Prop where
  each : ∀ u ∈ units, t.entry? (p.child u.name) = some (.file u.text)
  apart : (units.map fun u => p.child u.name).Nodup

theorem child_inj {name name' : String} : p.child name = p.child name' ↔ name = name' := by
  constructor
  · intro h
    exact List.singleton_inj.mp (List.append_cancel_left (congrArg Disk.Path.parts h))
  · rintro rfl
    rfl

theorem entry?_placeAll_child (t : Tree) (p : Disk.Path) (units : List CompiledUnit)
    {u : CompiledUnit} (hu : u ∈ units) :
    Tree.entry? (placeAll t p units) (p.child u.name) =
      (units.reverse.find? (·.name == u.name)).map fun v => .file v.text := by
  have hname : (fun v : CompiledUnit => p.child v.name == p.child u.name) = fun v =>
      v.name == u.name := by
    funext v
    rw [Bool.eq_iff_iff, beq_iff_eq, beq_iff_eq, child_inj]
  rw [entry?_placeAll, hname]
  cases hlast : units.reverse.find? (·.name == u.name) with
  | some v => rfl
  | none => exact absurd (List.find?_eq_none.mp hlast u (List.mem_reverse.mpr hu)) (by simp)

theorem delivered_placeAll (t : Tree) (p : Disk.Path) (units : List CompiledUnit) :
    Delivered (placeAll t p units) p units ↔ (units.map (·.name)).Nodup := by
  have hchild : (units.map fun u => p.child u.name) = (units.map (·.name)).map p.child := by simp
  constructor
  · intro h
    have hapart := h.apart
    rw [hchild] at hapart
    exact hapart.of_map _
  · intro h
    refine ⟨fun u hu => ?_, ?_⟩
    · rw [entry?_placeAll_child t p units hu]
      cases hlast : units.reverse.find? (·.name == u.name) with
      | none => exact absurd (List.find?_eq_none.mp hlast u (List.mem_reverse.mpr hu)) (by simp)
      | some v =>
        have hname : v.name = u.name := by simpa using List.find?_some hlast
        obtain rfl :=
          List.inj_on_of_nodup_map h (List.mem_reverse.mp (List.mem_of_find?_eq_some hlast))
          hu hname
        rfl
    · rw [hchild]
      exact h.map fun _ _ => child_inj.mp

/-- If all that is named can be read, the directory can be made, and no directories stand under the
names of the units, then a run gives every template that is no import its unit, and writes the units
and no other files. But of the units of one name only the last is left, and nothing is told of the
others: so all stand in files of their own exactly if no two templates have one
namespace and one class. -/
theorem units_delivered (ht : t.Sound) {args : List String} {a : Arguments}
    (hargs : Arguments.parse args = .ok a)
    (houtput : a.output ≠ "-") (hunits : ∀ path ∈ a.baseUnits, ∃ text, t.read path = .ok text)
      {root : Disk.Path}
    (hroot : t.canonical (a.root?.getD ".") = .ok root)
    (htemplates : ∀ path ∈ a.templates, Disk.fileName? path ≠ some importName →
      ∃ template text, t.canonical path = .ok template ∧ t.entry? template = some (.file text))
    (hmade : t.makeDirectory a.output = .ok t') :
    ∃ codeUnits requests directory,
      (readUnits Tree.disk a.baseUnits).run t = (.ok codeUnits, t) ∧
      List.Forall₂ (fun path r => (readTemplate Tree.disk a root path).run t = (.ok r, t))
        (a.templates.filter fun path => Disk.fileName? path != some importName) requests ∧
      t'.walk (t'.start a.output) (Naming.components a.output) = .ok directory ∧
        t'.isDirectory directory = true ∧
      let o := compilerOptions a codeUnits
      let output := ((Compiler.new o).compile requests).1
      output.units.map (·.name) = (if o.edition.supported then requests.map fun r =>
        (r.page o).unitName else []) ∧
      ((∀ u ∈ output.units, t'.isDirectory (directory.child u.name) = false) →
        ∃ final, program Tree.disk args t = (told output.diagnostics, final) ∧
          (∀ u ∈ output.units, final.entry? (directory.child u.name) =
            (output.units.reverse.find? (·.name == u.name)).map fun v => .file v.text) ∧
          (∀ q, (∀ u ∈ output.units, q ≠ directory.child u.name) →
            (∀ e, t.entry? q = some e → final.entry? q = some e) ∧
            ∀ text, final.entry? q = some (.file text) → t.entry? q = some (.file text)) ∧
          (Delivered final directory output.units ↔
            (o.edition.supported = true →
              (requests.map fun r => ((r.page o).segments, r.file.className)).Nodup))) := by
  obtain ⟨codeUnits, hcode⟩ := run_readUnits hunits
  obtain ⟨requests, hrequests, hall⟩ := run_readTemplates a root (t := t) fun path hpath hname => by
    obtain ⟨template, text, hplace, htext⟩ := htemplates path hpath hname
    exact ⟨_, run_readTemplate ht a root hplace htext⟩
  obtain ⟨hsound, hgrows, directory, hwalk, hdirectory⟩ := Tree.makeDirectory_spec ht hmade
  refine ⟨codeUnits, requests, directory, hcode, hall, hwalk, hdirectory,
    Compiler.names_compile _ requests, fun hfree => ?_⟩
  have hnames := Compiler.names_compile (compilerOptions a codeUnits) requests
  have hproper := Compiler.proper_compile (compilerOptions a codeUnits) requests
  generalize hoptions : compilerOptions a codeUnits = o at hnames hproper hfree ⊢
  generalize houtputs : ((Compiler.new o).compile requests).1 = output at hnames hproper hfree ⊢
  have hdeliver := run_deliver houtput hmade hwalk hdirectory hproper hfree
  have hrun := run_compileAll hcode hroot hrequests (by rw [hoptions, houtputs]; exact hdeliver)
  rw [hoptions, houtputs] at hrun
  refine ⟨_, run_program hargs hrun, fun u hu => entry?_placeAll_child t' directory output.units hu,
    fun q hq => ?_, ?_⟩
  · have hnone : output.units.reverse.find? (fun u => directory.child u.name == q) = none := by
      rw [List.find?_eq_none]
      intro u hu heq
      exact hq u (List.mem_reverse.mp hu) (eq_of_beq heq).symm
    rw [entry?_placeAll, hnone]
    exact ⟨hgrows.kept q, hgrows.files q⟩
  · rw [delivered_placeAll, hnames, ← nodup_unitNames]
    split
    next hsupported => exact ⟨fun h _ => h, fun h => h hsupported⟩
    next hsupported => exact iff_of_true List.nodup_nil fun h => absurd h hsupported

def twins : Tree := Tree.ofFiles [(⟨["a", "Index.stencil"]⟩, "a"), (⟨["b", "Index.stencil"]⟩, "b")]

/-- The unit of the first is lost, and the run ends as if it were not. -/
theorem units_delivered_twins : ∃ final units,
    program Tree.disk ["-o", "out", "a/Index.stencil", "b/Index.stencil"] twins = ({}, final) ∧
      units.map (·.name) = ["templates.Index.g.rs", "templates.Index.g.rs"] ∧
      final.entry? ⟨["out", "templates.Index.g.rs"]⟩ = units[1]?.map (fun u => .file u.text) ∧
      final.entry? ⟨["a", "Index.stencil"]⟩ = some (.file "a") ∧
        ¬ Delivered final ⟨["out"]⟩ units := by
  let a : Arguments := { output := "out", templates := ["a/Index.stencil", "b/Index.stencil"] }
  let twin (directory text : String) : Request :=
    ⟨inputFile a ⟨[]⟩ ⟨[directory, "Index.stencil"]⟩, text, []⟩
  have hsound : twins.Sound := by decide +kernel
  have hargs : Arguments.parse ["-o", "out", "a/Index.stencil", "b/Index.stencil"] = .ok a :=
    Base.ok_of_toOption (by decide +kernel)
  have hroot : twins.canonical (a.root?.getD ".") = .ok ⟨[]⟩ := by decide +kernel
  have hplace : ∀ path ∈ a.templates, ∃ f ∈ twins.files, twins.canonical path = .ok f.1 ∧
      twins.entry? f.1 = some (.file f.2) := by
    decide +kernel
  have hmade : twins.makeDirectory "out" = .ok (twins.addDirectory ⟨["out"]⟩) := by
    have hstart : twins.start "out" = ⟨[]⟩ := by decide +kernel
    have hsteps : Disk.steps "out" = ["out"] := by decide +kernel
    have hnone : twins.entry? ((⟨[]⟩ : Disk.Path).child "out") = none := by decide +kernel
    rw [Tree.makeDirectory, hstart, hsteps, Tree.makeSteps, hnone]
    rfl
  obtain ⟨codeUnits, requests, directory, hcode, hall, hwalk, -, hnames, hrun⟩ :=
    units_delivered hsound hargs (by decide) (by simp [a]) hroot (fun path hpath _ => by
      obtain ⟨f, -, hf⟩ := hplace path hpath
      exact ⟨f.1, f.2, hf⟩) hmade
  obtain rfl : [] = codeUnits := Except.ok.inj (Prod.mk.inj hcode).1
  have hout : (twins.addDirectory ⟨["out"]⟩).walk ((twins.addDirectory ⟨["out"]⟩).start "out")
    (Naming.components "out") =
      .ok ⟨["out"]⟩ := by decide +kernel
  obtain rfl : ⟨["out"]⟩ = directory := Except.ok.inj (hout.symm.trans hwalk)
  obtain rfl : requests = [twin "a" "a", twin "b" "b"] := by
    have hread : ∀ (path : String) (template : Disk.Path) (text : String) {r : Request},
      twins.canonical path = .ok template →
        twins.entry? template = some (.file text) →
          (importDirectories ⟨[]⟩ template).filterMap (importIn? twins ⟨[]⟩) = [] →
        (readTemplate Tree.disk a ⟨[]⟩ path).run twins = (.ok r, twins) →
          r = ⟨inputFile a ⟨[]⟩ template, text, []⟩ := by
      intro path template text r hpath htext himports hr
      have hknown := run_readTemplate hsound a ⟨[]⟩ hpath htext
      rw [hr, himports] at hknown
      exact Except.ok.inj (Prod.mk.inj hknown).1
    have hfilter : a.templates.filter (fun path => Disk.fileName? path != some importName) =
        a.templates := by decide +kernel
    rw [hfilter] at hall
    rcases hall with _ | ⟨hfirst, _ | ⟨hsecond, ⟨⟩⟩⟩
    rw [hread "a/Index.stencil" ⟨["a", "Index.stencil"]⟩ "a" (by decide +kernel) (by decide +kernel)
      (by decide +kernel) hfirst,
      hread "b/Index.stencil" ⟨["b", "Index.stencil"]⟩ "b" (by decide +kernel) (by decide +kernel)
        (by decide +kernel) hsecond]
  have hsame : (((Compiler.new (compilerOptions a [])).compile _).1.units.map (·.name)) =
      ["templates.Index.g.rs", "templates.Index.g.rs"] := hnames.trans (by decide +kernel)
  have htold :
      told ((Compiler.new (compilerOptions a [])).compile
        [twin "a" "a", twin "b" "b"]).1.diagnostics = {} := by decide +kernel
  rw [htold] at hrun
  generalize ((Compiler.new (compilerOptions a [])).compile _).1 = output at hsame hrun
  obtain ⟨u, v, hunits, hu, hv⟩ : ∃ u v, output.units = [u, v] ∧ u.name = "templates.Index.g.rs" ∧
    v.name = "templates.Index.g.rs" := by
    obtain ⟨u, rest, hunits, hu, hrest⟩ := List.map_eq_cons_iff.mp hsame
    obtain ⟨v, rest, rfl, hv, hnone⟩ := List.map_eq_cons_iff.mp hrest
    obtain rfl := List.map_eq_nil_iff.mp hnone
    exact ⟨u, v, hunits, hu, hv⟩
  rw [hunits] at hrun
  obtain ⟨final, hprogram, heach, hkept, hdelivered⟩ := hrun (by
    rw [List.forall_mem_cons, List.forall_mem_singleton, hu, hv]
    decide +kernel)
  refine ⟨final, [u, v], hprogram, by simp [hu, hv], ?_, ?_, ?_⟩
  · have hlast := heach u List.mem_cons_self
    rw [hu] at hlast
    refine hlast.trans ?_
    simp [hv]
  · refine (hkept _ ?_).1 _ (by decide +kernel)
    rw [List.forall_mem_cons, List.forall_mem_singleton, hu, hv]
    decide +kernel
  · intro h
    have hkeys : ([twin "a" "a", twin "b" "b"].map fun r =>
      ((r.page (compilerOptions a [])).segments, r.file.className)) =
          [(["templates"], "Index"), (["templates"], "Index")] := by decide +kernel
    have hnodup := hdelivered.mp h rfl
    rw [hkeys] at hnodup
    exact (List.nodup_cons.mp hnodup).1 List.mem_cons_self

end CommandLine
end Templating
