import Mathlib.Data.List.Infix
import Templating.CommandLine.Program
import Templating.Proofs.Compiler.Namespace
import Templating.Proofs.Disk.Tree

/-! The imports of a template, as they are found on a disk. They are those of the directories from
the root down to the template's own, or of that one alone if it lies outside the root, and so the
nearest declaration decides. -/
namespace Templating.CommandLine
open Disk (Tree Proper)
open Disk.Path (ancestors_child isIn_iff)
open Page (Occurrence effectiveUses lastOccurrence? TopUse)

/-! Directories -/

theorem upTo_append {α : Type} {p : α → Bool} {x : α} {before : List α}
    (h : ∀ y ∈ before, p y = false) (hx : p x = true)
    (after : List α) : upTo p (before ++ x :: after) = before ++ [x] := by
  induction before with
  | nil => simp [upTo, hx]
  | cons y before ih =>
    simp [upTo, h y List.mem_cons_self, ih fun z hz => h z (List.mem_cons_of_mem y hz)]

theorem exists_inits {α : Type} (l : List α) : ∃ before, l.inits = before ++ [l] := by
  rcases List.eq_nil_or_concat' l with rfl | ⟨names, s, rfl⟩
  · exact ⟨[], rfl⟩
  · exact ⟨names.inits, by simp [List.inits_append]⟩

theorem importDirectories_below (root : Disk.Path) (names : List String) (name : String) :
    importDirectories root ((⟨root.parts ++ names⟩ : Disk.Path).child name) =
      names.inits.map fun q => ⟨root.parts ++ q⟩ := by
  obtain ⟨above, habove⟩ := exists_inits root.parts
  obtain ⟨below, hbelow, hdeeper⟩ : ∃ below, names.inits = [] :: below ∧ ∀ q ∈ below, q ≠ [] := by
    cases names with
    | nil => exact ⟨[], rfl, by simp⟩
    | cons s names => exact ⟨_, List.inits_cons s names, by simp⟩
  have hways : ((⟨root.parts ++ names⟩ : Disk.Path).child name).ancestors =
      (below.map fun q => (⟨root.parts ++ q⟩ : Disk.Path)).reverse ++
        root :: (above.map Disk.Path.mk).reverse := by
    rw [ancestors_child, List.inits_append, habove, hbelow]
    simp
  have hgo : ∀ d ∈ (below.map fun q => (⟨root.parts ++ q⟩ : Disk.Path)).reverse,
      (d == root || !d.isIn root) = false := by
    intro d hd
    obtain ⟨q, hq, rfl⟩ := List.mem_map.mp (List.mem_reverse.mp hd)
    have hin : (⟨root.parts ++ q⟩ : Disk.Path).isIn root = true :=
      isIn_iff.mpr (List.prefix_append _ _)
    have hne : (⟨root.parts ++ q⟩ : Disk.Path) ≠ root :=
      fun heq => hdeeper q hq (List.append_right_eq_self.mp (congrArg Disk.Path.parts heq))
    simp [hin, hne]
  rw [importDirectories, hways, upTo_append hgo (by simp), hbelow]
  simp

theorem importDirectories_outside {root p : Disk.Path} (h : p.isIn root = false) (name : String) :
    importDirectories root (p.child name) = [p] := by
  obtain ⟨above, habove⟩ := exists_inits p.parts
  have hways : (p.child name).ancestors = [] ++ p :: (above.map Disk.Path.mk).reverse := by
    rw [ancestors_child, habove]
    simp
  rw [importDirectories, hways, upTo_append (fun _ hd => by cases hd) (by simp [h])]
  rfl

theorem pairwise_inits {α : Type} (l : List α) :
    l.inits.Pairwise fun a b => a.length < b.length := by
  induction l with
  | nil => exact List.pairwise_singleton _ _
  | cons x l ih =>
    rw [List.inits_cons, List.pairwise_cons, List.pairwise_map]
    exact ⟨by simp, ih.imp fun h => by simpa using h⟩

/-! Runs -/

variable {α β : Type} {t t' : Tree} {step : String}

theorem run_bind {x : ExceptT Failure (StateM Tree) α} {v : α} (h : x.run t = (.ok v, t'))
    (f : α → ExceptT Failure (StateM Tree) β) : (x >>= f).run t = (f v).run t' := by
  show ExceptT.bindCont f (x.run t).1 (x.run t).2 = _
  rw [h]
  rfl

theorem run_lift (x : StateM Tree α) :
    (liftM x : ExceptT Failure (StateM Tree) α).run t = (.ok (x t).1, (x t).2) := rfl

theorem run_orFail {x : StateM Tree (Except Disk.Error α)} {v : α} (h : x t = (.ok v, t')) :
    (orFail step x).run t = (.ok v, t') := by
  show ((x t).1.mapError _, (x t).2) = _
  rw [h]
  rfl

/-- The import that a directory holds, named as it is seen from the root. -/
def importIn? (t : Tree) (root d : Disk.Path) : Option Import :=
  match t.entry? (d.child importName) with
  | some (.file text) => some ⟨(d.child importName).relative root, text⟩
  | _ => none

theorem run_findImports (ht : t.Sound) (root : Disk.Path) {ds : List Disk.Path}
    (hds : ∀ d ∈ ds, t.isDirectory d = true) :
    (findImports Tree.disk root ds).run t = (.ok (ds.filterMap (importIn? t root)), t) := by
  induction ds with
  | nil => rfl
  | cons d ds ih =>
    have hrest := ih fun e he => hds e (List.mem_cons_of_mem d he)
    have hd := hds d List.mem_cons_self
    have hnames : ∀ s ∈ (d.child importName).parts, Proper s := by
      intro s hs
      rcases List.mem_append.mp hs with hs | hs
      · exact ht.proper (Tree.isSome_of_isDirectory hd) s hs
      · obtain rfl := List.mem_singleton.mp hs
        decide
    have hparent : t.isDirectory (d.child importName).parent = true := by
      simpa [Disk.Path.parent, Disk.Path.child] using hd
    have himport : importIn? t root d =
        (t.read (d.child importName).text).toOption.map fun text =>
          ⟨(d.child importName).relative root, text⟩ := by
      rw [Tree.read_text ht hnames hparent, importIn?]
      split <;> simp_all
    have hfile := run_lift (t := t) (Tree.disk.isFile (d.child importName).text)
    rw [findImports]
    refine (run_bind hfile _).trans ?_
    rw [show (Tree.disk.isFile (d.child importName).text t).1 =
      (t.read (d.child importName).text).isOk from rfl]
    cases hread : t.read (d.child importName).text with
    | error e =>
      rw [hread] at himport
      rw [List.filterMap_cons_none himport]
      exact hrest
    | ok text =>
      rw [hread] at himport
      rw [List.filterMap_cons_some himport]
      have htext : Tree.disk.read (d.child importName).text t = (.ok text, t) :=
        congrArg (·, t) hread
      exact (run_bind (run_orFail htext) _).trans ((run_bind hrest _).trans rfl)

/-! What is declared -/

/-- The last use of a keyword that takes effect in a file. -/
def declared? (name text keyword : String) : Option Occurrence :=
  let s := Markup.Tree.parse ⟨name, text⟩ .standard
  (effectiveUses .standard s keyword).getLast?.map (TopUse.occurrence s.source)

/-- The use of a keyword that decides for a template: its own, or else that of its innermost import
that has one. -/
def decisive? (r : Request) (keyword : String) : Option Occurrence :=
  declared? r.file.path r.text keyword <|> r.imports.reverse.findSome? fun i =>
    declared? i.path i.text keyword

theorem lastOccurrence?_trees (r : Request) (keyword : String) :
    lastOccurrence? .standard r.trees keyword = decisive? r keyword := by
  rw [lastOccurrence?, List.getLast?_filterMap, Request.trees, List.reverse_append,
    List.findSome?_append, ← List.map_reverse,
    List.findSome?_map, decisive?, Option.orElse_eq_orElse, Option.orElse_eq_or]
  congr 1
  exact List.findSome?_singleton

theorem mem_importDirectories {root p d : Disk.Path} (h : p.isIn root = true) (name : String) :
    d ∈ importDirectories root (p.child name) ↔ d.isIn root = true ∧ p.isIn d = true := by
  obtain ⟨names, hparts⟩ := isIn_iff.mp h
  obtain rfl : p = ⟨root.parts ++ names⟩ := congrArg Disk.Path.mk hparts.symm
  simp only [importDirectories_below, List.mem_map, List.mem_inits, isIn_iff]
  constructor
  · rintro ⟨q, hq, rfl⟩
    exact ⟨List.prefix_append _ _, (List.prefix_append_right_inj _).mpr hq⟩
  · rintro ⟨⟨q, hq⟩, hd⟩
    obtain rfl : d = ⟨root.parts ++ q⟩ := congrArg Disk.Path.mk hq.symm
    exact ⟨q, (List.prefix_append_right_inj _).mp hd, rfl⟩

theorem pairwise_importDirectories {root p : Disk.Path} (h : p.isIn root = true) (name : String) :
    (importDirectories root (p.child name)).Pairwise fun d e =>
      d.parts.length < e.parts.length := by
  obtain ⟨names, hparts⟩ := isIn_iff.mp h
  obtain rfl : p = ⟨root.parts ++ names⟩ := congrArg Disk.Path.mk hparts.symm
  rw [importDirectories_below, List.pairwise_map]
  exact (pairwise_inits names).imp fun h => by simpa using h

theorem isDirectory_importDirectories (ht : t.Sound) {root p : Disk.Path}
    (hp : t.isDirectory p = true) (name : String) :
    ∀ d ∈ importDirectories root (p.child name), t.isDirectory d = true := by
  intro d hd
  cases hin : p.isIn root with
  | true =>
    obtain ⟨q, hq⟩ := isIn_iff.mp ((mem_importDirectories hin name).mp hd).2
    obtain rfl : p = ⟨d.parts ++ q⟩ := congrArg Disk.Path.mk hq.symm
    exact ht.isDirectory_way hp
  | false =>
    rw [importDirectories_outside hin name] at hd
    obtain rfl := List.mem_singleton.mp hd
    exact hp

theorem run_readTemplate (ht : t.Sound) (a : Arguments) (root : Disk.Path) {path text : String}
    {template : Disk.Path}
    (hpath : t.canonical path = .ok template) (htext : t.entry? template = some (.file text)) :
    (readTemplate Tree.disk a root path).run t =
      (.ok ⟨inputFile a root template, text,
        (importDirectories root template).filterMap (importIn? t root)⟩, t) := by
  obtain ⟨hparent, name, hchild⟩ := ht.in_directory htext
  have hds : ∀ d ∈ importDirectories root template, t.isDirectory d = true := by
    rw [hchild]
    exact isDirectory_importDirectories ht hparent name
  have hplace : Tree.disk.canonical path t = (.ok template, t) := congrArg (·, t) hpath
  have hfile : Tree.disk.read template.text t = (.ok text, t) :=
    congrArg (·, t) (ht.read_file htext)
  rw [readTemplate]
  refine (run_bind (run_orFail hplace) _).trans ((run_bind (run_orFail hfile) _).trans ?_)
  exact (run_bind (run_findImports ht root hds) _).trans rfl

/-- The imports of a template are the files of their name in the directories from the root to the
template's own, outermost first, or in that one alone if the template lies outside the root. So of
the declarations of a base or a namespace that take effect, the page has the template's own or else
that of the innermost import that has one, and the unit is made of the page. -/
theorem innermost_import_decides (ht : t.Sound) (a : Arguments) (root : Disk.Path)
    {path text : String} {template : Disk.Path}
    (hpath : t.canonical path = .ok template) (htext : t.entry? template = some (.file text)) :
    let ds := importDirectories root template
    let r : Request := ⟨inputFile a root template, text, ds.filterMap (importIn? t root)⟩
    (readTemplate Tree.disk a root path).run t = (.ok r, t) ∧
      (template.parent.isIn root = true →
        (∀ d, d ∈ ds ↔ d.isIn root = true ∧ template.parent.isIn d = true) ∧
          ds.Pairwise fun d e => d.parts.length < e.parts.length) ∧
      (template.parent.isIn root = false → ds = [template.parent]) ∧
      ∀ o, (r.page o).definition.base? =
          ((decisive? r "inherits").bind fun u => (u.use.token? .type).map fun text =>
            ⟨text, u.location⟩) ∧
        (r.page o).namespaceName =
          Page.namespaceFrom ((decisive? r "namespace").bind (·.use.token? .namespacePath) <|>
            r.file.hint?) ∧
        ∀ resolve unit diagnostics, generate o resolve r = .ok (unit, diagnostics) →
          unit.name = (r.page o).namespaceName ++ "." ++ r.file.className ++ ".g.rs" ∧
            ∃ extra, Base.forward (r.page o) resolve = .ok extra ∧
              unit.text = Unit.emit (r.page o) extra := by
  intro ds r
  obtain ⟨-, name, hchild⟩ := ht.in_directory htext
  refine ⟨run_readTemplate ht a root hpath htext, fun hin => ?_, fun hout => ?_, fun o =>
    ⟨?_, ?_, ?_⟩⟩
  · have hmem := fun d => mem_importDirectories (d := d) hin name
    have hpairwise := pairwise_importDirectories hin name
    rw [← hchild] at hmem hpairwise
    exact ⟨hmem, hpairwise⟩
  · have hdirectory := importDirectories_outside hout name
    rwa [← hchild] at hdirectory
  · rw [Request.page, Page.base?_build, Page.of_context, Page.getLast?_occurrencesIn,
      ← lastOccurrence?_trees]
    rfl
  · rw [Request.page, Page.namespaceName_build, Page.namespaceOf_context, ← lastOccurrence?_trees]
    rfl
  · intro resolve unit diagnostics h
    obtain ⟨extra, hextra, hunit, -⟩ := exists_of_generate h
    have hclass : (r.page o).definition.name = r.file.className := Page.name_build ..
    exact ⟨by rw [hunit, Page.Document.unitName, hclass], extra, hextra, by rw [hunit]⟩

/-- A template below the root, where the outer import declares more than the inner one, and a
template outside the root. -/
def site : Tree :=
  { Tree.ofFiles [
      (⟨["p", "_imports.stencil"]⟩, "@namespace outer\n@inherits A\n"),
      (⟨["p", "sub", "_imports.stencil"]⟩, "@namespace inner\n"),
      (⟨["p", "sub", "Page.stencil"]⟩, "hi"),
      (⟨["q", "_imports.stencil"]⟩, "@namespace far\n"),
      (⟨["q", "Page.stencil"]⟩, "@inherits C\nhi")] with current := ⟨["p"]⟩ }

def siteArguments : Arguments :=
  { output := "-", templates := ["sub/Page.stencil", "../q/Page.stencil"] }

theorem innermost_import_decides_site : ∃ r s : Request,
    (readTemplate Tree.disk siteArguments ⟨["p"]⟩ "sub/Page.stencil").run site = (.ok r, site) ∧
      r.imports = [⟨"_imports.stencil", "@namespace outer\n@inherits A\n"⟩,
        ⟨"sub/_imports.stencil", "@namespace inner\n"⟩] ∧
      (r.page {}).namespaceName = "inner" ∧ (r.page {}).definition.base?.map (·.text) = some "A" ∧
      (readTemplate Tree.disk siteArguments ⟨["p"]⟩ "../q/Page.stencil").run site = (.ok s, site) ∧
      s.imports = [⟨"/q/_imports.stencil", "@namespace far\n"⟩] := by
  have hsound : site.Sound := by decide +kernel
  have hbelow : site.canonical "sub/Page.stencil" = .ok ⟨["p", "sub", "Page.stencil"]⟩ ∧
      site.entry? ⟨["p", "sub", "Page.stencil"]⟩ = some (.file "hi") := by decide +kernel
  have houtside : site.canonical "../q/Page.stencil" = .ok ⟨["q", "Page.stencil"]⟩ ∧
      site.entry? ⟨["q", "Page.stencil"]⟩ = some (.file "@inherits C\nhi") := by decide +kernel
  obtain ⟨hrun, -, -, hpage⟩ :=
    innermost_import_decides hsound siteArguments ⟨["p"]⟩ hbelow.1 hbelow.2
  obtain ⟨hfar, -, -, -⟩ :=
    innermost_import_decides hsound siteArguments ⟨["p"]⟩ houtside.1 houtside.2
  obtain ⟨hbase, hname, -⟩ := hpage {}
  refine ⟨_, _, hrun, by decide +kernel, ?_, ?_, hfar, by decide +kernel⟩
  · rw [hname]
    decide +kernel
  · rw [hbase]
    decide +kernel

end Templating.CommandLine
