import Templating.Proofs.Compiler.Names
import Templating.Proofs.Markup.Announced
import Templating.Proofs.Page.Precedence
import Templating.Proofs.Text.Separated
import Templating.Proofs.Unit.Written

/-! The namespace of a page, from the text that declares it to the modules of the unit. Wherever it
is taken apart, the same names come out in the same order. -/
namespace Templating
open Markup (Tree Written)
open Naming (Path Separated named)
open Page (Occurrence occurrencesIn lastOccurrence?)

def Request.trees (r : Request) : List Tree :=
  (r.imports.map fun i => Tree.parse ⟨i.path, i.text⟩ .standard) ++
    [Tree.parse ⟨r.file.path, r.text⟩ .standard]

def Page.Occurrence.written? (o : Occurrence) (k : TokenKind) : Option String :=
  (o.use.tokens.find? (·.val.kind == k)).bind fun token =>
    (⟨o.location.source, token.span⟩ : Location).text?

/-- The text of the namespace: the last declaration that takes effect, as it is written,
or else the hint. -/
def Request.namespaceText? (r : Request) : Option String :=
  match lastOccurrence? .standard r.trees "namespace" with
  | some o => o.written? .namespacePath
  | none => r.file.hint?

/-- The modules that a text stands for: its pieces that are not empty, as names,
or the default one. -/
def Naming.Modules (text? : Option String) (modules : List String) : Prop :=
  ∃ ss, (∀ text, text? = some text → Separated text.toList ss) ∧ (text? = none → ss = []) ∧
    modules = if named ss = [] then [Page.defaultNamespace] else (named ss).map sanitize

/-! What is declared -/

theorem Page.exists_of_lastOccurrence? {t : DirectiveTable} {files : List Tree} {keyword : String}
    {o : Occurrence} (h : lastOccurrence? t files keyword = some o) :
    ∃ s ∈ files, ∃ u ∈ s.directives, u.val.keyword = keyword ∧ u.val.sound = true ∧
      o = TopUse.occurrence s.source u := by
  obtain ⟨s, hs, ho⟩ := List.mem_filterMap.mp (List.mem_of_getLast? h)
  obtain ⟨u, hu, rfl⟩ := Option.map_eq_some_iff.mp ho
  have hsound : u ∈ soundUses s keyword := by
    have hu := List.mem_of_getLast? hu
    unfold effectiveUses at hu
    split at hu
    · exact List.mem_of_mem_take hu
    · exact hu
  obtain ⟨hu, hboth⟩ := List.mem_filter.mp hsound
  obtain ⟨hkeyword, hsound⟩ := Bool.and_eq_true_iff.mp hboth
  exact ⟨s, hs, u, hu, eq_of_beq hkeyword, hsound, rfl⟩

theorem Request.written_namespace {r : Request} {o : Occurrence}
    (h : lastOccurrence? .standard r.trees "namespace" = some o) :
    ∃ w, Path w ∧ o.written? .namespacePath = some (.ofList w) ∧
      o.use.token? .namespacePath = some (Text.join "." (Naming.segments (.ofList w))) := by
  obtain ⟨s, hs, u, hu, hkeyword, hsound, rfl⟩ := Page.exists_of_lastOccurrence? h
  obtain ⟨source, rfl⟩ : ∃ source, s = Tree.parse source .standard := by
    rcases List.mem_append.mp hs with hs | hs
    · obtain ⟨i, -, rfl⟩ := List.mem_map.mp hs
      exact ⟨_, rfl⟩
    · exact ⟨_, List.mem_singleton.mp hs⟩
  obtain ⟨hwritten, d, slots, left, hget, hlaid, i, htokens⟩ := Markup.written_directive hu hsound
  have hd : DirectiveTable.standard.get? "namespace" =
      some ⟨"namespace", .line, .oncePerFile, [⟨.namespacePath, false⟩]⟩ := rfl
  obtain rfl := Option.some.inj (hget.symm.trans ((congrArg _ hkeyword).trans hd))
  obtain ⟨k, hone, hkind⟩ : ∃ k, u.val.tokens = [k] ∧ k.val.kind = .namespacePath := by
    match slots, hlaid with
    | [.token blanks slice], _ => exact ⟨_, htokens, rfl⟩
    | [.skipped _], hlaid => cases hlaid.1 with | skipped hoptional => cases hoptional
  obtain ⟨w, behind, hslice, htext, hplace⟩ := hwritten k (hone ▸ List.mem_singleton.mpr rfl)
  rw [hkind] at hslice htext
  refine ⟨w, hslice.1, ?_, ?_⟩
  · show ((u.val.tokens.find? _).bind _ : Option String) = _
    rw [hone, List.find?_singleton, if_pos (by rw [hkind]; rfl)]
    exact hplace
  · rw [Markup.DirectiveUse.token?]
    show (u.val.tokens.find? _).map _ = _
    rw [hone, List.find?_singleton, if_pos (by rw [hkind]; rfl)]
    exact congrArg some htext

/-! One list of names -/

theorem Request.namespaceParts_eq (r : Request) (o : Options) {ss : List (List Char)}
    (hsome : ∀ text, r.namespaceText? = some text → Separated text.toList ss)
    (hnone : r.namespaceText? = none → ss = []) :
    (r.context o).namespaceParts = named ss := by
  have hparts : (r.context o).namespaceParts =
      ((((lastOccurrence? .standard r.trees "namespace").bind (·.use.token? .namespacePath)) <|>
        r.file.hint?).elim []
        fun s => (Naming.segments s).filter (· != "")) := by
    rw [Page.Context.namespaceParts, Request.context, Page.of_context, Page.getLast?_occurrencesIn]
    rfl
  have hsegments : ∀ s : String, Separated s.toList ss →
      (Naming.segments s).filter (· != "") = named ss := fun s hs => by
    rw [← String.ofList_toList (s := s), Naming.segments_eq, Naming.cuts_of_separated hs]
    rfl
  rw [hparts]
  unfold namespaceText? at hsome hnone
  cases hlast : lastOccurrence? .standard r.trees "namespace" with
  | none =>
    rw [hlast] at hsome hnone
    cases hhint : r.file.hint? with
    | none =>
      rw [hnone hhint]
      rfl
    | some text => exact hsegments text (hsome text hhint)
  | some occurrence =>
    obtain ⟨w, hpath, hwritten, htoken⟩ := written_namespace hlast
    rw [hlast] at hsome
    have hss := hsome _ hwritten
    simp only [Option.bind_some, htoken, Option.orElse_eq_orElse, Option.orElse_eq_or,
      Option.some_or, Option.elim_some]
    rw [Naming.segments_retold hpath]
    exact hsegments _ hss

theorem Request.modules_page (r : Request) (o : Options) :
    Naming.Modules r.namespaceText? (r.page o).segments := by
  have hsegments : (r.page o).segments = if (r.context o).namespaceParts = [] then
    [Page.defaultNamespace]
    else (r.context o).namespaceParts.map Naming.sanitize := Page.segments_build ..
  obtain ⟨ss, hsome, hnone⟩ : ∃ ss,
    (∀ text, r.namespaceText? = some text → Separated text.toList ss) ∧
      (r.namespaceText? = none → ss = []) := by
    cases r.namespaceText? with
    | none => exact ⟨[], fun _ h => (by cases h), fun _ => rfl⟩
    | some text =>
      refine ⟨Naming.cuts text.toList, fun text' h => ?_, fun h => (by cases h)⟩
      obtain rfl := Option.some.inj h
      exact Naming.separated_cuts _
  exact ⟨ss, hsome, hnone, by rw [hsegments, r.namespaceParts_eq o hsome hnone]⟩

theorem join_snoc {names : List String} (hne : names ≠ []) (s : String) :
    Text.join "." (names ++ [s]) = Text.join "." names ++ "." ++ s := by
  induction names with
  | nil => exact absurd rfl hne
  | cons r names ih =>
    cases names with
    | nil => simp [Text.join]
    | cons q names =>
      have hrest := ih (List.cons_ne_nil q names)
      rw [List.cons_append] at hrest
      apply String.ext
      rw [List.cons_append, List.cons_append, String.toList_append, String.toList_append,
        Text.toList_join_cons,
        Text.toList_join_cons, hrest]
      simp

theorem Request.segments_page (r : Request) (o : Options) : (r.page o).segments ≠ [] ∧
    (∀ s ∈ (r.page o).segments, s ≠ "" ∧ Code.Wordy s.toList) ∧
      (r.page o).namespaceName = Text.join "." (r.page o).segments := by
  have hsegments : (r.page o).segments = if (r.context o).namespaceParts = [] then
    [Page.defaultNamespace]
    else (r.context o).namespaceParts.map Naming.sanitize := Page.segments_build ..
  have hname : (r.page o).namespaceName = Page.Pass.namespaceOf (r.context o) :=
    Page.namespaceName_build ..
  rw [Page.namespaceOf_eq] at hname
  rw [hsegments, hname]
  split
  next hparts =>
    refine ⟨List.cons_ne_nil _ _, fun s hs => ?_, by rw [Text.join, String.intercalate_singleton]⟩
    obtain rfl := List.mem_singleton.mp hs
    exact ⟨by decide, by decide⟩
  next hparts =>
    refine ⟨by simpa using hparts, fun s hs => ?_, rfl⟩
    obtain ⟨q, -, rfl⟩ := List.mem_map.mp hs
    exact ⟨Naming.sanitize_ne_empty q, Page.wordy_sanitize q⟩

/-- The namespace of a page is not empty. The names between its dots are those of the text that
declares it, and these are the modules that the unit opens and closes, the path that the forwarded
members import from, and the name of the unit in front of that of the class. The namespace of a file
under a root is that of the root with the directories of the file's path. -/
theorem namespace_consistent (r : Request) (o : Options) :
    (r.page o).namespaceName ≠ "" ∧ Naming.Modules r.namespaceText? (r.page o).segments ∧
      (Text.splitAt (· == '.') (r.page o).namespaceName.toList).map String.ofList =
        (r.page o).segments ∧
      Separated (Text.join "::" (r.page o).segments).toList
        ((r.page o).segments.map String.toList) ∧
      (r.page o).unitName =
        Text.join "." ((r.page o).segments ++ [Naming.sanitize r.file.stem]) ++ ".g.rs" ∧
      (∀ resolve unit ds, generate o resolve r = .ok (unit, ds) → unit.name = (r.page o).unitName ∧
        ∃ extra default ls, Base.forward (r.page o) resolve = .ok extra ∧
          Unit.Written (r.page o) extra default ls ∧ unit.text.toList = ls.written) ∧
      ∀ root path ss, Separated root.toList ss →
        ∃ ts, Separated (Naming.ofPath root path).toList ts ∧
        named ts = named ss ++ (Naming.directories path).map Naming.sanitize := by
  obtain ⟨hne, hnames, hjoin⟩ := r.segments_page o
  have hwordy : ∀ s ∈ (r.page o).segments, Code.Wordy s.toList := fun s hs => (hnames s hs).2
  refine ⟨?nonempty, r.modules_page o, ?split, ?imports, ?unit, ?generated,
    fun root path ss h => Naming.separated_ofPath h path⟩
  case nonempty =>
    rw [hjoin]
    obtain ⟨s, segments, hsegments⟩ := List.exists_cons_of_ne_nil hne
    rw [hsegments] at hnames ⊢
    exact Page.join_ne_empty (hnames s List.mem_cons_self).1 segments
  case split =>
    rw [hjoin]
    exact Page.splitAt_dots hne hwordy
  case imports => exact Naming.separated_join (.inr rfl) hne hwordy
  case unit =>
    have hclass : (r.page o).definition.name = Naming.sanitize r.file.stem := Page.name_build ..
    rw [Page.Document.unitName, hjoin, hclass, join_snoc hne]
  case generated =>
    intro resolve unit ds h
    obtain ⟨ms, -, hunit, -⟩ := exists_of_generate h
    exact ⟨congrArg (·.name) hunit, exists_written_of_generate h⟩

def catalogue : Request where
  file := (InputFile.ofPath "shop/Item.stencil").withRoot "site"
  text := "@namespace app::type.views\nhi"

theorem namespace_consistent_catalogue :
    (catalogue.page {}).segments = ["app", "type_", "views"] ∧
    (∃ unit ds, generate {} (Base.ambient {}) catalogue = .ok (unit, ds) ∧
      unit.name = "app.type_.views.Item.g.rs" ∧
      ∃ default ls, Unit.Written (catalogue.page {}) [] default ls ∧
        unit.text.toList = ls.written) ∧
    ∃ ts, Separated (Naming.ofPath "site::web" "a b/./x.stencil").toList ts ∧
      named ts = ["site", "web", "a_b"] := by
  obtain ⟨-, -, -, -, hname, hgenerate, hroot⟩ := namespace_consistent catalogue {}
  have hsegments : (catalogue.page {}).segments = ["app", "type_", "views"] := by decide +kernel
  have hstem : Naming.sanitize catalogue.file.stem = "Item" := by decide +kernel
  have hbase : (catalogue.page {}).definition.base?.isNone = true := by decide +kernel
  have hforward : Base.forward (catalogue.page {}) (Base.ambient {}) = .ok [] := by
    rw [Base.forward, Option.isNone_iff_eq_none.mp hbase]
  have hunit := generate_eq {} (Base.ambient {}) catalogue
  rw [hforward] at hunit
  refine ⟨hsegments, ⟨_, _, hunit, ?_, ?_⟩, ?_⟩
  · rw [(hgenerate _ _ _ hunit).1, hname, hsegments, hstem]
    decide +kernel
  · obtain ⟨-, extra, default, ls, hextra, hwritten, htext⟩ := hgenerate _ _ _ hunit
    obtain rfl := Except.ok.inj (hforward.symm.trans hextra)
    exact ⟨default, ls, hwritten, htext⟩
  · obtain ⟨ts, hts, hnamed⟩ := hroot "site::web" "a b/./x.stencil" _ (Naming.separated_cuts _)
    exact ⟨ts, hts, hnamed.trans (by decide +kernel)⟩

end Templating
