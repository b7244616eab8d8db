import Templating.Proofs.Page.Build

/-! Which directives settle a page. In a file it is the first sound use of a keyword that may occur
once, and every sound use of another; of the files the last that declares a base or a namespace
wins, and all other declarations add up. -/
namespace Templating.Page
open Markup (Tree DirectiveUse Node)

abbrev TopUse := Located (DirectiveUse (Located Node))

def once (t : DirectiveTable) (keyword : String) : Bool :=
  ((t.get? keyword).map (·.usage)) == some .oncePerFile

def soundUses (s : Tree) (keyword : String) : List TopUse :=
  s.directives.filter fun d => d.val.keyword == keyword && d.val.sound

/-- Those of them that take effect. -/
def effectiveUses (t : DirectiveTable) (s : Tree) (keyword : String) : List TopUse :=
  if once t keyword then (soundUses s keyword).take 1 else soundUses s keyword

def TopUse.occurrence (source : Source) (d : TopUse) : Occurrence := ⟨⟨source, d.span⟩, d.val⟩

def occurrencesIn (t : DirectiveTable) (files : List Tree) (keyword : String) : List Occurrence :=
  files.flatMap fun s => (effectiveUses t s keyword).map (TopUse.occurrence s.source)

def lastOccurrence? (t : DirectiveTable) (files : List Tree) (keyword : String) :
    Option Occurrence :=
  (files.filterMap fun s =>
    (effectiveUses t s keyword).getLast?.map (TopUse.occurrence s.source)).getLast?

/-- The first parameter of each name. -/
def firstOfEach : List TypeParameter → List TypeParameter
  | [] => []
  | p :: ps => p :: (firstOfEach ps).filter (·.name != p.name)

/-! What the reading of a file keeps -/

/-- What is still to take effect of uses of one keyword. -/
def remaining (limited seen : Bool) (ds : List TopUse) : List TopUse :=
  if limited then if seen then [] else ds.take 1 else ds

theorem remaining_nil (limited seen : Bool) : remaining limited seen [] = [] := by
  cases limited <;> cases seen <;> rfl

section
variable {t : DirectiveTable} {source : Source} {seen : List String} {d : TopUse} {ds : List TopUse}

theorem effective_unsound (h : d.val.sound = false) :
    effective t source seen (d :: ds) = effective t source seen ds := by
  rw [effective, h]
  rfl

theorem effective_repeated (h : d.val.sound = true)
    (hd : (once t d.val.keyword && seen.contains d.val.keyword) = true) :
    (effective t source seen (d :: ds)).1 = (effective t source seen ds).1 := by
  unfold once at hd
  simp only [effective, h, hd, Bool.not_true, Bool.false_eq_true, if_false, if_true]

theorem effective_taken (h : d.val.sound = true)
    (hd : (once t d.val.keyword && seen.contains d.val.keyword) = false) :
    (effective t source seen (d :: ds)).1 = TopUse.occurrence source d ::
      (effective t source (if once t d.val.keyword then d.val.keyword :: seen else seen) ds).1 := by
  unfold once at hd ⊢
  simp only [effective, h, hd, Bool.not_true, Bool.false_eq_true, if_false]
  rfl

end

theorem of_effective (t : DirectiveTable) (source : Source) (keyword : String) (seen : List String)
    (ds : List TopUse) :
    (effective t source seen ds).1.filter (·.use.keyword == keyword) =
      (remaining (once t keyword) (seen.contains keyword)
        (ds.filter fun d => d.val.keyword == keyword && d.val.sound)).map
          (TopUse.occurrence source) := by
  induction ds generalizing seen with
  | nil =>
    rw [List.filter_nil, remaining_nil]
    rfl
  | cons d ds ih =>
    cases hsound : d.val.sound with
    | false => rw [effective_unsound hsound, ih, List.filter_cons_of_neg (by simp [hsound])]
    | true =>
      by_cases hk : d.val.keyword = keyword
      · subst hk
        rw [List.filter_cons_of_pos (by simp [hsound])]
        cases honce : once t d.val.keyword with
        | false =>
          rw [effective_taken hsound (by simp [honce]), honce,
            List.filter_cons_of_pos (by simp [TopUse.occurrence])]
          simp [ih, honce, remaining]
        | true =>
          cases hseen : seen.contains d.val.keyword with
          | true =>
            simp only [effective_repeated hsound (by rw [honce, hseen]; rfl), ih, honce, hseen,
              remaining, if_true]
          | false =>
            rw [effective_taken hsound (by rw [honce, hseen]; rfl), honce,
              List.filter_cons_of_pos (by simp [TopUse.occurrence])]
            simp [ih, honce, remaining]
      · rw [List.filter_cons_of_neg (by simp [hk])]
        cases hskip : once t d.val.keyword && seen.contains d.val.keyword with
        | true => rw [effective_repeated hsound hskip, ih]
        | false =>
          -- a use of another keyword marks only that one as seen
          have hother :
            (if once t d.val.keyword then d.val.keyword :: seen else seen).contains keyword =
              seen.contains keyword := by
            split
            · simp [Ne.symm hk]
            · rfl
          rw [effective_taken hsound hskip,
            List.filter_cons_of_neg (by simp [TopUse.occurrence, hk]), ih, hother]

theorem of_contribution (t : DirectiveTable) (s : Tree) (keyword : String) :
    (contribution t s).1.filter (·.use.keyword == keyword) =
      (effectiveUses t s keyword).map (TopUse.occurrence s.source) := by
  have h := of_effective t s.source keyword [] s.directives
  simpa [contribution, remaining, effectiveUses, soundUses] using h

section
variable (file : InputFile) (options : Options) (t : DirectiveTable) (imports : List Tree)
  (tree : Tree)

theorem of_context (keyword : String) :
    (context file options t imports tree).of keyword =
      occurrencesIn t (imports ++ [tree]) keyword := by
  have hfiles : ∀ files : List Tree,
    ((files.map (contribution t)).flatMap (·.1)).filter (·.use.keyword == keyword) =
      occurrencesIn t files keyword := by
    intro files
    induction files with
    | nil => rfl
    | cons s files ih =>
      simp only [occurrencesIn, List.map_cons, List.flatMap_cons, List.filter_append,
        of_contribution] at ih ⊢
      rw [ih]
  exact hfiles (imports ++ [tree])

end

theorem getLast?_occurrencesIn (t : DirectiveTable) (files : List Tree) (keyword : String) :
    (occurrencesIn t files keyword).getLast? = lastOccurrence? t files keyword := by
  induction files with
  | nil => rfl
  | cons s files ih =>
    unfold occurrencesIn lastOccurrence? at ih ⊢
    rw [List.flatMap_cons, List.getLast?_append, ih, List.getLast?_map]
    cases h : (effectiveUses t s keyword).getLast? with
    | none => simp [h]
    | some d => simp [h, List.getLast?_cons]

/-! Type parameters -/

theorem distinctParameters_eq (done : List TypeParameter) (os : List Occurrence) :
    (Pass.distinctParameters done os).1 =
      done ++ (firstOfEach (os.map fun o =>
        ⟨(o.use.token? .member).getD "", o.use.token? .constraint⟩)).filter
        fun p => !done.any (·.name == p.name) := by
  induction os generalizing done with
  | nil => simp [Pass.distinctParameters, firstOfEach]
  | cons o os ih =>
    simp only [Pass.distinctParameters, List.map_cons, firstOfEach]
    by_cases hdone : done.any (·.name == (o.use.token? .member).getD "") = true
    · rw [if_pos hdone, ih, List.filter_cons_of_neg (by simpa using hdone), List.filter_filter]
      congr 1
      refine List.filter_congr fun p hp => ?_
      cases hname : done.any (·.name == p.name) with
      | true => simp
      | false =>
        have hne : p.name ≠ (o.use.token? .member).getD "" := by
          intro heq
          rw [heq, hdone] at hname
          cases hname
        simp [hne]
    · rw [if_neg hdone, ih, List.filter_cons_of_pos (by simpa using hdone), List.filter_filter,
        List.append_assoc,
        List.singleton_append]
      congr 2
      refine List.filter_congr fun p hp => ?_
      simp [bne, Bool.beq_comm]

/-! The page -/

def settling : List String := ["inherits", "namespace", "use", "functions", "typeparam"]

def declarations (t : DirectiveTable) (s : Tree) : Source × List (List TopUse) :=
  (s.source, settling.map (effectiveUses t s))

theorem occurrencesIn_congr {t : DirectiveTable} {files files' : List Tree} {keyword : String}
    (hk : keyword ∈ settling) (h : files.map (declarations t) = files'.map (declarations t)) :
    occurrencesIn t files keyword = occurrencesIn t files' keyword := by
  induction files generalizing files' with
  | nil =>
    obtain rfl := List.map_eq_nil_iff.mp h.symm
    rfl
  | cons s files ih =>
    cases files' with
    | nil => cases h
    | cons s' files' =>
      obtain ⟨hs, hrest⟩ := List.cons.inj h
      obtain ⟨hsource, huses⟩ := Prod.mk.inj hs
      have hkeyword := List.map_inj_left.mp huses keyword hk
      have htail := ih hrest
      unfold occurrencesIn at htail ⊢
      rw [List.flatMap_cons, List.flatMap_cons, htail, hkeyword, hsource]

def namespaceFrom (name? : Option String) : String :=
  match name?.map Naming.normalize with
  | none | some "" => defaultNamespace
  | some name => name

/-- What directives settle of a page. -/
def Document.settled (d : Document) :
    Option Declaration × String × List Declaration × List Member × List TypeParameter :=
  (d.definition.base?, d.namespaceName, d.uses, d.definition.members, d.definition.typeParameters)

section
variable (file : InputFile) (options : Options) (t : DirectiveTable) (imports : List Tree)
  (tree : Tree)

theorem namespaceOf_context : Pass.namespaceOf (context file options t imports tree) =
    namespaceFrom
      (((lastOccurrence? t (imports ++ [tree]) "namespace").bind (·.use.token? .namespacePath)) <|>
        file.hint?) := by
  have hname : ∀ name? : Option String,
    (if name?.getD "" == "" then defaultNamespace else name?.getD "") =
      match name? with
      | none | some "" => defaultNamespace
      | some name => name := by
    intro name?
    cases name? with
    | none => rfl
    | some name =>
      by_cases h : name = ""
      · subst h
        rfl
      · simp [h]
  unfold Pass.namespaceOf namespaceFrom
  rw [of_context, getLast?_occurrencesIn]
  exact hname _

theorem typeParameters_eq : (build file options t imports tree).definition.typeParameters =
    firstOfEach ((occurrencesIn t (imports ++ [tree]) "typeparam").map fun o =>
      ⟨(o.use.token? .member).getD "", o.use.token? .constraint⟩) := by
  rw [typeParameters_build, of_context, distinctParameters_eq]
  simp

theorem settled_congr {imports' : List Tree} {tree' : Tree}
    (h : (imports ++ [tree]).map (declarations t) = (imports' ++ [tree']).map (declarations t)) :
    (build file options t imports tree).settled =
      (build file options t imports' tree').settled := by
  have hof : ∀ keyword ∈ settling, (context file options t imports tree).of keyword =
      (context file options t imports' tree').of keyword := by
    intro keyword hk
    rw [of_context, of_context, occurrencesIn_congr hk h]
  have hnamespace : Pass.namespaceOf (context file options t imports tree) =
      Pass.namespaceOf (context file options t imports' tree') := by
    unfold Pass.namespaceOf
    rw [hof "namespace" (by decide)]
    rfl
  simp only [Document.settled, base?_build, namespaceName_build, uses_build, members_build,
    typeParameters_build, hnamespace,
    hof "inherits" (by decide), hof "use" (by decide), hof "functions" (by decide),
      hof "typeparam" (by decide)]

/-- Every directive that takes effect counts and nothing else does: a later file's base and
namespace take the place of an earlier one's, uses, members and parameters add up in the order of
the files and of each file's text, and the body is the template's own. -/
theorem build_precedence :
    (build file options t imports tree).definition.base? =
        ((lastOccurrence? t (imports ++ [tree]) "inherits").bind fun o =>
          (o.use.token? .type).map fun text => ⟨text, o.location⟩) ∧
      (build file options t imports tree).namespaceName =
        namespaceFrom ((lastOccurrence? t (imports ++ [tree]) "namespace").bind
          (·.use.token? .namespacePath) <|>
          file.hint?) ∧
      (build file options t imports tree).uses =
        ((occurrencesIn t (imports ++ [tree]) "use").map fun o =>
        (⟨(o.use.token? .text).getD "", o.location⟩ : Declaration)).filter (fun u =>
          Code.isUseTree u.text) ∧
      (build file options t imports tree).definition.members =
        ((occurrencesIn t (imports ++ [tree]) "functions").filterMap fun o =>
          match o.use.body? with
          | some (.code c) => some (Member.functions ⟨c.val, o.location.source, c.span⟩)
          | _ => none) ∧
      (build file options t imports tree).definition.typeParameters =
        firstOfEach ((occurrencesIn t (imports ++ [tree]) "typeparam").map fun o =>
          ⟨(o.use.token? .member).getD "", o.use.token? .constraint⟩) ∧
      (∀ imports' tree', (imports ++ [tree]).map (declarations t) =
        (imports' ++ [tree']).map (declarations t) →
        (build file options t imports tree).settled =
          (build file options t imports' tree').settled) ∧
      ∀ imports', (build file options t imports tree).definition.body =
        (build file options t imports' tree).definition.body := by
  refine ⟨?inherited, ?named, ?used, ?defined, ?parametrised, ?alike, fun imports' => rfl⟩
  case inherited => rw [base?_build, of_context, getLast?_occurrencesIn]
  case named => rw [namespaceName_build, namespaceOf_context]
  case used => rw [uses_build, of_context]
  case defined =>
    have hmembers := members_build file options t imports tree
    rw [of_context] at hmembers
    exact hmembers
  case parametrised => exact typeParameters_eq file options t imports tree
  case alike =>
    intro imports' tree' h
    exact settled_congr file options t imports tree h

end

def useOf (keyword : String) (kind : TokenKind) (text : String) (faults : List Fault := []) :
    Located Node :=
  ⟨.directive ⟨keyword, [⟨⟨kind, text⟩, ⟨0, 0⟩⟩], none, faults⟩, ⟨0, 0⟩⟩

def rootImport : Tree :=
  ⟨⟨"_imports.stencil", ""⟩, [useOf "inherits" .type "A", useOf "use" .text "a::b"], []⟩

def noisyPage : Tree where
  source := ⟨"page.stencil", ""⟩
  nodes :=
    [⟨.markup "x", ⟨0, 1⟩⟩, useOf "namespace" .namespacePath "n",
      useOf "namespace" .namespacePath "m",
    useOf "inherits" .type "B" [{ problem := .badText "", span := ⟨0, 0⟩ }],
    ⟨.control [⟨"if x", [useOf "inherits" .type "C"]⟩], ⟨0, 0⟩⟩]
  faults := []

def quietPage : Tree := ⟨⟨"page.stencil", ""⟩, [useOf "namespace" .namespacePath "n"], []⟩

theorem build_precedence_noisy :
    ([rootImport] ++ [noisyPage]).map (declarations .standard) =
      ([rootImport] ++ [quietPage]).map (declarations .standard) ∧
      (build (.ofPath "page.stencil") {} .standard [rootImport] noisyPage).settled =
        (build (.ofPath "page.stencil") {} .standard [rootImport] quietPage).settled := by
  have h : ([rootImport] ++ [noisyPage]).map (declarations .standard) =
      ([rootImport] ++ [quietPage]).map (declarations .standard) := by rfl
  obtain ⟨-, -, -, -, -, halike, -⟩ :=
    build_precedence (.ofPath "page.stencil") {} .standard [rootImport] noisyPage
  exact ⟨h, halike [rootImport] quietPage h⟩

end Templating.Page
