import Mathlib.Data.List.Perm.Basic
import Templating.Proofs.Markup.Ranges
import Templating.Proofs.Page.Precedence

/-! What a page reports, as a multiset: what is recorded on its trees and on their directives, each
once, and what the passes tell of the directives that take effect. -/
namespace Templating.Page
open Markup (Clause DirectiveUse Holds Node Nodes Tree clauseFaults nodeFaults)

/-! Directives at any depth -/

mutual

def usesOf : Node → List (DirectiveUse (Located Node))
  | .control branches => clauseUses branches
  | .choice _ arms => clauseUses arms
  | .directive ⟨keyword, tokens, some (.markup nodes), faults⟩ =>
    ⟨keyword, tokens, some (.markup nodes), faults⟩ :: nodeUses nodes
  | .directive d => [d]
  | _ => []

def nodeUses : Nodes → List (DirectiveUse (Located Node))
  | [] => []
  | ⟨n, _⟩ :: ns => usesOf n ++ nodeUses ns

def clauseUses : List (Clause (Located Node)) → List (DirectiveUse (Located Node))
  | [] => []
  | ⟨_, body⟩ :: cs => nodeUses body ++ clauseUses cs

end

mutual

theorem faults_usesOf (n : Node) : n.faults = (usesOf n).flatMap (·.faults) := by
  match n with
  | .control branches => rw [Node.faults, usesOf, clauseFaults_eq]
  | .choice _ arms => rw [Node.faults, usesOf, clauseFaults_eq]
  | .directive ⟨_, _, some (.markup nodes), _⟩ =>
    rw [Node.faults, usesOf, nodeFaults_eq, List.flatMap_cons]
  | .directive ⟨_, _, none, _⟩ => simp [Node.faults, usesOf]
  | .directive ⟨_, _, some (.code _), _⟩ => simp [Node.faults, usesOf]
  | .markup _ | .comment | .expression _ | .code _ | .attribute _ => simp [Node.faults, usesOf]

theorem nodeFaults_eq (ns : Nodes) : nodeFaults ns = (nodeUses ns).flatMap (·.faults) := by
  match ns with
  | [] => rfl
  | ⟨n, _⟩ :: ns =>
    rw [nodeFaults, nodeUses, faults_usesOf n, nodeFaults_eq ns, List.flatMap_append]

theorem clauseFaults_eq (cs : List (Clause (Located Node))) :
    clauseFaults cs = (clauseUses cs).flatMap (·.faults) := by
  match cs with
  | [] => rfl
  | ⟨_, body⟩ :: cs =>
    rw [clauseFaults, clauseUses, nodeFaults_eq body, clauseFaults_eq cs, List.flatMap_append]

end

theorem holds_cons {k m : Located Node} {ns : Nodes} :
    Holds (k :: ns) m ↔ m = k ∨ (∃ body ∈ k.val.bodies, Holds body m) ∨ Holds ns m := by
  constructor
  · intro h
    cases h with
    | here h =>
      rcases List.mem_cons.mp h with rfl | h
      · exact .inl rfl
      · exact .inr (.inr (.here h))
    | inside h hbody hm =>
      rcases List.mem_cons.mp h with rfl | h
      · exact .inr (.inl ⟨_, hbody, hm⟩)
      · exact .inr (.inr (.inside h hbody hm))
  · rintro (rfl | ⟨body, hbody, hm⟩ | h)
    · exact .here List.mem_cons_self
    · exact .inside List.mem_cons_self hbody hm
    · cases h with
      | here h => exact .here (List.mem_cons_of_mem k h)
      | inside h hbody hm => exact .inside (List.mem_cons_of_mem k h) hbody hm

theorem not_holds_nil {m : Located Node} : ¬ Holds [] m := by
  rintro (h | ⟨h, -, -⟩) <;> cases h

mutual

theorem mem_usesOf (n : Node) {d : DirectiveUse (Located Node)} :
    d ∈ usesOf n ↔ n = .directive d ∨ ∃ body ∈ n.bodies, ∃ m, Holds body m ∧
      m.val = .directive d := by
  match n with
  | .control branches => simp [usesOf, Node.bodies, mem_clauseUses branches]
  | .choice _ arms => simp [usesOf, Node.bodies, mem_clauseUses arms]
  | .directive ⟨_, _, some (.markup nodes), _⟩ =>
    simp [usesOf, Node.bodies, mem_nodeUses nodes, eq_comm]
  | .directive ⟨_, _, none, _⟩ => simp [usesOf, Node.bodies, eq_comm]
  | .directive ⟨_, _, some (.code _), _⟩ => simp [usesOf, Node.bodies, eq_comm]
  | .markup _ | .comment | .expression _ | .code _ | .attribute _ => simp [usesOf, Node.bodies]

theorem mem_nodeUses (ns : Nodes) {d : DirectiveUse (Located Node)} :
    d ∈ nodeUses ns ↔ ∃ m, Holds ns m ∧ m.val = .directive d := by
  match ns with
  | [] => simp [nodeUses, not_holds_nil]
  | ⟨n, span⟩ :: ns =>
    rw [nodeUses, List.mem_append, mem_usesOf n, mem_nodeUses ns]
    simp only [holds_cons, or_and_right, exists_or, exists_eq_left]
    rw [or_assoc]
    refine or_congr_right (or_congr_left ⟨?_, ?_⟩)
    · rintro ⟨body, hbody, m, hm, hd⟩
      exact ⟨m, ⟨body, hbody, hm⟩, hd⟩
    · rintro ⟨m, ⟨body, hbody, hm⟩, hd⟩
      exact ⟨body, hbody, m, hm, hd⟩

theorem mem_clauseUses (cs : List (Clause (Located Node))) {d : DirectiveUse (Located Node)} :
    d ∈ clauseUses cs ↔ ∃ body ∈ cs.map (·.body), ∃ m, Holds body m ∧ m.val = .directive d := by
  match cs with
  | [] => simp [clauseUses]
  | ⟨_, body⟩ :: cs => simp [clauseUses, mem_nodeUses body, mem_clauseUses cs]

end

/-! Elements that come again -/

section
variable {α : Type} (key : α → String)

/-- The elements that have the key of an element before them, be it in the list
or before the list. -/
def repeatsBehind (before xs : List α) : List α :=
  (xs.zipIdx.filter fun x => (before ++ xs.take x.2).any fun y => key y == key x.1).map (·.1)

def repeats (xs : List α) : List α := repeatsBehind key [] xs

theorem repeatsBehind_cons (before : List α) (x : α) (xs : List α) :
    repeatsBehind key before (x :: xs) =
    (if before.any fun y => key y == key x then [x] else []) ++ repeatsBehind key (before ++ [x])
      xs := by
  have htail : (x :: xs).zipIdx = (x, 0) :: xs.zipIdx.map fun y => (y.1, y.2 + 1) := by
    rw [List.zipIdx_cons, List.zipIdx_succ]
  have hlater : ((xs.zipIdx.map fun y => (y.1, y.2 + 1)).filter fun y =>
      (before ++ (x :: xs).take y.2).any fun z => key z == key y.1).map (·.1) =
        repeatsBehind key (before ++ [x]) xs := by
    rw [List.filter_map, List.map_map, repeatsBehind]
    simp [Function.comp_def]
  have hhere : before ++ (x :: xs).take 0 = before := by rw [List.take_zero, List.append_nil]
  rw [repeatsBehind, htail, List.filter_cons, hhere]
  split
  · exact congrArg (List.cons x) hlater
  · exact hlater

end

/-! One file -/

/-- What is recorded on a tree: its own faults, and those of its directives at any depth. -/
def recorded (s : Tree) : List Diagnostic :=
  (s.faults ++ (nodeUses s.nodes).flatMap (·.faults)).map (·.inSource s.source)

def limitedUses (t : DirectiveTable) (s : Tree) : List TopUse :=
  s.directives.filter fun d => d.val.sound && once t d.val.keyword

def duplicate (source : Source) (d : TopUse) : Diagnostic :=
  ⟨.duplicateDirective d.val.keyword, some ⟨source, d.span⟩, .error⟩

/-- What is told of the uses of what may occur once that are not the first. -/
def duplicates (t : DirectiveTable) (s : Tree) : List Diagnostic :=
  (repeats (·.val.keyword) (limitedUses t s)).map (duplicate s.source)

theorem reports_cons {t : DirectiveTable} {source : Source} {seen : List String} {d : TopUse}
    {ds : List TopUse} (h : d.val.sound = true) : (effective t source seen (d :: ds)).2 =
      if (once t d.val.keyword && seen.contains d.val.keyword) = true then
        duplicate source d :: (effective t source seen ds).2
      else (effective t source (if once t d.val.keyword then d.val.keyword :: seen else seen)
        ds).2 := by
  unfold once
  simp only [effective, h, Bool.not_true, Bool.false_eq_true, if_false]
  split <;> rfl

theorem reports_effective {t : DirectiveTable} {source : Source} {seen : List String}
    {before ds : List TopUse}
    (hseen : ∀ k, seen.contains k = before.any fun d => d.val.keyword == k) :
    (effective t source seen ds).2 = (repeatsBehind (·.val.keyword) before
      (ds.filter fun d => d.val.sound && once t d.val.keyword)).map (duplicate source) := by
  induction ds generalizing seen before with
  | nil => rfl
  | cons d ds ih =>
    cases hsound : d.val.sound with
    | false => rw [effective_unsound hsound, ih hseen, List.filter_cons_of_neg (by simp [hsound])]
    | true =>
      rw [reports_cons hsound]
      cases honce : once t d.val.keyword with
      | false => simpa [honce] using ih hseen
      | true =>
        rw [List.filter_cons_of_pos (by simp [hsound, honce]), repeatsBehind_cons, ← hseen,
          Bool.true_and, if_pos rfl]
        have hnext : ∀ k, (d.val.keyword :: seen).contains k = (before ++ [d]).any fun d =>
            d.val.keyword == k := fun k => by
          rw [List.contains_cons, hseen, List.any_append, Bool.or_comm, Bool.beq_comm]
          simp
        cases hd : seen.contains d.val.keyword with
        | false => simpa using ih hnext
        | true =>
          have hsame : ∀ k, seen.contains k = (before ++ [d]).any fun d => d.val.keyword == k :=
            fun k => by
            rw [← hnext, List.contains_cons]
            by_cases hk : k = d.val.keyword
            · rw [hk, hd, Bool.or_true]
            · simp [hk]
          simpa using ih hsame

theorem contribution_eq (t : DirectiveTable) (s : Tree) :
    (contribution t s).2 = recorded s ++ duplicates t s := by
  have hfaults : s.allDiagnostics = recorded s := by
    rw [Tree.allDiagnostics, nodeFaults_eq, recorded]
  have hrepeated : (effective t s.source [] s.directives).2 = duplicates t s :=
    reports_effective fun _ => rfl
  show s.allDiagnostics ++ (effective t s.source [] s.directives).2 = _
  rw [hfaults, hrepeated]

/-! Type parameters -/

def parameterName (o : Occurrence) : String := (o.use.token? .member).getD ""

theorem reports_distinctParameters {done : List TypeParameter} {before os : List Occurrence}
    (hdone : ∀ name, (done.any fun p => p.name == name) = before.any fun o =>
      parameterName o == name) :
    (Pass.distinctParameters done os).2 = (repeatsBehind parameterName before os).map fun o =>
      (.duplicateTypeParameter (parameterName o), o.location) := by
  induction os generalizing done before with
  | nil => rfl
  | cons o os ih =>
    have hname : (o.use.token? .member).getD "" = parameterName o := rfl
    rw [repeatsBehind_cons, ← hdone, Pass.distinctParameters, hname]
    dsimp only
    cases ho : done.any fun p => p.name == parameterName o with
    | false =>
      refine ih fun name => ?_
      rw [List.any_append, List.any_append, hdone]
      simp
    | true =>
      have hsame : ∀ name, (done.any fun p => p.name == name) = (before ++ [o]).any fun o =>
          parameterName o == name := fun name => by
        rw [List.any_append, ← hdone]
        by_cases hn : parameterName o = name
        · rw [← hn, ho, Bool.true_or]
        · simp [hn]
      exact congrArg (List.cons _) (ih hsame)

/-! The page -/

def useText (o : Occurrence) : String := (o.use.token? .text).getD ""

def told (p : Problem) (o : Occurrence) : Diagnostic := ⟨p, some o.location, .error⟩

/-- What a page reports, apart from the order. -/
def reports (t : DirectiveTable) (files : List Tree) : List Diagnostic :=
  files.flatMap recorded ++ files.flatMap (duplicates t) ++
    (occurrencesIn t files "model").map (fun o =>
      told (.modelDirective ((o.use.token? .type).getD "")) o) ++
    (Pass.tagHelperKeywords.flatMap (occurrencesIn t files)).map (fun o =>
      told (.tagHelpers o.use.keyword) o) ++
    ((occurrencesIn t files "use").filter fun o => !Code.isUseTree (useText o)).map (fun o =>
      told (.malformedDirective "use" s!"`{useText o}` is not a valid use tree") o) ++
    (repeats parameterName (occurrencesIn t files "typeparam")).map fun o =>
      told (.duplicateTypeParameter (parameterName o)) o

section
variable (file : InputFile) (options : Options) (t : DirectiveTable) (imports : List Tree)
  (tree : Tree)

theorem diagnostics_build : (build file options t imports tree).diagnostics =
    ((imports ++ [tree]).map (contribution t)).flatMap (·.2) ++
      ((context file options t imports tree).of "model").map (fun o =>
        told (.modelDirective ((o.use.token? .type).getD "")) o) ++
      ((context file options t imports tree).occurrences.filter fun o =>
        Pass.tagHelperKeywords.contains o.use.keyword).map (fun o =>
        told (.tagHelpers o.use.keyword) o) ++
      (((context file options t imports tree).of "use").filter fun o =>
        !Code.isUseTree (useText o)).map (fun o =>
        told (.malformedDirective "use" s!"`{useText o}` is not a valid use tree") o) ++
      (Pass.distinctParameters [] ((context file options t imports tree).of "typeparam")).2.map
        fun r =>
        ⟨r.1, some r.2, .error⟩ := by
  simp only [build, stages, List.foldl_cons, List.foldl_nil, Pass.lowerBody, Pass.configureClass,
    Pass.collectFunctions,
    Pass.collectTypeParameters, Pass.settleBase, Pass.collectUses, Pass.settleNamespace,
      Pass.rejectTagHelpers, Pass.rejectModel,
    Pass.report, List.partition_eq_filter_filter, List.map_map, List.filter_map]
  rfl

theorem filter_perm_flatMap {α : Type} (key : α → String) (ks : List String) (hks : ks.Nodup)
    (xs : List α) :
    (xs.filter fun x => ks.contains (key x)).Perm (ks.flatMap fun k => xs.filter fun x =>
      key x == k) := by
  induction ks with
  | nil => simp
  | cons k ks ih =>
    obtain ⟨hk, hks⟩ := List.nodup_cons.mp hks
    have hfirst : (xs.filter fun x => (k :: ks).contains (key x)).filter (fun x => key x == k) =
        xs.filter fun x => key x == k := by
      rw [List.filter_filter]
      refine List.filter_congr fun x _ => ?_
      cases hx : key x == k <;> simp_all
    have hrest : (xs.filter fun x => (k :: ks).contains (key x)).filter (fun x => !(key x == k)) =
        xs.filter fun x => ks.contains (key x) := by
      rw [List.filter_filter]
      refine List.filter_congr fun x _ => ?_
      by_cases hx : key x = k
      · simp [hx, hk]
      · simp [hx]
    have hsplit :=
      List.filter_append_perm (fun x => key x == k) (xs.filter fun x => (k :: ks).contains (key x))
    rw [hfirst, hrest] at hsplit
    exact hsplit.symm.trans ((ih hks).append_left _)

/-- Nothing is lost and nothing told twice: what a page reports is what is recorded on its trees and
what is told of the directives that take effect, in some order. -/
theorem reports_build :
    (build file options t imports tree).diagnostics.Perm (reports t (imports ++ [tree])) := by
  have hfiles : (((imports ++ [tree]).map (contribution t)).flatMap (·.2)).Perm
      ((imports ++ [tree]).flatMap recorded ++ (imports ++ [tree]).flatMap (duplicates t)) := by
    rw [List.flatMap_map]
    simp only [contribution_eq]
    exact (List.flatMap_append_perm _ _ _).symm
  have hhelpers : ((context file options t imports tree).occurrences.filter fun o =>
      Pass.tagHelperKeywords.contains o.use.keyword).Perm
        (Pass.tagHelperKeywords.flatMap (occurrencesIn t (imports ++ [tree]))) := by
    have hof : ∀ k, ((context file options t imports tree).occurrences.filter fun o =>
      o.use.keyword == k) =
        occurrencesIn t (imports ++ [tree]) k := of_context file options t imports tree
    have hperm :=
      filter_perm_flatMap (fun o : Occurrence => o.use.keyword) Pass.tagHelperKeywords (by decide)
        (context file options t imports tree).occurrences
    simpa only [hof] using hperm
  have hparameters :
    (Pass.distinctParameters [] (occurrencesIn t (imports ++ [tree]) "typeparam")).2.map
      (fun r => (⟨r.1, some r.2, .error⟩ : Diagnostic)) =
        (repeats parameterName (occurrencesIn t (imports ++ [tree]) "typeparam")).map
        fun o => told (.duplicateTypeParameter (parameterName o)) o := by
    have hnone : ∀ name, (([] : List TypeParameter).any fun p => p.name == name) =
        ([] : List Occurrence).any fun o => parameterName o == name := fun _ => rfl
    rw [reports_distinctParameters hnone, List.map_map]
    rfl
  rw [diagnostics_build, of_context, of_context, of_context, hparameters]
  exact (((hfiles.append_right _).append (hhelpers.map _)).append_right _).append_right _

end

end Templating.Page
