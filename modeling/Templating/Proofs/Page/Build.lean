import Templating.Page.Build

/-! What each side of a page comes to, whatever the passes do to the others, and where the
directives that passes read come from. -/
namespace Templating.Page
open Markup (Tree DirectiveUse Node)

theorem use_of_effective {t : DirectiveTable} {s : Source} {seen : List String}
    {ds : List (Located (DirectiveUse (Located Node)))}
    {o : Occurrence} (h : o ∈ (effective t s seen ds).1) : ∃ d ∈ ds, o.use = d.val := by
  induction ds generalizing seen with
  | nil => cases h
  | cons d ds ih =>
    have hrest : ∀ {seen : List String}, o ∈ (effective t s seen ds).1 → ∃ d' ∈ d :: ds,
        o.use = d'.val := by
      intro seen h
      obtain ⟨d', hd', hu⟩ := ih h
      exact ⟨d', List.mem_cons_of_mem d hd', hu⟩
    unfold effective at h
    split at h
    · exact hrest h
    dsimp only at h
    split at h
    · exact hrest h
    · rcases List.mem_cons.mp h with rfl | h
      · exact ⟨d, List.mem_cons_self, rfl⟩
      · exact hrest h

def context (file : InputFile) (options : Options) (t : DirectiveTable) (imports : List Tree)
    (tree : Tree) : Context :=
  ⟨file, options, tree, ((imports ++ [tree]).map (contribution t)).flatMap (·.1)⟩

/-! What each side of a page is, whatever the passes do to the others -/

section
variable (file : InputFile) (options : Options) (t : DirectiveTable) (imports : List Tree)
  (tree : Tree)

theorem namespaceName_build : (build file options t imports tree).namespaceName =
    Pass.namespaceOf (context file options t imports tree) := rfl

theorem uses_build : (build file options t imports tree).uses =
    (((context file options t imports tree).of "use").map fun o =>
      (⟨(o.use.token? .text).getD "", o.location⟩ : Declaration)).filter fun u =>
        Code.isUseTree u.text := by
  simp only [build, stages, List.foldl_cons, List.foldl_nil, Pass.lowerBody, Pass.configureClass,
    Pass.collectFunctions,
    Pass.collectTypeParameters, Pass.settleBase, Pass.collectUses, Pass.report,
      List.partition_eq_filter_filter]
  rfl

theorem base?_build : (build file options t imports tree).definition.base? =
    ((context file options t imports tree).of "inherits").getLast?.bind fun o =>
      (o.use.token? .type).map fun text => ⟨text, o.location⟩ := rfl

theorem typeParameters_build : (build file options t imports tree).definition.typeParameters =
    (Pass.distinctParameters [] ((context file options t imports tree).of "typeparam")).1 := rfl

theorem members_build : (build file options t imports tree).definition.members =
    ((context file options t imports tree).of "functions").filterMap fun o =>
      match o.use.body? with
      | some (.code c) => some (Member.functions ⟨c.val, o.location.source, c.span⟩)
      | _ => none := rfl

theorem name_build : (build file options t imports tree).definition.name = file.className := by
  simp only [build, stages, List.foldl_cons, List.foldl_nil, Pass.lowerBody, Pass.configureClass]

theorem body_build : (build file options t imports tree).definition.body = lower true tree.nodes :=
  rfl

end

end Templating.Page
