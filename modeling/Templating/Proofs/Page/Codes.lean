import Templating.Page.Build
import Templating.Proofs.Markup.Codes

/-! What a page reports, by the codes: those of the reader, and those of
the passes over directives. -/
namespace Templating.Page
open Markup (DirectiveUse Node Tree)

def pageCodes : List String :=
  ["STC1000", "STC1001", "STC1002", "STC1003", "STC1004", "STC1005", "STC1006"]

def Coded (ds : List Diagnostic) : Prop := ∀ d ∈ ds, d.problem.code ∈ pageCodes

section
variable {ds es : List Diagnostic}

theorem Coded.append (h : Coded ds) (h' : Coded es) : Coded (ds ++ es) := by
  intro d hd
  rcases List.mem_append.mp hd with hd | hd
  · exact h d hd
  · exact h' d hd

theorem coded_report {d : Document} (hd : Coded d.diagnostics) {ps : List (Problem × Location)}
    (hps : ∀ p ∈ ps, p.1.code ∈ pageCodes) : Coded (Pass.report d ps).diagnostics := by
  refine hd.append fun e he => ?_
  obtain ⟨p, hp, rfl⟩ := List.mem_map.mp he
  exact hps p hp

end

/-! What files contribute -/

theorem coded_effective (t : DirectiveTable) (s : Source)
    (ds : List (Located (DirectiveUse (Located Node)))) (seen : List String) :
    Coded (effective t s seen ds).2 := by
  induction ds generalizing seen with
  | nil => exact fun _ h => by cases h
  | cons d ds ih =>
    unfold effective
    split
    · exact ih seen
    dsimp only
    split
    · intro e he
      rcases List.mem_cons.mp he with rfl | he
      · show "STC1003" ∈ pageCodes
        decide
      · exact ih seen e he
    · exact ih _

theorem coded_contribution (s : Source) (t t' : DirectiveTable) :
    Coded (contribution t (Tree.parse s t')).2 := by
  refine Coded.append (fun d hd => ?_) (coded_effective t _ _ [])
  obtain ⟨f, hf, rfl⟩ := List.mem_map.mp hd
  exact (by decide : Markup.readerCodes ⊆ pageCodes) (Markup.coded_parse s t' f hf)

/-! Passes -/

theorem coded_distinctParameters (done : List TypeParameter) (os : List Occurrence) :
    ∀ p ∈ (Pass.distinctParameters done os).2, p.1.code ∈ pageCodes := by
  induction os generalizing done with
  | nil => exact fun _ hp => by cases hp
  | cons o os ih =>
    unfold Pass.distinctParameters
    dsimp only
    split
    · intro p hp
      rcases List.mem_cons.mp hp with rfl | hp
      · show "STC1006" ∈ pageCodes
        decide
      · exact ih done p hp
    · exact ih _

section
variable (cx : Context) {d : Document} (hd : Coded d.diagnostics)
include hd

theorem coded_rejectModel : Coded (Pass.rejectModel cx d).diagnostics := by
  refine coded_report hd fun p hp => ?_
  obtain ⟨o, -, rfl⟩ := List.mem_map.mp hp
  show "STC1001" ∈ pageCodes
  decide

theorem coded_rejectTagHelpers : Coded (Pass.rejectTagHelpers cx d).diagnostics := by
  refine coded_report hd fun p hp => ?_
  obtain ⟨o, -, rfl⟩ := List.mem_map.mp hp
  show "STC1002" ∈ pageCodes
  decide

theorem coded_collectUses : Coded (Pass.collectUses cx d).diagnostics := by
  refine coded_report hd fun p hp => ?_
  obtain ⟨u, -, rfl⟩ := List.mem_map.mp hp
  show "STC1004" ∈ pageCodes
  decide

theorem coded_stage {st : Stage} (hst : st ∈ stages) : Coded (st.run cx d).diagnostics := by
  simp only [stages, List.mem_cons, List.not_mem_nil, or_false] at hst
  rcases hst with rfl | rfl | rfl | rfl | rfl | rfl | rfl | rfl | rfl
  · exact coded_rejectModel cx hd
  · exact coded_rejectTagHelpers cx hd
  · simpa only [Pass.settleNamespace] using hd
  · exact coded_collectUses cx hd
  · simpa only [Pass.settleBase] using hd
  · exact coded_report hd (coded_distinctParameters [] _)
  · simpa only [Pass.collectFunctions] using hd
  · simpa only [Pass.configureClass] using hd
  · simpa only [Pass.lowerBody] using hd

end

theorem coded_build (file : InputFile) (options : Options) (t : DirectiveTable)
    {imports : List Tree} {tree : Tree} (h : ∀ f ∈ imports ++ [tree], ∃ s t', f = Tree.parse s t') :
    Coded (build file options t imports tree).diagnostics := by
  have hstart : Coded (((imports ++ [tree]).map (contribution t)).flatMap (·.2)) := by
    intro d hd
    obtain ⟨c, hc, hd⟩ := List.mem_flatMap.mp hd
    obtain ⟨f, hf, rfl⟩ := List.mem_map.mp hc
    obtain ⟨s, t', rfl⟩ := h f hf
    exact coded_contribution s t t' d hd
  have hfold : ∀ (cx : Context) (sts : List Stage) (d : Document), (∀ st ∈ sts, st ∈ stages) →
    Coded d.diagnostics →
      Coded (sts.foldl (fun d st => st.run cx d) d).diagnostics := by
    intro cx sts d hsts hd
    induction sts generalizing d with
    | nil => exact hd
    | cons st sts ih =>
      exact ih _ (fun st' hst' => hsts st' (List.mem_cons_of_mem st hst'))
        (coded_stage cx hd (hsts st List.mem_cons_self))
  exact hfold _ stages _ (fun _ hst => hst) hstart

end Templating.Page
