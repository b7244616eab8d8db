import Templating.Page.Build
import Templating.Proofs.Markup.Located
import Templating.Proofs.Text.Listing

/-! What a page reports is placed: faults where the reader found them, and what passes report at the
directives that they read. -/
namespace Templating
open Markup (DirectiveUse Node Overruns Spans FaultPlaced Tree)
open Text.Cursor (size_eq)

/-- The diagnostic has a sound location, or it is about a match arm whose
missing body overruns it. -/
def Diagnostic.Placed (d : Diagnostic) : Prop :=
  (∃ l, d.location? = some l ∧ l.Sound) ∨ ∃ s f, Overruns s.text.toList f ∧ d = f.inSource s

def AllPlaced (ds : List Diagnostic) : Prop := ∀ d ∈ ds, d.Placed

section
variable {ds es : List Diagnostic}

theorem AllPlaced.append (h : AllPlaced ds) (h' : AllPlaced es) : AllPlaced (ds ++ es) := by
  intro d hd
  rcases List.mem_append.mp hd with hd | hd
  · exact h d hd
  · exact h' d hd

theorem allPlaced_nil : AllPlaced [] := fun _ h => by cases h

end

theorem sound_of_spans {s : Source} {span : Span} (h : Spans s.text.toList span) :
    Location.Sound ⟨s, span⟩ := by
  obtain ⟨a, b, ha, hab, rfl⟩ := h
  have hb : b.text = s.text.toList := hab.text_eq.trans ha
  have hstart := a.cuts_offset
  have hstop := b.cuts_offset
  rw [ha] at hstart
  rw [hb] at hstop
  exact ⟨hab.offset_le, by rw [Source.size_eq]; exact hstop.le, hstart, hstop⟩

theorem placed_inSource {s : Source} {f : Fault} (h : FaultPlaced s.text.toList f) :
    (f.inSource s).Placed := by
  rcases h with h | h
  · exact .inl ⟨_, rfl, sound_of_spans h⟩
  · exact .inr ⟨s, f, h, rfl⟩

namespace Page

/-! What files contribute -/

theorem placed_effective (t : DirectiveTable) {s : Source}
    {ds : List (Located (DirectiveUse (Located Node)))}
    (h : ∀ d ∈ ds, Spans s.text.toList d.span) (seen : List String) :
    (∀ o ∈ (effective t s seen ds).1, o.location.Sound) ∧ AllPlaced (effective t s seen ds).2 := by
  induction ds generalizing seen with
  | nil => exact ⟨fun _ h => (by cases h), allPlaced_nil⟩
  | cons d ds ih =>
    have hhere : Location.Sound ⟨s, d.span⟩ := sound_of_spans (h d List.mem_cons_self)
    have hrest := fun seen => ih (fun d' hd' => h d' (List.mem_cons_of_mem d hd')) seen
    unfold effective
    split
    · exact hrest seen
    dsimp only
    split
    · refine ⟨(hrest seen).1, fun e he => ?_⟩
      rcases List.mem_cons.mp he with rfl | he
      · exact .inl ⟨_, rfl, hhere⟩
      · exact (hrest seen).2 e he
    · refine ⟨fun o ho => ?_, (hrest _).2⟩
      rcases List.mem_cons.mp ho with rfl | ho
      · exact hhere
      · exact (hrest _).1 o ho

theorem placed_contribution (s : Source) (t t' : DirectiveTable) :
    (∀ o ∈ (contribution t (Tree.parse s t')).1, o.location.Sound) ∧
      AllPlaced (contribution t (Tree.parse s t')).2 := by
  obtain ⟨hoccurrences, hrepeated⟩ := placed_effective t (Markup.spans_directives s t') []
  refine ⟨hoccurrences, AllPlaced.append (fun d hd => ?_) hrepeated⟩
  obtain ⟨f, hf, rfl⟩ := List.mem_map.mp hd
  exact placed_inSource (Markup.faultsPlaced_parse s t' f hf)

/-! Passes -/

section
variable {cx : Context} (h : ∀ o ∈ cx.occurrences, o.location.Sound)
include h

theorem sound_of (keyword : String) : ∀ o ∈ cx.of keyword, o.location.Sound :=
  fun o ho => h o (List.mem_of_mem_filter ho)

omit h in
theorem placed_report {d : Document} (hd : AllPlaced d.diagnostics) {ps : List (Problem × Location)}
    (hps : ∀ p ∈ ps, p.2.Sound) : AllPlaced (Pass.report d ps).diagnostics := by
  refine hd.append fun e he => ?_
  obtain ⟨p, hp, rfl⟩ := List.mem_map.mp he
  exact .inl ⟨p.2, rfl, hps p hp⟩

omit h in
theorem sound_distinctParameters {done : List TypeParameter} {os : List Occurrence}
    (hos : ∀ o ∈ os, o.location.Sound) :
    ∀ p ∈ (Pass.distinctParameters done os).2, p.2.Sound := by
  induction os generalizing done with
  | nil => exact fun _ hp => by cases hp
  | cons o os ih =>
    have hrest : ∀ done, ∀ p ∈ (Pass.distinctParameters done os).2, p.2.Sound :=
      fun done => ih fun o' ho' => hos o' (List.mem_cons_of_mem o ho')
    unfold Pass.distinctParameters
    dsimp only
    split
    · intro p hp
      rcases List.mem_cons.mp hp with rfl | hp
      · exact hos o List.mem_cons_self
      · exact hrest done p hp
    · exact hrest _

theorem placed_rejectModel {d : Document} (hd : AllPlaced d.diagnostics) :
    AllPlaced (Pass.rejectModel cx d).diagnostics := by
  refine placed_report hd fun p hp => ?_
  obtain ⟨o, ho, rfl⟩ := List.mem_map.mp hp
  exact sound_of h "model" o ho

theorem placed_rejectTagHelpers {d : Document} (hd : AllPlaced d.diagnostics) :
    AllPlaced (Pass.rejectTagHelpers cx d).diagnostics := by
  refine placed_report hd fun p hp => ?_
  obtain ⟨o, ho, rfl⟩ := List.mem_map.mp hp
  exact h o (List.mem_of_mem_filter ho)

theorem placed_collectUses {d : Document} (hd : AllPlaced d.diagnostics) :
    AllPlaced (Pass.collectUses cx d).diagnostics := by
  unfold Pass.collectUses
  simp only [List.partition_eq_filter_filter]
  refine placed_report hd fun p hp => ?_
  obtain ⟨u, hu, rfl⟩ := List.mem_map.mp hp
  obtain ⟨o, ho, rfl⟩ := List.mem_map.mp (List.mem_of_mem_filter hu)
  exact sound_of h "use" o ho

theorem placed_collectTypeParameters {d : Document} (hd : AllPlaced d.diagnostics) :
    AllPlaced (Pass.collectTypeParameters cx d).diagnostics :=
  placed_report hd (sound_distinctParameters (sound_of h "typeparam"))

theorem placed_stage {st : Stage} (hst : st ∈ stages) {d : Document}
    (hd : AllPlaced d.diagnostics) :
    AllPlaced (st.run cx d).diagnostics := by
  simp only [stages, List.mem_cons, List.not_mem_nil, or_false] at hst
  rcases hst with rfl | rfl | rfl | rfl | rfl | rfl | rfl | rfl | rfl
  · exact placed_rejectModel h hd
  · exact placed_rejectTagHelpers h hd
  · simpa only [Pass.settleNamespace] using hd
  · exact placed_collectUses h hd
  · simpa only [Pass.settleBase] using hd
  · exact placed_collectTypeParameters h hd
  · simpa only [Pass.collectFunctions] using hd
  · simpa only [Pass.configureClass] using hd
  · simpa only [Pass.lowerBody] using hd

end

theorem placed_build (file : InputFile) (options : Options) (t : DirectiveTable)
    {imports : List Tree} {tree : Tree} (h : ∀ f ∈ imports ++ [tree], ∃ s t', f = Tree.parse s t') :
    AllPlaced (build file options t imports tree).diagnostics := by
  have hcontributed : ∀ f ∈ imports ++ [tree],
      (∀ o ∈ (contribution t f).1, o.location.Sound) ∧ AllPlaced (contribution t f).2 :=
        fun f hf => by
    obtain ⟨s, t', rfl⟩ := h f hf
    exact placed_contribution s t t'
  have hoccurrences : ∀ o ∈ ((imports ++ [tree]).map (contribution t)).flatMap (·.1),
      o.location.Sound := by
    intro o ho
    obtain ⟨c, hc, ho⟩ := List.mem_flatMap.mp ho
    obtain ⟨f, hf, rfl⟩ := List.mem_map.mp hc
    exact (hcontributed f hf).1 o ho
  have hstart : AllPlaced (((imports ++ [tree]).map (contribution t)).flatMap (·.2)) := by
    intro d hd
    obtain ⟨c, hc, hd⟩ := List.mem_flatMap.mp hd
    obtain ⟨f, hf, rfl⟩ := List.mem_map.mp hc
    exact (hcontributed f hf).2 d hd
  have hfold : ∀ (cx : Context) (sts : List Stage) (d : Document),
    (∀ o ∈ cx.occurrences, o.location.Sound) →
      (∀ st ∈ sts, st ∈ stages) → AllPlaced d.diagnostics →
      AllPlaced (sts.foldl (fun d st => st.run cx d) d).diagnostics := by
    intro cx sts d hcx hsts hd
    induction sts generalizing d with
    | nil => exact hd
    | cons st sts ih =>
      exact ih _ (fun st' hst' => hsts st' (List.mem_cons_of_mem st hst'))
        (placed_stage hcx (hsts st List.mem_cons_self) hd)
  exact hfold _ stages _ hoccurrences (fun _ hst => hst) hstart

end Page

end Templating
