import Templating.Proofs.Code.Name
import Templating.Proofs.Compiler.Balance
import Templating.Proofs.Page.Returns

/-! Carriage returns of a template whose lines end with a line feed, be there a return before it or
not. They stay out of its unit, unless code that is pasted into a line goes over a line end. -/
namespace Templating
open Page (Snippet bodySnippets)
open Text (paired)

/-- The texts of a request have carriage returns at the ends of lines only. -/
structure Request.Paired (r : Request) : Prop where
  text : paired r.text.toList = true
  imports : ∀ i ∈ r.imports, paired i.text.toList = true

instance (r : Request) : Decidable r.Paired :=
  decidable_of_iff (paired r.text.toList = true ∧ ∀ i ∈ r.imports, paired i.text.toList = true)
    ⟨fun ⟨htext, himports⟩ => ⟨htext, himports⟩, fun h => ⟨h.text, h.imports⟩⟩

section
variable {r : Request} {o : Options}

theorem Request.Paired.allLined (h : r.Paired) :
    ∀ s ∈ (r.imports.map fun i => Markup.Tree.parse ⟨i.path, i.text⟩ .standard) ++
      [Markup.Tree.parse ⟨r.file.path, r.text⟩ .standard], Markup.AllLined s.nodes := by
  intro s hs
  rcases List.mem_append.mp hs with hs | hs
  · obtain ⟨i, hi, rfl⟩ := List.mem_map.mp hs
    exact Markup.allLined_parse (h.imports i hi) _
  · obtain rfl := List.mem_singleton.mp hs
    exact Markup.allLined_parse h.text _

theorem Request.namesPlain (r : Request) (o : Options) : Unit.NamesPlain (r.page o) where
  segments := by
    have hwordy : ∀ s ∈ (r.page o).segments, Code.Wordy s.toList := by
      refine Page.Document.wordy_segments ?_
      rw [Request.page, Page.namespaceName_build]
      exact Page.dotted_namespaceOf _
    exact fun s hs hreturn => (hwordy s hs).ne hreturn (by decide) rfl
  name := by
    rw [Request.page, Page.name_build]
    exact fun hreturn => (Page.wordy_sanitize r.file.stem).ne hreturn (by decide) rfl
  parameters := by
    have hwordy : ∀ p ∈ (r.page o).definition.typeParameters, Code.Wordy p.name.toList := by
      rw [Request.page, Page.typeParameters_build]
      exact Page.wordy_distinctParameters (fun _ hp => by cases hp) fun o ho =>
        Page.useScanned_of r.nodesScanned ho
    exact fun p hp hreturn => (hwordy p hp).ne hreturn (by decide) rfl

theorem Request.Paired.body_returns (h : r.Paired) :
    (∃ x ∈ bodySnippets (r.page o).definition.body, Unit.SnippetReturns x) ↔
      ∃ code, .inline code ∈ bodySnippets (r.page o).definition.body ∧ '\r' ∈ code.toList := by
  constructor
  case mp =>
    rintro ⟨x, hx, hreturns⟩
    cases x with
    | inline code => exact ⟨code, hx, hreturns⟩
    | block code =>
      have hlined : Page.BlocksLined (bodySnippets (r.page o).definition.body) := by
        rw [Request.page, Page.body_build]
        exact Page.blocksLined_lower true _
          (h.allLined _ (List.mem_append_right _ List.mem_cons_self))
      exact absurd hreturns (Unit.not_returns_codeLines (hlined code hx))
  case mpr =>
    rintro ⟨code, hcode, hreturn⟩
    exact ⟨.inline code, hcode, hreturn⟩

end

/-- Line ends are those of the unit, whatever those of the template are: where the texts of a
request have carriage returns at the ends of lines only, its unit has one if and only if the path of
the template has, or code that is pasted into a line (an expression, the head of a branch, a pattern
or what is matched), or a member that comes from the base. Those in the text, in code blocks, in
functions and in directives do not get into the unit. -/
theorem generate_returns {o : Options} {resolve : Base.Resolver} {r : Request} {unit : CompiledUnit}
    {ds : List Diagnostic} (h : generate o resolve r = .ok (unit, ds)) (hpaired : r.Paired) :
    ∃ ms, Base.forward (r.page o) resolve = .ok ms ∧
      ('\r' ∈ unit.text.toList ↔ '\r' ∈ r.file.path.toList ∨
        (∃ code, .inline code ∈ bodySnippets (r.page o).definition.body ∧ '\r' ∈ code.toList) ∨
          ∃ m ∈ ms, Unit.MemberReturns m) := by
  obtain ⟨ms, hms, htext⟩ := text_of_generate h
  have huses : ¬ ∃ u ∈ (r.page o).uses, '\r' ∈ u.text.toList :=
    fun ⟨u, hu, hreturn⟩ => Page.return_not_mem_uses hpaired.allLined u hu hreturn
  have hbase : '\r' ∉ (r.page o).definition.baseType.toList :=
    Page.return_not_mem_base hpaired.allLined
  have hconstraints : ¬ Unit.ConstraintReturns (r.page o).definition :=
    Page.not_returns_constraints hpaired.allLined
  have hmembers : ¬ ∃ m ∈ (r.page o).definition.members, Unit.MemberReturns m :=
    Page.not_returns_members hpaired.allLined
  refine ⟨ms, hms, ?_⟩
  rw [htext, Unit.return_mem_emit (r.namesPlain o), Unit.ClassReturns, hpaired.body_returns,
    or_iff_right huses,
    or_iff_right hbase, or_iff_right hconstraints, or_iff_right hmembers, or_assoc]
  rfl

/-- Lines that end with a carriage return and a line feed: of directives, functions, a code block,
text and a branch. -/
def memo : Request where
  file := .ofPath "memo.stencil"
  text :=
    "@use a::b;\r\n@typeparam T where T: A\r\n@functions \x7b\r\n  fn f() \x7b\x7d\r\n\x7d\r\n" ++
    "@\x7b x;\r\n y;\r\n\x7d\r\n<p>\r\n@if z \x7b\r\n@z\r\n\x7d\r\n"

def torn : Request := { memo with text := memo.text ++ "@(a +\r\n b)" }

theorem generate_returns_memo :
    (memo.Paired ∧ ∃ unit, generate {} (Base.ambient {}) memo = .ok (unit, []) ∧
      '\r' ∉ unit.text.toList) ∧
      torn.Paired ∧ ∃ unit, generate {} (Base.ambient {}) torn = .ok (unit, []) ∧
        '\r' ∈ unit.text.toList := by
  have hunit : ∀ r : Request, (Base.forward (r.page {}) (Base.ambient {})).toOption = some [] →
      (r.page {}).diagnostics.isEmpty = true →
        ∃ unit, generate {} (Base.ambient {}) r = .ok (unit, []) := by
    intro r hms hsilent
    have hgenerate := generate_eq {} (Base.ambient {}) r
    rw [Base.ok_of_toOption hms, List.isEmpty_iff.mp hsilent] at hgenerate
    exact ⟨_, hgenerate⟩
  have hnone : ∀ {r : Request} {ms : List Page.Member},
    (Base.forward (r.page {}) (Base.ambient {})).toOption = some [] →
      Base.forward (r.page {}) (Base.ambient {}) = .ok ms → ¬ ∃ m ∈ ms, Unit.MemberReturns m := by
    rintro r ms hempty hms ⟨m, hm, -⟩
    rw [hms] at hempty
    obtain rfl := Option.some.inj hempty
    cases hm
  obtain ⟨hmemo, hmemoBase, hmemoSilent, hbody⟩ : memo.Paired ∧
      (Base.forward (memo.page {}) (Base.ambient {})).toOption = some [] ∧
        (memo.page {}).diagnostics.isEmpty = true ∧
        bodySnippets (memo.page {}).definition.body =
          [.block " x;\r\n y;\r\n", .inline "if z", .inline "z"] := by
    decide +kernel
  obtain ⟨htorn, htornBase, htornSilent, hcode⟩ : torn.Paired ∧
      (Base.forward (torn.page {}) (Base.ambient {})).toOption = some [] ∧
        (torn.page {}).diagnostics.isEmpty = true ∧
        .inline "a +\r\n b" ∈ bodySnippets (torn.page {}).definition.body := by
    decide +kernel
  obtain ⟨unit, hgenerate⟩ := hunit memo hmemoBase hmemoSilent
  obtain ⟨unit', hgenerate'⟩ := hunit torn htornBase htornSilent
  refine ⟨⟨hmemo, unit, hgenerate, fun hreturn => ?_⟩, htorn, unit', hgenerate', ?_⟩
  · obtain ⟨ms, hms, hiff⟩ := generate_returns hgenerate hmemo
    rcases hiff.mp hreturn with hpath | ⟨code, hcode, hreturn⟩ | hmember
    · exact absurd hpath (by decide +kernel)
    · rw [hbody] at hcode
      obtain rfl | rfl : code = "if z" ∨ code = "z" := by simpa using hcode
      · exact absurd hreturn (by decide)
      · exact absurd hreturn (by decide)
    · exact hnone hmemoBase hms hmember
  · obtain ⟨ms, -, hiff⟩ := generate_returns hgenerate' htorn
    exact hiff.mpr (.inr (.inl ⟨_, hcode, by decide⟩))

end Templating
