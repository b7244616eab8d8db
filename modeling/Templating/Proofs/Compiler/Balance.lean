import Templating.Compiler
import Templating.Proofs.Base.Applicability
import Templating.Proofs.Page.Containment

/-! Embedded code cannot break the structure of a unit: as long as nothing that is pasted runs out
of its place, the unit closes what it opens, and nothing else. -/
namespace Templating
open Code (Balanced)

theorem Base.mem_forward {d : Page.Document} {resolve : Base.Resolver} {ms : List Page.Member}
    (h : Base.forward d resolve = .ok ms) {m : Page.Member} (hm : m ∈ ms) :
    ∃ base c, d.definition.base? = some base ∧ m = .constructor c ∧ c.base = base.text := by
  obtain ⟨base, -, -, as, c, hbase, -, -, -, -, -, hc⟩ := Base.exists_of_mem_forward h hm
  obtain ⟨-, -, hc⟩ := Option.bind_eq_some_iff.mp hc
  obtain ⟨σ, -, hc⟩ := Option.bind_eq_some_iff.mp hc
  obtain rfl := Option.some.inj hc
  exact ⟨base, _, hbase, rfl, rfl⟩

theorem Page.Document.Closed.balanced_base {d : Page.Document} (h : d.Closed) {b : Page.Declaration}
    (hb : d.definition.base? = some b) : Balanced b.text.toList := by
  have hbase := h.definition.base
  rwa [Page.Definition.baseType, hb] at hbase

def Request.page (r : Request) (o : Options) : Page.Document :=
  Page.build r.file o .standard (r.imports.map fun i =>
    Markup.Tree.parse ⟨i.path, i.text⟩ .standard)
    (Markup.Tree.parse ⟨r.file.path, r.text⟩ .standard)

theorem generate_eq (o : Options) (resolve : Base.Resolver) (r : Request) :
    generate o resolve r = (Base.forward (r.page o) resolve).map fun extra =>
      (⟨(r.page o).unitName, Unit.emit (r.page o) extra⟩, (r.page o).diagnostics) := by
  show (Base.forward (r.page o) resolve >>= fun extra => _) = _
  cases Base.forward (r.page o) resolve <;> rfl

theorem exists_of_generate {o : Options} {resolve : Base.Resolver} {r : Request}
    {unit : CompiledUnit} {ds : List Diagnostic}
    (h : generate o resolve r = .ok (unit, ds)) : ∃ ms, Base.forward (r.page o) resolve = .ok ms ∧
      unit = ⟨(r.page o).unitName, Unit.emit (r.page o) ms⟩ ∧ ds = (r.page o).diagnostics := by
  rw [generate_eq] at h
  generalize r.page o = d at h ⊢
  cases hms : Base.forward d resolve with
  | error e =>
    rw [hms] at h
    cases h
  | ok ms =>
    rw [hms] at h
    obtain ⟨hunit, hds⟩ := Prod.mk.inj (Except.ok.inj h)
    exact ⟨ms, rfl, hunit.symm, hds.symm⟩

theorem text_of_generate {o : Options} {resolve : Base.Resolver} {r : Request} {unit : CompiledUnit}
    {ds : List Diagnostic} (h : generate o resolve r = .ok (unit, ds)) :
    ∃ ms, Base.forward (r.page o) resolve = .ok ms ∧ unit.text = Unit.emit (r.page o) ms := by
  obtain ⟨ms, hms, hunit, -⟩ := exists_of_generate h
  exact ⟨ms, hms, by rw [hunit]⟩

theorem Request.nodesScanned (r : Request) :
    ∀ s ∈ (r.imports.map fun i => Markup.Tree.parse ⟨i.path, i.text⟩ .standard) ++
      [Markup.Tree.parse ⟨r.file.path, r.text⟩ .standard], Markup.NodesScanned s.nodes := by
  intro s hs
  rcases List.mem_append.mp hs with hs | hs
  · obtain ⟨i, -, rfl⟩ := List.mem_map.mp hs
    exact Markup.nodesScanned_parse _ _
  · obtain rfl := List.mem_singleton.mp hs
    exact Markup.nodesScanned_parse _ _

theorem Request.closed_page {r : Request} {o : Options} (h : (r.page o).Contained) :
    (r.page o).Closed :=
  Page.closed_build r.nodesScanned h

theorem Page.Document.Closed.balanced_forward {d : Page.Document} (hd : d.Closed)
    {resolve : Base.Resolver}
    {ms : List Page.Member} (h : Base.forward d resolve = .ok ms) (hms : ∀ m ∈ ms, m.Contained) :
    Balanced (Unit.emit d ms).toList := by
  refine Unit.balanced_emit hd fun m hm => ?_
  obtain ⟨base, c, hbase, rfl, hc⟩ := Base.mem_forward h hm
  refine ⟨hms _ hm, ?_⟩
  rw [hc]
  exact hd.balanced_base hbase

/-- The unit of a request closes what it opens, and nothing else, if nothing that is pasted into it
runs out of its place: a scan of all of it finds no delimiter wrong, and ends in
code with none open. -/
theorem generate_balanced {o : Options} {resolve : Base.Resolver} {r : Request}
    {unit : CompiledUnit} {ds : List Diagnostic}
    (h : generate o resolve r = .ok (unit, ds)) (hpage : (r.page o).Contained)
    (hextra : ∀ ms, Base.forward (r.page o) resolve = .ok ms → ∀ m ∈ ms, m.Contained) :
    Balanced unit.text.toList ∧
      Code.scan (.closer ')') none unit.text.toList =
        .error (unit.text.toList, .unexpectedEnd (.closer ')')) := by
  obtain ⟨ms, hms, htext⟩ := text_of_generate h
  have hunit : Balanced unit.text.toList := by
    rw [htext]
    exact (Request.closed_page hpage).balanced_forward hms (hextra ms hms)
  exact ⟨hunit, Code.scan_of_balanced hunit⟩

/-- Delimiters in literals, a comment at the end of a block, and a base with a constructor. -/
def panel : Request where
  file := .ofPath "panel.stencil"
  text :=
    "@inherits HtmlTemplate<u8>\n@typeparam T where T: A\n<p a=\"@(x)\">" ++
    "@if y == '\x7d' \x7b @y[0] \x7d @\x7b z; // w\n\x7d@(\")\")"

theorem generate_balanced_panel :
    (panel.page {}).Contained ∧ ∃ unit, generate {} (Base.ambient {}) panel = .ok (unit, []) ∧
      Balanced unit.text.toList ∧
        Code.scan (.closer ')') none unit.text.toList =
          .error (unit.text.toList, .unexpectedEnd (.closer ')')) := by
  have hpage : (panel.page {}).Contained := by decide +kernel
  have hsilent : (panel.page {}).diagnostics.isEmpty = true := by decide +kernel
  have hextra : (Base.forward (panel.page {}) (Base.ambient {})).toOption.any
      (fun ms => decide (∀ m ∈ ms, m.Contained)) = true := by decide +kernel
  refine ⟨hpage, ?_⟩
  cases hms : Base.forward (panel.page {}) (Base.ambient {}) with
  | error e =>
    rw [hms] at hextra
    cases hextra
  | ok ms =>
    rw [hms] at hextra
    have hunit := generate_eq {} (Base.ambient {}) panel
    rw [hms, List.isEmpty_iff.mp hsilent] at hunit
    refine ⟨_, hunit, generate_balanced hunit hpage fun ms' hms' => ?_⟩
    obtain rfl := Except.ok.inj (hms.symm.trans hms')
    exact of_decide_eq_true hextra

/-- A comment at the end of an expression takes the delimiter behind it. -/
example : ¬ (Page.Snippet.inline "x // c").Contained ∧
    ¬ Balanced "let __value = (x // c);\n".toList := by
  decide

end Templating
