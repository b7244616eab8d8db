import Templating.Proofs.Compiler.Balance
import Templating.Proofs.Page.Names
import Templating.Proofs.Unit.Written

/-! The names in the unit of a request. The class is named by the path and the modules by the
namespace, and neither needs more than letters and digits that code takes for such. Type parameters
have the names that were given to them. -/
namespace Templating

def Request.context (r : Request) (o : Options) : Page.Context :=
  Page.context r.file o .standard (r.imports.map fun i =>
    Markup.Tree.parse ⟨i.path, i.text⟩ .standard)
    (Markup.Tree.parse ⟨r.file.path, r.text⟩ .standard)

/-- All names of a unit are names of code. -/
structure Page.Document.Named (d : Page.Document) : Prop where
  className : Code.isName d.definition.name = true
  modules : ∀ s ∈ d.segments, Code.isName s = true
  parameters : ∀ p ∈ d.definition.typeParameters, Code.isName p.name = true

/-- What names a unit can be written, and its type parameters are words that are not reserved. -/
structure Request.Nameable (r : Request) (o : Options) : Prop where
  file : Naming.Writable r.file.stem
  parts : ∀ s ∈ (r.context o).namespaceParts, Naming.Writable s
  parameters : ∀ p ∈ (r.page o).definition.typeParameters,
    Code.Worded p.name.toList ∧ Code.Reader.isName p.name = true

theorem Request.isName_parameter {r : Request} {o : Options} {p : Page.TypeParameter}
    (hp : p ∈ (r.page o).definition.typeParameters) :
    Code.isName p.name = true ↔ Code.Worded p.name.toList ∧ Code.Reader.isName p.name = true := by
  have hwordy : Code.Wordy p.name.toList := by
    rw [Request.page, Page.typeParameters_build] at hp
    exact Page.wordy_distinctParameters (fun _ hq => by cases hq) (fun o ho =>
      Page.useScanned_of r.nodesScanned ho) p hp
  have hname := Code.isName_iff hwordy
  rwa [String.ofList_toList] at hname

theorem Request.named_iff (r : Request) (o : Options) : (r.page o).Named ↔ r.Nameable o := by
  have hclass : (r.page o).definition.name = Naming.sanitize r.file.stem := Page.name_build ..
  have hsegments : (r.page o).segments = if (r.context o).namespaceParts = [] then
    [Page.defaultNamespace]
    else (r.context o).namespaceParts.map Naming.sanitize := Page.segments_build ..
  have hmodules : (∀ s ∈ (r.page o).segments, Code.isName s = true) ↔
      ∀ s ∈ (r.context o).namespaceParts, Naming.Writable s := by
    rw [hsegments]
    split
    next hnone =>
      have hdefault : Code.isName Page.defaultNamespace = true := by decide
      simp [hnone, hdefault]
    · simp [Naming.isName_sanitize]
  constructor
  · intro h
    refine ⟨?_, hmodules.mp h.modules, fun p hp => (isName_parameter hp).mp (h.parameters p hp)⟩
    rw [← Naming.isName_sanitize, ← hclass]
    exact h.className
  · intro h
    refine ⟨?_, hmodules.mpr h.parts, fun p hp => (isName_parameter hp).mpr (h.parameters p hp)⟩
    rw [hclass, Naming.isName_sanitize]
    exact h.file

theorem exists_written_of_generate {o : Options} {resolve : Base.Resolver} {r : Request}
    {unit : CompiledUnit} {ds : List Diagnostic} (h : generate o resolve r = .ok (unit, ds)) :
    ∃ ms default ls, Base.forward (r.page o) resolve = .ok ms ∧
      Unit.Written (r.page o) ms default ls ∧ unit.text.toList = ls.written := by
  obtain ⟨ms, hms, htext⟩ := text_of_generate h
  obtain ⟨ls, hwritten, hlines⟩ := Unit.exists_written (r.page o) ms
  exact ⟨ms, _, ls, hms, hwritten, by rw [htext, hlines]⟩

/-- What is made of a text is a name exactly if the text can be written, as ASCII text can. So the
class, the modules and the type parameters of a unit, which stand in it under these names, have
names of code exactly if what they are named after can be written and no type parameter is a
reserved word. -/
theorem generate_names {o : Options} {resolve : Base.Resolver} {r : Request} {unit : CompiledUnit}
    {ds : List Diagnostic} (h : generate o resolve r = .ok (unit, ds)) :
    (∀ s, (Code.isName (Naming.sanitize s) = true ↔ Naming.Writable s) ∧
      ((∀ c ∈ s.toList, c.toNat < 0x80) → Code.isName (Naming.sanitize s) = true)) ∧
      (∃ ms default ls, Unit.Written (r.page o) ms default ls ∧ unit.text.toList = ls.written ∧
        .text (r.page o).segments.length ((r.page o).definition.head ++ " \x7b") ∈ ls ∧
        ∀ i s, (r.page o).segments[i]? = some s → .text i (s!"pub mod {s}" ++ " \x7b") ∈ ls) ∧
      ((r.page o).Named ↔ r.Nameable o) := by
  obtain ⟨ms, default, ls, -, hwritten, htext⟩ := exists_written_of_generate h
  refine ⟨fun s => ⟨Naming.isName_sanitize s, fun hs => ?_⟩,
    ⟨ms, default, ls, hwritten, htext, hwritten.mem_head, fun i s => hwritten.mem_module⟩,
    r.named_iff o⟩
  exact (Naming.isName_sanitize s).mpr (Naming.writable_of_ascii hs)

def badge : Request where
  file := .ofPath "x².stencil"
  text := "@namespace app.views\n@typeparam Self\nhi"

theorem generate_names_badge : ∃ unit, generate {} (Base.ambient {}) badge = .ok (unit, []) ∧
    Code.isName (Naming.sanitize "views") = true ∧
      Code.isName (Naming.sanitize badge.file.stem) = false ∧
      (∃ p ∈ (badge.page {}).definition.typeParameters, Code.isName p.name = false) ∧
        ¬ (badge.page {}).Named := by
  have hsilent : (badge.page {}).diagnostics.isEmpty = true := by decide +kernel
  have hbase : (badge.page {}).definition.base?.isNone = true := by decide +kernel
  have hunit := generate_eq {} (Base.ambient {}) badge
  rw [Base.forward, Option.isNone_iff_eq_none.mp hbase, List.isEmpty_iff.mp hsilent] at hunit
  obtain ⟨hnames, -, hnamed⟩ := generate_names hunit
  have hstem : badge.file.stem = "x²" := by decide +kernel
  have hdigit : Text.continuesName '²' = true := by
    have hnumeric : Text.Letter.numeric.holds '²' = true := by decide +kernel
    rw [Text.continuesName, Text.isAlphanumeric, Text.isNumeric, hnumeric]
    simp
  have hword : Code.Lexeme.continuesWord '²' = false := by
    have hlater : Text.Word.later.holds '²' = false := Code.not_holds_of_beside (by decide +kernel)
    rw [Code.Lexeme.continuesWord, hlater]
    decide
  have hfile : ¬ Naming.Writable badge.file.stem := by
    rw [hstem]
    intro h
    rw [h.2 '²' (by decide) hdigit] at hword
    cases hword
  have hself : ∃ p ∈ (badge.page {}).definition.typeParameters, Code.isName p.name = false := by
    have hfirst : (badge.page {}).definition.typeParameters.any (fun p => !Code.isName p.name) =
        true := by decide +kernel
    obtain ⟨p, hp, hname⟩ := List.any_eq_true.mp hfirst
    exact ⟨p, hp, by simpa using hname⟩
  refine ⟨_, hunit, (hnames "views").2 (by decide), Bool.eq_false_iff.mpr fun hname =>
    hfile ((hnames _).1.mp hname), hself, ?_⟩
  exact fun h => hfile (hnamed.mp h).file

end Templating
