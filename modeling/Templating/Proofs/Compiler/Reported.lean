import Templating.Proofs.Compiler.Cache
import Templating.Proofs.Compiler.Namespace
import Templating.Proofs.Page.Reported

/-! What a compiler reports of a request: the unit, and with it all that the page reports. -/
namespace Templating
open Base (Crash Resolver)
open Markup (Holds)
open Page (Member reports)

/-- Whatever base type is asked for, there is an answer, be it that there is none. -/
def Base.Resolver.Answers (resolve : Resolver) : Prop := ∀ name, ∃ t?, resolve name = .ok t?

theorem Base.ambient_answers (o : Options) : (ambient o).Answers := fun _ => ⟨_, rfl⟩

theorem Base.forward_answers {resolve : Resolver} (h : resolve.Answers) (d : Page.Document) :
    ∃ ms, forward d resolve = .ok ms := by
  unfold forward
  split
  · exact ⟨_, rfl⟩
  split
  · exact ⟨_, rfl⟩
  split
  · exact ⟨_, rfl⟩
  next p _ _ =>
    obtain ⟨t?, ht⟩ := h p.name
    rw [ht]
    cases t? with
    | none => exact ⟨_, rfl⟩
    | some t =>
      simp only [bind, Except.bind]
      split <;> exact ⟨_, rfl⟩

namespace Compiler

theorem compute_answers {c : Compiler} (h : c.resolver.Answers) (r : Request) :
    ∃ ms, (c.compute r).unit? =
      some ⟨(r.page c.options).unitName, Unit.emit (r.page c.options) ms⟩ ∧
      (c.compute r).diagnostics = (r.page c.options).diagnostics := by
  obtain ⟨ms, hms⟩ := Base.forward_answers h (r.page c.options)
  have hgenerate := generate_eq c.options c.resolver r
  rw [hms] at hgenerate
  refine ⟨ms, ?_, ?_⟩ <;>
  · unfold compute
    rw [hgenerate]
    rfl

end Compiler

theorem Session.answers_after {s : Session} (h : s.resolver.Answers) (calls : List Call) :
    (s.after calls).resolver.Answers := by
  induction calls generalizing s with
  | nil => exact h
  | cons call calls ih =>
    refine ih ?_
    cases call with
    | compile rs =>
      simp only [Session.next]
      split <;> exact h
    | compileFile r => exact h
    | setOptions o =>
      simp only [Session.next]
      split
      · exact h
      · exact Base.ambient_answers o

/-- Nothing is lost and nothing told twice, for any trees: what a page reports is what is recorded
on the trees and on their directives, at any depth, and what is told of the directives that take
effect. And whatever a compiler was asked for before, as long as base types can be looked for, a
request has its unit and all these reports. -/
theorem diagnostics_complete :
    (∀ ns d, d ∈ Page.nodeUses ns ↔ ∃ m, Holds ns m ∧ m.val = .directive d) ∧
      (∀ file options t imports tree,
        (Page.build file options t imports tree).diagnostics.Perm (reports t (imports ++ [tree]))) ∧
      ∀ o (resolve : Resolver), resolve.Answers → ∀ calls r,
        let out := (((Compiler.withResolver o resolve).after calls).compileFile r).1
        (∃ unit, out.unit? = some unit) ∧ out.diagnostics.Perm (reports .standard r.trees) := by
  refine ⟨fun ns d => Page.mem_nodeUses ns, Page.reports_build,
    fun o resolve hanswers calls r => ?_⟩
  intro out
  have hin : Compiler.In (Session.after ⟨o, resolve, []⟩ calls)
      ((Compiler.withResolver o resolve).after calls) :=
    (Compiler.In.start ⟨o, resolve, []⟩ rfl).after calls
  obtain ⟨ms, hunit, hdiagnostics⟩ :=
    Compiler.compute_answers (c := (Session.after ⟨o, resolve, []⟩ calls).fresh)
      (Session.answers_after (s := ⟨o, resolve, []⟩) hanswers calls) r
  have hcontent : out.content = _ := hin.content_eq r
  refine ⟨⟨_, (congrArg (·.unit?) hcontent).trans hunit⟩, ?_⟩
  have hsame : out.diagnostics = _ := (congrArg (·.diagnostics) hcontent).trans hdiagnostics
  rw [hsame]
  exact Page.reports_build ..

/-- A file with a mistake of every kind, and an import that declares a type parameter too. -/
def muddle : Request where
  file := .ofPath "muddle.stencil"
  text :=
    "@model A\n@model B\n@addTagHelper x\n@use 1+\n@typeparam T\n" ++
    "@if x \x7b @section s \x7b \x7d \x7d"
  imports := [⟨"_imports.stencil", "@typeparam T\n"⟩]

theorem diagnostics_complete_muddle :
    let out := ((Compiler.new {}).compileFile muddle).1
    (∃ unit, out.unit? = some unit) ∧ (out.diagnostics.map (·.code)).Perm
      ["STC1005", "STC1003", "STC1001", "STC1002", "STC1004", "STC1006"] := by
  obtain ⟨-, -, hcompiled⟩ := diagnostics_complete
  obtain ⟨hunit, hperm⟩ := hcompiled {} (Base.ambient {}) (Base.ambient_answers {}) [] muddle
  have hcodes : (reports .standard muddle.trees).map (·.code) =
      ["STC1005", "STC1003", "STC1001", "STC1002", "STC1004", "STC1006"] := by decide +kernel
  exact ⟨hunit, hcodes ▸ hperm.map _⟩

end Templating
