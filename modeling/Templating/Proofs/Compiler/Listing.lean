import Templating.Proofs.Compiler.Balance
import Templating.Proofs.Compiler.Cache
import Templating.Proofs.Page.Places
import Templating.Proofs.Text.Position

/-! Which diagnostics of a compiler can be listed: all but those of a match arm without a body
before a character of more than one byte, whose location ends inside that character, and those too
far to the right or down to be drawn. -/
namespace Templating
open Markup (Overruns Tree)
open Text (Cursor)
open Text.Cursor (Ahead offset_toEnd)

/-- A match arm without a body, where a character of more than one byte stands in
place of the body. -/
def Diagnostic.Unlisted (d : Diagnostic) : Prop :=
  ∃ (s : Source) (a b : Cursor) (x : Char) (cs : List Char), a.text = s.text.toList ∧ Ahead a b ∧
    b.rest = x :: cs ∧ 1 < x.utf8Size ∧
    d = (Markup.fault "`match` arms in templates must have a `\x7b ... \x7d` body" a.offset
      (b.offset + 1)).inSource s

theorem Diagnostic.Unlisted.torn {d : Diagnostic} (h : d.Unlisted) :
    d.Torn ∧ d.severity ≠ .hidden := by
  obtain ⟨s, a, b, x, cs, ha, hab, hrest, hx, rfl⟩ := h
  refine ⟨⟨_, rfl, .inr ?_⟩, fun hhidden => by cases hhidden⟩
  have hinside := Text.inside_succ (a := b.before.reverse) (b := cs) hx
  rw [Text.byteSize_reverse, ← b.offset_eq, ← hrest] at hinside
  have htext : b.before.reverse ++ b.rest = s.text.toList := hab.text_eq.trans ha
  rwa [htext] at hinside

/-- Where a missing body overruns the end of the text there is still a position. -/
theorem Diagnostic.Placed.unlisted {d : Diagnostic} (h : d.Placed) (htorn : d.Torn) :
    d.Unlisted := by
  obtain ⟨l, hl, htorn⟩ := htorn
  rcases h with ⟨l', hl', hsound⟩ | ⟨s, f, ⟨a, b, ha, hab, hwide, rfl⟩, rfl⟩
  · obtain rfl := Option.some.inj (hl.symm.trans hl')
    exact absurd htorn hsound.not_torn
  · obtain rfl := Option.some.inj hl
    have hb : b.text = s.text.toList := hab.text_eq.trans ha
    cases hrest : b.rest with
    | cons x cs => exact ⟨s, a, b, x, cs, ha, hab, hrest, hwide x cs hrest, rfl⟩
    | nil =>
      have hstart := a.cuts_offset
      rw [ha] at hstart
      have hend : Text.byteSize s.text.toList ≤ b.offset + 1 := by
        have hsize : b.size = b.offset + Text.byteSize b.rest := rfl
        rw [b.size_eq, hb, hrest] at hsize
        simp only [Text.byteSize] at hsize
        omega
      exact absurd htorn fun h => h.elim hstart.not_inside (Text.not_inside_of_le hend)

/-- Diagnostics are in place, but for one about the edition, which has none, and only those of
missing bodies before wide characters, and those too wide, keep themselves and others from being
listed. In a short text none is too wide. -/
structure Listed (ds : List Diagnostic) : Prop where
  placed : ∀ d ∈ ds, d.Placed ∨ ∃ e, d = { problem := .editionTooOld e }
  each : ∀ d ∈ ds, d.render? = none ↔ d.Unlisted ∨ d.Wide
  together : Diagnostic.renderAll? ds = none ↔ ∃ d ∈ ds, d.Unlisted ∨ d.severity ≠ .hidden ∧ d.Wide
  narrow : ∀ d ∈ ds, (∀ l, d.location? = some l → 4 * l.source.size < UInt16.size) → ¬ d.Wide

theorem listed_of_placed {ds : List Diagnostic}
    (h : ∀ d ∈ ds, d.Placed ∨ ∃ e, d = { problem := .editionTooOld e }) :
    Listed ds := by
  have heach : ∀ d ∈ ds, d.Torn ↔ d.Unlisted := by
    intro d hd
    refine ⟨fun htorn => ?_, fun hun => hun.torn.1⟩
    rcases h d hd with hplaced | ⟨e, rfl⟩
    · exact hplaced.unlisted htorn
    · obtain ⟨l, hl, -⟩ := htorn
      cases hl
  refine ⟨h, fun d hd => ?_, ?_, ?_⟩
  · rw [d.render?_eq_none_iff, heach d hd]
  · rw [Diagnostic.renderAll?_eq_none_iff]
    refine exists_congr fun d => and_congr_right fun hd => ?_
    rw [heach d hd, and_or_left]
    exact or_congr_left ⟨And.right, fun hun => ⟨hun.torn.2, hun⟩⟩
  · rintro d - hsmall ⟨l, hl, hwide⟩
    exact Location.not_wide_of_size_lt (hsmall l hl) hwide

theorem Request.placed_page (r : Request) (o : Options) : AllPlaced (r.page o).diagnostics := by
  refine Page.placed_build r.file o .standard fun f hf => ?_
  rcases List.mem_append.mp hf with hf | hf
  · obtain ⟨i, -, rfl⟩ := List.mem_map.mp hf
    exact ⟨_, _, rfl⟩
  · obtain rfl := List.mem_singleton.mp hf
    exact ⟨_, _, rfl⟩

namespace Compiler

theorem placed_compute (c : Compiler) (r : Request) : AllPlaced (c.compute r).diagnostics := by
  unfold compute
  rw [generate_eq]
  cases Base.forward (r.page c.options) c.resolver with
  | ok ms => exact r.placed_page c.options
  | error crash =>
    intro d hd
    obtain rfl := List.mem_singleton.mp hd
    exact .inl ⟨_, rfl, Location.sound_whole _⟩

/-- Whatever a compiler was asked for before, what it reports of a request, or of requests together,
is in place and can be listed, unless it is about a match arm without a body: that is reported up to
a byte behind the place of the body, and cannot be listed if that is inside a character. Nor can a
location be listed whose lines or columns are larger numbers than those they are told in. -/
theorem after_listed (o : Options) (resolve : Base.Resolver) (calls : List Call) :
    let c := (withResolver o resolve).after calls
    (∀ r, Listed (c.compileFile r).1.diagnostics) ∧ ∀ rs, Listed (c.compile rs).1.diagnostics := by
  intro c
  have h : In (Session.after ⟨o, resolve, []⟩ calls) c :=
    (In.start ⟨o, resolve, []⟩ rfl).after calls
  have hone : ∀ r, AllPlaced ((Session.after ⟨o, resolve, []⟩ calls).output r).diagnostics :=
    fun r => placed_compute (Session.after ⟨o, resolve, []⟩ calls).fresh r
  refine ⟨fun r => listed_of_placed fun d hd => ?_, fun rs => listed_of_placed fun d hd => ?_⟩
  · have hcontent : (c.compileFile r).1.diagnostics = _ := congrArg (·.diagnostics) (h.content_eq r)
    rw [hcontent] at hd
    exact .inl (hone r d hd)
  · rw [h.compile_eq] at hd
    split at hd
    · obtain ⟨r, -, hd⟩ := List.mem_flatMap.mp hd
      exact .inl (hone r d hd)
    · exact .inr ⟨_, List.mem_singleton.mp hd⟩

/-- A character of two bytes where the body should be. -/
example :
    (((new {}).compileFile ⟨.ofPath "a.stencil", "@match x \x7b a => é \x7d", []⟩).1.diagnostics.map
      (·.render?)) = [none] := by
  decide +kernel

end Compiler

end Templating
