import Templating.Proofs.Markup.Region
import Templating.Proofs.Markup.Spelling
import Templating.Proofs.Markup.WellFormed

/-! The directives of a tree are those that an at sign announces, and the tokens of one in which
nothing is wrong are what stands in the text in their places. -/
namespace Templating.Markup
open Region (Fits Laid Prescribed Slot located)
open Text (Cursor byteSize)
open Text.Cursor (Ahead ahead_forward ahead_refl)
variable {t : DirectiveTable} {scope : Scope} {mark c : Cursor} {u : DirectiveUse (Located Node)}
  {span : Span} {alone : Bool}

def Piece.IsDirective : Piece → Prop
  | .node (.directive _) _ _ => True
  | _ => False

theorem not_directive_of_simple {o : Outcome (List Piece)} (h : announced t mark = .simple o) :
    ∀ p ∈ o.val, ¬ p.IsDirective := by
  have hone : ∀ {p q : Piece}, p ∈ [q] → ¬ q.IsDirective → ¬ p.IsDirective :=
    fun hp hq => List.mem_singleton.mp hp ▸ hq
  intro p hp
  cases announces h with
  | escape | inside | stray => exact hone hp id
  | comment =>
    unfold Markup.comment at hp
    dsimp only at hp
    split at hp <;> exact hone hp id
  | explicit =>
    unfold Markup.explicit at hp
    split at hp
    · exact hone hp id
    · cases hp
  | codeBlock =>
    unfold Markup.codeBlock at hp
    split at hp
    · exact hone hp id
    · cases hp
  | implicit =>
    unfold Markup.implicit at hp
    dsimp only at hp
    split at hp
    · exact hone hp id
    · cases hp

theorem Tag.not_directive {e : Cursor} {ps : List Piece} (h : Tag.read? c = some (ps, e)) :
    ∀ p ∈ ps, ¬ p.IsDirective := by
  intro p hp hdirective
  have hnone : ∀ d : DirectiveUse (Located Node), ¬ d.Formed {} .topLevel := by
    rintro d ⟨⟨r, hr, -⟩, -⟩
    cases hr
  have hformed : p.Formed {} .topLevel := Tag.piecesFormed_read h p hp
  unfold Piece.IsDirective at hdirective
  split at hdirective
  next d _ _ =>
    obtain ⟨keyword, tokens, body?, faults⟩ := d
    obtain ⟨-, hd⟩ := hformed
    rcases body? with _ | code | nodes
    · exact hnone _ hd
    · exact hnone _ hd
    · exact hnone _ hd.1
  · exact hdirective

theorem exists_announced {n depth : Nat} {p : Piece} (hp : p ∈ (pieces t scope n depth c).val)
    (hdirective : p.IsDirective) :
    ∃ mark d m, Ahead c mark ∧ announced t mark = .directive d ∧
      p ∈ (directive t m scope mark d).val := by
  induction n generalizing depth c with
  | zero =>
    rw [pieces] at hp
    cases hp
  | succ n ih =>
    have hlater : ∀ {next : Cursor} {depth : Nat}, Ahead c next →
      p ∈ (pieces t scope n depth next).val →
        ∃ mark d m, Ahead c mark ∧ announced t mark = .directive d ∧
          p ∈ (directive t m scope mark d).val := by
      intro next depth hnext hp
      obtain ⟨mark, d, m, hmark, hd⟩ := ih hp
      exact ⟨mark, d, m, hnext.trans hmark, hd⟩
    generalize hturn : pieces t scope (n + 1) depth c = o at hp
    cases pieces_turn hturn with
    | stop => cases hp
    | literal =>
      rcases List.mem_cons.mp hp with rfl | hp
      · exact hdirective.elim
      · exact hlater (ahead_forward c 1) hp
    | tag _ hread =>
      rcases List.mem_append.mp hp with hp | hp
      · exact absurd hdirective (Tag.not_directive hread p hp)
      · exact hlater (Tag.beyond_read hread).ahead hp
    | sign _ hrest =>
      rcases List.mem_append.mp hp with hp | hp
      · generalize hmade : construct t scope n c = o at hp
        cases constructed hmade with
        | simple ho => exact absurd hdirective (not_directive_of_simple ho p hp)
        | control | choice =>
          obtain ⟨cs, -, rfl⟩ := List.mem_map.mp hp
          exact hdirective.elim
        | unmatched => cases hp
        | directive ho => exact ⟨c, _, n, ahead_refl c, ho, hp⟩
      · exact hlater (ahead_construct (stepsAhead t n) scope hrest) hp

/-! Tokens in the text -/

/-- The token is what a slice of the text stands for, and that slice is where the
token says it is. -/
def Written (s : Source) (k : Located DirectiveToken) : Prop :=
  ∃ w behind, Prescribed k.val.kind w behind ∧ k.val.text = Region.value k.val.kind w ∧
    (⟨s, k.span⟩ : Location).text? = some (.ofList w)

theorem written_located {s : Source} {specs : List TokenSpec} {slots : List Slot} {left : List Char}
    {k : Located DirectiveToken}
    (hc : c.text = s.text.toList) (hrest : ∃ more, c.rest = slots.flatMap Slot.text ++ left ++ more)
      (h : Laid specs slots left)
    (hk : k ∈ located c.offset specs slots) : Written s k := by
  induction specs generalizing c slots with
  | nil =>
    cases slots with
    | nil => cases hk
    | cons slot slots => exact h.elim
  | cons spec specs ih =>
    cases slots with
    | nil => exact h.elim
    | cons slot slots =>
      obtain ⟨hfits, hlaid⟩ := h
      obtain ⟨more, hrest⟩ := hrest
      rw [List.flatMap_cons, List.append_assoc, List.append_assoc] at hrest
      have hnext : (c.past slot.text).text = s.text.toList :=
        (Text.Cursor.ahead_past c _).text_eq.trans hc
      have hbehind : (c.past slot.text).rest = slots.flatMap Slot.text ++ left ++ more := by
        rw [List.append_assoc]
        exact Text.Cursor.rest_forward_of_append hrest
      have hoffset : (c.past slot.text).offset = c.offset + byteSize slot.text :=
        Text.Cursor.offset_forward hrest
      have hlater : k ∈ located (c.past slot.text).offset specs slots → Written s k :=
        ih hnext ⟨more, hbehind⟩ hlaid
      cases hfits with
      | skipped => exact hlater (by rw [hoffset]; exact hk)
      | @token blanks slice _ hblanks hslice =>
        rw [hoffset, Slot.text, Text.byteSize_append, ← Nat.add_assoc] at hlater
        rcases List.mem_cons.mp hk with rfl | hk
        · rw [Slot.text, List.append_assoc] at hrest
          have hat : (c.past blanks).rest = slice ++ (slots.flatMap Slot.text ++ (left ++ more)) :=
            Text.Cursor.rest_forward_of_append hrest
          have hstart : (c.past blanks).offset = c.offset + byteSize blanks :=
            Text.Cursor.offset_forward hrest
          have hstop : ((c.past blanks).past slice).offset = (c.past blanks).offset +
              byteSize slice :=
            Text.Cursor.offset_forward hat
          have htext := Tag.slice_past hat
          rw [hstop, hstart, (Text.Cursor.ahead_past c blanks).text_eq, hc, String.ofList_toList]
            at htext
          exact ⟨slice, _, hslice, rfl, htext⟩
        · exact hlater hk

/-- The tokens of a directive in which nothing is wrong stand in the text, and none is missing that
has to be there. -/
theorem written_directive {s : Source} {u : Located (DirectiveUse (Located Node))}
    (hu : u ∈ (Tree.parse s t).directives)
    (hsound : u.val.sound = true) : (∀ k ∈ u.val.tokens, Written s k) ∧
      ∃ d slots left, t.get? u.val.keyword = some d ∧ Laid d.tokens slots left ∧
        ∃ i, u.val.tokens = located i d.tokens slots := by
  obtain ⟨⟨n, span⟩, hn, hu⟩ := List.mem_filterMap.mp hu
  dsimp only at hu
  split at hu
  next use =>
    obtain rfl := Option.some.inj hu
    obtain ⟨alone, hpiece⟩ : ∃ alone, Piece.node (.directive use) span alone ∈
        (pieces t .topLevel (s.text.toList.length + 1) 0 (.start s.text.toList)).val := by
      rcases mem_gatherFrom hn with ⟨x, hx⟩ | hp
      · cases hx
      · exact hp
    obtain ⟨mark, d, m, hmark, hd, hp⟩ := exists_announced hpiece trivial
    cases m with
    | zero =>
      rw [directive] at hp
      cases hp
    | succ m =>
      obtain ⟨region, more, ts, fs, besides, body?, span', alone', hrest, -, hval, -, hsettled⟩ :=
        Region.directive_settled t m .topLevel mark d
      rw [hval] at hp
      obtain ⟨huse, -, -⟩ := Piece.node.inj (List.mem_singleton.mp hp)
      obtain rfl := Node.directive.inj huse
      have hfs : fs = [] := (List.append_eq_nil_iff.mp (List.isEmpty_iff.mp hsound)).1
      obtain ⟨slots, left, hregion, hlaid, -, hts⟩ := hsettled.kept hfs
      have htext : (mark.forward (d.keyword.length + 1)).text = s.text.toList := by
        rw [Text.Cursor.text_forward]
        exact hmark.text_eq
      refine ⟨fun k hk => ?_, d, slots, left, get?_of_announced hd, hlaid, _, hts⟩
      rw [hts] at hk
      exact written_located htext ⟨more, by rw [hrest, hregion]⟩ hlaid hk
  · cases hu

end Templating.Markup
