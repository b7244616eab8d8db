import Templating.Proofs.Markup.Spelling
import Templating.Proofs.Page.Comment

/-! Text without an at sign, tags and all. It is read as one piece of markup that covers it, and the
page writes that. -/
namespace Templating.Markup
open Text (Cursor byteSize)
open Text.Cursor

/-- Pieces of text that stand one behind the other from an offset on. -/
def Tiles : Nat → List Char → List Piece → Prop
  | _, s, [] => s = []
  | i, s, .text cs j :: ps =>
    j = i ∧ cs ≠ [] ∧ ∃ more, s = cs ++ more ∧ Tiles (i + byteSize cs) more ps
  | _, _, .node .. :: _ => False

def asMarkup (s : List Char) (i : Nat) : Nodes :=
  if s = [] then [] else [⟨.markup (.ofList s), ⟨i, i + byteSize s⟩⟩]

section
variable {t : DirectiveTable} {c : Cursor} {s u : List Char} {ps : List Piece} {run : Run}
  {a i n : Nat}

theorem gatherFrom_tiles (h : Tiles i s ps) (hchars : run.chars ≠ []) (hstart : run.start = a)
    (hstop : run.stop = i) (ha : a ≤ i) :
    gatherFrom run ps = [⟨.markup (.ofList (run.chars.reverse ++ s)), ⟨a, i + byteSize s⟩⟩] := by
  induction ps generalizing run i s with
  | nil =>
    obtain rfl : s = [] := h
    simp [gatherFrom, Run.nodes, hchars, hstart, hstop, byteSize, ha]
  | cons p ps ih =>
    cases p with
    | node => exact h.elim
    | text cs j =>
      obtain ⟨rfl, -, more, rfl, hmore⟩ := h
      have hadd : (run.add cs j).chars ≠ [] := by simp [Run.add, hchars]
      rw [gatherFrom, ih hmore hadd (by simp [Run.add, hchars, hstart]) rfl (by omega)]
      simp [Run.add, Nat.add_assoc]

theorem gather_tiles (h : Tiles i s ps) : gather ps = asMarkup s i := by
  cases ps with
  | nil =>
    obtain rfl : s = [] := h
    rfl
  | cons p ps =>
    cases p with
    | node => exact h.elim
    | text cs j =>
      obtain ⟨rfl, hcs, more, rfl, hmore⟩ := h
      have hadd : (({} : Run).add cs j).chars ≠ [] := by simp [Run.add, hcs]
      rw [gather, gatherFrom, gatherFrom_tiles hmore hadd rfl rfl (Nat.le_add_right _ _)]
      simp [asMarkup, Run.add, hcs, Nat.add_assoc]

theorem exists_tiles (hat : '@' ∉ c.rest) (hn : c.rest.length < n) :
    ∃ ps e, pieces t .topLevel n 0 c = ⟨ps, [], e⟩ ∧ Tiles c.offset c.rest ps := by
  induction n generalizing c with
  | zero => exact absurd hn (Nat.not_lt_zero _)
  | succ n ih =>
    cases hrest : c.rest with
    | nil => exact ⟨[], c, pieces_nil hrest, rfl⟩
    | cons x r =>
      rw [hrest] at hat hn
      have hx : x ≠ '@' := by
        rintro rfl
        exact hat List.mem_cons_self
      by_cases htag : ∃ ps e, x = '<' ∧ Tag.read? c = some (ps, e)
      · obtain ⟨ps, e, rfl, hread⟩ := htag
        obtain ⟨u, hu, hsplit, hspells⟩ := Tag.read_reads hread
        rw [hrest] at hsplit
        rw [hsplit] at hat
        obtain rfl := hspells.1 fun h => hat (List.mem_append_left _ h)
        have hless : e.rest.length < n := by
          have hlength := congrArg List.length hsplit
          have hpos := List.length_pos_of_ne_nil hu
          simp only [List.length_cons, List.length_append] at hlength hn
          omega
        have hoffset : e.offset = c.offset + byteSize u := by
          obtain ⟨w, hw, hoffset⟩ := (Tag.beyond_read hread).ahead.exists_read
          rw [hrest, hsplit] at hw
          rw [hoffset, ← List.append_cancel_right hw]
        obtain ⟨ps, e', hpieces, htiles⟩ := ih (fun h => hat (List.mem_append_right u h)) hless
        rw [hoffset] at htiles
        refine ⟨.text u c.offset :: ps, e', ?_, rfl, hu, e.rest, hsplit, htiles⟩
        rw [pieces_tag hrest hread, hpieces]
        rfl
      · have hforward : (c.forward 1).rest = r := rest_forward_one hrest
        have hnone : x = '<' → Tag.read? c = none := by
          intro hless
          cases hread : Tag.read? c with
          | none => rfl
          | some pair => exact absurd ⟨pair.1, pair.2, hless, hread⟩ htag
        obtain ⟨ps, e, hpieces, htiles⟩ :=
          ih (c := c.forward 1) (by rw [hforward]; exact fun h => hat (List.mem_cons_of_mem x h))
            (by rw [hforward]; simpa using hn)
        rw [hforward, offset_forward_one hrest] at htiles
        refine ⟨.text [x] c.offset :: ps, e, ?_, rfl, List.cons_ne_nil x [], r, rfl, htiles⟩
        rw [pieces_char hrest hx hnone (.inl rfl), hpieces]
        rfl

end

end Templating.Markup

namespace Templating.Page
open Markup
open Text (Cursor byteSize)

def asLiteral (s : List Char) (i : Nat) : Body :=
  if s = [] then [] else [⟨.literal (.ofList s), ⟨i, i + byteSize s⟩⟩]

theorem lower_asMarkup (s : List Char) (i : Nat) : lower true (asMarkup s i) = asLiteral s i := by
  unfold asMarkup asLiteral
  split
  · rfl
  · rfl

theorem nodeFaults_asMarkup (s : List Char) (i : Nat) : nodeFaults (asMarkup s i) = [] := by
  unfold asMarkup
  split
  · rfl
  · rfl

/-- Whatever a tag is made of, it is written out as it stands in the text, but for at signs that are
twice in a quoted value. And text without such a sign is read as one piece of markup without a
fault, and its page is that text. -/
theorem tags_lose_nothing :
    (∀ (c e : Cursor) (ps : List Piece), Tag.read? c = some (ps, e) →
      ∃ u v, e = c.past u ∧ c.rest = u ++ e.rest ∧ Tag.Tagged u v e.rest ∧ spelling c.text ps = v) ∧
    ∀ (name : String) (t : DirectiveTable) (s : List Char), '@' ∉ s →
      (Tree.parse ⟨name, .ofList s⟩ t).nodes = asMarkup s 0 ∧
        (Tree.parse ⟨name, .ofList s⟩ t).allDiagnostics = [] ∧
        lower true (Tree.parse ⟨name, .ofList s⟩ t).nodes = asLiteral s 0 := by
  refine ⟨fun c e ps h => Tag.exists_tagged h, fun name t s hat => ?_⟩
  obtain ⟨ps, e, hpieces, htiles⟩ := exists_tiles (t := t) (c := .start s) hat (Nat.lt_succ_self _)
  have htext : Tiles 0 s ps := htiles
  have hread : pieces t .topLevel (s.length + 1) 0 (.start s) = ⟨ps, [], e⟩ := hpieces
  have hnodes : (Tree.parse ⟨name, .ofList s⟩ t).nodes = asMarkup s 0 := by
    rw [← gather_tiles htext]
    simp only [Tree.parse, String.toList_ofList, hread]
  have hfaults : (Tree.parse ⟨name, .ofList s⟩ t).faults = [] := by
    simp only [Tree.parse, String.toList_ofList, hread]
  exact ⟨hnodes,
    by rw [Tree.allDiagnostics, hfaults, hnodes, nodeFaults_asMarkup]; rfl, by
    rw [hnodes, lower_asMarkup]⟩

/-- A value with blanks before an expression and an at sign behind it, and a tag without any. -/
theorem tags_lose_nothing_value :
    let c := Cursor.start "<a b=' @(x)@@' c/>.".toList
    ∃ ps e, Tag.read? c = some (ps, e) ∧
      (∃ u v, e = c.past u ∧ c.rest = u ++ e.rest ∧ Tag.Tagged u v e.rest ∧
        v = "<a b=' @(x)@' c/>".toList) ∧
      '@' ∉ "<br/>".toList ∧ (Tree.parse ⟨"page", .ofList "<br/>".toList⟩ .standard).nodes =
        asMarkup "<br/>".toList 0 := by
  intro c
  have hplain := tags_lose_nothing.2 "page" .standard "<br/>".toList (by decide)
  have hsome : (Tag.read? c).isSome = true := by decide +kernel
  obtain ⟨⟨ps, e⟩, hread⟩ := Option.isSome_iff_exists.mp hsome
  have hspelling : (Tag.read? c).map (fun r => spelling c.text r.1) =
      some "<a b=' @(x)@' c/>".toList := by decide +kernel
  rw [hread] at hspelling
  obtain ⟨u, v, hend, hsplit, htagged, hv⟩ := tags_lose_nothing.1 c e ps hread
  exact ⟨ps, e, hread, ⟨u, v, hend, hsplit, htagged, hv.symm.trans (Option.some.inj hspelling)⟩,
    by decide, hplain.1⟩

end Templating.Page
