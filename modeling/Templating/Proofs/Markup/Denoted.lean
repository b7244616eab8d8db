import Templating.Proofs.Markup.Woven

/-! What the range of a node of markup denotes. It is the fragment the markup was read of, unless at
signs in pairs change how long that is. -/
namespace Templating.Markup
open Text (Cursor byteSize byteSize_append byteSize_pos halved isPad)
open Text.Cursor
variable {F : List Fault} {t : DirectiveTable}

/-- A directive or a code block at the place of the node has its line to itself. -/
def HasLine (text : List Char) (m : Located Node) : Prop :=
  m.val.takesLine = true ∧ ∃ mark : Cursor, mark.text = text ∧ mark.offset = m.span.start ∧
    mark.atLineStart = true

/-- Markup before other nodes is read of a strand of literals that begins where its range does, and
the range ends behind the last literal as it goes into the markup. Spaces and tabs are dropped only
before a node that has its line to itself. -/
structure ReadOf (text : List Char) (markup : String) (span : Span) (behind : Nodes) (c : Cursor)
    (ls : List Literal) (last : Literal) (pads : List Char) : Prop where
  place : c.text = text
  strand : Strand c ls last
  reads : ls.flatMap Literal.text ++ last.text = markup.toList ++ pads
  range : span = ⟨c.offset, c.offset + byteSize (ls.flatMap Literal.source) + byteSize last.text⟩
  blank : ∀ x ∈ pads, isPad x = true
  dropped : pads ≠ [] → ∃ m ns, behind = m :: ns ∧ HasLine text m

/-! Markup in the making -/

/-- The run is what a strand goes into. -/
structure Run.Holds (r : Run) (c : Cursor) (ls : List Literal) (last : Literal) : Prop where
  strand : Strand c ls last
  reads : ls.flatMap Literal.text ++ last.text = r.chars.reverse
  start : r.start = c.offset
  stop : r.stop = c.offset + byteSize (ls.flatMap Literal.source) + byteSize last.text

/-- What the run is when reading has come to a place, before further pieces: nothing, or markup in
which an error is reported, or what a strand goes into that ends at the place or is
followed by an error. -/
def Run.Follows (F : List Fault) (r : Run) (a : Cursor) (ps : List Piece) : Prop :=
  r.chars = [] ∨ r.start ≤ r.stop ∧ r.stop ≤ a.offset ∧ (Broken F r.start r.stop ∨
    ∃ c ls last, c.text = a.text ∧ r.Holds c ls last ∧ (Broken F r.start (a.offset + 1) ∨
      a = c.past (ls.flatMap Literal.source ++ last.source) ∧
        (last.Ended ∨ ∃ n span qs, ps = .node n span false :: qs)))

section
variable {r : Run} {a b e : Cursor} {ps : List Piece} {l : Literal} {markup : String} {span : Span}
  {behind : Nodes}

theorem Run.follows_empty (a : Cursor) (ps : List Piece) : Run.Follows F {} a ps := .inl rfl

theorem Run.Follows.skip (h : r.Follows F a ps) (hb : Ahead a b)
    (hbroken : Broken F a.offset (b.offset + 1)) :
    r.Follows F b ps := by
  have hle := hb.offset_le
  rcases h with hnone | ⟨hstart, hstop, hread⟩
  · exact .inl hnone
  refine .inr ⟨hstart, hstop.trans hle, hread.imp_right ?_⟩
  rintro ⟨c, ls, last, hc, hholds, -⟩
  exact ⟨c, ls, last, hc.trans hb.text_eq.symm, hholds, .inl (hbroken.mono (hstart.trans hstop))⟩

theorem Run.Holds.snoc {c : Cursor} {ls : List Literal} {last : Literal} (h : r.Holds c ls last)
    (hne : r.chars ≠ [])
    (ha : a = c.past (ls.flatMap Literal.source ++ last.source)) (hended : last.Ended)
    (hl : l.Stands a) :
    (r.add l.text a.offset).Holds c (ls ++ [last]) l := by
  obtain ⟨u, hu⟩ := h.strand.source_prefix
  have hoffset : a.offset = c.offset + byteSize (ls.flatMap Literal.source ++ last.source) := by
    rw [ha, past, offset_forward hu.symm]
  refine ⟨h.strand.snoc hended (ha ▸ hl), ?_, ?_, ?_⟩
  · simp [Run.add, ← h.reads]
  · simp [Run.add, hne, h.start]
  · simp [Run.add, hoffset, Nat.add_assoc]

theorem Run.Follows.add (h : r.Follows F a (.text l.text a.offset :: ps)) (hl : l.Stands a)
    (hnext : l.Ended ∨ ∃ n span qs, ps = .node n span false :: qs) :
    (r.add l.text a.offset).Follows F (a.past l.source) ps := by
  obtain ⟨u, hu⟩ := hl.source_prefix
  have hplace : (a.past l.source).offset = a.offset + byteSize l.source := offset_forward hu.symm
  have htext : (a.past l.source).text = a.text := by rw [past, text_forward]
  have hend : (r.add l.text a.offset).stop ≤ (a.past l.source).offset := by
    rw [hplace]
    exact Nat.add_le_add_left hl.byteSize_le _
  by_cases hnone : r.chars = []
  · have hnew : (r.add l.text a.offset).start = a.offset := by simp [Run.add, hnone]
    refine .inr ⟨?_, hend, .inr ⟨a, [], l, htext.symm, ⟨hl, ?_, hnew, rfl⟩, .inr ⟨rfl, hnext⟩⟩⟩
    · rw [hnew]
      exact Nat.le_add_right _ _
    · simp [Run.add, hnone]
  · obtain ⟨hstart, hstop, hread⟩ := h.resolve_left hnone
    have hpos := byteSize_pos hl.text_ne_nil
    have hsame : (r.add l.text a.offset).start = r.start := by simp [Run.add, hnone]
    have hlonger : a.offset + 1 ≤ (r.add l.text a.offset).stop := Nat.add_le_add_left hpos _
    refine .inr ⟨by omega, hend, ?_⟩
    rw [hsame]
    rcases hread with hbroken | ⟨c, ls, last, hc, hholds,
      hbroken | ⟨ha, hended | ⟨n, span, qs, hps⟩⟩⟩
    · exact .inl (hbroken.weaken (by omega))
    · exact .inl (hbroken.weaken hlonger)
    · exact .inr ⟨c, ls ++ [last], l, hc.trans htext.symm, hholds.snoc hnone ha hended hl,
        .inr ⟨by simp [ha, past_append], hnext⟩⟩
    · cases hps

theorem Run.Follows.reads (h : r.Follows F a ps) {r' : Run} {pads : List Char}
    (hchars : r.chars.reverse = r'.chars.reverse ++ pads)
    (hstart : r'.start = r.start) (hstop : r'.stop = r.stop)
      (hm : ⟨.markup markup, span⟩ ∈ r'.nodes)
    (hblank : ∀ x ∈ pads, isPad x = true)
    (hdropped : pads ≠ [] → ∃ m ns, behind = m :: ns ∧ HasLine a.text m) :
    Broken F span.start span.stop ∨ ∃ c ls last pads,
      ReadOf a.text markup span behind c ls last pads := by
  unfold Run.nodes at hm
  split at hm
  · cases hm
  next hsome =>
    obtain ⟨hmarkup, hspan⟩ := Located.mk.inj (List.mem_singleton.mp hm)
    obtain rfl := Node.markup.inj hmarkup
    obtain rfl := hspan
    have hne : r.chars ≠ [] := by
      intro hnone
      rw [hnone] at hchars
      exact hsome (by simpa using (List.append_eq_nil_iff.mp hchars.symm).1)
    obtain ⟨hle, -, hread⟩ := h.resolve_left hne
    rw [hstart, hstop, Nat.max_eq_left hle]
    refine hread.imp_right ?_
    rintro ⟨c, ls, last, hc, hholds, -⟩
    refine ⟨c, ls, last, pads, hc, hholds.strand, ?_, ?_, hblank, hdropped⟩
    · rw [hholds.reads, hchars, String.toList_ofList]
    · rw [← hholds.stop, hholds.start]

theorem Run.Follows.reads_before (h : r.Follows F a ps) {n : Node} {place : Span} {alone : Bool}
    (hplace : place.start = a.offset)
    (halone : alone = true → a.atLineStart = true ∧ n.takesLine = true)
    (hm : ⟨.markup markup, span⟩ ∈ (if alone then r.trimPads else r).nodes) :
    Broken F span.start span.stop ∨
      ∃ c ls last pads, ReadOf a.text markup span (⟨n, place⟩ :: behind) c ls last pads := by
  cases alone with
  | false => exact h.reads (List.append_nil _).symm rfl rfl hm nofun (absurd rfl)
  | true =>
    obtain ⟨hline, htakes⟩ := halone rfl
    have hsplit : r.chars.reverse = r.trimPads.chars.reverse ++
        (r.chars.takeWhile isPad).reverse := by
      rw [Run.trimPads, ← List.reverse_append, List.takeWhile_append_dropWhile]
    exact h.reads hsplit rfl rfl hm (fun x hx => List.mem_takeWhile_imp (List.mem_reverse.mp hx))
      fun _ =>
      ⟨_, _, rfl, htakes, a, rfl, hplace.symm, hline⟩

theorem Run.nodes_one (r : Run) : r.nodes = [] ∨ ∃ m, r.nodes = [m] := by
  unfold Run.nodes
  split
  · exact .inl rfl
  · exact .inr ⟨_, rfl⟩

theorem Woven.reads (h : Woven F a ps e) (hr : r.Follows F a ps)
    (hm : ⟨.markup markup, span⟩ :: behind <:+ gatherFrom r ps) :
    Broken F span.start span.stop ∨ ∃ c ls last pads,
      ReadOf a.text markup span behind c ls last pads := by
  induction h generalizing r with
  | done a =>
    exact hr.reads (List.append_nil _).symm rfl rfl (hm.subset List.mem_cons_self)
      nofun (absurd rfl)
  | skip hb hbroken _ ih =>
    rw [← hb.text_eq]
    exact ih (hr.skip hb hbroken) hm
  | @literal a e l ps hl hnext _ ih =>
    have hmore := ih (hr.add hl hnext) hm
    rwa [past, text_forward] at hmore
  | @node a b e n span' alone ps hb hn hstart halone _ ih =>
    have hlater : ⟨.markup markup, span⟩ :: behind <:+ ⟨n, span'⟩ :: gatherFrom {} ps →
        Broken F span.start span.stop ∨ ∃ c ls last pads,
          ReadOf a.text markup span behind c ls last pads := by
      intro hsuffix
      rcases List.suffix_cons_iff.mp hsuffix with heq | hsuffix
      · obtain ⟨rfl, -⟩ := Located.mk.inj (List.cons.inj heq).1
        cases hn
      · rw [← hb.text_eq]
        exact ih (Run.follows_empty b ps) hsuffix
    rw [gatherFrom] at hm
    rcases (if alone then r.trimPads else r).nodes_one with hnone | ⟨m, hone⟩
    · rw [hnone] at hm
      exact hlater hm
    rw [hone, List.singleton_append] at hm
    rcases List.suffix_cons_iff.mp hm with heq | hsuffix
    · obtain ⟨rfl, rfl⟩ := List.cons.inj heq
      refine hr.reads_before hstart halone ?_
      rw [hone]
      exact List.mem_cons_self
    · exact hlater hsuffix

end

/-! All markup -/

theorem traced_parse (s : Source) (t : DirectiveTable) :
    Traced (Tree.parse s t).faults s.text.toList (Tree.parse s t).nodes :=
  ((stepsWoven (Tree.parse s t).faults t _).pieces .topLevel 0 (.start s.text.toList)
    (Nat.lt_succ_self _)).gather (ahead_refl _)
    fun _ hf => hf

section
variable (s : Source) (t : DirectiveTable) {ns behind : Nodes} {markup : String} {span : Span}
  (hns : Level (Tree.parse s t).nodes ns) (hm : ⟨.markup markup, span⟩ :: behind <:+ ns)
  (hsound : ¬ Broken (Tree.parse s t).faults span.start span.stop)
include hns hm hsound

theorem readOf_parse :
    ∃ c ls last pads, ReadOf s.text.toList markup span behind c ls last pads := by
  obtain ⟨a, ps, e, ha, hwoven, rfl⟩ := traced_parse s t ns hns
  rw [← ha]
  exact (hwoven.reads (Run.follows_empty a ps) hm).resolve_left hsound

/-- Markup at any depth in whose range no error is reported is read of literals that stand one
behind the other, from the beginning of the range on. The range denotes the markup, with the spaces
and tabs that were dropped, if and only if each literal goes into it as its two at signs in a row
make it, and the last one, if it is of a tag, as it is. -/
theorem markup_denoted : ∃ c ls last pads, ReadOf s.text.toList markup span behind c ls last pads ∧
    (Denotes s span (markup.toList ++ pads) ↔ (∀ l ∈ ls ++ [last], halved l.source = l.text) ∧
      last.Whole) := by
  obtain ⟨c, ls, last, pads, hread⟩ := readOf_parse s t hns hm hsound
  refine ⟨c, ls, last, pads, hread, ?_⟩
  rw [hread.range, ← hread.reads]
  exact hread.strand.denotes_iff hread.place

end

/-- In the body of an `if`, a tag, an escaped at sign and the spaces before a code block. -/
theorem markup_denoted_body :
    let s : Source := ⟨"page", "@if a \x7b<i b=\"c\">@@\n  @\x7bd\x7d\x7d"⟩
    let body : Nodes := [⟨.markup "<i b=\"c\">@\n", 7, 21⟩, ⟨.code "d", 21, 25⟩]
    Level (Tree.parse s .standard).nodes body ∧ ¬ Broken (Tree.parse s .standard).faults 7 21 ∧
      ∃ c ls last pads,
        ReadOf s.text.toList "<i b=\"c\">@\n" ⟨7, 21⟩ [⟨.code "d", 21, 25⟩] c ls last pads ∧
        (Denotes s ⟨7, 21⟩ ("<i b=\"c\">@\n".toList ++ pads) ↔
          (∀ l ∈ ls ++ [last], halved l.source = l.text) ∧ last.Whole) := by
  intro s body
  have hnodes : (Tree.parse s .standard).nodes = [⟨.control [⟨"if a", body⟩], 0, 26⟩] := by
    dsimp only [s, body]
    rfl
  have hfaults : (Tree.parse s .standard).faults = [] := by
    dsimp only [s]
    rfl
  have hlevel : Level (Tree.parse s .standard).nodes body := by
    rw [hnodes]
    exact .body List.mem_cons_self List.mem_cons_self (.top body)
  have hsound : ¬ Broken (Tree.parse s .standard).faults 7 21 := by
    rw [hfaults]
    rintro ⟨f, hf, -⟩
    cases hf
  exact ⟨hlevel, hsound, markup_denoted s .standard hlevel (List.suffix_refl body) hsound⟩

end Templating.Markup
