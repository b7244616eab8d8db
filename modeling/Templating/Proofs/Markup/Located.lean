import Templating.Proofs.Markup.Advance

/-! Where nodes and faults are said to be. They span the text from one place to another that is no
earlier, but for one fault: a match arm without a body is reported up to one byte behind the place
where its body should begin, be there a character of one byte or not. -/
namespace Templating.Markup
open Code (Stop Halted)
open Text (Cursor isBlank byteSize)
open Text.Cursor
variable {t : DirectiveTable} {text : List Char} {c mark : Cursor}

def Spans (text : List Char) (s : Span) : Prop :=
  ∃ a b : Cursor, a.text = text ∧ Ahead a b ∧ s = ⟨a.offset, b.offset⟩

/-- The fault of a match arm without a body, where a byte behind the place of the body is no place
in the text. -/
def Overruns (text : List Char) (f : Fault) : Prop :=
  ∃ a b : Cursor, a.text = text ∧ Ahead a b ∧ (∀ x cs, b.rest = x :: cs → 1 < x.utf8Size) ∧
    f = fault "`match` arms in templates must have a `\x7b ... \x7d` body" a.offset (b.offset + 1)

def FaultPlaced (text : List Char) (f : Fault) : Prop := Spans text f.span ∨ Overruns text f

def FaultsPlaced (text : List Char) (fs : List Fault) : Prop := ∀ f ∈ fs, FaultPlaced text f

section
variable {a b : Cursor}

theorem spans_ahead (ha : a.text = text) (h : Ahead a b) : Spans text ⟨a.offset, b.offset⟩ :=
  ⟨a, b, ha, h, rfl⟩

theorem spans_toEnd (ha : a.text = text) : Spans text ⟨a.offset, a.size⟩ := by
  rw [← offset_toEnd]
  exact spans_ahead ha (ahead_toEnd a)

theorem placed_unbodied (ha : a.text = text) (h : Ahead a b) :
    FaultPlaced text (fault "`match` arms in templates must have a `\x7b ... \x7d` body" a.offset
      (b.offset + 1)) := by
  by_cases hone : ∃ x cs, b.rest = x :: cs ∧ x.utf8Size = 1
  · obtain ⟨x, cs, hrest, hx⟩ := hone
    have hforward := offset_forward_one hrest
    rw [hx] at hforward
    refine .inl ?_
    show Spans text ⟨a.offset, b.offset + 1⟩
    rw [← hforward]
    exact spans_ahead ha (h.trans (ahead_forward b 1))
  · refine .inr ⟨a, b, ha, h, fun x cs hrest => ?_, rfl⟩
    have hpos := x.utf8Size_pos
    have hne : x.utf8Size ≠ 1 := fun hx => hone ⟨x, cs, hrest, hx⟩
    omega

theorem faultsPlaced_nil : FaultsPlaced text [] := fun _ h => by cases h

theorem faultsPlaced_one {f : Fault} (h : Spans text f.span) : FaultsPlaced text [f] := by
  intro g hg
  obtain rfl := List.mem_singleton.mp hg
  exact .inl h

theorem FaultsPlaced.append {fs gs : List Fault} (h : FaultsPlaced text fs)
    (h' : FaultsPlaced text gs) :
    FaultsPlaced text (fs ++ gs) := by
  intro f hf
  rcases List.mem_append.mp hf with hf | hf
  · exact h f hf
  · exact h' f hf

end

/-! Pieces -/

def PiecePlaced (text : List Char) : Piece → Prop
  | .text _ _ => True
  | .node n span _ => Spans text span ∧ FaultsPlaced text n.faults

def PiecesPlaced (text : List Char) (ps : List Piece) : Prop := ∀ p ∈ ps, PiecePlaced text p

structure OutcomePlaced (text : List Char) (o : Outcome (List Piece)) : Prop where
  pieces : PiecesPlaced text o.val
  faults : FaultsPlaced text o.faults

theorem piecesPlaced_nil : PiecesPlaced text [] := fun _ h => by cases h

theorem piecesPlaced_one {p : Piece} (h : PiecePlaced text p) : PiecesPlaced text [p] := by
  intro q hq
  obtain rfl := List.mem_singleton.mp hq
  exact h

section
variable {ps qs : List Piece}

theorem PiecesPlaced.append (h : PiecesPlaced text ps) (h' : PiecesPlaced text qs) :
    PiecesPlaced text (ps ++ qs) := by
  intro p hp
  rcases List.mem_append.mp hp with hp | hp
  · exact h p hp
  · exact h' p hp

theorem OutcomePlaced.followedBy {o o' : Outcome (List Piece)} (h : OutcomePlaced text o)
    (h' : OutcomePlaced text o') :
    OutcomePlaced text (o.followedBy o') := ⟨h.pieces.append h'.pieces, h.faults.append h'.faults⟩

theorem mem_gatherFrom {r : Run} {m : Located Node} (h : m ∈ gatherFrom r ps) :
    (∃ s, m.val = .markup s) ∨ ∃ alone, .node m.val m.span alone ∈ ps := by
  have hrun : ∀ r : Run, m ∈ r.nodes → ∃ s, m.val = .markup s := by
    intro r hm
    unfold Run.nodes at hm
    split at hm
    · cases hm
    · obtain rfl := List.mem_singleton.mp hm
      exact ⟨_, rfl⟩
  induction ps generalizing r with
  | nil => exact .inl (hrun r h)
  | cons p ps ih =>
    cases p with
    | text cs offset => exact (ih h).imp_right fun ⟨alone, hp⟩ => ⟨alone, List.mem_cons_of_mem _ hp⟩
    | node n span alone =>
      rw [gatherFrom] at h
      rcases List.mem_append.mp h with hm | hm
      · exact .inl (hrun _ hm)
      · rcases List.mem_cons.mp hm with rfl | hm
        · exact .inr ⟨alone, List.mem_cons_self⟩
        · exact (ih hm).imp_right fun ⟨alone, hp⟩ => ⟨alone, List.mem_cons_of_mem _ hp⟩

theorem mem_nodeFaults {ns : Nodes} {f : Fault} (h : f ∈ nodeFaults ns) :
    ∃ m ∈ ns, f ∈ m.val.faults := by
  induction ns with
  | nil => cases h
  | cons m ns ih =>
    rcases List.mem_append.mp h with hf | hf
    · exact ⟨m, List.mem_cons_self, hf⟩
    · obtain ⟨m', hm', hf'⟩ := ih hf
      exact ⟨m', List.mem_cons_of_mem _ hm', hf'⟩

theorem PiecesPlaced.gather (h : PiecesPlaced text ps) :
    FaultsPlaced text (nodeFaults (gather ps)) := by
  intro f hf
  obtain ⟨m, hm, hf⟩ := mem_nodeFaults hf
  rcases mem_gatherFrom hm with ⟨s, hs⟩ | ⟨alone, hp⟩
  · rw [hs, Node.faults] at hf
    · cases hf
    all_goals intros; simp_all
  · exact (h _ hp).2 f hf

end

/-! Code that cannot be scanned, and bodies that are not closed -/

theorem spans_clamped (hc : c.text = text)
    (h : c.rest = [] ∨ ∃ x cs, c.rest = x :: cs ∧ x.utf8Size = 1) :
    Spans text ⟨c.offset, max (min (c.offset + 1) c.size) c.offset⟩ := by
  have hsize : c.size = c.offset + byteSize c.rest := rfl
  rcases h with hrest | ⟨x, cs, hrest, hx⟩
  · have hstop : max (min (c.offset + 1) c.size) c.offset = c.offset := by
      rw [hrest] at hsize
      simp only [byteSize] at hsize
      omega
    rw [hstop]
    exact spans_ahead hc (ahead_refl c)
  · have hforward := offset_forward_one hrest
    have hstop : max (min (c.offset + 1) c.size) c.offset = (c.forward 1).offset := by
      rw [hrest] at hsize
      simp only [byteSize] at hsize
      omega
    rw [hstop]
    exact spans_ahead hc (ahead_forward c 1)

theorem spans_recover {read : List Char} {e : Code.ScanError} (hc : c.text = text)
    (h : Halted c.rest read e) :
    Spans text (recover c read e).1.span := by
  obtain ⟨rest, hrest, he⟩ := h
  have hbad : (c.past read).rest = rest := rest_forward_of_append hrest
  have hspan : (recover c read e).1.span =
      ⟨(c.past read).offset,
        max (min ((c.past read).offset + 1) (c.past read).size) (c.past read).offset⟩ := by
    rw [(ahead_past c read).size_eq]
    rfl
  rw [hspan]
  refine spans_clamped (by rw [past, text_forward, hc]) ?_
  rw [hbad]
  -- a closing delimiter takes one byte
  have hcloser : ∀ f, Code.isCloser f = true ∧ (∃ after, rest = f :: after) →
      rest = [] ∨ ∃ x cs, rest = x :: cs ∧ x.utf8Size = 1 := by
    rintro f ⟨hf, after, rfl⟩
    have hcases : f = ')' ∨ f = ']' ∨ f = '\x7d' := by simpa [Code.isCloser, or_assoc] using hf
    exact .inr ⟨f, after, rfl, by rcases hcases with rfl | rfl | rfl <;> rfl⟩
  cases e with
  | mismatched x f => exact hcloser f he
  | unopened f => exact hcloser f he
  | unexpectedEnd stop => exact .inl he
  | unterminatedString => exact .inl he
  | unterminatedComment => exact .inl he

theorem spans_codeAt {stop : Stop} {f : Fault} {resume : Cursor} (hc : c.text = text)
    (h : codeAt stop c = .error (f, resume)) : Spans text f.span := by
  obtain ⟨read, e, hhalted, hrecover⟩ := codeAt_error h
  rw [show f = (recover c read e).1 from congrArg Prod.fst hrecover]
  exact spans_recover hc hhalted

theorem faultsPlaced_closeBody (hmark : mark.text = text) (c : Cursor) :
    FaultsPlaced text (closeBody mark c).2.1 := by
  unfold closeBody
  split
  · exact faultsPlaced_nil
  · exact faultsPlaced_one (spans_toEnd hmark)

/-! What is read at once -/

theorem placed_simple {n : Node} {o : Outcome (List Piece)} {after : Cursor} {alone : Bool}
    (hmark : mark.text = text) (h : Beyond mark after) (hn : n.faults = [])
      (ho : o.val = [.node n ⟨mark.offset, after.offset⟩ alone])
    (hfaults : o.faults = []) : OutcomePlaced text o := by
  refine ⟨?_, hfaults ▸ faultsPlaced_nil⟩
  rw [ho]
  exact piecesPlaced_one ⟨spans_ahead hmark h.ahead, hn ▸ faultsPlaced_nil⟩

theorem placed_literal (cs : List Char) (c d : Cursor) : OutcomePlaced text (.literal cs c d) :=
  ⟨piecesPlaced_one trivial, faultsPlaced_nil⟩

theorem placed_failed {f : Fault} (h : Spans text f.span) (d : Cursor) :
    OutcomePlaced text ⟨[], [f], d⟩ :=
  ⟨piecesPlaced_nil, faultsPlaced_one h⟩

section
variable {cs : List Char} (h : mark.rest = '@' :: cs) (hmark : mark.text = text)
include h hmark

theorem placed_comment : OutcomePlaced text (comment mark) := by
  unfold comment
  dsimp only
  split
  · exact placed_simple hmark ((beyond_sign h 1).trans (ahead_forward _ _))
      (by rw [Node.faults] <;> simp) rfl rfl
  · exact ⟨piecesPlaced_one ⟨spans_toEnd hmark, by rw [Node.faults] <;> simp [faultsPlaced_nil]⟩,
      faultsPlaced_one (spans_toEnd hmark)⟩

theorem placed_explicit : OutcomePlaced text (explicit mark) := by
  unfold explicit
  split
  next hcode =>
    exact placed_simple hmark ((beyond_sign h 1).trans (beyond_codeAt hcode).ahead)
      (by rw [Node.faults] <;> simp) rfl rfl
  next hcode => exact placed_failed (spans_codeAt (by rw [text_forward, hmark]) hcode) _

theorem placed_codeBlock : OutcomePlaced text (codeBlock mark) := by
  unfold codeBlock
  split
  next hcode =>
    exact placed_simple hmark ((beyond_sign h 1).trans (beyond_codeAt hcode).ahead)
      (by rw [Node.faults] <;> simp) rfl rfl
  next hcode => exact placed_failed (spans_codeAt (by rw [text_forward, hmark]) hcode) _

theorem placed_implicit : OutcomePlaced text (implicit mark) := by
  unfold implicit
  dsimp only
  split
  · exact placed_simple hmark ((beyond_sign h 0).trans (ahead_past _ _))
      (by rw [Node.faults] <;> simp) rfl rfl
  next read e hread =>
    have htakes := Implicit.atFront_read (mark.forward 1).rest
    rw [hread] at htakes
    exact placed_failed (spans_recover (by rw [text_forward, hmark]) htakes) _

theorem placed_stray : OutcomePlaced text (stray mark) := by
  have hone : (mark.forward 1).offset = mark.offset + 1 := offset_forward_one h
  refine ⟨piecesPlaced_one trivial, faultsPlaced_one ?_⟩
  show Spans text ⟨mark.offset, mark.offset + 1⟩
  rw [← hone]
  exact spans_ahead hmark (ahead_forward _ 1)

theorem placed_announced {o : Outcome (List Piece)} (ho : announced t mark = .simple o) :
    OutcomePlaced text o := by
  cases announces ho with
  | escape | inside => exact placed_literal _ _ _
  | stray => exact placed_stray h hmark
  | comment => exact placed_comment h hmark
  | explicit => exact placed_explicit h hmark
  | codeBlock => exact placed_codeBlock h hmark
  | implicit => exact placed_implicit h hmark

end

/-! Tags -/

namespace Tag

theorem piecesPlaced_text (cs : List Char) (offset : Nat) :
    PiecesPlaced text (Tag.text cs offset) := by
  unfold Tag.text
  split
  · exact piecesPlaced_nil
  · exact piecesPlaced_one trivial

theorem Attributed.placed {markup : List Char} {offset : Nat} {c e : Cursor} {ps : List Piece}
    (h : Attributed markup offset c ps e) (hc : c.text = text) : PiecesPlaced text ps := by
  induction h with
  | close => exact piecesPlaced_text _ _
  | plain hd _ _ ih => exact ih (hd.text_eq.trans hc)
  | literal hv _ _ hvalue _ _ ih => exact ih ((hvalue.behind hv).text_eq.trans hc)
  | parts hv _ _ hvalue _ _ ih =>
    have hend := hvalue.behind hv
    refine (piecesPlaced_text _ _).append
      ((piecesPlaced_one (p := .node _ _ false) ?_).append (ih (hend.text_eq.trans hc)))
    exact ⟨spans_ahead hc hend, by rw [Node.faults] <;> simp [faultsPlaced_nil]⟩

theorem piecesPlaced_read {c e : Cursor} {ps : List Piece} (hc : c.text = text)
    (h : read? c = some (ps, e)) :
    PiecesPlaced text ps := by
  obtain ⟨name, d, hd, -, hread⟩ := attributed_of_read h
  exact hread.placed (hd.text_eq.trans hc)

end Tag

/-! Directives -/

namespace Region

theorem prefix_of_stringBody {escaped : Bool} {cs body : List Char}
    (h : stringBody escaped cs = some body) :
    body ++ ['"'] <+: cs := by
  induction cs generalizing escaped body with
  | nil => cases h
  | cons c cs ih =>
    rw [stringBody] at h
    split at h
    next hquote =>
      obtain rfl := Option.some.inj h
      simp only [Bool.and_eq_true, beq_iff_eq] at hquote
      exact ⟨cs, by rw [hquote.1]; rfl⟩
    · obtain ⟨body', hbody, rfl⟩ := Option.map_eq_some_iff.mp h
      exact (List.prefix_cons_inj c).mpr (ih hbody)

theorem prefix_of_slice {k : TokenKind} {cs s : List Char} (h : slice k cs = .ok (some s)) :
    s <+: cs := by
  unfold slice at h
  split at h
  · cases h
  · cases k with
    | text =>
      obtain rfl := Option.some.inj (Except.ok.inj h)
      exact List.prefix_refl _
    | type =>
      dsimp only at h
      split at h
      · obtain rfl := Option.some.inj (Except.ok.inj h)
        exact List.prefix_refl _
      · cases h
    | constraint =>
      dsimp only at h
      split at h
      · obtain rfl := Option.some.inj (Except.ok.inj h)
        exact List.prefix_refl _
      · cases h
    | member =>
      dsimp only at h
      split at h
      · cases h
      · obtain rfl := Option.some.inj (Except.ok.inj h)
        exact Implicit.prefix_leadingName cs
    | namespacePath =>
      dsimp only at h
      split at h
      · obtain rfl := Option.some.inj (Except.ok.inj h)
        exact List.takeWhile_prefix _
      · cases h
    | string =>
      dsimp only at h
      split at h
      · split at h
        next hbody =>
          obtain rfl := Option.some.inj (Except.ok.inj h)
          exact (List.prefix_cons_inj _).mpr (prefix_of_stringBody hbody)
        · cases h
      · cases h
    | boolean =>
      dsimp only at h
      split at h
      · obtain rfl := Option.some.inj (Except.ok.inj h)
        exact Implicit.prefix_leadingName cs
      · cases h
    | _ =>
      dsimp only at h
      split at h
      next r =>
        split at h
        next code hscan =>
          obtain rfl := Option.some.inj (Except.ok.inj h)
          obtain ⟨rest, hrest⟩ := Code.prefix_of_scan hscan
          exact ⟨rest, by simp [hrest, Code.Stop.text]⟩
        · cases h
      · cases h

theorem faultsPlaced_tokensFrom (d : Directive) {specs : List TokenSpec} {a c : Cursor}
    {cs more : List Char} (ha : a.text = text) (hac : Ahead a c) (hc : c.rest = cs ++ more) :
    FaultsPlaced text (tokensFrom d ⟨a.offset, c.offset + byteSize cs⟩ specs c.offset cs).2 := by
  have hctext : c.text = text := hac.text_eq.trans ha
  have hstop : c.offset + byteSize cs = (c.past cs).offset := (offset_forward hc).symm
  have hhere : ∀ reason, FaultsPlaced text [malformed d reason c.offset (c.offset + byteSize cs)] :=
    fun reason => by
    rw [hstop]
    exact faultsPlaced_one (spans_ahead hctext (ahead_past c cs))
  induction specs generalizing c cs with
  | nil =>
    unfold tokensFrom
    split
    · exact faultsPlaced_nil
    · exact hhere _
  | cons spec specs ih =>
    have hsplit := List.takeWhile_append_dropWhile (p := isBlank) (l := cs)
    have hcat : c.rest = cs.takeWhile isBlank ++ (cs.dropWhile isBlank ++ more) := by
      rw [← List.append_assoc, hsplit, hc]
    have hat : (c.past (cs.takeWhile isBlank)).rest = cs.dropWhile isBlank ++ more :=
      rest_forward_of_append hcat
    have hatOffset : (c.past (cs.takeWhile isBlank)).offset =
        c.offset + byteSize (cs.takeWhile isBlank) := offset_forward hcat
    have hsize : c.offset + byteSize cs = (c.past (cs.takeWhile isBlank)).offset +
        byteSize (cs.dropWhile isBlank) := by
      rw [hatOffset, Nat.add_assoc, ← Text.byteSize_append, hsplit]
    have hahead : Ahead a (c.past (cs.takeWhile isBlank)) := hac.trans (ahead_past c _)
    unfold tokensFrom
    dsimp only
    rw [← hatOffset, hsize]
    generalize c.past (cs.takeWhile isBlank) = e at hat hahead
    generalize cs.dropWhile isBlank = ds at hat
    have hetext : e.text = text := hahead.text_eq.trans ha
    have hend : e.offset + byteSize ds = (e.past ds).offset := (offset_forward hat).symm
    have hrest : ∀ reason,
        FaultsPlaced text [malformed d reason e.offset (e.offset + byteSize ds)] := fun reason => by
      rw [hend]
      exact faultsPlaced_one (spans_ahead hetext (ahead_past e ds))
    split
    next s hslice =>
      obtain ⟨b, hb, -⟩ := Text.exists_trimEnd ds
      obtain ⟨u, hu⟩ : s <+: ds := (prefix_of_slice hslice).trans ⟨b, hb.symm⟩
      have hdrop : ds.drop s.length = u := by rw [← hu, List.drop_left]
      have hnext : e.rest = s ++ (u ++ more) := by rw [hat, ← hu, List.append_assoc]
      have hnextRest : (e.past s).rest = u ++ more := rest_forward_of_append hnext
      have hnextOffset : (e.past s).offset = e.offset + byteSize s := offset_forward hnext
      have hnextSize : e.offset + byteSize ds = (e.past s).offset + byteSize u := by
        rw [hnextOffset, Nat.add_assoc, ← Text.byteSize_append, hu]
      have hnextAhead := hahead.trans (ahead_past e s)
      rw [hdrop, ← hnextOffset, hnextSize]
      refine ih hnextAhead hnextRest (hnextAhead.text_eq.trans ha) (offset_forward hnextRest).symm
        fun reason => ?_
      rw [(offset_forward hnextRest).symm]
      exact faultsPlaced_one (spans_ahead (hnextAhead.text_eq.trans ha) (ahead_past _ u))
    · split
      · exact ih hahead hat hetext hend hrest
      · refine faultsPlaced_one ?_
        show Spans text ⟨a.offset, e.offset + byteSize ds⟩
        rw [hend]
        exact spans_ahead ha (hahead.trans (ahead_past e ds))
    · exact hrest _

end Region

theorem faultsPlaced_announcement (d : Directive) (hmark : mark.text = text) :
    FaultsPlaced text (announcement d mark).faults := by
  have hregion :
    (if d.kind == .line then (mark.forward (d.keyword.length + 1)).rest.takeWhile (· != '\n')
      else ((mark.forward (d.keyword.length + 1)).rest.takeWhile (· != '\n')).takeWhile
        (· != '\x7b')) <+:
      (mark.forward (d.keyword.length + 1)).rest := by
    split
    · exact List.takeWhile_prefix _
    · exact (List.takeWhile_prefix _).trans (List.takeWhile_prefix _)
  obtain ⟨more, hmore⟩ := hregion
  have hbegun : (mark.forward (d.keyword.length + 1)).text = text := by rw [text_forward, hmark]
  exact Region.faultsPlaced_tokensFrom d hbegun (ahead_refl _) hmore.symm

theorem ahead_announcement (d : Directive) (mark : Cursor) :
    Ahead mark (announcement d mark).stop :=
  (ahead_forward mark _).trans (ahead_past _ _)

def bodyFaults : Option (DirectiveBody (Located Node)) → List Fault
  | some (.markup nodes) => nodeFaults nodes
  | _ => []

theorem faults_directive (keyword : String) (tokens : List (Located DirectiveToken))
    (body? : Option (DirectiveBody (Located Node))) (faults : List Fault) :
    (Node.directive ⟨keyword, tokens, body?, faults⟩).faults = faults ++ bodyFaults body? := by
  cases body? with
  | none => rw [Node.faults] <;> simp [bodyFaults]
  | some body => cases body <;> rw [Node.faults] <;> simp [bodyFaults]

theorem placed_directivePiece {d : Directive} {scope : Scope}
    {tokens : List (Located DirectiveToken)} {faults : List Fault}
    {body? : Option (DirectiveBody (Located Node))} {stop : Cursor} (hmark : mark.text = text)
      (hstop : Ahead mark stop)
    (hfaults : FaultsPlaced text faults) (hbody : FaultsPlaced text (bodyFaults body?)) :
    PiecePlaced text (directivePiece d scope mark tokens faults body? stop).1 := by
  have hspan : Spans text ⟨mark.offset, stop.offset⟩ := spans_ahead hmark hstop
  refine ⟨hspan, ?_⟩
  rw [faults_directive]
  refine (hfaults.append ?_).append hbody
  split
  · exact faultsPlaced_one hspan
  · exact faultsPlaced_nil

/-! Everything that is read -/

structure StepsPlaced (text : List Char) (t : DirectiveTable) (n : Nat) : Prop where
  pieces : ∀ scope depth c, c.text = text → OutcomePlaced text (pieces t scope n depth c)
  branches : ∀ mark chained c, mark.text = text → c.text = text →
    FaultsPlaced text (branches t n mark chained c).faults ∧
    ∀ bs, (branches t n mark chained c).val = some bs → FaultsPlaced text (clauseFaults bs)
  arms : ∀ mark c, mark.text = text → c.text = text → FaultsPlaced text (arms t n mark c).faults ∧
    ∀ as, (arms t n mark c).val = some as → FaultsPlaced text (clauseFaults as)
  directive : ∀ scope mark d, mark.text = text → OutcomePlaced text (directive t n scope mark d)

section
variable {o : Outcome (Option (List (Clause (Located Node))))}

theorem placed_clause (head : List Char) {body : Outcome Nodes}
    (hbody : FaultsPlaced text body.faults ∧ FaultsPlaced text (nodeFaults body.val))
    (ho : FaultsPlaced text o.faults ∧ ∀ cs, o.val = some cs →
      FaultsPlaced text (clauseFaults cs)) :
    FaultsPlaced text (Outcome.clause head body o).faults ∧
      ∀ cs, (Outcome.clause head body o).val = some cs → FaultsPlaced text (clauseFaults cs) := by
  refine ⟨hbody.1.append ho.1, fun cs h => ?_⟩
  obtain ⟨more, hmore, rfl⟩ := Option.map_eq_some_iff.mp h
  exact hbody.2.append (ho.2 more hmore)

theorem placed_lastClause (head : List Char) {body : Outcome Nodes}
    (hbody : FaultsPlaced text body.faults ∧ FaultsPlaced text (nodeFaults body.val)) :
    FaultsPlaced text (Outcome.lastClause head body).faults ∧
      ∀ cs, (Outcome.lastClause head body).val = some cs → FaultsPlaced text (clauseFaults cs) := by
  refine ⟨hbody.1, fun cs h => ?_⟩
  obtain rfl := Option.some.inj h
  exact hbody.2.append faultsPlaced_nil

theorem placed_node {make : List (Clause (Located Node)) → Node}
    (hmake : ∀ cs, (make cs).faults = clauseFaults cs)
    (hmark : mark.text = text) (hend : Ahead mark o.cursor)
    (ho : FaultsPlaced text o.faults ∧ ∀ cs, o.val = some cs →
      FaultsPlaced text (clauseFaults cs)) :
    OutcomePlaced text (o.node make mark) := by
  refine ⟨fun p hp => ?_, ho.1⟩
  obtain ⟨cs, hcs, rfl⟩ := List.mem_map.mp hp
  refine ⟨spans_ahead hmark hend, ?_⟩
  rw [hmake]
  exact ho.2 cs (Option.mem_toList.mp hcs)

end

section
variable {n : Nat} (ih : StepsPlaced text t n)
include ih

theorem placed_construct (scope : Scope) {c : Cursor} {cs : List Char} (h : c.rest = '@' :: cs)
    (hc : c.text = text) :
    OutcomePlaced text (construct t scope n c) := by
  have hsteps := stepsAhead t n
  generalize hturn : construct t scope n c = o
  cases constructed hturn with
  | simple ho => exact placed_announced h hc ho
  | control =>
    exact placed_node (fun _ => by rw [Node.faults]) hc
      ((ahead_forward c 1).trans (hsteps.branches _ _ _))
      (ih.branches c _ (c.forward 1) hc (by rw [text_forward, hc]))
  | unmatched _ hcode => exact placed_failed (spans_codeAt (by rw [text_forward, hc]) hcode) _
  | choice _ hcode =>
    have hbegun := (ahead_forward c 6).trans (beyond_codeAt hcode).ahead
    exact placed_node (fun _ => by rw [Node.faults]) hc (hbegun.trans (hsteps.arms _ _))
      (ih.arms c _ hc (hbegun.text_eq.trans hc))
  | directive => exact ih.directive scope c _ hc

theorem placed_pieces (scope : Scope) (depth : Nat) {c : Cursor} (hc : c.text = text) :
    OutcomePlaced text (pieces t scope (n + 1) depth c) := by
  have hmore : ∀ (depth : Nat) {d : Cursor}, Ahead c d →
      OutcomePlaced text (pieces t scope n depth d) :=
    fun depth _ hd => ih.pieces scope depth _ (hd.text_eq.trans hc)
  generalize hturn : pieces t scope (n + 1) depth c = o
  cases pieces_turn hturn with
  | stop => exact ⟨piecesPlaced_nil, faultsPlaced_nil⟩
  | literal depth => exact (placed_literal _ _ _).followedBy (hmore depth (ahead_forward c 1))
  | tag depth hread =>
    exact OutcomePlaced.followedBy (o := ⟨_, [], _⟩) ⟨Tag.piecesPlaced_read hc hread,
      faultsPlaced_nil⟩
      (hmore depth (Tag.beyond_read hread).ahead)
  | sign depth hrest =>
    exact (placed_construct ih scope hrest hc).followedBy
      (hmore depth (ahead_construct (stepsAhead t n) scope hrest))

theorem placed_enclosed {c : Cursor} (hmark : mark.text = text) (hc : c.text = text) :
    FaultsPlaced text (enclosed t n mark c).faults ∧
      FaultsPlaced text (nodeFaults (enclosed t n mark c).val) :=
  have hbody := ih.pieces .nested 0 c hc
  ⟨hbody.faults.append (faultsPlaced_closeBody hmark _), hbody.pieces.gather⟩

theorem placed_branches (chained : Bool) {c : Cursor} (hmark : mark.text = text)
    (hc : c.text = text) :
    FaultsPlaced text (branches t (n + 1) mark chained c).faults ∧
      ∀ bs, (branches t (n + 1) mark chained c).val = some bs →
        FaultsPlaced text (clauseFaults bs) := by
  generalize hturn : branches t (n + 1) mark chained c = o
  cases branches_turn hturn with
  | headless hcode => exact ⟨faultsPlaced_one (spans_codeAt hc hcode), fun _ h => by cases h⟩
  | @more _ begun hcode =>
    have hbegun : begun.text = text := (beyond_codeAt hcode).ahead.text_eq.trans hc
    have hafter := (ahead_enclosed (stepsAhead t n) mark begun).trans (ahead_skip _ isBlank)
    exact placed_clause _ (placed_enclosed ih hmark hbegun)
      (ih.branches mark chained _ hmark (hafter.text_eq.trans hbegun))
  | last hcode =>
    exact placed_lastClause _
      (placed_enclosed ih hmark ((beyond_codeAt hcode).ahead.text_eq.trans hc))

theorem placed_arms {c : Cursor} (hmark : mark.text = text) (hc : c.text = text) :
    FaultsPlaced text (arms t (n + 1) mark c).faults ∧
      ∀ as, (arms t (n + 1) mark c).val = some as → FaultsPlaced text (clauseFaults as) := by
  have hempty : ∀ as, some [] = some as → FaultsPlaced text (clauseFaults as) := fun as h => by
    obtain rfl := Option.some.inj h
    exact faultsPlaced_nil
  have hskip : (armAt c).text = text := (ahead_skip c _).text_eq.trans hc
  have hbegun : ∀ {pattern : List Char} {arrow : Cursor},
    codeAt .fatArrow (armAt c) = .ok (pattern, arrow) →
      ((arrow.skip isBlank).forward 1).text = text := fun hcode =>
    (((beyond_codeAt hcode).ahead.trans (ahead_skip _ isBlank)).trans
      (ahead_forward _ 1)).text_eq.trans hskip
  generalize hturn : arms t (n + 1) mark c = o
  cases arms_turn hturn with
  | cut => exact ⟨faultsPlaced_one (spans_toEnd hmark), hempty⟩
  | close => exact ⟨faultsPlaced_nil, hempty⟩
  | headless hcode => exact ⟨faultsPlaced_one (spans_codeAt hskip hcode), fun _ h => by cases h⟩
  | @more _ arrow hcode =>
    have hafter := ahead_enclosed (stepsAhead t n) mark ((arrow.skip isBlank).forward 1)
    exact placed_clause _ (placed_enclosed ih hmark (hbegun hcode))
      (ih.arms mark _ hmark (hafter.text_eq.trans (hbegun hcode)))
  | last hcode => exact placed_lastClause _ (placed_enclosed ih hmark (hbegun hcode))
  | @unbodied _ arrow _ hcode =>
    refine ⟨fun f hf => ?_, hempty⟩
    obtain rfl := List.mem_singleton.mp hf
    exact placed_unbodied ((beyond_codeAt hcode).ahead.text_eq.trans hskip)
      (ahead_skip arrow isBlank)

theorem placed_directive (scope : Scope) {mark : Cursor} (d : Directive)
    (hmark : mark.text = text) :
    OutcomePlaced text (directive t (n + 1) scope mark d) := by
  have hannounced := faultsPlaced_announcement d hmark
  have hstop := ahead_announcement d mark
  have hopen : Ahead mark (opening d mark) := hstop.trans (ahead_skip _ isBlank)
  have hbegun := hopen.trans (ahead_forward _ 1)
  have hfinished :
    ∀ {fs outer : List Fault} {body? : Option (DirectiveBody (Located Node))} {stop : Cursor},
      Ahead mark stop → FaultsPlaced text fs → FaultsPlaced text (bodyFaults body?) →
        FaultsPlaced text outer →
      OutcomePlaced text (finished d scope mark fs body? stop outer) :=
        fun hstop hfs hbody houter =>
    ⟨piecesPlaced_one (placed_directivePiece hmark hstop (hannounced.append hfs) hbody), houter⟩
  have hbare : FaultsPlaced text [] := faultsPlaced_nil
  generalize hturn : directive t (n + 1) scope mark d = o
  cases directive_turn hturn with
  | line => exact hfinished hstop hbare hbare hbare
  | bare => exact hfinished hstop (faultsPlaced_one (spans_ahead hmark hopen)) hbare hbare
  | code _ _ hcode => exact hfinished (hbegun.trans (beyond_codeAt hcode).ahead) hbare hbare hbare
  | codeless _ _ hcode =>
    exact hfinished (hbegun.trans (ahead_codeAt_error hcode)) hbare hbare
      (faultsPlaced_one (spans_codeAt (hbegun.text_eq.trans hmark) hcode))
  | markup =>
    obtain ⟨hfaults, hnodes⟩ := placed_enclosed ih hmark (hbegun.text_eq.trans hmark)
    exact hfinished (hbegun.trans (ahead_enclosed (stepsAhead t n) mark _)) hbare hnodes hfaults

end

theorem stepsPlaced (text : List Char) (t : DirectiveTable) (n : Nat) : StepsPlaced text t n := by
  induction n with
  | zero =>
    refine ⟨fun _ _ _ _ => ?_, fun _ _ _ _ _ => ?_, fun _ _ _ _ => ?_, fun _ _ _ _ => ?_⟩
    · rw [pieces]
      exact ⟨piecesPlaced_nil, faultsPlaced_nil⟩
    · rw [branches]
      exact ⟨faultsPlaced_nil, fun _ h => by cases h⟩
    · rw [arms]
      exact ⟨faultsPlaced_nil, fun _ h => by cases h⟩
    · rw [directive]
      exact ⟨piecesPlaced_nil, faultsPlaced_nil⟩
  | succ n ih =>
    exact ⟨fun scope depth _ => placed_pieces ih scope depth, fun _ chained _ =>
      placed_branches ih chained,
      fun _ _ => placed_arms ih, fun scope _ d => placed_directive ih scope d⟩

section
variable (s : Source) (t : DirectiveTable)

theorem placed_parse : OutcomePlaced s.text.toList
    (pieces t .topLevel (s.text.toList.length + 1) 0 (.start s.text.toList)) :=
  (stepsPlaced s.text.toList t _).pieces .topLevel 0 _ rfl

theorem faultsPlaced_parse :
    FaultsPlaced s.text.toList ((Tree.parse s t).faults ++ nodeFaults (Tree.parse s t).nodes) :=
  (placed_parse s t).faults.append (placed_parse s t).pieces.gather

theorem spans_directives : ∀ d ∈ (Tree.parse s t).directives, Spans s.text.toList d.span := by
  intro d hd
  obtain ⟨⟨n, span⟩, hn, hdn⟩ := List.mem_filterMap.mp hd
  dsimp only at hdn
  split at hdn
  · obtain rfl := Option.some.inj hdn
    rcases mem_gatherFrom hn with ⟨_, h⟩ | ⟨_, hp⟩
    · cases h
    · exact ((placed_parse s t).pieces _ hp).1
  · cases hdn

end

end Templating.Markup
