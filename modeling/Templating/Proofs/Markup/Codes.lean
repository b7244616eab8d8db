import Templating.Proofs.Markup.Located
import Templating.Proofs.Markup.WellFormed

/-! What the reader reports, by the codes: bad text, and directives that are malformed or not at the
top level. -/
namespace Templating.Markup
open Text (Cursor isBlank)
open Text.Cursor
variable {t : DirectiveTable}

def readerCodes : List String := ["STC1000", "STC1004", "STC1005"]

def Coded (fs : List Fault) : Prop := ∀ f ∈ fs, f.problem.code ∈ readerCodes

section
variable {fs gs : List Fault}

theorem coded_nil : Coded [] := fun _ h => by cases h

theorem coded_one {f : Fault} (h : f.problem.code ∈ readerCodes) : Coded [f] := by
  intro g hg
  rwa [List.mem_singleton.mp hg]

theorem coded_text (message : String) (start stop : Nat) : Coded [fault message start stop] :=
  coded_one (List.mem_cons_self (a := "STC1000"))

theorem Coded.append (h : Coded fs) (h' : Coded gs) : Coded (fs ++ gs) := by
  intro f hf
  rcases List.mem_append.mp hf with hf | hf
  · exact h f hf
  · exact h' f hf

theorem coded_malformed {d : Directive} (h : Region.AllMalformed d fs) : Coded fs := by
  intro f hf
  obtain ⟨reason, start, stop, rfl⟩ := h f hf
  exact List.mem_cons_of_mem _ List.mem_cons_self

end

/-! Pieces -/

def PiecesCoded (ps : List Piece) : Prop := ∀ n span alone, .node n span alone ∈ ps → Coded n.faults

structure OutcomeCoded (o : Outcome (List Piece)) : Prop where
  pieces : PiecesCoded o.val
  faults : Coded o.faults

section
variable {ps qs : List Piece} {n : Node} {span : Span} {alone : Bool}

theorem piecesCoded_nil : PiecesCoded [] := fun _ _ _ h => by cases h

theorem piecesCoded_text (cs : List Char) (offset : Nat) : PiecesCoded [.text cs offset] :=
  fun _ _ _ h => by cases List.mem_singleton.mp h

theorem piecesCoded_node (h : Coded n.faults) : PiecesCoded [.node n span alone] := by
  intro n' span' alone' hn
  cases List.mem_singleton.mp hn
  exact h

theorem PiecesCoded.append (h : PiecesCoded ps) (h' : PiecesCoded qs) : PiecesCoded (ps ++ qs) := by
  intro n span alone hn
  rcases List.mem_append.mp hn with hn | hn
  · exact h n span alone hn
  · exact h' n span alone hn

theorem OutcomeCoded.followedBy {o o' : Outcome (List Piece)} (h : OutcomeCoded o)
    (h' : OutcomeCoded o') :
    OutcomeCoded (o.followedBy o') := ⟨h.pieces.append h'.pieces, h.faults.append h'.faults⟩

theorem PiecesCoded.gather (h : PiecesCoded ps) : Coded (nodeFaults (gather ps)) := by
  intro f hf
  obtain ⟨m, hm, hf⟩ := mem_nodeFaults hf
  rcases mem_gatherFrom hm with ⟨s, hs⟩ | ⟨alone, hp⟩
  · rw [hs, Node.faults] at hf
    · cases hf
    all_goals intros; simp_all
  · exact h _ _ _ hp f hf

theorem outcomeCoded_node (hn : n.faults = []) {fs : List Fault} (hfs : Coded fs) (c : Cursor) :
    OutcomeCoded ⟨[.node n span alone], fs, c⟩ := ⟨piecesCoded_node (hn ▸ coded_nil), hfs⟩

theorem outcomeCoded_literal (cs : List Char) (c d : Cursor) : OutcomeCoded (.literal cs c d) :=
  ⟨piecesCoded_text cs _, coded_nil⟩

theorem outcomeCoded_failed {f : Fault} (h : f.problem.code ∈ readerCodes) (c : Cursor) :
    OutcomeCoded ⟨[], [f], c⟩ :=
  ⟨piecesCoded_nil, coded_one h⟩

end

theorem code_codeAt {stop : Code.Stop} {c resume : Cursor} {f : Fault}
    (h : codeAt stop c = .error (f, resume)) :
    f.problem.code ∈ readerCodes := by
  obtain ⟨read, e, -, hrecover⟩ := codeAt_error h
  rw [show f = (recover c read e).1 from congrArg Prod.fst hrecover]
  exact List.mem_cons_self

theorem coded_closeBody (mark c : Cursor) : Coded (closeBody mark c).2.1 := by
  unfold closeBody
  split
  · exact coded_nil
  · exact coded_text _ _ _

/-! What is read at once -/

section
variable {mark : Cursor}

theorem coded_comment : OutcomeCoded (comment mark) := by
  unfold comment
  dsimp only
  split
  · exact outcomeCoded_node (by rw [Node.faults] <;> simp) coded_nil _
  · exact outcomeCoded_node (by rw [Node.faults] <;> simp) (coded_text _ _ _) _

theorem coded_explicit : OutcomeCoded (explicit mark) := by
  unfold explicit
  split
  · exact outcomeCoded_node (by rw [Node.faults] <;> simp) coded_nil _
  next hcode => exact outcomeCoded_failed (code_codeAt hcode) _

theorem coded_codeBlock : OutcomeCoded (codeBlock mark) := by
  unfold codeBlock
  split
  · exact outcomeCoded_node (by rw [Node.faults] <;> simp) coded_nil _
  next hcode => exact outcomeCoded_failed (code_codeAt hcode) _

theorem coded_implicit : OutcomeCoded (implicit mark) := by
  unfold implicit
  dsimp only
  split
  · exact outcomeCoded_node (by rw [Node.faults] <;> simp) coded_nil _
  · exact outcomeCoded_failed List.mem_cons_self _

theorem coded_stray : OutcomeCoded (stray mark) :=
  ⟨piecesCoded_text _ _, coded_one List.mem_cons_self⟩

theorem coded_announced {o : Outcome (List Piece)} (ho : announced t mark = .simple o) :
    OutcomeCoded o := by
  cases announces ho with
  | escape | inside => exact outcomeCoded_literal _ _ _
  | stray => exact coded_stray
  | comment => exact coded_comment
  | explicit => exact coded_explicit
  | codeBlock => exact coded_codeBlock
  | implicit => exact coded_implicit

theorem coded_directivePiece {d : Directive} {scope : Scope} {faults : List Fault}
    {body? : Option (DirectiveBody (Located Node))} {stop : Cursor}
      (hfaults : Region.AllMalformed d faults)
    (hbody : Coded (bodyFaults body?)) : PiecesCoded
      [(directivePiece d scope mark (announcement d mark).tokens
        ((announcement d mark).faults ++ faults) body? stop).1] := by
  refine piecesCoded_node ?_
  rw [faults_directive]
  refine (((coded_malformed (Region.allMalformed_tokensFrom d _ d.tokens _ _)).append
    (coded_malformed hfaults)).append ?_).append
    hbody
  split
  · exact coded_one (List.mem_cons_of_mem _ (List.mem_cons_of_mem _ List.mem_cons_self))
  · exact coded_nil

end

/-! Everything that is read -/

structure StepsCoded (t : DirectiveTable) (n : Nat) : Prop where
  pieces : ∀ scope depth c, OutcomeCoded (pieces t scope n depth c)
  branches : ∀ mark chained c, Coded (branches t n mark chained c).faults ∧
    ∀ bs, (branches t n mark chained c).val = some bs → Coded (clauseFaults bs)
  arms : ∀ mark c, Coded (arms t n mark c).faults ∧ ∀ as, (arms t n mark c).val = some as →
    Coded (clauseFaults as)
  directive : ∀ scope mark d, OutcomeCoded (directive t n scope mark d)

section
variable {n : Nat}

theorem coded_tagText (cs : List Char) (offset : Nat) : PiecesCoded (Tag.text cs offset) := by
  unfold Tag.text
  split
  · exact piecesCoded_nil
  · exact piecesCoded_text _ _

theorem coded_attributed {markup : List Char} {offset : Nat} {c e : Cursor} {ps : List Piece}
    (h : Tag.Attributed markup offset c ps e) : PiecesCoded ps := by
  induction h with
  | close => exact coded_tagText _ _
  | plain _ _ _ ih | literal _ _ _ _ _ _ ih => exact ih
  | parts _ _ _ _ _ _ ih =>
    refine (coded_tagText _ _).append (PiecesCoded.append (piecesCoded_node ?_) ih)
    rw [Node.faults] <;> simp [coded_nil]

theorem coded_read {c e : Cursor} {ps : List Piece} (h : Tag.read? c = some (ps, e)) :
    PiecesCoded ps := by
  obtain ⟨name, d, -, -, hread⟩ := Tag.attributed_of_read h
  exact coded_attributed hread

section
variable {o : Outcome (Option (List (Clause (Located Node))))}

theorem coded_clause (head : List Char) {body : Outcome Nodes}
    (hbody : Coded body.faults ∧ Coded (nodeFaults body.val))
    (ho : Coded o.faults ∧ ∀ cs, o.val = some cs → Coded (clauseFaults cs)) :
    Coded (Outcome.clause head body o).faults ∧
      ∀ cs, (Outcome.clause head body o).val = some cs → Coded (clauseFaults cs) := by
  refine ⟨hbody.1.append ho.1, fun cs h => ?_⟩
  obtain ⟨more, hmore, rfl⟩ := Option.map_eq_some_iff.mp h
  exact hbody.2.append (ho.2 more hmore)

theorem coded_lastClause (head : List Char) {body : Outcome Nodes}
    (hbody : Coded body.faults ∧ Coded (nodeFaults body.val)) :
    Coded (Outcome.lastClause head body).faults ∧
      ∀ cs, (Outcome.lastClause head body).val = some cs → Coded (clauseFaults cs) := by
  refine ⟨hbody.1, fun cs h => ?_⟩
  obtain rfl := Option.some.inj h
  exact hbody.2.append coded_nil

theorem coded_node {make : List (Clause (Located Node)) → Node}
    (hmake : ∀ cs, (make cs).faults = clauseFaults cs)
    (ho : Coded o.faults ∧ ∀ cs, o.val = some cs → Coded (clauseFaults cs)) (mark : Cursor) :
    OutcomeCoded (o.node make mark) := by
  refine ⟨fun m span alone hm => ?_, ho.1⟩
  obtain ⟨cs, hcs, heq⟩ := List.mem_map.mp hm
  cases heq
  rw [hmake]
  exact ho.2 cs (Option.mem_toList.mp hcs)

end

variable (ih : StepsCoded t n)
include ih

theorem coded_construct (scope : Scope) (c : Cursor) : OutcomeCoded (construct t scope n c) := by
  generalize hturn : construct t scope n c = o
  cases constructed hturn with
  | simple ho => exact coded_announced ho
  | control => exact coded_node (fun _ => by rw [Node.faults]) (ih.branches _ _ _) c
  | unmatched _ hcode => exact outcomeCoded_failed (code_codeAt hcode) _
  | choice => exact coded_node (fun _ => by rw [Node.faults]) (ih.arms _ _) c
  | directive => exact ih.directive scope c _

theorem coded_pieces (scope : Scope) (depth : Nat) (c : Cursor) :
    OutcomeCoded (pieces t scope (n + 1) depth c) := by
  generalize hturn : pieces t scope (n + 1) depth c = o
  cases pieces_turn hturn with
  | stop => exact ⟨piecesCoded_nil, coded_nil⟩
  | literal => exact (outcomeCoded_literal _ _ _).followedBy (ih.pieces scope _ _)
  | tag _ hread =>
    exact OutcomeCoded.followedBy (o := ⟨_, [], _⟩) ⟨coded_read hread, coded_nil⟩
      (ih.pieces scope _ _)
  | sign => exact (coded_construct ih scope c).followedBy (ih.pieces scope _ _)

theorem coded_enclosed (mark c : Cursor) :
    Coded (enclosed t n mark c).faults ∧ Coded (nodeFaults (enclosed t n mark c).val) :=
  have hbody := ih.pieces .nested 0 c
  ⟨hbody.faults.append (coded_closeBody mark _), hbody.pieces.gather⟩

theorem coded_branches (mark : Cursor) (chained : Bool) (c : Cursor) :
    Coded (branches t (n + 1) mark chained c).faults ∧
      ∀ bs, (branches t (n + 1) mark chained c).val = some bs → Coded (clauseFaults bs) := by
  generalize hturn : branches t (n + 1) mark chained c = o
  cases branches_turn hturn with
  | headless hcode => exact ⟨coded_one (code_codeAt hcode), fun _ h => by cases h⟩
  | more => exact coded_clause _ (coded_enclosed ih mark _) (ih.branches mark chained _)
  | last => exact coded_lastClause _ (coded_enclosed ih mark _)

theorem coded_arms (mark c : Cursor) :
    Coded (arms t (n + 1) mark c).faults ∧ ∀ as, (arms t (n + 1) mark c).val = some as →
      Coded (clauseFaults as) := by
  have hempty : ∀ as, some [] = some as → Coded (clauseFaults as) := fun as h => by
    obtain rfl := Option.some.inj h
    exact coded_nil
  generalize hturn : arms t (n + 1) mark c = o
  cases arms_turn hturn with
  | cut | unbodied => exact ⟨coded_text _ _ _, hempty⟩
  | close => exact ⟨coded_nil, hempty⟩
  | headless hcode => exact ⟨coded_one (code_codeAt hcode), fun _ h => by cases h⟩
  | more => exact coded_clause _ (coded_enclosed ih mark _) (ih.arms mark _)
  | last => exact coded_lastClause _ (coded_enclosed ih mark _)

theorem coded_directive (scope : Scope) (mark : Cursor) (d : Directive) :
    OutcomeCoded (directive t (n + 1) scope mark d) := by
  have hnone := Region.allMalformed_nil d
  generalize hturn : directive t (n + 1) scope mark d = o
  cases directive_turn hturn with
  | line | code => exact ⟨coded_directivePiece hnone coded_nil, coded_nil⟩
  | bare => exact ⟨coded_directivePiece (Region.allMalformed_one d _ _ _) coded_nil, coded_nil⟩
  | codeless _ _ hcode =>
    exact ⟨coded_directivePiece hnone coded_nil, coded_one (code_codeAt hcode)⟩
  | markup =>
    obtain ⟨hfaults, hnodes⟩ := coded_enclosed ih mark ((opening d mark).forward 1)
    exact ⟨coded_directivePiece hnone hnodes, hfaults⟩

end

theorem stepsCoded (t : DirectiveTable) (n : Nat) : StepsCoded t n := by
  induction n with
  | zero =>
    refine ⟨fun _ _ _ => ?_, fun _ _ _ => ?_, fun _ _ => ?_, fun _ _ _ => ?_⟩
    · rw [pieces]
      exact ⟨piecesCoded_nil, coded_nil⟩
    · rw [branches]
      exact ⟨coded_nil, fun _ h => by cases h⟩
    · rw [arms]
      exact ⟨coded_nil, fun _ h => by cases h⟩
    · rw [directive]
      exact ⟨piecesCoded_nil, coded_nil⟩
  | succ n ih => exact ⟨coded_pieces ih, coded_branches ih, coded_arms ih, coded_directive ih⟩

theorem coded_parse (s : Source) (t : DirectiveTable) :
    Coded ((Tree.parse s t).faults ++ nodeFaults (Tree.parse s t).nodes) :=
  let h := (stepsCoded t (s.text.toList.length + 1)).pieces .topLevel 0 (.start s.text.toList)
  h.faults.append h.pieces.gather

end Templating.Markup
