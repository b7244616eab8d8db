import Mathlib.Data.List.Basic
import Templating.Proofs.Markup.Scanned
import Templating.Proofs.Markup.Sign
import Templating.Proofs.Markup.Turn

/-! The reader scans all code it embeds: by induction on the steps it is given, whatever it reads is
scanned. A scan is begun where no name goes on, so that what stands before the code does not change
how it is read. -/
namespace Templating.Markup
open Code (Balanced Pasted Stop)
open Text (Cursor isBlank continuesName leadingName)
variable {t : DirectiveTable} {c : Cursor}

/-! Places where no name goes on -/

def Fresh (c : Cursor) : Prop := c.before.head?.any continuesName = false

theorem fresh_forward {x : Char} {cs : List Char} (h : c.rest = x :: cs)
    (hx : continuesName x = false) :
    Fresh (c.forward 1) := by
  simp [Fresh, Cursor.before_forward, h, hx]

theorem Fresh.skip (h : Fresh c) {p : Char → Bool}
    (hp : ∀ x, p x = true → continuesName x = false) : Fresh (c.skip p) := by
  have hskip := c.takeWhile_append_rest_skip p
  by_cases hw : c.rest.takeWhile p = []
  · simpa [Cursor.skip, Cursor.past, hw, Cursor.forward] using h
  · rw [Fresh, Cursor.skip, Cursor.past, Cursor.head?_before_forward hskip.symm hw,
      List.getLast?_eq_some_getLast hw]
    exact hp _ (List.all_eq_true.mp List.all_takeWhile _ (List.getLast_mem hw))

/-! Code at a place -/

/-- The boundaries that the reader looks for, none of which goes on with a name. -/
structure Mark (stop : Stop) : Prop where
  mild : stop.Mild
  last : stop.text.getLast?.any continuesName = false

theorem mark_openBrace : Mark .openBrace := ⟨by decide, by decide⟩

theorem mark_fatArrow : Mark .fatArrow := ⟨by decide, by decide⟩

theorem mark_brace : Mark (.closer '\x7d') := ⟨by decide, by decide⟩

theorem mark_parenthesis : Mark (.closer ')') := ⟨by decide, by decide⟩

theorem scanned_codeAt {stop : Stop} (hstop : Mark stop) {code : List Char} {after : Cursor}
    (h : codeAt stop c = .ok (code, after))
    (hc : Fresh c ∨ c.rest.head?.any continuesName = false) :
    Balanced code ∧ Fresh after := by
  unfold codeAt at h
  split at h
  next code' hscan =>
    obtain ⟨rfl, rfl⟩ : code' = code ∧ _ = after := by simpa using h
    obtain ⟨rest, hrest, -⟩ := Code.run_of_scanFrom hscan
    have hbegun : ∀ x, code'.head? = some x → continuesName x = true →
        c.before.head?.any continuesName = false := by
      intro x hx hname
      rcases hc with hc | hc
      · exact hc
      · cases code' with
        | nil => cases hx
        | cons y code' =>
          obtain rfl := Option.some.inj hx
          simp [hrest, hname] at hc
    refine ⟨(Code.balanced_of_scan hstop.mild hscan hbegun).1, ?_⟩
    have htext : stop.text ≠ [] := by cases stop <;> simp [Stop.text]
    have hpast : c.rest = (code' ++ stop.text) ++ rest := by rw [hrest, List.append_assoc]
    have hhead := Cursor.head?_before_forward hpast (by simp [htext])
    rw [List.length_append] at hhead
    rw [Fresh, hhead, List.getLast?_append_of_ne_nil _ htext]
    exact hstop.last
  · cases h

theorem fresh_closeBody {mark after : Cursor} {fs : List Fault}
    (h : closeBody mark c = (true, fs, after)) : Fresh after := by
  unfold closeBody at h
  split at h
  next hrest =>
    cases h
    exact fresh_forward hrest (by decide)
  · cases h

/-! What is read at once -/

section
variable {mark : Cursor} {x : Char} {cs : List Char}

theorem fresh_opened (h : mark.rest.drop 1 = x :: cs) (hx : continuesName x = false) :
    Fresh (mark.forward 2) := by
  have hrest : (mark.forward 1).rest = x :: cs := by rw [Cursor.rest_forward, h]
  have hfresh := fresh_forward hrest hx
  rwa [Cursor.forward_forward] at hfresh

theorem piecesScanned_explicit (h : mark.rest.drop 1 = '(' :: cs) :
    PiecesScanned (explicit mark).val := by
  unfold explicit
  split
  next code after hcode =>
    have hscanned :=
      (scanned_codeAt mark_parenthesis hcode (.inl (fresh_opened h (by decide)))).1.trim
    refine piecesScanned_one ?_
    simpa [Piece.Scanned, Node.Scanned] using hscanned
  · exact piecesScanned_nil

theorem piecesScanned_codeBlock (h : mark.rest.drop 1 = '\x7b' :: cs) :
    PiecesScanned (codeBlock mark).val := by
  unfold codeBlock
  split
  next code after hcode =>
    have hscanned := (scanned_codeAt mark_brace hcode (.inl (fresh_opened h (by decide)))).1
    refine piecesScanned_one ?_
    simpa [Piece.Scanned, Node.Scanned] using hscanned
  · exact piecesScanned_nil

theorem piecesScanned_implicit (mark : Cursor) : PiecesScanned (implicit mark).val := by
  unfold implicit
  dsimp only
  split
  next code hread =>
    have hscanned : Pasted code := .inl (Implicit.balanced_read hread)
    refine piecesScanned_one ?_
    simpa [Piece.Scanned, Node.Scanned] using hscanned
  · exact piecesScanned_nil

theorem piecesScanned_comment (mark : Cursor) : PiecesScanned (comment mark).val := by
  unfold comment
  dsimp only
  split <;> exact piecesScanned_one (by simp [Piece.Scanned, Node.Scanned])

theorem piecesScanned_announced {o : Outcome (List Piece)} (h : announced t mark = .simple o) :
    PiecesScanned o.val := by
  cases announces h with
  | escape | inside | stray => exact piecesScanned_one trivial
  | comment => exact piecesScanned_comment mark
  | explicit hrest => exact piecesScanned_explicit hrest
  | codeBlock hrest => exact piecesScanned_codeBlock hrest
  | implicit => exact piecesScanned_implicit mark

theorem rest_of_choice (h : announced t mark = .choice) :
    (mark.forward 6).rest.head?.any continuesName = false := by
  cases announces h with
  | choice hname =>
    have hdrop := Text.drop_leadingName (a := mark.rest.drop 1) (by rw [hname]; decide)
    rw [hname, List.drop_drop] at hdrop
    rw [Cursor.rest_forward]
    exact hdrop

end

/-! Directives -/

theorem tokensRead_announcement (d : Directive) (mark : Cursor) :
    TokensRead (announcement d mark).tokens :=
  Region.tokensRead_tokensFrom d _ d.tokens _ _

def BodyScanned : Option (DirectiveBody (Located Node)) → Prop
  | none => True
  | some (.code c) => Balanced c.val.toList
  | some (.markup nodes) => NodesScanned nodes

theorem scanned_directivePiece (d : Directive) (scope : Scope) (mark : Cursor)
    {tokens : List (Located DirectiveToken)} (htokens : TokensRead tokens) (faults : List Fault)
      {body? : Option (DirectiveBody (Located Node))}
    (hbody : BodyScanned body?) (stop : Cursor) :
    (directivePiece d scope mark tokens faults body? stop).1.Scanned := by
  rw [directivePiece, Piece.Scanned]
  cases body? with
  | none => rwa [Node.Scanned]
  | some body =>
    cases body with
    | code c =>
      rw [Node.Scanned]
      exact ⟨htokens, hbody⟩
    | markup nodes =>
      rw [Node.Scanned]
      exact ⟨htokens, hbody⟩

/-! Everything that is read -/

/-- What the reader gives in a number of steps is scanned. -/
structure StepsScanned (t : DirectiveTable) (n : Nat) : Prop where
  pieces : ∀ scope depth c, PiecesScanned (pieces t scope n depth c).val
  branches : ∀ mark chained c, Fresh c → ∀ bs, (branches t n mark chained c).val = some bs →
    bs ≠ [] ∧ ClausesScanned bs
  arms : ∀ mark c, Fresh c → ∀ as, (arms t n mark c).val = some as → ClausesScanned as
  directive : ∀ scope mark d, PiecesScanned (directive t n scope mark d).val

section
variable {o : Outcome (Option (List (Clause (Located Node))))} {cs : List (Clause (Located Node))}

theorem scanned_clause {head : List Char} {body : Outcome Nodes} (hhead : Balanced head)
    (hbody : NodesScanned body.val) (ho : ∀ cs, o.val = some cs → ClausesScanned cs)
    (h : (Outcome.clause head body o).val = some cs) :
    cs ≠ [] ∧ ClausesScanned cs := by
  obtain ⟨more, hmore, rfl⟩ := Option.map_eq_some_iff.mp h
  refine ⟨List.cons_ne_nil _ _, ?_⟩
  rw [ClausesScanned, String.toList_ofList]
  exact ⟨hhead.trim, hbody, ho more hmore⟩

theorem scanned_lastClause {head : List Char} {body : Outcome Nodes} (hhead : Balanced head)
    (hbody : NodesScanned body.val)
    (h : (Outcome.lastClause head body).val = some cs) : cs ≠ [] ∧ ClausesScanned cs := by
  obtain rfl := Option.some.inj h
  refine ⟨List.cons_ne_nil _ _, ?_⟩
  rw [ClausesScanned, String.toList_ofList]
  exact ⟨hhead.trim, hbody, trivial⟩

theorem scanned_node {make : List (Clause (Located Node)) → Node}
    (h : ∀ cs, o.val = some cs → (make cs).Scanned)
    (mark : Cursor) : PiecesScanned (o.node make mark).val := by
  intro p hp
  obtain ⟨cs, hcs, rfl⟩ := List.mem_map.mp hp
  exact h cs (Option.mem_toList.mp hcs)

end

section
variable {n : Nat} (ih : StepsScanned t n)
include ih

theorem scanned_construct (scope : Scope) {cs : List Char} (h : c.rest = '@' :: cs) :
    PiecesScanned (construct t scope n c).val := by
  generalize hturn : construct t scope n c = o
  cases constructed hturn with
  | simple ho => exact piecesScanned_announced ho
  | control =>
    refine scanned_node (fun bs hbs => ?_) c
    rw [Node.Scanned]
    exact ih.branches c _ _ (fresh_forward h (by decide)) bs hbs
  | unmatched => exact piecesScanned_nil
  | choice ho hcode =>
    obtain ⟨hscrutinee, hbegun⟩ := scanned_codeAt mark_openBrace hcode (.inr (rest_of_choice ho))
    refine scanned_node (fun as has => ?_) c
    rw [Node.Scanned, String.toList_ofList]
    exact ⟨hscrutinee.trim, ih.arms c _ hbegun as has⟩
  | directive => exact ih.directive scope c _

theorem scanned_pieces (scope : Scope) (depth : Nat) (c : Cursor) :
    PiecesScanned (pieces t scope (n + 1) depth c).val := by
  generalize hturn : pieces t scope (n + 1) depth c = o
  cases pieces_turn hturn with
  | stop => exact piecesScanned_nil
  | literal => exact (piecesScanned_one (p := .text _ _) trivial).append (ih.pieces _ _ _)
  | tag _ hread => exact (Tag.piecesScanned_read hread).append (ih.pieces _ _ _)
  | sign _ hrest => exact (scanned_construct ih scope hrest).append (ih.pieces _ _ _)

theorem scanned_enclosed (mark c : Cursor) : NodesScanned (enclosed t n mark c).val :=
  (ih.pieces .nested 0 c).gather

theorem scanned_branches {mark : Cursor} {chained : Bool} {c : Cursor} (hc : Fresh c)
    {bs : List (Clause (Located Node))}
    (h : (branches t (n + 1) mark chained c).val = some bs) : bs ≠ [] ∧ ClausesScanned bs := by
  generalize hturn : branches t (n + 1) mark chained c = o at h
  cases branches_turn hturn with
  | headless => cases h
  | more hcode hclosed =>
    have hafter : Fresh (enclosed t n mark _).cursor := fresh_closeBody (Prod.ext hclosed rfl)
    refine scanned_clause (scanned_codeAt mark_openBrace hcode (.inl hc)).1
      (scanned_enclosed ih mark _) (fun bs hbs => ?_) h
    exact (ih.branches mark chained _ (hafter.skip fun _ => Text.not_continuesName_of_isBlank)
      bs hbs).2
  | last hcode =>
    exact scanned_lastClause (scanned_codeAt mark_openBrace hcode (.inl hc)).1
      (scanned_enclosed ih mark _) h

theorem scanned_arms {mark c : Cursor} (hc : Fresh c) {as : List (Clause (Located Node))}
    (h : (arms t (n + 1) mark c).val = some as) : ClausesScanned as := by
  have hskip : Fresh (armAt c) := by
    refine hc.skip fun x hx => ?_
    rcases Bool.or_eq_true_iff.mp hx with hx | hx
    · exact Text.not_continuesName_of_isBlank hx
    · obtain rfl := eq_of_beq hx
      decide
  generalize hturn : arms t (n + 1) mark c = o at h
  cases arms_turn hturn with
  | cut | close | unbodied =>
    obtain rfl := Option.some.inj h
    trivial
  | headless => cases h
  | more hcode hclosed =>
    have hafter : Fresh (enclosed t n mark _).cursor := fresh_closeBody (Prod.ext hclosed rfl)
    exact (scanned_clause (scanned_codeAt mark_fatArrow hcode (.inl hskip)).1
      (scanned_enclosed ih mark _)
      (ih.arms mark _ hafter) h).2
  | last hcode =>
    exact (scanned_lastClause (scanned_codeAt mark_fatArrow hcode (.inl hskip)).1
      (scanned_enclosed ih mark _) h).2

theorem scanned_directive (scope : Scope) (mark : Cursor) (d : Directive) :
    PiecesScanned (directive t (n + 1) scope mark d).val := by
  have hpiece := @scanned_directivePiece d scope mark _ (tokensRead_announcement d mark)
  have hbare : ∀ (fs : List Fault) (stop : Cursor) (outer : List Fault),
      PiecesScanned (finished d scope mark fs none stop outer).val :=
    fun fs stop _ => piecesScanned_one (hpiece _ (show BodyScanned none from trivial) stop)
  generalize hturn : directive t (n + 1) scope mark d = o
  cases directive_turn hturn with
  | line | bare | codeless => exact hbare _ _ _
  | code _ hopen hcode =>
    have hcode' := (scanned_codeAt mark_brace hcode (.inl (fresh_forward hopen (by decide)))).1
    refine piecesScanned_one (hpiece _ ?_ _)
    rwa [BodyScanned, String.toList_ofList]
  | markup =>
    refine piecesScanned_one (hpiece _ ?_ _)
    exact scanned_enclosed ih mark _

end

theorem stepsScanned (t : DirectiveTable) (n : Nat) : StepsScanned t n := by
  induction n with
  | zero =>
    refine ⟨fun _ _ _ => ?_, fun _ _ _ _ bs h => ?_, fun _ _ _ as h => ?_, fun _ _ _ => ?_⟩
    · rw [pieces]
      exact piecesScanned_nil
    · rw [branches] at h
      cases h
    · rw [arms] at h
      cases h
    · rw [directive]
      exact piecesScanned_nil
  | succ n ih =>
    exact ⟨scanned_pieces ih, fun _ _ _ hc _ => scanned_branches ih hc, fun _ _ hc _ =>
      scanned_arms ih hc,
      scanned_directive ih⟩

theorem nodesScanned_parse (s : Source) (t : DirectiveTable) :
    NodesScanned (Tree.parse s t).nodes :=
  ((stepsScanned t _).pieces .topLevel 0 _).gather

end Templating.Markup
