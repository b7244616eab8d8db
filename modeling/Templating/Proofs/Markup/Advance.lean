import Templating.Proofs.Code.Extent
import Templating.Proofs.Markup.Derivation
import Templating.Proofs.Markup.Sign
import Templating.Proofs.Markup.Turn

/-! Reading moves on: whatever is read ends further on in the text than it began, and where it
cannot be read, reading goes on no earlier than where that was found. -/
namespace Templating.Markup
open Code (Stop Halted)
open Text (Cursor isBlank leadingName)
open Text.Cursor
variable {t : DirectiveTable} {c mark : Cursor} {x : Char} {cs : List Char}

/-! Code and what comes after it -/

theorem ahead_recover (c : Cursor) (read : List Char) (e : Code.ScanError) :
    Ahead c (recover c read e).2 := by
  have hbad : Ahead c (c.past read) := ahead_past c read
  unfold recover
  dsimp only
  split
  · exact hbad.trans (ahead_forward _ 1)
  · exact hbad.trans (ahead_forward _ 1)
  · exact hbad.trans (ahead_toEnd _)

section
variable {stop : Stop} {code : List Char} {after : Cursor}

theorem codeAt_ok (h : codeAt stop c = .ok (code, after)) :
    c.rest = code ++ (stop.text ++ after.rest) ∧ after = c.forward (code ++ stop.text).length := by
  unfold codeAt at h
  split at h
  next code' hscan =>
    obtain ⟨rfl, rfl⟩ := Prod.mk.inj (Except.ok.inj h)
    obtain ⟨rest, hrest⟩ := Code.prefix_of_scan hscan
    have hall : c.rest = (code' ++ stop.text) ++ rest := by rw [hrest, List.append_assoc]
    rw [← List.length_append, rest_forward_of_append hall]
    exact ⟨hrest, rfl⟩
  · cases h

theorem beyond_codeAt (h : codeAt stop c = .ok (code, after)) : Beyond c after := by
  obtain ⟨hrest, rfl⟩ := codeAt_ok h
  refine ⟨ahead_forward c _, ?_⟩
  have hstop : 0 < stop.text.length := by cases stop <;> simp [Stop.text]
  have hlen := congrArg List.length hrest
  rw [List.length_append, List.length_append] at hlen
  omega

theorem codeAt_error {f : Fault} {resume : Cursor} (h : codeAt stop c = .error (f, resume)) :
    ∃ read e, Halted c.rest read e ∧ (f, resume) = recover c read e := by
  unfold codeAt at h
  split at h
  · cases h
  next read e hscan => exact ⟨read, e, Code.halted_of_scan hscan, (Except.error.inj h).symm⟩

theorem ahead_codeAt_error {f : Fault} {resume : Cursor} (h : codeAt stop c = .error (f, resume)) :
    Ahead c resume := by
  obtain ⟨read, e, -, hrecover⟩ := codeAt_error h
  rw [show resume = (recover c read e).2 from congrArg Prod.snd hrecover]
  exact ahead_recover c read e

end

theorem ahead_skipLineEnd (c : Cursor) : Ahead c (skipLineEnd c) := by
  unfold skipLineEnd
  dsimp only
  split
  · exact ahead_forward c _
  · exact ahead_refl c

theorem ahead_closeBody (mark c : Cursor) : Ahead c (closeBody mark c).2.2 := by
  unfold closeBody
  split
  · exact ahead_forward c 1
  · exact ahead_toEnd c

/-! What is read at once -/

section
variable (h : mark.rest = '@' :: cs)
include h

theorem beyond_sign (k : Nat) : Beyond mark (mark.forward (k + 1)) := beyond_forward (by simp [h]) k

theorem beyond_comment : Beyond mark (comment mark).cursor := by
  unfold comment
  dsimp only
  split
  · exact (beyond_sign h 1).trans (ahead_forward _ _)
  · exact (beyond_sign h 1).trans (ahead_toEnd _)

theorem beyond_explicit : Beyond mark (explicit mark).cursor := by
  unfold explicit
  split
  next hcode => exact (beyond_sign h 1).trans (beyond_codeAt hcode).ahead
  next hcode => exact (beyond_sign h 1).trans (ahead_codeAt_error hcode)

theorem beyond_codeBlock : Beyond mark (codeBlock mark).cursor := by
  unfold codeBlock
  split
  next code after hcode =>
    have hafter := (beyond_sign h 1).trans (beyond_codeAt hcode).ahead
    dsimp only
    split
    · exact hafter.trans (ahead_skipLineEnd after)
    · exact hafter
  next hcode => exact (beyond_sign h 1).trans (ahead_codeAt_error hcode)

theorem beyond_implicit : Beyond mark (implicit mark).cursor := by
  unfold implicit
  dsimp only
  split
  · exact (beyond_sign h 0).trans (ahead_past _ _)
  · exact (beyond_sign h 0).trans (ahead_recover _ _ _)

theorem beyond_announced {o : Outcome (List Piece)} (ho : announced t mark = .simple o) :
    Beyond mark o.cursor := by
  cases announces ho with
  | escape => exact beyond_sign h 1
  | inside => exact beyond_sign h 0
  | stray => exact beyond_sign h 0
  | comment => exact beyond_comment h
  | explicit => exact beyond_explicit h
  | codeBlock => exact beyond_codeBlock h
  | implicit => exact beyond_implicit h

theorem beyond_announcement (d : Directive) : Beyond mark (announcement d mark).stop :=
  (beyond_sign h _).trans (ahead_past _ _)

end

theorem ahead_directiveEnd (d : Directive) (mark stop : Cursor) :
    Ahead stop (if mark.atLineStart || d.kind == .line then skipLineEnd stop else stop) := by
  split
  · exact ahead_skipLineEnd stop
  · exact ahead_refl stop

/-! Tags -/

namespace Tag

theorem Attributed.beyond {markup : List Char} {offset : Nat} {c e : Cursor} {ps : List Piece}
    (h : Attributed markup offset c ps e) : Beyond c e := by
  induction h with
  | close he hu hend =>
    refine ⟨he, ?_⟩
    have hpos := List.length_pos_iff.mpr (List.ne_nil_of_mem (List.mem_of_getLast? hend))
    rw [hu, List.length_append]
    omega
  | plain hd _ _ ih => exact hd.beyond ih
  | literal hv _ _ hvalue _ _ ih | parts hv _ _ hvalue _ _ ih => exact (hvalue.behind hv).beyond ih

theorem beyond_read {c e : Cursor} {ps : List Piece} (h : read? c = some (ps, e)) : Beyond c e := by
  obtain ⟨name, d, hd, -, hread⟩ := attributed_of_read h
  exact hd.beyond hread.beyond

end Tag

/-! Bodies in bodies -/

/-- Whatever the reader is asked for, it ends no earlier than it began. -/
structure StepsAhead (t : DirectiveTable) (n : Nat) : Prop where
  pieces : ∀ scope depth c, Ahead c (pieces t scope n depth c).cursor
  branches : ∀ mark chained c, Ahead c (branches t n mark chained c).cursor
  arms : ∀ mark c, Ahead c (arms t n mark c).cursor
  directive : ∀ scope mark d, Ahead mark (directive t n scope mark d).cursor

section
variable {n : Nat} (ih : StepsAhead t n)
include ih

theorem ahead_enclosed (mark c : Cursor) : Ahead c (enclosed t n mark c).cursor :=
  (ih.pieces .nested 0 c).trans (ahead_closeBody mark _)

theorem ahead_directive (scope : Scope) (mark : Cursor) (d : Directive) :
    Ahead (announcement d mark).stop (directive t (n + 1) scope mark d).cursor := by
  have hbegun : Ahead (announcement d mark).stop ((opening d mark).forward 1) :=
    (ahead_skip _ _).trans (ahead_forward _ 1)
  generalize hturn : directive t (n + 1) scope mark d = o
  cases directive_turn hturn with
  | line | bare => exact ahead_directiveEnd d mark _
  | code _ _ hcode =>
    exact (hbegun.trans (beyond_codeAt hcode).ahead).trans (ahead_directiveEnd d mark _)
  | codeless _ _ hcode =>
    exact (hbegun.trans (ahead_codeAt_error hcode)).trans (ahead_directiveEnd d mark _)
  | markup => exact (hbegun.trans (ahead_enclosed ih mark _)).trans (ahead_directiveEnd d mark _)

theorem ahead_construct (scope : Scope) (h : c.rest = '@' :: cs) :
    Ahead c (construct t scope n c).cursor := by
  generalize hturn : construct t scope n c = o
  cases constructed hturn with
  | simple ho => exact (beyond_announced h ho).ahead
  | control => exact (ahead_forward c 1).trans (ih.branches _ _ _)
  | unmatched _ hcode => exact (ahead_forward c 6).trans (ahead_codeAt_error hcode)
  | choice _ hcode =>
    exact ((ahead_forward c 6).trans (beyond_codeAt hcode).ahead).trans (ih.arms _ _)
  | directive => exact ih.directive _ _ _

theorem ahead_pieces (scope : Scope) (depth : Nat) (c : Cursor) :
    Ahead c (pieces t scope (n + 1) depth c).cursor := by
  generalize hturn : pieces t scope (n + 1) depth c = o
  cases pieces_turn hturn with
  | stop => exact ahead_refl c
  | literal => exact (ahead_forward c 1).trans (ih.pieces _ _ _)
  | tag _ hread => exact (Tag.beyond_read hread).ahead.trans (ih.pieces _ _ _)
  | sign _ hrest => exact (ahead_construct ih scope hrest).trans (ih.pieces _ _ _)

theorem ahead_branches (mark : Cursor) (chained : Bool) (c : Cursor) :
    Ahead c (branches t (n + 1) mark chained c).cursor := by
  generalize hturn : branches t (n + 1) mark chained c = o
  cases branches_turn hturn with
  | headless hcode => exact ahead_codeAt_error hcode
  | more hcode =>
    exact (((beyond_codeAt hcode).ahead.trans (ahead_enclosed ih mark _)).trans
      (ahead_skip _ _)).trans (ih.branches _ _ _)
  | last hcode => exact (beyond_codeAt hcode).ahead.trans (ahead_enclosed ih mark _)

theorem ahead_arms (mark c : Cursor) : Ahead c (arms t (n + 1) mark c).cursor := by
  have hskip : Ahead c (armAt c) := ahead_skip c _
  have hopen : ∀ arrow : Cursor, Ahead arrow ((arrow.skip isBlank).forward 1) :=
    fun arrow => (ahead_skip arrow _).trans (ahead_forward _ 1)
  generalize hturn : arms t (n + 1) mark c = o
  cases arms_turn hturn with
  | cut => exact hskip
  | close => exact hskip.trans (ahead_forward _ 1)
  | headless hcode => exact hskip.trans (ahead_codeAt_error hcode)
  | more hcode =>
    exact (((hskip.trans (beyond_codeAt hcode).ahead).trans (hopen _)).trans
      (ahead_enclosed ih mark _)).trans (ih.arms _ _)
  | last hcode =>
    exact ((hskip.trans (beyond_codeAt hcode).ahead).trans (hopen _)).trans
      (ahead_enclosed ih mark _)
  | unbodied hcode hafter =>
    have hbody := (hskip.trans (beyond_codeAt hcode).ahead).trans (ahead_skip _ isBlank)
    rcases hafter with ⟨code, hcode⟩ | rfl
    · exact hbody.trans (beyond_codeAt hcode).ahead
    · exact hbody.trans (ahead_toEnd _)

end

theorem stepsAhead (t : DirectiveTable) (n : Nat) : StepsAhead t n := by
  induction n with
  | zero =>
    refine ⟨fun _ _ c => ?_, fun _ _ c => ?_, fun _ c => ?_, fun _ mark _ => ?_⟩
    · rw [pieces]
      exact ahead_refl c
    · rw [branches]
      exact ahead_refl c
    · rw [arms]
      exact ahead_refl c
    · rw [directive]
      exact ahead_refl mark
  | succ n ih =>
    refine ⟨ahead_pieces ih, ahead_branches ih, ahead_arms ih, fun scope mark d => ?_⟩
    have hstop : Ahead mark (announcement d mark).stop :=
      (ahead_forward mark _).trans (ahead_past _ _)
    exact hstop.trans (ahead_directive ih scope mark d)

theorem beyond_construct (t : DirectiveTable) (scope : Scope) (n : Nat) (h : c.rest = '@' :: cs) :
    Beyond c (construct t scope (n + 1) c).cursor := by
  have hsteps := stepsAhead t (n + 1)
  generalize hturn : construct t scope (n + 1) c = o
  cases constructed hturn with
  | simple ho => exact beyond_announced h ho
  | control => exact (beyond_sign h 0).trans (hsteps.branches _ _ _)
  | unmatched _ hcode => exact (beyond_sign h 5).trans (ahead_codeAt_error hcode)
  | choice _ hcode =>
    exact (beyond_sign h 5).trans ((beyond_codeAt hcode).ahead.trans (hsteps.arms _ _))
  | directive => exact (beyond_announcement h _).trans (ahead_directive (stepsAhead t n) _ _ _)

end Templating.Markup
