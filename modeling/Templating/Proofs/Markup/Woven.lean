import Templating.Proofs.Markup.Strand
import Templating.Proofs.Markup.WellFormed

/-! What is read of a text follows it piece by piece: literals with their sources one behind the
other, nodes, and stretches that are skipped because they cannot be read, where
an error is reported. -/
namespace Templating.Markup
open Text (Cursor isBlank)
open Text.Cursor
variable {t : DirectiveTable} {F : List Fault}

/-- An error is reported between two offsets. -/
def Broken (F : List Fault) (i j : Nat) : Prop :=
  ∃ f ∈ F, f.severity = .error ∧ i ≤ f.span.start ∧ f.span.start < j

/-- The node takes the line for itself if there is nothing else on it. -/
def Node.takesLine : Node → Bool
  | .code _ | .directive _ => true
  | _ => false

/-- The pieces are read of the text between two places. -/
inductive Woven (F : List Fault) : Cursor → List Piece → Cursor → Prop
  | done (a : Cursor) : Woven F a [] a
  | skip {a b e : Cursor} {ps : List Piece} (hb : Ahead a b)
      (hbroken : Broken F a.offset (b.offset + 1)) (h : Woven F b ps e) :
      Woven F a ps e
  | literal {a e : Cursor} {l : Literal} {ps : List Piece} (hl : l.Stands a)
      (hnext : l.Ended ∨ ∃ n span qs, ps = .node n span false :: qs)
      (h : Woven F (a.past l.source) ps e) :
      Woven F a (.text l.text a.offset :: ps) e
  | node {a b e : Cursor} {n : Node} {span : Span} {alone : Bool} {ps : List Piece} (hb : Ahead a b)
      (hn : n.isMarkup = false)
      (hstart : span.start = a.offset)
      (halone : alone = true → a.atLineStart = true ∧ n.takesLine = true) (h : Woven F b ps e) :
      Woven F a (.node n span alone :: ps) e

section
variable {a b c d e : Cursor} {ps qs : List Piece} {i j k : Nat}

theorem Broken.mono (h : Broken F i j) (hi : k ≤ i) : Broken F k j := by
  obtain ⟨f, hf, herror, hstart, hstop⟩ := h
  exact ⟨f, hf, herror, hi.trans hstart, hstop⟩

theorem Broken.weaken (h : Broken F i j) (hj : j ≤ k) : Broken F i k := by
  obtain ⟨f, hf, herror, hstart, hstop⟩ := h
  exact ⟨f, hf, herror, hstart, Nat.lt_of_lt_of_le hstop hj⟩

theorem Woven.append (h : Woven F a ps b) (h' : Woven F b qs c) : Woven F a (ps ++ qs) c := by
  induction h with
  | done => exact h'
  | skip hb hbroken _ ih => exact .skip hb hbroken (ih h')
  | literal hl hnext _ ih =>
    refine .literal hl (hnext.imp_right ?_) (ih h')
    rintro ⟨n, span, rest, rfl⟩
    exact ⟨n, span, rest ++ qs, rfl⟩
  | node hb hn hstart halone _ ih => exact .node hb hn hstart halone (ih h')

theorem Tag.Pieced.woven {mark : Cursor} {u : List Piece} (h : Tag.Pieced a ps e)
    (hmark : mark.text = a.text) (hread : Tag.read? mark = some (u ++ ps, e)) : Woven F a ps e := by
  induction h generalizing u with
  | @close a w v r hw hkept hend =>
    have hv : v ≠ [] := by
      rintro rfl
      rw [hkept.eq_nil] at hend
      cases hend
    exact .literal (l := .tag w v) (.tag hw hkept hv hmark hread rfl) (.inl hend) (.done _)
  | @node a b e w v r x ps hw hkept hb _ ih =>
    have hnode :
        Woven F (a.past w) (.node (.attribute x) ⟨(a.past w).offset, b.offset⟩ false :: ps) e := by
      refine .node hb rfl rfl
        nofun (ih (u :=
          u ++ Tag.text v a.offset ++ [.node (.attribute x) ⟨(a.past w).offset, b.offset⟩ false]) ?_
          ?_)
      · rw [hmark, hb.text_eq, past, text_forward]
      · rw [hread]
        simp
    by_cases hv : v = []
    · obtain rfl := hv
      obtain rfl := hkept.eq_nil
      exact hnode
    · have htext : Tag.text v a.offset = [.text v a.offset] := by simp [Tag.text, hv]
      rw [htext, List.singleton_append] at hread ⊢
      exact .literal (l := .tag w v) (.tag hw hkept hv hmark hread rfl) (.inr ⟨_, _, _, rfl⟩) hnode

theorem Tag.Pieced.exists_attribute (h : Tag.Pieced a ps e) {n : Node} {span : Span} {alone : Bool}
    (hn : .node n span alone ∈ ps) : ∃ x, n = .attribute x := by
  have htext : ∀ (v : List Char) (offset : Nat), .node n span alone ∉ Tag.text v offset := by
    intro v offset hmem
    unfold Tag.text at hmem
    split at hmem
    · cases hmem
    · cases List.mem_singleton.mp hmem
  induction h with
  | close => cases List.mem_singleton.mp hn
  | @node a b e w v r x ps hw hkept hb _ ih =>
    rcases List.mem_append.mp hn with hn | hn
    · exact absurd hn (htext _ _)
    · rcases List.mem_cons.mp hn with heq | hn
      · cases heq
        exact ⟨x, rfl⟩
      · exact ih hn

theorem Tag.woven_read (h : Tag.read? a = some (ps, e)) : Woven F a ps e :=
  (Tag.pieced_read h).woven (u := []) rfl h

end

/-! Lists of nodes in each other -/

/-- The list of nodes itself, or a body in it at any depth. -/
inductive Level : Nodes → Nodes → Prop
  | top (ns : Nodes) : Level ns ns
  | body {ns body more : Nodes} {m : Located Node} (hm : m ∈ ns) (hbody : body ∈ m.val.bodies)
      (h : Level body more) : Level ns more

/-- The nodes, and those of the bodies in them, are gathered of pieces that are read of the text. -/
def Traced (F : List Fault) (text : List Char) (ns : Nodes) : Prop :=
  ∀ ns', Level ns ns' → ∃ a ps e, a.text = text ∧ Woven F a ps e ∧ ns' = gather ps

def BodiesTraced (F : List Fault) (text : List Char) (ps : List Piece) : Prop :=
  ∀ n span alone, .node n span alone ∈ ps → ∀ body ∈ n.bodies, Traced F text body

/-- What is read from a cursor on, if all that is wrong with it is reported. -/
def OutcomeWoven (F : List Fault) (c : Cursor) (o : Outcome (List Piece)) : Prop :=
  (∀ f ∈ o.faults, f ∈ F) → Woven F c o.val o.cursor ∧ BodiesTraced F c.text o.val

/-- The clauses that are read from a cursor on; if there are none, that is an error. -/
def OutcomeTraced (F : List Fault) (c : Cursor)
    (o : Outcome (Option (List (Clause (Located Node))))) : Prop :=
  (∀ f ∈ o.faults, f ∈ F) → (o.val = none → Broken F c.offset (o.cursor.offset + 1)) ∧
    ∀ cs, o.val = some cs → ∀ b ∈ cs, Traced F c.text b.body

section
variable {a c d e : Cursor} {text : List Char} {ps qs : List Piece} {o o' : Outcome (List Piece)}
  {n : Node} {span : Span}
  {alone : Bool} {fs : List Fault}

theorem bodiesTraced_nil : BodiesTraced F text [] := fun _ _ _ h => by cases h

theorem bodiesTraced_text (cs : List Char) (offset : Nat) : BodiesTraced F text [.text cs offset] :=
  fun _ _ _ h => by cases List.mem_singleton.mp h

theorem bodiesTraced_node (h : ∀ body ∈ n.bodies, Traced F text body) :
    BodiesTraced F text [.node n span alone] := by
  intro n' span' alone' hn
  cases List.mem_singleton.mp hn
  exact h

theorem BodiesTraced.append (h : BodiesTraced F text ps) (h' : BodiesTraced F text qs) :
    BodiesTraced F text (ps ++ qs) := by
  intro n span alone hn
  rcases List.mem_append.mp hn with hn | hn
  · exact h n span alone hn
  · exact h' n span alone hn

theorem Woven.traced (h : Woven F a ps e) (ha : a.text = text) (hps : BodiesTraced F text ps) :
    Traced F text (gather ps) := by
  intro ns' hns
  cases hns with
  | top => exact ⟨a, ps, e, ha, h, rfl⟩
  | @body _ body _ m hm hbody hmore =>
    rcases mem_gatherFrom hm with ⟨s, hs⟩ | ⟨alone, hp⟩
    · rw [hs] at hbody
      cases hbody
    · exact hps _ _ _ hp body hbody ns' hmore

theorem OutcomeWoven.followedBy (h : OutcomeWoven F c o) (hahead : Ahead c o.cursor)
    (h' : OutcomeWoven F o.cursor o') :
    OutcomeWoven F c (o.followedBy o') := by
  intro hfs
  obtain ⟨hw, ht⟩ := h fun f hf => hfs f (List.mem_append_left _ hf)
  obtain ⟨hw', ht'⟩ := h' fun f hf => hfs f (List.mem_append_right _ hf)
  rw [hahead.text_eq] at ht'
  exact ⟨hw.append hw', ht.append ht'⟩

theorem outcomeWoven_nil (c : Cursor) (fs : List Fault) : OutcomeWoven F c ⟨[], fs, c⟩ :=
  fun _ => ⟨.done c, bodiesTraced_nil⟩

theorem outcomeWoven_literal {l : Literal} (hl : l.Stands c) (hended : l.Ended) (fs : List Fault)
    (hd : d = c.past l.source) :
    OutcomeWoven F c ⟨[.text l.text c.offset], fs, d⟩ := by
  intro _
  rw [hd]
  exact ⟨.literal hl (.inl hended) (.done _), bodiesTraced_text _ _⟩

theorem outcomeWoven_skip (hd : Ahead c d)
    (h : (∀ f ∈ fs, f ∈ F) → Broken F c.offset (d.offset + 1)) :
    OutcomeWoven F c ⟨[], fs, d⟩ :=
  fun hfs => ⟨.skip hd (h hfs) (.done d), bodiesTraced_nil⟩

theorem outcomeWoven_node {stop : Nat} (hd : Ahead c d) (hn : n.isMarkup = false)
    (halone : alone = true → c.atLineStart = true ∧ n.takesLine = true)
    (hbodies : (∀ f ∈ fs, f ∈ F) → ∀ body ∈ n.bodies, Traced F c.text body) :
    OutcomeWoven F c ⟨[.node n ⟨c.offset, stop⟩ alone], fs, d⟩ :=
  fun hfs => ⟨.node hd hn rfl halone (.done d), bodiesTraced_node (hbodies hfs)⟩

theorem outcomeWoven_plain {stop : Nat} (hd : Ahead c d) (hn : n.isMarkup = false)
    (halone : alone = true → c.atLineStart = true ∧ n.takesLine = true) (hbodies : n.bodies = []) :
    OutcomeWoven F c ⟨[.node n ⟨c.offset, stop⟩ alone], fs, d⟩ :=
  outcomeWoven_node hd hn halone fun _ body hbody => by
    rw [hbodies] at hbody
    cases hbody

theorem Tag.outcomeWoven_read (h : Tag.read? c = some (ps, e)) : OutcomeWoven F c ⟨ps, [], e⟩ := by
  intro _
  refine ⟨Tag.woven_read h, fun n span alone hn body hbody => ?_⟩
  obtain ⟨x, rfl⟩ := (Tag.pieced_read h).exists_attribute hn
  cases hbody

end

/-! What is read at once -/

section
variable {stop : Code.Stop} {c mark resume : Cursor} {cs : List Char} {f : Fault}

theorem broken_recover (c : Cursor) (read : List Char) (e : Code.ScanError)
    (hf : (recover c read e).1 ∈ F) :
    Broken F c.offset ((recover c read e).2.offset + 1) := by
  refine ⟨_, hf, rfl, (ahead_past c read).offset_le, Nat.lt_succ_of_le ?_⟩
  unfold recover
  dsimp only
  split
  · exact (ahead_forward _ 1).offset_le
  · exact (ahead_forward _ 1).offset_le
  · exact (ahead_toEnd _).offset_le

theorem broken_codeAt (h : codeAt stop c = .error (f, resume)) (hf : f ∈ F) :
    Broken F c.offset (resume.offset + 1) := by
  obtain ⟨read, e, -, hrecover⟩ := codeAt_error h
  obtain ⟨rfl, rfl⟩ := Prod.mk.inj hrecover
  exact broken_recover c read e hf

theorem woven_failed (hc : Ahead mark c) (h : codeAt stop c = .error (f, resume)) :
    OutcomeWoven F mark ⟨[], [f], resume⟩ :=
  outcomeWoven_skip (hc.trans (ahead_codeAt_error h)) fun hfs =>
    (broken_codeAt h (hfs f List.mem_cons_self)).mono hc.offset_le

theorem woven_comment (h : mark.rest = '@' :: cs) : OutcomeWoven F mark (comment mark) := by
  have hafter := (beyond_comment h).ahead
  unfold comment at hafter ⊢
  dsimp only at hafter ⊢
  split at hafter
  · exact outcomeWoven_plain hafter rfl nofun rfl
  · exact outcomeWoven_plain hafter rfl nofun rfl

theorem woven_explicit : OutcomeWoven F mark (explicit mark) := by
  unfold explicit
  split
  next hcode =>
    have hahead := (ahead_forward mark 2).trans (beyond_codeAt hcode).ahead
    exact outcomeWoven_plain hahead rfl nofun rfl
  next hcode => exact woven_failed (ahead_forward mark 2) hcode

theorem woven_codeBlock (h : mark.rest = '@' :: cs) : OutcomeWoven F mark (codeBlock mark) := by
  have hafter := (beyond_codeBlock h).ahead
  unfold codeBlock at hafter ⊢
  split at hafter
  next code after hcode => exact outcomeWoven_plain hafter rfl (fun halone => ⟨halone, rfl⟩) rfl
  next hcode => exact woven_failed (ahead_forward mark 2) hcode

theorem woven_implicit : OutcomeWoven F mark (implicit mark) := by
  unfold implicit
  dsimp only
  split
  next code _ =>
    have hahead := (ahead_forward mark 1).trans (ahead_past _ code)
    exact outcomeWoven_plain hahead rfl nofun rfl
  next read e _ =>
    exact outcomeWoven_skip ((ahead_forward mark 1).trans (ahead_recover _ _ _)) fun hfs =>
      (broken_recover _ read e (hfs _ List.mem_cons_self)).mono (ahead_forward mark 1).offset_le

theorem woven_announced {o : Outcome (List Piece)} (h : mark.rest = '@' :: cs)
    (ho : announced t mark = .simple o) :
    OutcomeWoven F mark o := by
  have hsign : (mark.rest.drop 1).head? ≠ some '@' → Literal.sign.Stands mark := by
    intro hhead
    rw [h] at hhead
    exact .sign h hhead
  cases announces ho with
  | escape hnext =>
    rw [h] at hnext
    obtain rfl : cs = '@' :: _ := hnext
    exact outcomeWoven_literal (l := .escape) (.escape h) trivial _ rfl
  | inside hhead | stray hhead =>
    exact outcomeWoven_literal (l := .sign) (hsign hhead) trivial _ rfl
  | comment => exact woven_comment h
  | explicit => exact woven_explicit
  | codeBlock => exact woven_codeBlock h
  | implicit => exact woven_implicit

end

/-! Everything that is read -/

section
variable {c d mark : Cursor} {o : Outcome (Option (List (Clause (Located Node))))} {fs : List Fault}

theorem OutcomeWoven.gather {o : Outcome (List Piece)} (h : OutcomeWoven F c o) (hc : Ahead d c)
    (hfs : ∀ f ∈ o.faults, f ∈ F) :
    Traced F d.text (Markup.gather o.val) := by
  obtain ⟨hwoven, hbodies⟩ := h hfs
  rw [← hc.text_eq]
  exact hwoven.traced rfl hbodies

theorem outcomeTraced_nil (d : Cursor) (fs : List Fault) : OutcomeTraced F c ⟨some [], fs, d⟩ := by
  refine fun _ => ⟨nofun, fun cs hcs => ?_⟩
  obtain rfl := Option.some.inj hcs
  exact nofun

theorem outcomeTraced_failed {stop : Code.Stop} {f : Fault} {resume : Cursor} (hc : Ahead d c)
    (h : codeAt stop c = .error (f, resume)) : OutcomeTraced F d ⟨none, [f], resume⟩ :=
  fun hfs => ⟨fun _ => (broken_codeAt h (hfs f List.mem_cons_self)).mono hc.offset_le, nofun⟩

theorem OutcomeTraced.cons {head : String} {body : Nodes} (h : OutcomeTraced F d o) (hd : Ahead c d)
    (hbody : (∀ f ∈ fs, f ∈ F) → Traced F c.text body) :
    OutcomeTraced F c ⟨o.val.map (⟨head, body⟩ :: ·), fs ++ o.faults, o.cursor⟩ := by
  intro hfs
  obtain ⟨hnone, hclauses⟩ := h fun f hf => hfs f (List.mem_append_right _ hf)
  refine ⟨fun hval => (hnone (Option.map_eq_none_iff.mp hval)).mono hd.offset_le, fun cs hcs => ?_⟩
  obtain ⟨more, hmore, rfl⟩ := Option.map_eq_some_iff.mp hcs
  rw [hd.text_eq] at hclauses
  exact List.forall_mem_cons.mpr ⟨hbody fun f hf => hfs f (List.mem_append_left _ hf),
    hclauses more hmore⟩

theorem outcomeTraced_one {head : String} {body : Nodes}
    (hbody : (∀ f ∈ fs, f ∈ F) → Traced F c.text body) :
    OutcomeTraced F c ⟨some [⟨head, body⟩], fs, d⟩ := by
  refine fun hfs => ⟨nofun, fun cs hcs => ?_⟩
  obtain rfl := Option.some.inj hcs
  exact List.forall_mem_singleton.mpr (hbody hfs)

theorem OutcomeTraced.node {make : List (Clause (Located Node)) → Node} (h : OutcomeTraced F c o)
    (hmark : Ahead mark c) (hc : Ahead c o.cursor) (hmarkup : ∀ cs, (make cs).isMarkup = false)
    (hbodies : ∀ cs, (make cs).bodies = cs.map (·.body)) :
    OutcomeWoven F mark
      ⟨o.val.toList.map fun cs => .node (make cs) ⟨mark.offset, o.cursor.offset⟩ false, o.faults,
        o.cursor⟩ := by
  cases ho : o.val with
  | none => exact outcomeWoven_skip (hmark.trans hc) fun hfs => ((h hfs).1 ho).mono hmark.offset_le
  | some cs =>
    refine outcomeWoven_node (hmark.trans hc) (hmarkup cs) nofun fun hfs body hbody => ?_
    rw [hbodies] at hbody
    obtain ⟨b, hb, rfl⟩ := List.mem_map.mp hbody
    rw [← hmark.text_eq]
    exact (h hfs).2 cs ho b hb

end

/-- What the reader gives in steps that suffice for the text. -/
structure StepsWoven (F : List Fault) (t : DirectiveTable) (n : Nat) : Prop where
  pieces : ∀ scope depth c, c.rest.length < n → OutcomeWoven F c (pieces t scope n depth c)
  branches : ∀ mark chained c, c.rest.length < n → OutcomeTraced F c (branches t n mark chained c)
  arms : ∀ mark c, c.rest.length < n → OutcomeTraced F c (arms t n mark c)
  directive : ∀ scope mark d cs, mark.rest = '@' :: cs → mark.rest.length ≤ n →
    OutcomeWoven F mark (directive t n scope mark d)

section
variable {n : Nat} {c mark : Cursor} {cs : List Char} (ih : StepsWoven F t n)
include ih

theorem woven_construct (scope : Scope) (h : c.rest = '@' :: cs) (hn : c.rest.length ≤ n) :
    OutcomeWoven F c (construct t scope n c) := by
  have hsteps := stepsAhead t n
  generalize hturn : construct t scope n c = o
  cases constructed hturn with
  | simple ho => exact woven_announced h ho
  | @control chained =>
    have hshorter : (c.forward 1).rest.length < c.rest.length := (beyond_sign h 0).shorter
    exact (ih.branches c chained _ (by omega)).node (ahead_forward c 1)
      (hsteps.branches c chained _) (fun _ => rfl) fun _ => rfl
  | unmatched _ hcode => exact woven_failed (ahead_forward c 6) hcode
  | @choice _ begun _ hcode =>
    have hbegun := (beyond_sign h 5).trans (beyond_codeAt hcode).ahead
    have hshorter := hbegun.shorter
    exact (ih.arms c begun (by omega)).node hbegun.ahead (hsteps.arms c begun) (fun _ => rfl)
      fun _ => rfl
  | directive => exact ih.directive scope c _ cs h hn

theorem woven_pieces (scope : Scope) (depth : Nat) (c : Cursor) (hn : c.rest.length < n + 1) :
    OutcomeWoven F c (pieces t scope (n + 1) depth c) := by
  -- what follows has fewer characters before it than steps are left
  have hmore : ∀ (depth : Nat) {d : Cursor}, Beyond c d →
      OutcomeWoven F d (pieces t scope n depth d) := fun depth d hd =>
    ih.pieces scope depth d (Nat.lt_of_lt_of_le hd.shorter (Nat.le_of_lt_succ hn))
  generalize hturn : pieces t scope (n + 1) depth c = o
  cases pieces_turn hturn with
  | stop => exact outcomeWoven_nil c []
  | @literal x _ depth hrest hat htag =>
    exact (outcomeWoven_literal (l := .char x) (.char hrest hat htag) trivial [] rfl).followedBy
      (ahead_forward c 1)
      (hmore depth (beyond_forward (by simp [hrest]) 0))
  | tag depth hread =>
    have hbeyond := Tag.beyond_read hread
    exact (Tag.outcomeWoven_read hread).followedBy hbeyond.ahead (hmore depth hbeyond)
  | sign depth hrest =>
    obtain ⟨m, rfl⟩ : ∃ m, n = m + 1 := by
      rw [hrest, List.length_cons] at hn
      exact ⟨n - 1, by omega⟩
    have hbeyond := beyond_construct t scope m hrest
    exact (woven_construct ih scope hrest (by omega)).followedBy hbeyond.ahead (hmore depth hbeyond)

theorem traced_enclosed (mark : Cursor) {begun : Cursor} (hbegun : Beyond c begun)
    (hn : c.rest.length < n + 1) (hfs : ∀ f ∈ (enclosed t n mark begun).faults, f ∈ F) :
    Traced F c.text (enclosed t n mark begun).val :=
  (ih.pieces .nested 0 begun (Nat.lt_of_lt_of_le hbegun.shorter (Nat.le_of_lt_succ hn))).gather
    hbegun.ahead fun f hf =>
    hfs f (List.mem_append_left _ hf)

theorem woven_branches (mark : Cursor) (chained : Bool) (c : Cursor) (hn : c.rest.length < n + 1) :
    OutcomeTraced F c (branches t (n + 1) mark chained c) := by
  generalize hturn : branches t (n + 1) mark chained c = o
  cases branches_turn hturn with
  | headless hcode => exact outcomeTraced_failed (ahead_refl c) hcode
  | more hcode =>
    have hbegun := beyond_codeAt hcode
    have hnext :=
      hbegun.trans ((ahead_enclosed (stepsAhead t n) mark _).trans (ahead_skip _ isBlank))
    have hlength := Nat.lt_of_lt_of_le hnext.shorter (Nat.le_of_lt_succ hn)
    exact (ih.branches mark chained _ hlength).cons hnext.ahead (traced_enclosed ih mark hbegun hn)
  | last hcode => exact outcomeTraced_one (traced_enclosed ih mark (beyond_codeAt hcode) hn)

theorem woven_arms (mark c : Cursor) (hn : c.rest.length < n + 1) :
    OutcomeTraced F c (arms t (n + 1) mark c) := by
  have hskip : Ahead c (armAt c) := ahead_skip c _
  have hopen : ∀ {pattern : List Char} {arrow : Cursor},
    codeAt .fatArrow (armAt c) = .ok (pattern, arrow) →
      Beyond c ((arrow.skip isBlank).forward 1) := fun hcode =>
    (hskip.beyond (beyond_codeAt hcode)).trans ((ahead_skip _ isBlank).trans (ahead_forward _ 1))
  generalize hturn : arms t (n + 1) mark c = o
  cases arms_turn hturn with
  | cut | close | unbodied => exact outcomeTraced_nil _ _
  | headless hcode => exact outcomeTraced_failed hskip hcode
  | more hcode =>
    have hafter := (hopen hcode).trans (ahead_enclosed (stepsAhead t n) mark _)
    have hlength := Nat.lt_of_lt_of_le hafter.shorter (Nat.le_of_lt_succ hn)
    exact (ih.arms mark _ hlength).cons hafter.ahead (traced_enclosed ih mark (hopen hcode) hn)
  | last hcode => exact outcomeTraced_one (traced_enclosed ih mark (hopen hcode) hn)

theorem woven_directive (scope : Scope) (d : Directive) (h : mark.rest = '@' :: cs)
    (hn : mark.rest.length ≤ n + 1) :
    OutcomeWoven F mark (directive t (n + 1) scope mark d) := by
  have hstop := ahead_announcement d mark
  have hbegun : Beyond mark ((opening d mark).forward 1) :=
    (beyond_announcement h d).trans ((ahead_skip _ isBlank).trans (ahead_forward _ 1))
  have hpiece : ∀ (faults : List Fault) (body? : Option (DirectiveBody (Located Node)))
    {stop : Cursor} {outer : List Fault},
      Ahead mark stop → ((∀ f ∈ outer, f ∈ F) → ∀ nodes, body? = some (.markup nodes) →
        Traced F mark.text nodes) →
      OutcomeWoven F mark (finished d scope mark faults body? stop outer) := by
    intro faults body? stop outer hstop hbody
    refine outcomeWoven_node (hstop.trans (ahead_directiveEnd d mark stop)) rfl (fun halone =>
      ⟨halone, rfl⟩) ?_
    intro hfs body hmem
    cases body? with
    | none => cases hmem
    | some body' =>
      cases body' with
      | code => cases hmem
      | markup nodes =>
        obtain rfl := List.mem_singleton.mp hmem
        exact hbody hfs _ rfl
  generalize hturn : directive t (n + 1) scope mark d = o
  cases directive_turn hturn with
  | line | bare => exact hpiece _ none hstop fun _ _ h => by cases h
  | code _ _ hcode =>
    exact hpiece _ (some (.code _)) (hbegun.ahead.trans (beyond_codeAt hcode).ahead) fun _ _ h => by
      cases h
  | codeless _ _ hcode =>
    exact hpiece _ none (hbegun.ahead.trans (ahead_codeAt_error hcode)) fun _ _ h => by cases h
  | markup _ hopen =>
    have hafter := hbegun.ahead.trans (ahead_enclosed (stepsAhead t n) mark _)
    refine hpiece _ (some (.markup _)) hafter fun hfs nodes hnodes => ?_
    obtain rfl := DirectiveBody.markup.inj (Option.some.inj hnodes)
    have hlength : ((opening d mark).forward 1).rest.length < n := by
      have hopening := ((beyond_announcement h d).trans (ahead_skip _ isBlank)).shorter
      have hinside : ((opening d mark).forward 1).rest.length < (opening d mark).rest.length :=
        (beyond_forward (by simp [hopen]) 0).shorter
      have hshorter : (opening d mark).rest.length < mark.rest.length := hopening
      omega
    exact (ih.pieces .nested 0 _ hlength).gather hbegun.ahead fun f hf =>
      hfs f (List.mem_append_left _ hf)

end

theorem stepsWoven (F : List Fault) (t : DirectiveTable) (n : Nat) : StepsWoven F t n := by
  induction n with
  | zero =>
    refine ⟨fun _ _ _ h => absurd h (Nat.not_lt_zero _), fun _ _ _ h =>
      absurd h (Nat.not_lt_zero _),
      fun _ _ h => absurd h (Nat.not_lt_zero _), fun scope mark d cs h hn => ?_⟩
    rw [h] at hn
    exact absurd hn (Nat.not_succ_le_zero _)
  | succ n ih =>
    exact ⟨woven_pieces ih, woven_branches ih, woven_arms ih, fun scope mark d cs h hn =>
      woven_directive ih scope d h hn⟩

end Templating.Markup
