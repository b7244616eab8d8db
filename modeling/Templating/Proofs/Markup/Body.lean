import Templating.Proofs.Markup.Comment

/-! Where a body ends. Its closing brace is one of the characters that tags are read over: a body of
text is that text if the automaton of tags is outside of them in front of the brace, and goes on
behind it otherwise. -/
namespace Templating.Markup
open Text (Cursor isBlank)
open Text.Cursor

/-! The reader and the automaton of tags -/

section
variable {a b s : List Char} {after r : List Sym} {as : List Atom} {p q : Place} {c : Cursor}

theorem fill_chars (x s : List Char) : fill x (s.map .char) = s := by
  induction s with
  | nil => rfl
  | cons c s ih =>
    rw [List.map_cons, fill_cons, ih]
    rfl

theorem behind_of_cross (h : cross [] p (a.map .char ++ after) = some (as, r)) :
    (∃ u v, a = u ++ v ∧ r = v.map .char ++ after ∧
      Place.behind (some p) a after = Place.behind none v after) ∨
      (∃ q, Place.behind (some p) a after = some q) ∧ ∃ u, u ≠ [] ∧ after = u ++ r := by
  induction a generalizing p as with
  | nil => exact .inr ⟨⟨p, rfl⟩, cross_suffix h⟩
  | cons x a ih =>
    rw [List.map_cons, List.cons_append] at h
    rw [Place.behind]
    cases hx : p.advance (.char x) with
    | fail =>
      rw [cross_fail hx] at h
      cases h
    | close =>
      rw [cross_close hx] at h
      obtain ⟨-, rfl⟩ := Prod.mk.inj (Option.some.inj h)
      exact .inl ⟨[x], a, rfl, rfl, rfl⟩
    | go q =>
      rw [cross_go hx] at h
      obtain ⟨⟨bs, r'⟩, hrest, heq⟩ := Option.map_eq_some_iff.mp h
      obtain ⟨-, rfl⟩ := Prod.mk.inj heq
      rcases ih hrest with ⟨u, v, rfl, hr, hbehind⟩ | hinside
      · exact .inl ⟨x :: u, v, rfl, hr, hbehind⟩
      · exact .inr hinside

theorem read_chars (hs : ∀ x ∈ s, x ≠ '@' ∧ x ≠ '/') (hc : c.rest = '<' :: s) :
    (Place.opening.closes (s.map .char) = false → Tag.read? c = none) ∧
      (Place.opening.closes (s.map .char) = true →
        ∃ as r ps e, cross [] .opening (s.map .char) = some (as, r) ∧
        Tag.read? c = some (ps, e) ∧ e.rest = fill [] r) := by
  have hclean : Clean (s.map .char) := by
    intro y hy
    obtain ⟨x, hx, rfl⟩ := List.mem_map.mp hy
    simpa using hs x hx
  have hmeets := tag_meets (x := []) (fun _ h => by cases h) hclean (by rw [fill_chars]; exact hc)
  rw [← isSome_cross (x := [])]
  cases hcross : cross [] .opening (s.map .char) with
  | none =>
    rw [hcross] at hmeets
    exact ⟨fun _ => hmeets, nofun⟩
  | some pair =>
    obtain ⟨as, r⟩ := pair
    rw [hcross] at hmeets
    obtain ⟨⟨ps, e⟩, hread, -, he⟩ := hmeets
    exact ⟨nofun, fun _ => ⟨as, r, ps, e, rfl, hread, he⟩⟩

/-- The reader gets behind a text if the automaton is outside of tags there, and a tag goes over
that place if it is inside one. -/
def Follows (c : Cursor) (a : List Char) (left : Nat) : Option Place → Prop
  | none => Outside c (c.past a)
  | some _ => Overrun c a left

variable {left : Nat} {p? : Option Place}

theorem Follows.text {x : Char} (hc : c.rest = x :: s) (hx : x ≠ '@')
    (htag : x = '<' → Tag.read? c = none)
    (h : Follows (c.forward 1) a left p?) : Follows c (x :: a) left p? := by
  cases p? with
  | none => exact .text hc hx htag (past_cons c x a ▸ h)
  | some p => exact Overrun.text hc hx htag h

theorem Follows.tag {ps : List Piece} {e : Cursor} {w : List Char}
    (hread : Tag.read? c = some (ps, e)) (hw : c.rest = w ++ e.rest)
    (h : Follows e a left p?) : Follows c (w ++ a) left p? := by
  cases p? with
  | none =>
    have hend := (Tag.beyond_read hread).ahead.eq_past hw
    have hpast : c.past (w ++ a) = e.past a := by rw [past_append, ← hend]
    exact .tag hread (hpast ▸ h)
  | some p => exact Overrun.tag hread hw h

theorem follows_behind (hs : ∀ x ∈ a ++ b, x ≠ '@' ∧ x ≠ '/') (hc : c.rest = a ++ b) :
    Follows c a b.length (Place.behind none a (b.map .char)) := by
  induction hlength : a.length using Nat.strongRecOn generalizing c a with
  | ind k ih =>
    subst hlength
    cases a with
    | nil => exact .here c
    | cons x v =>
      have hrest : c.rest = x :: (v ++ b) := hc
      have hclean : ∀ y ∈ v ++ b, y ≠ '@' ∧ y ≠ '/' := fun y hy => hs y (List.mem_cons_of_mem x hy)
      have hone := ih v.length (Nat.lt_succ_self _) hclean (rest_forward_one hrest) rfl
      -- one character on, if no tag is read here
      have htext (htag : x = '<' → Tag.read? c = none)
          (hsame : Place.behind none (x :: v) (b.map .char) = Place.behind none v (b.map .char)) :
          Follows c (x :: v) b.length (Place.behind none (x :: v) (b.map .char)) :=
        hsame ▸ hone.text hrest (hs x List.mem_cons_self).1 htag
      by_cases hless : x = '<'
      · subst hless
        obtain ⟨hnone, hsome⟩ := read_chars hclean hrest
        rw [List.map_append] at hnone hsome
        cases hcloses : Place.opening.closes (v.map .char ++ b.map .char) with
        | false => exact htext (fun _ => hnone hcloses) (by rw [Place.behind, hcloses]; rfl)
        | true =>
          obtain ⟨as, r, ps, e, hcross, hread, he⟩ := hsome hcloses
          have hbehind : Place.behind none ('<' :: v) (b.map .char) =
              Place.behind (some .opening) v (b.map .char) := by
            rw [Place.behind, hcloses]
            rfl
          rw [hbehind]
          rcases behind_of_cross hcross with ⟨u, w, rfl, rfl, hsame⟩ | ⟨⟨q, hq⟩, u, hu, hsplit⟩
          · rw [← List.map_append, fill_chars] at he
            have hshorter : w.length < ('<' :: (u ++ w)).length := by
              rw [List.length_cons, List.length_append]
              omega
            have hclean' : ∀ y ∈ w ++ b, y ≠ '@' ∧ y ≠ '/' := fun y hy => by
              refine hclean y ?_
              rw [List.append_assoc]
              exact List.mem_append_right u hy
            have hread' : c.rest = '<' :: u ++ e.rest := by
              rw [hrest, he]
              simp
            rw [hsame]
            exact (ih w.length hshorter hclean' he rfl).tag hread hread'
          · obtain ⟨u, w, rfl, rfl, rfl⟩ := List.map_eq_append_iff.mp hsplit
            have hshorter : e.rest.length < (u ++ w).length := by
              have hpos := List.length_pos_iff.mpr hu
              rw [he, fill_chars, List.length_append]
              rw [List.length_map] at hpos
              omega
            rw [hq]
            exact ⟨[], c, ps, e, .here c, rfl, List.nil_prefix, hread, hshorter⟩
      · exact htext (fun h => absurd h hless) (by rw [Place.behind, if_neg (by simp [hless])])

end

/-! Places that run over a brace -/

section
variable {a : List Char} {after s : List Sym} {p q : Place} {p? : Option Place} {k : Char}

theorem closes_of_behind (hp : ∀ p, p? = some p → p.closes (a.map .char ++ after) = true)
    (h : Place.behind p? a after = some q) :
    q.closes after = true := by
  induction a generalizing p? with
  | nil => exact hp q (by cases p? <;> exact h)
  | cons x a ih =>
    cases p? with
    | none =>
      rw [Place.behind] at h
      refine ih (fun p hopen => ?_) h
      split at hopen
      next hx =>
        obtain rfl := Option.some.inj hopen
        exact (Bool.and_eq_true_iff.mp hx).2
      · cases hopen
    | some p =>
      rw [Place.behind] at h
      refine ih (fun p' hgo => ?_) h
      have hcloses := hp p rfl
      rw [List.map_cons, List.cons_append, Place.closes] at hcloses
      cases hx : p.advance (.char x) with
      | fail => simp [hx, Step.place?] at hgo
      | close => simp [hx, Step.place?] at hgo
      | go q' =>
        obtain rfl : q' = p' := by simpa [hx, Step.place?] using hgo
        simpa [hx] using hcloses

theorem advance_ne_quoted {x : Char} (hx : x ≠ '"' ∧ x ≠ '\'') (hp : ∀ k, p ≠ .quoted k)
    (k : Char) :
    p.advance (.char x) ≠ .go (.quoted k) := by
  obtain ⟨hdouble, hsingle⟩ := hx
  cases p with
  | quoted k => exact absurd rfl (hp k)
  | opening | tagName | between | attributeName | afterName | afterEquals | unquoted =>
    grind [Place.advance, Place.begin]

theorem not_quoted_of_behind (ha : ∀ x ∈ a, x ≠ '"' ∧ x ≠ '\'') (hp : ∀ k, p? ≠ some (.quoted k))
    (k : Char) :
    Place.behind p? a after ≠ some (.quoted k) := by
  induction a generalizing p? with
  | nil => cases p? <;> exact hp k
  | cons x a ih =>
    have hrest : ∀ y ∈ a, y ≠ '"' ∧ y ≠ '\'' := fun y hy => ha y (List.mem_cons_of_mem x hy)
    cases p? with
    | none =>
      refine ih hrest fun k => ?_
      split <;> simp
    | some p =>
      refine ih hrest fun k hgo => ?_
      have hne := advance_ne_quoted (ha x List.mem_cons_self) (fun k h => hp k (congrArg some h)) k
      cases hx : p.advance (.char x) with
      | fail => simp [hx, Step.place?] at hgo
      | close => simp [hx, Step.place?] at hgo
      | go q => exact hne (by simpa [hx, Step.place?] using hgo)

theorem mem_of_closes_brace (h : q.closes (.char '\x7d' :: s) = true) (hq : ∀ k, q ≠ .quoted k) :
    q ∈ [.tagName, .attributeName, .afterEquals, .unquoted] := by
  have hfail : ∀ p ∈ [Place.opening, .between, .afterName], p.advance (.char '\x7d') = .fail := by
    decide
  have hnot : q ∉ [Place.opening, .between, .afterName] := by
    intro hmem
    rw [Place.closes, hfail q hmem] at h
    cases h
  cases q with
  | quoted k => exact absurd rfl (hq k)
  | opening | between | afterName => exact absurd (by decide) hnot
  | tagName | attributeName | afterEquals | unquoted => decide

end

/-! Text that is read as a whole -/

def ofText (s : List Char) : List Core := if s = [] then [] else [.text (.ofList s)]

section
variable {t : DirectiveTable} {c : Cursor} {a r s v : List Char} {texts : List Piece}

theorem Gathers.agree_iff (h : Gathers s texts) : AllAgree (ofText a) (gather texts) ↔ a = s := by
  by_cases hs : s = []
  · subst hs
    obtain ⟨run, hrun, hchars⟩ := h {} []
    have hnone : gather texts = [] := by
      have hempty : run.chars = [] := hchars
      rw [List.append_nil] at hrun
      simp [gather, hrun, gatherFrom, Run.nodes, hempty]
    rw [hnone]
    by_cases ha : a = [] <;> simp [ofText, ha, AllAgree]
  · obtain ⟨span, hgather⟩ := h.gather_append hs separate_nil
    rw [List.append_nil] at hgather
    have hnil : gather [] = [] := rfl
    rw [hgather, hnil]
    by_cases ha : a = []
    · simp [ofText, ha, AllAgree, Ne.symm hs]
    · simp [ofText, ha, AllAgree, Core.Agrees, String.ofList_inj, eq_comm]

theorem gather_node (n : Node) (span : Span) (ps : List Piece) :
    gather (.node n span false :: ps) = ⟨n, span⟩ :: gather ps := rfl

theorem Gathers.no_control (h : Gathers s texts) (branches : List (Clause Core)) (ts : List Core) :
    ¬ AllAgree (.control branches :: ts) (gather texts) := by
  obtain ⟨run, hrun, -⟩ := h {} []
  rw [List.append_nil] at hrun
  rw [gather, hrun, gatherFrom, Run.nodes]
  split <;> simp [AllAgree, Core.Agrees]

theorem nodeFaults_gather (h : Gathers s texts) : nodeFaults (gather texts) = [] := by
  obtain ⟨run, hrun, -⟩ := h {} []
  rw [List.append_nil] at hrun
  rw [gather, hrun, gatherFrom, Run.nodes]
  split <;> rfl

theorem gathers_pieces (hat : '@' ∉ c.rest) (scope : Scope) (n depth : Nat) :
    ∃ s, Gathers s (pieces t scope n depth c).val := by
  induction n generalizing c depth with
  | zero => exact ⟨[], by rw [pieces]; exact gathers_nil⟩
  | succ n ih =>
    cases hrest : c.rest with
    | nil => exact ⟨[], by rw [pieces_nil hrest]; exact gathers_nil⟩
    | cons x r =>
      have hforward : (c.forward 1).rest = r := rest_forward_one hrest
      rw [hrest] at hat
      have hx : x ≠ '@' := fun h => hat (h ▸ List.mem_cons_self)
      have hr : '@' ∉ (c.forward 1).rest := fun h => hat (List.mem_cons_of_mem x (hforward ▸ h))
      have hone : ∀ depth', ∃ s, Gathers s
          ((Outcome.literal [x] c (c.forward 1)).followedBy
            (pieces t scope n depth' (c.forward 1))).val := by
        intro depth'
        obtain ⟨s, hs⟩ := ih hr depth'
        exact ⟨[x] ++ s, hs.cons [x] c.offset⟩
      by_cases hless : x = '<'
      · subst hless
        cases hread : Tag.read? c with
        | none =>
          rw [pieces_noTag hrest hread]
          exact hone depth
        | some pair =>
          obtain ⟨ps, e⟩ := pair
          obtain ⟨u, -, hsplit, hspells⟩ := Tag.read_reads hread
          have hu : '@' ∉ u ∧ '@' ∉ e.rest := by simpa [← hrest, hsplit] using hat
          obtain ⟨s, hs⟩ := ih hu.2 depth
          refine ⟨u ++ s, ?_⟩
          rw [pieces_tag hrest hread, hspells.1 hu.1]
          exact hs.cons u c.offset
      · cases scope with
        | topLevel =>
          rw [pieces_literal hrest hx hless (.inl rfl)]
          exact hone depth
        | nested =>
          by_cases hopen : x = '\x7b'
          · subst hopen
            rw [pieces_open hrest]
            exact hone (depth + 1)
          by_cases hclose : x = '\x7d'
          · subst hclose
            cases depth with
            | zero => exact ⟨[], by rw [pieces_end hrest]; exact gathers_nil⟩
            | succ depth =>
              rw [pieces_close hrest]
              exact hone depth
          rw [pieces_literal hrest hx hless (.inr ⟨hopen, hclose⟩)]
          exact hone depth

end

/-! An `if` -/

def heading : List Char := ['@', 'i', 'f', ' ', 'c', ' ', '\x7b']

/-- Text in the body of an `if`, and text behind that. -/
def conditional (a r : List Char) : List Char := heading ++ (a ++ '\x7d' :: r)

section
variable {t : DirectiveTable} {a r : List Char} {n : Nat} {c : Cursor}

variable {v : List Char} (hc : c = .start (heading ++ v))
include hc

theorem announced_heading : announced t c = .control true := by
  have hrest : c.rest = '@' :: (['i', 'f', ' ', 'c', ' ', '\x7b'] ++ v) := by rw [hc]; rfl
  have hbefore : c.before = [] := by rw [hc]; rfl
  exact announced_if hrest (by simp [hbefore])
    (Text.leadingName_append (x := ' ') (by decide) ['i', 'f'] _)

theorem codeAt_heading :
    codeAt .openBrace (c.forward 1) = .ok (['i', 'f', ' ', 'c', ' '], c.forward 7) := by
  have hrest : c.rest = ['@'] ++ (['i', 'f', ' ', 'c', ' '] ++ '\x7b' :: v) := by rw [hc]; rfl
  have hbefore : (c.forward 1).before.head? = some '@' :=
    Cursor.head?_before_forward hrest (by simp)
  have hname : ¬ (c.forward 1).before.head?.any Text.continuesName := by rw [hbefore]; decide
  have hends : EndsAt .openBrace ['i', 'f', ' ', 'c', ' '] ('\x7b' :: v) := rfl
  have hcode := codeAt_eq (Cursor.rest_forward_of_append hrest) hname hends
  simpa [Code.Stop.text, forward_forward] using hcode

theorem branches_heading (n : Nat) : (branches t (n + 1) c true (c.forward 1)).val = none ∨
    ∃ bs, (branches t (n + 1) c true (c.forward 1)).val =
      some (⟨"if c", gather (pieces t .nested n 0 (c.forward 7)).val⟩ :: bs) := by
  have htrim : String.ofList (Text.trim ['i', 'f', ' ', 'c', ' ']) = "if c" := rfl
  simp only [branches, codeAt_heading hc, htrim]
  split
  · generalize branches t n c true _ = more
    cases more.val with
    | none => exact .inl rfl
    | some bs => exact .inr ⟨bs, rfl⟩
  · exact .inr ⟨[], rfl⟩

theorem branches_closed {texts : List Piece} {d : Cursor}
    (hbody : pieces t .nested n 0 (c.forward 7) = ⟨texts, [], d⟩)
    (hd : d.rest = '\x7d' :: r) (hchain : ¬ chains r) :
    branches t (n + 1) c true (c.forward 1) = ⟨some [⟨"if c", gather texts⟩], [], d.forward 1⟩ := by
  have htrim : String.ofList (Text.trim ['i', 'f', ' ', 'c', ' ']) = "if c" := rfl
  have hnext :
      Text.startsWithWord ['e', 'l', 's', 'e'] ((d.forward 1).skip isBlank).rest = false := by
    rw [rest_skip, rest_forward_one hd]
    simpa [chains, chainWord, Text.trimStart] using hchain
  simp [branches, codeAt_heading hc, htrim, hbody, closeBody_eq hd, hnext]

end

/-! The whole template -/

section
variable {t : DirectiveTable} {a r : List Char}

def bodyOf (a r : List Char) : Cursor := (Cursor.start (conditional a r)).forward 7

theorem rest_bodyOf (a r : List Char) : (bodyOf a r).rest = a ++ '\x7d' :: r :=
  rest_forward_of_append (c := .start (conditional a r)) (u := heading) rfl

theorem length_conditional (a r : List Char) :
    (conditional a r).length = (bodyOf a r).rest.length + 7 := by
  rw [rest_bodyOf, conditional, List.length_append, Nat.add_comm]
  rfl

/-- Outside of tags the body is read up to its brace, and the text behind that as it is. -/
theorem pieces_conditional (ha : ∀ x ∈ a, x ≠ '@' ∧ x ≠ '\x7b' ∧ x ≠ '\x7d') (hr : '@' ∉ r)
    (hchain : ¬ chains r) (hout : Outside (bodyOf a r) ((bodyOf a r).past a)) :
    ∃ texts texts' span e, Gathers a texts ∧ Gathers r texts' ∧
      pieces t .topLevel ((conditional a r).length + 1) 0 (.start (conditional a r)) =
        ⟨.node (.control [⟨"if c", gather texts⟩]) span false :: texts', [], e⟩ := by
  have hclose : ((bodyOf a r).past a).rest = '\x7d' :: r := rest_forward_of_append (rest_bodyOf a r)
  have hsplit : (bodyOf a r).rest = a ++ ((bodyOf a r).past a).rest := by rw [hclose, rest_bodyOf]
  have hscope : Scope.nested = .topLevel ∨ ∀ x ∈ a, x ≠ '\x7b' ∧ x ≠ '\x7d' :=
    .inr fun x hx => (ha x hx).2
  obtain ⟨texts, hgathers, hpieces⟩ :=
    pieces_outside (t := t) hout hsplit (fun h => (ha _ h).1 rfl) hscope
  obtain ⟨m, hm, hbody⟩ := hpieces ((bodyOf a r).rest.length + 6) (by omega)
  obtain ⟨m, rfl⟩ := Nat.exists_eq_succ_of_ne_zero (Nat.ne_of_gt (Nat.zero_lt_of_lt hm))
  have hended : pieces t .nested ((bodyOf a r).rest.length + 6) 0 (bodyOf a r) =
      ⟨texts, [], (bodyOf a r).past a⟩ := by
    rw [hbody, pieces_end hclose]
    simp [Outcome.followedBy]
  have hbranches := branches_closed rfl hended hclose hchain
  have hbehind : (((bodyOf a r).past a).forward 1).rest = r := rest_forward_one hclose
  have hshort : (((bodyOf a r).past a).forward 1).rest.length < (conditional a r).length := by
    rw [length_conditional, rest_bodyOf, hbehind, List.length_append, List.length_cons]
    omega
  obtain ⟨texts', hgathers', e, hend⟩ := pieces_end_text (t := t) (by rwa [hbehind]) hshort
  rw [hbehind] at hgathers'
  have hread : pieces t .topLevel ((conditional a r).length + 1) 0 (.start (conditional a r)) = _ :=
    pieces_control (r := ['i', 'f', ' ', 'c', ' ', '\x7b'] ++ (a ++ '\x7d' :: r)) rfl
      (announced_heading rfl)
      (by rw [length_conditional]; exact hbranches)
  rw [hend] at hread
  exact ⟨texts, texts', _, e, hgathers, hgathers', hread⟩

theorem nodes_conditional (hat : '@' ∉ a ++ '\x7d' :: r) : ∃ s texts, Gathers s texts ∧
    ((pieces t .topLevel ((conditional a r).length + 1) 0 (.start (conditional a r))).val = texts ∨
      ∃ bs span, (pieces t .topLevel ((conditional a r).length + 1) 0
        (.start (conditional a r))).val =
        .node (.control (⟨"if c",
          gather (pieces t .nested ((bodyOf a r).rest.length + 6) 0 (bodyOf a r)).val⟩ :: bs))
          span false
          :: texts) := by
  let c := Cursor.start (conditional a r)
  have hrest : c.rest = '@' :: (['i', 'f', ' ', 'c', ' ', '\x7b'] ++ (a ++ '\x7d' :: r)) := rfl
  have hahead := (stepsAhead t (conditional a r).length).branches c true (c.forward 1)
  obtain ⟨u, hu, -⟩ := hahead.exists_read
  have hend : '@' ∉ (branches t (conditional a r).length c true (c.forward 1)).cursor.rest := by
    have hforward : '@' ∉ (c.forward 1).rest := by
      rw [rest_forward_one hrest]
      simpa using hat
    rw [hu] at hforward
    exact fun h => hforward (List.mem_append_right u h)
  obtain ⟨s, hs⟩ := gathers_pieces (t := t) hend .topLevel (conditional a r).length 0
  refine ⟨s, _, hs, ?_⟩
  rw [pieces_signed hrest]
  simp only [construct, announced_heading (t := t) (c := c) (v := a ++ '\x7d' :: r) rfl,
    Outcome.followedBy]
  have hfirst :=
    branches_heading (t := t) (c := c) (v := a ++ '\x7d' :: r) rfl ((bodyOf a r).rest.length + 6)
  rw [← length_conditional] at hfirst
  rcases hfirst with hnone | ⟨bs, hsome⟩
  · exact .inl (by rw [hnone]; rfl)
  · exact .inr ⟨bs, _, by rw [hsome]; rfl⟩

theorem not_agree_of_overrun (ha : ∀ x ∈ a, x ≠ '@' ∧ x ≠ '\x7b' ∧ x ≠ '\x7d') (hr : '@' ∉ r)
    (hover : Overrun (bodyOf a r) a ('\x7d' :: r).length) {n : Nat}
    (hn : (bodyOf a r).rest.length < n) :
    ¬ AllAgree (ofText a) (gather (pieces t .nested n 0 (bodyOf a r)).val) := by
  obtain ⟨v, f, ps, e, hout, hv, hbefore, hread, hless⟩ := hover
  obtain ⟨w, hw, hsplit, hspells⟩ := Tag.read_reads hread
  have hall : v ++ (w ++ e.rest) = a ++ '\x7d' :: r := by rw [← hsplit, ← hv, rest_bodyOf]
  have hat : '@' ∉ v ++ (w ++ e.rest) := by
    rw [hall]
    simpa [hr] using fun h => (ha _ h).1 rfl
  simp only [List.mem_append, not_or] at hat
  obtain ⟨hatv, hatw, hate⟩ := hat
  have hscope : Scope.nested = .topLevel ∨ ∀ x ∈ v, x ≠ '\x7b' ∧ x ≠ '\x7d' :=
    .inr fun x hx => (ha x (hbefore.subset hx)).2
  obtain ⟨texts, hgathers, hpieces⟩ := pieces_outside (t := t) hout hv hatv hscope
  obtain ⟨m, hm, hbody⟩ := hpieces n hn
  obtain ⟨m, rfl⟩ := Nat.exists_eq_succ_of_ne_zero (Nat.ne_of_gt (Nat.zero_lt_of_lt hm))
  obtain ⟨y, htag⟩ := rest_of_read hread
  obtain ⟨s, hs⟩ := gathers_pieces (t := t) hate .nested m 0
  have hread : Gathers (v ++ (w ++ s)) (pieces t .nested n 0 (bodyOf a r)).val := by
    rw [hbody, pieces_tag htag hread, hspells.1 hatw]
    exact hgathers.append (hs.cons w f.offset)
  rw [hread.agree_iff]
  intro heq
  have hlength := congrArg List.length hall
  rw [heq] at hlength
  simp only [List.length_append, List.length_cons] at hlength hless
  omega

end

/-- The body of an `if` is the text up to its first closing brace, and the text behind that goes on
by itself, unless the brace stands in a tag for the automaton: in the name of the tag or of an
attribute, or in a value without quotes. -/
theorem body_ends_at_brace (name : String) {a r : List Char}
    (ha : ∀ x ∈ a, x ∉ ['@', '/', '\x7b', '\x7d', '"', '\''])
    (hr : ∀ x ∈ r, x ≠ '@' ∧ x ≠ '/') (hchain : ¬ chains r) :
    (AllAgree (.control [⟨"if c", ofText a⟩] :: ofText r)
      (Tree.parse ⟨name, .ofList (conditional a r)⟩ .standard).nodes ∧
        (Tree.parse ⟨name, .ofList (conditional a r)⟩ .standard).allDiagnostics = [] ↔
      Place.behind none a (.char '\x7d' :: r.map .char) = none) ∧
    ∀ q, Place.behind none a (.char '\x7d' :: r.map .char) = some q →
      q ∈ [.tagName, .attributeName, .afterEquals, .unquoted] := by
  have hplain : ∀ x ∈ a, x ≠ '@' ∧ x ≠ '/' ∧ x ≠ '\x7b' ∧ x ≠ '\x7d' ∧ x ≠ '"' ∧ x ≠ '\'' :=
    fun x hx => by simpa using ha x hx
  have hbody : ∀ x ∈ a, x ≠ '@' ∧ x ≠ '\x7b' ∧ x ≠ '\x7d' := fun x hx =>
    ⟨(hplain x hx).1, (hplain x hx).2.2.1, (hplain x hx).2.2.2.1⟩
  have hquotes : ∀ x ∈ a, x ≠ '"' ∧ x ≠ '\'' := fun x hx => (hplain x hx).2.2.2.2
  have hatr : '@' ∉ r := fun h => (hr _ h).1 rfl
  have hat : '@' ∉ a ++ '\x7d' :: r := by
    simpa [hatr] using fun h => (hbody _ h).1 rfl
  have hclean : ∀ x ∈ a ++ '\x7d' :: r, x ≠ '@' ∧ x ≠ '/' := by
    intro x hx
    rcases List.mem_append.mp hx with hx | hx
    · exact ⟨(hplain x hx).1, (hplain x hx).2.1⟩
    rcases List.mem_cons.mp hx with rfl | hx
    · decide
    · exact hr x hx
  have hfollows := follows_behind hclean (rest_bodyOf a r)
  refine ⟨⟨?_, fun hplace => ?_⟩, fun q hq => ?_⟩
  · rintro ⟨hagree, -⟩
    by_contra hplace
    obtain ⟨q, hq⟩ := Option.ne_none_iff_exists'.mp hplace
    have hover : Overrun (bodyOf a r) a ('\x7d' :: r).length := by
      rw [List.map_cons, hq] at hfollows
      exact hfollows
    have hnot :=
      not_agree_of_overrun (t := .standard) hbody hatr hover (n := (bodyOf a r).rest.length + 6)
        (by omega)
    obtain ⟨s, texts, hs, htexts | ⟨bs, span, hnodes⟩⟩ := nodes_conditional (t := .standard) hat
    · simp only [Tree.parse, String.toList_ofList, htexts] at hagree
      exact hs.no_control _ _ hagree
    · simp only [Tree.parse, String.toList_ofList, hnodes, gather_node] at hagree
      obtain ⟨⟨-, hfirst, -⟩, -⟩ := hagree
      exact hnot hfirst
  · have hout : Outside (bodyOf a r) ((bodyOf a r).past a) := by
      rw [List.map_cons, hplace] at hfollows
      exact hfollows
    obtain ⟨texts, texts', span, e, hgathers, hgathers', hread⟩ :=
      pieces_conditional (t := .standard) hbody hatr hchain hout
    have hfaults :
        nodeFaults (⟨.control [⟨"if c", gather texts⟩], span⟩ :: gather texts') = [] := by
      simp [nodeFaults, Node.faults, clauseFaults, nodeFaults_gather hgathers,
        nodeFaults_gather hgathers']
    simp only [Tree.allDiagnostics, Tree.parse, String.toList_ofList, hread, gather_node, hfaults]
    exact ⟨⟨⟨rfl, hgathers.agree_iff.mpr rfl, trivial⟩, hgathers'.agree_iff.mpr rfl⟩, rfl⟩
  · refine mem_of_closes_brace (closes_of_behind (fun p h => by cases h) hq) fun k hk => ?_
    exact not_quoted_of_behind hquotes (fun k h => by cases h) k (hk ▸ hq)

/-- Tags on both sides leave the body as it is. In the name of a tag the brace
belongs to the tag. -/
theorem body_ends_at_brace_tags :
    let a := ['<', 'b', '>', '1', '<', ' ', '2', '<', 'i', ' ', 'x', '=', 'y', '>']
    let r := [' ', '<', 'u', '\x7b', '>']
    ((∀ x ∈ a, x ∉ ['@', '/', '\x7b', '\x7d', '"', '\'']) ∧ (∀ x ∈ r, x ≠ '@' ∧ x ≠ '/') ∧
      ¬ chains r ∧
      AllAgree (.control [⟨"if c", ofText a⟩] :: ofText r)
        (Tree.parse ⟨"page", .ofList (conditional a r)⟩ .standard).nodes ∧
      (Tree.parse ⟨"page", .ofList (conditional a r)⟩ .standard).allDiagnostics = []) ∧
    ¬ (AllAgree (.control [⟨"if c", ofText ['<', 'b']⟩] :: ofText ['>'])
        (Tree.parse ⟨"page", .ofList (conditional ['<', 'b'] ['>'])⟩ .standard).nodes ∧
      (Tree.parse ⟨"page", .ofList (conditional ['<', 'b'] ['>'])⟩ .standard).allDiagnostics =
        []) := by
  intro a r
  have ha : ∀ x ∈ a, x ∉ ['@', '/', '\x7b', '\x7d', '"', '\''] := by decide
  have hr : ∀ x ∈ r, x ≠ '@' ∧ x ≠ '/' := by decide
  refine ⟨⟨ha, hr, by decide, (body_ends_at_brace "page" ha hr (by decide)).1.mpr (by rfl)⟩,
    fun h => ?_⟩
  have hplace := (body_ends_at_brace "page" (by decide) (by decide) (by decide)).1.mp h
  exact absurd hplace (by decide)

end Templating.Markup
