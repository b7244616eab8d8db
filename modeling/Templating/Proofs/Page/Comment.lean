import Templating.Proofs.Markup.Mark
import Templating.Proofs.Offset.Slash
import Templating.Proofs.Page.Lowering

/-! A comment in markup. It leaves nothing in the page, unless a tag is read over the place where it
begins; then the page shows that there was an at sign. -/
namespace Templating.Page
open Markup
open Text (Cursor)
open Text.Cursor
variable {t : DirectiveTable} {a b c : List Char}

/-- The body writes a text, in one literal. -/
def Prints (body : Body) (cs : List Char) : Prop :=
  if cs = [] then body = [] else ∃ span, body = [⟨.literal (.ofList cs), span⟩]

theorem Prints.events {body : Body} {cs : List Char} (h : Prints body cs) :
    events body = Event.ofText (.ofList cs) := by
  unfold Prints at h
  split at h
  next hcs =>
    rw [h, hcs]
    rfl
  next =>
    obtain ⟨span, rfl⟩ := h
    simp [Page.events, Statement.events]

/-- The template is read without a fault, and its page is a text in one literal. -/
def Writes (s : Source) (t : DirectiveTable) (cs : List Char) : Prop :=
  (Tree.parse s t).allDiagnostics = [] ∧ Prints (lower true (Tree.parse s t).nodes) cs

/-! Text on both sides -/

theorem lower_run (top : Bool) (run : Run) (ns : Nodes) : ∃ span, lower top (run.nodes ++ ns) =
    if run.chars = [] then lower top ns else
      join ⟨.literal (.ofList run.chars.reverse), span⟩ (lower top ns) := by
  refine ⟨⟨run.start, max run.stop run.start⟩, ?_⟩
  by_cases hchars : run.chars = []
  · simp [Run.nodes, hchars]
  · simp [Run.nodes, hchars, lower, lowerNode]

theorem prints_comment (run run' : Run) (span : Span) :
    Prints (lower true (run.nodes ++ ⟨.comment, span⟩ :: run'.nodes))
      (run.chars.reverse ++ run'.chars.reverse) := by
  obtain ⟨p, hfirst⟩ := lower_run true run (⟨.comment, span⟩ :: run'.nodes)
  obtain ⟨q, hsecond⟩ := lower_run true run' []
  rw [List.append_nil] at hsecond
  have hcomment : lower true (⟨.comment, span⟩ :: run'.nodes) = lower true run'.nodes := rfl
  rw [hfirst, hcomment, hsecond]
  unfold Prints
  by_cases hchars : run.chars = []
  · by_cases hchars' : run'.chars = []
    · simp [hchars, hchars', lower]
    · simp [hchars, hchars', lower, join]
  · by_cases hchars' : run'.chars = []
    · simp [hchars, hchars', lower, join]
    · simp [hchars, hchars', lower, join]

theorem writes_text {u : List Char} (hat : '@' ∉ u) (name : String) :
    Writes ⟨name, .ofList u⟩ t u := by
  obtain ⟨texts, hgathers, e, hread⟩ :=
    pieces_end_text (t := t) (d := .start u) hat (Nat.lt_succ_self _)
  obtain ⟨run, hrun, hchars⟩ := hgathers {} []
  have hrest : (Cursor.start u).rest = u := rfl
  rw [hrest] at hread hchars
  have hnodes : gather texts = run.nodes := by
    rw [List.append_nil] at hrun
    rw [gather, hrun, gatherFrom]
  have hfaults : nodeFaults run.nodes = [] := by
    rw [← List.append_nil run.nodes, nodeFaults_run]
    rfl
  obtain ⟨span, hlower⟩ := lower_run true run []
  rw [List.append_nil] at hlower
  simp only [Writes, Tree.allDiagnostics, Tree.parse, String.toList_ofList, hread, hnodes,
    hfaults, hlower]
  refine ⟨rfl, ?_⟩
  have hchars : run.chars.reverse = u := by simp [hchars]
  rw [← hchars]
  unfold Prints
  by_cases hempty : run.chars = []
  · simp [hempty, lower]
  · simp [hempty, lower, join]

def commented (a c b : List Char) : List Char := a ++ '@' :: '*' :: c ++ '*' :: '@' :: b

def mark (a c b : List Char) : Cursor := (Cursor.start (commented a c b)).past a

theorem rest_mark (a c b : List Char) : (mark a c b).rest = '@' :: '*' :: c ++ '*' :: '@' :: b := by
  have hstart : (Cursor.start (commented a c b)).rest =
      a ++ ('@' :: '*' :: c ++ '*' :: '@' :: b) := by
    simp [Cursor.start, commented]
  exact rest_forward_of_append hstart

section
variable (ha : '@' ∉ a) (hb : '@' ∉ b) (hc : ¬ ['*', '@'] <:+: c)
include ha hb hc

theorem pieces_commented (hout : Outside (.start (commented a c b)) (mark a c b)) :
    ∃ texts texts' span e, Gathers a texts ∧ Gathers b texts' ∧
      pieces t .topLevel ((commented a c b).length + 1) 0 (.start (commented a c b)) =
        ⟨texts ++ .node .comment span false :: texts', [], e⟩ := by
  have hrest := rest_mark a c b
  have hstart : (Cursor.start (commented a c b)).rest = a ++ (mark a c b).rest := by
    rw [hrest]
    simp [Cursor.start, commented]
  obtain ⟨texts, hgathers, hpieces⟩ := pieces_outside (t := t) hout hstart ha (.inl rfl)
  obtain ⟨m, hm, hread⟩ := hpieces _ (Nat.lt_succ_self _)
  obtain ⟨m, rfl⟩ := Nat.exists_eq_succ_of_ne_zero (Nat.ne_of_gt (Nat.zero_lt_of_lt hm))
  obtain ⟨span, hcomment⟩ := comment_eq hrest hc
  have hbehind : ((mark a c b).forward (c.length + 4)).rest = b := by
    have hsplit : (mark a c b).rest = ('@' :: '*' :: c ++ ['*', '@']) ++ b := by rw [hrest]; simp
    have hforward := rest_forward_of_append hsplit
    simpa using hforward
  have hless : ((mark a c b).forward (c.length + 4)).rest.length < m := by
    rw [hbehind]
    rw [hrest] at hm
    simp only [List.length_append, List.length_cons] at hm
    omega
  obtain ⟨texts', hgathers', e, hend⟩ := pieces_end_text (t := t) (by rwa [hbehind]) hless
  rw [hbehind] at hgathers'
  refine ⟨texts, texts', span, e, hgathers, hgathers', ?_⟩
  have hcursor : (Cursor.start (commented a c b)).rest.length = (commented a c b).length := rfl
  rw [hcursor] at hread
  rw [hread, pieces_simple hrest (announced_comment hrest), hcomment, hend]
  simp [Outcome.followedBy]

theorem writes_outside (name : String) (hout : Outside (.start (commented a c b)) (mark a c b)) :
    Writes ⟨name, .ofList (commented a c b)⟩ t (a ++ b) := by
  obtain ⟨texts, texts', span, e, hgathers, hgathers', hread⟩ :=
    pieces_commented (t := t) ha hb hc hout
  obtain ⟨run, hrun, hchars⟩ := hgathers {} (.node .comment span false :: texts')
  obtain ⟨run', hrun', hchars'⟩ := hgathers' {} []
  rw [List.append_nil] at hrun'
  have hnodes : gather (texts ++ .node .comment span false :: texts') =
      run.nodes ++ ⟨.comment, span⟩ :: run'.nodes := by
    rw [gather, hrun, gatherFrom, if_neg Bool.false_ne_true, hrun', gatherFrom]
  have hfaults : nodeFaults (run.nodes ++ ⟨.comment, span⟩ :: run'.nodes) = [] := by
    have hlast := nodeFaults_run run' []
    rw [List.append_nil] at hlast
    rw [nodeFaults_run, nodeFaults, hlast]
    rfl
  have hprints := prints_comment run run' span
  rw [hchars, hchars'] at hprints
  simp only [Writes, Tree.allDiagnostics, Tree.parse, String.toList_ofList, hread, hnodes, hfaults]
  exact ⟨rfl, by simpa using hprints⟩

end

/-! Tags that go over the mark -/

/-- The stream tells of an at sign: it has one, or an attribute. -/
def Telling (es : List Event) : Prop :=
  .char '@' ∈ es ∨ ∃ name opening closing count, .beginAttribute name opening closing count ∈ es

theorem Telling.left {es : List Event} (h : Telling es) (fs : List Event) : Telling (es ++ fs) := by
  rcases h with h | ⟨name, opening, closing, count, h⟩
  · exact .inl (List.mem_append_left fs h)
  · exact .inr ⟨name, opening, closing, count, List.mem_append_left fs h⟩

theorem Telling.right {es : List Event} (h : Telling es) (fs : List Event) :
    Telling (fs ++ es) := by
  rcases h with h | ⟨name, opening, closing, count, h⟩
  · exact .inl (List.mem_append_right fs h)
  · exact .inr ⟨name, opening, closing, count, List.mem_append_right fs h⟩

theorem telling_run {run : Run} (h : '@' ∈ run.chars) : Telling (treeEvents true run.nodes) := by
  have hchars : run.chars ≠ [] := List.ne_nil_of_mem h
  refine .inl ?_
  simp [Run.nodes, hchars, treeEvents, nodeEvents, Event.ofText, h]

theorem telling_gatherFrom {run : Run} (h : '@' ∈ run.chars) (ps : List Piece) :
    Telling (treeEvents true (gatherFrom run ps)) := by
  induction ps generalizing run with
  | nil => exact telling_run h
  | cons p ps ih =>
    cases p with
    | text cs offset => exact ih (by simp [Run.add, h] : '@' ∈ (run.add cs offset).chars)
    | node n span alone =>
      have htrim : '@' ∈ (if alone then run.trimPads else run).chars := by
        cases alone with
        | false => exact h
        | true =>
          have hsplit := List.takeWhile_append_dropWhile (p := Text.isPad) (l := run.chars)
          rw [← hsplit] at h
          rcases List.mem_append.mp h with h | h
          · exact absurd (List.mem_takeWhile_imp h) (by decide)
          · exact h
      rw [gatherFrom, treeEvents_append]
      exact (telling_run htrim).left _

theorem telling_shows {ps : List Piece} (h : Shows ps) (run : Run) :
    Telling (treeEvents true (gatherFrom run ps)) := by
  induction ps generalizing run with
  | nil =>
    obtain ⟨p, hp, -⟩ := h
    cases hp
  | cons p ps ih =>
    obtain ⟨q, hq, hshows⟩ := h
    rcases List.mem_cons.mp hq with rfl | hq
    · rcases hshows with ⟨cs, offset, rfl, hat⟩ | ⟨a, span, rfl⟩
      · exact telling_gatherFrom (by simp [Run.add, hat] : '@' ∈ (run.add cs offset).chars) ps
      · rw [gatherFrom, treeEvents_append]
        refine Telling.right (.inr ⟨a.name, a.opening, a.closing, a.parts.length, ?_⟩) _
        simp [treeEvents, nodeEvents]
    · have hmore : Shows ps := ⟨q, hq, hshows⟩
      cases p with
      | text cs offset => exact ih hmore (run.add cs offset)
      | node n span alone =>
        rw [gatherFrom, treeEvents_append, treeEvents]
        exact ((ih hmore {}).right _).right _

theorem outside_of_writes (ha : '@' ∉ a) (hb : '@' ∉ b) (name : String)
    (h : Writes ⟨name, .ofList (commented a c b)⟩ t (a ++ b)) :
    Outside (.start (commented a c b)) (mark a c b) := by
  have hstart : (Cursor.start (commented a c b)).rest =
      a ++ '@' :: ('*' :: c ++ '*' :: '@' :: b) := by
    simp [Cursor.start, commented]
  rcases outside_or_overrun hstart ha with hout | hover
  · exact hout
  obtain ⟨v, f, ps, e, hout, hv, hvat, hread, hshows⟩ := hover.shows hstart ha
  obtain ⟨texts, -, hpieces⟩ := pieces_outside (t := t) hout hv hvat (.inl rfl)
  obtain ⟨m, hm, htexts⟩ := hpieces ((commented a c b).length + 1) (Nat.lt_succ_self _)
  obtain ⟨m, rfl⟩ := Nat.exists_eq_succ_of_ne_zero (Nat.ne_of_gt (Nat.zero_lt_of_lt hm))
  obtain ⟨r, hless⟩ := rest_of_read hread
  rw [pieces_tag hless hread] at htexts
  have hmore :
      Shows (pieces t .topLevel ((commented a c b).length + 1) 0
        (.start (commented a c b))).val := by
    obtain ⟨p, hp, hshow⟩ := hshows
    rw [htexts]
    exact ⟨p, List.mem_append_right _ (List.mem_append_left _ hp), hshow⟩
  have htelling :
      Telling (events (lower true (Tree.parse ⟨name, .ofList (commented a c b)⟩ t).nodes)) := by
    rw [events_lower]
    simp only [Tree.parse, String.toList_ofList]
    exact telling_shows hmore {}
  rw [h.2.events] at htelling
  rcases htelling with hat | ⟨name, opening, closing, count, hbegin⟩
  · simp [Event.ofText, ha, hb] at hat
  · simp [Event.ofText] at hbegin

/-- A comment leaves nothing: what is around it is one text, as it is without the comment. That is
so wherever no tag is read over the place where it begins, and only there. Nothing of a comment is
left, therefore, where the text before it is outside of tags, whatever is in the
comment and follows it. -/
theorem comment_leaves_nothing (name : String) (t : DirectiveTable) {a b c : List Char}
    (ha : ∀ x ∈ a, x ≠ '@' ∧ x ≠ '/') (hb : ∀ x ∈ b, x ≠ '@' ∧ x ≠ '/') (hc : ¬ ['*', '@'] <:+: c)
    (hstalls : ¬ Offset.Stalls ⟨name, .ofList (commented a c b)⟩ t) :
    Writes ⟨name, .ofList (a ++ b)⟩ t (a ++ b) ∧
      (∀ n, (commented a c b).length < n →
        Offset.parse false n ⟨name, .ofList (commented a c b)⟩ t =
        .ok (Tree.parse ⟨name, .ofList (commented a c b)⟩ t)) ∧
      (Writes ⟨name, .ofList (commented a c b)⟩ t (a ++ b) ↔
        Outside (.start (commented a c b)) (mark a c b)) ∧
      (Place.behind none a (.hole :: closers) = none →
        Writes ⟨name, .ofList (commented a c b)⟩ t (a ++ b)) := by
  have hata : '@' ∉ a := fun hmem => (ha _ hmem).1 rfl
  have hatb : '@' ∉ b := fun hmem => (hb _ hmem).1 rfl
  have hat : '@' ∉ a ++ b := by simp [hata, hatb]
  have hwrites := writes_outside (t := t) hata hatb hc name
  refine ⟨writes_text hat name, fun n hn => ?_, ⟨outside_of_writes hata hatb name, hwrites⟩,
    fun hplace => ?_⟩
  · exact Offset.parse_of_not_stalls hstalls (by simpa using hn)
  · have hstart : (Cursor.start (commented a c b)).rest =
        a ++ '@' :: ('*' :: c ++ '*' :: '@' :: b) := by
      simp [Cursor.start, commented]
    exact hwrites (outside_of_behind ha hstart hplace)

/-- Between two tags nothing is left of a comment. In the name of a tag all of it is. -/
theorem comment_leaves_nothing_tags :
    (¬ Offset.Stalls ⟨"page", "<b>@*>*@<i>"⟩ .standard ∧
      Writes ⟨"page", "<b>@*>*@<i>"⟩ .standard ['<', 'b', '>', '<', 'i', '>']) ∧
      ¬ Offset.Stalls ⟨"page", "<di@*c*@v>"⟩ .standard ∧
        ¬ Writes ⟨"page", "<di@*c*@v>"⟩ .standard ['<', 'd', 'i', 'v', '>'] := by
  have hbetween : ¬ Offset.Stalls ⟨"page", "<b>@*>*@<i>"⟩ .standard :=
    Offset.not_stalls (by decide) .standard
  have hname : ¬ Offset.Stalls ⟨"page", "<di@*c*@v>"⟩ .standard :=
    Offset.not_stalls (by decide) .standard
  have hnothing :=
    comment_leaves_nothing "page" .standard (a := ['<', 'b', '>']) (b := ['<', 'i', '>'])
      (c := ['>']) (by simp)
      (by simp) (by decide) hbetween
  refine ⟨⟨hbetween, hnothing.2.2.2 rfl⟩, hname, fun hwrites => ?_⟩
  have hlower : lower true (Tree.parse ⟨"page", "<di@*c*@v>"⟩ .standard).nodes =
      [⟨.literal "<di@*c*@v>", 0, 10⟩] := rfl
  obtain ⟨span, hprints⟩ : ∃ span, lower true _ = [⟨.literal "<div>", span⟩] := hwrites.2
  rw [hlower] at hprints
  simp at hprints

end Templating.Page
