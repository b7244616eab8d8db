import Mathlib.Data.List.Chain
import Templating.Proofs.Page.Attributes

/-! Lowering keeps what nodes say and says it in one way. Read as a stream, the statements are what
the nodes are, read in order; in each list of statements no two literals meet, each attribute is
whole, and a literal spans the markup that it was made of. -/
namespace Templating.Page
open Markup (Clause DirectiveUse Node Nodes Part)

/-! Streams -/

/-- What a body does or a tree says, with literal text in characters. -/
inductive Event where
  | char (c : Char)
  | expression (code : String)
  | code (code : String)
  | block (branches : List (Clause Event))
  | choice (scrutinee : String) (arms : List (Clause Event))
  | beginAttribute (name opening closing : String) (count : Nat)
  | part (p : Part)
  | endAttribute
  | defineSection (name : String) (body : List Event)

def Event.ofText (s : String) : List Event := s.toList.map .char

mutual

def Statement.events : Statement → List Event
  | .literal text => Event.ofText text
  | .expression code => [.expression code]
  | .code code => [.code code]
  | .block branches => [.block (clauseEvents branches)]
  | .choice scrutinee arms => [.choice scrutinee (clauseEvents arms)]
  | .beginAttribute name opening closing count => [.beginAttribute name opening closing count]
  | .part p => [.part p]
  | .endAttribute => [.endAttribute]
  | .defineSection name body => [.defineSection name (events body)]

def events : Body → List Event
  | [] => []
  | ⟨s, _⟩ :: b => s.events ++ events b

def clauseEvents : List (Clause (Located Statement)) → List (Clause Event)
  | [] => []
  | ⟨head, body⟩ :: cs => ⟨head, events body⟩ :: clauseEvents cs

end

/-- The directive defines a section: it stands at the top level, nothing is wrong with it, and it
has a name and a body of markup. -/
def Section (top : Bool) (d : DirectiveUse (Located Node)) (name : String) (body : Nodes) : Prop :=
  top = true ∧ d.keyword = "section" ∧ d.faults = [] ∧ d.tokens.head?.map (·.val.text) = some name ∧
    d.body? = some (.markup body)

/-- Comments, and directives that do not define a section. -/
def Silent (top : Bool) : Node → Prop
  | .comment => True
  | .directive d => ∀ name body, ¬ Section top d name body
  | _ => False

mutual

/-- What a node says; of directives only sections say something, and only at the top level. -/
def nodeEvents (top : Bool) : Node → List Event
  | .markup text => Event.ofText text
  | .comment => []
  | .expression code => [.expression code]
  | .code code => [.code code]
  | .control branches => [.block (branchEvents branches)]
  | .choice scrutinee arms => [.choice scrutinee (branchEvents arms)]
  | .attribute a =>
    .beginAttribute a.name a.opening a.closing a.parts.length ::
      a.parts.map (fun p => .part p.val) ++ [.endAttribute]
  | .directive ⟨keyword, name :: _, some (.markup body), []⟩ =>
    if top && keyword == "section" then
      [.defineSection name.val.text (treeEvents false body)] else []
  | .directive _ => []

def treeEvents (top : Bool) : Nodes → List Event
  | [] => []
  | ⟨n, _⟩ :: ns => nodeEvents top n ++ treeEvents top ns

def branchEvents : List (Clause (Located Node)) → List (Clause Event)
  | [] => []
  | ⟨head, body⟩ :: cs => ⟨head, treeEvents false body⟩ :: branchEvents cs

end

theorem events_append (a b : Body) : events (a ++ b) = events a ++ events b := by
  induction a with
  | nil => rfl
  | cons s a ih => rw [List.cons_append, events, ih, events, List.append_assoc]

theorem Event.ofText_append (x y : String) : ofText (x ++ y) = ofText x ++ ofText y := by
  simp [ofText]

theorem events_join (text : String) (span : Span) (b : Body) :
    events (join ⟨.literal text, span⟩ b) = Event.ofText text ++ events b := by
  unfold join
  split
  next hs =>
    cases hs
    simp only [events, Statement.events, Event.ofText_append, List.append_assoc]
  next => simp only [events, Statement.events]

theorem events_ofAttribute (a : Markup.Attribute) (span : Span) : events (ofAttribute a span) =
    .beginAttribute a.name a.opening a.closing a.parts.length ::
      a.parts.map (fun p => .part p.val) ++ [.endAttribute] := by
  have hparts : ∀ ps : List (Located Part), events (ps.map fun p => ⟨.part p.val, p.span⟩) =
      ps.map fun p => .part p.val := by
    intro ps
    induction ps with
    | nil => rfl
    | cons p ps ih => simp [events, Statement.events, ih]
  simp [ofAttribute, events, events_append, Statement.events, hparts]

mutual

theorem events_lowerNode (top : Bool) (span : Span) (after : Body) :
    ∀ n : Node, events (lowerNode top span after n) = nodeEvents top n ++ events after
  | .markup text => events_join text span after
  | .comment => rfl
  | .expression code => rfl
  | .code code => rfl
  | .control branches => by
    simp [lowerNode, events, Statement.events, nodeEvents, clauseEvents_lowerClauses branches]
  | .choice scrutinee arms => by
    simp [lowerNode, events, Statement.events, nodeEvents, clauseEvents_lowerClauses arms]
  | .attribute a => by rw [lowerNode, events_append, events_ofAttribute, nodeEvents]
  | .directive ⟨keyword, [], body, fs⟩ => rfl
  | .directive ⟨keyword, t :: ts, none, fs⟩ => rfl
  | .directive ⟨keyword, t :: ts, some (.code c), fs⟩ => rfl
  | .directive ⟨keyword, t :: ts, some (.markup body), f :: fs⟩ => rfl
  | .directive ⟨keyword, t :: ts, some (.markup body), []⟩ => by
    rw [lowerNode, nodeEvents]
    split
    · simp [events, Statement.events, events_lower false body]
    · rfl

theorem events_lower (top : Bool) : ∀ ns : Nodes, events (lower top ns) = treeEvents top ns
  | [] => rfl
  | ⟨n, span⟩ :: ns => by rw [lower, events_lowerNode, events_lower top ns, treeEvents]

theorem clauseEvents_lowerClauses :
    ∀ cs : List (Clause (Located Node)), clauseEvents (lowerClauses cs) = branchEvents cs
  | [] => rfl
  | ⟨head, body⟩ :: cs => by
    rw [lowerClauses, clauseEvents, events_lower false body, clauseEvents_lowerClauses cs,
      branchEvents]

end

/-! What a node puts in front of a body -/

def Statement.IsLiteral (s : Statement) : Prop := ∃ text, s = .literal text

theorem lowerNode_directive (top : Bool) (span : Span) : ∀ d : DirectiveUse (Located Node),
    (∃ name body, Section top d name body ∧ ∀ after,
      lowerNode top span after (.directive d) = ⟨.defineSection name (lower false body), span⟩ ::
        after) ∨
    Silent top (.directive d) ∧ ∀ after, lowerNode top span after (.directive d) = after
  | ⟨keyword, [], body?, faults⟩ => .inr ⟨fun _ _ h => by simp [Section] at h, fun _ => rfl⟩
  | ⟨keyword, t :: ts, none, faults⟩ => .inr ⟨fun _ _ h => by simp [Section] at h, fun _ => rfl⟩
  | ⟨keyword, t :: ts, some (.code c), faults⟩ =>
    .inr ⟨fun _ _ h => by simp [Section] at h, fun _ => rfl⟩
  | ⟨keyword, t :: ts, some (.markup body), f :: faults⟩ =>
    .inr ⟨fun _ _ h => by simp [Section] at h, fun _ => rfl⟩
  | ⟨keyword, t :: ts, some (.markup body), []⟩ => by
    by_cases h : (top && keyword == "section") = true
    · obtain ⟨htop, hkeyword⟩ := Bool.and_eq_true_iff.mp h
      refine .inl ⟨t.val.text, body, ⟨htop, eq_of_beq hkeyword, rfl, rfl, rfl⟩, fun after => ?_⟩
      rw [lowerNode, if_pos h]
    · refine .inr ⟨fun name body hs => h ?_, fun after => ?_⟩
      · simpa using And.intro hs.1 hs.2.1
      · rw [lowerNode, if_neg h]

theorem lowerNode_cases (top : Bool) (span : Span) (n : Node) :
    (∃ text, n = .markup text) ∨ (Silent top n ∧ ∀ after, lowerNode top span after n = after) ∨
      ∃ front : Body, front ≠ [] ∧ (∀ s ∈ front, ¬ s.val.IsLiteral) ∧ ∀ after,
        lowerNode top span after n = front ++ after := by
  have hsingle : ∀ s : Statement, ¬ s.IsLiteral →
    (∀ after, lowerNode top span after n = ⟨s, span⟩ :: after) →
      ∃ front : Body, front ≠ [] ∧ (∀ s ∈ front, ¬ s.val.IsLiteral) ∧ ∀ after,
        lowerNode top span after n = front ++ after := by
    intro s hs hlower
    refine ⟨[⟨s, span⟩], List.cons_ne_nil _ _, fun x hx => ?_, hlower⟩
    obtain rfl := List.mem_singleton.mp hx
    exact hs
  match n with
  | .markup text => exact .inl ⟨text, rfl⟩
  | .comment => exact .inr (.inl ⟨trivial, fun _ => rfl⟩)
  | .expression code =>
    exact .inr (.inr (hsingle (.expression code) (by rintro ⟨t, ht⟩; cases ht) fun _ => rfl))
  | .code code =>
    exact .inr (.inr (hsingle (.code code) (by rintro ⟨t, ht⟩; cases ht) fun _ => rfl))
  | .control branches =>
    exact .inr (.inr (hsingle (.block (lowerClauses branches)) (by rintro ⟨t, ht⟩; cases ht)
      fun _ => rfl))
  | .choice scrutinee arms =>
    exact .inr (.inr (hsingle (.choice scrutinee (lowerClauses arms)) (by rintro ⟨t, ht⟩; cases ht)
      fun _ => rfl))
  | .attribute a =>
    refine .inr (.inr ⟨ofAttribute a span, List.cons_ne_nil _ _, ?_, fun _ => rfl⟩)
    rintro s hs ⟨t, ht⟩
    simp only [ofAttribute, List.cons_append, List.mem_cons, List.mem_append, List.mem_map,
      List.not_mem_nil, or_false] at hs
    rcases hs with rfl | ⟨p, -, rfl⟩ | rfl <;> cases ht
  | .directive d =>
    rcases lowerNode_directive top span d with ⟨name, body, -, hlower⟩ | hsilent
    · exact .inr
        (.inr (hsingle (.defineSection name (lower false body)) (by rintro ⟨t, ht⟩; cases ht)
          hlower))
    · exact .inr (.inl hsilent)

/-! Literals -/

/-- Of two statements in a row, one is no literal. -/
def Alternates (b : Body) : Prop := b.IsChain fun s t => ¬ (s.val.IsLiteral ∧ t.val.IsLiteral)

theorem isLiteral_literal (text : String) : (Statement.literal text).IsLiteral := ⟨text, rfl⟩

theorem join_cases (x : String) (p : Span) (b : Body) :
    (∃ y q rest, b = ⟨.literal y, q⟩ :: rest ∧ join ⟨.literal x, p⟩ b =
      ⟨.literal (x ++ y), p.start, q.stop⟩ :: rest) ∨
      (∀ s ∈ b.head?, ¬ s.val.IsLiteral) ∧ join ⟨.literal x, p⟩ b = ⟨.literal x, p⟩ :: b := by
  match b with
  | [] => exact .inr ⟨fun s hs => (nomatch hs), rfl⟩
  | ⟨s, q⟩ :: rest =>
    by_cases hs : s.IsLiteral
    · obtain ⟨y, rfl⟩ := hs
      exact .inl ⟨y, q, rest, rfl, rfl⟩
    · refine .inr ⟨fun t ht => by cases ht; exact hs, ?_⟩
      cases s with
      | literal y => exact absurd (isLiteral_literal y) hs
      | _ => rfl

theorem Alternates.cons {s : Located Statement} {b : Body}
    (hs : s.val.IsLiteral → ∀ t ∈ b.head?, ¬ t.val.IsLiteral)
    (h : Alternates b) : Alternates (s :: b) :=
  List.isChain_cons.mpr ⟨fun t ht hboth => hs hboth.1 t ht hboth.2, h⟩

theorem Alternates.join {b : Body} (h : Alternates b) (x : String) (p : Span) :
    Alternates (join ⟨.literal x, p⟩ b) := by
  rcases join_cases x p b with ⟨y, q, rest, rfl, hjoin⟩ | ⟨hhead, hjoin⟩
  · obtain ⟨hfirst, hrest⟩ := List.isChain_cons.mp h
    rw [hjoin]
    exact Alternates.cons (fun _ t ht hlit => hfirst t ht ⟨isLiteral_literal y, hlit⟩) hrest
  · rw [hjoin]
    exact Alternates.cons (fun _ => hhead) h

/-- No two literals meet, whatever vanished between them. -/
theorem alternates_lower (top : Bool) (ns : Nodes) : Alternates (lower top ns) := by
  induction ns with
  | nil => exact .nil
  | cons n ns ih =>
    rw [lower]
    rcases lowerNode_cases top n.span n.val with ⟨x, hx⟩ | ⟨-, hlower⟩ | ⟨front, -, hfront, hlower⟩
    · rw [hx]
      exact ih.join x n.span
    · rwa [hlower]
    · rw [hlower]
      clear hlower
      induction front with
      | nil => exact ih
      | cons s front ihfront =>
        have hs := hfront s List.mem_cons_self
        exact Alternates.cons (fun hlit => absurd hlit hs) (ihfront fun t ht =>
          hfront t (List.mem_cons_of_mem s ht))

/-- Markup and silent nodes that begin and end with markup, their text in one, and the bytes from
the first to the last. -/
structure Merged (top : Bool) (run : Nodes) (text : String) (span : Span) : Prop where
  first : ∃ x p, run.head? = some ⟨.markup x, p⟩ ∧ span.start = p.start
  last : ∃ x p, run.getLast? = some ⟨.markup x, p⟩ ∧ span.stop = p.stop
  inner : ∀ n ∈ run, (∃ x, n.val = .markup x) ∨ Silent top n.val
  content : treeEvents top run = Event.ofText text

theorem Merged.single (top : Bool) (x : String) (p : Span) : Merged top [⟨.markup x, p⟩] x p where
  first := ⟨x, p, rfl, rfl⟩
  last := ⟨x, p, rfl, rfl⟩
  inner n hn := .inl ⟨x, by rw [List.mem_singleton.mp hn]⟩
  content := by simp [treeEvents, nodeEvents]

theorem treeEvents_append (top : Bool) (a b : Nodes) :
    treeEvents top (a ++ b) = treeEvents top a ++ treeEvents top b := by
  induction a with
  | nil => rfl
  | cons n a ih => rw [List.cons_append, treeEvents, ih, treeEvents, List.append_assoc]

theorem silent_of_lower {top : Bool} {ns : Nodes} (h : lower top ns = []) :
    ∀ n ∈ ns, Silent top n.val := by
  induction ns with
  | nil => exact fun n hn => by cases hn
  | cons n ns ih =>
    rw [lower] at h
    rcases lowerNode_cases top n.span n.val with
      ⟨x, hx⟩ | ⟨hsilent, hlower⟩ | ⟨front, hne, -, hlower⟩
    · rw [hx, lowerNode] at h
      rcases join_cases x n.span (lower top ns) with ⟨y, q, rest, -, hjoin⟩ | ⟨-, hjoin⟩ <;>
        simp [hjoin] at h
    · rw [hlower] at h
      exact List.forall_mem_cons.mpr ⟨hsilent, ih h⟩
    · rw [hlower] at h
      exact absurd (List.append_eq_nil_iff.mp h).1 hne

theorem Merged.extend {top : Bool} {run : Nodes} {y : String} {q : Span} (h : Merged top run y q)
    {quiet : Nodes} (hquiet : lower top quiet = []) (x : String) (p : Span) :
    Merged top (⟨.markup x, p⟩ :: (quiet ++ run)) (x ++ y) ⟨p.start, q.stop⟩ where
  first := ⟨x, p, rfl, rfl⟩
  last := by
    obtain ⟨z, r, hlast, hstop⟩ := h.last
    refine ⟨z, r, ?_, hstop⟩
    rw [← List.cons_append, List.getLast?_append, hlast]
    rfl
  inner := by
    intro n hn
    rcases List.mem_cons.mp hn with rfl | hn
    · exact .inl ⟨x, rfl⟩
    rcases List.mem_append.mp hn with hn | hn
    · exact .inr (silent_of_lower hquiet n hn)
    · exact h.inner n hn
  content := by
    have hnone : treeEvents top quiet = [] := by rw [← events_lower, hquiet, events]
    rw [treeEvents, treeEvents_append, hnone, h.content, nodeEvents, List.nil_append,
      Event.ofText_append]

theorem exists_behind {front b pre post : Body} {s : Located Statement}
    (hfront : ∀ t ∈ front, ¬ t.val.IsLiteral)
    (hs : s.val.IsLiteral) (h : front ++ b = pre ++ s :: post) :
    ∃ more, pre = front ++ more ∧ b = more ++ s :: post := by
  induction front generalizing pre with
  | nil => exact ⟨pre, rfl, h⟩
  | cons t front ih =>
    cases pre with
    | nil =>
      obtain ⟨rfl, -⟩ := List.cons.inj h
      exact absurd hs (hfront t List.mem_cons_self)
    | cons u pre =>
      obtain ⟨rfl, hrest⟩ := List.cons.inj h
      obtain ⟨more, rfl, hb⟩ := ih (fun t ht => hfront t (List.mem_cons_of_mem _ ht)) hrest
      exact ⟨more, rfl, hb⟩

theorem merged_of_lower {top : Bool} {ns : Nodes} {pre post : Body} {text : String} {span : Span}
    (h : lower top ns = pre ++ ⟨.literal text, span⟩ :: post) :
    ∃ before run behind, ns = before ++ run ++ behind ∧ lower top before = pre ∧
      lower top behind = post ∧
      Merged top run text span := by
  induction ns generalizing pre text span with
  | nil => simp [lower] at h
  | cons n ns ih =>
    rw [lower] at h
    rcases lowerNode_cases top n.span n.val with ⟨x, hx⟩ | ⟨-, hlower⟩ | ⟨front, -, hfront, hlower⟩
    · obtain ⟨n, p⟩ := n
      obtain rfl : n = .markup x := hx
      rw [lowerNode] at h
      rcases join_cases x p (lower top ns) with ⟨y, q, rest, hns, hjoin⟩ | ⟨hhead, hjoin⟩
      · rw [hjoin] at h
        cases pre with
        | nil =>
          obtain ⟨hs, rfl⟩ := List.cons.inj h
          cases hs
          have hfirst : lower top ns = [] ++ ⟨.literal y, q⟩ :: rest := hns
          obtain ⟨before, run, behind, rfl, hbefore, hbehind, hmerged⟩ := ih hfirst
          exact ⟨[], ⟨.markup x, p⟩ :: (before ++ run), behind,
            by simp, rfl, hbehind, hmerged.extend hbefore x p⟩
        | cons s pre =>
          obtain ⟨rfl, rfl⟩ := List.cons.inj h
          have hlater : lower top ns = (⟨.literal y, q⟩ :: pre) ++ ⟨.literal text, span⟩ :: post :=
            hns
          obtain ⟨before, run, behind, rfl, hbefore, hbehind, hmerged⟩ := ih hlater
          refine ⟨⟨.markup x, p⟩ :: before, run, behind, rfl, ?_, hbehind, hmerged⟩
          rw [lower, lowerNode, hbefore, join]
      · rw [hjoin] at h
        cases pre with
        | nil =>
          obtain ⟨hs, rfl⟩ := List.cons.inj h
          cases hs
          exact ⟨[], [⟨.markup text, span⟩], ns, rfl, rfl, rfl, .single top text span⟩
        | cons s pre =>
          obtain ⟨rfl, hns⟩ := List.cons.inj h
          obtain ⟨before, run, behind, rfl, hbefore, hbehind, hmerged⟩ := ih hns
          refine ⟨⟨.markup x, p⟩ :: before, run, behind, rfl, ?_, hbehind, hmerged⟩
          rw [lower, lowerNode, hbefore]
          rcases join_cases x p pre with ⟨y, q, rest, rfl, -⟩ | ⟨-, hjoin⟩
          · rw [hns] at hhead
            exact absurd (isLiteral_literal y) (hhead _ rfl)
          · exact hjoin
    · rw [hlower] at h
      obtain ⟨before, run, behind, rfl, hbefore, hbehind, hmerged⟩ := ih h
      exact ⟨n :: before, run, behind, rfl, by rw [lower, hlower, hbefore], hbehind, hmerged⟩
    · rw [hlower] at h
      obtain ⟨more, rfl, hns⟩ := exists_behind hfront (isLiteral_literal text) h
      obtain ⟨before, run, behind, rfl, hbefore, hbehind, hmerged⟩ := ih hns
      exact ⟨n :: before, run, behind, rfl, by rw [lower, hlower, hbefore], hbehind, hmerged⟩

/-! Attributes -/

/-- Behind the begin of an attribute stand just as many parts as it tells, and then its end. -/
def Whole (b : Body) : Prop :=
  ∀ pre name opening closing count span post,
    b = pre ++ ⟨.beginAttribute name opening closing count, span⟩ :: post →
    ∃ (parts : List (Located Part)) (stop : Span) (rest : Body), parts.length = count ∧
      post = parts.map (fun p => ⟨.part p.val, p.span⟩) ++ ⟨.endAttribute, stop⟩ :: rest

theorem Framed.exists_parts {count : Nat} {b : Body} (h : Framed (some count) b) :
    ∃ (parts : List (Located Part)) (stop : Span) (rest : Body), parts.length = count ∧
      b = parts.map (fun p => ⟨.part p.val, p.span⟩) ++ ⟨.endAttribute, stop⟩ :: rest := by
  induction count generalizing b with
  | zero => cases h with | @endAttribute p b h => exact ⟨[], p, b, rfl, rfl⟩
  | succ count ih =>
    cases h with
    | @part q _ p b h =>
      obtain ⟨parts, stop, rest, hlength, rfl⟩ := ih h
      exact ⟨⟨q, p⟩ :: parts, stop, rest, by simp [hlength], rfl⟩

theorem Framed.whole {st : Option Nat} {b : Body} (h : Framed st b) : Whole b := by
  intro pre name opening closing count span post hb
  subst hb
  induction pre generalizing st with
  | nil => cases h with | beginAttribute h => exact h.exists_parts
  | cons s pre ih => cases h <;> exact ih ‹_›

/-! Every depth -/

/-- The second body is the first, or one that a statement of it holds, at any depth. -/
inductive Within : Body → Body → Prop
  | here (b : Body) : Within b b
  | block {a b : Body} {branches : List (Clause (Located Statement))} {c p}
      (hs : ⟨.block branches, p⟩ ∈ a) (hc : c ∈ branches)
      (h : Within c.body b) : Within a b
  | choice {a b : Body} {scrutinee : String} {arms : List (Clause (Located Statement))} {c p}
      (hs : ⟨.choice scrutinee arms, p⟩ ∈ a) (hc : c ∈ arms) (h : Within c.body b) : Within a b
  | defineSection {a b : Body} {name : String} {body : Body} {p}
      (hs : ⟨.defineSection name body, p⟩ ∈ a) (h : Within body b) :
      Within a b

/-- The second nodes are the first, or those of a branch, an arm or a section among them, at any
depth. Only the first may stand at the top level. -/
inductive Beneath : Bool → Nodes → Bool → Nodes → Prop
  | here (top : Bool) (ns : Nodes) : Beneath top ns top ns
  | control {top t : Bool} {ns ms : Nodes} {branches : List (Clause (Located Node))} {c p}
      (hn : ⟨.control branches, p⟩ ∈ ns)
      (hc : c ∈ branches) (h : Beneath false c.body t ms) : Beneath top ns t ms
  | choice {top t : Bool} {ns ms : Nodes} {scrutinee : String}
      {arms : List (Clause (Located Node))} {c p}
      (hn : ⟨.choice scrutinee arms, p⟩ ∈ ns) (hc : c ∈ arms) (h : Beneath false c.body t ms) :
      Beneath top ns t ms
  | defineSection {top t : Bool} {ns ms body : Nodes} {d : DirectiveUse (Located Node)}
      {name : String} {p}
      (hn : ⟨.directive d, p⟩ ∈ ns) (hd : Section top d name body) (h : Beneath false body t ms) :
      Beneath top ns t ms

def ComesFrom (top : Bool) (n : Node) : Statement → Prop
  | .block branches => ∃ bs, n = .control bs ∧ branches = lowerClauses bs
  | .choice scrutinee arms => ∃ cs, n = .choice scrutinee cs ∧ arms = lowerClauses cs
  | .defineSection name body =>
    ∃ d ns, n = .directive d ∧ Section top d name ns ∧ body = lower false ns
  | _ => True

theorem mem_lowerNode {top : Bool} {span : Span} {after : Body} {n : Node} {s : Located Statement}
    (h : s ∈ lowerNode top span after n) : ComesFrom top n s.val ∨ s ∈ after := by
  match n with
  | .markup text =>
    rw [lowerNode] at h
    rcases join_cases text span after with ⟨y, q, rest, rfl, hjoin⟩ | ⟨-, hjoin⟩
    · rw [hjoin] at h
      rcases List.mem_cons.mp h with rfl | h
      · exact .inl trivial
      · exact .inr (List.mem_cons_of_mem _ h)
    · rw [hjoin] at h
      rcases List.mem_cons.mp h with rfl | h
      · exact .inl trivial
      · exact .inr h
  | .comment => exact .inr h
  | .expression code => exact (List.mem_cons.mp h).imp_left (by rintro rfl; trivial)
  | .code code => exact (List.mem_cons.mp h).imp_left (by rintro rfl; trivial)
  | .control branches =>
    exact (List.mem_cons.mp h).imp_left (by rintro rfl; exact ⟨branches, rfl, rfl⟩)
  | .choice scrutinee arms =>
    exact (List.mem_cons.mp h).imp_left (by rintro rfl; exact ⟨arms, rfl, rfl⟩)
  | .attribute a =>
    rw [lowerNode] at h
    refine (List.mem_append.mp h).imp_left fun h => ?_
    simp only [ofAttribute, List.cons_append, List.mem_cons, List.mem_append, List.mem_map,
      List.not_mem_nil, or_false] at h
    rcases h with rfl | ⟨p, -, rfl⟩ | rfl <;> trivial
  | .directive d =>
    rcases lowerNode_directive top span d with ⟨name, body, hd, hlower⟩ | ⟨-, hlower⟩
    · rw [hlower] at h
      exact (List.mem_cons.mp h).imp_left (by rintro rfl; exact ⟨d, body, rfl, hd, rfl⟩)
    · rw [hlower] at h
      exact .inr h

theorem mem_lower {top : Bool} {ns : Nodes} {s : Located Statement} (h : s ∈ lower top ns) :
    ∃ n ∈ ns, ComesFrom top n.val s.val := by
  induction ns with
  | nil => cases h
  | cons n ns ih =>
    rcases mem_lowerNode h with hn | h
    · exact ⟨n, List.mem_cons_self, hn⟩
    · obtain ⟨m, hm, hfrom⟩ := ih h
      exact ⟨m, List.mem_cons_of_mem n hm, hfrom⟩

theorem mem_lowerClauses {cs : List (Clause (Located Node))} {c : Clause (Located Statement)}
    (h : c ∈ lowerClauses cs) :
    ∃ d ∈ cs, c.body = lower false d.body := by
  induction cs with
  | nil => simp [lowerClauses] at h
  | cons d cs ih =>
    rw [lowerClauses] at h
    rcases List.mem_cons.mp h with rfl | h
    · exact ⟨d, List.mem_cons_self, rfl⟩
    · obtain ⟨e, he, hbody⟩ := ih h
      exact ⟨e, List.mem_cons_of_mem d he, hbody⟩

theorem exists_beneath {a b : Body} (h : Within a b) :
    ∀ {top : Bool} {ns : Nodes}, a = lower top ns →
    ∃ t ms, Beneath top ns t ms ∧ b = lower t ms := by
  induction h with
  | here b => exact fun {top ns} ha => ⟨top, ns, .here top ns, ha⟩
  | block hs hc _ ih =>
    rintro top ns rfl
    obtain ⟨⟨n, p⟩, hn, bs, rfl, rfl⟩ := mem_lower hs
    obtain ⟨d, hd, hbody⟩ := mem_lowerClauses hc
    obtain ⟨t, ms, hbeneath, hms⟩ := ih hbody
    exact ⟨t, ms, .control hn hd hbeneath, hms⟩
  | choice hs hc _ ih =>
    rintro top ns rfl
    obtain ⟨⟨n, p⟩, hn, cs, rfl, rfl⟩ := mem_lower hs
    obtain ⟨d, hd, hbody⟩ := mem_lowerClauses hc
    obtain ⟨t, ms, hbeneath, hms⟩ := ih hbody
    exact ⟨t, ms, .choice hn hd hbeneath, hms⟩
  | defineSection hs _ ih =>
    rintro top ns rfl
    obtain ⟨⟨n, p⟩, hn, d, body, rfl, hd, rfl⟩ := mem_lower hs
    obtain ⟨t, ms, hbeneath, hms⟩ := ih rfl
    exact ⟨t, ms, .defineSection hn hd hbeneath, hms⟩

/-- Nodes and their statements are the same stream. In each list of statements, at every depth, no
two literals meet, attributes are whole, and a literal is a run of the nodes that the list comes
from, with the bytes from the first to the last of its markup. -/
theorem lower_canonical (top : Bool) (ns : Nodes) :
    events (lower top ns) = treeEvents top ns ∧
      ∀ b, Within (lower top ns) b →
        ∃ t ms, Beneath top ns t ms ∧ b = lower t ms ∧ Alternates b ∧ Whole b ∧
        ∀ pre text span post, b = pre ++ ⟨.literal text, span⟩ :: post →
          ∃ before run behind, ms = before ++ run ++ behind ∧ lower t before = pre ∧
            lower t behind = post ∧
            Merged t run text span := by
  refine ⟨events_lower top ns, fun b hb => ?_⟩
  obtain ⟨t, ms, hbeneath, rfl⟩ := exists_beneath hb rfl
  exact ⟨t, ms, hbeneath, rfl, alternates_lower t ms, (framed_lower t ms).whole, fun _ _ _ _ h =>
    merged_of_lower h⟩

end Templating.Page
