import Templating.Proofs.Markup.Woven
import Templating.Proofs.Page.Containment
import Templating.Proofs.Unit.Returns

/-! Where the carriage returns of a template are, if it has them at the ends of lines only: in code
blocks they are at the ends of lines too, and the tokens of directives, each on
one line, have none. -/
namespace Templating.Markup
open Code (Stop)
open Text (Cursor isBlank paired paired_left paired_right return_not_mem_trimEnd)
open Text.Cursor
variable {t : DirectiveTable} {c mark : Cursor} {ps qs : List Piece}

def TokensLined (tokens : List (Located DirectiveToken)) : Prop :=
  ∀ t ∈ tokens, '\r' ∉ t.val.text.toList

def BodyLined : Option (DirectiveBody (Located Node)) → Prop
  | some (.code c) => paired c.val.toList = true
  | _ => True

/-- Code on lines of its own has returns at the ends of lines only, and tokens have none. -/
def Node.Lined : Node → Prop
  | .code s => paired s.toList = true
  | .directive d => TokensLined d.tokens ∧ BodyLined d.body?
  | _ => True

def AllLined (ns : Nodes) : Prop := ∀ m, Holds ns m → m.val.Lined

/-! Pieces -/

def PiecesLined (ps : List Piece) : Prop :=
  ∀ n span alone, .node n span alone ∈ ps → n.Lined ∧ ∀ body ∈ n.bodies, AllLined body

theorem piecesLined_nil : PiecesLined [] := fun _ _ _ h => by cases h

theorem piecesLined_text (cs : List Char) (offset : Nat) : PiecesLined [.text cs offset] := by
  intro n span alone h
  cases List.mem_singleton.mp h

theorem piecesLined_node {n : Node} (h : n.Lined) (hbodies : ∀ body ∈ n.bodies, AllLined body)
    (span : Span) (alone : Bool) :
    PiecesLined [.node n span alone] := by
  intro m span' alone' hm
  cases List.mem_singleton.mp hm
  exact ⟨h, hbodies⟩

theorem PiecesLined.append (h : PiecesLined ps) (h' : PiecesLined qs) : PiecesLined (ps ++ qs) := by
  intro n span alone hn
  rcases List.mem_append.mp hn with hn | hn
  · exact h n span alone hn
  · exact h' n span alone hn

theorem PiecesLined.gather (h : PiecesLined ps) : AllLined (gather ps) := by
  intro m hm
  cases hm with
  | here hmem =>
    rcases mem_gatherFrom hmem with ⟨s, hs⟩ | ⟨alone, hp⟩
    · rw [hs]
      trivial
    · exact (h _ _ _ hp).1
  | inside hmem hbody hn =>
    rcases mem_gatherFrom hmem with ⟨s, hs⟩ | ⟨alone, hp⟩
    · rw [hs] at hbody
      cases hbody
    · exact (h _ _ _ hp).2 _ hbody _ hn

theorem piecesLined_read {e : Cursor} (h : Tag.read? c = some (ps, e)) : PiecesLined ps := by
  intro n span alone hn
  obtain ⟨a, rfl⟩ := (Tag.pieced_read h).exists_attribute hn
  exact ⟨trivial, fun body hbody => by cases hbody⟩

/-! Places -/

/-- All returns from here on are at the ends of lines. -/
abbrev Paired (c : Cursor) : Prop := paired c.rest = true

theorem Paired.ahead {d : Cursor} (h : Paired c) (hd : Ahead c d) : Paired d := by
  obtain ⟨u, hu, -⟩ := hd.exists_read
  rw [Paired, hu] at h
  exact paired_right h

theorem paired_codeAt {code : List Char} {after : Cursor}
    (h : codeAt (.closer '\x7d') c = .ok (code, after)) (hc : Paired c) :
    paired code = true := by
  obtain ⟨hrest, -⟩ := codeAt_ok h
  rw [Paired, hrest] at hc
  exact paired_left hc (by simp [Stop.text])

theorem lined_announced {o : Outcome (List Piece)} (h : announced t mark = .simple o)
    (hmark : Paired mark) :
    PiecesLined o.val := by
  have hplain : ∀ {n : Node}, n.Lined → n.bodies = [] → ∀ (span : Span) (alone : Bool),
      PiecesLined [.node n span alone] := by
    intro n hn hbodies
    exact piecesLined_node hn (by rw [hbodies]; exact fun body hbody => by cases hbody)
  cases announces h with
  | escape | inside | stray => exact piecesLined_text _ _
  | comment =>
    unfold comment
    dsimp only
    split <;> exact hplain (n := .comment) trivial rfl _ _
  | explicit =>
    unfold explicit
    split
    · exact hplain (n := .expression _) trivial rfl _ _
    · exact piecesLined_nil
  | codeBlock =>
    unfold codeBlock
    split
    next code after hcode =>
      have hpaired := paired_codeAt hcode (hmark.ahead (ahead_forward mark 2))
      exact hplain (by rwa [Node.Lined, String.toList_ofList]) rfl _ _
    · exact piecesLined_nil
  | implicit =>
    unfold implicit
    dsimp only
    split
    · exact hplain (n := .expression _) trivial rfl _ _
    · exact piecesLined_nil

/-! Directives -/

theorem mem_of_splitColons {cs part : List Char} (h : part ∈ Naming.splitColons cs) :
    ∀ c ∈ part, c ∈ cs := by
  induction cs using Naming.splitColons.induct generalizing part with
  | case1 =>
    obtain rfl := List.mem_singleton.mp h
    exact fun _ hc => by cases hc
  | case2 cs ih =>
    rw [Naming.splitColons] at h
    rcases List.mem_cons.mp h with rfl | h
    · exact fun _ hc => by cases hc
    · exact fun c hc => List.mem_cons_of_mem _ (List.mem_cons_of_mem _ (ih h c hc))
  | case3 x cs hcolons hnil =>
    obtain rfl : part = [x] := by simpa [Naming.splitColons, hnil] using h
    exact fun c hc => List.mem_singleton.mp hc ▸ List.mem_cons_self
  | case4 x cs hcolons r rs hcons ih =>
    have hparts : part = x :: r ∨ part ∈ rs := by simpa [Naming.splitColons, hcons] using h
    rw [hcons] at ih
    rcases hparts with rfl | hpart
    · intro c hc
      rcases List.mem_cons.mp hc with rfl | hc
      · exact List.mem_cons_self
      · exact List.mem_cons_of_mem x (ih List.mem_cons_self c hc)
    · exact fun c hc => List.mem_cons_of_mem x (ih (List.mem_cons_of_mem r hpart) c hc)

namespace Region

theorem return_not_mem_segments {s : List Char} (h : '\r' ∉ s) :
    ∀ x ∈ Naming.segments (.ofList s), '\r' ∉ x.toList := by
  intro x hx hreturn
  obtain ⟨part, hpart, hx⟩ := List.mem_flatMap.mp hx
  obtain ⟨piece, hpiece, rfl⟩ := List.mem_map.mp hx
  rw [String.toList_ofList] at hpart hreturn
  exact h (mem_of_splitColons hpart _ (Text.mem_of_splitAt hpiece _ hreturn).1)

theorem return_not_mem_trim {s : List Char} (h : '\r' ∉ s) : '\r' ∉ Text.trim s := by
  obtain ⟨a, b, hs, -⟩ := Text.exists_trim s
  rw [hs] at h
  exact fun hreturn => h (List.mem_append_right a (List.mem_append_left b hreturn))

theorem return_not_mem_value (k : TokenKind) {s : List Char} (h : '\r' ∉ s) :
    '\r' ∉ (value k s).toList := by
  have htrim : '\r' ∉ (String.ofList (Text.trim s)).toList := by
    rw [String.toList_ofList]
    exact return_not_mem_trim h
  cases k with
  | string =>
    have hvalue : value .string s = .ofList (s.drop 1).dropLast := rfl
    rw [hvalue, String.toList_ofList]
    exact fun hreturn => h (List.mem_of_mem_drop (List.mem_of_mem_dropLast hreturn))
  | text =>
    have hvalue : value .text s = .ofList (Text.trim (Text.dropEndWhile (· == ';') s)) := rfl
    rw [hvalue, String.toList_ofList]
    refine return_not_mem_trim fun hreturn => h ?_
    exact List.mem_reverse.mp ((List.dropWhile_sublist _).subset (List.mem_reverse.mp hreturn))
  | namespacePath =>
    have hvalue : value .namespacePath s = Text.join "." (Naming.segments (.ofList s)) := rfl
    rw [hvalue, Unit.return_mem_join (by decide)]
    rintro ⟨x, hx, hreturn⟩
    exact return_not_mem_segments h x hx hreturn
  | type | member | boolean | «attribute» | constraint => exact htrim

theorem tokensLined_tokensFrom (d : Directive) (region : Span) (specs : List TokenSpec)
    (offset : Nat) (more : List Char) {cs : List Char}
    (h : paired (cs ++ more) = true) (hline : '\n' ∉ cs) :
    TokensLined (tokensFrom d region specs offset cs).1 := by
  induction specs generalizing offset cs with
  | nil =>
    unfold tokensFrom
    split <;> exact fun _ ht => by cases ht
  | cons spec specs ih =>
    have hfront := List.takeWhile_append_dropWhile (p := isBlank) (l := cs)
    have hrest : paired (cs.dropWhile isBlank ++ more) = true := by
      rw [← hfront, List.append_assoc] at h
      exact paired_right h
    have hrestLine : '\n' ∉ cs.dropWhile isBlank :=
      fun hfeed => hline ((List.dropWhile_sublist _).subset hfeed)
    unfold tokensFrom
    dsimp only
    split
    next s hslice =>
      have hs : '\r' ∉ s := fun hreturn =>
        return_not_mem_trimEnd hrest hrestLine ((prefix_of_slice hslice).subset hreturn)
      obtain ⟨b, hb, -⟩ := Text.exists_trimEnd (cs.dropWhile isBlank)
      obtain ⟨u, hu⟩ : s <+: cs.dropWhile isBlank := (prefix_of_slice hslice).trans ⟨b, hb.symm⟩
      have hdrop : (cs.dropWhile isBlank).drop s.length = u := by rw [← hu, List.drop_left]
      rw [← hu] at hrest hrestLine
      rw [hdrop]
      refine List.forall_mem_cons.mpr ⟨return_not_mem_value spec.kind hs, ih _ ?_ ?_⟩
      · rw [List.append_assoc] at hrest
        exact paired_right hrest
      · exact fun hfeed => hrestLine (List.mem_append_right s hfeed)
    · split
      · exact ih _ hrest hrestLine
      · exact fun _ ht => by cases ht
    · exact fun _ ht => by cases ht

end Region

theorem tokensLined_announcement (d : Directive) (hmark : Paired mark) :
    TokensLined (announcement d mark).tokens := by
  have hbegun := hmark.ahead (ahead_forward mark (d.keyword.length + 1))
  have hregion : ∀ region : List Char,
    region <+: (mark.forward (d.keyword.length + 1)).rest.takeWhile (· != '\n') →
      TokensLined (Region.tokens d (mark.forward (d.keyword.length + 1)).offset region).1 := by
    intro region hfront
    obtain ⟨more, hmore⟩ := hfront.trans (List.takeWhile_prefix _)
    refine Region.tokensLined_tokensFrom d _ d.tokens _ more (by rwa [hmore]) fun hfeed => ?_
    exact absurd (List.all_eq_true.mp List.all_takeWhile _ (hfront.subset hfeed)) (by decide)
  unfold announcement
  dsimp only
  split
  · exact hregion _ (List.prefix_refl _)
  · exact hregion _ (List.takeWhile_prefix _)

/-! Everything that is read -/

def ClausesLined (cs : List (Clause (Located Node))) : Prop :=
  ∀ body ∈ cs.map (·.body), AllLined body

theorem clausesLined_nil : ClausesLined [] := fun _ h => by cases h

theorem ClausesLined.cons {cs : List (Clause (Located Node))} (head : String) (h : PiecesLined ps)
    (h' : ClausesLined cs) :
    ClausesLined (⟨head, gather ps⟩ :: cs) := by
  intro body hbody
  rcases List.mem_cons.mp hbody with rfl | hbody
  · exact h.gather
  · exact h' body hbody

/-- What is read in a number of steps, from a place behind which all returns are at
the ends of lines. -/
structure StepsLined (t : DirectiveTable) (n : Nat) : Prop where
  pieces : ∀ scope depth c, Paired c → PiecesLined (pieces t scope n depth c).val
  branches : ∀ mark chained c, Paired c →
    ∀ bs, (branches t n mark chained c).val = some bs → ClausesLined bs
  arms : ∀ mark c, Paired c → ∀ as, (arms t n mark c).val = some as → ClausesLined as
  directive : ∀ scope mark d, Paired mark → PiecesLined (directive t n scope mark d).val

section
variable {n : Nat} (ih : StepsLined t n)
include ih

theorem lined_construct (scope : Scope) (hc : Paired c) :
    PiecesLined (construct t scope n c).val := by
  have hclauses : ∀ {make : List (Clause (Located Node)) → Node}
    {o : Outcome (Option (List (Clause (Located Node))))},
      (∀ cs, (make cs).Lined ∧ (make cs).bodies = cs.map (·.body)) →
        (∀ cs, o.val = some cs → ClausesLined cs) →
      PiecesLined (o.node make c).val := by
    intro make o hmake ho
    rw [Outcome.node]
    cases hval : o.val with
    | none => exact piecesLined_nil
    | some cs =>
      obtain ⟨hlined, hbodies⟩ := hmake cs
      exact piecesLined_node hlined (by rw [hbodies]; exact ho cs hval) _ _
  generalize hturn : construct t scope n c = o
  cases constructed hturn with
  | simple ho => exact lined_announced ho hc
  | control =>
    exact hclauses (fun _ => ⟨trivial, rfl⟩) (ih.branches c _ _ (hc.ahead (ahead_forward c 1)))
  | unmatched => exact piecesLined_nil
  | choice _ hcode =>
    have hbegun := (hc.ahead (ahead_forward c 6)).ahead (beyond_codeAt hcode).ahead
    exact hclauses (fun _ => ⟨trivial, rfl⟩) (ih.arms c _ hbegun)
  | directive => exact ih.directive scope c _ hc

theorem lined_pieces (scope : Scope) (depth : Nat) (hc : Paired c) :
    PiecesLined (pieces t scope (n + 1) depth c).val := by
  have hmore : ∀ (depth : Nat) {d : Cursor}, Ahead c d →
      PiecesLined (pieces t scope n depth d).val :=
    fun depth _ hd => ih.pieces scope depth _ (hc.ahead hd)
  generalize hturn : pieces t scope (n + 1) depth c = o
  cases pieces_turn hturn with
  | stop => exact piecesLined_nil
  | literal depth => exact (piecesLined_text _ _).append (hmore depth (ahead_forward c 1))
  | tag depth hread =>
    exact (piecesLined_read hread).append (hmore depth (Tag.beyond_read hread).ahead)
  | sign depth hrest =>
    exact (lined_construct ih scope hc).append
      (hmore depth (ahead_construct (stepsAhead t n) scope hrest))

theorem lined_branches (mark : Cursor) (chained : Bool) (hc : Paired c)
    {bs : List (Clause (Located Node))}
    (h : (branches t (n + 1) mark chained c).val = some bs) : ClausesLined bs := by
  generalize hturn : branches t (n + 1) mark chained c = o at h
  cases branches_turn hturn with
  | headless => cases h
  | @more _ begun hcode =>
    have hbegun := hc.ahead (beyond_codeAt hcode).ahead
    have hafter := (ahead_enclosed (stepsAhead t n) mark begun).trans (ahead_skip _ isBlank)
    obtain ⟨bs', hbs', rfl⟩ := Option.map_eq_some_iff.mp h
    exact .cons _ (ih.pieces .nested 0 begun hbegun)
      (ih.branches mark chained _ (hbegun.ahead hafter) bs' hbs')
  | @last _ begun hcode =>
    obtain rfl := Option.some.inj h
    exact .cons _ (ih.pieces .nested 0 begun (hc.ahead (beyond_codeAt hcode).ahead))
      clausesLined_nil

theorem lined_arms (mark : Cursor) (hc : Paired c) {as : List (Clause (Located Node))}
    (h : (arms t (n + 1) mark c).val = some as) : ClausesLined as := by
  have hbegun : ∀ {pattern : List Char} {arrow : Cursor},
    codeAt .fatArrow (armAt c) = .ok (pattern, arrow) →
      Paired ((arrow.skip isBlank).forward 1) := fun hcode =>
    (((hc.ahead (ahead_skip c _)).ahead (beyond_codeAt hcode).ahead).ahead
      (ahead_skip _ isBlank)).ahead (ahead_forward _ 1)
  generalize hturn : arms t (n + 1) mark c = o at h
  cases arms_turn hturn with
  | cut | close | unbodied =>
    obtain rfl := Option.some.inj h
    exact clausesLined_nil
  | headless => cases h
  | more hcode =>
    have hafter := (hbegun hcode).ahead (ahead_enclosed (stepsAhead t n) mark _)
    obtain ⟨as', has', rfl⟩ := Option.map_eq_some_iff.mp h
    exact .cons _ (ih.pieces .nested 0 _ (hbegun hcode)) (ih.arms mark _ hafter as' has')
  | last hcode =>
    obtain rfl := Option.some.inj h
    exact .cons _ (ih.pieces .nested 0 _ (hbegun hcode)) clausesLined_nil

theorem lined_directive (scope : Scope) (d : Directive) (hmark : Paired mark) :
    PiecesLined (directive t (n + 1) scope mark d).val := by
  have hpiece :
    ∀ {faults outer : List Fault} {body? : Option (DirectiveBody (Located Node))} {stop : Cursor},
      BodyLined body? → (∀ nodes, body? = some (.markup nodes) → AllLined nodes) →
      PiecesLined (finished d scope mark faults body? stop outer).val := by
    intro faults outer body? stop hbody hnodes
    have hlined :
      (Node.directive ⟨d.keyword, (announcement d mark).tokens, body?,
        (announcement d mark).faults ++ faults ++
        if scope == .nested then
          [{ problem := .nestedDirective d.keyword, span := ⟨mark.offset, stop.offset⟩ }] else
          []⟩).Lined :=
      ⟨tokensLined_announcement d hmark, hbody⟩
    refine piecesLined_node hlined (fun body hmem => ?_) _ _
    cases body? with
    | none => cases hmem
    | some b =>
      cases b with
      | code s => cases hmem
      | markup nodes =>
        obtain rfl := List.mem_singleton.mp hmem
        exact hnodes body rfl
  have hbegun : Paired ((opening d mark).forward 1) :=
    ((hmark.ahead (ahead_announcement d mark)).ahead (ahead_skip _ isBlank)).ahead
      (ahead_forward _ 1)
  generalize hturn : directive t (n + 1) scope mark d = o
  cases directive_turn hturn with
  | line | bare | codeless => exact hpiece trivial fun _ h => by cases h
  | code _ _ hcode =>
    refine hpiece ?_ fun _ h => by cases h
    rw [BodyLined, String.toList_ofList]
    exact paired_codeAt hcode hbegun
  | markup =>
    refine hpiece trivial fun nodes hnodes => ?_
    obtain rfl := DirectiveBody.markup.inj (Option.some.inj hnodes)
    exact (ih.pieces .nested 0 _ hbegun).gather

end

theorem stepsLined (t : DirectiveTable) (n : Nat) : StepsLined t n := by
  induction n with
  | zero =>
    refine ⟨fun _ _ _ _ => ?_, fun _ _ _ _ bs h => ?_, fun _ _ _ as h => ?_, fun _ _ _ _ => ?_⟩
    · rw [pieces]
      exact piecesLined_nil
    · rw [branches] at h
      cases h
    · rw [arms] at h
      cases h
    · rw [directive]
      exact piecesLined_nil
  | succ n ih =>
    exact ⟨fun scope depth _ => lined_pieces ih scope depth, fun mark chained _ hc _ =>
      lined_branches ih mark chained hc,
      fun mark _ hc _ => lined_arms ih mark hc, fun scope _ d => lined_directive ih scope d⟩

theorem allLined_parse {s : Source} (h : paired s.text.toList = true) (t : DirectiveTable) :
    AllLined (Tree.parse s t).nodes :=
  ((stepsLined t _).pieces .topLevel 0 (.start s.text.toList) h).gather

end Templating.Markup

namespace Templating.Page
open Markup (Clause Node Nodes Tree DirectiveUse AllLined Holds)
open Text (paired)

/-! Bodies -/

/-- Code blocks have returns at the ends of lines only. -/
def BlocksLined (xs : List Snippet) : Prop := ∀ code, .block code ∈ xs → paired code.toList = true

section
variable {xs ys : List Snippet}

theorem blocksLined_nil : BlocksLined [] := fun _ h => by cases h

theorem BlocksLined.append (h : BlocksLined xs) (h' : BlocksLined ys) : BlocksLined (xs ++ ys) := by
  intro code hcode
  rcases List.mem_append.mp hcode with hcode | hcode
  · exact h code hcode
  · exact h' code hcode

theorem BlocksLined.inline (h : BlocksLined xs) (code : String) :
    BlocksLined (.inline code :: xs) := by
  intro code' hcode
  rcases List.mem_cons.mp hcode with heq | hcode
  · cases heq
  · exact h code' hcode

end

theorem bodySnippets_append (a b : Body) :
    bodySnippets (a ++ b) = bodySnippets a ++ bodySnippets b := by
  induction a with
  | nil => rfl
  | cons s a ih =>
    obtain ⟨s, p⟩ := s
    rw [List.cons_append, bodySnippets, bodySnippets, ih, List.append_assoc]

theorem bodySnippets_join (text : String) (p : Span) (b : Body) :
    bodySnippets (join ⟨.literal text, p⟩ b) = bodySnippets b := by
  unfold join
  split
  next heq =>
    cases heq
    rfl
  · rfl

theorem blocksLined_ofAttribute (a : Markup.Attribute) (span : Span) :
    BlocksLined (bodySnippets (ofAttribute a span)) := by
  have hparts : ∀ ps : List (Located Markup.Part),
      BlocksLined (bodySnippets (ps.map fun p => (⟨.part p.val, p.span⟩ : Located Statement))) := by
    intro ps
    induction ps with
    | nil => exact blocksLined_nil
    | cons p ps ih =>
      obtain ⟨⟨lead, content⟩, span⟩ := p
      cases content with
      | literal text => exact ih
      | expression code => exact ih.inline code
  have hend : BlocksLined (bodySnippets [(⟨.endAttribute, span⟩ : Located Statement)]) :=
    blocksLined_nil
  have hall := (hparts a.parts).append hend
  rw [← bodySnippets_append] at hall
  exact hall

theorem allLined_cons {n : Node} {span : Span} {ns : Nodes} (h : AllLined (⟨n, span⟩ :: ns)) :
    (n.Lined ∧ ∀ body ∈ n.bodies, AllLined body) ∧ AllLined ns := by
  refine ⟨⟨h ⟨n, span⟩ (.here List.mem_cons_self), fun body hbody m hm =>
    h m (.inside List.mem_cons_self hbody hm)⟩, ?_⟩
  intro m hm
  cases hm with
  | here hmem => exact h m (.here (List.mem_cons_of_mem _ hmem))
  | inside hmem hbody hn => exact h m (.inside (List.mem_cons_of_mem _ hmem) hbody hn)

mutual

theorem blocksLined_lowerNode (top : Bool) (span : Span) {after : Body}
    (h : BlocksLined (bodySnippets after)) :
    ∀ n : Node, n.Lined → (∀ body ∈ n.bodies, AllLined body) →
      BlocksLined (bodySnippets (lowerNode top span after n))
  | .markup text, _, _ => by rwa [lowerNode, bodySnippets_join]
  | .comment, _, _ => h
  | .expression code, _, _ => h.inline code
  | .code code, hn, _ => by
    rw [lowerNode, bodySnippets]
    refine BlocksLined.append (fun code' hcode => ?_) h
    cases List.mem_singleton.mp hcode
    exact hn
  | .control branches, _, hbodies => by
    rw [lowerNode, bodySnippets]
    exact BlocksLined.append (blocksLined_lowerClauses branches hbodies) h
  | .choice scrutinee arms, _, hbodies => by
    rw [lowerNode, bodySnippets]
    exact BlocksLined.append ((blocksLined_lowerClauses arms hbodies).inline scrutinee) h
  | .attribute a, _, _ => by
    rw [lowerNode, bodySnippets_append]
    exact (blocksLined_ofAttribute a span).append h
  | .directive ⟨keyword, [], body, fs⟩, _, _ => h
  | .directive ⟨keyword, t :: ts, none, fs⟩, _, _ => h
  | .directive ⟨keyword, t :: ts, some (.code c), fs⟩, _, _ => h
  | .directive ⟨keyword, t :: ts, some (.markup nodes), f :: fs⟩, _, _ => h
  | .directive ⟨keyword, t :: ts, some (.markup nodes), []⟩, _, hbodies => by
    rw [lowerNode]
    split
    · rw [bodySnippets]
      exact BlocksLined.append (blocksLined_lower false nodes (hbodies nodes List.mem_cons_self)) h
    · exact h

theorem blocksLined_lower (top : Bool) :
    ∀ ns : Nodes, AllLined ns → BlocksLined (bodySnippets (lower top ns))
  | [], _ => blocksLined_nil
  | ⟨n, span⟩ :: ns, h => by
    obtain ⟨⟨hn, hbodies⟩, hns⟩ := allLined_cons h
    exact blocksLined_lowerNode top span (blocksLined_lower top ns hns) n hn hbodies

theorem blocksLined_lowerClauses :
    ∀ cs : List (Clause (Located Node)), (∀ body ∈ cs.map (·.body), AllLined body) →
    BlocksLined (clauseSnippets (lowerClauses cs))
  | [], _ => blocksLined_nil
  | ⟨head, body⟩ :: cs, h => by
    have hbody := blocksLined_lower false body (h body List.mem_cons_self)
    have hcs := blocksLined_lowerClauses cs fun b hb => h b (List.mem_cons_of_mem _ hb)
    exact BlocksLined.inline (hbody.append hcs) head

end

/-! Directives that take effect -/

theorem mem_distinctParameters {done : List TypeParameter} {os : List Occurrence}
    {p : TypeParameter} (h : p ∈ (Pass.distinctParameters done os).1) :
    p ∈ done ∨ ∃ o ∈ os, p = ⟨(o.use.token? .member).getD "", o.use.token? .constraint⟩ := by
  induction os generalizing done with
  | nil => exact .inl h
  | cons o os ih =>
    have hlater : (∃ o' ∈ os, p = ⟨(o'.use.token? .member).getD "", o'.use.token? .constraint⟩) →
        ∃ o' ∈ o :: os, p = ⟨(o'.use.token? .member).getD "", o'.use.token? .constraint⟩ :=
      fun ⟨o', ho', hp⟩ => ⟨o', List.mem_cons_of_mem o ho', hp⟩
    unfold Pass.distinctParameters at h
    dsimp only at h
    split at h
    · exact (ih h).imp_right hlater
    · rcases ih h with hp | hp
      · rcases List.mem_append.mp hp with hp | hp
        · exact .inl hp
        · exact .inr ⟨o, List.mem_cons_self, List.mem_singleton.mp hp⟩
      · exact .inr (hlater hp)

theorem mem_of_predicate {cs : List Char} {c : Char} (h : c ∈ Definition.predicate cs) :
    c ∈ cs := by
  fun_induction Definition.predicate cs with
  | case1 cs ih => exact List.mem_append_right ['w', 'h', 'e', 'r', 'e'] (ih h)
  | case2 cs =>
    obtain ⟨a, b, hs, -⟩ := Text.exists_trim cs
    rw [hs]
    exact List.mem_append_right a (List.mem_append_left b h)

section
variable {file : InputFile} {options : Options} {t : DirectiveTable} {imports : List Tree}
  {tree : Tree}
  (h : ∀ s ∈ imports ++ [tree], AllLined s.nodes)
include h

theorem lined_context {o : Occurrence}
    (ho : o ∈ (context file options t imports tree).occurrences) :
    (Node.directive o.use).Lined := by
  obtain ⟨c, hc, ho⟩ := List.mem_flatMap.mp ho
  obtain ⟨s, hs, rfl⟩ := List.mem_map.mp hc
  obtain ⟨d, hd, hu⟩ := use_of_effective ho
  obtain ⟨⟨n, span⟩, hn, hd⟩ := List.mem_filterMap.mp hd
  have hlined := h s hs _ (.here hn)
  dsimp only at hd hlined
  split at hd
  next use =>
    obtain rfl := Option.some.inj hd
    rwa [hu]
  · cases hd

theorem return_not_mem_token {o : Occurrence}
    (ho : o ∈ (context file options t imports tree).occurrences) {k : TokenKind}
    {text : String} (htext : o.use.token? k = some text) : '\r' ∉ text.toList := by
  obtain ⟨token, htoken, rfl⟩ := Option.map_eq_some_iff.mp htext
  exact (lined_context h ho).1 token (List.mem_of_find?_eq_some htoken)

theorem return_not_mem_uses :
    ∀ u ∈ (build file options t imports tree).uses, '\r' ∉ u.text.toList := by
  intro u hu
  rw [uses_build] at hu
  obtain ⟨o, ho, rfl⟩ := List.mem_map.mp (List.mem_filter.mp hu).1
  cases htext : o.use.token? .text with
  | none => exact fun hreturn => by cases hreturn
  | some text => exact return_not_mem_token h (List.mem_of_mem_filter ho) htext

theorem return_not_mem_base :
    '\r' ∉ (build file options t imports tree).definition.baseType.toList := by
  unfold Definition.baseType
  cases hb : (build file options t imports tree).definition.base? with
  | none => exact (by decide : '\r' ∉ defaultBase.toList)
  | some b =>
    rw [base?_build] at hb
    obtain ⟨o, ho, hb⟩ := Option.bind_eq_some_iff.mp hb
    obtain ⟨text, htext, rfl⟩ := Option.map_eq_some_iff.mp hb
    exact return_not_mem_token h (List.mem_of_mem_filter (List.mem_of_getLast? ho)) htext

theorem not_returns_constraints :
    ¬ Unit.ConstraintReturns (build file options t imports tree).definition := by
  rintro ⟨p, hp, s, hs, hreturn⟩
  rw [typeParameters_build] at hp
  rcases mem_distinctParameters hp with hp | ⟨o, ho, rfl⟩
  · cases hp
  · exact return_not_mem_token h (List.mem_of_mem_filter ho) hs (mem_of_predicate hreturn)

theorem not_returns_members : ¬ ∃ m ∈ (build file options t imports tree).definition.members,
    Unit.MemberReturns m := by
  rintro ⟨m, hm, hreturns⟩
  rw [members_build] at hm
  obtain ⟨o, ho, hbody⟩ := List.mem_filterMap.mp hm
  split at hbody
  next c hcode =>
    obtain rfl := Option.some.inj hbody
    have hlined := (lined_context h (List.mem_of_mem_filter ho)).2
    rw [hcode] at hlined
    exact Unit.not_returns_codeLines hlined hreturns
  · cases hbody

end

end Templating.Page
