import Templating.Proofs.Code.UseTree
import Templating.Proofs.Markup.ScannedTrees
import Templating.Proofs.Page.Build
import Templating.Proofs.Text.Split
import Templating.Proofs.Unit.Emission

/-! A page built from trees whose code was scanned: names in it are names, and all code in it is as
the reader left it. -/
namespace Templating.Page
open Code (Balanced Pasted Wordy Takes Unquoted)
open Markup (Clause Node Nodes Tree DirectiveUse NodesScanned ClausesScanned TokensRead)

/-! Bodies -/

section
variable {P : Snippet → Prop} {b : Body}

theorem Embeds.join {s : String} {p : Span} (h : Embeds P b) :
    Embeds P (join ⟨.literal s, p⟩ b) := by
  cases h with
  | literal h => exact .literal h
  | nil => exact .literal .nil
  | expression hx h => exact .literal (.expression hx h)
  | code hx h => exact .literal (.code hx h)
  | block hne hheads hbodies h => exact .literal (.block hne hheads hbodies h)
  | choice hx hheads hbodies h => exact .literal (.choice hx hheads hbodies h)
  | beginAttribute h => exact .literal (.beginAttribute h)
  | part hx h => exact .literal (.part hx h)
  | endAttribute h => exact .literal (.endAttribute h)
  | defineSection hbody h => exact .literal (.defineSection hbody h)

theorem Embeds.parts (h : Embeds P b) {ps : List (Located Markup.Part)}
    (hps : ∀ p ∈ ps, ∀ code, p.val.content = .expression code → P (.inline code)) :
    Embeds P (ps.map (fun p => (⟨.part p.val, p.span⟩ : Located Statement)) ++ b) := by
  induction ps with
  | nil => exact h
  | cons p ps ih =>
    exact .part (hps p List.mem_cons_self) (ih fun q hq => hps q (List.mem_cons_of_mem p hq))

theorem Embeds.ofAttribute (h : Embeds P b) {a : Markup.Attribute}
    (ha : ∀ p ∈ a.parts, ∀ code, p.val.content = .expression code → P (.inline code))
    (span : Span) :
    Embeds P (ofAttribute a span ++ b) := by
  have hparts := Embeds.parts (Embeds.endAttribute (p := span) h) ha
  simpa [Page.ofAttribute] using Embeds.beginAttribute hparts

end

theorem lowerClauses_ne_nil {cs : List (Clause (Located Node))} (h : cs ≠ []) :
    lowerClauses cs ≠ [] := by
  cases cs with
  | nil => exact absurd rfl h
  | cons c cs => simp [lowerClauses]

theorem heads_lowerClauses : ∀ {cs : List (Clause (Located Node))}, ClausesScanned cs →
    ∀ c ∈ lowerClauses cs, Pasted c.head.toList
  | [], _, c, hc => by simp [lowerClauses] at hc
  | ⟨head, body⟩ :: cs, h, c, hc => by
    rw [ClausesScanned] at h
    rw [lowerClauses] at hc
    rcases List.mem_cons.mp hc with rfl | hc
    · exact h.1
    · exact heads_lowerClauses h.2.2 c hc

mutual

theorem embeds_lowerNode (top : Bool) (span : Span) {after : Body} (h : Embeds Snippet.Read after) :
    ∀ n : Node, n.Scanned → Embeds Snippet.Read (lowerNode top span after n)
  | .markup text, _ => h.join
  | .comment, _ => h
  | .expression code, hn => .expression (by rwa [Node.Scanned] at hn) h
  | .code code, hn => .code (by rwa [Node.Scanned] at hn) h
  | .control branches, hn => by
    rw [Node.Scanned] at hn
    exact .block (lowerClauses_ne_nil hn.1) (heads_lowerClauses hn.2)
      (embeds_lowerClauses branches hn.2) h
  | .choice scrutinee arms, hn => by
    rw [Node.Scanned] at hn
    exact .choice hn.1 (heads_lowerClauses hn.2) (embeds_lowerClauses arms hn.2) h
  | .attribute a, hn => by
    rw [Node.Scanned] at hn
    exact h.ofAttribute hn span
  | .directive ⟨keyword, [], body, fs⟩, _ => h
  | .directive ⟨keyword, t :: ts, none, fs⟩, _ => h
  | .directive ⟨keyword, t :: ts, some (.code c), fs⟩, _ => h
  | .directive ⟨keyword, t :: ts, some (.markup nodes), f :: fs⟩, _ => h
  | .directive ⟨keyword, t :: ts, some (.markup nodes), []⟩, hn => by
    rw [Node.Scanned] at hn
    rw [lowerNode]
    split
    · exact .defineSection (embeds_lower false nodes hn.2) h
    · exact h

theorem embeds_lower (top : Bool) :
    ∀ ns : Nodes, NodesScanned ns → Embeds Snippet.Read (lower top ns)
  | [], _ => .nil
  | ⟨n, span⟩ :: ns, h => by
    rw [NodesScanned] at h
    exact embeds_lowerNode top span (embeds_lower top ns h.2) n h.1

theorem embeds_lowerClauses : ∀ cs : List (Clause (Located Node)), ClausesScanned cs →
    ∀ c ∈ lowerClauses cs, Embeds Snippet.Read c.body
  | [], _, c, hc => by simp [lowerClauses] at hc
  | ⟨head, body⟩ :: cs, h, c, hc => by
    rw [ClausesScanned] at h
    rw [lowerClauses] at hc
    rcases List.mem_cons.mp hc with rfl | hc
    · exact embeds_lower false body h.2.1
    · exact embeds_lowerClauses cs h.2.2 c hc

end

end Templating.Page

/-! Names -/

namespace Templating.Naming

/-- An underscore for every other character. -/
def filtered (c : Char) : Char := if Text.continuesName c then c else '_'

/-- The filtered text, with an underscore in front where a name may not begin. -/
def led (cs : List Char) : List Char :=
  if (cs.map filtered).head?.any Text.startsName then cs.map filtered else '_' :: cs.map filtered

theorem sanitize_eq (s : String) : sanitize s =
    if Code.isName (.ofList (led s.toList)) then .ofList (led s.toList) else
      .ofList (led s.toList ++ ['_']) := rfl

theorem wordy_led (cs : List Char) : Code.Wordy (led cs) := by
  have hmap : Code.Wordy (cs.map filtered) := by
    intro c hc
    obtain ⟨d, -, rfl⟩ := List.mem_map.mp hc
    unfold filtered
    split
    · assumption
    · decide
  unfold led
  split
  · exact hmap
  · exact List.forall_mem_cons.mpr ⟨by decide, hmap⟩

end Templating.Naming

namespace Templating.Page
open Code (Balanced Pasted Wordy Takes Unquoted)
open Markup (Clause Node Nodes Tree DirectiveUse NodesScanned ClausesScanned TokensRead)

theorem wordy_append {a b : List Char} (ha : Wordy a) (hb : Wordy b) : Wordy (a ++ b) := by
  intro c hc
  rcases List.mem_append.mp hc with hc | hc
  · exact ha c hc
  · exact hb c hc

theorem wordy_sanitize (s : String) : Wordy (Naming.sanitize s).toList := by
  have hmark : Wordy ['_'] := by decide
  have hled := Naming.wordy_led s.toList
  rw [Naming.sanitize_eq]
  split
  · rwa [String.toList_ofList]
  · rw [String.toList_ofList]
    exact wordy_append hled hmark

/-- A namespace is made of names and the dots between them. -/
def Dotted (s : String) : Prop := ∀ c ∈ s.toList, Text.continuesName c = true ∨ c = '.'

instance (s : String) : Decidable (Dotted s) :=
  inferInstanceAs (Decidable (∀ c ∈ s.toList, Text.continuesName c = true ∨ c = '.'))

theorem dotted_join {parts : List String} (h : ∀ s ∈ parts, Wordy s.toList) :
    Dotted (Text.join "." parts) := by
  induction parts with
  | nil =>
    rw [Text.join, String.intercalate_nil]
    decide
  | cons s parts ih =>
    have hs : Dotted s := fun c hc => .inl (h s List.mem_cons_self c hc)
    cases parts with
    | nil => simpa [Text.join, String.intercalate_singleton] using hs
    | cons r parts =>
      have hrest := ih fun r hr => h r (List.mem_cons_of_mem s hr)
      intro c hc
      rw [Text.toList_join_cons] at hc
      rcases List.mem_append.mp hc with hc | hc
      · exact hs c hc
      rcases List.mem_append.mp hc with hc | hc
      · exact .inr (List.mem_singleton.mp hc)
      · exact hrest c hc

theorem dotted_normalize (s : String) : Dotted (Naming.normalize s) := by
  refine dotted_join fun s hs => ?_
  obtain ⟨t, -, rfl⟩ := List.mem_map.mp hs
  exact wordy_sanitize t

theorem dotted_namespaceOf (cx : Context) : Dotted (Pass.namespaceOf cx) := by
  have hdefault : Dotted defaultNamespace := by decide
  unfold Pass.namespaceOf
  dsimp only
  split
  · exact hdefault
  next hname =>
    cases hd : ((cx.of "namespace").getLast?.bind (·.use.token? .namespacePath) <|>
      cx.file.hint?) with
    | none =>
      rw [hd] at hname
      exact absurd rfl hname
    | some s =>
      exact dotted_normalize s

theorem Document.wordy_segments {d : Document} (h : Dotted d.namespaceName) :
    ∀ s ∈ d.segments, Wordy s.toList := by
  intro s hs c hc
  obtain ⟨piece, hpiece, rfl⟩ := List.mem_map.mp (List.mem_of_mem_filter hs)
  rw [String.toList_ofList] at hc
  obtain ⟨hmem, hdot⟩ := Text.mem_of_splitAt hpiece c hc
  rcases h c hmem with hname | rfl
  · exact hname
  · cases hdot

/-! Directives -/

/-- Names and code in the use of a directive are names and balanced code. -/
structure UseScanned (d : DirectiveUse (Located Node)) : Prop where
  tokens : TokensRead d.tokens
  code : ∀ c, d.body? = some (.code c) → Balanced c.val.toList

theorem useScanned_of_node {d : DirectiveUse (Located Node)} (h : (Node.directive d).Scanned) :
    UseScanned d := by
  obtain ⟨keyword, tokens, body?, faults⟩ := d
  cases body? with
  | none =>
    rw [Node.Scanned] at h
    exact ⟨h, fun _ hc => by cases hc⟩
  | some body =>
    cases body with
    | code c =>
      rw [Node.Scanned] at h
      refine ⟨h.1, fun c' hc => ?_⟩
      cases hc
      exact h.2
    | markup nodes =>
      rw [Node.Scanned] at h
      exact ⟨h.1, fun _ hc => by cases hc⟩

theorem useScanned_directives {tree : Tree} (h : NodesScanned tree.nodes) :
    ∀ d ∈ tree.directives, UseScanned d.val := by
  intro d hd
  obtain ⟨⟨n, span⟩, hn, hd⟩ := List.mem_filterMap.mp hd
  have hscanned := Markup.nodesScanned_iff.mp h _ hn
  dsimp only at hd hscanned
  split at hd
  next use =>
    obtain rfl := Option.some.inj hd
    exact useScanned_of_node hscanned
  · cases hd

section
variable {file : InputFile} {options : Options} {t : DirectiveTable} {imports : List Tree}
  {tree : Tree}

theorem useScanned_context (h : ∀ s ∈ imports ++ [tree], NodesScanned s.nodes) :
    ∀ o ∈ (context file options t imports tree).occurrences, UseScanned o.use := by
  intro o ho
  obtain ⟨c, hc, ho⟩ := List.mem_flatMap.mp ho
  obtain ⟨s, hs, rfl⟩ := List.mem_map.mp hc
  obtain ⟨d, hd, hu⟩ := use_of_effective ho
  rw [hu]
  exact useScanned_directives (h s hs) d hd

end

theorem wordy_token {d : DirectiveUse (Located Node)} (h : UseScanned d) :
    Wordy ((d.token? .member).getD "").toList := by
  unfold DirectiveUse.token?
  cases hfind : d.tokens.find? (·.val.kind == .member) with
  | none =>
    intro c hc
    cases hc
  | some t =>
    have hkind := List.find?_some hfind
    exact (h.tokens t (List.mem_of_find?_eq_some hfind)).name (eq_of_beq hkind)

theorem wordy_distinctParameters {done : List TypeParameter}
    (hdone : ∀ p ∈ done, Wordy p.name.toList) {os : List Occurrence}
    (hos : ∀ o ∈ os, UseScanned o.use) :
    ∀ p ∈ (Pass.distinctParameters done os).1, Wordy p.name.toList := by
  induction os generalizing done with
  | nil => exact hdone
  | cons o os ih =>
    have hrest : ∀ o ∈ os, UseScanned o.use := fun o' ho' => hos o' (List.mem_cons_of_mem o ho')
    unfold Pass.distinctParameters
    dsimp only
    split
    · exact ih hdone hrest
    · refine ih (fun p hp => ?_) hrest
      rcases List.mem_append.mp hp with hp | hp
      · exact hdone p hp
      · obtain rfl := List.mem_singleton.mp hp
        exact wordy_token (hos o List.mem_cons_self)

/-! Pages -/

/-- What reading a type does not see to: that its text does not end inside a comment, and that the
scanner has literals in quotes end where they do. -/
structure TypeContained (s : String) : Prop where
  comment : ¬ Takes (.code, []) s.toList (.lineComment, [])
  literals : ∀ ts ∈ Code.Lexeme.tokens? s.toList, ¬ Unquoted ts → Balanced s.toList

theorem balanced_of_isType {s : String} (h : Code.isType s.toList = true) (hs : TypeContained s) :
    Balanced s.toList := by
  obtain ⟨e, he⟩ := Option.isSome_iff_exists.mp h
  obtain ⟨ts, hts, -⟩ := Option.bind_eq_some_iff.mp he
  by_cases hquoted : Unquoted ts
  · exact (Code.pasted_of_tokens hts hquoted).resolve_right hs.comment
  · exact hs.literals ts hts hquoted

instance (s : String) : Decidable (TypeContained s) :=
  decidable_of_iff (¬ Takes (.code, []) s.toList (.lineComment, []) ∧
    ∀ ts ∈ Code.Lexeme.tokens? s.toList, ¬ Unquoted ts → Balanced s.toList)
    ⟨fun ⟨hcomment, hliterals⟩ => ⟨hcomment, hliterals⟩, fun h => ⟨h.comment, h.literals⟩⟩

def Member.Contained : Member → Prop
  | .functions code => (Snippet.block code.text).Contained
  | .constructor c => c.Contained

instance : DecidablePred Member.Contained
  | .functions code => inferInstanceAs (Decidable (Snippet.block code.text).Contained)
  | .constructor c => inferInstanceAs (Decidable c.Contained)

/-- What building a page does not see to. -/
structure Document.Contained (d : Document) : Prop where
  source : '\n' ∉ d.source.toList
  body : ∀ x ∈ bodySnippets d.definition.body, x.Contained
  members : ∀ m ∈ d.definition.members, m.Contained
  base : ∀ b ∈ d.definition.base?, TypeContained b.text
  constraints : ∀ p ∈ d.definition.typeParameters, ∀ s ∈ p.constraint?,
    Balanced (Definition.predicate s.toList)

instance (d : Document) : Decidable d.Contained :=
  decidable_of_iff ('\n' ∉ d.source.toList ∧ (∀ x ∈ bodySnippets d.definition.body, x.Contained) ∧
    (∀ m ∈ d.definition.members, m.Contained) ∧ (∀ b ∈ d.definition.base?, TypeContained b.text) ∧
    ∀ p ∈ d.definition.typeParameters, ∀ s ∈ p.constraint?,
      Balanced (Definition.predicate s.toList))
    ⟨fun ⟨hsource, hbody, hmembers, hbase, hconstraints⟩ =>
      ⟨hsource, hbody, hmembers, hbase, hconstraints⟩,
      fun h => ⟨h.source, h.body, h.members, h.base, h.constraints⟩⟩

section
variable {file : InputFile} {options : Options} {t : DirectiveTable} {imports : List Tree}
  {tree : Tree}
  (h : ∀ s ∈ imports ++ [tree], NodesScanned s.nodes)
include h

theorem useScanned_of {keyword : String} {o : Occurrence}
    (ho : o ∈ (context file options t imports tree).of keyword) :
    UseScanned o.use :=
  useScanned_context h o (List.mem_of_mem_filter ho)

theorem isType_base {b : Declaration}
    (hb : (build file options t imports tree).definition.base? = some b) :
    Code.isType b.text.toList = true := by
  rw [base?_build] at hb
  obtain ⟨o, ho, hb⟩ := Option.bind_eq_some_iff.mp hb
  obtain ⟨text, htext, rfl⟩ := Option.map_eq_some_iff.mp hb
  obtain ⟨token, htoken, rfl⟩ := Option.map_eq_some_iff.mp htext
  have hkind := List.find?_some htoken
  have hread :=
    (useScanned_of h (List.mem_of_getLast? ho)).tokens token (List.mem_of_find?_eq_some htoken)
  exact hread.type (eq_of_beq hkind)

theorem closed_member (hd : (build file options t imports tree).Contained) {m : Member}
    (hm : m ∈ (build file options t imports tree).definition.members) : m.Closed := by
  have hmembers := hd.members
  rw [members_build] at hm hmembers
  obtain ⟨o, ho, hbody⟩ := List.mem_filterMap.mp hm
  split at hbody
  next c hcode =>
    obtain rfl := Option.some.inj hbody
    exact ⟨(useScanned_of h ho).code c hcode, hmembers _ hm⟩
  · cases hbody

theorem closed_build (hd : (build file options t imports tree).Contained) :
    (build file options t imports tree).Closed where
  source := hd.source
  segments := by
    refine Document.wordy_segments ?_
    rw [namespaceName_build]
    exact dotted_namespaceOf _
  uses := by
    intro u hu
    rw [uses_build] at hu
    exact Code.pasted_of_isUseTree (List.mem_filter.mp hu).2
  definition := {
    name := by
      rw [name_build]
      exact wordy_sanitize file.stem
    parameters := by
      rw [typeParameters_build]
      exact wordy_distinctParameters (fun _ hp => by cases hp) fun o ho => useScanned_of h ho
    constraints := hd.constraints
    base := by
      unfold Definition.baseType
      cases hb : (build file options t imports tree).definition.base? with
      | none => exact (by decide : Balanced defaultBase.toList)
      | some b => exact balanced_of_isType (isType_base h hb) (hd.base b hb)
    members := fun m hm => closed_member h hd hm
    body := by
      rw [body_build]
      refine (embeds_lower true tree.nodes (h tree (by simp))).mono fun x hx hread =>
        hread.closed (hd.body x ?_)
      rwa [body_build] }

end

end Templating.Page
