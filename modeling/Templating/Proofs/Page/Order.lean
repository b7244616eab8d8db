import Templating.Page.Statement
import Templating.Proofs.Markup.Reading
import Templating.Proofs.Markup.RoundTrip
import Templating.Proofs.Markup.Tag

/-! A text with an expression in it, read and lowered: in the order of writing there is what was
written. An expression is lost in the name of a tag and in a value without
quotes, and nowhere else. -/
namespace Templating.Page
open Markup
open Text (Cursor)
variable {x : List Char} {t : DirectiveTable}

/-- What a body writes, in order; the text that closes an attribute waits for its end. -/
def written : String → List (Located Statement) → List Atom
  | _, [] => []
  | k, ⟨.literal s, _⟩ :: b => chars s.toList ++ written k b
  | k, ⟨.expression code, _⟩ :: b => .expression code :: written k b
  | _, ⟨.beginAttribute _ opening closing _, _⟩ :: b => chars opening.toList ++ written closing b
  | k, ⟨.part p, _⟩ :: b => p.atoms ++ written k b
  | k, ⟨.endAttribute, _⟩ :: b => chars k.toList ++ written "" b
  | k, _ :: b => .other :: written k b

theorem written_join (s : String) (p : Span) (b : Body) :
    written "" (join ⟨.literal s, p⟩ b) = chars s.toList ++ written "" b := by
  unfold join
  split
  · next heq =>
    obtain ⟨rfl, rfl⟩ : s = _ ∧ p = _ := by simpa using heq
    simp [written, chars]
  · rfl

theorem written_ofAttribute (a : Markup.Attribute) (span : Span) (b : Body) :
    written "" (ofAttribute a span ++ b) = a.atoms ++ written "" b := by
  have hparts : ∀ (ps : List (Located Part)) (c : Body),
      written a.closing (ps.map (fun p => (⟨.part p.val, p.span⟩ : Located Statement)) ++ c) =
        partAtoms ps ++ written a.closing c := by
    intro ps c
    induction ps with
    | nil => rfl
    | cons p ps ih => simp [written, ih, partAtoms]
  simp [ofAttribute, written, hparts, Attribute.atoms]

theorem written_nodes (r : Run) (ns : Nodes) :
    written "" (lower true (r.nodes ++ ns)) = chars r.chars.reverse ++
      written "" (lower true ns) := by
  cases h : r.chars with
  | nil => simp [Run.nodes, h, chars]
  | cons c cs => simp [Run.nodes, h, lower, lowerNode, written_join]

theorem written_node (span : Span) (b : Body) :
    ∀ n : Node, Atom.other ∉ (Piece.node n span false).atoms →
    written "" (lowerNode true span b n) = (Piece.node n span false).atoms ++ written "" b ∧
      n.faults = []
  | .expression _, _ => ⟨rfl, rfl⟩
  | .attribute a, _ => ⟨written_ofAttribute a span b, rfl⟩
  | .markup _, h | .comment, h | .code _, h | .control _, h | .choice _ _, h | .directive _, h =>
    absurd (by simp [Piece.atoms]) h

theorem written_gatherFrom (r : Run) (ps : List Piece) (h : Atom.other ∉ flat ps) :
    written "" (lower true (gatherFrom r ps)) = chars r.chars.reverse ++ flat ps ∧
      nodeFaults (gatherFrom r ps) = [] := by
  induction ps generalizing r with
  | nil =>
    have hw := written_nodes r []
    have hf := nodeFaults_run r []
    rw [List.append_nil] at hw hf
    exact ⟨by simpa [gatherFrom, flat, lower, written] using hw,
      by simpa [gatherFrom, nodeFaults] using hf⟩
  | cons p ps ih =>
    obtain ⟨hp, hps⟩ : Atom.other ∉ p.atoms ∧ Atom.other ∉ flat ps := by
      simpa only [flat, List.flatMap_cons, List.mem_append, not_or] using h
    cases p with
    | text cs offset =>
      obtain ⟨hw, hf⟩ := ih (r.add cs offset) hps
      refine ⟨?_, hf⟩
      rw [gatherFrom, hw]
      simp [Run.add, flat, Piece.atoms, chars]
    | node n span alone =>
      obtain ⟨hw, hf⟩ := ih {} hps
      cases alone with
      | true => exact absurd (by cases n <;> simp [Piece.atoms]) hp
      | false =>
        obtain ⟨hn, hnf⟩ := written_node span (lower true (gatherFrom {} ps)) n hp
        rw [gatherFrom, if_neg Bool.false_ne_true, written_nodes, nodeFaults_run, lower, hn, hw,
          nodeFaults, hnf, hf]
        exact ⟨rfl, rfl⟩

/- What is to be shown of the reader, for each fuel: it reads text with an expression at some places
as the automaton says. -/
def PiecesFill (t : DirectiveTable) (x : List Char) (n : Nat) : Prop :=
  ∀ (s : List Sym) (c : Cursor), Clean s → c.rest = fill x s → c.rest.length < n →
    flat (pieces t .topLevel n 0 c).val = atoms x none s ∧ (pieces t .topLevel n 0 c).faults = []

variable {n : Nat} {s : List Sym} {c : Cursor}

theorem pieces_hole (hx : ∀ c ∈ x, Code.plain c) (ih : PiecesFill t x n) (hs : Clean s)
    (hc : c.rest = fill x (.hole :: s)) (hn : c.rest.length < n + 1) :
    flat (pieces t .topLevel (n + 1) 0 c).val = atoms x none (.hole :: s) ∧
      (pieces t .topLevel (n + 1) 0 c).faults = [] := by
  have hr : c.rest = '@' :: '(' :: x ++ ')' :: fill x s := by simp [hc, fill_cons, Sym.print]
  have htrim : Text.trim x = x := Text.trim_eq_self fun c hc => Code.not_blank_of_plain (hx c hc)
  obtain ⟨span, he⟩ := explicit_eq hr htrim (Code.scan_plain hx none _)
  have hsplit : c.rest = ('@' :: '(' :: x ++ [')']) ++ fill x s := by simp [hr]
  have hf : (c.forward (x.length + 3)).rest = fill x s := by
    simpa using Cursor.rest_forward_of_append hsplit
  have hl : (c.forward (x.length + 3)).rest.length < n := by
    rw [hr] at hn
    rw [hf]
    simp at hn
    omega
  obtain ⟨hflat, hfaults⟩ := ih s _ hs hf hl
  rw [pieces_simple hr (announced_explicit hr), he]
  exact ⟨by simp [Outcome.followedBy, flat, Piece.atoms, atoms, ← hflat], hfaults⟩

theorem pieces_text (ih : PiecesFill t x n) (hs : Clean s) {k : Char} (hc : c.rest = k :: fill x s)
    (hn : (fill x s).length < n) (hk : (k == '<' && Place.opening.closes s) = false)
    (hp : pieces t .topLevel (n + 1) 0 c =
      (Outcome.literal [k] c (c.forward 1)).followedBy (pieces t .topLevel n 0 (c.forward 1))) :
    flat (pieces t .topLevel (n + 1) 0 c).val = atoms x none (.char k :: s) ∧
      (pieces t .topLevel (n + 1) 0 c).faults = [] := by
  have hf : (c.forward 1).rest = fill x s := by simp [hc]
  obtain ⟨hflat, hfaults⟩ := ih s _ hs hf (by rw [hf]; exact hn)
  rw [hp, atoms, hk]
  exact ⟨by simp [Outcome.followedBy, Outcome.literal, flat, Piece.atoms, chars, ← hflat], hfaults⟩

theorem pieces_less (hx : ∀ c ∈ x, Code.plain c) (ih : PiecesFill t x n) (hs : Clean s)
    (hc : c.rest = '<' :: fill x s) (hn : (fill x s).length < n) :
    flat (pieces t .topLevel (n + 1) 0 c).val = atoms x none (.char '<' :: s) ∧
      (pieces t .topLevel (n + 1) 0 c).faults = [] := by
  have htag := tag_meets hx hs hc
  have hcloses := isSome_cross (x := x) .opening s
  cases hcross : cross x .opening s with
  | none =>
    rw [hcross] at htag hcloses
    exact pieces_text ih hs hc hn (by simp [← hcloses]) (pieces_noTag hc htag)
  | some w =>
    obtain ⟨as, r⟩ := w
    rw [hcross] at htag hcloses
    obtain ⟨⟨ps, e⟩, hread, hps, he⟩ := htag
    obtain ⟨u, -, hu⟩ := cross_suffix hcross
    have hle : e.rest.length < n := by
      rw [hu, fill_append, List.length_append] at hn
      rw [he]
      omega
    obtain ⟨hflat, hfaults⟩ := ih r e (hu ▸ hs).of_append he hle
    have hopen : ('<' == '<' && Place.opening.closes s) = true := by simp [← hcloses]
    have hps : flat ps = .char '<' :: as := hps
    rw [pieces_tag hc hread, atoms, hopen, if_pos rfl, atoms_of_cross hcross, ← hflat]
    exact ⟨by simp [Outcome.followedBy, flat_append, hps], hfaults⟩

theorem pieces_fill (hx : ∀ c ∈ x, Code.plain c) (n : Nat) : PiecesFill t x n := by
  induction n with
  | zero => exact fun s c _ _ hn => absurd hn (Nat.not_lt_zero _)
  | succ n ih =>
    intro s c hs hc hn
    cases s with
    | nil =>
      rw [pieces_nil hc]
      exact ⟨rfl, rfl⟩
    | cons y s =>
      have hclean : Clean s := hs.of_append (u := [y])
      cases y with
      | hole => exact pieces_hole hx ih hclean hc hn
      | char k =>
        have hr : c.rest = k :: fill x s := hc
        have hl : (fill x s).length < n := by simpa [hr] using hn
        by_cases hlt : k = '<'
        · subst hlt
          exact pieces_less hx ih hclean hr hl
        · have hat : k ≠ '@' := by simpa using (hs _ (List.mem_cons_self ..)).1
          exact pieces_text ih hclean hr hl (by simp [hlt]) (pieces_literal hr hat hlt (.inl rfl))

theorem written_fill (hx : ∀ c ∈ x, Code.plain c) {s : List Sym} (hs : Clean s) (name : String) :
    (Tree.parse ⟨name, .ofList (fill x s)⟩ t).allDiagnostics = [] ∧
      written "" (lower true (Tree.parse ⟨name, .ofList (fill x s)⟩ t).nodes) = atoms x none s := by
  obtain ⟨hflat, hfaults⟩ :=
    pieces_fill (t := t) hx ((fill x s).length + 1) s (.start (fill x s)) hs rfl (Nat.lt_add_one _)
  obtain ⟨hw, hf⟩ := written_gatherFrom {} _ (hflat ▸ other_not_mem_atoms none s)
  have hnodes : nodeFaults (gather _) = [] := hf
  simp only [Tree.allDiagnostics, Tree.parse, String.toList_ofList, hfaults, hnodes]
  refine ⟨rfl, ?_⟩
  rw [gather, hw, hflat]
  rfl

/-- A text with an expression is read and lowered without a fault, and written as it is but for the
expression. That is written too, unless it stands in the name of a tag or in
a value without quotes. -/
theorem written_expression (name : String) (t : DirectiveTable) {a b x : List Char}
    (ha : ∀ c ∈ a, c ≠ '@' ∧ c ≠ '/')
    (hb : ∀ c ∈ b, c ≠ '@' ∧ c ≠ '/') (hx : ∀ c ∈ x, Code.plain c) :
    let tree := Tree.parse ⟨name, .ofList (a ++ '@' :: '(' :: x ++ ')' :: b)⟩ t
    tree.allDiagnostics = [] ∧ written "" (lower true tree.nodes) = chars a ++
      (if (Place.behind none a (.hole :: b.map .char)).any Place.hides then chars
        ('@' :: '(' :: x ++ [')'])
        else [.expression (.ofList x)]) ++ chars b := by
  have hchars : ∀ cs : List Char, (∀ c ∈ cs, c ≠ '@' ∧ c ≠ '/') → Clean (cs.map .char) ∧
      fill x (cs.map .char) = cs := by
    intro cs h
    refine ⟨?_, by simp [fill, List.flatMap_map, Sym.print]⟩
    rintro y hy
    obtain ⟨c, hc, rfl⟩ := List.mem_map.mp hy
    simpa using h c hc
  obtain ⟨hcleanA, hfillA⟩ := hchars a ha
  obtain ⟨hcleanB, hfillB⟩ := hchars b hb
  have hclean : Clean (a.map .char ++ .hole :: b.map .char) := by
    intro y hy
    rcases List.mem_append.mp hy with hy | hy
    · exact hcleanA y hy
    rcases List.mem_cons.mp hy with rfl | hy
    · simp
    · exact hcleanB y hy
  have hfill : fill x (a.map .char ++ .hole :: b.map .char) = a ++ '@' :: '(' :: x ++ ')' :: b := by
    simp [fill_append, fill_cons, hfillA, hfillB, Sym.print]
  have hwritten := written_fill (t := t) hx hclean name
  rw [hfill, atoms_append_hole] at hwritten
  exact hwritten

/-- The same expression in quotes and without them: the first one is written, the
second one is text. -/
theorem written_expression_unquoted :
    written "" (lower true (Tree.parse ⟨"page", "<a b=\"@(x)\">"⟩ .standard).nodes) =
        chars ['<', 'a', ' ', 'b', '=', '"'] ++ [.expression "x"] ++ chars ['"', '>'] ∧
      (Tree.parse ⟨"page", "<a b=@(x)>"⟩ .standard).allDiagnostics = [] ∧
      written "" (lower true (Tree.parse ⟨"page", "<a b=@(x)>"⟩ .standard).nodes) =
        chars ['<', 'a', ' ', 'b', '='] ++ chars ['@', '(', 'x', ')'] ++ chars ['>'] := by
  have hquoted :=
    (written_expression "page" .standard (a := ['<', 'a', ' ', 'b', '=', '"']) (b := ['"', '>'])
      (x := ['x'])
    (by simp) (by simp) (by simp [Code.plain])).2
  have hplain :=
    written_expression "page" .standard (a := ['<', 'a', ' ', 'b', '=']) (b := ['>']) (x := ['x'])
      (by simp) (by simp) (by simp [Code.plain])
  rw [if_neg (by decide)] at hquoted
  rw [if_pos (by decide)] at hplain
  exact ⟨hquoted, hplain⟩

end Templating.Page
