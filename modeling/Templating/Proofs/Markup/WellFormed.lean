import Mathlib.Data.List.Chain
import Templating.Proofs.Markup.Advance

/-! The shape of the trees that are read: no empty and no broken up markup, chains of branches as
their headers allow, values of attributes with their blanks where they belong, and directives as
they were registered and where they may stand. -/
namespace Templating.Markup
open Text (Cursor isBlank leadingName startsWithWord)

/-! Attributes -/

def Part.Formed (p : Part) : Prop :=
  match p.content with
  | .literal s => s ≠ "" ∧ p.lead = ""
  | .expression _ => Text.allBlank p.lead.toList = true

/-- Only an expression may follow a literal, and it takes the blanks before it. -/
def Part.Precedes (p q : Part) : Prop :=
  match p.content with
  | .literal s => Text.allBlank s.toList = false ∧ ∃ code, q.content = .expression code
  | .expression _ => True

structure Attribute.Formed (a : Attribute) : Prop where
  expression : ∃ p ∈ a.parts, ∃ code, p.val.content = .expression code
  /-- The quote before the value is the one behind it. -/
  quoted : ∃ lead, ∃ quote ∈ ['"', '\''], a.opening = .ofList (lead ++ [quote]) ∧
    a.closing = quote.toString
  parts : ∀ p ∈ a.parts, p.val.Formed
  order : a.parts.IsChain fun p q => p.val.Precedes q.val

/-! Control flow -/

/-- There is a branch; loops have no other, and what follows an `if` begins with `else`. -/
def Chained {α : Type} : List (Clause α) → Prop
  | [] => False
  | first :: more =>
    (['f', 'o', 'r'] <+: first.head.toList ∨ ['w', 'h', 'i', 'l', 'e'] <+: first.head.toList →
      more = []) ∧
      ∀ b ∈ more, startsWithWord ['e', 'l', 's', 'e'] b.head.toList = true

/-! Directives -/

/-- The kinds that are specified, in their order, but for optional ones. -/
inductive Selects : List TokenSpec → List TokenKind → Prop
  | nil : Selects [] []
  | take (spec : TokenSpec) {specs : List TokenSpec} {kinds : List TokenKind}
      (h : Selects specs kinds) :
      Selects (spec :: specs) (spec.kind :: kinds)
  | pass {spec : TokenSpec} {specs : List TokenSpec} {kinds : List TokenKind}
      (hopt : spec.optional = true)
      (h : Selects specs kinds) : Selects (spec :: specs) kinds

/-- Tokens as they are specified, up to where there is something wrong with them. -/
def TokensFollow (specs : List TokenSpec) (tokens : List (Located DirectiveToken))
    (faults : List Fault) : Prop :=
  ∃ read, read <+: specs ∧ Selects read (tokens.map (·.val.kind)) ∧ (read = specs ∨ faults ≠ [])

def Bodied {α : Type} : DirectiveKind → Option (DirectiveBody α) → Prop
  | _, none => True
  | .codeBlock, some (.code _) => True
  | .markupBlock, some (.markup _) => True
  | _, _ => False

structure DirectiveUse.Formed {α : Type} (t : DirectiveTable) (scope : Scope) (d : DirectiveUse α) :
    Prop where
  registered : ∃ r, t.get? d.keyword = some r ∧ Bodied r.kind d.body? ∧
    TokensFollow r.tokens d.tokens d.faults
  /-- A directive in a body says so. -/
  nested : (∃ f ∈ d.faults, f.problem.code = "STC1005") ↔ scope = .nested

/-! Trees -/

def Node.isMarkup : Node → Bool
  | .markup _ => true
  | _ => false

def beginsWithMarkup (ns : Nodes) : Bool := ns.head?.any (·.val.isMarkup)

mutual

/-- The node is as the reader makes it at the top level or in a body. -/
def Node.Formed (t : DirectiveTable) (scope : Scope) : Node → Prop
  | .markup text => text ≠ ""
  | .control branches => Chained branches ∧ ClausesFormed t branches
  | .choice _ arms => ClausesFormed t arms
  | .attribute a => a.Formed
  | .directive ⟨keyword, tokens, some (.markup nodes), faults⟩ =>
    DirectiveUse.Formed t scope ⟨keyword, tokens, some (.markup nodes), faults⟩ ∧
      NodesFormed t .nested nodes
  | .directive d => d.Formed t scope
  | .comment | .expression _ | .code _ => True

def NodesFormed (t : DirectiveTable) (scope : Scope) : Nodes → Prop
  | [] => True
  | ⟨n, _⟩ :: ns =>
    n.Formed t scope ∧ ¬ (n.isMarkup = true ∧ beginsWithMarkup ns = true) ∧ NodesFormed t scope ns

def ClausesFormed (t : DirectiveTable) : List (Clause (Located Node)) → Prop
  | [] => True
  | ⟨_, body⟩ :: cs => NodesFormed t .nested body ∧ ClausesFormed t cs

end

variable {t : DirectiveTable} {scope : Scope}

/-! Pieces -/

def Piece.Formed (t : DirectiveTable) (scope : Scope) : Piece → Prop
  | .text _ _ => True
  | .node n _ _ => n.isMarkup = false ∧ n.Formed t scope

def PiecesFormed (t : DirectiveTable) (scope : Scope) (ps : List Piece) : Prop :=
  ∀ p ∈ ps, p.Formed t scope

theorem piecesFormed_nil : PiecesFormed t scope [] := fun _ h => by cases h

theorem piecesFormed_one {p : Piece} (h : p.Formed t scope) : PiecesFormed t scope [p] := by
  intro q hq
  obtain rfl := List.mem_singleton.mp hq
  exact h

section
variable {ps qs : List Piece}

theorem PiecesFormed.append (h : PiecesFormed t scope ps) (h' : PiecesFormed t scope qs) :
    PiecesFormed t scope (ps ++ qs) := by
  intro p hp
  rcases List.mem_append.mp hp with hp | hp
  · exact h p hp
  · exact h' p hp

theorem nodesFormed_run (r : Run) : NodesFormed t scope r.nodes := by
  unfold Run.nodes
  split
  · trivial
  next hchars =>
    have htext : String.ofList r.chars.reverse ≠ "" := by
      intro h
      have hlist := congrArg String.toList h
      rw [String.toList_ofList] at hlist
      exact hchars (by simpa using hlist)
    exact ⟨htext, by simp [beginsWithMarkup], trivial⟩

theorem nodesFormed_gatherFrom (h : PiecesFormed t scope ps) (r : Run) :
    NodesFormed t scope (gatherFrom r ps) := by
  induction ps generalizing r with
  | nil => exact nodesFormed_run r
  | cons p ps ih =>
    have hrest : PiecesFormed t scope ps := fun q hq => h q (List.mem_cons_of_mem p hq)
    cases p with
    | text cs offset => exact ih hrest _
    | node n span alone =>
      obtain ⟨hmarkup, hn⟩ : n.isMarkup = false ∧ n.Formed t scope := h _ List.mem_cons_self
      have hbehind : NodesFormed t scope (⟨n, span⟩ :: gatherFrom {} ps) :=
        ⟨hn, by simp [hmarkup], ih hrest {}⟩
      rw [gatherFrom]
      generalize (if alone then r.trimPads else r) = run
      have hrun : NodesFormed t scope run.nodes := nodesFormed_run run
      unfold Run.nodes at hrun ⊢
      split
      · exact hbehind
      next hchars =>
        rw [if_neg hchars] at hrun
        exact ⟨hrun.1, by simp [beginsWithMarkup, hmarkup], hbehind⟩

theorem PiecesFormed.gather (h : PiecesFormed t scope ps) : NodesFormed t scope (gather ps) :=
  nodesFormed_gatherFrom h {}

end

/-! Values of attributes -/

namespace Tag

/-- Parts of a value whose end is not read yet: a literal is among them only once an expression
follows it. -/
structure PartsFormed (parts : List (Located Part)) : Prop where
  each : ∀ p ∈ parts, p.val.Formed
  order : parts.IsChain fun p q => p.val.Precedes q.val
  last : ∀ p ∈ parts.getLast?, ∃ code, p.val.content = .expression code

theorem partsFormed_nil : PartsFormed [] := ⟨fun _ h => (by cases h), .nil, fun _ h => (by cases h)⟩

section
variable {parts : List (Located Part)} (h : PartsFormed parts)
include h

theorem PartsFormed.append {more : List (Located Part)} (heach : ∀ p ∈ more, p.val.Formed)
    (horder : more.IsChain fun p q => p.val.Precedes q.val) :
    (∀ p ∈ parts ++ more, p.val.Formed) ∧ (parts ++ more).IsChain fun p q =>
      p.val.Precedes q.val := by
  refine ⟨fun p hp => (List.mem_append.mp hp).elim (h.each p) (heach p),
    List.isChain_append.mpr ⟨h.order, horder, ?_⟩⟩
  intro p hp q hq
  obtain ⟨code, hcode⟩ := h.last p hp
  simp [Part.Precedes, hcode]

theorem PartsFormed.expression {more : List (Located Part)} {q : Located Part} {code : String}
    (hcode : q.val.content = .expression code) (heach : ∀ p ∈ more ++ [q], p.val.Formed)
    (horder : (more ++ [q]).IsChain fun p q => p.val.Precedes q.val) :
    PartsFormed (parts ++ (more ++ [q])) := by
  obtain ⟨heach', horder'⟩ := h.append heach horder
  refine ⟨heach', horder', fun p hp => ⟨code, ?_⟩⟩
  obtain rfl : q = p := by simpa [← List.append_assoc] using hp
  exact hcode

end

theorem formed_literal (d : Draft) (stop : Nat) : ∀ p ∈ d.literal stop, p.val.Formed := by
  intro p hp
  unfold Draft.literal at hp
  split at hp
  · cases hp
  next hpending =>
    obtain rfl := List.mem_singleton.mp hp
    refine ⟨fun htext => ?_, rfl⟩
    have hlist := congrArg String.toList htext
    rw [String.toList_ofList] at hlist
    exact hpending (by simpa using hlist)

theorem partsFormed_expression {d : Draft} (h : PartsFormed d.parts) (code : String)
    (start stop : Nat) :
    PartsFormed (d.expression code start stop).parts := by
  unfold Draft.expression
  split
  next hblank =>
    have hlead : Text.allBlank d.pending = true := by
      simp only [Bool.and_eq_true] at hblank
      exact hblank.2
    refine @PartsFormed.expression _ h [] _ _ rfl (fun p hp => ?_) (.singleton _)
    obtain rfl := List.mem_singleton.mp hp
    simpa [Part.Formed] using hlead
  next hblank =>
    dsimp only
    rw [List.append_assoc]
    refine h.expression rfl (fun p hp => ?_) ?_
    · rcases List.mem_append.mp hp with hp | hp
      · exact formed_literal d start p hp
      · obtain rfl := List.mem_singleton.mp hp
        rfl
    · unfold Draft.literal
      split
      · exact .singleton _
      next hpending =>
        have htext : Text.allBlank d.pending = false := by simpa [hpending] using hblank
        simpa [Part.Precedes] using htext

theorem Valued.partsFormed {quote : Char} {d d' : Draft} {c e : Cursor} (h : Valued quote d c d' e)
    (hd : PartsFormed d.parts) : PartsFormed d'.parts := by
  induction h with
  | close => exact hd
  | char _ _ _ _ ih | escape _ _ _ ih | sign _ _ _ _ ih => exact ih hd
  | expression _ _ _ _ ih => exact ih (partsFormed_expression hd _ _ _)

theorem formed_attribute {d : Draft} (h : PartsFormed d.parts) (hparts : d.parts ≠ [])
    {quote : Char}
    (hquote : quote = '"' ∨ quote = '\'') (name lead : List Char) (stop : Nat) (span : Span)
    (alone : Bool) :
    Piece.Formed t scope
      (.node (.attribute ⟨.ofList name, .ofList (lead ++ [quote]), quote.toString,
        d.parts ++ d.literal stop⟩) span alone) := by
  have horder : (d.literal stop).IsChain fun p q => p.val.Precedes q.val := by
    unfold Draft.literal
    split
    · exact .nil
    · exact .singleton _
  obtain ⟨hall, hchain⟩ := h.append (formed_literal d stop) horder
  obtain ⟨p, hp⟩ := Option.ne_none_iff_exists'.mp (mt List.getLast?_eq_none_iff.mp hparts)
  refine ⟨rfl, ?_⟩
  rw [Node.Formed]
  exact ⟨⟨p, List.mem_append_left _ (List.mem_of_getLast? hp), h.last p hp⟩,
    ⟨lead, quote, by simpa using hquote, rfl, rfl⟩, hall, hchain⟩

theorem piecesFormed_text (cs : List Char) (offset : Nat) :
    PiecesFormed t scope (text cs offset) := by
  unfold text
  split
  · exact piecesFormed_nil
  · exact piecesFormed_one trivial

theorem Attributed.formed {markup : List Char} {offset : Nat} {c e : Cursor} {ps : List Piece}
    (h : Attributed markup offset c ps e) : PiecesFormed t scope ps := by
  induction h with
  | close => exact piecesFormed_text _ _
  | plain _ _ _ ih | literal _ _ _ _ _ _ ih => exact ih
  | parts _ _ hquote hvalue hparts _ ih =>
    have hformed := hvalue.partsFormed partsFormed_nil
    exact (piecesFormed_text _ _).append
      ((piecesFormed_one (formed_attribute hformed hparts hquote _ _ _ _ _)).append ih)

theorem piecesFormed_read {c e : Cursor} {ps : List Piece} (h : read? c = some (ps, e)) :
    PiecesFormed t scope ps := by
  obtain ⟨name, d, -, -, hread⟩ := attributed_of_read h
  exact hread.formed

end Tag

/-! Headers -/

section
variable {word : List Char} (hname : ∀ x ∈ word, Text.continuesName x = true)
include hname

theorem startsWithWord_trim (hword : word ≠ []) {a : List Char} (h : startsWithWord word a = true) :
    startsWithWord word (Text.trim a) = true := by
  have hnotBlank : ∀ x ∈ word, isBlank x = false := fun x hx => by
    cases hblank : isBlank x with
    | false => rfl
    | true =>
      exact absurd (hname x hx)
        (by rw [Text.not_continuesName_of_isBlank hblank]; exact Bool.false_ne_true)
  simp only [startsWithWord, Bool.and_eq_true, List.isPrefixOf_iff_prefix, Bool.not_eq_true'] at h ⊢
  obtain ⟨⟨u, rfl⟩, hbehind⟩ := h
  rw [List.drop_left] at hbehind
  have hstart : Text.trimStart (word ++ u) = word ++ u := by
    cases word with
    | nil => exact absurd rfl hword
    | cons x word => simp [Text.trimStart, hnotBlank x List.mem_cons_self]
  obtain ⟨b, hb, hblank⟩ := Text.exists_trimEnd (word ++ u)
  rw [Text.trim, hstart]
  generalize Text.trimEnd (word ++ u) = trimmed at hb
  -- no blank at the end is one of the word's characters
  obtain ⟨r, rfl, rfl⟩ : ∃ r, trimmed = word ++ r ∧ u = r ++ b := by
    rcases List.append_eq_append_iff.mp hb with ⟨r, hr, hu⟩ | ⟨r, hr, hu⟩
    · exact ⟨r, hr, hu⟩
    · cases r with
      | nil => exact ⟨[], by simpa using hr.symm, by simpa using hu.symm⟩
      | cons x r =>
        have hx := hblank x (by simp [hu])
        rw [hnotBlank x (by simp [hr])] at hx
        cases hx
  refine ⟨List.prefix_append word r, ?_⟩
  rw [List.drop_left]
  cases r with
  | nil => rfl
  | cons x r => exact hbehind

theorem startsWithWord_header {code : List Char} {c after : Cursor} (hword : word ≠ [])
    (hcode : codeAt .openBrace c = .ok (code, after)) (h : startsWithWord word c.rest = true) :
    startsWithWord word (Text.trim code) = true := by
  have hrest : c.rest = code ++ '\x7b' :: after.rest := (codeAt_ok hcode).1
  refine startsWithWord_trim hname hword ?_
  simp only [startsWithWord, Bool.and_eq_true, List.isPrefixOf_iff_prefix, Bool.not_eq_true'] at h ⊢
  obtain ⟨⟨v, hv⟩, hbehind⟩ := h
  obtain ⟨u, rfl⟩ : ∃ u, code = word ++ u := by
    rcases List.append_eq_append_iff.mp (hv.trans hrest) with ⟨u, hu, -⟩ | ⟨u, hu, hbrace⟩
    · exact ⟨u, hu⟩
    · cases u with
      | nil => exact ⟨[], by simpa using hu.symm⟩
      | cons x u =>
        obtain ⟨rfl, -⟩ := List.cons.inj hbrace
        exact absurd (hname '\x7b' (by simp [hu])) (by decide)
  refine ⟨List.prefix_append word u, ?_⟩
  rw [hrest, List.append_assoc, List.drop_left] at hbehind
  rw [List.drop_left]
  cases u with
  | nil => rfl
  | cons x u => exact hbehind

end

theorem startsWithWord_of_control {mark : Cursor} (h : announced t mark = .control true) :
    startsWithWord ['i', 'f'] (mark.forward 1).rest = true := by
  cases announces h with
  | chain hname =>
    have hdrop := Text.drop_leadingName (a := mark.rest.drop 1) (by rw [hname]; decide)
    have hfront := Implicit.prefix_leadingName (mark.rest.drop 1)
    rw [hname] at hdrop hfront
    rw [Cursor.rest_forward]
    simp only [startsWithWord, Bool.and_eq_true, List.isPrefixOf_iff_prefix, Bool.not_eq_true']
    exact ⟨hfront, hdrop⟩

/-! Directives -/

theorem get?_of_announced {mark : Cursor} {d : Directive} (h : announced t mark = .directive d) :
    t.get? d.keyword = some d := by
  cases announces h with
  | directive hget =>
    have hkeyword := List.find?_some hget
    rw [← eq_of_beq hkeyword] at hget
    exact hget

namespace Region

theorem tokensFollow_tokensFrom (d : Directive) (region : Span) (specs : List TokenSpec)
    (offset : Nat) (cs : List Char) :
    TokensFollow specs (tokensFrom d region specs offset cs).1
      (tokensFrom d region specs offset cs).2 := by
  have hcut : ∀ (specs : List TokenSpec) (f : Fault), TokensFollow specs [] [f] :=
    fun specs f => ⟨[], List.nil_prefix, .nil, .inr (List.cons_ne_nil f [])⟩
  induction specs generalizing offset cs with
  | nil => exact ⟨[], List.nil_prefix, by unfold tokensFrom; split <;> exact .nil, .inl rfl⟩
  | cons spec specs ih =>
    unfold tokensFrom
    dsimp only
    split
    · obtain ⟨read, hread, hselects, hall⟩ := ih _ _
      exact ⟨spec :: read, (List.prefix_cons_inj spec).mpr hread, .take spec hselects,
        hall.imp_left (congrArg (spec :: ·))⟩
    · split
      next hopt =>
        obtain ⟨read, hread, hselects, hall⟩ := ih _ _
        exact ⟨spec :: read, (List.prefix_cons_inj spec).mpr hread, .pass hopt hselects,
          hall.imp_left (congrArg (spec :: ·))⟩
      · exact hcut _ _
    · exact hcut _ _

def AllMalformed (d : Directive) (faults : List Fault) : Prop :=
  ∀ f ∈ faults, ∃ reason start stop, f = malformed d reason start stop

theorem allMalformed_nil (d : Directive) : AllMalformed d [] := fun _ h => by cases h

theorem allMalformed_one (d : Directive) (reason : String) (start stop : Nat) :
    AllMalformed d [malformed d reason start stop] :=
  fun _ hf => ⟨reason, start, stop, List.mem_singleton.mp hf⟩

theorem allMalformed_tokensFrom (d : Directive) (region : Span) (specs : List TokenSpec)
    (offset : Nat) (cs : List Char) :
    AllMalformed d (tokensFrom d region specs offset cs).2 := by
  induction specs generalizing offset cs with
  | nil =>
    unfold tokensFrom
    split
    · exact allMalformed_nil d
    · exact allMalformed_one d _ _ _
  | cons spec specs ih =>
    unfold tokensFrom
    dsimp only
    split
    · exact ih _ _
    · split
      · exact ih _ _
      · exact allMalformed_one d _ _ _
    · exact allMalformed_one d _ _ _

end Region

section
variable {d : Directive} {faults : List Fault} (hfaults : Region.AllMalformed d faults)
include hfaults

theorem formed_directiveUse (hget : t.get? d.keyword = some d) {mark : Cursor}
    {body? : Option (DirectiveBody (Located Node))}
    (hbody : Bodied d.kind body?) (span : Span) :
    DirectiveUse.Formed t scope ⟨d.keyword, (announcement d mark).tokens, body?,
      (announcement d mark).faults ++ faults ++
        (if scope == .nested then [{ problem := .nestedDirective d.keyword, span }] else [])⟩ := by
  obtain ⟨read, hread, hselects, hall⟩ := Region.tokensFollow_tokensFrom d _ d.tokens _ _
  refine ⟨⟨d, hget, hbody, read, hread, hselects, hall.imp_right fun h => ?_⟩, ?_⟩
  · exact fun hnil => h (List.append_eq_nil_iff.mp (List.append_eq_nil_iff.mp hnil).1).1
  have hother : ∀ f ∈ (announcement d mark).faults ++ faults, f.problem.code ≠ "STC1005" := by
    intro f hf
    obtain ⟨reason, start, stop, rfl⟩ :=
      (List.mem_append.mp hf).elim (Region.allMalformed_tokensFrom d _ d.tokens _ _ f) (hfaults f)
    exact (by decide : "STC1004" ≠ "STC1005")
  constructor
  · rintro ⟨f, hf, hcode⟩
    rcases List.mem_append.mp hf with hf | hf
    · exact absurd hcode (hother f hf)
    · split at hf
      next hscope => exact eq_of_beq hscope
      · cases hf
  · rintro rfl
    exact ⟨_, List.mem_append_right _ (List.mem_singleton_self _), rfl⟩

end

theorem formed_directivePiece {d : Directive} (hget : t.get? d.keyword = some d) {mark : Cursor}
    {faults : List Fault}
    (hfaults : Region.AllMalformed d faults) {body? : Option (DirectiveBody (Located Node))}
      (hbody : Bodied d.kind body?)
    (hinner : ∀ nodes, body? = some (.markup nodes) → NodesFormed t .nested nodes) (stop : Cursor) :
    (directivePiece d scope mark (announcement d mark).tokens
      ((announcement d mark).faults ++ faults) body? stop).1.Formed
      t scope := by
  have huse :=
    @formed_directiveUse t scope d faults hfaults hget mark body? hbody ⟨mark.offset, stop.offset⟩
  rw [directivePiece]
  refine ⟨rfl, ?_⟩
  cases body? with
  | none =>
    rw [Node.Formed]
    · exact huse
    · intro _ _ _ _ h
      cases h
  | some body =>
    cases body with
    | code code =>
      rw [Node.Formed]
      · exact huse
      · intro _ _ _ _ h
        cases h
    | markup nodes =>
      rw [Node.Formed]
      exact ⟨huse, hinner nodes rfl⟩

/-! What is read at once -/

theorem piecesFormed_announced {mark : Cursor} {o : Outcome (List Piece)}
    (h : announced t mark = .simple o) :
    PiecesFormed t scope o.val := by
  have hplain : ∀ (n : Node) (span : Span) (alone : Bool), n.isMarkup = false → n.Formed t scope →
      PiecesFormed t scope [.node n span alone] :=
        fun n span alone hm hn => piecesFormed_one ⟨hm, hn⟩
  cases announces h with
  | escape | inside | stray => exact piecesFormed_one trivial
  | comment =>
    unfold comment
    dsimp only
    split <;> exact hplain _ _ _ rfl (by rw [Node.Formed]; trivial)
  | explicit =>
    unfold explicit
    split
    · exact hplain _ _ _ rfl (by rw [Node.Formed]; trivial)
    · exact piecesFormed_nil
  | codeBlock =>
    unfold codeBlock
    split
    · exact hplain _ _ _ rfl (by rw [Node.Formed]; trivial)
    · exact piecesFormed_nil
  | implicit =>
    unfold implicit
    dsimp only
    split
    · exact hplain _ _ _ rfl (by rw [Node.Formed]; trivial)
    · exact piecesFormed_nil

/-! Everything that is read -/

def Heads (c : Cursor) (head : String) : Prop :=
  ∀ word : List Char, (∀ x ∈ word, Text.continuesName x = true) → word ≠ [] →
    startsWithWord word c.rest = true →
    startsWithWord word head.toList = true

/-- Branches that go on with each other, the first with the header at the cursor. -/
structure BranchesFormed (t : DirectiveTable) (chained : Bool) (c : Cursor)
    (bs : List (Clause (Located Node))) : Prop where
  clauses : ClausesFormed t bs
  chain : ∃ b more, bs = b :: more ∧ Heads c b.head ∧ (chained = false → more = []) ∧
    ∀ e ∈ more, startsWithWord ['e', 'l', 's', 'e'] e.head.toList = true

theorem BranchesFormed.control {mark : Cursor} {chained : Bool} {bs : List (Clause (Located Node))}
    (h : BranchesFormed t chained (mark.forward 1) bs) (ho : announced t mark = .control chained) :
    (Node.control bs).Formed t scope := by
  obtain ⟨hclauses, b, more, rfl, hword, halone, helse⟩ := h
  rw [Node.Formed]
  refine ⟨⟨fun hloop => ?_, helse⟩, hclauses⟩
  cases chained with
  | false => exact halone rfl
  | true =>
    have hif := hword ['i', 'f'] (by decide) (List.cons_ne_nil _ _) (startsWithWord_of_control ho)
    simp only [startsWithWord, Bool.and_eq_true, List.isPrefixOf_iff_prefix] at hif
    obtain ⟨r, hr⟩ := hif.1
    rw [← hr] at hloop
    simp at hloop

/-- What the reader gives in a number of steps is well-formed. -/
structure StepsFormed (t : DirectiveTable) (n : Nat) : Prop where
  pieces : ∀ scope depth c, PiecesFormed t scope (pieces t scope n depth c).val
  branches : ∀ mark chained c bs, (branches t n mark chained c).val = some bs →
    BranchesFormed t chained c bs
  arms : ∀ mark c as, (arms t n mark c).val = some as → ClausesFormed t as
  directive : ∀ scope mark d, t.get? d.keyword = some d →
    PiecesFormed t scope (directive t n scope mark d).val

theorem formed_node {make : List (Clause (Located Node)) → Node}
    {o : Outcome (Option (List (Clause (Located Node))))}
    (hmarkup : ∀ cs, (make cs).isMarkup = false)
    (h : ∀ cs, o.val = some cs → (make cs).Formed t scope) (mark : Cursor) :
    PiecesFormed t scope (o.node make mark).val := by
  intro p hp
  obtain ⟨cs, hcs, rfl⟩ := List.mem_map.mp hp
  exact ⟨hmarkup cs, h cs (Option.mem_toList.mp hcs)⟩

section
variable {n : Nat} (ih : StepsFormed t n)
include ih

theorem formed_construct (scope : Scope) (c : Cursor) :
    PiecesFormed t scope (construct t scope n c).val := by
  generalize hturn : construct t scope n c = o
  cases constructed hturn with
  | simple ho => exact piecesFormed_announced ho
  | control ho =>
    exact formed_node (fun _ => rfl) (fun bs hbs => (ih.branches c _ _ bs hbs).control ho) c
  | unmatched => exact piecesFormed_nil
  | choice =>
    refine formed_node (fun _ => rfl) (fun as has => ?_) c
    rw [Node.Formed]
    exact ih.arms c _ as has
  | directive ho => exact ih.directive scope c _ (get?_of_announced ho)

theorem formed_pieces (scope : Scope) (depth : Nat) (c : Cursor) :
    PiecesFormed t scope (pieces t scope (n + 1) depth c).val := by
  generalize hturn : pieces t scope (n + 1) depth c = o
  cases pieces_turn hturn with
  | stop => exact piecesFormed_nil
  | literal => exact (piecesFormed_one (p := .text _ _) trivial).append (ih.pieces _ _ _)
  | tag _ hread => exact (Tag.piecesFormed_read hread).append (ih.pieces _ _ _)
  | sign => exact (formed_construct ih scope c).append (ih.pieces _ _ _)

theorem formed_enclosed (mark c : Cursor) : NodesFormed t .nested (enclosed t n mark c).val :=
  (ih.pieces .nested 0 c).gather

theorem formed_branches {mark : Cursor} {chained : Bool} {c : Cursor}
    {bs : List (Clause (Located Node))}
    (h : (branches t (n + 1) mark chained c).val = some bs) : BranchesFormed t chained c bs := by
  have hheader :
    ∀ {header : List Char} {begun : Cursor}, codeAt .openBrace c = .ok (header, begun) →
      Heads c (.ofList (Text.trim header)) := by
    intro header begun hcode word hname hword hstarts
    rw [String.toList_ofList]
    exact startsWithWord_header hname hword hcode hstarts
  generalize hturn : branches t (n + 1) mark chained c = o at h
  cases branches_turn hturn with
  | headless => cases h
  | more hcode _ hchained helse =>
    obtain ⟨bs', hbs', rfl⟩ := Option.map_eq_some_iff.mp h
    obtain ⟨hclauses, b, more, rfl, hword, -, hrest⟩ := ih.branches _ _ _ bs' hbs'
    have hmany : chained = false → b :: more = [] :=
      fun h => absurd (hchained.symm.trans h) (by decide)
    refine ⟨⟨formed_enclosed ih mark _, hclauses⟩, _, _, rfl, hheader hcode, hmany, ?_⟩
    intro e he
    rcases List.mem_cons.mp he with rfl | he
    · exact hword ['e', 'l', 's', 'e'] (by decide) (List.cons_ne_nil _ _) helse
    · exact hrest e he
  | last hcode =>
    obtain rfl := Option.some.inj h
    exact ⟨⟨formed_enclosed ih mark _, trivial⟩, _, _, rfl, hheader hcode, fun _ =>
      rfl, fun _ h => by cases h⟩

theorem formed_arms {mark c : Cursor} {as : List (Clause (Located Node))}
    (h : (arms t (n + 1) mark c).val = some as) :
    ClausesFormed t as := by
  generalize hturn : arms t (n + 1) mark c = o at h
  cases arms_turn hturn with
  | cut | close | unbodied =>
    obtain rfl := Option.some.inj h
    trivial
  | headless => cases h
  | more =>
    obtain ⟨as', has', rfl⟩ := Option.map_eq_some_iff.mp h
    exact ⟨formed_enclosed ih mark _, ih.arms _ _ as' has'⟩
  | last =>
    obtain rfl := Option.some.inj h
    exact ⟨formed_enclosed ih mark _, trivial⟩

theorem formed_directive (scope : Scope) (mark : Cursor) {d : Directive}
    (hget : t.get? d.keyword = some d) :
    PiecesFormed t scope (directive t (n + 1) scope mark d).val := by
  have hnone := Region.allMalformed_nil d
  have hbare : ∀ {fs : List Fault} (_ : Region.AllMalformed d fs) (stop : Cursor)
    (outer : List Fault),
      PiecesFormed t scope (finished d scope mark fs none stop outer).val := fun hfs stop _ =>
    piecesFormed_one (formed_directivePiece hget hfs (by cases d.kind <;> trivial)
      (fun _ h => by cases h) stop)
  generalize hturn : directive t (n + 1) scope mark d = o
  cases directive_turn hturn with
  | line | codeless => exact hbare hnone _ _
  | bare => exact hbare (Region.allMalformed_one d _ _ _) _ _
  | code hkind =>
    exact piecesFormed_one
      (formed_directivePiece hget hnone (by rw [hkind]; trivial) (fun _ h => by cases h) _)
  | markup hkind =>
    refine piecesFormed_one
      (formed_directivePiece hget hnone (by rw [hkind]; trivial) (fun nodes h => ?_) _)
    obtain rfl := DirectiveBody.markup.inj (Option.some.inj h)
    exact formed_enclosed ih mark _

end

theorem stepsFormed (t : DirectiveTable) (n : Nat) : StepsFormed t n := by
  induction n with
  | zero =>
    refine ⟨fun _ _ _ => ?_, fun _ _ _ bs h => ?_, fun _ _ as h => ?_, fun _ _ _ _ => ?_⟩
    · rw [pieces]
      exact piecesFormed_nil
    · rw [branches] at h
      cases h
    · rw [arms] at h
      cases h
    · rw [directive]
      exact piecesFormed_nil
  | succ n ih =>
    exact ⟨formed_pieces ih, fun _ _ _ _ => formed_branches ih, fun _ _ _ => formed_arms ih,
      fun scope mark _ => formed_directive ih scope mark⟩

/-- Every template is read as a well-formed tree. -/
theorem nodesFormed_parse (s : Source) (t : DirectiveTable) :
    NodesFormed t .topLevel (Tree.parse s t).nodes :=
  ((stepsFormed t _).pieces .topLevel 0 _).gather

end Templating.Markup
