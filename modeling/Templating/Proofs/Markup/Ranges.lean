import Templating.Proofs.Markup.Located
import Templating.Proofs.Text.Listing

/-! Ranges follow the text: nodes stand one after another in it, and so does what is in a node,
inside the node's own range. -/
namespace Templating.Markup
open Text (Cursor isBlank byteSize byteSize_append)
open Text.Cursor

/-- The ranges lie between two offsets, one after another. -/
def Between : Nat → Nat → List Span → Prop
  | a, b, [] => a ≤ b
  | a, b, s :: ss => a ≤ s.start ∧ s.start ≤ s.stop ∧ Between s.stop b ss

def Node.bodies : Node → List Nodes
  | .control cs | .choice _ cs => cs.map (·.body)
  | .directive ⟨_, _, some (.markup nodes), _⟩ => [nodes]
  | _ => []

def DirectiveBody.ranges : DirectiveBody (Located Node) → List Span
  | .code c => [c.span]
  | .markup nodes => nodes.map (·.span)

def Node.inner : Node → List Span
  | .attribute a => a.parts.map (·.span)
  | .directive d => d.tokens.map (·.span) ++ d.body?.toList.flatMap DirectiveBody.ranges
  | n => n.bodies.flatten.map (·.span)

/-- The node is one of these, or is in a body of one of them, at any depth. -/
inductive Holds : Nodes → Located Node → Prop
  | here {ns m} (h : m ∈ ns) : Holds ns m
  | inside {ns m body n} (h : m ∈ ns) (hbody : body ∈ m.val.bodies) (hn : Holds body n) : Holds ns n

/-- What is in a node, at any depth, lies in the node's range and in order. -/
def Ordered (ns : Nodes) : Prop := ∀ m, Holds ns m → Between m.span.start m.span.stop m.val.inner

section
variable {a b c d : Nat} {ss ts : List Span}

theorem Between.le (h : Between a b ss) : a ≤ b := by
  induction ss generalizing a with
  | nil => exact h
  | cons s ss ih =>
    obtain ⟨hstart, hstop, hrest⟩ := h
    have hle := ih hrest
    omega

theorem Between.weaken (h : Between a b ss) (hc : c ≤ a) (hd : b ≤ d) : Between c d ss := by
  induction ss generalizing a c with
  | nil => exact (hc.trans h).trans hd
  | cons s ss ih =>
    obtain ⟨hstart, hstop, hrest⟩ := h
    exact ⟨hc.trans hstart, hstop, ih hrest (Nat.le_refl _)⟩

theorem Between.append (h : Between a b ss) (h' : Between b c ts) : Between a c (ss ++ ts) := by
  induction ss generalizing a with
  | nil => exact h'.weaken h (Nat.le_refl c)
  | cons s ss ih =>
    obtain ⟨hstart, hstop, hrest⟩ := h
    exact ⟨hstart, hstop, ih hrest⟩

theorem between_one {s : Span} (hstart : a ≤ s.start) (hle : s.start ≤ s.stop)
    (hstop : s.stop ≤ b) : Between a b [s] :=
  ⟨hstart, hle, hstop⟩

theorem Between.mem (h : Between a b ss) {s : Span} (hs : s ∈ ss) :
    a ≤ s.start ∧ s.start ≤ s.stop ∧ s.stop ≤ b := by
  induction ss generalizing a with
  | nil => cases hs
  | cons t ss ih =>
    obtain ⟨hstart, hstop, hrest⟩ := h
    rcases List.mem_cons.mp hs with rfl | hs
    · exact ⟨hstart, hstop, hrest.le⟩
    · obtain ⟨hstart', hstop', hend⟩ := ih hrest hs
      exact ⟨by omega, hstop', hend⟩

end

/-! Pieces -/

def Piece.range : Piece → Span
  | .text cs offset => ⟨offset, offset + byteSize cs⟩
  | .node _ span _ => span

def Piece.Ordered : Piece → Prop
  | .text _ _ => True
  | .node n span _ => Between span.start span.stop n.inner ∧ ∀ body ∈ n.bodies, Markup.Ordered body

/-- The pieces lie between two offsets, one after another, and so does what is in each. -/
structure PiecesBetween (a b : Nat) (ps : List Piece) : Prop where
  ranges : Between a b (ps.map Piece.range)
  each : ∀ p ∈ ps, p.Ordered

section
variable {a b c d : Nat} {ps qs : List Piece}

theorem piecesBetween_nil (h : a ≤ b) : PiecesBetween a b [] := ⟨h, fun _ hp => by cases hp⟩

theorem PiecesBetween.weaken (h : PiecesBetween a b ps) (hc : c ≤ a) (hd : b ≤ d) :
    PiecesBetween c d ps :=
  ⟨h.ranges.weaken hc hd, h.each⟩

theorem PiecesBetween.append (h : PiecesBetween a b ps) (h' : PiecesBetween b c qs) :
    PiecesBetween a c (ps ++ qs) := by
  refine ⟨?_, fun p hp => (List.mem_append.mp hp).elim (h.each p) (h'.each p)⟩
  rw [List.map_append]
  exact h.ranges.append h'.ranges

theorem PiecesBetween.cons {p : Piece} (h : PiecesBetween a b [p]) (h' : PiecesBetween b c qs) :
    PiecesBetween a c (p :: qs) :=
  h.append h'

theorem piecesBetween_text {cs : List Char} {offset : Nat} (ha : a ≤ offset)
    (hb : offset + byteSize cs ≤ b) :
    PiecesBetween a b [.text cs offset] := by
  refine ⟨between_one ha (Nat.le_add_right _ _) hb, fun p hp => ?_⟩
  obtain rfl := List.mem_singleton.mp hp
  trivial

theorem piecesBetween_node {n : Node} {span : Span} {alone : Bool} (ha : a ≤ span.start)
    (hb : span.stop ≤ b)
    (hinner : Between span.start span.stop n.inner) (hbodies : ∀ body ∈ n.bodies, Ordered body) :
    PiecesBetween a b [.node n span alone] := by
  refine ⟨between_one ha hinner.le hb, fun p hp => ?_⟩
  obtain rfl := List.mem_singleton.mp hp
  exact ⟨hinner, hbodies⟩

theorem piecesBetween_plain {n : Node} {span : Span} {alone : Bool} (ha : a ≤ span.start)
    (hle : span.start ≤ span.stop)
    (hb : span.stop ≤ b) (hinner : n.inner = []) (hbodies : n.bodies = []) :
    PiecesBetween a b [.node n span alone] := by
  refine piecesBetween_node ha hb ?_ ?_
  · rw [hinner]
    exact hle
  · rw [hbodies]
    exact fun _ h => by cases h

/-- A run that has begun by an offset and covers nothing behind it, and nothing before another. -/
structure Run.Fits (r : Run) (a b : Nat) : Prop where
  le : a ≤ b
  start : r.chars ≠ [] → a ≤ r.start ∧ r.start ≤ b
  stop : r.chars ≠ [] → r.stop ≤ b

theorem Run.fits_empty (a : Nat) : Run.Fits {} a a :=
  ⟨Nat.le_refl a, fun h => absurd rfl h, fun h => absurd rfl h⟩

theorem Run.Fits.add {r : Run} (h : r.Fits a b) {offset : Nat} (ho : b ≤ offset) (cs : List Char) :
    (r.add cs offset).Fits a (offset + byteSize cs) := by
  have hle := h.le
  refine ⟨by omega, fun _ => ?_, fun _ => Nat.le_refl _⟩
  rw [Run.add]
  dsimp only
  split
  · omega
  next hchars =>
    obtain ⟨hstart, hstop⟩ := h.start (by simpa using hchars)
    omega

theorem Run.Fits.trimPads {r : Run} (h : r.Fits a b) : r.trimPads.Fits a b := by
  have hchars : r.trimPads.chars ≠ [] → r.chars ≠ [] := by
    intro htrimmed hnil
    rw [Run.trimPads, hnil] at htrimmed
    exact htrimmed rfl
  exact ⟨h.le, fun hne => h.start (hchars hne), fun hne => h.stop (hchars hne)⟩

theorem Run.Fits.nodes {r : Run} (h : r.Fits a b) : Between a b (r.nodes.map (·.span)) := by
  unfold Run.nodes
  split
  · exact h.le
  next hchars =>
    have hne : r.chars ≠ [] := by simpa using hchars
    obtain ⟨hstart, hle⟩ := h.start hne
    have hstop := h.stop hne
    exact between_one hstart (Nat.le_max_right _ _) (by dsimp only; omega)

theorem between_gatherFrom {r : Run} (h : Between b c (ps.map Piece.range)) (hr : r.Fits a b) :
    Between a c ((gatherFrom r ps).map (·.span)) := by
  induction ps generalizing r a b with
  | nil => exact hr.nodes.weaken (Nat.le_refl a) h
  | cons p ps ih =>
    obtain ⟨hstart, hstop, hrest⟩ := h
    cases p with
    | text cs offset => exact ih hrest (hr.add hstart cs)
    | node n span alone =>
      have hrun : (if alone then r.trimPads else r).Fits a b := by
        split
        · exact hr.trimPads
        · exact hr
      rw [gatherFrom, List.map_append, List.map_cons]
      exact hrun.nodes.append ⟨hstart, hstop, ih hrest (Run.fits_empty _)⟩

theorem PiecesBetween.gather (h : PiecesBetween a b ps) : Between a b ((gather ps).map (·.span)) :=
  between_gatherFrom h.ranges (Run.fits_empty a)

theorem PiecesBetween.ordered (h : PiecesBetween a b ps) : Ordered (Markup.gather ps) := by
  have hnode : ∀ m ∈ Markup.gather ps, Between m.span.start m.span.stop m.val.inner ∧
      ∀ body ∈ m.val.bodies, Ordered body := by
    intro m hm
    rcases mem_gatherFrom hm with ⟨s, hs⟩ | ⟨alone, hp⟩
    · obtain ⟨-, hle, -⟩ := h.gather.mem (List.mem_map_of_mem hm)
      rw [hs]
      exact ⟨hle, fun _ hbody => by cases hbody⟩
    · exact h.each _ hp
  intro m hm
  cases hm with
  | here hmem => exact (hnode m hmem).1
  | inside hmem hbody hn => exact (hnode _ hmem).2 _ hbody m hn

end

/-! What is read at once -/

def OutcomeBetween (c : Cursor) (o : Outcome (List Piece)) : Prop :=
  PiecesBetween c.offset o.cursor.offset o.val

section
variable {t : DirectiveTable} {mark : Cursor} {cs : List Char}

theorem OutcomeBetween.followedBy {c : Cursor} {o o' : Outcome (List Piece)}
    (h : OutcomeBetween c o)
    (h' : OutcomeBetween o.cursor o') : OutcomeBetween c (o.followedBy o') :=
  PiecesBetween.append h h'

theorem between_failed {c resume : Cursor} (h : Ahead c resume) (fs : List Fault) :
    OutcomeBetween c ⟨[], fs, resume⟩ :=
  piecesBetween_nil h.offset_le

theorem between_literal {c : Cursor} {x : Char} (h : c.rest = x :: cs) {after : Cursor}
    (hafter : Ahead (c.forward 1) after) :
    OutcomeBetween c (.literal [x] c after) := by
  have hone := offset_forward_one h
  have hle := hafter.offset_le
  refine piecesBetween_text (Nat.le_refl _) ?_
  show c.offset + (x.utf8Size + 0) ≤ after.offset
  omega

variable (h : mark.rest = '@' :: cs)
include h

theorem between_comment : OutcomeBetween mark (comment mark) := by
  have hstop := (beyond_comment h).ahead.offset_le
  unfold comment at hstop ⊢
  dsimp only at hstop ⊢
  split at hstop
  · exact piecesBetween_plain (Nat.le_refl _) hstop (Nat.le_refl _) rfl rfl
  · have hend : (mark.forward 2).toEnd.offset = mark.size := by
      rw [offset_toEnd, (ahead_forward mark 2).size_eq]
    rw [hend] at hstop
    exact piecesBetween_plain (Nat.le_refl _) hstop (Nat.le_of_eq hend.symm) rfl rfl

theorem between_explicit : OutcomeBetween mark (explicit mark) := by
  unfold explicit
  split
  next hcode =>
    have hafter := (beyond_sign h 1).trans (beyond_codeAt hcode).ahead
    exact piecesBetween_plain (Nat.le_refl _) hafter.ahead.offset_le (Nat.le_refl _) rfl rfl
  next hcode => exact between_failed ((ahead_forward mark 2).trans (ahead_codeAt_error hcode)) _

theorem between_codeBlock : OutcomeBetween mark (codeBlock mark) := by
  unfold codeBlock
  split
  next code after hcode =>
    have hafter := (beyond_sign h 1).trans (beyond_codeAt hcode).ahead
    have hline : after.offset ≤ (if mark.atLineStart then skipLineEnd after else after).offset := by
      split
      · exact (ahead_skipLineEnd after).offset_le
      · exact Nat.le_refl _
    exact piecesBetween_plain (Nat.le_refl _) hafter.ahead.offset_le hline rfl rfl
  next hcode => exact between_failed ((ahead_forward mark 2).trans (ahead_codeAt_error hcode)) _

theorem between_implicit : OutcomeBetween mark (implicit mark) := by
  unfold implicit
  dsimp only
  split
  next code _ =>
    have hafter := (beyond_sign h 0).trans (ahead_past (mark.forward 1) code)
    exact piecesBetween_plain (Nat.le_refl _) hafter.ahead.offset_le (Nat.le_refl _) rfl rfl
  · exact between_failed ((ahead_forward mark 1).trans (ahead_recover _ _ _)) _

theorem between_stray : OutcomeBetween mark (stray mark) := between_literal h (ahead_refl _)

theorem between_announced {o : Outcome (List Piece)} (ho : announced t mark = .simple o) :
    OutcomeBetween mark o := by
  cases announces ho with
  | escape =>
    exact between_literal h
      ((ahead_forward _ 1).trans (by rw [forward_forward]; exact ahead_refl _))
  | inside => exact between_literal h (ahead_refl _)
  | stray => exact between_stray h
  | comment => exact between_comment h
  | explicit => exact between_explicit h
  | codeBlock => exact between_codeBlock h
  | implicit => exact between_implicit h

end

/-! Tags -/

namespace Tag

/-- The parts lie between the beginning of a value and the text that is no part yet, which takes no
more bytes than were read. -/
structure Draft.Fits (d : Draft) (a b : Nat) : Prop where
  parts : Between a d.pendingAt (d.parts.map (·.span))
  pending : d.pendingAt + byteSize d.pending ≤ b

section
variable {a b : Nat} {d : Draft}

theorem between_literalPart {stop : Nat} (h : d.pendingAt ≤ stop) :
    Between d.pendingAt stop ((d.literal stop).map (·.span)) := by
  unfold Draft.literal
  split
  · exact h
  · exact between_one (Nat.le_refl _) h (Nat.le_refl _)

theorem Draft.Fits.push (h : d.Fits a b) {x : Char} {b' : Nat} (hb : b + x.utf8Size ≤ b') :
    Fits { d with pending := d.pending ++ [x] } a b' := by
  have hpending := h.pending
  refine ⟨h.parts, ?_⟩
  simp only [byteSize_append, byteSize]
  omega

theorem Draft.Fits.expression (h : d.Fits a b) (code : String) {stop : Nat} (hstop : b ≤ stop) :
    (d.expression code b stop).Fits a stop := by
  have hpending : d.pendingAt ≤ b := (Nat.le_add_right _ _).trans h.pending
  unfold Draft.expression
  split
  · refine ⟨?_, Nat.le_refl _⟩
    rw [List.map_append]
    exact h.parts.append (between_one (Nat.le_refl _) (hpending.trans hstop) (Nat.le_refl _))
  · refine ⟨?_, Nat.le_refl _⟩
    rw [List.map_append, List.map_append]
    exact (h.parts.append (between_literalPart hpending)).append
      (between_one (Nat.le_refl _) hstop (Nat.le_refl _))

end

theorem Valued.fits {quote : Char} {a : Nat} {d d' : Draft} {c e : Cursor}
    (h : Valued quote d c d' e) (hd : d.Fits a c.offset) : d'.Fits a e.offset := by
  induction h with
  | close => exact hd
  | char hrest _ _ _ ih => exact ih (hd.push (Nat.le_of_eq (offset_forward_one hrest).symm))
  | @escape _ _ c _ _ hrest _ _ ih =>
    refine ih (hd.push ?_)
    rw [← offset_forward_one hrest, ← forward_forward 1 1 c]
    exact (ahead_forward _ 1).offset_le
  | sign hrest _ _ _ ih => exact ih (hd.push (Nat.le_of_eq (offset_forward_one hrest).symm))
  | expression _ _ _ _ ih => exact ih (hd.expression _ (ahead_forward _ _).offset_le)

theorem between_markup {a b : Nat} {cs : List Char} {offset : Nat} (ha : a ≤ offset)
    (hb : offset + byteSize cs ≤ b) :
    PiecesBetween a b (text cs offset) := by
  unfold text
  split
  · exact piecesBetween_nil (by omega)
  · exact piecesBetween_text ha hb

theorem Attributed.between {markup : List Char} {offset : Nat} {c e : Cursor} {ps : List Piece}
    (h : Attributed markup offset c ps e) (hmarkup : offset + byteSize markup ≤ c.offset) :
    PiecesBetween offset e.offset ps := by
  induction h with
  | close he hu =>
    refine between_markup (Nat.le_refl _) ?_
    rw [byteSize_append, he.offset_eq hu]
    omega
  | plain hd hu _ ih =>
    refine ih ?_
    rw [byteSize_append, hd.offset_eq hu]
    omega
  | @literal _ lead _ quote c v a _ d _ hv hlead _ hvalue _ _ ih =>
    have hfits : d.Fits v.offset a.offset := hvalue.fits ⟨Nat.le_refl _, Nat.le_refl _⟩
    have hpending := hfits.pending
    have hparts := hfits.parts.le
    have hbegun : v.offset = c.offset + byteSize (lead ++ [quote]) :=
      hv.offset_eq (by simpa using hlead)
    obtain ⟨r, hend⟩ := hvalue.closes
    refine ih ?_
    rw [offset_forward_one hend]
    simp only [byteSize_append, byteSize] at hbegun ⊢
    omega
  | @parts _ _ _ _ _ c v a _ d _ hv _ _ hvalue _ _ ih =>
    have hfits : d.Fits v.offset a.offset := hvalue.fits ⟨Nat.le_refl _, Nat.le_refl _⟩
    have hpending := hfits.pending
    have hbegun := hv.offset_le
    have hbehind := (ahead_forward a 1).offset_le
    have hinner : Between c.offset (a.forward 1).offset
        ((d.parts ++ d.literal a.offset).map (·.span)) := by
      rw [List.map_append]
      exact (hfits.parts.append (between_literalPart (by omega))).weaken hbegun hbehind
    refine (between_markup (Nat.le_refl _) hmarkup).append
      (PiecesBetween.cons ?_ (ih (Nat.le_refl _)))
    exact piecesBetween_node (Nat.le_refl _) (Nat.le_refl _) hinner fun _ hbody => by cases hbody

theorem between_read {c e : Cursor} {ps : List Piece} (h : read? c = some (ps, e)) :
    PiecesBetween c.offset e.offset ps := by
  obtain ⟨name, d, hd, hname, hread⟩ := attributed_of_read h
  exact hread.between (Nat.le_of_eq (hd.offset_eq hname).symm)

end Tag

/-! Directives -/

theorem Region.between_tokensFrom (d : Directive) (region : Span) (specs : List TokenSpec)
    (offset : Nat) (cs : List Char) :
    Between offset (offset + byteSize cs)
      ((tokensFrom d region specs offset cs).1.map (·.span)) := by
  induction specs generalizing offset cs with
  | nil =>
    unfold tokensFrom
    split <;> exact Nat.le_add_right _ _
  | cons spec specs ih =>
    have hsize : byteSize cs = byteSize (cs.takeWhile isBlank) +
        byteSize (cs.dropWhile isBlank) := by
      rw [← byteSize_append, List.takeWhile_append_dropWhile]
    unfold tokensFrom
    dsimp only
    generalize cs.dropWhile isBlank = ds at hsize
    split
    next s hslice =>
      obtain ⟨b, hb, -⟩ := Text.exists_trimEnd ds
      obtain ⟨u, rfl⟩ : s <+: ds := (prefix_of_slice hslice).trans ⟨b, hb.symm⟩
      rw [byteSize_append] at hsize
      rw [List.drop_left]
      refine ⟨by dsimp only; omega, Nat.le_add_right _ _,
        (ih _ u).weaken (Nat.le_refl _) (by omega)⟩
    · split
      · exact (ih _ ds).weaken (by omega) (by omega)
      · exact Nat.le_add_right _ _
    · exact Nat.le_add_right _ _

section
variable {t : DirectiveTable}

theorem between_announcement (d : Directive) (mark : Cursor) :
    Between mark.offset (announcement d mark).stop.offset
      ((announcement d mark).tokens.map (·.span)) := by
  have hregion :
    (if d.kind == .line then (mark.forward (d.keyword.length + 1)).rest.takeWhile (· != '\n')
      else ((mark.forward (d.keyword.length + 1)).rest.takeWhile (· != '\n')).takeWhile
        (· != '\x7b')) <+:
      (mark.forward (d.keyword.length + 1)).rest := by
    split
    · exact List.takeWhile_prefix _
    · exact (List.takeWhile_prefix _).trans (List.takeWhile_prefix _)
  obtain ⟨more, hmore⟩ := hregion
  have hstop := offset_forward hmore.symm
  refine (Region.between_tokensFrom d _ d.tokens _ _).weaken (ahead_forward mark _).offset_le ?_
  exact Nat.le_of_eq hstop.symm

def bodyRanges (body? : Option (DirectiveBody (Located Node))) : List Span :=
  body?.toList.flatMap DirectiveBody.ranges

theorem between_directivePiece (d : Directive) (scope : Scope) {mark stop : Cursor}
    (faults : List Fault) (body? : Option (DirectiveBody (Located Node)))
    (hbody : Between (announcement d mark).stop.offset stop.offset (bodyRanges body?))
    (hnodes : ∀ nodes, body? = some (.markup nodes) → Ordered nodes) (outer : List Fault) :
    OutcomeBetween mark
      ⟨[(directivePiece d scope mark (announcement d mark).tokens faults body? stop).1], outer,
        (directivePiece d scope mark (announcement d mark).tokens faults body? stop).2⟩ := by
  refine piecesBetween_node (Nat.le_refl _) (ahead_directiveEnd d mark stop).offset_le
    ((between_announcement d mark).append hbody) fun nodes hmem => ?_
  cases body? with
  | none => cases hmem
  | some body =>
    cases body with
    | code c => cases hmem
    | markup ns =>
      obtain rfl := List.mem_singleton.mp hmem
      exact hnodes nodes rfl

/-! Everything that is read -/

/-- The bodies lie between two offsets, one after another, and so does what is in each. -/
structure ClausesBetween (a b : Nat) (cs : List (Clause (Located Node))) : Prop where
  ranges : Between a b ((cs.map (·.body)).flatten.map (·.span))
  each : ∀ body ∈ cs.map (·.body), Ordered body

section
variable {a b c : Nat} {cs : List (Clause (Located Node))}

theorem clausesBetween_nil (h : a ≤ b) : ClausesBetween a b [] := ⟨h, fun _ hbody => by cases hbody⟩

theorem ClausesBetween.weaken (h : ClausesBetween a b cs) {a' b' : Nat} (ha : a' ≤ a)
    (hb : b ≤ b') :
    ClausesBetween a' b' cs :=
  ⟨h.ranges.weaken ha hb, h.each⟩

theorem ClausesBetween.cons {ps : List Piece} (head : String) (h : PiecesBetween a b ps)
    (h' : ClausesBetween b c cs) :
    ClausesBetween a c (⟨head, gather ps⟩ :: cs) := by
  refine ⟨?_, fun body hbody => ?_⟩
  · rw [List.map_cons, List.flatten_cons, List.map_append]
    exact h.gather.append h'.ranges
  · rcases List.mem_cons.mp hbody with rfl | hbody
    · exact h.ordered
    · exact h'.each body hbody

end

/-- The clauses that are read from the cursor on, if any, lie between it and the place reached. -/
def ClausedBetween (c : Cursor) (o : Outcome (Option (List (Clause (Located Node))))) : Prop :=
  ∀ cs, o.val = some cs → ClausesBetween c.offset o.cursor.offset cs

section
variable {c after : Cursor} {fs : List Fault}

theorem clausedBetween_none : ClausedBetween c ⟨none, fs, after⟩ := fun _ h => by cases h

theorem ClausesBetween.claused {cs : List (Clause (Located Node))}
    (h : ClausesBetween c.offset after.offset cs) :
    ClausedBetween c ⟨some cs, fs, after⟩ := fun _ hcs => Option.some.inj hcs ▸ h

theorem clausedBetween_nil (h : Ahead c after) : ClausedBetween c ⟨some [], fs, after⟩ :=
  (clausesBetween_nil h.offset_le).claused

theorem ClausedBetween.cons {b : Nat} {next : Cursor} {ps : List Piece}
    {o : Outcome (Option (List (Clause (Located Node))))}
    (head : String) (h : PiecesBetween c.offset b ps) (hnext : b ≤ next.offset)
    (ho : ClausedBetween next o) :
    ClausedBetween c ⟨o.val.map (⟨head, gather ps⟩ :: ·), fs, o.cursor⟩ := by
  intro cs hcs
  obtain ⟨more, hmore, rfl⟩ := Option.map_eq_some_iff.mp hcs
  exact .cons head h ((ho more hmore).weaken hnext (Nat.le_refl _))

end

/-- All that is read in a number of steps lies between where reading began and where it has come to,
in order. -/
structure StepsBetween (t : DirectiveTable) (n : Nat) : Prop where
  pieces : ∀ scope depth c, OutcomeBetween c (pieces t scope n depth c)
  branches : ∀ mark chained c, ClausedBetween c (branches t n mark chained c)
  arms : ∀ mark c, ClausedBetween c (arms t n mark c)
  directive : ∀ scope mark d, OutcomeBetween mark (directive t n scope mark d)

theorem ClausedBetween.node {mark c : Cursor} {o : Outcome (Option (List (Clause (Located Node))))}
    {make : List (Clause (Located Node)) → Node} (h : ClausedBetween c o) (hmark : Ahead mark c)
      (hc : Ahead c o.cursor)
    (hinner : ∀ cs, (make cs).inner = (cs.map (·.body)).flatten.map (·.span))
    (hbodies : ∀ cs, (make cs).bodies = cs.map (·.body)) (fs : List Fault) :
    OutcomeBetween mark ⟨o.val.toList.map fun cs =>
      .node (make cs) ⟨mark.offset, o.cursor.offset⟩ false, fs, o.cursor⟩ := by
  unfold OutcomeBetween
  cases ho : o.val with
  | none => exact piecesBetween_nil (hmark.trans hc).offset_le
  | some cs =>
    have hclauses := (h cs ho).weaken hmark.offset_le (Nat.le_refl _)
    refine piecesBetween_node (Nat.le_refl _) (Nat.le_refl _) ?_ ?_
    · rw [hinner]
      exact hclauses.ranges
    · rw [hbodies]
      exact hclauses.each

section
variable {n : Nat} (ih : StepsBetween t n)
include ih

theorem between_construct (scope : Scope) {c : Cursor} {cs : List Char} (h : c.rest = '@' :: cs) :
    OutcomeBetween c (construct t scope n c) := by
  have hsteps := stepsAhead t n
  generalize hturn : construct t scope n c = o
  cases constructed hturn with
  | simple ho => exact between_announced h ho
  | control =>
    exact (ih.branches c _ _).node (ahead_forward c 1) (hsteps.branches c _ _) (fun _ => rfl)
      (fun _ => rfl) _
  | unmatched _ hcode =>
    exact between_failed ((ahead_forward c 6).trans (ahead_codeAt_error hcode)) _
  | choice _ hcode =>
    have hbegun := (ahead_forward c 6).trans (beyond_codeAt hcode).ahead
    exact (ih.arms c _).node hbegun (hsteps.arms c _) (fun _ => rfl) (fun _ => rfl) _
  | directive => exact ih.directive scope c _

theorem between_pieces (scope : Scope) (depth : Nat) (c : Cursor) :
    OutcomeBetween c (pieces t scope (n + 1) depth c) := by
  generalize hturn : pieces t scope (n + 1) depth c = o
  cases pieces_turn hturn with
  | stop => exact piecesBetween_nil (Nat.le_refl _)
  | literal _ hrest => exact (between_literal hrest (ahead_refl _)).followedBy (ih.pieces scope _ _)
  | @tag ps e _ hread =>
    exact OutcomeBetween.followedBy (o := ⟨ps, [], e⟩) (Tag.between_read hread)
      (ih.pieces scope _ _)
  | sign _ hrest => exact (between_construct ih scope hrest).followedBy (ih.pieces scope _ _)

theorem between_body (mark begun : Cursor) :
    PiecesBetween begun.offset (enclosed t n mark begun).cursor.offset
      (pieces t .nested n 0 begun).val :=
  PiecesBetween.weaken (ih.pieces .nested 0 begun) (Nat.le_refl _)
    (ahead_closeBody mark _).offset_le

theorem between_branches (mark : Cursor) (chained : Bool) (c : Cursor) :
    ClausedBetween c (branches t (n + 1) mark chained c) := by
  have hbody : ∀ {header : List Char} {begun : Cursor}, codeAt .openBrace c = .ok (header, begun) →
      PiecesBetween c.offset (enclosed t n mark begun).cursor.offset
        (pieces t .nested n 0 begun).val := fun hcode =>
    (between_body ih mark _).weaken (beyond_codeAt hcode).ahead.offset_le (Nat.le_refl _)
  generalize hturn : branches t (n + 1) mark chained c = o
  cases branches_turn hturn with
  | headless => exact clausedBetween_none
  | more hcode => exact .cons _ (hbody hcode) (ahead_skip _ isBlank).offset_le (ih.branches _ _ _)
  | last hcode =>
    exact (ClausesBetween.cons _ (hbody hcode) (clausesBetween_nil (Nat.le_refl _))).claused

theorem between_arms (mark c : Cursor) : ClausedBetween c (arms t (n + 1) mark c) := by
  have hskip : Ahead c (armAt c) := ahead_skip c _
  have hbody : ∀ {pattern : List Char} {arrow : Cursor},
    codeAt .fatArrow (armAt c) = .ok (pattern, arrow) →
      PiecesBetween c.offset (enclosed t n mark ((arrow.skip isBlank).forward 1)).cursor.offset
        (pieces t .nested n 0 ((arrow.skip isBlank).forward 1)).val := fun hcode =>
    have hopen :=
      ((hskip.trans (beyond_codeAt hcode).ahead).trans (ahead_skip _ isBlank)).trans
        (ahead_forward _ 1)
    (between_body ih mark _).weaken hopen.offset_le (Nat.le_refl _)
  generalize hturn : arms t (n + 1) mark c = o
  cases arms_turn hturn with
  | cut => exact clausedBetween_nil hskip
  | close => exact clausedBetween_nil (hskip.trans (ahead_forward _ 1))
  | headless => exact clausedBetween_none
  | more hcode => exact .cons _ (hbody hcode) (Nat.le_refl _) (ih.arms _ _)
  | last hcode =>
    exact (ClausesBetween.cons _ (hbody hcode) (clausesBetween_nil (Nat.le_refl _))).claused
  | unbodied hcode hafter =>
    have hopen := (hskip.trans (beyond_codeAt hcode).ahead).trans (ahead_skip _ isBlank)
    rcases hafter with ⟨code, hcode⟩ | rfl
    · exact clausedBetween_nil (hopen.trans (beyond_codeAt hcode).ahead)
    · exact clausedBetween_nil (hopen.trans (ahead_toEnd _))

theorem between_directive (scope : Scope) (mark : Cursor) (d : Directive) :
    OutcomeBetween mark (directive t (n + 1) scope mark d) := by
  have hbare : ∀ (faults : List Fault) {stop : Cursor} (outer : List Fault),
    Ahead (announcement d mark).stop stop →
      OutcomeBetween mark (finished d scope mark faults none stop outer) :=
    fun faults stop outer hstop =>
      between_directivePiece d scope _ none hstop.offset_le (fun _ hnodes => by cases hnodes) outer
  have hbegun : Ahead (announcement d mark).stop ((opening d mark).forward 1) :=
    (ahead_skip _ _).trans (ahead_forward _ 1)
  generalize hturn : directive t (n + 1) scope mark d = o
  cases directive_turn hturn with
  | line | bare => exact hbare _ _ (ahead_refl _)
  | @code _ code after _ _ hcode =>
    obtain ⟨hcodeRest, hafter⟩ := codeAt_ok hcode
    have hend : Ahead (((opening d mark).forward 1).past code) after := by
      rw [hafter, List.length_append, past, ← forward_forward]
      exact ahead_forward _ _
    refine between_directivePiece d scope _ (some (.code _)) ?_ (fun _ hnodes => by cases hnodes) _
    exact between_one hbegun.offset_le (ahead_past _ code).offset_le hend.offset_le
  | codeless _ _ hcode => exact hbare _ _ (hbegun.trans (ahead_codeAt_error hcode))
  | markup =>
    have hbody :=
      (between_body ih mark ((opening d mark).forward 1)).weaken hbegun.offset_le (Nat.le_refl _)
    refine between_directivePiece d scope _ (some (.markup _)) ?_ (fun nodes hnodes => ?_) _
    · have hnodes :
          Between _ _ ((enclosed t n mark ((opening d mark).forward 1)).val.map (·.span)) :=
        hbody.gather
      simpa [bodyRanges, DirectiveBody.ranges] using hnodes
    · obtain rfl := DirectiveBody.markup.inj (Option.some.inj hnodes)
      exact hbody.ordered

end

theorem stepsBetween (t : DirectiveTable) (n : Nat) : StepsBetween t n := by
  induction n with
  | zero =>
    refine ⟨fun _ _ c => ?_, fun _ _ _ => ?_, fun _ _ => ?_, fun _ mark _ => ?_⟩
    · rw [pieces]
      exact piecesBetween_nil (Nat.le_refl _)
    · rw [branches]
      exact clausedBetween_none
    · rw [arms]
      exact clausedBetween_none
    · rw [directive]
      exact piecesBetween_nil (Nat.le_refl _)
  | succ n ih =>
    exact ⟨between_pieces ih, between_branches ih, between_arms ih, between_directive ih⟩

/-! All nodes -/

theorem Node.span_mem_inner {n : Node} {body : Nodes} (hbody : body ∈ n.bodies) {m : Located Node}
    (hm : m ∈ body) :
    m.span ∈ n.inner := by
  have hflat : m.span ∈ n.bodies.flatten.map (·.span) :=
    List.mem_map_of_mem (List.mem_flatten.mpr ⟨body, hbody, hm⟩)
  cases n with
  | markup _ | comment | expression _ | code _ | «attribute» _ => cases hbody
  | control _ | choice _ _ => exact hflat
  | directive d =>
    obtain ⟨_, _, _ | code | nodes, _⟩ := d
    · cases hbody
    · cases hbody
    · obtain rfl := List.mem_singleton.mp hbody
      exact List.mem_append_right _ (by simpa [DirectiveBody.ranges] using ⟨m, hm, rfl⟩)

theorem Ordered.bounds {ns : Nodes} {a b : Nat} (h : Ordered ns)
    (hns : ∀ m ∈ ns, a ≤ m.span.start ∧ m.span.stop ≤ b)
    {m : Located Node} (hm : Holds ns m) : a ≤ m.span.start ∧ m.span.stop ≤ b := by
  induction hm with
  | here hmem => exact hns _ hmem
  | @inside ns m body n hmem hbody hn ih =>
    refine ih (fun m' hm' => h m' (.inside hmem hbody hm')) fun m' hm' => ?_
    obtain ⟨hstart, -, hstop⟩ := (h m (.here hmem)).mem (Node.span_mem_inner hbody hm')
    obtain ⟨ha, hb⟩ := hns m hmem
    exact ⟨ha.trans hstart, hstop.trans hb⟩

/-- The nodes of a template lie in its text one after another, and what is in a node, at any depth,
lies in the node's range one after another. -/
theorem ranges_parse (s : Source) (t : DirectiveTable) :
    Between 0 s.size ((Tree.parse s t).nodes.map (·.span)) ∧
      ∀ m, Holds (Tree.parse s t).nodes m →
        m.span.start ≤ m.span.stop ∧ m.span.stop ≤ s.size ∧
          Between m.span.start m.span.stop m.val.inner := by
  have hsteps := stepsBetween t (s.text.toList.length + 1)
  have hpieces := hsteps.pieces .topLevel 0 (.start s.text.toList)
  have hahead := (stepsAhead t (s.text.toList.length + 1)).pieces .topLevel 0 (.start s.text.toList)
  have hsize :
      (pieces t .topLevel (s.text.toList.length + 1) 0 (.start s.text.toList)).cursor.offset ≤
      s.size := by
    rw [s.size_eq]
    exact hahead.le_byteSize
  have hnodes : Between 0 s.size ((Tree.parse s t).nodes.map (·.span)) :=
    hpieces.gather.weaken (Nat.le_refl 0) hsize
  have hordered : Ordered (Tree.parse s t).nodes := hpieces.ordered
  have hends : ∀ n ∈ (Tree.parse s t).nodes, 0 ≤ n.span.start ∧ n.span.stop ≤ s.size := fun n hn =>
    ⟨Nat.zero_le _, (hnodes.mem (List.mem_map_of_mem hn)).2.2⟩
  refine ⟨hnodes, fun m hm => ?_⟩
  obtain ⟨-, hstop⟩ := hordered.bounds hends hm
  exact ⟨(hordered m hm).le, hstop, hordered m hm⟩

end

end Templating.Markup
