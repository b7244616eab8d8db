import Templating.Markup.Reading

/-! The turns of the reader: what one step of reading a text, the branches of control flow, the arms
of a match or a directive can do, with the steps that are left for what stands behind or inside.
What holds of all that is read follows from these by induction on the steps. -/
namespace Templating.Markup
open Text (Cursor isBlank)
variable {t : DirectiveTable} {scope : Scope} {n : Nat} {c mark : Cursor}

/-! At signs -/

def construct (t : DirectiveTable) (scope : Scope) (n : Nat) (c : Cursor) : Outcome (List Piece) :=
  match announced t c with
  | .simple o => o
  | .control chained =>
    let b := branches t n c chained (c.forward 1)
    ⟨b.val.toList.map fun bs => .node (.control bs) ⟨c.offset, b.cursor.offset⟩ false, b.faults,
      b.cursor⟩
  | .choice =>
    match codeAt .openBrace (c.forward 6) with
    | .error (f, resume) => ⟨[], [f], resume⟩
    | .ok (scrutinee, begun) =>
      let a := arms t n c begun
      let scrutinee := String.ofList (Text.trim scrutinee)
      let span : Span := ⟨c.offset, a.cursor.offset⟩
      ⟨a.val.toList.map fun as => .node (.choice scrutinee as) span false, a.faults, a.cursor⟩
  | .directive d => directive t n scope c d

theorem pieces_signed {depth : Nat} {cs : List Char} (h : c.rest = '@' :: cs) :
    pieces t scope (n + 1) depth c =
      (construct t scope n c).followedBy
        (pieces t scope n depth (construct t scope n c).cursor) := by
  rw [pieces, h]
  rfl

def Outcome.node (make : List (Clause (Located Node)) → Node) (mark : Cursor)
    (o : Outcome (Option (List (Clause (Located Node))))) : Outcome (List Piece) :=
  ⟨o.val.toList.map fun cs => .node (make cs) ⟨mark.offset, o.cursor.offset⟩ false, o.faults,
    o.cursor⟩

inductive Constructed (t : DirectiveTable) (scope : Scope) (n : Nat) (c : Cursor) :
    Outcome (List Piece) → Prop
  | simple {o : Outcome (List Piece)} (ho : announced t c = .simple o) : Constructed t scope n c o
  | control {chained : Bool} (ho : announced t c = .control chained) :
      Constructed t scope n c ((branches t n c chained (c.forward 1)).node .control c)
  | unmatched {f : Fault} {resume : Cursor} (ho : announced t c = .choice)
      (hcode : codeAt .openBrace (c.forward 6) = .error (f, resume)) :
      Constructed t scope n c ⟨[], [f], resume⟩
  | choice {scrutinee : List Char} {begun : Cursor} (ho : announced t c = .choice)
      (hcode : codeAt .openBrace (c.forward 6) = .ok (scrutinee, begun)) :
      Constructed t scope n c ((arms t n c begun).node (.choice (.ofList (Text.trim scrutinee))) c)
  | directive {d : Directive} (ho : announced t c = .directive d) :
      Constructed t scope n c (directive t n scope c d)

theorem constructed {o : Outcome (List Piece)} (h : construct t scope n c = o) :
    Constructed t scope n c o := by
  subst h
  unfold construct
  split
  next ho => exact .simple ho
  next ho => exact .control ho
  next ho =>
    split
    next hcode => exact .unmatched ho hcode
    next hcode => exact .choice ho hcode
  next ho => exact .directive ho

/-! Texts -/

inductive PiecesTurn (t : DirectiveTable) (scope : Scope) (n : Nat) (c : Cursor) :
    Outcome (List Piece) → Prop
  /-- The text ends, or the body does. -/
  | stop : PiecesTurn t scope n c ⟨[], [], c⟩
  | literal {x : Char} {cs : List Char} (depth : Nat) (hrest : c.rest = x :: cs) (hat : x ≠ '@')
      (htag : x = '<' → Tag.read? c = none) : PiecesTurn t scope n c
        ((Outcome.literal [x] c (c.forward 1)).followedBy (pieces t scope n depth (c.forward 1)))
  | tag {ps : List Piece} {e : Cursor} (depth : Nat) (hread : Tag.read? c = some (ps, e)) :
      PiecesTurn t scope n c
      (Outcome.followedBy ⟨ps, [], e⟩ (pieces t scope n depth e))
  | sign {cs : List Char} (depth : Nat) (hrest : c.rest = '@' :: cs) : PiecesTurn t scope n c
      ((construct t scope n c).followedBy (pieces t scope n depth (construct t scope n c).cursor))

theorem pieces_turn {depth : Nat} {o : Outcome (List Piece)}
    (h : pieces t scope (n + 1) depth c = o) :
    PiecesTurn t scope n c o := by
  subst h
  by_cases hat : ∃ cs, c.rest = '@' :: cs
  · obtain ⟨cs, hrest⟩ := hat
    rw [pieces_signed hrest]
    exact .sign depth hrest
  · rw [pieces]
    split
    · exact .stop
    next hrest => exact absurd ⟨_, hrest⟩ hat
    next hrest =>
      split
      next hread => exact .tag depth hread
      next hread => exact .literal depth hrest (by decide) fun _ => hread
    next x cs hsign hopen hrest =>
      have hliteral : ∀ depth, PiecesTurn t scope n c
          ((Outcome.literal [x] c (c.forward 1)).followedBy
            (pieces t scope n depth (c.forward 1))) :=
        fun depth => .literal depth hrest hsign fun hx => absurd hx hopen
      split
      · exact hliteral depth
      · split
        · exact hliteral (depth + 1)
        split
        · split
          · exact .stop
          · exact hliteral (depth - 1)
        · exact hliteral depth

/-! Bodies -/

def enclosed (t : DirectiveTable) (n : Nat) (mark c : Cursor) : Outcome Nodes :=
  let body := pieces t .nested n 0 c
  let (_, fs, after) := closeBody mark body.cursor
  ⟨gather body.val, body.faults ++ fs, after⟩

def Closed (t : DirectiveTable) (n : Nat) (mark c : Cursor) : Prop :=
  (closeBody mark (pieces t .nested n 0 c).cursor).1 = true

def Outcome.clause (head : List Char) (body : Outcome Nodes)
    (more : Outcome (Option (List (Clause (Located Node))))) :
    Outcome (Option (List (Clause (Located Node)))) :=
  ⟨more.val.map (⟨.ofList (Text.trim head), body.val⟩ :: ·), body.faults ++ more.faults,
    more.cursor⟩

def Outcome.lastClause (head : List Char) (body : Outcome Nodes) :
    Outcome (Option (List (Clause (Located Node)))) :=
  ⟨some [⟨.ofList (Text.trim head), body.val⟩], body.faults, body.cursor⟩

/-! Branches -/

inductive BranchesTurn (t : DirectiveTable) (n : Nat) (mark : Cursor) (chained : Bool)
    (c : Cursor) :
    Outcome (Option (List (Clause (Located Node)))) → Prop
  | headless {f : Fault} {resume : Cursor} (hcode : codeAt .openBrace c = .error (f, resume)) :
      BranchesTurn t n mark chained c ⟨none, [f], resume⟩
  | more {header : List Char} {begun : Cursor} (hcode : codeAt .openBrace c = .ok (header, begun))
      (hclosed : Closed t n mark begun) (hchained : chained = true)
      (helse : Text.startsWithWord ['e', 'l', 's', 'e']
        ((enclosed t n mark begun).cursor.skip isBlank).rest = true) :
      BranchesTurn t n mark chained c (.clause header (enclosed t n mark begun)
        (branches t n mark chained ((enclosed t n mark begun).cursor.skip isBlank)))
  | last {header : List Char} {begun : Cursor} (hcode : codeAt .openBrace c = .ok (header, begun)) :
      BranchesTurn t n mark chained c (.lastClause header (enclosed t n mark begun))

theorem branches_turn {chained : Bool} {o : Outcome (Option (List (Clause (Located Node))))}
    (h : branches t (n + 1) mark chained c = o) : BranchesTurn t n mark chained c o := by
  subst h
  rw [branches]
  split
  next hcode => exact .headless hcode
  next hcode =>
    dsimp only
    split
    next hmore =>
      simp only [Bool.and_eq_true] at hmore
      exact .more hcode hmore.1.1 hmore.1.2 hmore.2
    · exact .last hcode

/-! Arms -/

def armAt (c : Cursor) : Cursor := c.skip fun x => isBlank x || x == ','

inductive ArmsTurn (t : DirectiveTable) (n : Nat) (mark c : Cursor) :
    Outcome (Option (List (Clause (Located Node)))) → Prop
  | cut : ArmsTurn t n mark c
      ⟨some [], [fault "unterminated `match`, expected `\x7d`" mark.offset mark.size], armAt c⟩
  | close : ArmsTurn t n mark c ⟨some [], [], (armAt c).forward 1⟩
  | headless {f : Fault} {resume : Cursor} (hcode : codeAt .fatArrow (armAt c) =
      .error (f, resume)) :
      ArmsTurn t n mark c ⟨none, [f], resume⟩
  | more {pattern : List Char} {arrow : Cursor} (hcode : codeAt .fatArrow (armAt c) =
      .ok (pattern, arrow))
      (hclosed : Closed t n mark ((arrow.skip isBlank).forward 1)) : ArmsTurn t n mark c
        (.clause pattern (enclosed t n mark ((arrow.skip isBlank).forward 1))
          (arms t n mark (enclosed t n mark ((arrow.skip isBlank).forward 1)).cursor))
  | last {pattern : List Char} {arrow : Cursor} (hcode : codeAt .fatArrow (armAt c) =
      .ok (pattern, arrow)) :
      ArmsTurn t n mark c (.lastClause pattern (enclosed t n mark ((arrow.skip isBlank).forward 1)))
  | unbodied {pattern : List Char} {arrow after : Cursor} (hcode : codeAt .fatArrow (armAt c) =
      .ok (pattern, arrow))
      (hafter : (∃ code, codeAt (.closer '\x7d') (arrow.skip isBlank) = .ok (code, after)) ∨
        after = (arrow.skip isBlank).toEnd) :
      ArmsTurn t n mark c
        ⟨some [], [fault "`match` arms in templates must have a `\x7b ... \x7d` body" arrow.offset
        ((arrow.skip isBlank).offset + 1)], after⟩

theorem arms_turn {o : Outcome (Option (List (Clause (Located Node))))}
    (h : arms t (n + 1) mark c = o) :
    ArmsTurn t n mark c o := by
  subst h
  rw [arms]
  dsimp only
  split
  · exact .cut
  · exact .close
  split
  next hcode => exact .headless hcode
  next hcode =>
    split
    · split
      next hclosed => exact .more hcode hclosed
      · exact .last hcode
    · refine .unbodied hcode ?_
      split
      next hcode => exact .inl ⟨_, hcode⟩
      · exact .inr rfl

/-! Directives -/

def opening (d : Directive) (mark : Cursor) : Cursor := (announcement d mark).stop.skip isBlank

def finished (d : Directive) (scope : Scope) (mark : Cursor) (faults : List Fault)
    (body? : Option (DirectiveBody (Located Node))) (stop : Cursor) (outer : List Fault) :
    Outcome (List Piece) :=
  let (p, after) :=
    directivePiece d scope mark (announcement d mark).tokens
    ((announcement d mark).faults ++ faults) body? stop
  ⟨[p], outer, after⟩

inductive DirectiveTurn (t : DirectiveTable) (n : Nat) (scope : Scope) (mark : Cursor)
    (d : Directive) :
    Outcome (List Piece) → Prop
  | line (hkind : d.kind = .line) : DirectiveTurn t n scope mark d
      (finished d scope mark [] none (announcement d mark).stop [])
  | bare (hkind : d.kind ≠ .line) : DirectiveTurn t n scope mark d
      (finished d scope mark
        [Region.malformed d "expected `\x7b`" mark.offset (opening d mark).offset] none
        (announcement d mark).stop [])
  | code {cs code : List Char} {after : Cursor} (hkind : d.kind = .codeBlock)
      (hopen : (opening d mark).rest = '\x7b' :: cs)
      (hcode : codeAt (.closer '\x7d') ((opening d mark).forward 1) = .ok (code, after)) :
      DirectiveTurn t n scope mark d
        (finished d scope mark [] (some (.code ⟨.ofList code, ((opening d mark).forward 1).offset,
          (((opening d mark).forward 1).past code).offset⟩)) after [])
  | codeless {cs : List Char} {f : Fault} {resume : Cursor} (hkind : d.kind = .codeBlock)
      (hopen : (opening d mark).rest = '\x7b' :: cs)
      (hcode : codeAt (.closer '\x7d') ((opening d mark).forward 1) = .error (f, resume)) :
      DirectiveTurn t n scope mark d
        (finished d scope mark [] none resume [f])
  | markup {cs : List Char} (hkind : d.kind = .markupBlock)
      (hopen : (opening d mark).rest = '\x7b' :: cs) :
      DirectiveTurn t n scope mark d (finished d scope mark []
        (some (.markup (enclosed t n mark ((opening d mark).forward 1)).val))
        (enclosed t n mark ((opening d mark).forward 1)).cursor
          (enclosed t n mark ((opening d mark).forward 1)).faults)

theorem directive_turn {d : Directive} {o : Outcome (List Piece)}
    (h : directive t (n + 1) scope mark d = o) :
    DirectiveTurn t n scope mark d o := by
  subst h
  rw [directive]
  dsimp only
  split
  next hkind => exact .line (eq_of_beq hkind)
  next hline =>
    have hline : d.kind ≠ .line := by simpa using hline
    split
    next hopen =>
      split
      next hkind =>
        split
        next hcode => exact .code (eq_of_beq hkind) hopen hcode
        next hcode => exact .codeless (eq_of_beq hkind) hopen hcode
      next hkind =>
        have hmarkup : d.kind = .markupBlock := by
          cases hd : d.kind with
          | line => exact absurd hd hline
          | codeBlock => exact absurd (by rw [hd]; rfl) hkind
          | markupBlock => rfl
        exact .markup hmarkup hopen
    · exact .bare hline

end Templating.Markup
