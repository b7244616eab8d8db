import Templating.Markup.Region
import Templating.Markup.Tag

/-!
Reading a template as a tree. The at sign begins whatever is not literal: comments, expressions,
code blocks, control flow and directives. Reading never fails; what cannot be read leaves a fault,
and reading goes on behind it.
-/

namespace Templating.Markup

open Text (Cursor isBlank byteSize)

/-- Whether nodes stand in a body, which a closing brace ends. -/
inductive Scope where
  | topLevel
  | nested
  deriving DecidableEq, Repr

/-- What was read, the faults on the way, and the place reached. -/
structure Outcome (α : Type) where
  val : α
  faults : List Fault
  cursor : Cursor

namespace Outcome

def followedBy (a b : Outcome (List Piece)) : Outcome (List Piece) :=
  ⟨a.val ++ b.val, a.faults ++ b.faults, b.cursor⟩

def literal (cs : List Char) (c after : Cursor) : Outcome (List Piece) :=
  ⟨[.text cs c.offset], [], after⟩

end Outcome

def fault (message : String) (start stop : Nat) : Fault :=
  { problem := .badText message, span := ⟨start, stop⟩ }

/-- The fault of code that cannot be scanned, and where reading goes on: after a wrong closing
delimiter, or at the end. -/
def recover (c : Cursor) (read : List Char) (e : Code.ScanError) : Fault × Cursor :=
  let bad := c.past read
  let resume := match e with
    | .mismatched .. | .unopened _ => bad.forward 1
    | _ => bad.toEnd
  (fault e.message bad.offset (max (min (bad.offset + 1) c.size) bad.offset), resume)

/-- Code at the cursor and the place after its boundary, or the fault and the place to go on. -/
def codeAt (stop : Code.Stop) (c : Cursor) : Except (Fault × Cursor) (List Char × Cursor) :=
  match Code.scan stop c.before.head? c.rest with
  | .ok code => .ok (code, c.forward (code.length + stop.text.length))
  | .error (read, e) => .error (recover c read e)

/-- The place after the line end, if the line goes on with blanks only. -/
def skipLineEnd (c : Cursor) : Cursor :=
  let line := c.rest.takeWhile (· != '\n')
  if Text.allBlank line then c.forward (line.length + 1) else c

def commentText? : List Char → Option (List Char)
  | [] => none
  | '*' :: '@' :: _ => some []
  | c :: cs => (commentText? cs).map (c :: ·)

def comment (mark : Cursor) : Outcome (List Piece) :=
  let body := mark.forward 2
  match commentText? body.rest with
  | some cs =>
    let after := body.forward (cs.length + 2)
    ⟨[.node .comment ⟨mark.offset, after.offset⟩ false], [], after⟩
  | none =>
    let span : Span := ⟨mark.offset, mark.size⟩
    ⟨[.node .comment span false],
      [fault "unterminated comment, expected `*@`" span.start span.stop], body.toEnd⟩

def explicit (mark : Cursor) : Outcome (List Piece) :=
  match codeAt (.closer ')') (mark.forward 2) with
  | .ok (code, after) =>
    ⟨[.node (.expression (.ofList (Text.trim code))) ⟨mark.offset, after.offset⟩ false], [], after⟩
  | .error (f, resume) => ⟨[], [f], resume⟩

def codeBlock (mark : Cursor) : Outcome (List Piece) :=
  match codeAt (.closer '\x7d') (mark.forward 2) with
  | .ok (code, after) =>
    let alone := mark.atLineStart
    ⟨[.node (.code (.ofList code)) ⟨mark.offset, after.offset⟩ alone], [],
      if alone then skipLineEnd after else after⟩
  | .error (f, resume) => ⟨[], [f], resume⟩

def implicit (mark : Cursor) : Outcome (List Piece) :=
  let begun := mark.forward 1
  match Implicit.read begun.rest with
  | .ok code =>
    let after := begun.past code
    ⟨[.node (.expression (.ofList code)) ⟨mark.offset, after.offset⟩ false], [], after⟩
  | .error (read, e) =>
    let (f, resume) := recover begun read e
    ⟨[], [f], resume⟩

def stray (mark : Cursor) : Outcome (List Piece) :=
  let f :=
    fault "expected an expression, a code block or a directive after `@`" mark.offset
      (mark.offset + 1)
  ⟨[.text ['@'] mark.offset], [{ f with severity := .warning }], mark.forward 1⟩

/-- Whether what follows a keyword lets it be a directive. -/
def boundary (d : Directive) : List Char → Bool
  | [] => true
  | c :: _ => isBlank c || (c == '\x7b' && d.kind != .line)

/-- What an at sign announces. -/
inductive Announced where
  | control (chained : Bool)
  | choice
  | directive (d : Directive)
  /-- Anything without a body of nodes, read at once. -/
  | simple (o : Outcome (List Piece))

def announced (t : DirectiveTable) (mark : Cursor) : Announced :=
  match mark.rest.drop 1 with
  | '@' :: _ => .simple (.literal ['@'] mark (mark.forward 2))
  | [] => .simple (stray mark)
  | x :: next =>
    if insideWord mark x then .simple (.literal ['@'] mark (mark.forward 1))
    else if x == '*' then .simple (comment mark)
    else if x == '(' then .simple (explicit mark)
    else if x == '\x7b' then .simple (codeBlock mark)
    else if Text.startsName x then
      let word := Text.leadingName (x :: next)
      let keyword := String.ofList word
      if keyword == "if" then .control true
      else if keyword == "for" || keyword == "while" then .control false
      else if keyword == "match" then .choice
      else match t.get? keyword with
        | some d =>
          if boundary d ((x :: next).drop word.length) then .directive d else
            .simple (implicit mark)
        | none => .simple (implicit mark)
    else .simple (stray mark)

/-- Whether the brace that ends a body stands here, what is wrong if not, and the place after it. -/
def closeBody (mark c : Cursor) : Bool × List Fault × Cursor :=
  match c.rest with
  | '\x7d' :: _ => (true, [], c.forward 1)
  | _ => (false, [fault "unterminated block, expected `\x7d`" mark.offset mark.size], c.toEnd)

/-- A directive before its body: its tokens, and where the text after them goes on. -/
structure Announcement where
  tokens : List (Located DirectiveToken)
  faults : List Fault
  stop : Cursor

def announcement (d : Directive) (mark : Cursor) : Announcement :=
  let afterKeyword := mark.forward (d.keyword.length + 1)
  let line := afterKeyword.rest.takeWhile (· != '\n')
  let region := if d.kind == .line then line else line.takeWhile (· != '\x7b')
  let (tokens, faults) := Region.tokens d afterKeyword.offset region
  ⟨tokens, faults, afterKeyword.past region⟩

/-- The piece that a directive makes, with the place after its line if nothing else is on it. -/
def directivePiece (d : Directive) (scope : Scope) (mark : Cursor)
    (tokens : List (Located DirectiveToken))
    (faults : List Fault) (body? : Option (DirectiveBody (Located Node))) (stop : Cursor) :
    Piece × Cursor :=
  let span : Span := ⟨mark.offset, stop.offset⟩
  let nested := if scope == .nested then [{ problem := .nestedDirective d.keyword, span }] else []
  let alone := mark.atLineStart
  (.node (.directive ⟨d.keyword, tokens, body?, faults ++ nested⟩) span alone,
    if alone || d.kind == .line then skipLineEnd stop else stop)

mutual

/-- The pieces from the cursor on, up to the end of the text or, in a body, the brace
that no other opened. -/
def pieces (t : DirectiveTable) (scope : Scope) : Nat → Nat → Cursor → Outcome (List Piece)
  | 0, _, c => ⟨[], [], c⟩
  | n + 1, depth, c =>
    match c.rest with
    | [] => ⟨[], [], c⟩
    | '@' :: _ =>
      let o : Outcome (List Piece) :=
        match announced t c with
        | .simple o => o
        | .control chained =>
          let b := branches t n c chained (c.forward 1)
          ⟨b.val.toList.map fun bs => .node (.control bs) ⟨c.offset, b.cursor.offset⟩ false,
            b.faults, b.cursor⟩
        | .choice =>
          match codeAt .openBrace (c.forward 6) with
          | .error (f, resume) => ⟨[], [f], resume⟩
          | .ok (scrutinee, begun) =>
            let a := arms t n c begun
            let scrutinee := String.ofList (Text.trim scrutinee)
            let span : Span := ⟨c.offset, a.cursor.offset⟩
            ⟨a.val.toList.map fun as => .node (.choice scrutinee as) span false, a.faults, a.cursor⟩
        | .directive d => directive t n scope c d
      o.followedBy (pieces t scope n depth o.cursor)
    | '<' :: _ =>
      match Tag.read? c with
      | some (ps, after) => Outcome.followedBy ⟨ps, [], after⟩ (pieces t scope n depth after)
      | none =>
        (Outcome.literal ['<'] c (c.forward 1)).followedBy (pieces t scope n depth (c.forward 1))
    | x :: _ =>
      let literal (depth : Nat) :=
        (Outcome.literal [x] c (c.forward 1)).followedBy (pieces t scope n depth (c.forward 1))
      match scope with
      | .topLevel => literal depth
      | .nested =>
        if x == '\x7b' then literal (depth + 1)
        else if x == '\x7d' then if depth == 0 then ⟨[], [], c⟩ else literal (depth - 1)
        else literal depth

/-- The branches of control flow from a header on; only an `if` chains further ones. Without the
last header there is no node. -/
def branches (t : DirectiveTable) :
    Nat → Cursor → Bool → Cursor → Outcome (Option (List (Clause (Located Node))))
  | 0, _, _, c => ⟨none, [], c⟩
  | n + 1, mark, chained, c =>
    match codeAt .openBrace c with
    | .error (f, resume) => ⟨none, [f], resume⟩
    | .ok (header, begun) =>
      let body := pieces t .nested n 0 begun
      let (closed, fs, after) := closeBody mark body.cursor
      let branch : Clause (Located Node) := ⟨.ofList (Text.trim header), gather body.val⟩
      let next := after.skip isBlank
      if closed && chained && Text.startsWithWord ['e', 'l', 's', 'e'] next.rest then
        let more := branches t n mark chained next
        ⟨more.val.map (branch :: ·), body.faults ++ fs ++ more.faults, more.cursor⟩
      else ⟨some [branch], body.faults ++ fs, after⟩

/-- The arms of a match from the cursor on. Without the last pattern there is no node. -/
def arms (t : DirectiveTable) :
    Nat → Cursor → Cursor → Outcome (Option (List (Clause (Located Node))))
  | 0, _, c => ⟨none, [], c⟩
  | n + 1, mark, c =>
    let c := c.skip fun x => isBlank x || x == ','
    match c.rest with
    | [] => ⟨some [], [fault "unterminated `match`, expected `\x7d`" mark.offset mark.size], c⟩
    | '\x7d' :: _ => ⟨some [], [], c.forward 1⟩
    | _ =>
      match codeAt .fatArrow c with
      | .error (f, resume) => ⟨none, [f], resume⟩
      | .ok (pattern, afterArrow) =>
        let bodyAt := afterArrow.skip isBlank
        match bodyAt.rest with
        | '\x7b' :: _ =>
          let body := pieces t .nested n 0 (bodyAt.forward 1)
          let (closed, fs, after) := closeBody mark body.cursor
          let arm : Clause (Located Node) := ⟨.ofList (Text.trim pattern), gather body.val⟩
          if closed then
            let more := arms t n mark after
            ⟨more.val.map (arm :: ·), body.faults ++ fs ++ more.faults, more.cursor⟩
          else ⟨some [arm], body.faults ++ fs, after⟩
        | _ =>
          let f :=
            fault "`match` arms in templates must have a `\x7b ... \x7d` body" afterArrow.offset
              (bodyAt.offset + 1)
          let after := match codeAt (.closer '\x7d') bodyAt with
            | .ok (_, after) => after
            | .error _ => bodyAt.toEnd
          ⟨some [], [f], after⟩

def directive (t : DirectiveTable) : Nat → Scope → Cursor → Directive → Outcome (List Piece)
  | 0, _, mark, _ => ⟨[], [], mark⟩
  | n + 1, scope, mark, d =>
    let a := announcement d mark
    let finish (faults : List Fault) (body? : Option (DirectiveBody (Located Node))) (stop : Cursor)
      (outer : List Fault) :
        Outcome (List Piece) :=
      let (p, after) := directivePiece d scope mark a.tokens (a.faults ++ faults) body? stop
      ⟨[p], outer, after⟩
    if d.kind == .line then finish [] none a.stop [] else
    let opening := a.stop.skip isBlank
    match opening.rest with
    | '\x7b' :: _ =>
      let begun := opening.forward 1
      if d.kind == .codeBlock then
        match codeAt (.closer '\x7d') begun with
        | .ok (code, after) =>
          finish [] (some (.code ⟨.ofList code, begun.offset, (begun.past code).offset⟩)) after []
        | .error (f, resume) => finish [] none resume [f]
      else
        let body := pieces t .nested n 0 begun
        let (_, fs, after) := closeBody mark body.cursor
        finish [] (some (.markup (gather body.val))) after (body.faults ++ fs)
    | _ => finish [Region.malformed d "expected `\x7b`" mark.offset opening.offset] none a.stop []

end

namespace Tree

/-- Reads a template with the directives of a table. Whatever nests or goes on has less text left,
so the length of the text bounds the steps. -/
def parse (s : Source) (t : DirectiveTable) : Tree :=
  let cs := s.text.toList
  let o := pieces t .topLevel (cs.length + 1) 0 (.start cs)
  ⟨s, gather o.val, o.faults⟩

end Tree

end Templating.Markup
