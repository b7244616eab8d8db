import Templating.Code.Type

/-!
Patterns, expressions and statements. Operators are read in a row; how tightly they bind matters
only where they may not meet.
-/

namespace Templating.Code

open Reader

namespace Pattern

def seesPath : Reader Bool := do
  let named ← seesName
  let further := (← seesSymbolAt 1 "::") || (← seesSymbolAt 1 "!") || (← seesSymbolAt 1 "..") ||
    (← seesOpeningAt 1 .brace) ||
    (← seesOpeningAt 1 .paren)
  return (named && further) || ((← seesWord "self") && (← seesSymbolAt 1 "::")) || (← sees "::") ||
    (← sees "<") ||
    (← seesWords ["Self", "super", "crate"])

def seesBinding : Reader Bool := do
  return !(← seesPath) && !(← seesLiteral) && ((← seesWords ["ref", "mut", "self"]) || (← seesName))

def binding (read : Readers) : Reader (String × Pieces) := do
  let byRef ← keyword? "ref"
  let mutable ← keyword? "mut"
  let n ← if ← seesWord "self" then anyWord else name
  let sub ← if ← sees "@" then (do return (← symbol "@") ++ (← read (.pattern false))) else pure []
  return (n, byRef ++ mutable ++ [Piece.word n] ++ sub)

def limit (read : Readers) : Reader Pieces := do
  if ← seesLiteral then literal
  else if ← seesWord "const" then return (← keyword "const") ++ (← read .block)
  else return (← Path.qualified read true).2.pieces

def seesLimit : Reader Bool := do
  return (← seesLiteral) || (← seesWord "const") || (← TypeExpr.beginsPath)

def range? (read : Readers) (first : Pieces) : Reader Pieces := do
  if !(← sees "..") then return first
  let dots ← if ← sees "..=" then symbol "..=" else if ← sees "..." then symbol "..." else
    symbol ".."
  if ← seesLimit then return first ++ dots ++ (← limit read) else return first ++ dots

def field (read : Readers) : Reader Pieces := do
  let attrs ← TypeExpr.attributes read
  if ← sees ".." then return attrs ++ (← symbol "..")
  let boxed ← keyword? "box"
  let labelled :=
    ((← seesAnyWord) || (← seesLiteral)) && (← seesSymbolAt 1 ":") && !(← seesSymbolAt 1 "::")
  if labelled then
    let label ← token
    return attrs ++ boxed ++ [.token label] ++ (← symbol ":") ++ (← read (.pattern true))
  return attrs ++ boxed ++ (← binding read).2

def ofPath (read : Readers) : Reader Pieces := do
  let (qualified, p) ← Path.qualified read true
  if !qualified && (← sees "!") && !(← sees "!=") && p.mere then
    return p.pieces ++ (← symbol "!") ++ (← tree)
  if ← seesOpening .brace then return p.pieces ++ (← group .brace (listed (field read)))
  if ← seesOpening .paren then return p.pieces ++ (← group .paren (listed (read (.pattern true))))
  range? read p.pieces

def one (read : Readers) : Reader Pieces := do
  if ← seesPath then ofPath read
  else if ← seesWord "_" then keyword "_"
  else if ← seesWord "box" then return (← keyword "box") ++ (← read (.pattern false))
  else if (← seesLiteral) || (← seesWord "const") then return ← range? read (← limit read)
  else if ← seesBinding then return (← binding read).2
  else if ← sees "&" then
    let amp ← symbol "&"
    let mutable ← keyword? "mut"
    return amp ++ mutable ++ (← read (.pattern false))
  else if ← seesOpening .paren then group .paren (listed (read (.pattern true)))
  else if ← seesOpening .bracket then group .bracket (listed (read (.pattern true)))
  else range? read (← if ← sees ".." then pure [] else failure)

def rule (read : Readers) (alternatives : Bool) : Reader Pieces := do
  if !alternatives then return ← one read
  let lead ← symbol? "|"
  let first ← one read
  let goesOn : Reader Bool := do return (← sees "|") && !(← sees "||") && !(← sees "|=")
  let more ← many goesOn (do return (← symbol "|") ++ (← one read))
  return lead ++ first ++ more.flatten

end Pattern

namespace Expression

/-- What operators do: compute, compare, decide by truth, or assign. -/
inductive OperatorKind where
  | arithmetic
  | comparison
  | logic
  | assignment
  deriving DecidableEq

def operators : List (String × OperatorKind) :=
  [("<<=", .assignment), (">>=", .assignment), ("&&", .logic), ("||", .logic), ("==", .comparison),
    ("!=", .comparison),
    ("<=", .comparison), (">=", .comparison), ("<<", .arithmetic), (">>", .arithmetic),
      ("+=", .assignment),
    ("-=", .assignment), ("*=", .assignment), ("/=", .assignment), ("%=", .assignment),
      ("^=", .assignment),
    ("&=", .assignment), ("|=", .assignment), ("+", .arithmetic), ("-", .arithmetic),
      ("*", .arithmetic), ("/", .arithmetic),
    ("%", .arithmetic), ("^", .arithmetic), ("&", .arithmetic), ("|", .arithmetic),
      ("<", .comparison), (">", .comparison),
    ("=", .assignment)]

def operator? : Reader (Option (String × OperatorKind)) := do
  if ← sees "=>" then return none
  operators.findM? fun (o, _) => sees o

def begins (structures : Bool) : Reader Bool := do
  if ← atEnd then return false
  if (← sees ",") || (← sees ";") || (← sees "=>") || (← sees "?") then return false
  if (← sees ".") && !(← sees "..") then return false
  return structures || !(← seesOpening .brace)

def condition (read : Readers) : Reader Pieces := read (.expression false)

def elseIf (read : Readers) : Nat → Reader Pieces
  | 0 => failure
  | n + 1 => do
    let head ← keyword "if"
    let c ← condition read
    let body ← read .block
    if !(← seesWord "else") then return head ++ c ++ body
    let e ← keyword "else"
    if ← seesWord "if" then return head ++ c ++ body ++ e ++ (← elseIf read n)
    return head ++ c ++ body ++ e ++ (← read .block)

/-- One arm of a match; only an arm whose body is a block may lack its comma. -/
def arm (read : Readers) : Reader Pieces := do
  let attrs ← TypeExpr.attributes read
  let p ← read (.pattern true)
  let given ← if ← seesWord "if" then (do return (← keyword "if") ++ (← read (.expression true)))
    else pure []
  let arrow ← symbol "=>"
  let free ← seesOpening .brace
  let body ← if free then (do
      let b ← read .block
      if (← sees ",") || (← atEnd) || !((← sees ".") || (← sees "?")) then return b
      return b ++ (← read (.expression true)))
    else read (.expression true)
  if ← atEnd then return attrs ++ p ++ given ++ arrow ++ body
  let comma ← if free then symbol? "," else symbol ","
  return attrs ++ p ++ given ++ arrow ++ body ++ comma

def blockLike? (read : Readers) : Reader (Option Pieces) := do
  let label ← if (← seesLifetime) && (← seesSymbolAt 1 ":") then
    (do return (← lifetime) ++ (← symbol ":")) else pure []
  if ← seesWord "if" then return some (label ++ (← elseIf read ((← get).length + 1)))
  if ← seesWord "while" then
    let w ← keyword "while"
    let c ← condition read
    return some (label ++ w ++ c ++ (← read .block))
  if (← seesWord "for") && !(← seesSymbolAt 1 "<") then
    let f ← keyword "for"
    let p ← read (.pattern true)
    let i ← keyword "in"
    let c ← condition read
    return some (label ++ f ++ p ++ i ++ c ++ (← read .block))
  if ← seesWord "loop" then return some (label ++ (← keyword "loop") ++ (← read .block))
  if ← seesWord "match" then
    let m ← keyword "match"
    let c ← condition read
    let arms ← group .brace (do
      let inner ← read (.attributes true)
      return inner.1 ++ (← many (do return !(← atEnd)) (arm read)).flatten)
    return some (label ++ m ++ c ++ arms)
  if ((← seesWord "unsafe") || (← seesWord "const") || (← seesWord "try")) &&
    (← seesOpeningAt 1 .brace) then
    let w ← anyWord
    return some (label ++ [Piece.word w] ++ (← read .block))
  if ← seesOpening .brace then return some (label ++ (← read .block))
  if !label.isEmpty then failure
  return none

/-- Whether nothing that could end a range stands here. -/
def lacksEnd (structures : Bool) : Reader Bool := do
  if !(← begins structures) then return true
  if ← seesWord "as" then return true
  ["=", "+", "/", "%", "^", ">", "<=", "!=", "-=", "*=", "&=", "|=", "<<="].anyM sees

/-- A range from its dots on. One that holds its end has to have one. -/
def range (read : Readers) (structures : Bool) : Reader Pieces := do
  if ← sees "..=" then return (← symbol "..=") ++ (← read (.rangeEnd structures))
  let dots ← symbol ".."
  if ← lacksEnd structures then return dots
  return dots ++ (← read (.rangeEnd structures))

def closure (read : Readers) (structures : Bool) : Reader Pieces := do
  let binder ← Bound.binder? read
  let words ← many (seesWords ["const", "static", "async", "move"])
    (do return Piece.word (← anyWord))
  let params ← if ← sees "||" then symbol "||" else (do
    let bar ← symbol "|"
    let ps ← separated "," (sees "|") (do
      let attrs ← TypeExpr.attributes read
      let p ← read (.pattern false)
      if ← sees ":" then return attrs ++ p ++ (← symbol ":") ++ (← read (.type true)).pieces
      return attrs ++ p)
    return bar ++ Piece.punctuated ps ++ (← symbol "|"))
  if ← sees "->" then
    let arrow ← symbol "->"
    let t ← read (.type false)
    return binder ++ words ++ params ++ arrow ++ t.pieces ++ (← read .block)
  return binder ++ words ++ params ++ (← read (.expression structures))

def seesClosure : Reader Bool := do
  if (← sees "|") || (← seesWord "move") then return true
  if (← seesWord "for") && (← seesSymbolAt 1 "<") then return true
  if ← seesWords ["async", "static", "const"] then
    return (← seesSymbolAt 1 "|") || (← seesWordAt 1 "move") && !(← seesOpeningAt 2 .brace) ||
      (← seesWordAt 1 "async")
  return false

def field (read : Readers) : Reader Pieces := do
  let attrs ← TypeExpr.attributes read
  if ← sees ".." then
    let dots ← symbol ".."
    if ← atEnd then return attrs ++ dots
    return attrs ++ dots ++ (← read (.expression true))
  let label ← if ← seesName then (do return Piece.word (← name)) else .token <$> token
  if ← sees ":" then return attrs ++ [label] ++ (← symbol ":") ++ (← read (.expression true))
  return attrs ++ [label]

def ofPath (read : Readers) (structures : Bool) : Reader Pieces := do
  let (qualified, p) ← Path.qualified read true
  if !qualified && (← sees "!") && !(← sees "!=") && p.mere then
    return p.pieces ++ (← symbol "!") ++ (← tree)
  if structures && (← seesOpening .brace) then
    return p.pieces ++ (← group .brace (listed (field read)))
  return p.pieces

def atom (read : Readers) (structures : Bool) : Reader Pieces := do
  if ← seesLiteral then return ← literal
  if (← seesWord "async") &&
    ((← seesOpeningAt 1 .brace) || (← seesWordAt 1 "move") && (← seesOpeningAt 2 .brace)) then
    let a ← keyword "async"
    let m ← keyword? "move"
    return a ++ m ++ (← read .block)
  if ← seesClosure then return ← closure read structures
  if let some b ← blockLike? read then return b
  if ← TypeExpr.beginsPath then return ← ofPath read structures
  if ← seesOpening .paren then return ← group .paren (listed (read (.expression true)))
  if ← seesOpening .bracket then
    return ← group .bracket do
      if ← atEnd then return []
      let first ← read (.expression true)
      if ← sees ";" then return first ++ (← symbol ";") ++ (← read (.expression true))
      if ← atEnd then return first
      return first ++ (← symbol ",") ++ (← listed (read (.expression true)))
  if ← seesWord "let" then
    let l ← keyword "let"
    let p ← read (.pattern true)
    return l ++ p ++ (← symbol "=") ++ (← read (.expression false))
  if ← seesWord "continue" then return (← keyword "continue") ++ (← lifetime?)
  if ← seesWords ["return", "break", "yield", "become"] then
    let w ← anyWord
    let label ← if w == "break" then lifetime? else pure []
    if ← begins structures then return [Piece.word w] ++ label ++ (← read (.expression structures))
    return [Piece.word w] ++ label
  if ← seesWord "_" then return ← keyword "_"
  if ← sees ".." then return ← range read structures
  failure

def trailers (read : Readers) : Nat → Pieces → Reader Pieces
  | 0, done => return done
  | n + 1, done => do
    if ← seesOpening .paren then
      trailers read n (done ++ (← group .paren (listed (read (.expression true)))))
    else if ← seesOpening .bracket then
      trailers read n (done ++ (← group .bracket (read (.expression true))))
    else if ← sees "?" then trailers read n (done ++ (← symbol "?"))
    else if (← sees ".") && !(← sees "..") then
      let dot ← symbol "."
      if ← seesWord "await" then trailers read n (done ++ dot ++ (← keyword "await"))
      else if ← seesLiteral then
        let t ← token
        trailers read n (done ++ dot ++ [.token t])
      else
        let s ← Path.segment read true
        trailers read n (done ++ dot ++ s.pieces)
    else return done

def operand (read : Readers) (structures : Bool) : Nat → Reader Pieces
  | 0 => failure
  | n + 1 => do
    let attrs ← TypeExpr.attributes read
    if ← sees "&" then
      let amp ← symbol "&"
      let rawRef ← if (← seesWord "raw") &&
        ((← seesWordAt 1 "const") || (← seesWordAt 1 "mut")) then
        (do return [Piece.word (← anyWord), Piece.word (← anyWord)]) else keyword? "mut"
      return attrs ++ amp ++ rawRef ++ (← operand read structures n)
    for o in ["*", "!", "-"] do
      if (← sees o) && !(← seesLiteral) then
        let s ← symbol o
        return attrs ++ s ++ (← operand read structures n)
    let a ← atom read structures
    return attrs ++ (← trailers read ((← get).length + 1) a)

/-- Operators and further operands. Comparisons need logic between them. What ends a range goes on
neither as a range nor as an assignment; a range ends the expression that it stands in. -/
def continuation (read : Readers) (structures ending : Bool) : Nat → Bool → Pieces → Reader Pieces
  | 0, _, done => return done
  | n + 1, compared, done => do
    if ← sees ".." then
      if ending then return done else return done ++ (← range read structures)
    if ← seesWord "as" then
      let cast ← keyword "as"
      return ← continuation read structures ending n compared
        (done ++ cast ++ (← read (.type false)).pieces)
    let some (o, kind) ← operator? | return done
    if kind == .assignment then
      if ending then return done
      return done ++ (← symbol o) ++ (← read (.expression structures))
    guard !(compared && kind == .comparison)
    let compared := kind == .comparison || (compared && kind == .arithmetic)
    let s ← symbol o
    continuation read structures ending n compared
      (done ++ s ++ (← operand read structures ((← get).length + 1)))

def chain (read : Readers) (structures ending : Bool) : Reader Pieces := do
  let fuel := (← get).length + 1
  if ← sees ".." then return ← range read structures
  continuation read structures ending fuel false (← operand read structures fuel)

def rule (read : Readers) (structures : Bool) : Reader Pieces := chain read structures false

def rangeEnd (read : Readers) (structures : Bool) : Reader Pieces := chain read structures true

def block (read : Readers) : Reader Pieces := group .brace (read .statements)

def seesItem : Reader Bool := do
  if ← seesWords ["fn", "struct", "enum", "impl", "mod", "use", "static", "type", "trait",
    "pub"] then
    return !((← seesWord "static") && ((← seesSymbolAt 1 "|") || (← seesWordAt 1 "move")))
  if ← seesWord "extern" then return true
  if ← seesWord "unsafe" then return !(← seesOpeningAt 1 .brace)
  if ← seesWord "async" then return (← seesWordAt 1 "fn") || (← seesWordAt 1 "unsafe") ||
    (← seesWordAt 1 "extern")
  if ← seesWord "const" then
    return !((← seesOpeningAt 1 .brace) || (← seesSymbolAt 1 "|") || (← seesWordAt 1 "move"))
  if ← seesWord "union" then return ← seesNameAt 1
  if ← seesWord "auto" then return ← seesWordAt 1 "trait"
  if ← seesWord "macro_rules" then return (← seesSymbolAt 1 "!") && (← seesNameAt 2)
  return false

def letStatement (read : Readers) : Reader Pieces := do
  let l ← keyword "let"
  let p ← read (.pattern true)
  let t ← if ← sees ":" then (do return (← symbol ":") ++ (← read (.type true)).pieces) else pure []
  let init ← if ← sees "=" then (do
    let eq ← symbol "="
    let e ← read (.expression true)
    let otherwise ← if ← seesWord "else" then (do return (← keyword "else") ++ (← read .block))
      else pure []
    return eq ++ e ++ otherwise) else pure []
  return l ++ p ++ t ++ init ++ (← symbol ";")

/-- A macro used as a statement; with braces it ends there. -/
def seesBracedMacro : Reader Bool := do
  let ts ← get
  match Path.plain.run ts with
  | some (_, .mark '!' _ :: .opening .brace :: _) => return true
  | _ => return false

def statement (read : Readers) : Reader Pieces := do
  if ← sees ";" then return ← symbol ";"
  let attrs ← TypeExpr.attributes read
  if ← seesWord "let" then return attrs ++ (← letStatement read)
  if ← seesItem then
    let before ← get
    let _ ← read .item
    let after ← get
    return attrs ++ (before.take (before.length - after.length)).map .token
  if ← seesBracedMacro then
    let p ← Path.plain
    let m := attrs ++ p.pieces ++ (← symbol "!") ++ (← tree)
    if (← sees ".") || (← sees "?") then
      let rest ← trailers read ((← get).length + 1) m
      let e ← continuation read true false ((← get).length + 1) false rest
      if ← atEnd then return e
      return e ++ (← symbol ";")
    return m ++ (← symbol? ";")
  match ← blockLike? read with
  | some b =>
    if ((← sees ".") && !(← sees "..")) || (← sees "?") then
      let rest ← trailers read ((← get).length + 1) b
      let e ← continuation read true false ((← get).length + 1) false rest
      if ← atEnd then return attrs ++ e
      return attrs ++ e ++ (← symbol ";")
    return attrs ++ b ++ (← symbol? ";")
  | none =>
    let e ← read (.expression true)
    if ← atEnd then return attrs ++ e
    return attrs ++ e ++ (← symbol ";")

def statements (read : Readers) : Reader Pieces := do
  let inner ← read (.attributes true)
  let all ← many (do return !(← atEnd)) (statement read)
  return inner.1 ++ all.flatten

end Expression

end Templating.Code
