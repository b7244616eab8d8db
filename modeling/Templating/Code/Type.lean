import Templating.Code.Phrase

/-!
Types, paths, bounds and generic parameters.
-/

namespace Templating.Code

open Reader

structure Path where
  pieces : Pieces
  leading : Bool
  /-- How many names it has. -/
  count : Nat
  /-- Whether no name of it has arguments, and whether the last has none. -/
  mere : Bool
  bare : Bool
  last : String
  arguments : List Pieces

namespace Path

structure Segment where
  name : String
  pieces : Pieces
  given : Bool
  arguments : List Pieces

inductive ArgumentKind where
  | lifetime
  | type
  | other
  deriving DecidableEq

def constant (read : Readers) : Reader Pieces := do
  if ← seesLiteral then literal
  else if ← seesName then return [Piece.word (← name)]
  else if ← seesOpening .brace then read .block
  else failure

def argument (read : Readers) : Reader (ArgumentKind × Pieces) := do
  if (← seesLifetime) && !(← seesSymbolAt 1 "+") then return (.lifetime, ← lifetime)
  if (← seesLiteral) || (← seesOpening .brace) then return (.other, ← constant read)
  let t ← read (.type true)
  if t.path?.any fun p => !p.qualified && p.single then
    let head := t.asBound
    if ← sees "=" then
      let eq ← symbol "="
      let value ← if (← seesLiteral) || (← seesOpening .brace) then constant read else
        (·.pieces) <$> read (.type true)
      return (.other, head ++ eq ++ value)
    if ← sees ":" then
      let colon ← symbol ":"
      let bounds ← separated "+" ((· || ·) <$> sees "," <*> sees ">") (read (.bound .constraint))
      return (.other, head ++ colon ++ bounds.flatMap fun (b, plus) =>
        if plus then b ++ Piece.symbol "+" else b)
  return (.type, t.pieces)

/-- Arguments as printed: lifetimes come first. -/
def arrange (args : List ((ArgumentKind × Pieces) × Bool)) : Pieces :=
  let (lifetimes, others) := args.partition fun ((k, _), _) => k == .lifetime
  let ended := (lifetimes.getLast?.map (·.2)).getD true
  let go := others.foldl (fun (out, ended) ((_, p), comma) =>
    ((out ++ if ended then [] else Piece.symbol ",") ++ p ++
      (if comma then Piece.symbol "," else []), comma))
    (lifetimes.flatMap fun ((_, p), comma) => p ++ (if comma then Piece.symbol "," else []), ended)
  go.1

/-- Arguments in angle brackets, and those of them that are types. -/
def given (read : Readers) : Reader (Pieces × List Pieces) := do
  let colons ← symbol? "::"
  let opening ← symbol "<"
  let args ← separated "," (sees ">") (argument read)
  let closing ← symbol ">"
  let types := args.filterMap fun ((k, p), _) => if k == .type then some p else none
  return (colons ++ opening ++ arrange args ++ closing, types)

/-- One name of a path; in an expression its arguments follow two colons. -/
def segment (read : Readers) (inExpression : Bool) : Reader Segment := do
  if ← seesWords ["super", "self", "crate", "try"] then
    let w ← anyWord
    return ⟨w, [Piece.word w], false, []⟩
  let w ← if ← seesWord "Self" then anyWord else name
  let angle := !inExpression && (← sees "<") && !(← sees "<=") && !(← sees "<<=")
  if angle || ((← sees "::") && (← seesSymbolAt 2 "<")) then
    let (pieces, types) ← given read
    return ⟨w, Piece.word w :: pieces, true, types⟩
  return ⟨w, [Piece.word w], false, []⟩

def goesOn : Reader Bool := return (← sees "::") && !(← seesOpeningAt 2 .paren)

def rest (read : Readers) (inExpression : Bool) (p : Path) : Reader Path := do
  let more ← many goesOn (do return (← symbol "::", ← segment read inExpression))
  return more.foldl (fun p (colons, s) =>
    { p with
      pieces := p.pieces ++ colons ++ s.pieces, count := p.count + 1
      mere := p.mere && !s.given, bare := !s.given
      last := s.name, arguments := s.arguments }) p

def path (read : Readers) (inExpression : Bool) : Reader Path := do
  let colons ← symbol? "::"
  let s ← segment read inExpression
  rest read inExpression ⟨colons ++ s.pieces, !colons.isEmpty, 1, !s.given, !s.given, s.name,
    s.arguments⟩

/-- A path that may begin at a type in angle brackets; whether it does. -/
def qualified (read : Readers) (inExpression : Bool) : Reader (Bool × Path) := do
  if !(← sees "<") then return (false, ← path read inExpression)
  let opening ← symbol "<"
  let this ← read (.type true)
  let ofTrait ← if ← seesWord "as" then (do return (← keyword "as") ++ (← path read false).pieces)
    else pure []
  let closing ← symbol ">"
  let colons ← symbol "::"
  let s ← segment read inExpression
  let pieces := opening ++ this.pieces ++ ofTrait ++ closing ++ colons ++ s.pieces
  let p : Path := ⟨pieces, true, 1, false, !s.given, s.name, s.arguments⟩
  let more ← many (sees "::") (do return (← symbol "::", ← segment read inExpression))
  return (true, more.foldl (fun p (colons, s) =>
    { p with
      pieces := p.pieces ++ colons ++ s.pieces, bare := !s.given, last := s.name
      arguments := s.arguments }) p)

def plain : Reader Path := do
  let colons ← symbol? "::"
  let first ← anyWord
  let more ← many (sees "::") (do return (← symbol "::", ← anyWord))
  return more.foldl (fun p (colons, w) =>
    { p with pieces := p.pieces ++ colons ++ [Piece.word w], count := p.count + 1, last := w })
    ⟨colons ++ [Piece.word first], !colons.isEmpty, 1, true, true, first, []⟩

end Path

namespace Bound

def begins (place : BoundPlace) : Reader Bool := do
  return (← seesAnyWord) || (← sees "::") || (← sees "?") || (← seesLifetime) ||
    (← seesOpening .paren) ||
    (place != .object && (← seesOpening .bracket))

/-- Whether a bound is a trait, and no lifetime or list of captures. -/
def isTrait : Pieces → Bool
  | .token (.lifetime _) :: _ | .token (.word "use") :: _ => false
  | _ => true

/-- Bounds with plus signs between them, of which a last one may lack its bound. One of them has to
be a trait. -/
def several (read : Readers) (place : BoundPlace) (plus : Bool) : Reader Pieces := do
  let first ← read (.bound place)
  let (all, traits) ← go first (isTrait first) ((← get).length + 1)
  guard traits
  return all
where
  go (done : Pieces) (traits : Bool) : Nat → Reader (Pieces × Bool)
    | 0 => return (done, traits)
    | n + 1 => do
      if !(plus && (← sees "+")) then return (done, traits)
      let done := done ++ (← symbol "+")
      if !(← begins place) then return (done, traits)
      let next ← read (.bound place)
      go (done ++ next) (traits || isTrait next) n

def binder? (read : Readers) : Reader Pieces := do
  if !(← seesWord "for") then return []
  guard (← seesSymbolAt 1 "<")
  return (← keyword "for") ++ (← read .generics).1

def callArguments (read : Readers) : Reader Pieces := do
  let inputs ← group .paren (listed ((·.pieces) <$> read (.type true)))
  let output ← if ← sees "->" then (do return (← symbol "->") ++ (← read (.type false)).pieces)
    else pure []
  return inputs ++ output

def onTrait (read : Readers) (place : BoundPlace) : Reader Pieces := do
  let binder ← binder? read
  let constness ← if ← seesOpening .bracket then group .bracket (keyword "const") else
    keyword? "const"
  guard (constness.isEmpty || place != .object)
  let modifier ← symbol? "?"
  guard (binder.isEmpty || modifier.isEmpty)
  let p ← Path.path read false
  let call := p.bare && ((← seesOpening .paren) || ((← sees "::") && (← seesOpeningAt 2 .paren)))
  let args ← if call then (do let _ ← symbol? "::"; callArguments read) else pure []
  return binder ++ constness ++ modifier ++ p.pieces ++ args

def captured : Reader (Path.ArgumentKind × Pieces) := do
  if ← seesLifetime then return (.lifetime, ← lifetime)
  if ← seesWord "Self" then return (.other, ← keyword "Self")
  return (.other, [Piece.word (← name)])

def captures : Reader Pieces := do
  let opening ← symbol "<"
  let all ← separated "," (sees ">") captured
  return opening ++ Path.arrange all ++ (← symbol ">")

def rule (read : Readers) (place : BoundPlace) : Reader Pieces := do
  if ← seesLifetime then return ← lifetime
  if ← seesWord "use" then
    guard (place == .anonymous)
    return (← keyword "use") ++ (← captures)
  if ← seesOpening .paren then return ← group .paren (onTrait read place)
  onTrait read place

end Bound

namespace TypeExpr

def ofPath (qualified : Bool) (p : Path) : TypeExpr :=
  let single := !qualified && !p.leading && p.count == 1
  { pieces := if single && p.mere then [.typeName p.last] else p.pieces
    path? := some ⟨qualified, single, p.last, p.arguments⟩
    bound := !qualified }

def attributes (read : Readers) : Reader Pieces := return (← read (.attributes false)).1

/-- One argument of a function type, perhaps with a name; the first may be the receiver. -/
def functionArgument (read : Readers) (first : Bool) : Reader Pieces := do
  let attrs ← attributes read
  if first && (← seesWord "mut") && (← seesWordAt 1 "self") then
    let mutable ← keyword "mut"
    let this ← keyword "self"
    if (← sees ":") && !(← sees "::") then
      return attrs ++ mutable ++ this ++ (← symbol ":") ++ (← read (.type true)).pieces
    return attrs ++ mutable ++ this
  let colon := (← seesSymbolAt 1 ":") && !(← seesSymbolAt 1 "::")
  if first && colon && (← seesWord "self") then
    return attrs ++ (← keyword "self") ++ (← symbol ":") ++ (← read (.type true)).pieces
  let named := colon && ((← seesName) || (← seesWord "_"))
  let label ← if named then (do return Piece.word (← anyWord) :: (← symbol ":")) else pure []
  if !(← sees "...") then return attrs ++ label ++ (← read (.type true)).pieces
  let dots ← symbol "..."
  guard ((← atEnd) || ((← sees ",") && (← closesAt 1)))
  return attrs ++ label ++ dots

def functionArguments (read : Readers) : Reader Pieces := do
  if ← atEnd then return []
  let first ← functionArgument read true
  if ← atEnd then return first
  return first ++ (← symbol ",") ++ (← listed (functionArgument read false))

def function (read : Readers) (binder : Pieces) : Reader TypeExpr := do
  let safety ← keyword? "unsafe"
  let abi ← if ← seesWord "extern" then (do
    let e ← keyword "extern"
    return e ++ (← if ← seesLiteral then literal else pure [])) else pure []
  let fn ← keyword "fn"
  let args ← group .paren (functionArguments read)
  let output ← if ← sees "->" then (do return (← symbol "->") ++ (← read (.type false)).pieces)
    else pure []
  return { pieces := binder ++ safety ++ abi ++ fn ++ args ++ output }

/-- Bounds that follow a first one; whether the last plus sign needs one. -/
def sum (read : Readers) (strict : Bool) (first : Pieces) : Reader TypeExpr := do
  let more ← many (sees "+") do
    let plus ← symbol "+"
    if !strict && !(← Bound.begins .object) then
      guard !(← sees "+")
      return plus
    return plus ++ (← read (.bound .object))
  return { pieces := first ++ more.flatten }

/-- Bounds of a trait object; a lifetime alone is none. -/
def object (read : Readers) (plus : Bool) : Reader TypeExpr := do
  let dyn ← keyword? "dyn"
  let star ← if dyn.isEmpty then pure [] else symbol? "*"
  return { pieces := dyn ++ star ++ (← Bound.several read .object plus) }

def parenthesised (read : Readers) (plus : Bool) : Reader TypeExpr := do
  let optional ← seesSymbolAt 1 "?"
  let inner ← inside .paren do
    if ← atEnd then return (([] : Pieces), ([] : Pieces), false)
    if ← seesLifetime then return ((← object read true).pieces, [], false)
    if ← sees "?" then
      let b ← Bound.onTrait read .object
      return (b, b, true)
    let first ← read (.type true)
    if ← sees "," then
      let comma ← symbol ","
      return (first.pieces ++ comma ++ (← listed ((·.pieces) <$> read (.type true))), [], false)
    return (first.pieces, first.asBound, first.bound)
  let (pieces, asBound, bound) := inner
  if bound && (plus || optional) && (← sees "+") then sum read true (Piece.enclosed .paren asBound)
  else return { pieces := Piece.enclosed .paren pieces }

def ofNamed (read : Readers) (plus : Bool) (binder : Pieces) : Reader TypeExpr := do
  let (qualified, p) ← Path.qualified read false
  if qualified then return ofPath true p
  if (← sees "!") && !(← sees "!=") && p.mere then
    return { pieces := p.pieces ++ (← symbol "!") ++ (← tree) }
  if plus && (← sees "+") then sum read false (binder ++ p.pieces)
  else if !binder.isEmpty then return { pieces := binder ++ p.pieces, bound := true }
  else return ofPath false p

def beginsPath : Reader Bool := do
  return (← seesName) || (← seesWords ["super", "self", "Self", "crate"]) || (← sees "::") ||
    (← sees "<")

/-- A type; with `plus`, further bounds may follow a first one. -/
def rule (read : Readers) (plus : Bool) : Reader TypeExpr := do
  let binder ← Bound.binder? read
  if !binder.isEmpty then
    guard ((← seesName) ||
      (← seesWords ["fn", "unsafe", "extern", "super", "self", "Self", "crate"]))
  if ← seesOpening .paren then parenthesised read plus
  else if ← seesWords ["fn", "unsafe", "extern"] then function read binder
  else if ← beginsPath then ofNamed read plus binder
  else if (← seesWord "dyn") || (← seesLifetime) then object read (plus || !(← seesWord "dyn"))
  else if ← seesOpening .bracket then
    return { pieces := ← group .bracket do
      let elem ← read (.type true)
      if ← sees ";" then return elem.pieces ++ (← symbol ";") ++ (← read (.expression true))
      return elem.pieces }
  else if ← sees "*" then
    let star ← symbol "*"
    let kind ← if ← seesWord "const" then keyword "const" else keyword "mut"
    return { pieces := star ++ kind ++ (← read (.type false)).pieces }
  else if ← sees "&" then
    let amp ← symbol "&"
    let life ← lifetime?
    let mutable ← keyword? "mut"
    return { pieces := amp ++ life ++ mutable ++ (← read (.type false)).pieces }
  else if (← sees "!") && !(← sees "!=") then return { pieces := ← symbol "!" }
  else if ← seesWord "impl" then
    let impl ← keyword "impl"
    return { pieces := impl ++ (← Bound.several read .anonymous plus) }
  else if ← seesWord "_" then return { pieces := ← keyword "_" }
  else failure

end TypeExpr

namespace Generics

def bounds (read : Readers) (closed : Reader Bool) : Reader Pieces := do
  let all ← go closed ((← get).length + 1)
  return all.flatten
where
  go (closed : Reader Bool) : Nat → Reader (List Pieces)
    | 0 => return []
    | n + 1 => do
      if ← closed then return []
      let b ← read (.bound .constraint)
      if !(← sees "+") then return [b]
      let plus ← symbol "+"
      return (b ++ plus) :: (← go closed n)

def parameter (read : Readers) : Reader (Pieces × Option TypeParameter) := do
  let attrs ← TypeExpr.attributes read
  if ← seesLifetime then
    let l ← lifetime
    if !(← sees ":") then return (attrs ++ l, none)
    let colon ← symbol ":"
    return (attrs ++ l ++ colon ++ (← bounds read ((· || ·) <$> sees "," <*> sees ">")), none)
  if ← seesWord "const" then
    let const ← keyword "const"
    let n ← name
    let colon ← symbol ":"
    let t ← read (.type true)
    let given ← if ← sees "=" then (do return (← symbol "=") ++ (← Path.constant read)) else pure []
    return (attrs ++ const ++ [Piece.word n] ++ colon ++ t.pieces ++ given, none)
  let n ← if ← seesWord "_" then anyWord else name
  let bounded ← if ← sees ":" then (do
    let colon ← symbol ":"
    return colon ++ (← bounds read (do return (← sees ",") || (← sees ">") || (← sees "="))))
      else pure []
  if ← sees "=" then
    let eq ← symbol "="
    let t ← read (.type true)
    return (attrs ++ [Piece.word n] ++ bounded ++ eq ++ t.pieces, some ⟨n, some t.pieces⟩)
  return (attrs ++ [Piece.word n] ++ bounded, some ⟨n, none⟩)

def rule (read : Readers) : Reader (Pieces × List TypeParameter) := do
  if !(← sees "<") then return ([], [])
  let opening ← symbol "<"
  let params ← separated "," (sees ">") (parameter read)
  let closing ← symbol ">"
  return (opening ++ Piece.punctuated (params.map fun ((p, _), comma) => (p, comma)) ++ closing,
    params.filterMap fun ((_, t), _) => t)

/-- Where a list of constraints ends. -/
def constraintsEnd : Reader Bool := do
  return (← atEnd) || (← seesOpening .brace) || (← sees ",") || (← sees ";") || (← sees "=") ||
    ((← sees ":") && !(← sees "::"))

def constraint (read : Readers) : Reader Pieces := do
  if (← seesLifetime) && (← seesSymbolAt 1 ":") then
    let l ← lifetime
    return l ++ (← symbol ":") ++ (← bounds read constraintsEnd)
  let binder ← Bound.binder? read
  let t ← read (.type true)
  return binder ++ t.pieces ++ (← symbol ":") ++ (← bounds read constraintsEnd)

def whereRule (read : Readers) : Reader Pieces := do
  if !(← seesWord "where") then return []
  let w ← keyword "where"
  go w ((← get).length + 1)
where
  go (done : Pieces) : Nat → Reader Pieces
    | 0 => return done
    | n + 1 => do
      if ← constraintsEnd then return done
      let done := done ++ (← constraint read)
      if !(← sees ",") then return done
      go (done ++ (← symbol ",")) n

end Generics

end Templating.Code
