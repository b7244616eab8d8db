import Templating.Code.Expression
import Templating.Code.Lexeme

/-!
Items: what a unit of code defines. Of an item only what the search for constructors
needs is kept. -/

namespace Templating.Code

open Reader

namespace Attribute

def content (read : Readers) : Reader (Pieces × Attribute) := do
  if (← seesWord "unsafe") && (← seesOpeningAt 1 .paren) then
    let w ← keyword "unsafe"
    return (w ++ (← tree), ⟨"unsafe", true, none⟩)
  let p ← Path.plain
  let single := !p.leading && p.count == 1
  if (← seesOpening .paren) || (← seesOpening .bracket) || (← seesOpening .brace) then
    return (p.pieces ++ (← tree), ⟨p.last, single, none⟩)
  if ← sees "=" then
    let eq ← symbol "="
    guard !(← sees "#")
    let value ← read (.expression true)
    let text? := match value with
      | [.token (.literal l)] => Lexeme.stringValue? l
      | _ => none
    return (p.pieces ++ eq ++ value, ⟨p.last, single, text?⟩)
  return (p.pieces, ⟨p.last, single, none⟩)

/-- Attributes in a row; those of what they stand in have a bang after their hash. -/
def rule (read : Readers) (inner : Bool) : Reader (Pieces × List Attribute) := do
  let begins : Reader Bool :=
    if inner then return (← sees "#") && (← seesSymbolAt 1 "!") && (← seesOpeningAt 2 .bracket) else
      sees "#"
  let all ← many begins do
    let hash ← symbol "#"
    let bang ← if inner then symbol "!" else pure []
    let (pieces, a) ← inside .bracket (content read)
    return (hash ++ bang ++ Piece.enclosed .bracket pieces, a)
  return (all.flatMap (·.1), all.map (·.2))

end Attribute

namespace Item

def visibility : Reader Bool := do
  if !(← seesWord "pub") then return false
  let _ ← keyword "pub"
  if ← seesOpening .paren then
    let restricted : Reader Unit := inside .paren do
      if ← seesWord "in" then
        let _ ← keyword "in"
        let _ ← Path.plain
      else
        guard (← seesWords ["self", "super", "crate"])
        let _ ← anyWord
    let ts ← get
    match restricted.run ts with
    | some (_, rest) => set rest; return false
    | none => return true
  return true

def receiver? (read : Readers) : Reader Bool := do
  let attempt : Reader Unit := do
    let amp ← symbol? "&"
    if !amp.isEmpty then let _ ← lifetime?
    let _ ← keyword? "mut"
    let _ ← keyword "self"
    if amp.isEmpty && (← sees ":") then
      let _ ← symbol ":"
      let _ ← read (.type true)
  match attempt.run (← get) with
  | some (_, rest) => set rest; return true
  | none => return false

inductive Input where
  | self
  | typed (p : Parameter)
  | variadic

def input (read : Readers) : Reader Input := do
  let _ ← TypeExpr.attributes read
  if ← sees "..." then
    let _ ← symbol "..."
    return .variadic
  if ← receiver? read then return .self
  if (← seesName) && (← seesSymbolAt 1 "<") then return .typed ⟨none, (← read (.type true)).pieces⟩
  let named? ← if ← Pattern.seesBinding then (do return some (← Pattern.binding read).1)
    else (do let _ ← read (.pattern false); return none)
  let _ ← symbol ":"
  if ← sees "..." then
    let _ ← symbol "..."
    return .variadic
  return .typed ⟨named?, (← read (.type true)).pieces⟩

/-- Whether a function begins here. Only one that is defined elsewhere may be called safe. -/
def beginsSignature (safe : Bool) : Reader Bool := do
  go 5 0
where
  go : Nat → Nat → Reader Bool
    | 0, _ => return false
    | n + 1, i => do
      if ← seesWordAt i "fn" then return true
      match ← ahead i with
      | some (.word w) =>
        if ["const", "async", "unsafe", "extern"].contains w || (safe && w == "safe") then
          go n (i + 1) else return false
      | some (.literal _) => if 0 < i then go n (i + 1) else return false
      | _ => return false

def output? (read : Readers) : Reader (Option TypeExpr) := do
  if !(← sees "->") then return none
  let _ ← symbol "->"
  return some (← read (.type true))

def signature (read : Readers) (attributes : List Attribute) (exported : Bool) :
    Reader Function := do
  let _ ← keyword? "const"
  let _ ← keyword? "async"
  let _ ← if ← seesWord "safe" then keyword "safe" else keyword? "unsafe"
  if ← seesWord "extern" then
    let _ ← keyword "extern"
    if ← seesLiteral then let _ ← literal
  let _ ← keyword "fn"
  let n ← name
  let (generics, _) ← read .generics
  let inputs ← inside .paren (separated "," atEnd (input read))
  let result? ← output? read
  let _ ← read .whereClause
  let inputs := inputs.map (·.1)
  -- only the first argument may be the receiver
  guard ((inputs.drop 1).all fun | .self => false | _ => true)
  return {
    attributes, exported, name := n, generic := generics.length > 2, result?
    receiver := inputs.any fun | .self => true | _ => false
    parameters := inputs.filterMap fun | .typed p => some p | _ => none }

def body? (read : Readers) : Reader (Option (List Attribute)) := do
  if ← sees ";" then
    let _ ← symbol ";"
    return none
  let inner := (read (.attributes true)).run ((← get).drop 1)
  let _ ← read .block
  return some ((inner.map (·.1.2)).getD [])

def skip {α : Type} (r : Reader α) : Reader Unit := do let _ ← r

def member (read : Readers) (safe : Bool) : Reader (Option Function) := do
  let (_, attributes) ← read (.attributes false)
  let exported ← visibility
  if (← seesWord "default") && !(← seesSymbolAt 1 "!") then skip (keyword "default")
  if ← beginsSignature safe then
    let f ← signature read attributes exported
    return (← body? read).map fun inner => { f with attributes := f.attributes ++ inner }
  if ← seesWord "const" then
    skip (keyword "const")
    if ← seesWord "_" then skip anyWord else skip name
    skip (read .generics)
    skip (symbol ":")
    skip (read (.type true))
    if ← sees "=" then
      skip (symbol "=")
      skip (read (.expression true))
    skip (read .whereClause)
    skip (symbol ";")
    return none
  if ← seesWord "type" then
    skip (keyword "type")
    skip name
    skip (read .generics)
    if ← sees ":" then
      skip (symbol ":")
      skip (Generics.bounds read Generics.constraintsEnd)
    skip (read .whereClause)
    if ← sees "=" then
      skip (symbol "=")
      skip (read (.type true))
      skip (read .whereClause)
    skip (symbol ";")
    return none
  skip Path.plain
  skip (symbol "!")
  let braced ← seesOpening .brace
  skip tree
  if !braced then skip (symbol ";")
  return none

/-- Whether angle brackets after the word for an implementation hold parameters and not a type. -/
def beginsParameters : Reader Bool := do
  if !(← sees "<") then return false
  if (← seesSymbolAt 1 ">") || (← seesSymbolAt 1 "#") || (← seesWordAt 1 "const") then return true
  let named := (← seesLifetimeAt 1) || (← seesNameAt 1)
  let bounded := (← seesSymbolAt 2 ":") && !(← seesSymbolAt 2 "::")
  return named && (bounded || (← seesSymbolAt 2 ">") || (← seesSymbolAt 2 ",") ||
    (← seesSymbolAt 2 "="))

def implementation (read : Readers) (exported : Bool) : Reader Item := do
  if ← seesWord "default" then skip (keyword "default")
  if ← seesWord "unsafe" then skip (keyword "unsafe")
  skip (keyword "impl")
  let generics ← if ← beginsParameters then (do return (← read .generics).2) else pure []
  let constant := (← seesWord "const") || ((← sees "?") && (← seesWordAt 1 "const"))
  if constant then
    skip (symbol? "?")
    skip (keyword "const")
  let negative := (← sees "!") && !(← seesOpeningAt 1 .brace)
  if negative then skip (symbol "!")
  let first ← read (.type true)
  let ofTrait ← seesWord "for"
  let self ← if ofTrait then (do skip (keyword "for"); read (.type true)) else pure first
  guard (ofTrait || !negative)
  skip (read .whereClause)
  let functions ← inside .brace do
    skip (read (.attributes true))
    many (do return !(← atEnd)) (member read false)
  if exported || constant then return .other
  return .block ⟨generics, ofTrait, self, functions.filterMap id⟩

def field (read : Readers) (named : Bool) : Reader Pieces := do
  skip (read (.attributes false))
  skip (visibility)
  if named then
    if ← seesWord "_" then skip anyWord else skip name
    skip (symbol ":")
    let t ← read (.type true)
    if ← sees "=" then
      skip (symbol "=")
      skip (read (.expression true))
    return t.pieces
  return (← read (.type true)).pieces

def variant (read : Readers) : Reader Pieces := do
  skip (read (.attributes false))
  skip (visibility)
  let n ← name
  if ← seesOpening .brace then skip (group .brace (listed (field read true)))
  else if ← seesOpening .paren then skip (group .paren (listed (field read false)))
  if ← sees "=" then
    skip (symbol "=")
    skip (read (.expression true))
  return [Piece.word n]

def record (read : Readers) : Reader Item := do
  skip (keyword "struct")
  let n ← name
  let (_, params) ← read .generics
  skip (read .whereClause)
  if ← seesOpening .brace then skip (group .brace (listed (field read true)))
  else
    if ← seesOpening .paren then
      skip (group .paren (listed (field read false)))
      skip (read .whereClause)
    skip (symbol ";")
  return .typeDefinition n params

def enumeration (read : Readers) : Reader Item := do
  skip (keyword "enum")
  let n ← name
  let (_, params) ← read .generics
  skip (read .whereClause)
  skip (group .brace (listed (variant read)))
  return .typeDefinition n params

def union (read : Readers) : Reader Item := do
  skip (keyword "union")
  skip name
  skip (read .generics)
  skip (read .whereClause)
  skip (group .brace (listed (field read true)))
  return .other

def trait (read : Readers) : Reader Item := do
  if ← seesWord "unsafe" then skip (keyword "unsafe")
  if ← seesWord "auto" then skip (keyword "auto")
  skip (keyword "trait")
  skip name
  skip (read .generics)
  if ← sees "=" then
    skip (symbol "=")
    skip (Generics.bounds read Generics.constraintsEnd)
    skip (read .whereClause)
    skip (symbol ";")
    return .other
  if ← sees ":" then
    skip (symbol ":")
    skip (Generics.bounds read (do return (← seesOpening .brace) || (← seesWord "where")))
  skip (read .whereClause)
  skip (inside .brace do
    skip (read (.attributes true))
    skip (many (do return !(← atEnd)) (member read false)))
  return .other

def value (read : Readers) (w : String) : Reader Item := do
  skip (keyword w)
  skip (keyword? "mut")
  if ← seesWord "_" then skip anyWord else skip name
  skip (read .generics)
  skip (symbol ":")
  skip (read (.type true))
  if ← sees "=" then
    skip (symbol "=")
    skip (read (.expression true))
  skip (read .whereClause)
  skip (symbol ";")
  return .other

def typeAlias (read : Readers) : Reader Item := do
  skip (keyword "type")
  skip name
  skip (read .generics)
  if ← sees ":" then
    skip (symbol ":")
    skip (Generics.bounds read Generics.constraintsEnd)
  skip (read .whereClause)
  if ← sees "=" then
    skip (symbol "=")
    skip (read (.type true))
    skip (read .whereClause)
  skip (symbol ";")
  return .other

def moduleItem (read : Readers) : Reader Item := do
  if ← seesWord "unsafe" then skip (keyword "unsafe")
  skip (keyword "mod")
  if ← seesWord "try" then skip anyWord else skip name
  if ← sees ";" then
    skip (symbol ";")
    return .other
  return .module (← inside .brace (do
    skip (read (.attributes true))
    read .items))

/-- A use tree in which every branch may begin at the root, unless what it stands in does. -/
def rootedTree (read : Readers) : Nat → Reader Unit
  | 0 => failure
  | n + 1 => do
    let root ← symbol? "::"
    if root.isEmpty && (← seesOpening .brace) then
      skip (inside .brace (separated "," atEnd (rootedTree read n)))
    else skip (read .useTree)

def useItem (read : Readers) : Reader Item := do
  skip (keyword "use")
  rootedTree read (← get).length
  skip (symbol ";")
  return .other

def foreign (read : Readers) : Reader Item := do
  if ← seesWord "unsafe" then skip (keyword "unsafe")
  skip (keyword "extern")
  if ← seesWord "crate" then
    skip (keyword "crate")
    if ← seesWord "self" then skip anyWord else skip name
    if ← seesWord "as" then
      skip (keyword "as")
      if ← seesWord "_" then skip anyWord else skip name
    skip (symbol ";")
    return .other
  if ← seesLiteral then skip literal
  skip (inside .brace do
    skip (read (.attributes true))
    skip (many (do return !(← atEnd)) do
      let isStatic : Reader Bool := do
        skip (read (.attributes false))
        skip (visibility)
        seesWord "static"
      match isStatic.run (← get) with
      | some (true, rest) => set rest; skip (value read "static")
      | _ => skip (member read true)))
  return .other

def macroCall : Reader Item := do
  skip Path.plain
  skip (symbol "!")
  if ← seesName then skip name
  let braced ← seesOpening .brace
  skip tree
  if !braced then skip (symbol ";")
  return .other

def rule (read : Readers) : Reader Item := do
  let (_, attributes) ← read (.attributes false)
  let before ← get
  let exported ← visibility
  let marked := before.length != (← get).length
  if ← beginsSignature false then
    skip (signature read attributes exported)
    skip (body? read)
    return .other
  if ← seesWord "extern" then return ← foreign read
  if (← seesWord "unsafe") && (← seesWordAt 1 "extern") then return ← foreign read
  if ← seesWord "use" then return ← useItem read
  if ← seesWord "static" then return ← value read "static"
  if ← seesWord "const" then return ← value read "const"
  if (← seesWord "mod") || ((← seesWord "unsafe") && (← seesWordAt 1 "mod")) then
    return ← moduleItem read
  if ← seesWord "type" then return ← typeAlias read
  if ← seesWord "struct" then return ← record read
  if ← seesWord "enum" then return ← enumeration read
  if (← seesWord "union") && (← seesNameAt 1) then return ← union read
  if (← seesWord "trait") || ((← seesWord "auto") && (← seesWordAt 1 "trait")) ||
      ((← seesWord "unsafe") && ((← seesWordAt 1 "trait") || (← seesWordAt 1 "auto"))) then
        return ← trait read
  if (← seesWord "impl") || ((← seesWord "default") && !(← seesSymbolAt 1 "!")) ||
    (← seesWord "unsafe") then
    return ← implementation read marked
  guard !marked
  macroCall

def list (read : Readers) : Reader (List Item) := many (do return !(← atEnd)) (read .item)

end Item

namespace UseTree

def rule (read : Readers) : Reader Pieces := do
  if ← sees "*" then return ← symbol "*"
  if ← seesOpening .brace then return ← group .brace (listed (read .useTree))
  guard ((← seesName) || (← seesWords ["self", "super", "crate", "try"]))
  let w := Piece.word (← anyWord)
  if ← sees "::" then return w :: (← symbol "::") ++ (← read .useTree)
  if ← seesWord "as" then
    let asWord ← keyword "as"
    let n ← if ← seesWord "_" then anyWord else name
    return w :: asWord ++ [Piece.word n]
  return [w]

end UseTree

end Templating.Code
