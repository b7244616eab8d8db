import Templating.Code.Token

/-!
Readers of token sequences. What a reader has read it gives back as pieces, which print as the
tokens do but remember which names are whole types.
-/

namespace Templating.Code

inductive Piece where
  | token (t : Token)
  /-- A type that is one name and nothing else. -/
  | typeName (name : String)
  deriving DecidableEq, Repr, Inhabited

abbrev Pieces := List Piece

namespace Piece

def toToken : Piece → Token
  | token t => t
  | typeName n => .word n

def word (w : String) : Piece := token (.word w)

def symbol (s : String) : Pieces := (Token.symbol s).map token

def enclosed (d : Delimiter) (inner : Pieces) : Pieces :=
  token (.opening d) :: inner ++ [token (.closing d)]

def punctuated (items : List (Pieces × Bool)) : Pieces :=
  items.flatMap fun (p, comma) => if comma then p ++ symbol "," else p

end Piece

def Pieces.print (ps : Pieces) : String := Token.print (ps.map Piece.toToken)

abbrev Reader := StateT (List Token) Option

namespace Reader

def reserved : List String :=
  ["_", "abstract", "as", "async", "await", "become", "box", "break", "const", "continue", "crate",
    "do", "dyn", "else",
    "enum", "extern", "false", "final", "fn", "for", "if", "impl", "in", "let", "loop", "macro",
      "match", "mod", "move",
    "mut", "override", "priv", "pub", "ref", "return", "Self", "self", "static", "struct", "super",
      "trait", "true",
    "try", "type", "typeof", "unsafe", "unsized", "use", "virtual", "where", "while", "yield"]

def isName (w : String) : Bool := !reserved.contains w

def beginsSymbol : List Char → List Token → Bool
  | [], _ => true
  | [c], .mark x _ :: _ => c == x
  | c :: cs, .mark x true :: ts => c == x && beginsSymbol cs ts
  | _, _ => false

def ahead (n : Nat) : Reader (Option Token) := return (← get)[n]?

def seesSymbolAt (n : Nat) (s : String) : Reader Bool :=
  return beginsSymbol s.toList ((← get).drop n)

def sees (s : String) : Reader Bool := seesSymbolAt 0 s

def seesWordAt (n : Nat) (w : String) : Reader Bool := return (← get)[n]? == some (.word w)

def seesWord (w : String) : Reader Bool := seesWordAt 0 w

def seesWords (ws : List String) : Reader Bool := ws.anyM seesWord

def seesNameAt (n : Nat) : Reader Bool := do
  match (← get)[n]? with
  | some (.word w) => return isName w
  | _ => return false

def seesName : Reader Bool := seesNameAt 0

def seesAnyWord : Reader Bool := do
  match (← get).head? with
  | some (.word _) => return true
  | _ => return false

def seesLifetimeAt (n : Nat) : Reader Bool := do
  match (← get)[n]? with
  | some (.lifetime _) => return true
  | _ => return false

def seesLifetime : Reader Bool := seesLifetimeAt 0

def seesOpeningAt (n : Nat) (d : Delimiter) : Reader Bool := return (← get)[n]? == some (.opening d)

def seesOpening (d : Delimiter) : Reader Bool := seesOpeningAt 0 d

def seesLiteral : Reader Bool := do
  match ← get with
  | .literal _ :: _ => return true
  | .word w :: _ => return w == "true" || w == "false"
  | .mark '-' _ :: .literal t :: _ => return t.toList.head?.any Char.isDigit
  | _ => return false

def atEnd : Reader Bool := do
  match (← get).head? with
  | none | some (.closing _) => return true
  | _ => return false

/-- Whether the delimiter that closes the group stands a number of places ahead. -/
def closesAt (n : Nat) : Reader Bool := do
  match (← get)[n]? with
  | some (.closing _) => return true
  | _ => return false

def token : Reader Token := do
  match ← get with
  | t :: ts => set ts; return t
  | [] => failure

def symbol (s : String) : Reader Pieces := do
  guard (← sees s)
  modify (·.drop s.length)
  return Piece.symbol s

def symbol? (s : String) : Reader Pieces := do if ← sees s then symbol s else return []

def keyword (w : String) : Reader Pieces := do
  guard (← seesWord w)
  let t ← token
  return [.token t]

def keyword? (w : String) : Reader Pieces := do if ← seesWord w then keyword w else return []

def anyWord : Reader String := do
  match ← token with
  | .word w => return w
  | _ => failure

def name : Reader String := do
  let w ← anyWord
  guard (isName w)
  return w

def lifetime : Reader Pieces := do
  guard (← seesLifetime)
  let t ← token
  return [.token t]

def lifetime? : Reader Pieces := do if ← seesLifetime then lifetime else return []

def literal : Reader Pieces := do
  guard (← seesLiteral)
  let minus ← symbol? "-"
  let t ← token
  return minus ++ [.token t]

/-- What a reader reads between two delimiters, of which it leaves nothing. -/
def inside {α : Type} (d : Delimiter) (inner : Reader α) : Reader α := do
  guard ((← token) == .opening d)
  let x ← inner
  guard ((← token) == .closing d)
  return x

def group (d : Delimiter) (inner : Reader Pieces) : Reader Pieces :=
  Piece.enclosed d <$> inside d inner

/-- As many readings as the test allows, and no more than there are tokens. -/
def many {α : Type} (more : Reader Bool) (item : Reader α) : Reader (List α) := do
  go ((← get).length + 1)
where
  go : Nat → Reader (List α)
    | 0 => return []
    | n + 1 => do
      if ← more then
        let x ← item
        let xs ← go n
        return x :: xs
      else return []

/-- Items with separators between them, and perhaps one at the end; whether
a separator follows each. -/
def separated {α : Type} (sep : String) (closed : Reader Bool) (item : Reader α) :
    Reader (List (α × Bool)) := do
  go ((← get).length + 1)
where
  go : Nat → Reader (List (α × Bool))
    | 0 => return []
    | n + 1 => do
      if ← closed then return [] else
      let x ← item
      if ← closed then return [(x, false)] else
      let _ ← symbol sep
      let xs ← go n
      return (x, true) :: xs

def listed (item : Reader Pieces) : Reader Pieces := Piece.punctuated <$> separated "," atEnd item

def balance : Nat → Nat → List Token → List Token × List Token
  | 0, _, ts => ([], ts)
  | _, _, [] => ([], [])
  | n + 1, depth, t :: ts =>
    match t with
    | .opening _ => let (a, b) := balance n (depth + 1) ts; (t :: a, b)
    | .closing _ =>
      if depth == 0 then ([], t :: ts) else let (a, b) := balance n (depth - 1) ts; (t :: a, b)
    | _ => let (a, b) := balance n depth ts; (t :: a, b)

def verbatim : Reader Pieces := do
  let (a, b) := balance ((← get).length + 1) 0 (← get)
  set b
  return a.map .token

def tree : Reader Pieces := do
  match (← get).head? with
  | some (.opening d) => group d verbatim
  | _ => failure

def whole? {α : Type} (r : Reader α) (ts : List Token) : Option α :=
  match r.run ts with
  | some (x, []) => some x
  | _ => none

end Reader

end Templating.Code
