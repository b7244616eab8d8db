import Templating.Markup.Implicit
import Templating.Markup.Piece
import Templating.Text.Cursor

/-!
Tags. A tag is read whole or not at all; attributes whose quoted value holds an expression become
nodes, and the rest of it stays markup.
-/

namespace Templating.Markup

open Text (Cursor isBlank byteSize)

/-- Whether letters and digits meet across the cursor, as in an address. -/
def insideWord (c : Cursor) (next : Char) : Bool :=
  Text.isAlphanumeric next && c.before.head?.any Text.isAlphanumeric

namespace Tag

/-- What an at sign does inside a quoted value. -/
inductive Transition where
  | escape
  | literal
  /-- An expression, and the characters it takes after the sign. -/
  | expression (code : String) (length : Nat)
  | bad

def transition (c : Cursor) (next : List Char) : Transition :=
  match next with
  | '@' :: _ => .escape
  | x :: r =>
    if insideWord c x then .literal
    else if x == '(' then
      match Code.scan (.closer ')') (some '(') r with
      | .ok code => .expression (.ofList (Text.trim code)) (code.length + 2)
      | .error _ => .bad
    else if Text.startsName x then
      match Implicit.read next with
      | .ok code => .expression (.ofList code) code.length
      | .error _ => .bad
    else .literal
  | [] => .literal

/-- A quoted value in the making: the parts so far, and text that is no part yet. -/
structure Draft where
  parts : List (Located Part) := []
  pending : List Char := []
  pendingAt : Nat

namespace Draft

def literal (d : Draft) (stop : Nat) : List (Located Part) :=
  if d.pending.isEmpty then [] else [⟨⟨"", .literal (.ofList d.pending)⟩, d.pendingAt, stop⟩]

def expression (d : Draft) (code : String) (start stop : Nat) : Draft :=
  if !d.pending.isEmpty && Text.allBlank d.pending then
    ⟨d.parts ++ [⟨⟨.ofList d.pending, .expression code⟩, d.pendingAt, stop⟩], [], stop⟩
  else
    ⟨d.parts ++ d.literal start ++ [⟨⟨"", .expression code⟩, start, stop⟩], [], stop⟩

end Draft

def value (quote : Char) : Nat → Draft → Cursor → Option (Draft × Cursor)
  | 0, _, _ => none
  | n + 1, d, c =>
    match c.rest with
    | [] => none
    | x :: next =>
      if x == quote then some (d, c)
      else if x != '@' then value quote n { d with pending := d.pending ++ [x] } (c.forward 1)
      else match transition c next with
        | .escape => value quote n { d with pending := d.pending ++ ['@'] } (c.forward 2)
        | .literal => value quote n { d with pending := d.pending ++ ['@'] } (c.forward 1)
        | .expression code length =>
          let after := c.forward (length + 1)
          value quote n (d.expression code c.offset after.offset) after
        | .bad => none

def endsTagName (c : Char) : Bool := isBlank c || c == '>' || c == '/'

def endsName (c : Char) : Bool := isBlank c || ['=', '>', '/', '"', '\'', '<', '@'].contains c

def text (cs : List Char) (offset : Nat) : List Piece :=
  if cs.isEmpty then [] else [.text cs offset]

def attributes : Nat → List Char → Nat → Cursor → Option (List Piece × Cursor)
  | 0, _, _, _ => none
  | n + 1, markup, markupAt, c =>
    let blanks := c.rest.takeWhile isBlank
    let atName := c.past blanks
    match atName.rest with
    | [] => none
    | '>' :: _ => some (text (markup ++ blanks ++ ['>']) markupAt, atName.forward 1)
    | '/' :: '>' :: _ => some (text (markup ++ blanks ++ ['/', '>']) markupAt, atName.forward 2)
    | x :: _ =>
      if ['@', '"', '\'', '=', '<', '\x7b', '\x7d'].contains x then none else
      let name := atName.rest.takeWhile (!endsName ·)
      -- a slash that does not end the tag is no name
      if name.isEmpty then none else
      let afterName := atName.past name
      let equalsAt := afterName.skip isBlank
      match equalsAt.rest with
      | '=' :: _ =>
        let valueAt := (equalsAt.forward 1).skip isBlank
        let lead := c.rest.take (c.rest.length - valueAt.rest.length)
        match valueAt.rest with
        | [] => none
        | quote :: _ =>
          if quote == '"' || quote == '\'' then
            let begun := valueAt.forward 1
            match value quote (begun.rest.length + 1) { pendingAt := begun.offset } begun with
            | none => none
            | some (d, endsAt) =>
              let after := endsAt.forward 1
              if d.parts.isEmpty then
                attributes n (markup ++ lead ++ [quote] ++ d.pending ++ [quote]) markupAt after
              else
                let parts := d.parts ++ d.literal endsAt.offset
                let a : Attribute :=
                  ⟨.ofList name, .ofList (lead ++ [quote]), quote.toString, parts⟩
                (attributes n [] after.offset after).map fun (ps, e) =>
                  (text markup markupAt ++ .node (.attribute a) ⟨c.offset, after.offset⟩
                    false :: ps, e)
          else
            let unquoted := valueAt.rest.takeWhile fun y => !(isBlank y || y == '>')
            attributes n (markup ++ lead ++ unquoted) markupAt (valueAt.past unquoted)
      | _ => attributes n (markup ++ blanks ++ name) markupAt afterName

def read? (c : Cursor) : Option (List Piece × Cursor) :=
  match c.rest with
  | '<' :: x :: _ =>
    if x.isAlpha then
      let name := (c.forward 1).rest.takeWhile (!endsTagName ·)
      attributes (c.rest.length + 1) ('<' :: name) c.offset ((c.forward 1).past name)
    else none
  | _ => none

end Tag

end Templating.Markup
