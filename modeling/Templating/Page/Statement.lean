import Templating.Markup.Node

/-!
What the body of a page does, statement by statement, and the lowering of a tree to it. Literal text
is written in runs as long as they can be; of the directives only a sound section at the top level
does anything.
-/

namespace Templating.Page

open Markup (Clause Part Node Nodes)

inductive Statement where
  | literal (text : String)
  | expression (code : String)
  | code (code : String)
  | block (branches : List (Clause (Located Statement)))
  | choice (scrutinee : String) (arms : List (Clause (Located Statement)))
  | beginAttribute (name opening closing : String) (count : Nat)
  | part (p : Part)
  | endAttribute
  | defineSection (name : String) (body : List (Located Statement))
  deriving Repr, Inhabited

abbrev Body := List (Located Statement)

/-- Puts a statement in front of others; two literals become one that covers both. -/
def join (s : Located Statement) (b : Body) : Body :=
  match s, b with
  | ⟨.literal x, p⟩, ⟨.literal y, q⟩ :: rest => ⟨.literal (x ++ y), p.start, q.stop⟩ :: rest
  | s, b => s :: b

def ofAttribute (a : Markup.Attribute) (span : Span) : Body :=
  ⟨.beginAttribute a.name a.opening a.closing a.parts.length, span⟩ ::
    a.parts.map (fun p => ⟨.part p.val, p.span⟩) ++ [⟨.endAttribute, span⟩]

mutual

/-- The statements of a node in front of those after it; sections are defined at
the top level alone. -/
def lowerNode (top : Bool) (span : Span) (after : Body) : Node → Body
  | .markup text => join ⟨.literal text, span⟩ after
  | .comment => after
  | .expression code => ⟨.expression code, span⟩ :: after
  | .code code => ⟨.code code, span⟩ :: after
  | .control branches => ⟨.block (lowerClauses branches), span⟩ :: after
  | .choice scrutinee arms => ⟨.choice scrutinee (lowerClauses arms), span⟩ :: after
  | .attribute a => ofAttribute a span ++ after
  | .directive ⟨keyword, ⟨name, _⟩ :: _, some (.markup nodes), []⟩ =>
    if top && keyword == "section" then ⟨.defineSection name.text (lower false nodes), span⟩ ::
      after else after
  | .directive _ => after

def lower (top : Bool) : Nodes → Body
  | [] => []
  | ⟨n, span⟩ :: ns => lowerNode top span (lower top ns) n

def lowerClauses : List (Clause (Located Node)) → List (Clause (Located Statement))
  | [] => []
  | ⟨head, body⟩ :: cs => ⟨head, lower false body⟩ :: lowerClauses cs

end

end Templating.Page
