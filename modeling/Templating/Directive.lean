/-!
Directives: the keywords that a template may use after its transition character, what each takes,
and the table they are looked up in.
-/

namespace Templating

/-- How far a directive reaches. -/
inductive DirectiveKind where
  | line
  | codeBlock
  | markupBlock
  deriving DecidableEq, Repr, Inhabited

/-- How often a directive may occur. -/
inductive Usage where
  | unrestricted
  | oncePerFile
  | manyPerFile
  deriving DecidableEq, Repr, Inhabited

/-- What a directive's token is. -/
inductive TokenKind where
  | type
  | member
  | namespacePath
  | string
  | boolean
  | attribute
  | constraint
  | text
  deriving DecidableEq, Repr, Inhabited

def TokenKind.describe : TokenKind → String
  | .type => "a type"
  | .member => "an identifier"
  | .namespacePath => "a namespace"
  | .string => "a string literal"
  | .boolean => "`true` or `false`"
  | .attribute => "an attribute"
  | .constraint => "a `where` clause"
  | .text => "text"

structure TokenSpec where
  kind : TokenKind
  optional : Bool := false
  deriving DecidableEq, Repr, Inhabited

structure Directive where
  keyword : String
  kind : DirectiveKind
  usage : Usage
  tokens : List TokenSpec := []
  deriving DecidableEq, Repr, Inhabited

/-- Directives in the order they were registered. -/
structure DirectiveTable where
  directives : List Directive := []
  deriving DecidableEq, Repr, Inhabited

inductive DirectiveTableError where
  | duplicate (keyword : String)
  deriving DecidableEq, Repr

def DirectiveTableError.message : DirectiveTableError → String
  | .duplicate k => s!"Directive `{k}` is already registered"

namespace DirectiveTable

def get? (t : DirectiveTable) (keyword : String) : Option Directive :=
  t.directives.find? (·.keyword == keyword)

/-- The table with one more directive; a keyword has one meaning only. -/
def register (t : DirectiveTable) (d : Directive) : Except DirectiveTableError DirectiveTable :=
  match t.get? d.keyword with
  | some _ => .error (.duplicate d.keyword)
  | none => .ok ⟨t.directives ++ [d]⟩

def standard : DirectiveTable where
  directives := [
    ⟨"model", .line, .oncePerFile, [⟨.type, false⟩]⟩,
    ⟨"addTagHelper", .line, .unrestricted, [⟨.text, false⟩]⟩,
    ⟨"removeTagHelper", .line, .unrestricted, [⟨.text, false⟩]⟩,
    ⟨"tagHelperPrefix", .line, .oncePerFile, [⟨.text, false⟩]⟩,
    ⟨"namespace", .line, .oncePerFile, [⟨.namespacePath, false⟩]⟩,
    ⟨"use", .line, .unrestricted, [⟨.text, false⟩]⟩,
    ⟨"inherits", .line, .oncePerFile, [⟨.type, false⟩]⟩,
    ⟨"typeparam", .line, .manyPerFile, [⟨.member, false⟩, ⟨.constraint, true⟩]⟩,
    ⟨"functions", .codeBlock, .manyPerFile, []⟩,
    ⟨"section", .markupBlock, .unrestricted, [⟨.member, false⟩]⟩]

end DirectiveTable

end Templating
