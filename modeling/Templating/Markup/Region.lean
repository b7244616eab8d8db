import Templating.Code.Grammar
import Templating.Code.Scan
import Templating.Markup.Node
import Templating.Naming

/-!
The tokens that stand after a directive's keyword.
-/

namespace Templating.Markup.Region

open Text (byteSize isBlank)

def stringBody : Bool → List Char → Option (List Char)
  | _, [] => none
  | escaped, c :: cs =>
    if c == '"' && !escaped then some []
    else (stringBody (c == '\\' && !escaped) cs).map (c :: ·)

/-- The slice of a text that is a token of a kind: the slice, nothing if there is no such token, or
why there is none. -/
def slice (k : TokenKind) (cs : List Char) : Except String (Option (List Char)) :=
  if cs.isEmpty then .ok none else
  match k with
  | .text => .ok (some cs)
  | .type =>
    if Code.isType cs then .ok (some cs) else .error s!"`{String.ofList cs}` is not a valid type"
  | .constraint => .ok (if Text.startsWithWord ['w', 'h', 'e', 'r', 'e'] cs then some cs else none)
  | .member =>
    match Text.leadingName cs with
    | [] => .error s!"expected an identifier, found `{String.ofList cs}`"
    | w => .ok (some w)
  | .namespacePath =>
    let run := cs.takeWhile fun c => Text.continuesName c || c == '.' || c == ':'
    let valid := !run.isEmpty && (Naming.segments (.ofList run)).all fun s =>
      s != "" && (Text.leadingName s.toList).length == s.length
    if valid then .ok (some run) else .error s!"`{String.ofList run}` is not a valid namespace"
  | .string =>
    match cs with
    | '"' :: r =>
      match stringBody false r with
      | some body => .ok (some ('"' :: body ++ ['"']))
      | none => .error "unterminated string literal"
    | _ => .error "expected a string literal"
  | .boolean =>
    let w := Text.leadingName cs
    if w == "true".toList || w == "false".toList then .ok (some w) else
      .error "expected `true` or `false`"
  | .attribute =>
    match cs with
    | '#' :: '[' :: r =>
      match Code.scan (.closer ']') (some '[') r with
      | .ok code => .ok (some ('#' :: '[' :: code ++ [']']))
      | .error (_, e) => .error e.message
    | _ => .error "expected an attribute `#[...]`"

def value (k : TokenKind) (cs : List Char) : String :=
  match k with
  | .string => .ofList (cs.drop 1).dropLast
  | .text => .ofList (Text.trim (Text.dropEndWhile (· == ';') cs))
  | .namespacePath => Text.join "." (Naming.segments (.ofList cs))
  | _ => .ofList (Text.trim cs)

def malformed (d : Directive) (reason : String) (start stop : Nat) : Fault :=
  { problem := .malformedDirective d.keyword reason, span := ⟨start, stop⟩ }

/-- The tokens of a region, and what is wrong with it. The offsets are those of the text
and of the region. -/
def tokensFrom (d : Directive) (region : Span) :
    List TokenSpec → Nat → List Char → List (Located DirectiveToken) × List Fault
  | [], offset, cs =>
    match Text.trim cs with
    | [] => ([], [])
    | rest => ([], [malformed d s!"unexpected `{String.ofList rest}`" offset region.stop])
  | spec :: specs, offset, cs =>
    let offset := offset + byteSize (cs.takeWhile isBlank)
    let cs := cs.dropWhile isBlank
    match slice spec.kind (Text.trimEnd cs) with
    | .ok (some s) =>
      let stop := offset + byteSize s
      let (ts, fs) := tokensFrom d region specs stop (cs.drop s.length)
      (⟨⟨spec.kind, value spec.kind s⟩, offset, stop⟩ :: ts, fs)
    | .ok none =>
      if spec.optional then tokensFrom d region specs offset cs
      else ([], [malformed d s!"expected {spec.kind.describe}" region.start region.stop])
    | .error reason => ([], [malformed d reason offset region.stop])

def tokens (d : Directive) (offset : Nat) (cs : List Char) :
    List (Located DirectiveToken) × List Fault :=
  tokensFrom d ⟨offset, offset + byteSize cs⟩ d.tokens offset cs

end Templating.Markup.Region
