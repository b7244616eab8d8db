import Templating.Code.Scan

/-!
Expressions that nothing delimits: a name, and as many paths, fields, calls and indexes as follow
it.
-/

namespace Templating.Markup.Implicit

open Code (Stop ScanError)

abbrev Reading := Except (List Char × ScanError) (List Char)

def after (lead : List Char) : Reading → Reading
  | .ok cs => .ok (lead ++ cs)
  | .error (cs, e) => .error (lead ++ cs, e)

def suffixes : Nat → List Char → Reading
  | 0, _ => .ok []
  | n + 1, cs =>
    let named (lead rest : List Char) : Reading :=
      match Text.leadingName rest with
      | [] => .ok []
      | w => after (lead ++ w) (suffixes n (rest.drop w.length))
    let enclosed (lead : List Char) (closer : Char) (rest : List Char) : Reading :=
      match Code.scan (.closer closer) lead.getLast? rest with
      | .ok code => after (lead ++ code ++ [closer]) (suffixes n (rest.drop (code.length + 1)))
      | .error f => after lead (.error f)
    match cs with
    | ':' :: ':' :: r => named [':', ':'] r
    | '.' :: r => named ['.'] r
    | '(' :: r => enclosed ['('] ')' r
    | '[' :: r => enclosed ['['] ']' r
    | '!' :: '(' :: r => enclosed ['!', '('] ')' r
    | _ => .ok []

def read (cs : List Char) : Reading :=
  let w := Text.leadingName cs
  after w (suffixes (cs.length + 1) (cs.drop w.length))

end Templating.Markup.Implicit
