import Templating.Render.Error
import Templating.Render.Value

/-!
The writer of one body: the output so far, and the attribute that is being written, if one is. An
attribute of one part waits with its opening text for that part and vanishes when the part is
nothing or false.
-/

namespace Templating.Render

inductive ContentKind where
  | html
  | text
  deriving DecidableEq, Repr, Inhabited

/-- An attribute that has begun. Once it is suppressed nothing of it is written. -/
structure OpenAttribute where
  name : String
  opening : String
  closing : String
  count : Nat
  suppressed : Bool := false
  deriving DecidableEq, Repr, Inhabited

structure Writer where
  kind : ContentKind
  token : Token
  output : String := ""
  attribute? : Option OpenAttribute := none
  deriving DecidableEq, Repr, Inhabited

/-- What comes of writing a value: an answer, or a template whose output is to follow. -/
inductive Written (τ : Type) where
  | done (result : Except RenderError Unit) (writer : Writer)
  | nested (t : τ) (writer : Writer)

namespace Writer

variable {τ : Type}

def literal (w : Writer) (s : String) : Writer := { w with output := w.output ++ s }

def pieces (w : Writer) (chunks : List String) : Writer :=
  match w.kind with
  | .html => { w with output := encodeChunks w.output chunks }
  | .text => w.literal (String.join chunks)

def write (w : Writer) : Value τ → Written τ
  | .null => .done (.ok ()) w
  | .boolean b => .done (.ok ()) (w.literal (if b then "true" else "false"))
  | .text s => .done (.ok ()) (w.pieces [s])
  | .encoded e => .done (.ok ()) (w.literal e.text)
  | .template t => .nested t w
  | .display d => .done (if d.fails then .error .sink else .ok ()) (w.pieces d.chunks)

def beginAttribute (w : Writer) (name opening closing : String) (count : Nat) :
    Except RenderError Unit × Writer :=
  match w.attribute? with
  | some _ => (.error (.attributeState .nested), w)
  | none =>
    let w := if count == 1 then w else w.literal opening
    (.ok (), { w with attribute? := some { name, opening, closing, count } })

/-- Writes a part, of which the lead comes first. What is nothing has no lead either. -/
def followPart (w : Writer) (lead : String) (literal : Bool) : Value τ → Written τ
  | .null => .done (.ok ()) w
  | .text s =>
    if literal then .done (.ok ()) ((w.literal lead).literal s) else
      (w.literal lead).write (.text s)
  | v => (w.literal lead).write v

/-- A part of the attribute; a literal one is never encoded. The only part of an attribute decides,
if it has no lead, whether the attribute is written at all: nothing and false suppress it, and true
stands for the attribute's name. -/
def part (w : Writer) (lead : String) (v : Value τ) (literal : Bool) : Written τ :=
  match w.attribute? with
  | none => .done (.error (.attributeState .partOutside)) w
  | some a =>
    if a.suppressed then .done (.ok ()) w
    else if a.count != 1 then w.followPart lead literal v
    else if lead != "" then (w.literal a.opening).followPart lead literal v
    else
      match v with
      | .null => .done (.ok ()) { w with attribute? := some { a with suppressed := true } }
      | .boolean false => .done (.ok ()) { w with attribute? := some { a with suppressed := true } }
      | .boolean true => (w.literal a.opening).followPart lead literal (.text a.name : Value τ)
      | v => (w.literal a.opening).followPart lead literal v

def endAttribute (w : Writer) : Except RenderError Unit × Writer :=
  match w.attribute? with
  | none => (.error (.attributeState .notStarted), w)
  | some a =>
    (.ok (), { (if a.suppressed then w else w.literal a.closing) with attribute? := none })

end Writer

end Templating.Render
