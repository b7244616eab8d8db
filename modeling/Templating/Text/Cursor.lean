import Templating.Text.Bytes

/-!
Places in a text. A cursor holds what was read and what is left, and knows its offset in bytes; the
offset cannot disagree with what was read.
-/

namespace Templating.Text

structure Cursor where
  /-- The characters before the cursor, the nearest first. -/
  before : List Char
  rest : List Char
  offset : Nat
  offset_eq : offset = byteSize before

namespace Cursor

def start (cs : List Char) : Cursor := ⟨[], cs, 0, rfl⟩

def text (c : Cursor) : List Char := c.before.reverse ++ c.rest

theorem ext {c d : Cursor} (hb : c.before = d.before) (hr : c.rest = d.rest) : c = d := by
  obtain ⟨b, r, o, h⟩ := c
  obtain ⟨b', r', o', h'⟩ := d
  simp_all

def forward : Nat → Cursor → Cursor
  | n + 1, ⟨b, x :: r, o, h⟩ =>
    forward n ⟨x :: b, r, o + x.utf8Size, by simp [byteSize, h, Nat.add_comm]⟩
  | _, c => c

@[simp] theorem text_forward (n : Nat) (c : Cursor) : (c.forward n).text = c.text := by
  induction n generalizing c with
  | zero => simp [forward]
  | succ n ih =>
    obtain ⟨b, r, o, h⟩ := c
    cases r with
    | nil => simp [forward]
    | cons x r => exact (ih _).trans (by simp [text])

@[simp] theorem rest_forward (n : Nat) (c : Cursor) : (c.forward n).rest = c.rest.drop n := by
  induction n generalizing c with
  | zero => simp [forward]
  | succ n ih =>
    obtain ⟨b, r, o, h⟩ := c
    cases r <;> simp [forward, ih]

theorem before_forward (n : Nat) (c : Cursor) :
    (c.forward n).before = (c.rest.take n).reverse ++ c.before := by
  induction n generalizing c with
  | zero => simp [forward]
  | succ n ih =>
    obtain ⟨b, r, o, h⟩ := c
    cases r <;> simp [forward, ih]

def past (cs : List Char) (c : Cursor) : Cursor := c.forward cs.length

def toEnd (c : Cursor) : Cursor := c.forward c.rest.length

def skip (p : Char → Bool) (c : Cursor) : Cursor := c.past (c.rest.takeWhile p)

def atEnd (c : Cursor) : Bool := c.rest.isEmpty

def size (c : Cursor) : Nat := c.offset + byteSize c.rest

/-- Whether only spaces and tabs stand before the cursor on its line. -/
def atLineStart (c : Cursor) : Bool :=
  (c.before.takeWhile (· != '\n')).all fun x => x == ' ' || x == '\t'

end Cursor

end Templating.Text
