/-!
The bytes of a text in UTF-8, counted over its characters, and the places where a text
can be cut. -/

namespace Templating.Text

def byteSize : List Char → Nat
  | [] => 0
  | c :: cs => c.utf8Size + byteSize cs

@[simp] theorem byteSize_append (a b : List Char) :
    byteSize (a ++ b) = byteSize a + byteSize b := by
  induction a with
  | nil => simp [byteSize]
  | cons c cs ih => simp [byteSize, ih, Nat.add_assoc]

@[simp] theorem byteSize_reverse (a : List Char) : byteSize a.reverse = byteSize a := by
  induction a with
  | nil => rfl
  | cons c cs ih => simp [byteSize, ih, Nat.add_comm]

/-- The text cut after a number of bytes, if no character lies across that place. -/
def cutAt? : Nat → List Char → Option (List Char × List Char)
  | 0, cs => some ([], cs)
  | _ + 1, [] => none
  | n + 1, c :: cs =>
    if n + 1 < c.utf8Size then none
    else (cutAt? (n + 1 - c.utf8Size) cs).map fun (a, b) => (c :: a, b)

theorem append_of_cutAt? {n : Nat} {cs a b : List Char} (h : cutAt? n cs = some (a, b)) :
    a ++ b = cs ∧ byteSize a = n := by
  induction cs generalizing n a b with
  | nil => cases n <;> simp_all [cutAt?, byteSize]
  | cons c cs ih =>
    cases n with
    | zero => simp_all [cutAt?, byteSize]
    | succ n =>
      simp only [cutAt?] at h
      split at h
      · simp at h
      · obtain ⟨⟨x, y⟩, hx, h⟩ := Option.map_eq_some_iff.1 h
        have := ih hx
        simp only [Prod.mk.injEq] at h
        obtain ⟨rfl, rfl⟩ := h
        simp_all [byteSize]

/-- The text between two byte offsets, if both are places between characters. -/
def slice? (start stop : Nat) (s : String) : Option String := do
  guard (start ≤ stop)
  let (_, rest) ← cutAt? start s.toList
  let (piece, _) ← cutAt? (stop - start) rest
  return .ofList piece

end Templating.Text
