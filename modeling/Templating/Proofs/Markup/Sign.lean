import Templating.Markup.Reading

/-! What an at sign announces, by the text behind it. -/
namespace Templating.Markup
open Text (Cursor leadingName)
variable {t : DirectiveTable} {mark : Cursor}

/-- One case for each way in which the text goes on. -/
inductive Announces (t : DirectiveTable) (mark : Cursor) : Announced → Prop
  | escape {cs : List Char} (h : mark.rest.drop 1 = '@' :: cs) :
      Announces t mark (.simple (.literal ['@'] mark (mark.forward 2)))
  | inside (h : (mark.rest.drop 1).head? ≠ some '@') :
      Announces t mark (.simple (.literal ['@'] mark (mark.forward 1)))
  | stray (h : (mark.rest.drop 1).head? ≠ some '@') : Announces t mark (.simple (stray mark))
  | comment : Announces t mark (.simple (comment mark))
  | explicit {cs : List Char} (h : mark.rest.drop 1 = '(' :: cs) :
      Announces t mark (.simple (explicit mark))
  | codeBlock {cs : List Char} (h : mark.rest.drop 1 = '\x7b' :: cs) :
      Announces t mark (.simple (codeBlock mark))
  | implicit : Announces t mark (.simple (implicit mark))
  | chain (h : leadingName (mark.rest.drop 1) = ['i', 'f']) : Announces t mark (.control true)
  | loop : Announces t mark (.control false)
  | choice (h : leadingName (mark.rest.drop 1) = ['m', 'a', 't', 'c', 'h']) :
      Announces t mark .choice
  | directive {d : Directive} (h : t.get? (.ofList (leadingName (mark.rest.drop 1))) = some d) :
      Announces t mark (.directive d)

theorem announces {a : Announced} (h : announced t mark = a) : Announces t mark a := by
  have hkeyword : ∀ {cs : List Char} {s : String}, (String.ofList cs == s) = true →
      cs = s.toList := by
    intro cs s heq
    rw [← eq_of_beq heq, String.toList_ofList]
  subst h
  unfold announced
  split
  next cs hrest => exact .escape hrest
  next hrest => exact .stray (by simp [hrest])
  next x next hno hrest =>
    have hother : (mark.rest.drop 1).head? ≠ some '@' := by
      rw [hrest]
      intro hx
      exact hno (Option.some.inj hx)
    split
    · exact .inside hother
    split
    · exact .comment
    split
    next hx => exact .explicit (by rw [hrest, eq_of_beq hx])
    split
    next hx => exact .codeBlock (by rw [hrest, eq_of_beq hx])
    split
    · dsimp only
      split
      next hword => exact .chain (by rw [hrest]; exact hkeyword hword)
      split
      · exact .loop
      split
      next hword => exact .choice (by rw [hrest]; exact hkeyword hword)
      split
      next d hget =>
        split
        · exact .directive (by rw [hrest]; exact hget)
        · exact .implicit
      · exact .implicit
    · exact .stray hother

end Templating.Markup
