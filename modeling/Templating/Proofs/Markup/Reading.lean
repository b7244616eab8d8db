import Templating.Markup.Reading
import Templating.Proofs.Text.Cursor

/-! One step of reading at a time: what each first character makes of the pieces after it, what each
sign announces, and which pieces leave the markup before them as it is. -/
namespace Templating.Markup
open Text (Cursor isBlank isAlphanumeric leadingName startsName)
variable {t : DirectiveTable} {scope : Scope} {c : Cursor} {n depth : Nat} {r : List Char}

attribute [local simp] pieces

/-! Literal characters -/

theorem pieces_nil (h : c.rest = []) : pieces t scope (n + 1) depth c = ⟨[], [], c⟩ := by
  simp only [pieces, h]

theorem pieces_literal {x : Char} (h : c.rest = x :: r) (ha : x ≠ '@') (hl : x ≠ '<')
    (hb : scope = .topLevel ∨ x ≠ '\x7b' ∧ x ≠ '\x7d') :
    pieces t scope (n + 1) depth c =
      (Outcome.literal [x] c (c.forward 1)).followedBy (pieces t scope n depth (c.forward 1)) := by
  rw [pieces]
  split
  · next h' => exact absurd (h.symm.trans h') (List.cons_ne_nil x r)
  · next h' => exact absurd (List.cons.inj (h.symm.trans h')).1 ha
  · next h' => exact absurd (List.cons.inj (h.symm.trans h')).1 hl
  · next h' =>
    obtain ⟨rfl, rfl⟩ := List.cons.inj (h.symm.trans h')
    rcases hb with rfl | ⟨ho, hc⟩
    · rfl
    · cases scope <;> simp [ho, hc]

theorem pieces_open (h : c.rest = '\x7b' :: r) :
    pieces t .nested (n + 1) depth c =
      (Outcome.literal ['\x7b'] c (c.forward 1)).followedBy
        (pieces t .nested n (depth + 1) (c.forward 1)) := by
  simp [pieces, h]

theorem pieces_close (h : c.rest = '\x7d' :: r) :
    pieces t .nested (n + 1) (depth + 1) c =
      (Outcome.literal ['\x7d'] c (c.forward 1)).followedBy
        (pieces t .nested n depth (c.forward 1)) := by
  simp [pieces, h]

theorem pieces_end (h : c.rest = '\x7d' :: r) : pieces t .nested (n + 1) 0 c = ⟨[], [], c⟩ := by
  simp [pieces, h]

theorem closeBody_eq {mark : Cursor} (h : c.rest = '\x7d' :: r) :
    closeBody mark c = (true, [], c.forward 1) := by
  simp [closeBody, h]

/-! Tags -/

theorem pieces_tag {ps : List Piece} {d : Cursor} (h : c.rest = '<' :: r)
    (hr : Tag.read? c = some (ps, d)) :
    pieces t scope (n + 1) depth c = Outcome.followedBy ⟨ps, [], d⟩ (pieces t scope n depth d) := by
  simp only [pieces, h, hr]

theorem pieces_noTag (h : c.rest = '<' :: r) (hr : Tag.read? c = none) :
    pieces t scope (n + 1) depth c =
      (Outcome.literal ['<'] c (c.forward 1)).followedBy
        (pieces t scope n depth (c.forward 1)) := by
  simp only [pieces, h, hr]

/-! Signs -/

theorem pieces_simple {o : Outcome (List Piece)} (h : c.rest = '@' :: r)
    (ha : announced t c = .simple o) :
    pieces t scope (n + 1) depth c = o.followedBy (pieces t scope n depth o.cursor) := by
  simp only [pieces, h, ha]

theorem pieces_control {chained : Bool} {bs : List (Clause (Located Node))} {d : Cursor}
    (h : c.rest = '@' :: r) (ha : announced t c = .control chained)
    (hb : branches t n c chained (c.forward 1) = ⟨some bs, [], d⟩) :
    pieces t scope (n + 1) depth c =
      Outcome.followedBy ⟨[.node (.control bs) ⟨c.offset, d.offset⟩ false], [], d⟩
        (pieces t scope n depth d) := by
  simp [pieces, h, ha, hb]

theorem pieces_choice {s : List Char} {as : List (Clause (Located Node))} {d e : Cursor}
    (h : c.rest = '@' :: r)
    (ha : announced t c = .choice) (hs : codeAt .openBrace (c.forward 6) = .ok (s, d))
    (hb : arms t n c d = ⟨some as, [], e⟩) :
    pieces t scope (n + 1) depth c =
      Outcome.followedBy
        ⟨[.node (.choice (.ofList (Text.trim s)) as) ⟨c.offset, e.offset⟩ false], [], e⟩
        (pieces t scope n depth e) := by
  simp [pieces, h, ha, hs, hb]

theorem announced_escape (h : c.rest = '@' :: '@' :: r) :
    announced t c = .simple (.literal ['@'] c (c.forward 2)) := by
  simp [announced, h]

theorem announced_comment (h : c.rest = '@' :: '*' :: r) : announced t c = .simple (comment c) := by
  have hx : isAlphanumeric '*' = false := by decide
  simp [announced, h, insideWord, hx]

theorem announced_explicit (h : c.rest = '@' :: '(' :: r) :
    announced t c = .simple (explicit c) := by
  have hx : isAlphanumeric '(' = false := by decide
  simp [announced, h, insideWord, hx]

/- The keywords of control flow announce it wherever the sign does not stand inside a word. -/
section
variable {cs : List Char} (h : c.rest = '@' :: cs) (ha : ¬ c.before.head?.any isAlphanumeric)
include h ha

theorem announced_if (hw : leadingName cs = ['i', 'f']) : announced t c = .control true := by
  obtain ⟨r, rfl, hs⟩ := Text.eq_cons_of_leadingName hw
  simp [announced, h, insideWord, ha, hs, hw]

theorem announced_for (hw : leadingName cs = ['f', 'o', 'r']) : announced t c = .control false := by
  obtain ⟨r, rfl, hs⟩ := Text.eq_cons_of_leadingName hw
  simp [announced, h, insideWord, ha, hs, hw]

theorem announced_while (hw : leadingName cs = ['w', 'h', 'i', 'l', 'e']) :
    announced t c = .control false := by
  obtain ⟨r, rfl, hs⟩ := Text.eq_cons_of_leadingName hw
  simp [announced, h, insideWord, ha, hs, hw]

theorem announced_match (hw : leadingName cs = ['m', 'a', 't', 'c', 'h']) :
    announced t c = .choice := by
  obtain ⟨r, rfl, hs⟩ := Text.eq_cons_of_leadingName hw
  simp [announced, h, insideWord, ha, hs, hw]

end

theorem announced_word {x : Char} (h : c.rest = '@' :: x :: r) (hx : startsName x = true)
    (hin : insideWord c x = false)
    (hword : String.ofList (leadingName (x :: r)) ∉ ["if", "for", "while", "match"]) :
    (∀ d, t.get? (.ofList (leadingName (x :: r))) = some d →
      boundary d ((x :: r).drop (leadingName (x :: r)).length) = true →
      announced t c = .directive d) ∧
    ((∀ d, t.get? (.ofList (leadingName (x :: r))) = some d →
      boundary d ((x :: r).drop (leadingName (x :: r)).length) = false) →
      announced t c = .simple (implicit c)) := by
  have hne : ∀ y, startsName y = false → x ≠ y := fun y => Text.ne_of_startsName hx
  simp only [List.mem_cons, List.not_mem_nil, or_false, not_or] at hword
  rw [announced, h, List.drop_succ_cons, List.drop_zero]
  split
  next heq => exact absurd (List.cons.inj heq).1 (hne '@' (by decide))
  next heq => cases heq
  next heq =>
    obtain ⟨rfl, rfl⟩ := List.cons.inj heq
    simp only [hin, hne '*' (by decide), hne '(' (by decide), hne '\x7b' (by decide), hx, hword,
      beq_iff_eq, Bool.false_eq_true,
      Bool.or_eq_true, if_false, if_true, or_self]
    cases hget : t.get? (.ofList (leadingName (x :: r))) with
    | none => simp
    | some d => cases hbound : boundary d ((x :: r).drop (leadingName (x :: r)).length) <;>
      simp [hbound]

/-! Gathering -/

theorem nodeFaults_run (run : Run) (ns : Nodes) : nodeFaults (run.nodes ++ ns) = nodeFaults ns := by
  by_cases hchars : run.chars = []
  · simp [Run.nodes, hchars]
  · simp [Run.nodes, hchars, nodeFaults, Node.faults]

/-- Pieces that do not go on with the markup before them. -/
def Separate (ps : List Piece) : Prop := ∀ run, gatherFrom run ps = run.nodes ++ gather ps

theorem separate_nil : Separate [] := fun _ => by simp [gather, gatherFrom, Run.nodes]

theorem separate_node (n : Node) (span : Span) (ps : List Piece) :
    Separate (.node n span false :: ps) := fun _ => by
  simp [gather, gatherFrom, Run.nodes]

def Gathers (s : List Char) (texts : List Piece) : Prop :=
  ∀ run ps, ∃ run', gatherFrom run (texts ++ ps) = gatherFrom run' ps ∧
    run'.chars = s.reverse ++ run.chars

theorem gathers_nil : Gathers [] [] := fun run _ => ⟨run, rfl, rfl⟩

theorem Gathers.cons {s : List Char} {texts : List Piece} (h : Gathers s texts) (cs : List Char)
    (offset : Nat) :
    Gathers (cs ++ s) (.text cs offset :: texts) := by
  intro run ps
  obtain ⟨run', he, hc⟩ := h (run.add cs offset) ps
  exact ⟨run', by simpa [gatherFrom] using he, by simp [hc, Run.add]⟩

theorem Gathers.append {s s' : List Char} {texts texts' : List Piece} (h : Gathers s texts)
    (h' : Gathers s' texts') :
    Gathers (s ++ s') (texts ++ texts') := by
  intro run ps
  obtain ⟨run₁, he₁, hc₁⟩ := h run (texts' ++ ps)
  obtain ⟨run₂, he₂, hc₂⟩ := h' run₁ ps
  exact ⟨run₂,
    by rw [List.append_assoc, he₁, he₂], by rw [hc₂, hc₁, List.reverse_append, List.append_assoc]⟩

theorem Gathers.gather_append {s : List Char} {texts ps : List Piece} (h : Gathers s texts)
    (hs : s ≠ []) (hp : Separate ps) :
    ∃ span, gather (texts ++ ps) = ⟨.markup (.ofList s), span⟩ :: gather ps := by
  obtain ⟨run, he, hc⟩ := h {} ps
  have hr : run.chars = s.reverse := by simpa using hc
  refine ⟨⟨run.start, max run.stop run.start⟩, ?_⟩
  rw [gather, he, hp run]
  simp [Run.nodes, hr, hs]

end Templating.Markup
