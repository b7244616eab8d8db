import Templating.Proofs.Offset.Reading

/-! Runs that heed slashes in tags and runs that do not. They go the same way up to the first such
slash; there the one stops, and the other never comes to an end. -/
namespace Templating.Offset
open Markup (Announced Nodes Piece Scope Tree)
open Text (Cursor isBlank)
open Text.Cursor

/-- The second attempt goes as the first, but where that one stops at a slash it has no end. -/
def Heedless {α : Type} (a b : Attempt α) : Prop := a = b ∨ a = .error .slash ∧ b = .error .turns

section
variable {α β : Type} {a b : Attempt α}

theorem heedless_rfl : Heedless a a := .inl rfl

theorem Heedless.bind {f g : α → Attempt β} (h : Heedless a b) (hf : ∀ v, Heedless (f v) (g v)) :
    Heedless (a >>= f) (b >>= g) := by
  rcases h with rfl | ⟨rfl, rfl⟩
  · cases a with
    | ok v => exact hf v
    | error e => exact .inl rfl
  · exact .inr ⟨rfl, rfl⟩

theorem Heedless.map_bind {f : α → Attempt β} (h : Heedless a b) : Heedless (a >>= f) (b >>= f) :=
  h.bind fun _ => heedless_rfl

theorem loop_heedless {σ ρ : Type} {turn turn' : σ → Attempt (Turn σ ρ)}
    (hturn : ∀ s, Heedless (turn s) (turn' s) ∨ turn s = .error .slash ∧ ∀ k, loop turn' k s =
      .error .turns) (k : Nat) (s : σ) :
    Heedless (loop turn k s) (loop turn' k s) := by
  induction k generalizing s with
  | zero => exact heedless_rfl
  | succ k ih =>
    rcases hturn s with h | ⟨hslash, hever⟩
    · refine h.bind fun u => ?_
      cases u with
      | last r => exact heedless_rfl
      | next s' => exact ih s'
    · refine .inr ⟨?_, hever (k + 1)⟩
      rw [loop, hslash]
      rfl

end

section
variable {n : Nat} {text : List Char}

theorem tagTurn_heedless (s : Tagging) : Heedless (tagTurn n text true s) (tagTurn n text false s) ∨
    tagTurn n text true s = .error .slash ∧
      ∀ k, loop (tagTurn n text false) k s = .error .turns := by
  cases hstart : onward s.offset text with
  | error e =>
    have hsame : ∀ heed, tagTurn n text heed s = .error e := by
      intro heed
      rw [tagTurn, skipWhile, hstart]
      rfl
    rw [hsame, hsame]
    exact .inl heedless_rfl
  | ok rest =>
    obtain ⟨c, hc, hs, -⟩ := exists_of_onward hstart
    have hat := (ahead_skip c isBlank).text_eq.trans hc
    have hturn : ∀ heed, tagTurn n text heed s = _ := fun heed => tagTurn.eq_def n text heed s
    simp only [← hs, skipWhile_at hc, onward_at hat, bind_ok] at hturn
    cases hrest : (c.skip isBlank).rest with
    | nil =>
      rw [hturn, hturn, hrest]
      exact .inl heedless_rfl
    | cons x rest =>
      rw [hturn, hturn, hrest]
      split
      · exact .inl heedless_rfl
      next hcloses =>
        dsimp only
        split
        · exact .inl heedless_rfl
        by_cases hx : x = '/'
        · subst hx
          have hslash : AtSlash c := by
            refine ⟨rest, hrest, ?_⟩
            rintro r rfl
            exact hcloses (by simp [List.isPrefixOf])
          exact .inr ⟨rfl, loop_slash hc hs.symm hslash⟩
        · have hother : ∀ heed, ¬ (heed && x == '/') = true := fun heed => by simp [hx]
          rw [if_neg (hother true), if_neg (hother false)]
          exact .inl heedless_rfl

theorem tag_heedless (i : Nat) : Heedless (tag n text true i) (tag n text false i) := by
  rw [tag, tag]
  refine heedless_rfl.bind fun rest => ?_
  split
  · refine heedless_rfl.bind fun nameEnd => heedless_rfl.bind fun name =>
      loop_heedless tagTurn_heedless n _
  · exact heedless_rfl

end

/-! What bodies are in -/

section
variable {n : Nat} {text : List Char} {t : DirectiveTable}
  {body body' : Nat → Attempt (Passage Nodes)}
  (hbody : ∀ i, Heedless (body i) (body' i))
include hbody

theorem clause_heedless (s : Clausing) (mark : Nat) (head : List Char) (i : Nat) :
    Heedless (s.clause text body mark head i) (s.clause text body' mark head i) :=
      (hbody i).map_bind

theorem controlTurn_heedless (mark : Nat) (chained : Bool) (s : Clausing) :
    Heedless (controlTurn n text body mark chained s)
      (controlTurn n text body' mark chained s) := by
  rw [controlTurn, controlTurn]
  refine heedless_rfl.bind fun found => ?_
  cases found with
  | error f => exact heedless_rfl
  | ok found => exact (clause_heedless hbody s mark _ _).map_bind

theorem armTurn_heedless (mark : Nat) (s : Clausing) :
    Heedless (armTurn n text body mark s) (armTurn n text body' mark s) := by
  have harm : ∀ i, Heedless (s.arm n text body mark i) (s.arm n text body' mark i) := by
    intro i
    rw [Clausing.arm, Clausing.arm]
    refine heedless_rfl.bind fun found => ?_
    cases found with
    | error f => exact heedless_rfl
    | ok found =>
      refine heedless_rfl.bind fun bodyAt => heedless_rfl.bind fun opening => ?_
      split
      · exact (clause_heedless hbody s mark _ _).map_bind
      · exact heedless_rfl
  rw [armTurn, armTurn]
  refine heedless_rfl.bind fun i => heedless_rfl.bind fun rest => ?_
  split
  · exact heedless_rfl
  · split
    · exact heedless_rfl
    · exact harm i

theorem control_heedless (mark : Nat) (chained : Bool) :
    Heedless (control n text body mark chained) (control n text body' mark chained) :=
  (loop_heedless (fun s => .inl (controlTurn_heedless hbody mark chained s)) n _).map_bind

theorem choice_heedless (mark : Nat) :
    Heedless (choice n text body mark) (choice n text body' mark) := by
  rw [choice, choice]
  refine heedless_rfl.bind fun found => ?_
  cases found with
  | error f => exact heedless_rfl
  | ok found => exact (loop_heedless (fun s => .inl (armTurn_heedless hbody mark s)) n _).map_bind

theorem directiveAt_heedless (scope : Scope) (mark : Nat) (d : Directive) :
    Heedless (directiveAt n text body scope mark d) (directiveAt n text body' scope mark d) := by
  rw [directiveAt, directiveAt]
  refine heedless_rfl.bind fun region => heedless_rfl.bind fun tokens => ?_
  dsimp only
  split
  · exact heedless_rfl
  · refine heedless_rfl.bind fun opening => heedless_rfl.bind fun rest => ?_
    split
    · split
      · exact heedless_rfl
      · exact (hbody _).map_bind
    · exact heedless_rfl

theorem word_heedless (scope : Scope) (mark : Nat) :
    Heedless (word n text body t scope mark) (word n text body' t scope mark) := by
  rw [word, word]
  refine heedless_rfl.bind fun rest => heedless_rfl.bind fun behind =>
    heedless_rfl.bind fun cs => ?_
  dsimp only
  split
  · exact control_heedless hbody mark true
  split
  · exact control_heedless hbody mark false
  split
  · exact choice_heedless hbody mark
  split
  · split
    · exact directiveAt_heedless hbody scope mark _
    · exact heedless_rfl
  · exact heedless_rfl

theorem transition_heedless (scope : Scope) (mark : Nat) :
    Heedless (transition n text body t scope mark) (transition n text body' t scope mark) := by
  rw [transition, transition]
  refine heedless_rfl.bind fun rest => ?_
  split
  · exact heedless_rfl
  split
  · exact heedless_rfl
  refine heedless_rfl.bind fun inside => ?_
  split
  · exact heedless_rfl
  split
  · exact heedless_rfl
  split
  · exact heedless_rfl
  split
  · exact heedless_rfl
  split
  · exact word_heedless hbody scope mark
  · exact heedless_rfl

theorem nodesTurn_heedless (scope : Scope) (s : Noding) :
    Heedless (nodesTurn n text body t true scope s) (nodesTurn n text body' t false scope s) := by
  rw [nodesTurn, nodesTurn]
  refine heedless_rfl.bind fun rest => ?_
  split
  · exact heedless_rfl
  split
  · exact (transition_heedless hbody scope s.offset).map_bind
  split
  · exact (tag_heedless s.offset).map_bind
  · exact heedless_rfl

end

section
variable {n : Nat}

theorem nodes_heedless (text : List Char) (t : DirectiveTable) (k : Nat) (scope : Scope) (i : Nat) :
    Heedless (nodes true n text t k scope i) (nodes false n text t k scope i) := by
  induction k generalizing scope i with
  | zero => exact heedless_rfl
  | succ k ih => exact loop_heedless (fun s => .inl (nodesTurn_heedless (ih .nested) scope s)) n _

theorem parse_heedless (s : Source) (t : DirectiveTable) :
    Heedless (parse true n s t) (parse false n s t) :=
  (nodes_heedless s.text.toList t n .topLevel 0).map_bind

end

/-- A run that heeds slashes stops at one: a tag is looked through up to a slash, behind blanks,
that does not end it. -/
def Stalls (s : Source) (t : DirectiveTable) : Prop := ∃ n, parse true n s t = .error .slash

/-- If it does not, a turn more in each loop than there are characters is enough. -/
theorem parse_of_not_stalls {s : Source} {t : DirectiveTable} (hstalls : ¬ Stalls s t) {n : Nat}
    (hn : s.text.toList.length < n) :
    parse false n s t = .ok (Tree.parse s t) := by
  have hsettles := parse_settles true n s t
  have hslash : parse true n s t ≠ .error .slash := fun h => hstalls ⟨n, h⟩
  rcases parse_heedless (n := n) s t with hsame | ⟨hstuck, -⟩
  · rcases hsettles.value with hv | hv | ⟨-, hv⟩
    · rw [← hsame, hv]
    · exact absurd hv (hsettles.returns ⟨rfl, hn⟩)
    · exact absurd hv hslash
  · exact absurd hstuck hslash

/-! Without a slash there is none to heed -/

section
variable {n : Nat} {text : List Char} (hslash : '/' ∉ text)
include hslash

theorem tagTurn_slashless (s : Tagging) : tagTurn n text true s = tagTurn n text false s := by
  rw [tagTurn, tagTurn]
  refine bind_congr fun i => ?_
  cases hrest : onward i text with
  | error e => rfl
  | ok rest =>
    rw [bind_ok, bind_ok]
    cases rest with
    | nil => rfl
    | cons x rest =>
      obtain ⟨c, hc, -, hx⟩ := exists_of_onward hrest
      have hne : (x == '/') = false := by
        refine beq_false_of_ne ?_
        rintro rfl
        refine hslash ?_
        rw [← hc, Cursor.text, hx]
        simp
      simp only [hne, Bool.and_false]

theorem nodes_slashless (t : DirectiveTable) (k : Nat) :
    nodes true n text t k = nodes false n text t k := by
  have htag : tag n text true = tag n text false := by
    funext i
    rw [tag, tag, funext (tagTurn_slashless (n := n) hslash)]
  induction k with
  | zero => rfl
  | succ k ih =>
    funext scope i
    rw [nodes, nodes, ih]
    congr 1
    funext s
    rw [nodesTurn, nodesTurn, htag]

end

theorem not_stalls {s : Source} (hslash : '/' ∉ s.text.toList) (t : DirectiveTable) :
    ¬ Stalls s t := by
  rintro ⟨n, hn⟩
  have hsettles := parse_settles false n s t
  rw [parse, ← nodes_slashless hslash, ← parse, hn] at hsettles
  rcases hsettles.value with h | h | ⟨h, -⟩ <;> cases h

end Templating.Offset
