import Templating.Unit.Line
import Templating.Proofs.Code.Balanced
import Templating.Proofs.Text.Split

/-! What lines do to a scan of the text they make: each line is scanned on its own, however deep it
is indented, and lines between braces are as balanced as the lines inside. -/
namespace Templating.Unit
open Code

/-! Texts woven of constants and balanced texts -/

def weave (a : String) : List String → List String → String
  | x :: xs, b :: bs => weave (a ++ x ++ b) xs bs
  | _, _ => a

def woven (e : List Char) : List String → List String → List Char
  | x :: xs, b :: bs => x.toList ++ (b.toList ++ woven e xs bs)
  | _, _ => e

theorem toList_weave (a : String) (xs bs : List String) (e : List Char) :
    (weave a xs bs).toList ++ e = a.toList ++ woven e xs bs := by
  induction xs generalizing a bs with
  | nil => rfl
  | cons x xs ih =>
    cases bs with
    | nil => rfl
    | cons b bs =>
      rw [weave, ih]
      simp [woven]

/-- A text that ends calmly and has no apostrophe, so that it looks at nothing behind it. -/
def firm (a : List Char) : Bool := a.getLast?.all calm && !a.contains '\''

/-- A text that nothing before it looks into; only the last one may be a single character. -/
def shut (last : Bool) : List Char → Bool
  | [] => false
  | [c] => calm c && last
  | c :: d :: _ => calm c && d != '\''

/-- The constants after a text are shut, and firm if another text follows. -/
def tight : List String → Bool
  | [] => true
  | b :: bs => (bs.isEmpty || firm b.toList) && shut bs.isEmpty b.toList && tight bs

def across (closers : List Char) (b : String) : Option (List Char) :=
  match State.run none [] ⟨0, .code, closers⟩ b.toList with
  | some ⟨0, .code, closers'⟩ => some closers'
  | _ => none

theorem takes_of_across {closers closers' : List Char} {b : String}
    (h : across closers b = some closers') :
    Takes (.code, closers) b.toList (.code, closers') := by
  unfold across at h
  split at h
  next hrun =>
    cases h
    exact hrun
  · cases h

theorem apart_of_firm {a : List Char} (h : firm a = true) (b : List Char) : Apart a b := by
  simp only [firm, Bool.and_eq_true, Bool.not_eq_true', List.contains_eq_mem,
    decide_eq_false_iff_not] at h
  obtain ⟨hlast, hquote⟩ := h
  rcases List.eq_nil_or_concat a with rfl | ⟨a, c, rfl⟩
  · exact ⟨fun _ _ => rfl, fun _ _ _ => rfl⟩
  · rw [List.concat_eq_append] at hlast hquote ⊢
    refine .of_calm (by simpa using hlast) fun _ ha => ?_
    exact hquote (List.mem_append_left _ (List.mem_of_getLast? ha))

theorem apart_of_shut (last : Bool) {b e : List Char} (h : shut last b = true)
    (he : last = true → e = [] ∨ e = ['\n']) (a : List Char) : Apart a (b ++ e) := by
  unfold shut at h
  split at h
  · cases h
  next c =>
    rw [Bool.and_eq_true] at h
    rcases he h.2 with rfl | rfl
    · exact .of_last h.1
    · exact .of_pair h.1 (by decide)
  next c d b =>
    rw [Bool.and_eq_true, bne_iff_ne] at h
    exact .of_pair h.1 h.2

section
variable {e : List Char} (he : e = [] ∨ e = ['\n'])
include he

theorem takes_woven {xs bs : List String} (hlen : xs.length = bs.length)
    (hx : ∀ x ∈ xs, Balanced x.toList) (hbs : tight bs = true) {closers closers' : List Char}
    (h : bs.foldlM across closers = some closers') :
    Takes (.code, closers) (woven e xs bs) (.code, closers') := by
  induction bs generalizing xs closers with
  | nil =>
    obtain rfl : xs = [] := List.length_eq_zero_iff.mp hlen
    obtain rfl := Option.some.inj h
    have hend : Balanced e := by rcases he with rfl | rfl <;> decide
    exact hend.takes closers
  | cons b bs ih =>
    obtain ⟨x, xs, rfl⟩ : ∃ x xs', xs = x :: xs' := List.exists_cons_of_length_eq_add_one hlen
    simp only [tight, Bool.and_eq_true] at hbs
    obtain ⟨⟨hfirm, hshut⟩, htight⟩ := hbs
    rw [List.foldlM_cons] at h
    obtain ⟨inner, hb, hrest⟩ := Option.bind_eq_some_iff.mp h
    have hx' : Takes (.code, closers) x.toList (.code, closers) :=
      (hx x List.mem_cons_self).takes closers
    have htail :=
      ih (by simpa using hlen) (fun y hy => hx y (List.mem_cons_of_mem x hy)) htight hrest
    have hapart : Apart b.toList (woven e xs bs) := by
      rw [Bool.or_eq_true, List.isEmpty_iff] at hfirm
      rcases hfirm with rfl | hfirm
      · cases xs <;> exact he.elim (· ▸ .nil _) (· ▸ .of_last (by decide))
      · exact apart_of_firm hfirm _
    have hbtail := (takes_of_across hb).append hapart htail
    refine hx'.append (apart_of_shut _ hshut (fun hlast => ?_) _) hbtail
    rw [List.isEmpty_iff.mp hlast]
    cases xs <;> exact he

end

def opens (closers : List Char) (a : String) (bs : List String) : Option (List Char) :=
  if firm a.toList && tight bs then (a :: bs).foldlM across closers else none

theorem takes_weave_append {a : String} {xs bs : List String} {closers closers' e : List Char}
    (hx : ∀ x ∈ xs, Balanced x.toList) (h : opens closers a bs = some closers')
      (hlen : xs.length = bs.length)
    (he : e = [] ∨ e = ['\n']) :
    Takes (.code, closers) ((weave a xs bs).toList ++ e) (.code, closers') := by
  unfold opens at h
  split at h
  next hfit =>
    rw [Bool.and_eq_true] at hfit
    rw [List.foldlM_cons] at h
    obtain ⟨inner, ha, hrest⟩ := Option.bind_eq_some_iff.mp h
    rw [toList_weave]
    exact (takes_of_across ha).append (apart_of_firm hfit.1 _) (takes_woven he hlen hx hfit.2 hrest)
  · cases h

/-- A line of constants with balanced texts between them, from the delimiters that are open before
it to those after it. -/
theorem takes_weave (closers : List Char) (a : String) (xs bs : List String) (closers' : List Char)
    (hx : ∀ x ∈ xs, Balanced x.toList) (h : opens closers a bs = some closers')
    (hlen : xs.length = bs.length) :
    Takes (.code, closers) ((weave a xs bs).toList ++ ['\n']) (.code, closers') :=
  takes_weave_append hx h hlen (.inr rfl)

theorem balanced_weave (a : String) (xs bs : List String) (hx : ∀ x ∈ xs, Balanced x.toList)
    (h : opens [] a bs = some [])
    (hlen : xs.length = bs.length) : Balanced (weave a xs bs).toList := by
  have hweave := takes_weave_append hx h hlen (.inl rfl)
  rwa [List.append_nil] at hweave

def divides (sep : String) : Bool :=
  shut false sep.toList && firm sep.toList && decide (Balanced sep.toList)

theorem balanced_beside {x y : String} (hx : Balanced x.toList) (sep : String)
    (hsep : divides sep = true) (hy : Balanced y.toList) : Balanced (x ++ sep ++ y).toList := by
  simp only [divides, Bool.and_eq_true, decide_eq_true_eq] at hsep
  obtain ⟨⟨hshut, hfirm⟩, hbalanced⟩ := hsep
  rw [String.toList_append, String.toList_append, List.append_assoc]
  exact hx.append (apart_of_shut false hshut (by simp) _)
    (hbalanced.append (apart_of_firm hfirm _) hy)

theorem balanced_join {sep : String} {parts : List String} (hfirm : firm sep.toList = true)
    (hsep : Balanced sep.toList) (hparts : ∀ x ∈ parts, Balanced x.toList)
    (hapart : ∀ x ∈ parts, ∀ r, Apart x.toList (sep.toList ++ r)) :
    Balanced (Text.join sep parts).toList := by
  induction parts with
  | nil =>
    rw [Text.join, String.intercalate_nil]
    decide
  | cons x parts ih =>
    have hx := hparts x List.mem_cons_self
    have hrest := ih (fun y hy => hparts y (List.mem_cons_of_mem x hy)) fun y hy =>
      hapart y (List.mem_cons_of_mem x hy)
    cases parts with
    | nil => simpa [Text.join, String.intercalate_singleton] using hx
    | cons y parts =>
      rw [Text.toList_join_cons]
      exact hx.append (hapart x List.mem_cons_self _) (hsep.append (apart_of_firm hfirm _) hrest)

/-! Lines -/

/-- The lines, each scanned on its own with its line end, take the first standing to the second. -/
inductive Goes : Standing → Lines → Standing → Prop
  | nil {s} : Goes s [] s
  | blank {s ls t} (h : Goes s ls t) : Goes s (.blank :: ls) t
  | text {s u t n x ls} (hx : Takes s (x.toList ++ ['\n']) u) (h : Goes u ls t) :
      Goes s (.text n x :: ls) t

/-- Lines that close what they open, and nothing else. -/
abbrev Whole (ls : Lines) : Prop := Goes (.code, []) ls (.code, [])

section
variable {s t u : Standing} {ls ls' : Lines}

theorem Goes.line {x : String} (h : Takes s (x.toList ++ ['\n']) t) : Goes s [.of x] t :=
  .text h .nil

theorem Goes.append (h : Goes s ls t) (h' : Goes t ls' u) : Goes s (ls ++ ls') u := by
  induction h with
  | nil => exact h'
  | blank _ ih => exact .blank (ih h')
  | text hx _ ih => exact .text hx (ih h')

theorem Goes.nest (h : Goes s ls t) : Goes s (Lines.nest ls) t := by
  induction h with
  | nil => exact .nil
  | blank _ ih => exact .blank ih
  | text hx _ ih => exact .text hx ih

theorem Goes.inside (h : Goes s ls t) (outer : List Char) :
    Goes (s.1, s.2 ++ outer) ls (t.1, t.2 ++ outer) := by
  induction h with
  | nil => exact .nil
  | blank _ ih => exact .blank ih
  | text hx _ ih => exact .text (hx.inside outer) ih

theorem Whole.cons {x : String} (hx : Takes (.code, []) (x.toList ++ ['\n']) (.code, []))
    (h : Whole ls) :
    Whole (.of x :: ls) := .text hx h

theorem Whole.nested (h : Whole ls) (closers : List Char) :
    Goes (.code, closers) (Lines.nest ls) (.code, closers) :=
  Goes.inside h.nest closers

theorem Whole.braced (closers : List Char) {head tail : String}
    (hhead : Takes (.code, []) ((head ++ " \x7b").toList ++ ['\n']) (.code, closers)) (h : Whole ls)
    (htail : Takes (.code, closers) (tail.toList ++ ['\n']) (.code, [])) :
    Whole (braced head ls tail) := by
  have hbody := h.nested closers
  exact .text hhead (hbody.append (.line htail))

theorem Whole.spaced {parts : List Lines} (h : ∀ ls ∈ parts, Whole ls) : Whole (spaced parts) := by
  induction parts with
  | nil => exact .nil
  | cons ls parts ih =>
    have hls := h ls List.mem_cons_self
    cases parts with
    | nil => exact hls
    | cons ls' parts => exact hls.append (.blank (ih fun m hm => h m (List.mem_cons_of_mem ls hm)))

theorem Whole.flatMap {α : Type} {xs : List α} {f : α → Lines} (h : ∀ x ∈ xs, Whole (f x)) :
    Whole (xs.flatMap f) := by
  induction xs with
  | nil => exact .nil
  | cons x xs ih =>
    have hx := h x List.mem_cons_self
    exact hx.append (ih fun y hy => h y (List.mem_cons_of_mem x hy))

end

/-! The text of lines -/

/-- The text of the line does not begin with an apostrophe, at which a scan of the
line before might look. -/
def Line.Clear : Line → Prop
  | .blank => True
  | .text n x => n = 0 → x.toList.head? ≠ some '\''

def Clear (ls : Lines) : Prop := ∀ l ∈ ls, l.Clear

section
variable {ls ls' : Lines}

theorem clear_nil : Clear [] := fun _ h => by cases h

theorem Clear.cons {l : Line} (hl : l.Clear) (h : Clear ls) : Clear (l :: ls) := by
  intro m hm
  rcases List.mem_cons.mp hm with rfl | hm
  · exact hl
  · exact h m hm

theorem Clear.append (h : Clear ls) (h' : Clear ls') : Clear (ls ++ ls') := by
  intro l hl
  rcases List.mem_append.mp hl with hl | hl
  · exact h l hl
  · exact h' l hl

theorem clear_of {x : String} (h : x.toList.head? ≠ some '\'') : (Line.of x).Clear := fun _ => h

theorem clear_nest (ls : Lines) : Clear (Lines.nest ls) := by
  intro l hl
  obtain ⟨m, -, rfl⟩ := List.mem_map.mp hl
  cases m with
  | blank => trivial
  | text n x => exact fun h => absurd h (Nat.succ_ne_zero n)

theorem clear_braced {head tail : String} (hhead : head.toList.head? ≠ some '\'')
    (htail : tail.toList.head? ≠ some '\'') (ls : Lines) : Clear (braced head ls tail) := by
  have hfirst : (head ++ " \x7b").toList.head? ≠ some '\'' := by
    rw [String.toList_append]
    cases hh : head.toList with
    | nil => decide
    | cons c cs => simpa [hh] using hhead
  exact .cons (clear_of hfirst) ((clear_nest ls).append (.cons (clear_of htail) clear_nil))

theorem clear_spaced {parts : List Lines} (h : ∀ ls ∈ parts, Clear ls) : Clear (spaced parts) := by
  induction parts with
  | nil => exact clear_nil
  | cons ls parts ih =>
    have hls := h ls List.mem_cons_self
    cases parts with
    | nil => exact hls
    | cons ls' parts =>
      exact hls.append (.cons trivial (ih fun m hm => h m (List.mem_cons_of_mem ls hm)))

end

theorem toList_render_cons (l : Line) (ls : Lines) :
    (Lines.render (l :: ls)).toList = l.render.toList ++ (Lines.render ls).toList := by
  simp [Lines.render, String.join_cons]

def indentation (n : Nat) : List Char := (String.join (List.replicate n Line.indent)).toList

theorem indentation_blank (n : Nat) : ∀ c ∈ indentation n, Text.isBlank c = true := by
  unfold indentation
  induction n with
  | zero => simp
  | succ n ih =>
    intro c hc
    simp only [List.replicate_succ, String.join_cons, String.toList_append, List.mem_append] at hc
    rcases hc with hc | hc
    · have hindent : ∀ c ∈ Line.indent.toList, Text.isBlank c = true := by decide
      exact hindent c hc
    · exact ih c hc

theorem exists_indentation {n : Nat} (hn : n ≠ 0) : ∃ r, indentation n = ' ' :: r := by
  obtain ⟨n, rfl⟩ := Nat.exists_eq_succ_of_ne_zero hn
  refine ⟨[' ', ' ', ' '] ++ indentation n, ?_⟩
  rw [indentation, List.replicate_succ, String.join_cons, String.toList_append]
  rfl

theorem toList_render_text (n : Nat) (x : String) :
    (Line.text n x).render.toList = indentation n ++ (x.toList ++ ['\n']) := by
  simp [Line.render, indentation]

theorem rests_of_line {s t : Standing} {x : List Char} (h : Takes s (x ++ ['\n']) t) :
    t.1.Rests := by
  unfold Takes at h
  rw [State.run_append] at h
  obtain ⟨⟨k, mode, closers⟩, hx, hend⟩ := Option.bind_eq_some_iff.mp h
  have hmild : Mild ['\n'] := mild_cons.mpr (by decide)
  rw [List.append_nil, hmild.run (by simp)] at hx
  obtain rfl : k = 0 := State.skip_of_run hx (Nat.zero_le _)
  have hblank : ∀ c ∈ ['\n'], Text.isBlank c = true := by decide
  rw [run_blanks hblank] at hend
  obtain ⟨hmode, -⟩ : mode.past '\n' = t.1 ∧ _ := by simpa using hend
  rw [← hmode]
  exact mode.rests_settled

theorem head?_render_ne {ls : Lines} (h : Clear ls) :
    (Lines.render ls).toList.head? ≠ some '\'' := by
  cases ls with
  | nil => decide
  | cons l ls =>
    rw [toList_render_cons]
    cases l with
    | blank =>
      show ('\n' :: _).head? ≠ _
      simp
    | text n x =>
      rw [toList_render_text]
      by_cases hn : n = 0
      · subst hn
        have hx := h _ List.mem_cons_self rfl
        show (x.toList ++ ['\n'] ++ _).head? ≠ _
        cases hx' : x.toList with
        | nil => simp
        | cons c cs => simpa [hx'] using hx
      · obtain ⟨r, hr⟩ := exists_indentation hn
        simp [hr]

theorem Goes.takes {s t : Standing} {ls : Lines} (h : Goes s ls t) (hs : s.1.Rests)
    (hclear : Clear ls) :
    Takes s (Lines.render ls).toList t := by
  induction h with
  | nil => exact takes_nil _
  | @blank s ls t h ih =>
    have hrest := ih hs fun l hl => hclear l (List.mem_cons_of_mem _ hl)
    rw [toList_render_cons]
    have hblank : Takes s ['\n'] s := by
      have hrun := run_blanks (b := ['\n']) (by decide) s.1 s.2 none []
      rwa [hs.foldl] at hrun
    exact hblank.append (.of_calm (a := []) (by decide) (by simp)) hrest
  | @text s u t n x ls hx h ih =>
    have hls : Clear ls := fun l hl => hclear l (List.mem_cons_of_mem _ hl)
    have hrest := ih (rests_of_line hx) hls
    rw [toList_render_cons, toList_render_text]
    have hline : Takes s (indentation n ++ (x.toList ++ ['\n'])) u := by
      unfold Takes
      rw [run_lead (indentation_blank n) hs _ rfl]
      exact hx
    rw [← List.append_assoc] at hline ⊢
    exact hline.append (.of_calm (by decide) fun hquote =>
      absurd hquote (head?_render_ne hls)) hrest

end Templating.Unit
