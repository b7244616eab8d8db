import Mathlib.Data.List.DropRight
import Templating.Proofs.Code.Outline
import Templating.Proofs.Unit.Layout

/-! Embedded code as one text: white space with line ends in it becomes as many line ends and the
indentation of the last line, and all other text stays as it is. -/
namespace Templating.Unit
open Code (Spacious)
open Text (isBlank allBlank byteSize)

/-- What becomes of `k` line ends with the blanks `a` behind them, before a character. -/
def respaced (n m k : Nat) (a : List Char) : List Char :=
  if k = 0 then a else List.replicate k '\n' ++ (indentation n ++ outdent m a)

/-- What becomes of a text at a depth and without a margin, behind `k` line ends and the blanks `a`.
White space at its end is left out. -/
def relaid (n m : Nat) : Nat → List Char → List Char → List Char
  | _, _, [] => []
  | k, a, c :: cs =>
    if c = '\n' then relaid n m (k + 1) [] cs
    else if isBlank c then relaid n m k (a ++ [c]) cs
    else respaced n m k a ++ c :: relaid n m 0 [] cs

def laidOut (n m : Nat) (u : List Char) : List Char := relaid n m 0 [] u

section
variable {n m k : Nat} {a b u v w cs rest : List Char} {c : Char}

theorem ne_feed_of_not_blank (hc : isBlank c = false) : c ≠ '\n' := by
  rintro rfl
  cases hc

/-! Reading on -/

theorem relaid_feed (n m k : Nat) (a cs : List Char) :
    relaid n m k a ('\n' :: cs) = relaid n m (k + 1) [] cs := by
  rw [relaid, if_pos rfl]

theorem relaid_solid (hc : isBlank c = false) (n m k : Nat) (a cs : List Char) :
    relaid n m k a (c :: cs) = respaced n m k a ++ c :: relaid n m 0 [] cs := by
  rw [relaid, if_neg (ne_feed_of_not_blank hc), hc, if_neg Bool.false_ne_true]

theorem relaid_blanks (hb : ∀ c ∈ b, isBlank c = true) (hfeed : '\n' ∉ b) :
    relaid n m k a (b ++ cs) = relaid n m k (a ++ b) cs := by
  induction b generalizing a with
  | nil => rw [List.append_nil, List.nil_append]
  | cons c b ih =>
    have hc : c ≠ '\n' := fun h => hfeed (h ▸ List.mem_cons_self)
    rw [List.cons_append, relaid, if_neg hc, if_pos (hb c List.mem_cons_self),
      ih (fun e he => hb e (List.mem_cons_of_mem c he)) fun h => hfeed (List.mem_cons_of_mem c h),
        List.append_assoc,
      List.singleton_append]

theorem relaid_allBlank (h : ∀ c ∈ cs, isBlank c = true) : relaid n m k a cs = [] := by
  induction cs generalizing k a with
  | nil => rfl
  | cons c cs ih =>
    have hcs := fun e he => h e (List.mem_cons_of_mem c he)
    rw [relaid, if_pos (h c List.mem_cons_self)]
    split
    · exact ih hcs
    · exact ih hcs

theorem relaid_append (hc : isBlank c = false) (k : Nat) (a u v : List Char) :
    relaid n m k a (u ++ c :: v) = relaid n m k a (u ++ [c]) ++ relaid n m 0 [] v := by
  induction u generalizing k a with
  | nil =>
    rw [List.nil_append, List.nil_append, relaid_solid hc, relaid_solid hc, List.append_assoc]; rfl
  | cons e u ih =>
    simp only [List.cons_append, relaid, ih]
    split
    · rfl
    · split
      · rfl
      · rw [List.append_assoc, List.cons_append]

theorem exists_relaid_concat (hc : isBlank c = false) (k : Nat) (a u : List Char) :
    ∃ v, relaid n m k a (u ++ [c]) = v ++ [c] := by
  induction u generalizing k a with
  | nil => exact ⟨_, relaid_solid hc n m k a []⟩
  | cons e u ih =>
    rw [List.cons_append, relaid]
    split
    · exact ih (k + 1) []
    · split
      · exact ih k (a ++ [e])
      · obtain ⟨v, hv⟩ := ih 0 []
        exact ⟨respaced n m k a ++ e :: v, by rw [hv, List.append_assoc, List.cons_append]⟩

theorem relaid_line (hc : isBlank c = false) (hfeed : '\n' ∉ w ++ [c]) :
    relaid n m 0 a (w ++ [c]) = a ++ (w ++ [c]) := by
  induction w generalizing a with
  | nil => rw [List.nil_append, relaid_solid hc, respaced, if_pos rfl, relaid]
  | cons e w ih =>
    simp only [List.cons_append, List.mem_cons, not_or] at hfeed
    rw [List.cons_append, relaid, if_neg (Ne.symm hfeed.1), ih hfeed.2, ih hfeed.2]
    split
    · rw [List.append_assoc, List.singleton_append]
    · rw [respaced, if_pos rfl, List.nil_append]

/-! White space -/

theorem outdent_subset (n : Nat) (l : List Char) : outdent n l ⊆ l := by
  unfold outdent
  split
  next h =>
    obtain ⟨rfl, -⟩ := Text.append_of_cutAt? h
    exact List.subset_append_right _ _
  · exact (List.dropWhile_suffix isBlank).subset

theorem respaced_blank (ha : ∀ c ∈ a, isBlank c = true) :
    ∀ c ∈ respaced n m k a, isBlank c = true := by
  intro c hc
  unfold respaced at hc
  split at hc
  · exact ha c hc
  · simp only [List.mem_append, List.mem_replicate] at hc
    rcases hc with ⟨-, rfl⟩ | hc | hc
    · decide
    · exact indentation_blank n c hc
    · exact ha c (outdent_subset m a hc)

theorem respaced_eq_nil_iff : respaced n m k a = [] ↔ k = 0 ∧ a = [] := by
  unfold respaced
  split
  · simp [*]
  · simp [*]

theorem exists_read (hb : ∀ c ∈ b, isBlank c = true) (ha : ∀ c ∈ a, isBlank c = true)
    (n m k : Nat) :
    ∃ k' a', (∀ c ∈ a', isBlank c = true) ∧ ('\n' ∉ b ∧ k' = k ∧ a' = a ++ b ∨ '\n' ∈ b ∧ k < k') ∧
      ∀ cs, relaid n m k a (b ++ cs) = relaid n m k' a' cs := by
  induction b generalizing k a with
  | nil => exact ⟨k, a, ha, by simp, fun cs => rfl⟩
  | cons c b ih =>
    have hb' := fun e he => hb e (List.mem_cons_of_mem c he)
    by_cases hfeed : c = '\n'
    · subst hfeed
      obtain ⟨k', a', hblank, hread, heq⟩ := ih hb' (a := []) (by simp) (k + 1)
      refine ⟨k', a', hblank, .inr ⟨List.mem_cons_self, by omega⟩, fun cs => ?_⟩
      rw [List.cons_append, relaid_feed, heq]
    · have hac : ∀ e ∈ a ++ [c], isBlank e = true := by simpa [hb c, or_imp, forall_and] using ha
      obtain ⟨k', a', hblank, hread, heq⟩ := ih hb' hac k
      refine ⟨k', a', hblank, by simpa [Ne.symm hfeed] using hread, fun cs => ?_⟩
      rw [List.cons_append, relaid, if_neg hfeed, if_pos (hb c List.mem_cons_self), heq]

theorem relaid_front (hc : isBlank c = false) (k : Nat) (a cs : List Char) :
    relaid n m k a (c :: cs) = respaced n m k a ++ relaid n m 0 [] (c :: cs) := by
  rw [relaid_solid hc, relaid_solid hc n m 0, respaced, respaced, if_pos rfl, List.nil_append]

theorem exists_front (hb : ∀ c ∈ b, isBlank c = true) (hc : isBlank c = false) (n m k : Nat)
    (cs : List Char) :
    ∃ d, (∀ c ∈ d, isBlank c = true) ∧
      (k = 0 ∧ '\n' ∉ b ∧ d = b ∨ (k ≠ 0 ∨ '\n' ∈ b) ∧ ∃ t, d = '\n' :: t ∧ (t = [] → n = 0)) ∧
      relaid n m k [] (b ++ c :: cs) = d ++ laidOut n m (c :: cs) := by
  obtain ⟨k', a, ha, hread, hfront⟩ := exists_read hb (a := []) (by simp) n m k
  refine ⟨respaced n m k' a, respaced_blank ha, ?_, by rw [hfront, relaid_front hc, laidOut]⟩
  have hsome : k' ≠ 0 → ∃ t, respaced n m k' a = '\n' :: t ∧ (t = [] → n = 0) := by
    intro hk
    obtain ⟨k', rfl⟩ := Nat.exists_eq_succ_of_ne_zero hk
    refine ⟨List.replicate k' '\n' ++ (indentation n ++ outdent m a), ?_, fun hnil => ?_⟩
    · rw [respaced, if_neg (Nat.succ_ne_zero k'), List.replicate_succ, List.cons_append]
    · by_contra hn
      obtain ⟨r, hr⟩ := exists_indentation hn
      simp [hr] at hnil
  rcases hread with ⟨hfeed, rfl, rfl⟩ | ⟨hfeed, hk⟩
  · by_cases hk : k' = 0
    · exact .inl ⟨hk, hfeed, if_pos hk⟩
    · exact .inr ⟨.inl hk, hsome hk⟩
  · exact .inr ⟨.inr hfeed, hsome (by omega)⟩

/-- What does not depend on how much white space there is where there is some stays true of a text
that is laid out afresh. -/
theorem spacious_relaid {P : List Char → Prop} (hP : Spacious P) (hc : isBlank c = false)
    {x : List Char} (hb : ∀ c ∈ b, isBlank c = true) (ha : ∀ c ∈ a, isBlank c = true)
      (hnil : k = 0 ∧ a = [] ↔ b = [])
    (h : P (x ++ (b ++ (u ++ [c])))) : P (x ++ relaid n m k a (u ++ [c])) := by
  -- `b` is the white space that was read and is not laid out yet, and `x` is laid out
  have hspace : ∀ {x y b a : List Char} {k : Nat}, (∀ c ∈ b, isBlank c = true) →
    (∀ c ∈ a, isBlank c = true) →
      (k = 0 ∧ a = [] ↔ b = []) → P (x ++ (b ++ y)) → P (x ++ (respaced n m k a ++ y)) := by
    intro x y b a k hb ha hnil h
    rw [← respaced_eq_nil_iff (n := n) (m := m)] at hnil
    by_cases hne : b = []
    · rwa [hnil.mpr hne, ← hne]
    · exact hP ⟨hne, hb⟩ ⟨mt hnil.mp hne, respaced_blank ha⟩ h
  induction u generalizing x b a k with
  | nil => exact relaid_solid hc n m k a [] ▸ hspace hb ha hnil h
  | cons e u ih =>
    cases he : isBlank e with
    | true =>
      have hbe : ∀ c ∈ b ++ [e], isBlank c = true := by simpa [he, or_imp, forall_and] using hb
      have hae : ∀ c ∈ a ++ [e], isBlank c = true := by simpa [he, or_imp, forall_and] using ha
      have hread : P (x ++ ((b ++ [e]) ++ (u ++ [c]))) := by simpa using h
      rw [List.cons_append, relaid]
      split
      · exact ih hbe (by simp) (by simp) hread
      · exact ih hbe hae (by simp) hread
    | false =>
      have hlaid := hspace hb ha hnil h
      rw [← List.append_assoc, List.cons_append, ← List.singleton_append, ← List.append_assoc]
        at hlaid
      have hrest := ih (b := []) (a := []) (k := 0) (by simp) (by simp) (by simp) hlaid
      rw [List.cons_append, relaid_solid he]
      simpa using hrest

theorem spacious_laidOut {P : List Char → Prop} (hP : Spacious P) (hc : isBlank c = false)
    (h : P (u ++ [c])) :
    P (laidOut n m (u ++ [c])) :=
  spacious_relaid (x := []) (b := []) hP hc (by simp) (by simp) (by simp) h

/-! Lines -/

theorem relaid_endsLine {e : List Char} (hb : ∀ c ∈ b, isBlank c = true) (hfeed : '\n' ∉ b)
    (he : Text.EndsLine e rest)
    (hrest : rest ≠ []) : relaid n m k a (b ++ (e ++ rest)) = relaid n m (k + 1) [] rest := by
  rcases he with rfl | rfl | ⟨-, rfl⟩
  · rw [relaid_blanks hb hfeed, List.singleton_append, relaid_feed]
  · have hreturn : ∀ c ∈ ['\r'], isBlank c = true := by decide
    rw [relaid_blanks hb hfeed, show ['\r', '\n'] ++ rest = ['\r'] ++ '\n' :: rest from rfl,
      relaid_blanks hreturn (by decide), relaid_feed]
  · exact absurd rfl hrest

theorem cutAt?_append {m : Nat} {a : List Char} (h : m ≤ byteSize a) (x : List Char) :
    Text.cutAt? m (a ++ x) = (Text.cutAt? m a).map fun (p, r) => (p, r ++ x) := by
  induction a generalizing m with
  | nil =>
    obtain rfl : m = 0 := Nat.le_zero.mp h
    rw [List.nil_append]
    cases x <;> rfl
  | cons c a ih =>
    cases m with
    | zero => rfl
    | succ m =>
      rw [List.cons_append, Text.cutAt?, Text.cutAt?]
      split
      · rfl
      · rw [byteSize] at h
        rw [ih (by omega)]
        cases Text.cutAt? (m + 1 - c.utf8Size) a <;> rfl

theorem outdent_append (ha : ∀ c ∈ a, isBlank c = true) (hc : isBlank c = false)
    (h : m ≤ byteSize a) (x : List Char) :
    outdent m (a ++ c :: x) = outdent m a ++ c :: x := by
  rw [outdent, outdent, cutAt?_append h]
  cases hcut : Text.cutAt? m a with
  | some p => rfl
  | none =>
    simp only [Option.map_none, Text.trimStart]
    rw [List.dropWhile_append_of_pos ha, List.dropWhile_cons_of_neg (by simp [hc]),
      List.dropWhile_eq_nil_iff.mpr ha, List.nil_append]

def drawn (n m : Nat) (ls : List (List Char)) : List Char :=
  (Lines.render (Lines.nest^[n] (ls.map (laid m)))).toList

theorem drawn_nil (n m : Nat) : drawn n m [] = [] :=
  congrArg (fun ls => (Lines.render ls).toList) (Function.iterate_fixed rfl n)

theorem drawn_cons (n m : Nat) (l : List Char) (ls : List (List Char)) :
    drawn n m (l :: ls) = (Line.deeper^[n] (laid m l)).render.toList ++ drawn n m ls := by
  have hnest : ∀ ls : Lines, Lines.nest^[n] ls = ls.map Line.deeper^[n] := by
    intro ls
    induction n with
    | zero => simp
    | succ n ih =>
      rw [Function.iterate_succ_apply', ih, Lines.nest, List.map_map, ← Function.iterate_succ']
  rw [drawn, drawn, hnest, hnest, List.map_cons, List.map_cons, toList_render_cons]

theorem drawn_blank {l : List Char} (hl : allBlank l = true) (n m : Nat) (ls : List (List Char)) :
    drawn n m (l :: ls) = '\n' :: drawn n m ls := by
  have hblank : Line.deeper^[n] .blank = .blank := Function.iterate_fixed rfl n
  rw [drawn_cons, laid, if_pos hl, hblank]
  rfl

theorem drawn_text {l : List Char} (hl : allBlank l = false) (n m : Nat) (ls : List (List Char)) :
    drawn n m (l :: ls) = indentation n ++
      (Text.trimEnd (outdent m l) ++ '\n' :: drawn n m ls) := by
  have htext : ∀ x, Line.deeper^[n] (.of x) = .text n x := by
    intro x
    induction n with
    | zero => rfl
    | succ n ih => rw [Function.iterate_succ_apply', ih, Line.deeper]
  rw [drawn_cons, laid, hl, if_neg Bool.false_ne_true, htext, toList_render_text,
    String.toList_ofList]
  simp

theorem rdropWhile_cons {l : List Char} {ls : List (List Char)}
    (h : ¬ ∀ x ∈ l :: ls, allBlank x = true) :
    (l :: ls).rdropWhile allBlank = l :: ls.rdropWhile allBlank := by
  rw [List.rdropWhile, List.reverse_cons, List.dropWhile_append]
  split
  next hnil =>
    have hls : ∀ x ∈ ls, allBlank x = true := by
      simpa [List.dropWhile_eq_nil_iff] using hnil
    have hl : ¬ allBlank l = true := fun hl => h (List.forall_mem_cons.mpr ⟨hl, hls⟩)
    rw [List.dropWhile_cons_of_neg hl, List.rdropWhile_eq_nil_iff.mpr hls]
    rfl
  · simp [List.rdropWhile]

theorem margin_append (ha : ∀ c ∈ a, isBlank c = true) (hc : isBlank c = false) (r : List Char) :
    margin (a ++ c :: r) = byteSize a := by
  rw [margin, List.takeWhile_append_of_pos ha, List.takeWhile_cons_of_neg (by simp [hc]),
    List.append_nil]

theorem exists_relaid_line {l : List Char} (hl : allBlank l = false) (hfeed : '\n' ∉ l)
    (hm : m ≤ margin l) (n : Nat) :
    ∃ b, (∀ c ∈ b, isBlank c = true) ∧ '\n' ∉ b ∧
      ∀ k rest, relaid n m (k + 1) [] (l ++ rest) = List.replicate (k + 1) '\n' ++
        (indentation n ++ (Text.trimEnd (outdent m l) ++ relaid n m 0 [] (b ++ rest))) := by
  obtain ⟨a, c, r, rfl, ha, hc⟩ := Text.exists_first hl
  have hsolid : allBlank (c :: r) = false := by simp [allBlank, hc]
  obtain ⟨u, f, b, hr, hf, hb⟩ := Text.exists_last hsolid
  have hle : m ≤ byteSize a := margin_append ha hc r ▸ hm
  rw [hr] at hfeed
  simp only [List.mem_append, List.mem_cons, not_or] at hfeed
  have hline : '\n' ∉ u ++ [f] := by simpa using ⟨hfeed.2.1, hfeed.2.2.1⟩
  have hcut : Text.trimEnd (outdent m (a ++ c :: r)) = outdent m a ++ (u ++ [f]) := by
    rw [outdent_append ha hc hle, hr, ← List.append_assoc (outdent m a), Text.trimEnd_append hf hb,
      List.append_assoc]
  refine ⟨b, hb, hfeed.2.2.2, fun k rest => ?_⟩
  calc relaid n m (k + 1) [] (a ++ c :: r ++ rest)
    _ = respaced n m (k + 1) a ++ relaid n m 0 [] (c :: r ++ rest) := by
      rw [List.append_assoc, relaid_blanks ha hfeed.1, List.nil_append, List.cons_append,
        relaid_front hc]
    _ = respaced n m (k + 1) a ++ ((u ++ [f]) ++ relaid n m 0 [] (b ++ rest)) := by
      rw [hr, List.append_assoc, List.cons_append, relaid_append hf, relaid_line hf hline,
        List.nil_append]
    _ = _ := by
      rw [hcut, respaced, if_neg (Nat.succ_ne_zero k)]
      simp

theorem relaid_lines (hm : ∀ l ∈ Text.lines cs, allBlank l = false → m ≤ margin l)
    (hcs : allBlank cs = false) (k : Nat) :
    relaid n m (k + 1) [] cs ++ ['\n'] = List.replicate (k + 1) '\n' ++
      drawn n m ((Text.lines cs).rdropWhile allBlank) := by
  induction hlength : cs.length using Nat.strongRecOn generalizing cs k with
  | ind size ih =>
    have hne : cs ≠ [] := by
      rintro rfl
      cases hcs
    obtain ⟨l, e, rest, rfl, he, hlines⟩ := Text.exists_lines hne
    have hless := hlength ▸ he.length_lt hne
    have hfeed : '\n' ∉ l := Text.feed_not_mem_of_lines (hlines ▸ List.mem_cons_self)
    have hmargin : ∀ l ∈ Text.lines rest, allBlank l = false → m ≤ margin l := fun x hx =>
      hm x (hlines ▸ List.mem_cons_of_mem l hx)
    have hkept : (l :: Text.lines rest).rdropWhile allBlank =
        l :: (Text.lines rest).rdropWhile allBlank := by
      refine rdropWhile_cons fun h => ?_
      rw [← hlines, ← Text.allBlank_iff_lines, hcs] at h
      cases h
    rw [hlines, hkept]
    cases hl : allBlank l with
    | true =>
      have hrest : allBlank rest = false := by
        have hend : e.all isBlank = true := List.all_eq_true.mpr he.blank
        unfold allBlank at hl hcs ⊢
        simpa [hl, hend] using hcs
      have hrest' : rest ≠ [] := by
        rintro rfl
        cases hrest
      rw [relaid_endsLine (List.all_eq_true.mp hl) hfeed he hrest',
        ih rest.length hless hmargin hrest (k + 1) rfl, drawn_blank hl,
        List.replicate_succ']
      simp
    | false =>
      -- behind the line, there is another one that is not blank, or nothing but white space
      have hbehind : ∀ {b : List Char}, (∀ c ∈ b, isBlank c = true) → '\n' ∉ b →
          relaid n m 0 [] (b ++ (e ++ rest)) ++ ['\n'] =
            '\n' :: drawn n m ((Text.lines rest).rdropWhile allBlank) := by
        intro b hb hb'
        cases hrest : allBlank rest with
        | true =>
          have hall : ∀ c ∈ b ++ (e ++ rest), isBlank c = true := by
            simpa [or_imp, forall_and] using ⟨hb, he.blank, List.all_eq_true.mp hrest⟩
          rw [List.rdropWhile_eq_nil_iff.mpr ((Text.allBlank_iff_lines rest).mp hrest),
            relaid_allBlank hall, drawn_nil]
          rfl
        | false =>
          have hrest' : rest ≠ [] := by
            rintro rfl
            cases hrest
          rw [relaid_endsLine hb hb' he hrest', ih rest.length hless hmargin hrest 0 rfl]
          rfl
      obtain ⟨b, hb, hb', hline⟩ :=
        exists_relaid_line hl hfeed (hm l (hlines ▸ List.mem_cons_self) hl) n
      rw [hline, drawn_text hl, ← hbehind hb hb']
      simp

theorem drawn_of_allBlank (hcs : allBlank cs = true) :
    drawn n m (Text.dropBlankEnds (Text.lines cs)) = [] := by
  have hlines := (Text.allBlank_iff_lines cs).mp hcs
  rw [Text.dropBlankEnds, List.dropWhile_eq_nil_iff.mpr hlines]
  exact drawn_nil n m

theorem exists_drawn (hm : ∀ l ∈ Text.lines (b ++ c :: cs), allBlank l = false → m ≤ margin l)
    (hb : ∀ c ∈ b, isBlank c = true) (hc : isBlank c = false) : ∃ h, (∀ c ∈ h, isBlank c = true) ∧
      drawn n m (Text.dropBlankEnds (Text.lines (b ++ c :: cs))) =
        h ++ (laidOut n m (c :: cs) ++ ['\n']) := by
  induction hlength : b.length using Nat.strongRecOn generalizing b with
  | ind size ih =>
    have hall : allBlank (b ++ c :: cs) = false := by simp [allBlank, hc]
    obtain ⟨l, e, rest, hsplit, he, hlines⟩ :=
      Text.exists_lines (List.append_ne_nil_of_right_ne_nil b (List.cons_ne_nil c cs))
    cases hl : allBlank l with
    | true =>
      have hfront : ∀ x ∈ l ++ e, isBlank x = true := by
        simpa [or_imp, forall_and] using ⟨List.all_eq_true.mp hl, he.blank⟩
      have hjoined : l ++ e ++ rest = b ++ c :: cs := by rw [hsplit, List.append_assoc]
      obtain ⟨b', rfl, rfl⟩ := Text.exists_of_blanks_append hfront hc hjoined
      have hless : b'.length < size := by
        have hlt := he.length_lt (l := l) (by simp)
        simp only [List.length_append, List.length_cons] at hlt hlength
        omega
      have hdrop : Text.dropBlankEnds (Text.lines (l ++ e ++ b' ++ c :: cs)) =
          Text.dropBlankEnds (Text.lines (b' ++ c :: cs)) := by
        rw [hlines, Text.dropBlankEnds, List.dropWhile_cons_of_pos hl]
        rfl
      rw [hdrop]
      exact ih b'.length hless (fun x hx => hm x (hlines ▸ List.mem_cons_of_mem l hx)) (fun x hx =>
        hb x (List.mem_append_right _ hx)) rfl
    | false =>
      have hkept : Text.dropBlankEnds (Text.lines (b ++ c :: cs)) =
          (Text.lines (b ++ c :: cs)).rdropWhile allBlank := by
        rw [hlines, Text.dropBlankEnds, List.dropWhile_cons_of_neg (by simp [hl])]
        rfl
      -- behind a line end the text is laid out in the same way, but for that line end
      obtain ⟨d, hd, hread, hfront⟩ := exists_front hb hc n m 1 cs
      obtain ⟨h, rfl, -⟩ : ∃ t, d = '\n' :: t ∧ (t = [] → n = 0) := by simpa using hread
      have htext := relaid_lines (n := n) hm hall 0
      rw [hfront, ← hkept] at htext
      refine ⟨h, fun c hc => hd c (List.mem_cons_of_mem _ hc), ?_⟩
      simpa using (List.cons.inj htext).2.symm

end
end Templating.Unit
