import Templating.Proofs.Code.Extent
import Templating.Proofs.Page.Comment

/-! Lines of text and lines that a directive has to itself. The page shows the text with its line
ends, and nothing of the directives. -/
namespace Templating.Page
open Markup
open Text (Cursor WholeName isAlphanumeric isBlank isPad leadingName)
open Text.Cursor

/-- A line of text, or a directive by itself; the one with code in it may go over several lines. -/
inductive Line where
  | plain (cs : List Char)
  | directive (pads : List Char) (d : Directive) (behind : List Char)
  | functions (pads gap code tail : List Char)

namespace Line

def text : Line → List Char
  | plain cs => cs
  | directive pads d behind => pads ++ '@' :: (d.keyword.toList ++ behind)
  | functions pads gap code tail =>
    pads ++ '@' :: ("functions".toList ++ (gap ++ '\x7b' :: (code ++ '\x7d' :: tail)))

def kept : Line → List Char → List Char
  | plain cs, ending => cs ++ ending
  | _, _ => []

/-- What may stand on a line. Behind a directive's keyword that is anything, whether or not the
directive takes it. -/
inductive Stands : Line → Prop
  | plain {cs : List Char} (hcs : ∀ c ∈ cs, c ≠ '@' ∧ c ≠ '<' ∧ c ≠ '\n') : Stands (.plain cs)
  | directive {pads behind : List Char} {d : Directive} (hpads : ∀ c ∈ pads, isPad c = true)
      (hd : d ∈ DirectiveTable.standard.directives) (hkind : d.kind = .line) (hline : '\n' ∉ behind)
      (hbehind : ∀ c ∈ behind.head?, isBlank c = true) : Stands (.directive pads d behind)
  | functions {pads gap code tail : List Char} (hpads : ∀ c ∈ pads, isPad c = true)
      (hgap : ∀ c ∈ gap, isBlank c = true)
      (hcode : Code.scan (.closer '\x7d') (some '\x7b') (code ++ ['\x7d']) = .ok code)
      (htail : ∀ c ∈ tail, isBlank c = true ∧ c ≠ '\n') : Stands (.functions pads gap code tail)

end Line

/-- What ends a line in front of others. -/
def ending (ls : List Line) : List Char := if ls.isEmpty then [] else ['\n']

def joined : List Line → List Char
  | [] => []
  | l :: ls => l.text ++ (ending ls ++ joined ls)

def plainly : List Line → List Char
  | [] => []
  | l :: ls => l.kept (ending ls) ++ plainly ls

/-! The table -/

section
variable {t : DirectiveTable} {d : Directive} {mark stop : Cursor}
  {behind tail e gap code : List Char} {n : Nat}

theorem standard_keyword :
    ∀ d ∈ DirectiveTable.standard.directives, DirectiveTable.standard.get? d.keyword = some d ∧
    leadingName d.keyword.toList = d.keyword.toList ∧ d.keyword.toList ≠ [] ∧
    d.keyword ∉ ["if", "for", "while", "match"] := by
  decide +kernel

theorem not_insideWord (h : ∀ c ∈ mark.before.head?, isAlphanumeric c = false) (x : Char) :
    insideWord mark x = false := by
  rw [insideWord]
  cases hbefore : mark.before.head? with
  | none => simp
  | some c => simp [h c hbefore]

theorem announced_directive (hd : d ∈ DirectiveTable.standard.directives)
    (hrest : mark.rest = '@' :: (d.keyword.toList ++ behind))
    (hbefore : ∀ c ∈ mark.before.head?, isAlphanumeric c = false)
    (hbehind : boundary d behind = true) :
    announced .standard mark = .directive d := by
  obtain ⟨hget, hname, hne, hcontrol⟩ := standard_keyword d hd
  have hwhole : WholeName d.keyword.toList behind := by
    have hnamed : WholeName (leadingName d.keyword.toList) _ :=
      Text.wholeName_leadingName (by rwa [hname])
    rw [hname] at hnamed
    refine ⟨hnamed.name, fun c hc => ?_⟩
    obtain ⟨r, rfl⟩ := List.head?_eq_some_iff.mp hc
    simp only [boundary, Bool.or_eq_true, Bool.and_eq_true, beq_iff_eq] at hbehind
    rcases hbehind with hblank | ⟨rfl, -⟩
    · exact Text.not_continuesName_of_isBlank hblank
    · decide
  obtain ⟨x, w, hkeyword, hx, -⟩ := hwhole.name
  have hleading := hwhole.leadingName
  have hdrop : (d.keyword.toList ++ behind).drop d.keyword.toList.length = behind := List.drop_left
  have hof : String.ofList d.keyword.toList = d.keyword := String.ofList_toList
  rw [hkeyword, List.cons_append] at hleading hdrop hrest
  rw [hkeyword] at hof
  have hword :=
    (announced_word (t := .standard) hrest hx (not_insideWord hbefore x) (by rwa [hleading, hof])).1
    d
  rw [hleading, hof, hdrop] at hword
  exact hword hget hbehind

/-! A directive that has its line to itself -/

theorem takeWhile_line (hline : '\n' ∉ behind) (he : ∀ c ∈ e.head?, c = '\n') :
    (behind ++ e).takeWhile (· != '\n') = behind :=
  Text.takeWhile_iff.mpr
    ⟨e, rfl,
      fun c hc => by simpa using ne_of_mem_of_not_mem hc hline, fun c hc => by simp [he c hc]⟩

theorem rest_skipLineEnd (hrest : stop.rest = tail ++ e)
    (htail : ∀ c ∈ tail, isBlank c = true ∧ c ≠ '\n')
    (he : ∀ c ∈ e.head?, c = '\n') :
    (skipLineEnd stop).rest = e.tail ∧ (e = [] ∨ (skipLineEnd stop).before.head? = some '\n') := by
  have htake : stop.rest.takeWhile (· != '\n') = tail := by
    rw [hrest]
    exact takeWhile_line (fun hmem => (htail _ hmem).2 rfl) he
  have hblank : Text.allBlank tail = true := List.all_eq_true.mpr fun c hc => (htail c hc).1
  rw [skipLineEnd, htake, if_pos hblank]
  cases e with
  | nil => simp [hrest]
  | cons c e =>
    obtain rfl := he c rfl
    have hsplit : stop.rest = (tail ++ ['\n']) ++ e := by simpa using hrest
    have hlength : tail.length + 1 = (tail ++ ['\n']).length := by simp
    rw [hlength, rest_forward_of_append hsplit, head?_before_forward hsplit (by simp)]
    simp

/-- A directive's node takes the blanks before it, and its line ends behind it. -/
def Alone (d : Directive) (e : List Char) (o : Outcome (List Piece)) : Prop :=
  ∃ use span, o.val = [.node (.directive use) span true] ∧ use.keyword = d.keyword ∧
    o.cursor.rest = e.tail ∧
    (e = [] ∨ o.cursor.before.head? = some '\n')

theorem rest_keyword (hrest : mark.rest = '@' :: (d.keyword.toList ++ behind)) :
    (mark.forward (d.keyword.length + 1)).rest = behind := by
  have hsplit : mark.rest = ('@' :: d.keyword.toList) ++ behind := hrest
  have hforward := rest_forward_of_append hsplit
  rwa [List.length_cons, String.length_toList] at hforward

theorem alone_line (hkind : d.kind = .line)
    (hrest : mark.rest = '@' :: (d.keyword.toList ++ (behind ++ e)))
    (hline : '\n' ∉ behind) (he : ∀ c ∈ e.head?, c = '\n') (hstart : mark.atLineStart = true) :
    Alone d e (directive t (n + 1) .topLevel mark d) := by
  have hkeyword := rest_keyword hrest
  have hregion : (mark.forward (d.keyword.length + 1)).rest.takeWhile (· != '\n') = behind := by
    rw [hkeyword]
    exact takeWhile_line hline he
  have hstop : (announcement d mark).stop.rest = [] ++ e := by
    simp only [announcement, hkind, beq_self_eq_true, if_true, hregion]
    exact rest_forward_of_append hkeyword
  obtain ⟨hafter, hbefore⟩ := rest_skipLineEnd hstop (by simp) he
  rw [directive]
  simp only [hkind, beq_self_eq_true, if_true, directivePiece, hstart, Bool.true_or]
  exact ⟨_, _, rfl, rfl, hafter, hbefore⟩

theorem rest_opening {more : List Char} (hkind : d.kind = .codeBlock)
    (hrest : mark.rest = '@' :: (d.keyword.toList ++ (gap ++ '\x7b' :: more)))
    (hgap : ∀ c ∈ gap, isBlank c = true) :
    ((announcement d mark).stop.skip isBlank).rest = '\x7b' :: more := by
  have hkeyword := rest_keyword hrest
  have hregion :
    ((mark.forward (d.keyword.length + 1)).rest.takeWhile (· != '\n')).takeWhile (· != '\x7b') =
      gap.takeWhile fun c => c != '\x7b' ∧ c != '\n' := by
    rw [hkeyword, List.takeWhile_takeWhile, Text.takeWhile_append_stop (by simp)]
  have hleft : ∀ c ∈ gap.dropWhile fun c => c != '\x7b' ∧ c != '\n', isBlank c = true :=
    fun c hc => hgap c ((List.dropWhile_sublist _).subset hc)
  have hstop : (announcement d mark).stop.rest = (gap.dropWhile fun c => c != '\x7b' ∧ c != '\n') ++
      '\x7b' :: more := by
    have hline : (d.kind == .line) = false := by rw [hkind]; rfl
    simp only [announcement, hline, Bool.false_eq_true, if_false, hregion]
    refine rest_forward_of_append ?_
    rw [hkeyword, ← List.append_assoc, List.takeWhile_append_dropWhile]
  rw [rest_skip, hstop, List.dropWhile_append_of_pos hleft]
  rfl

theorem scan_before_end
    (hcode : Code.scan (.closer '\x7d') (some '\x7b') (code ++ ['\x7d']) = .ok code)
    (htail : ∀ c ∈ tail, isBlank c = true ∧ c ≠ '\n') (he : ∀ c ∈ e.head?, c = '\n') :
    Code.scan (.closer '\x7d') (some '\x7b') (code ++ '\x7d' :: (tail ++ e)) = .ok code := by
  have hmild : Code.Mild (tail ++ e) := by
    intro c hc
    refine Code.mild_of_blank (b := [c]) (fun c' hc' => ?_) c rfl
    obtain rfl := List.mem_singleton.mp hc'
    cases tail with
    | nil => rw [he c' hc]; rfl
    | cons x tail => exact (htail c' (List.mem_of_mem_head? (by simpa using hc))).1
  have happend := Code.scanFrom_append hmild (by simp) hcode
  rwa [List.append_assoc] at happend

theorem alone_functions (hkind : d.kind = .codeBlock)
    (hrest : mark.rest =
      '@' :: (d.keyword.toList ++ (gap ++ '\x7b' :: (code ++ '\x7d' :: (tail ++ e)))))
    (hgap : ∀ c ∈ gap, isBlank c = true)
      (hcode : Code.scan (.closer '\x7d') (some '\x7b') (code ++ ['\x7d']) = .ok code)
    (htail : ∀ c ∈ tail, isBlank c = true ∧ c ≠ '\n') (he : ∀ c ∈ e.head?, c = '\n')
    (hstart : mark.atLineStart = true) :
    Alone d e (directive t (n + 1) .topLevel mark d) := by
  have hopening := rest_opening hkind hrest hgap
  have hbegun := rest_forward_one hopening
  have hbrace : (((announcement d mark).stop.skip isBlank).forward 1).before.head? = some '\x7b' :=
    head?_before_forward (u := ['\x7b']) hopening (by simp)
  have hcodeAt : codeAt (.closer '\x7d') (((announcement d mark).stop.skip isBlank).forward 1) =
      .ok (code, (((announcement d mark).stop.skip isBlank).forward 1).forward
        (code.length + 1)) := by
    simp only [codeAt, hbrace, hbegun, scan_before_end hcode htail he, Code.Stop.text,
      List.length_singleton]
  have hended :
      ((((announcement d mark).stop.skip isBlank).forward 1).forward (code.length + 1)).rest =
      tail ++ e := by
    rw [rest_forward, hbegun]
    simp
  obtain ⟨hafter, hbefore⟩ := rest_skipLineEnd hended htail he
  have hline : (d.kind == .line) = false := by rw [hkind]; rfl
  have hblock : (d.kind == .codeBlock) = true := by rw [hkind]; rfl
  rw [directive]
  simp only [hline, hblock, hopening, hcodeAt, directivePiece, hstart, Bool.false_eq_true, if_false,
    if_true,
    Bool.true_or]
  exact ⟨_, _, rfl, rfl, hafter, hbefore⟩

end

/-! Line by line -/

theorem Prints.append {ns : Nodes} {cs : List Char} (h : Prints (lower true ns) cs) (run : Run) :
    Prints (lower true (run.nodes ++ ns)) (run.chars.reverse ++ cs) := by
  obtain ⟨span, hlower⟩ := lower_run true run ns
  rw [hlower]
  unfold Prints at h ⊢
  by_cases hchars : run.chars = []
  · simpa [hchars] using h
  · simp only [hchars, if_false, List.append_eq_nil_iff, List.reverse_eq_nil_iff, false_and]
    split at h
    next hcs => simp [h, hcs, join]
    next hcs =>
      obtain ⟨span, h⟩ := h
      simp [h, join]

theorem lower_directive {use : DirectiveUse (Located Node)} (h : use.keyword ≠ "section")
    (span : Span) (ns : Nodes) :
    lower true (⟨.directive use, span⟩ :: ns) = lower true ns := by
  rcases lowerNode_directive true span use with ⟨name, body, hsection, -⟩ | ⟨-, hlower⟩
  · exact absurd hsection.2.1 h
  · exact hlower _

section
variable {c : Cursor} {u v pads : List Char} {n : Nat}

theorem outside_plain (hu : ∀ x ∈ u, x ≠ '@' ∧ x ≠ '<') (hc : c.rest = u ++ v) :
    Outside c (c.past u) := by
  induction u generalizing c with
  | nil => exact .here c
  | cons x u ih =>
    obtain ⟨hx, hu⟩ := List.forall_mem_cons.mp hu
    rw [past_cons]
    exact .text hc hx.1 (fun hless => absurd hless hx.2) (ih hu (rest_forward_one hc))

theorem pieces_plain (hu : ∀ x ∈ u, x ≠ '@' ∧ x ≠ '<') (hc : c.rest = u ++ v) :
    ∃ texts, Gathers u texts ∧
    ∀ n, c.rest.length < n → ∃ m, v.length < m ∧
      pieces .standard .topLevel n 0 c =
        Outcome.followedBy ⟨texts, [], c.past u⟩ (pieces .standard .topLevel m 0 (c.past u)) := by
  have hrest : (c.past u).rest = v := rest_forward_of_append hc
  have hat : '@' ∉ u := fun hmem => (hu _ hmem).1 rfl
  have h := pieces_outside (t := .standard) (outside_plain hu hc) (by rw [hrest, hc]) hat (.inl rfl)
  rwa [hrest] at h

theorem atLineStart_past (hpads : ∀ x ∈ pads, isPad x = true) (hc : c.rest = pads ++ v)
    (hstart : ∀ x ∈ c.before.head?, x = '\n') :
    (c.past pads).atLineStart = true ∧
      ∀ x ∈ (c.past pads).before.head?, isAlphanumeric x = false := by
  have hbefore : (c.past pads).before = pads.reverse ++ c.before := by
    rw [past, before_forward, hc, List.take_left]
  have hreverse : ∀ x ∈ pads.reverse, isPad x = true := fun x hx => hpads x (List.mem_reverse.mp hx)
  have hpad : ∀ x, isPad x = true → x ≠ '\n' ∧ isAlphanumeric x = false := by
    intro x hx
    simp only [isPad, Bool.or_eq_true, beq_iff_eq] at hx
    rcases hx with rfl | rfl <;> decide
  have hnone : c.before.takeWhile (· != '\n') = [] := by
    cases hhead : c.before with
    | nil => rfl
    | cons x b => simp [hstart x (by simp [hhead])]
  rw [atLineStart, hbefore]
  constructor
  · rw [List.takeWhile_append_of_pos fun x
      hx => by simpa using (hpad x (hreverse x hx)).1, hnone, List.append_nil]
    exact List.all_eq_true.mpr hreverse
  · intro x hx
    rw [List.head?_append] at hx
    cases hlast : pads.reverse.head? with
    | none =>
      rw [hlast] at hx
      rw [hstart x (by simpa using hx)]
      decide
    | some y =>
      obtain rfl : y = x := by simpa [hlast] using hx
      exact (hpad y (hreverse y (List.mem_of_mem_head? hlast))).2

theorem plain_or_alone {l : Line} (h : l.Stands) {e : List Char} (he : ∀ x ∈ e.head?, x = '\n')
    (hc : c.rest = l.text ++ e) (hstart : ∀ x ∈ c.before.head?, x = '\n') :
    (∃ cs, l = .plain cs) ∨ (∀ ending, l.kept ending = []) ∧ ∃ pads d behind,
      (∀ x ∈ pads, isPad x = true) ∧
      d.keyword ≠ "section" ∧ c.rest = pads ++ '@' :: (behind ++ e) ∧
        announced .standard (c.past pads) = .directive d ∧
      ∀ n, Alone d e (directive .standard (n + 1) .topLevel (c.past pads) d) := by
  have hsection : ∀ d ∈ DirectiveTable.standard.directives, d.kind ≠ .markupBlock →
      d.keyword ≠ "section" := by decide +kernel
  cases h with
  | @plain cs hcs => exact .inl ⟨cs, rfl⟩
  | @directive pads behind d hpads hd hkind hline hbehind =>
    have hrest : c.rest = pads ++ '@' :: (d.keyword.toList ++ (behind ++ e)) := by
      simpa [Line.text] using hc
    have hmark : (c.past pads).rest = '@' :: (d.keyword.toList ++ (behind ++ e)) :=
      rest_forward_of_append hrest
    obtain ⟨halone, hbefore⟩ := atLineStart_past hpads hrest hstart
    have hboundary : boundary d (behind ++ e) = true := by
      cases behind with
      | nil =>
        cases e with
        | nil => rfl
        | cons x e => rw [he x rfl]; rfl
      | cons x behind => simp [boundary, hbehind x rfl]
    exact .inr ⟨fun _ => rfl, pads, d, d.keyword.toList ++ behind, hpads,
      hsection d hd (by simp [hkind]), by simp [hrest],
      announced_directive hd hmark hbefore hboundary, fun n =>
        alone_line hkind hmark hline he halone⟩
  | @functions pads gap code tail hpads hgap hcode htail =>
    obtain ⟨d, hd, hkeyword, hkind⟩ :
        ∃ d ∈ DirectiveTable.standard.directives, d.keyword = "functions" ∧
          d.kind = .codeBlock := by
      decide +kernel
    have hrest : c.rest =
        pads ++ '@' :: (d.keyword.toList ++
          (gap ++ '\x7b' :: (code ++ '\x7d' :: (tail ++ e)))) := by
      simpa [Line.text, hkeyword] using hc
    have hmark : (c.past pads).rest =
        '@' :: (d.keyword.toList ++ (gap ++ '\x7b' :: (code ++ '\x7d' :: (tail ++ e)))) :=
      rest_forward_of_append hrest
    obtain ⟨halone, hbefore⟩ := atLineStart_past hpads hrest hstart
    have hboundary : boundary d (gap ++ '\x7b' :: (code ++ '\x7d' :: (tail ++ e))) = true := by
      cases gap with
      | nil => simp [boundary, hkind]
      | cons x gap => simp [boundary, hgap x List.mem_cons_self]
    exact .inr ⟨fun _ =>
      rfl, pads, d, d.keyword.toList ++ (gap ++ '\x7b' :: (code ++ '\x7d' :: tail)), hpads,
      hsection d hd (by simp [hkind]), by
        simp [hrest], announced_directive hd hmark hbefore hboundary,
      fun n => alone_functions hkind hmark hgap hcode htail he halone⟩

theorem trimPads_chars (hpads : ∀ x ∈ pads, isPad x = true) {run run' : Run}
    (hrun : ∀ x ∈ run.chars.head?, x = '\n')
    (hchars : run'.chars = pads.reverse ++ run.chars) : run'.trimPads.chars = run.chars := by
  rw [Run.trimPads, hchars, List.dropWhile_append_of_pos fun x hx =>
    hpads x (List.mem_reverse.mp hx)]
  cases hhead : run.chars with
  | nil => rfl
  | cons x chars =>
    rw [hrun x (by simp [hhead])]
    rfl

theorem ending_cases (ls : List Line) :
    ls = [] ∧ ending ls ++ joined ls = [] ∨ ls ≠ [] ∧ ending ls = ['\n'] ∧
      ending ls ++ joined ls = '\n' :: joined ls := by
  cases ls with
  | nil => exact .inl ⟨rfl, rfl⟩
  | cons l ls => exact .inr ⟨List.cons_ne_nil l ls, rfl, rfl⟩

theorem pieces_directive {d : Directive} {r : List Char} (hc : c.rest = '@' :: r)
    (hd : announced .standard c = .directive d) :
    pieces .standard .topLevel (n + 1) 0 c = (directive .standard n .topLevel c d).followedBy
      (pieces .standard .topLevel n 0 (directive .standard n .topLevel c d).cursor) := by
  simp only [pieces, hc, hd]

/-- The lines that are left begin with a line, in the text and in what has been read of it. -/
def Fresh (ls : List Line) (c : Cursor) (run : Run) : Prop :=
  ls = [] ∨ (∀ x ∈ c.before.head?, x = '\n') ∧ ∀ x ∈ run.chars.head?, x = '\n'

theorem plain_step {cs : List Char} {ls : List Line} (hcs : ∀ x ∈ cs, x ≠ '@' ∧ x ≠ '<' ∧ x ≠ '\n')
    (hc : c.rest = cs ++ (ending ls ++ joined ls)) (hn : c.rest.length < n) (run : Run) :
    ∃ (m : Nat) (c' : Cursor) (run' : Run), c'.rest = joined ls ∧ c'.rest.length < m ∧
      Fresh ls c' run' ∧
      run'.chars = (cs ++ ending ls).reverse ++ run.chars ∧
      gatherFrom run (pieces .standard .topLevel n 0 c).val =
        gatherFrom run' (pieces .standard .topLevel m 0 c').val := by
  have hu : ∀ x ∈ cs ++ ending ls, x ≠ '@' ∧ x ≠ '<' := by
    intro x hx
    rcases List.mem_append.mp hx with hx | hx
    · exact ⟨(hcs x hx).1, (hcs x hx).2.1⟩
    · rcases ending_cases ls with ⟨rfl, -⟩ | ⟨-, h, -⟩
      · cases hx
      · rw [h, List.mem_singleton] at hx
        rw [hx]
        decide
  have hrest : c.rest = (cs ++ ending ls) ++ joined ls := by rw [hc, List.append_assoc]
  have hnext : (c.past (cs ++ ending ls)).rest = joined ls := rest_forward_of_append hrest
  obtain ⟨texts, hgathers, hread⟩ := pieces_plain hu hrest
  obtain ⟨m, hm, hpieces⟩ := hread n hn
  obtain ⟨run', hrun', hchars⟩ :=
    hgathers run (pieces .standard .topLevel m 0 (c.past (cs ++ ending ls))).val
  have hfresh : Fresh ls (c.past (cs ++ ending ls)) run' := by
    refine (ending_cases ls).imp (·.1) fun ⟨_, h, _⟩ => ?_
    rw [h] at hrest hchars ⊢
    rw [past, head?_before_forward hrest (by simp), hchars]
    simp
  refine ⟨m, _, run', hnext, by rwa [hnext], hfresh, hchars, ?_⟩
  rw [hpieces]
  exact hrun'

/-- The blanks before a directive are taken off again, and behind it nothing has been read yet. -/
theorem alone_step {ls : List Line} {d : Directive} {behind : List Char}
    (hpads : ∀ x ∈ pads, isPad x = true)
    (hc : c.rest = pads ++ '@' :: (behind ++ (ending ls ++ joined ls)))
      (hd : announced .standard (c.past pads) = .directive d)
    (halone : ∀ n, Alone d (ending ls ++ joined ls)
      (directive .standard (n + 1) .topLevel (c.past pads) d))
    (hn : c.rest.length < n) {run : Run} (hrun : ∀ x ∈ run.chars.head?, x = '\n') :
    ∃ (m : Nat) (c' : Cursor) (run' : Run) (use : DirectiveUse (Located Node)) (span : Span),
      c'.rest = joined ls ∧
      c'.rest.length < m ∧ Fresh ls c' {} ∧ run'.chars = run.chars ∧ use.keyword = d.keyword ∧
      gatherFrom run (pieces .standard .topLevel n 0 c).val =
        run'.nodes ++ ⟨.directive use, span⟩ ::
          gatherFrom {} (pieces .standard .topLevel m 0 c').val := by
  have hu : ∀ x ∈ pads, x ≠ '@' ∧ x ≠ '<' := by
    intro x hx
    have hpad := hpads x hx
    constructor <;> rintro rfl <;> cases hpad
  have hmark : (c.past pads).rest = '@' :: (behind ++ (ending ls ++ joined ls)) :=
    rest_forward_of_append hc
  obtain ⟨texts, hgathers, hread⟩ := pieces_plain hu hc
  obtain ⟨m, hm, hpieces⟩ := hread n hn
  simp only [List.length_cons, List.length_append] at hm
  obtain ⟨m, rfl⟩ : ∃ k, m = k + 2 := ⟨m - 2, by omega⟩
  obtain ⟨use, span, hval, hname, hafter, hnext⟩ := halone m
  have hcursor :
      (directive .standard (m + 1) .topLevel (c.past pads) d).cursor.rest = joined ls := by
    rcases ending_cases ls with ⟨rfl, h⟩ | ⟨-, -, h⟩ <;> rw [hafter, h] <;> rfl
  obtain ⟨run', hrun', hchars⟩ := hgathers run (.node (.directive use) span true ::
    (pieces .standard .topLevel (m + 1) 0
      (directive .standard (m + 1) .topLevel (c.past pads) d).cursor).val)
  have hfresh : Fresh ls (directive .standard (m + 1) .topLevel (c.past pads) d).cursor {} := by
    refine (ending_cases ls).imp (·.1) fun ⟨_, _, h⟩ => ?_
    rw [h] at hnext
    rw [hnext.resolve_left (List.cons_ne_nil _ _)]
    simp
  have htrim := trimPads_chars hpads hrun hchars
  refine ⟨m + 1, _, run'.trimPads, use, span, hcursor,
    by rw [hcursor]; omega, hfresh, htrim, hname, ?_⟩
  rw [hpieces, pieces_directive hmark hd]
  simp only [Outcome.followedBy, hval, List.singleton_append, hrun', gatherFrom, if_true]

theorem prints_lines {ls : List Line} (hls : ∀ l ∈ ls, l.Stands) (hc : c.rest = joined ls)
    (hn : c.rest.length < n) {run : Run} (hfresh : Fresh ls c run) :
    Prints (lower true (gatherFrom run (pieces .standard .topLevel n 0 c).val))
      (run.chars.reverse ++ plainly ls) := by
  induction ls generalizing c n run with
  | nil =>
    obtain ⟨n, rfl⟩ := Nat.exists_eq_succ_of_ne_zero (Nat.ne_of_gt (Nat.zero_lt_of_lt hn))
    rw [pieces_nil hc]
    have hprints : Prints (lower true []) [] := by simp [Prints, lower]
    simpa [plainly, gatherFrom] using hprints.append run
  | cons l ls ih =>
    obtain ⟨hl, hbehind⟩ := List.forall_mem_cons.mp hls
    obtain ⟨hbefore, hrun⟩ := hfresh.resolve_left (List.cons_ne_nil l ls)
    have hend : ∀ x ∈ (ending ls ++ joined ls).head?, x = '\n' := by
      rcases ending_cases ls with ⟨-, h⟩ | ⟨-, -, h⟩ <;> simp [h]
    rw [joined] at hc
    rcases plain_or_alone hl hend hc hbefore with
      ⟨cs, rfl⟩ | ⟨hkept, pads, d, behind, hpads, hsection, hrest, hd, halone⟩
    · cases hl with
      | plain hcs =>
        obtain ⟨m, c', run', hnext, hm, hfresh', hchars, hgather⟩ := plain_step hcs hc hn run
        have hmore := ih hbehind hnext hm hfresh'
        rw [hchars, List.reverse_append, List.reverse_reverse, List.append_assoc] at hmore
        rw [hgather]
        exact hmore
    · obtain ⟨m, c', run', use, span, hnext, hm, hfresh', hchars, hname, hgather⟩ :=
        alone_step hpads hrest hd halone hn hrun
      have hmore := ih hbehind hnext hm hfresh'
      rw [← lower_directive (hname ▸ hsection) span] at hmore
      rw [hgather, ← hchars, plainly, hkept]
      exact hmore.append run'

end

/-- Lines that directives have to themselves leave nothing in the page: it is the text of the other
lines, with their ends. -/
theorem directive_lines_leave_nothing (name : String) {ls : List Line} (hls : ∀ l ∈ ls, l.Stands) :
    Prints (lower true (Tree.parse ⟨name, .ofList (joined ls)⟩ .standard).nodes) (plainly ls) := by
  have hfresh : Fresh ls (.start (joined ls)) {} := .inr ⟨by simp [Cursor.start], by simp⟩
  have h := prints_lines hls rfl (Nat.lt_succ_self _) hfresh
  simpa [Tree.parse, gather, Cursor.start] using h

def mixedLines : List Line :=
  [.directive [' ', '\t'] ⟨"namespace", .line, .oncePerFile, [⟨.namespacePath, false⟩]⟩
    " a..b\r".toList, .plain "one\r".toList,
    .functions [' '] [' ', '\n'] "\n  f(\"\x7d\") ".toList "\r".toList, .plain "two".toList]

theorem directive_lines_leave_nothing_mixed : (∀ l ∈ mixedLines, l.Stands) ∧
    Prints (lower true (Tree.parse ⟨"page", .ofList (joined mixedLines)⟩ .standard).nodes)
      "one\r\ntwo".toList := by
  have hls : ∀ l ∈ mixedLines, l.Stands := by
    intro l hl
    simp only [mixedLines, List.mem_cons, List.not_mem_nil, or_false] at hl
    rcases hl with rfl | rfl | rfl | rfl
    · exact .directive (by decide) (by decide) rfl (by decide) (by decide)
    · exact .plain (by decide)
    · exact .functions (by decide) (by decide) rfl (by decide)
    · exact .plain (by decide)
  exact ⟨hls, directive_lines_leave_nothing "page" hls⟩

end Templating.Page
