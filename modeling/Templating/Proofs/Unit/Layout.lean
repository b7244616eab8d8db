import Templating.Proofs.Unit.Lines

/-! Embedded code laid out afresh. White space at the ends of its lines is changed, and nothing
else; so its delimiters still pair up, unless a line end between two apostrophes was a character. -/
namespace Templating.Unit
open Code
open Text (isBlank allBlank byteSize)

/-! White space taken away -/

theorem blank_of_byteSize_le {a b : List Char} (h : byteSize a ≤ margin (a ++ b)) :
    ∀ c ∈ a, isBlank c = true := by
  have htake : (a ++ b).takeWhile isBlank <+: a ++ b := List.takeWhile_prefix isBlank
  have hlead : a <+: (a ++ b).takeWhile isBlank := by
    rcases List.prefix_or_prefix_of_prefix (List.prefix_append a b) htake with ha | ⟨z, hz⟩
    · exact ha
    · cases z with
      | nil => exact ⟨[], by simpa using hz.symm⟩
      | cons c z =>
        have hsize := congrArg byteSize hz
        have hpos := c.utf8Size_pos
        simp only [margin, Text.byteSize_append, byteSize] at h hsize
        omega
  exact fun c hc => Text.blank_of_mem_takeWhile (hlead.subset hc)

theorem exists_outdent {n : Nat} {l : List Char} (h : n ≤ margin l) :
    ∃ a, l = a ++ outdent n l ∧ ∀ c ∈ a, isBlank c = true := by
  unfold outdent
  split
  next a rest hcut =>
    obtain ⟨rfl, rfl⟩ := Text.append_of_cutAt? hcut
    exact ⟨a, rfl, blank_of_byteSize_le h⟩
  · exact ⟨l.takeWhile isBlank, List.takeWhile_append_dropWhile.symm, fun c hc =>
      Text.blank_of_mem_takeWhile hc⟩

/-- A line as it is laid out. -/
def laid (n : Nat) (l : List Char) : Line :=
  if allBlank l then .blank else .of (.ofList (Text.trimEnd (outdent n l)))

theorem foldl_past_settled (b : List Char) (mode : Mode) :
    (b.foldl (fun m c => m.past c) mode).settled = mode.settled := by
  induction b generalizing mode with
  | nil => rfl
  | cons c b ih => rw [List.foldl_cons, ih, mode.settled_past]

/-! Line by line -/

/-- A line end that two apostrophes make a character. -/
def quotedEnd : List Char := ['\'', '\n', '\'']

section
variable {s : Standing} {u : State} {p : Option Char} {a x b e rest : List Char}

theorem mild_of_endsLine (hb : ∀ c ∈ b, isBlank c = true) (he : Text.EndsLine e rest) :
    Mild (b ++ (e ++ rest)) := by
  cases b with
  | nil =>
    rcases he with rfl | rfl | ⟨rfl, rfl⟩
    · exact mild_cons.mpr (by decide)
    · exact mild_cons.mpr (by decide)
    · exact mild_nil
  | cons c b =>
    have hcalm := calm_of_isBlank (hb c List.mem_cons_self)
    simp only [calm, Bool.and_eq_true, Bool.not_eq_true'] at hcalm
    exact mild_cons.mpr hcalm.1

theorem quotedEnd_of_head? (hb : ∀ c ∈ b, isBlank c = true) (he : Text.EndsLine e rest)
    (hquote : (b ++ (e ++ rest)).tail.head? = some '\'') :
    ∃ r, b ++ (e ++ rest) = '\n' :: '\'' :: r := by
  cases b with
  | nil =>
    rcases he with rfl | rfl | ⟨rfl, rfl⟩
    · cases rest with
      | nil => cases hquote
      | cons d rest =>
        obtain rfl := Option.some.inj hquote
        exact ⟨rest, rfl⟩
    · cases hquote
    · cases hquote
  | cons c b =>
    cases b with
    | nil =>
      rcases he with rfl | rfl | ⟨rfl, rfl⟩ <;> cases hquote
    | cons d b =>
      obtain rfl := Option.some.inj hquote
      exact absurd (hb _ (List.mem_cons_of_mem c List.mem_cons_self)) (by decide)

theorem takes_of_run (hs : s.1.Rests) (hp : p.any Text.continuesName = false)
    (ha : ∀ c ∈ a, isBlank c = true) (hb : ∀ c ∈ b, isBlank c = true) (he : Text.EndsLine e rest)
      (hq : ¬ quotedEnd <:+: x ++ (b ++ (e ++ rest)))
    (hrun : State.run p [] ⟨0, s.1, s.2⟩ (a ++ (x ++ (b ++ (e ++ rest)))) = some u) :
    ∃ v : Standing, ∃ q, Takes s x v ∧
      State.run q [] ⟨0, v.1, v.2⟩ (b ++ (e ++ rest)) = some u := by
  rw [run_lead ha hs _ hp, State.run_append, List.append_nil] at hrun
  obtain ⟨⟨k, mode, closers⟩, hx, hrest⟩ := Option.bind_eq_some_iff.mp hrun
  rw [(mild_of_endsLine hb he).run] at hx
  · obtain rfl : k = 0 := State.skip_of_run hx (Nat.zero_le _)
    exact ⟨(mode, closers), _, hx, hrest⟩
  · intro hquote hlast
    obtain ⟨y, rfl⟩ := List.getLast?_eq_some_iff.mp hlast
    obtain ⟨r, hr⟩ := quotedEnd_of_head? hb he hquote
    exact hq ⟨y, r, by simp [hr, quotedEnd]⟩

theorem takes_line {v : Standing} (h : Takes s x v) : Takes s (x ++ ['\n']) (v.1.settled, v.2) := by
  have hmild : Mild ['\n'] := mild_cons.mpr (by decide)
  unfold Takes at h ⊢
  rw [State.run_append, List.append_nil, hmild.run (by simp), h]
  exact run_blank_line (b := []) (by simp) v.1 v.2 _ []

theorem run_of_endsLine {v t : Standing} {q : Option Char} (hb : ∀ c ∈ b, isBlank c = true)
    (he : Text.EndsLine e rest)
    (hrun : State.run q [] ⟨0, v.1, v.2⟩ (b ++ (e ++ rest)) = some ⟨0, t.1, t.2⟩) :
    State.run (some '\n') [] ⟨0, v.1.settled, v.2⟩ rest = some ⟨0, t.1, t.2⟩ ∨
      rest = [] ∧ (v.1.settled, v.2) = (t.1.settled, t.2) := by
  have hfeed : ∀ {b : List Char}, (∀ c ∈ b, isBlank c = true) →
      State.run q [] ⟨0, v.1, v.2⟩ ((b ++ ['\n']) ++ rest) = some ⟨0, t.1, t.2⟩ →
      State.run (some '\n') [] ⟨0, v.1.settled, v.2⟩ rest = some ⟨0, t.1, t.2⟩ := by
    intro b hb h
    rw [State.run_append, run_blank_line hb] at h
    simpa using h
  rcases he with rfl | rfl | ⟨rfl, rfl⟩
  · exact .inl (hfeed hb (by simpa using hrun))
  · refine .inl (hfeed (b := b ++ ['\r']) (fun c hc => ?_) (by simpa using hrun))
    rcases List.mem_append.mp hc with hc | hc
    · exact hb c hc
    · obtain rfl := List.mem_singleton.mp hc
      decide
  · rw [List.append_nil, List.append_nil, run_blanks hb] at hrun
    obtain ⟨hmode, hclosers⟩ : _ = t.1 ∧ v.2 = t.2 := by simpa using hrun
    rw [← hmode, ← hclosers, foldl_past_settled]
    exact .inr ⟨rfl, rfl⟩

end

theorem goes_laid {n : Nat} {s t : Standing} {p : Option Char} {cs : List Char} (hs : s.1.Rests)
    (hp : p.any Text.continuesName = false) (hrun : State.run p [] ⟨0, s.1, s.2⟩ cs =
      some ⟨0, t.1, t.2⟩)
    (hn : ∀ l ∈ Text.lines cs, allBlank l = false → n ≤ margin l) (hq : ¬ quotedEnd <:+: cs) :
    Goes s ((Text.lines cs).map (laid n)) (t.1.settled, t.2) := by
  have hdone : ∀ {s : Standing} {p : Option Char}, s.1.Rests →
    State.run p [] ⟨0, s.1, s.2⟩ [] = some ⟨0, t.1, t.2⟩ →
      Goes s [] (t.1.settled, t.2) := by
    rintro ⟨mode, closers⟩ p hs hrun
    obtain ⟨rfl, rfl⟩ : mode = t.1 ∧ closers = t.2 := by simpa [State.run] using hrun
    have hsettled : t.1.settled = t.1 := hs '\n'
    rw [hsettled]
    exact .nil
  -- on the length of the text that is left, a line at a time
  induction hlen : cs.length using Nat.strongRecOn generalizing cs s p with
  | ind k ih =>
    by_cases hcs : cs = []
    · subst hcs
      exact hdone hs hrun
    obtain ⟨l, e, rest, rfl, he, hlines⟩ := Text.exists_lines hcs
    rw [hlines] at hn ⊢
    have hrest : ¬ quotedEnd <:+: rest := fun h => hq (h.trans ⟨l ++ e, [], by simp⟩)
    have hmargin : ∀ m ∈ Text.lines rest, allBlank m = false → n ≤ margin m :=
      fun m hm => hn m (List.mem_cons_of_mem l hm)
    have hgo : ∀ {v : Standing} {q : Option Char} {b : List Char}, (∀ c ∈ b, isBlank c = true) →
        State.run q [] ⟨0, v.1, v.2⟩ (b ++ (e ++ rest)) = some ⟨0, t.1, t.2⟩ →
        Goes (v.1.settled, v.2) ((Text.lines rest).map (laid n)) (t.1.settled, t.2) := by
      intro v q b hb h
      rcases run_of_endsLine hb he h with hnext | ⟨hnil, hv⟩
      · have hlt : rest.length < k := hlen ▸ he.length_lt hcs
        exact ih rest.length hlt v.1.rests_settled (by decide) hnext hmargin hrest rfl
      · rw [hv, hnil]
        exact .nil
    cases hl : allBlank l with
    | true =>
      have hsettled : (s.1.settled, s.2) = s := Prod.ext (hs '\n') rfl
      have hnext := hgo (List.all_eq_true.mp hl) hrun
      rw [hsettled] at hnext
      simpa [laid, hl] using Goes.blank hnext
    | false =>
      obtain ⟨a, hlead, ha⟩ := exists_outdent (hn l List.mem_cons_self hl)
      obtain ⟨b, hend, hb⟩ := Text.exists_trimEnd (outdent n l)
      have hsplit : l ++ (e ++ rest) = a ++ (Text.trimEnd (outdent n l) ++ (b ++ (e ++ rest))) := by
        rw [← List.append_assoc _ b, ← hend, ← List.append_assoc a, ← hlead]
      rw [hsplit] at hrun hq
      have hq' : ¬ quotedEnd <:+: Text.trimEnd (outdent n l) ++ (b ++ (e ++ rest)) :=
        fun h => hq (h.trans ⟨a, [], by simp⟩)
      obtain ⟨v, q, hline, hnext⟩ := takes_of_run hs hp ha hb he hq' hrun
      rw [List.map_cons, laid, hl]
      exact .text (by simpa using takes_line hline) (hgo hb hnext)

/-! Embedded code -/

theorem Goes.of_append {s t : Standing} {ls ls' : Lines} (h : Goes s (ls ++ ls') t) :
    ∃ u, Goes s ls u ∧ Goes u ls' t := by
  induction ls generalizing s with
  | nil => exact ⟨s, .nil, h⟩
  | cons l ls ih =>
    cases h with
    | blank h =>
      obtain ⟨u, hls, hls'⟩ := ih h
      exact ⟨u, .blank hls, hls'⟩
    | text hx h =>
      obtain ⟨u, hls, hls'⟩ := ih h
      exact ⟨u, .text hx hls, hls'⟩

theorem Goes.blanks {n : Nat} {s t : Standing} {ls : List (List Char)}
    (hls : ∀ l ∈ ls, allBlank l = true) (h : Goes s (ls.map (laid n)) t) : s = t := by
  induction ls with
  | nil =>
    cases h
    rfl
  | cons l ls ih =>
    simp only [List.map_cons, laid, hls l List.mem_cons_self, if_true] at h
    cases h with
    | blank h => exact ih (fun m hm => hls m (List.mem_cons_of_mem l hm)) h

def sharedMargin (ls : List (List Char)) : Nat := ((ls.filter (!allBlank ·)).map margin).min?.getD 0

theorem codeLines_eq (code : String) : codeLines code =
    (Text.dropBlankEnds (Text.lines code.toList)).map
      (laid (sharedMargin (Text.dropBlankEnds (Text.lines code.toList)))) := rfl

theorem sharedMargin_le {ls : List (List Char)} {l : List Char} (h : l ∈ ls)
    (hl : allBlank l = false) :
    sharedMargin ls ≤ margin l := by
  have hmem : margin l ∈ (ls.filter (!allBlank ·)).map margin :=
    List.mem_map_of_mem (List.mem_filter.mpr ⟨h, by simp [hl]⟩)
  unfold sharedMargin
  cases hmin : ((ls.filter (!allBlank ·)).map margin).min? with
  | none => exact Nat.zero_le _
  | some m => exact (List.min?_eq_some_iff.mp hmin).2 _ hmem

theorem sharedMargin_dropBlankEnds_le {ls : List (List Char)} {l : List Char} (hl : l ∈ ls)
    (hblank : allBlank l = false) :
    sharedMargin (Text.dropBlankEnds ls) ≤ margin l := by
  obtain ⟨a, b, hlines, ha, hb⟩ := Text.exists_dropBlankEnds ls
  have hnot : ∀ {ls : List (List Char)}, (∀ m ∈ ls, allBlank m = true) → l ∉ ls := fun hls hl => by
    rw [hls l hl] at hblank
    cases hblank
  rw [hlines, List.mem_append, List.mem_append] at hl
  rcases hl with hl | hl | hl
  · exact absurd hl (hnot ha)
  · exact sharedMargin_le hl hblank
  · exact absurd hl (hnot hb)

theorem whole_codeLines {code : String} (h : Balanced code.toList)
    (hq : ¬ quotedEnd <:+: code.toList) :
    Whole (codeLines code) := by
  rw [codeLines_eq]
  have hmargin : ∀ l ∈ Text.lines code.toList, allBlank l = false → _ ≤ margin l :=
    fun l => sharedMargin_dropBlankEnds_le
  obtain ⟨a, b, hlines, ha, hb⟩ := Text.exists_dropBlankEnds (Text.lines code.toList)
  generalize Text.dropBlankEnds (Text.lines code.toList) = kept at hlines hmargin ⊢
  have hgo := goes_laid (s := (.code, [])) (t := (.code, [])) (fun _ => rfl) rfl h hmargin hq
  rw [hlines, List.map_append, List.map_append] at hgo
  obtain ⟨u, hfirst, hrest⟩ := hgo.of_append
  obtain ⟨v, hmiddle, hlast⟩ := hrest.of_append
  obtain rfl := hfirst.blanks ha
  obtain rfl := hlast.blanks hb
  exact hmiddle

end Templating.Unit
