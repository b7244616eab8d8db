import Templating.Proofs.Code.Crossing

/-! What a scan tells of a text: the first boundary outside of every token and every delimiter, or
else the first closing delimiter that nothing matches, or else what is missing at the end. -/
namespace Templating.Code

/-- A text begins with these grains. The delimiters among them leave `closers` to come, and in front
of none of them does the boundary stand where the delimiters before it pair up. -/
structure Leading (stop : Stop) (p : Option Char) (gs : List Grain) (closers rest : List Char) :
    Prop where
  row : Row p gs rest
  pending : Pending closers (gs.flatMap Grain.delimiters)
  unstopped : ∀ a g b, gs = a ++ g :: b → Paired (a.flatMap Grain.delimiters) →
    ¬ stop.text <+: (g :: b).flatMap Grain.text ++ rest

/-- What there is to tell of a text behind `p`. -/
inductive Finds (stop : Stop) (p : Option Char) :
    List Char → Except (List Char × ScanError) (List Char) → Prop
  | boundary {gs : List Grain} {rest : List Char}
      (hlead : Leading stop p gs [] (stop.text ++ rest)) :
      Finds stop p (gs.flatMap Grain.text ++ (stop.text ++ rest)) (.ok (gs.flatMap Grain.text))
  | mismatched {gs : List Grain} {closers rest : List Char} {e c : Char}
      (hlead : Leading stop p gs (e :: closers) (c :: rest))
      (hc : isCloser c = true) (hne : e ≠ c) :
      Finds stop p (gs.flatMap Grain.text ++ c :: rest)
        (.error (gs.flatMap Grain.text, .mismatched e c))
  | unopened {gs : List Grain} {rest : List Char} {c : Char}
      (hlead : Leading stop p gs [] (c :: rest)) (hc : isCloser c = true)
      (hstop : ¬ stop.text <+: c :: rest) :
      Finds stop p (gs.flatMap Grain.text ++ c :: rest)
        (.error (gs.flatMap Grain.text, .unopened c))
  | unexpectedEnd {gs : List Grain} {closers : List Char} (hlead : Leading stop p gs closers []) :
      Finds stop p (gs.flatMap Grain.text) (.error (gs.flatMap Grain.text, .unexpectedEnd stop))
  | unterminated {gs : List Grain} {closers rest : List Char} {k : Cover}
      (hlead : Leading stop p gs closers rest)
      (hstop : closers = [] → ¬ stop.text <+: rest)
      (hk : Unclosed ((gs.flatMap Grain.text).getLast?.or p) k rest) :
      Finds stop p (gs.flatMap Grain.text ++ rest) (.error (gs.flatMap Grain.text ++ rest, k.fault))

section
variable {stop : Stop} {p : Option Char} {gs : List Grain} {closers rest : List Char} {c e : Char}

/-! What is told of a text is what a scan of it gives -/

theorem Stop.text_eq (stop : Stop) : ∃ c r, stop.text = c :: r := by
  cases stop with
  | closer c => exact ⟨c, [], rfl⟩
  | openBrace => exact ⟨_, [], rfl⟩
  | fatArrow => exact ⟨_, ['>'], rfl⟩

theorem closerOf?_of_isCloser (h : isCloser c = true) : closerOf? c = none := by
  unfold closerOf?
  split
  all_goals first | rfl | exact absurd h (by decide)

theorem scanFrom_boundary (p : Option Char) (rest : List Char) :
    scanFrom stop 0 .code [] p (stop.text ++ rest) = .ok [] := by
  obtain ⟨c, r, htext⟩ := stop.text_eq
  have hstop : isStop stop c (r ++ rest) = true := by
    rw [isStop_iff, ← List.cons_append, ← htext]
    exact List.prefix_append stop.text rest
  rw [htext, List.cons_append, scanFrom]
  simp only [move, codeMove, hstop, List.isEmpty_nil, Bool.and_self, if_true]

theorem scanFrom_mismatched (p : Option Char) (rest : List Char) (hc : isCloser c = true)
    (hne : e ≠ c) :
    scanFrom stop 0 .code (e :: closers) p (c :: rest) = .error ([], .mismatched e c) := by
  have hopen := closerOf?_of_isCloser hc
  rw [scanFrom]
  simp only [move, codeMove, List.isEmpty_cons, Bool.false_and, Bool.false_eq_true, if_false, hopen,
    hc, if_true, beq_eq_false_iff_ne.mpr hne]

theorem scanFrom_unopened (p : Option Char) (hc : isCloser c = true)
    (hstop : ¬ stop.text <+: c :: rest) :
    scanFrom stop 0 .code [] p (c :: rest) = .error ([], .unopened c) := by
  have hopen := closerOf?_of_isCloser hc
  have hstop : isStop stop c rest = false := by rwa [← Bool.not_eq_true, isStop_iff]
  rw [scanFrom]
  simp only [move, codeMove, hstop, List.isEmpty_nil, Bool.and_false, Bool.false_eq_true, if_false,
    hopen, hc, if_true]

theorem scanFrom_unclosed {k : Cover} (hk : Unclosed p k rest) (hhalt : ¬ Halts stop closers rest) :
    scanFrom stop 0 .code closers p rest = .error (rest, k.fault) := by
  obtain ⟨lead, behind, rfl, hopens, hendless⟩ := hk
  rw [hopens.crosses hhalt, hendless.lost closers]
  rfl

theorem Leading.crosses (h : Leading stop p gs closers rest) :
    Crosses stop (.code, []) (.code, closers) p (gs.flatMap Grain.text) rest := by
  refine h.row.crosses ?_ (closersAfter_iff.mpr h.pending)
  rintro a g b hsplit m hm ⟨rfl, hstop⟩
  exact h.unstopped a g b hsplit (pending_nil_iff.mp (closersAfter_iff.mp hm)) hstop

theorem Finds.scan {cs : List Char} {r : Except (List Char × ScanError) (List Char)}
    (h : Finds stop p cs r) :
    scan stop p cs = r := by
  unfold Code.scan
  cases h with
  | boundary hlead =>
    rw [hlead.crosses, scanFrom_boundary]
    simp [Markup.Implicit.after]
  | mismatched hlead hc hne =>
    rw [hlead.crosses, scanFrom_mismatched _ _ hc hne]
    simp [Markup.Implicit.after]
  | unopened hlead hc hstop =>
    rw [hlead.crosses, scanFrom_unopened _ hc hstop]
    simp [Markup.Implicit.after]
  | unexpectedEnd hlead =>
    have hcross := hlead.crosses
    unfold Crosses at hcross
    rw [List.append_nil] at hcross
    rw [hcross, scanFrom]
    simp [Markup.Implicit.after, Mode.atEnd]
  | unterminated hlead hstop hk =>
    rw [hlead.crosses, scanFrom_unclosed hk fun hhalt => hstop hhalt.1 hhalt.2]
    rfl

/-! There is something to tell of every text -/

theorem Leading.snoc {g : Grain} {m : List Char} (h : Leading stop p gs closers (g.text ++ rest))
    (hg : g.Stands ((gs.flatMap Grain.text).getLast?.or p) rest)
      (hstop : ¬ Halts stop closers (g.text ++ rest))
    (hm : closersAfter closers g.delimiters = some m) : Leading stop p (gs ++ [g]) m rest := by
  have hafter := closersAfter_iff.mpr h.pending
  constructor
  case row =>
    refine Row.append.mpr ⟨?_, ?_⟩
    · simpa using h.row
    · exact ⟨hg, trivial⟩
  case pending =>
    apply closersAfter_iff.mp
    rw [List.flatMap_append, closersAfter_append, hafter, Option.bind_some,
      List.flatMap_singleton, hm]
  case unstopped =>
    intro a f b hsplit hpaired
    cases b using List.reverseRecOn with
    | nil =>
      obtain ⟨rfl, hf⟩ := List.append_inj' hsplit rfl
      obtain rfl := List.singleton_injective hf
      have hnil : closers = [] :=
        Option.some.inj (hafter.symm.trans (closersAfter_iff.mpr (.nil hpaired)))
      rw [List.flatMap_singleton]
      exact fun h => hstop ⟨hnil, h⟩
    | append_singleton b f' =>
      rw [← List.cons_append, ← List.append_assoc] at hsplit
      obtain ⟨rfl, hf⟩ := List.append_inj' hsplit rfl
      obtain rfl := List.singleton_injective hf
      have hearlier := h.unstopped a f b rfl hpaired
      rw [← List.cons_append, List.flatMap_append, List.append_assoc, List.flatMap_singleton]
      exact hearlier

theorem closes_of_afterDelimiter {d : Char} (hd : Delimits d)
    (h : afterDelimiter closers d = none) :
    isCloser d = true ∧ (closers = [] ∨ ∃ e m, closers = e :: m ∧ e ≠ d) := by
  unfold afterDelimiter at h
  split at h
  · cases h
  next hopen =>
    refine ⟨hd.resolve_left fun ⟨x, hx⟩ => by simp [hopen] at hx, ?_⟩
    split at h
    · exact .inl rfl
    next e m =>
      split at h
      · cases h
      next hne => exact .inr ⟨e, m, rfl, hne⟩

theorem Row.finds_or_leading (stop : Stop) (h : Row p gs rest) :
    (∃ r, Finds stop p (gs.flatMap Grain.text ++ rest) r) ∨ ∃ closers,
      Leading stop p gs closers rest := by
  induction gs using List.reverseRecOn generalizing rest with
  | nil => exact .inr ⟨[], trivial, .nil .nil, fun a g b hsplit => by simp at hsplit⟩
  | append_singleton gs g ih =>
    obtain ⟨hgs, hg, -⟩ := Row.append.mp h
    rw [List.flatMap_singleton] at hgs
    rw [List.flatMap_append, List.flatMap_singleton, List.append_assoc]
    rcases ih hgs with hfinds | ⟨closers, hlead⟩
    · exact .inl hfinds
    by_cases hhalt : Halts stop closers (g.text ++ rest)
    · obtain ⟨rfl, more, hmore⟩ := hhalt
      rw [← hmore] at hlead ⊢
      exact .inl ⟨_, .boundary hlead⟩
    cases hm : closersAfter closers g.delimiters with
    | some m => exact .inr ⟨m, hlead.snoc hg hhalt hm⟩
    | none =>
      cases g with
      | covered k lead body => cases hm
      | plain c => cases hm
      | delimiter c =>
        rw [Grain.delimiters, closersAfter_cons] at hm
        have hnone : afterDelimiter closers c = none := by
          cases hafter : afterDelimiter closers c with
          | none => rfl
          | some m =>
            rw [hafter] at hm
            cases hm
        obtain ⟨hc, hclosers⟩ := closes_of_afterDelimiter hg hnone
        rcases hclosers with rfl | ⟨e, m, rfl, hne⟩
        · exact .inl ⟨_, .unopened hlead hc fun hstop => hhalt ⟨rfl, hstop⟩⟩
        · exact .inl ⟨_, .mismatched hlead hc hne⟩

theorem exists_finds (stop : Stop) (p : Option Char) (cs : List Char) : ∃ r, Finds stop p cs r := by
  obtain ⟨gs, rest, rfl, hrow, hend⟩ := exists_row p cs
  rcases hrow.finds_or_leading stop with hfinds | ⟨closers, hlead⟩
  · exact hfinds
  rcases hend with rfl | ⟨k, hk⟩
  · rw [List.append_nil]
    exact ⟨_, .unexpectedEnd hlead⟩
  by_cases hhalt : Halts stop closers rest
  · obtain ⟨rfl, more, rfl⟩ := hhalt
    exact ⟨_, .boundary hlead⟩
  · exact ⟨_, .unterminated hlead (fun hnil hstop => hhalt ⟨hnil, hstop⟩) hk⟩

/-- A scan gives back the code up to the first boundary outside of every token if the delimiters on
the way there are paired, and otherwise tells of the first that is not, or of what the end of the
text leaves open. -/
theorem scan_iff_finds (stop : Stop) (p : Option Char) (cs : List Char)
    (r : Except (List Char × ScanError) (List Char)) :
    scan stop p cs = r ↔ Finds stop p cs r := by
  constructor
  · intro h
    obtain ⟨told, htold⟩ := exists_finds stop p cs
    rwa [← h, htold.scan]
  · exact Finds.scan

end

end Templating.Code
