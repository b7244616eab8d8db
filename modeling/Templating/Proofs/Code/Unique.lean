import Templating.Proofs.Code.Crossing

/-! A text is a row of grains in one way only: what begins at a place and how far it goes is settled
by the text from there on. -/
namespace Templating.Code

section
variable {mark : Char} {marks u v r s lead lead' behind behind' body body' rest rest' : List Char}
  {p : Option Char} {k k' : Cover}
  {c : Char}

/-! Where a token ends -/

theorem UpToUnescaped.unique (h : UpToUnescaped mark u) (hmark : mark ≠ '\\')
    (h' : UpToUnescaped mark v) (htext : u ++ r = v ++ s) :
    u = v := by
  induction h generalizing v with
  | mark =>
    cases h' with
    | mark => rfl
    | escaped => exact absurd (List.cons.inj htext).1 hmark
    | other hne => exact absurd (List.cons.inj htext).1.symm hne
  | escaped c hu ih =>
    cases h' with
    | mark => exact absurd (List.cons.inj htext).1.symm hmark
    | escaped d hv =>
      obtain ⟨-, htail⟩ := List.cons.inj htext
      obtain ⟨rfl, hrest⟩ := List.cons.inj htail
      rw [ih hv hrest]
    | other _ hescape => exact absurd (List.cons.inj htext).1.symm hescape
  | other hne hescape hu ih =>
    cases h' with
    | mark => exact absurd (List.cons.inj htext).1 hne
    | escaped => exact absurd (List.cons.inj htext).1 hescape
    | other _ _ hv =>
      obtain ⟨rfl, htail⟩ := List.cons.inj htext
      rw [ih hv htail]

theorem UpTo.unique (h : UpTo marks u) (h' : UpTo marks v) (htext : u ++ r = v ++ s) : u = v := by
  have hfirst : ∀ {c : Char} {w x y : List Char}, UpTo marks w → ¬ marks <+: c :: w →
      marks ++ x ≠ c :: w ++ y :=
    fun {c w _ _} hw hne heq =>
      not_prefix_append marks (u := c :: w) (Nat.le_succ_of_le hw.length_le) hne _ ⟨_, heq⟩
  induction h generalizing v with
  | mark =>
    cases h' with
    | mark => rfl
    | other hne hv => exact absurd htext (hfirst hv hne)
  | other hne hu ih =>
    cases h' with
    | mark => exact absurd htext.symm (hfirst hu hne)
    | other _ hv =>
      obtain ⟨rfl, htail⟩ := List.cons.inj htext
      rw [ih hv htail]

theorem UpToClosing.unique (h : UpToClosing u) (h' : UpToClosing v) (htext : u ++ r = v ++ s) :
    u = v := by
  have hfirst : ∀ {a b c : Char} {w x y : List Char}, UpToClosing w → ¬ [a, b] <+: c :: w →
      a :: b :: x ≠ c :: w ++ y :=
    fun {a b c w _ _} hw hne heq =>
      not_prefix_append [a, b] (u := c :: w) (Nat.le_succ_of_le hw.length_le) hne _ ⟨_, heq⟩
  induction h generalizing v r s with
  | closing =>
    cases h' with
    | closing => rfl
    | nested => cases (List.cons.inj htext).1
    | other hne _ hv => exact absurd htext (hfirst hv hne)
  | @nested u w hu hw ihu ihw =>
    cases h' with
    | closing => cases (List.cons.inj htext).1
    | @nested x y hx hy =>
      have hinner : u ++ (w ++ r) = x ++ (y ++ s) := by simpa using htext
      obtain rfl := ihu hx hinner
      rw [ihw hy (List.append_cancel_left hinner)]
    | other _ hne hv => exact absurd htext (hfirst hv hne)
  | other hclosing hopening hu ih =>
    cases h' with
    | closing => exact absurd htext.symm (hfirst hu hclosing)
    | nested => exact absurd htext.symm (hfirst hu hopening)
    | other _ _ hv =>
      obtain ⟨rfl, htail⟩ := List.cons.inj htext
      rw [ih hv htail]

theorem Cover.Body.unique (h : k.Body body rest) (h' : k.Body body' rest')
    (htext : body ++ rest = body' ++ rest') : body = body' := by
  cases k with
  | string => exact UpToUnescaped.unique h (by decide) h' htext
  | raw n => exact UpTo.unique h h' htext
  | character => exact UpToUnescaped.unique h (by decide) h' htext
  | block => exact UpToClosing.unique h h' htext
  | line =>
    have hfeed : ∀ {w x y : List Char}, UpTo ['\n'] w → w ++ x = y → '\n' ∈ y := by
      rintro w x _ hw rfl
      induction hw with
      | mark => exact List.mem_cons_self
      | other _ _ ih => exact List.mem_cons_of_mem _ ih
    rcases h with h | ⟨hnone, rfl⟩
    · rcases h' with h' | ⟨hnone', rfl⟩
      · exact h.unique h' htext
      · exact absurd (hfeed h (by simpa using htext)) hnone'
    · rcases h' with h' | ⟨hnone', rfl⟩
      · exact absurd (hfeed h' (by simpa using htext.symm)) hnone
      · simpa using htext

/-! What begins at a place -/

theorem Cover.mode_injective : Function.Injective Cover.mode := by
  intro k k' h
  cases k <;> cases k' <;> cases h <;> rfl

theorem Cover.Opens.unique (h : k.Opens p lead behind) (h' : k'.Opens p lead' behind')
    (htext : lead ++ behind = lead' ++ behind') :
    k = k' ∧ lead = lead' := by
  have hhalt : ∀ cs, ¬ Halts (.closer ')') [')'] cs := fun cs h => List.cons_ne_nil _ _ h.1
  obtain ⟨c, u, rfl, hmove⟩ := h.exists_move (hhalt _)
  obtain ⟨c', u', rfl, hmove'⟩ := h'.exists_move (hhalt _)
  obtain ⟨rfl, htail⟩ := List.cons.inj htext
  -- a scan moves in one way only
  rw [show u ++ behind = u' ++ behind' from htail, hmove'] at hmove
  obtain ⟨hlength, hmode, -⟩ := Move.go.inj hmove
  exact ⟨Cover.mode_injective hmode.symm, by rw [(List.append_inj htail hlength.symm).1]⟩

theorem Cover.Opens.not_delimits (h : k.Opens p lead behind) (hlead : lead = c :: u) :
    ¬ Delimits c := by
  cases h with
  | raw _ _ hletters =>
    rcases hletters with rfl | rfl
    all_goals
      obtain ⟨rfl, -⟩ := List.cons.inj hlead
      rintro (⟨x, hx⟩ | hx) <;> cases hx
  | _ =>
    obtain ⟨rfl, -⟩ := List.cons.inj hlead
    rintro (⟨x, hx⟩ | hx) <;> cases hx

theorem Grain.Stands.unique {g g' : Grain} (h : g.Stands p rest) (h' : g'.Stands p rest')
    (htext : g.text ++ rest = g'.text ++ rest') :
    g = g' := by
  have hcovered : ∀ {k : Cover} {lead body : List Char} {d : Char} {r s : List Char},
    (Grain.covered k lead body).Stands p r →
      lead ++ body ++ r = d :: s → ¬ Delimits d ∧ ∃ behind, d :: s = lead ++ behind ∧
        k.Opens p lead behind := by
    intro k lead body d r s hg hsplit
    obtain ⟨e, u, hlead⟩ := hg.1.exists_cons
    have hfirst := hsplit
    rw [hlead] at hfirst
    obtain ⟨rfl, -⟩ := List.cons.inj hfirst
    exact ⟨hg.1.not_delimits hlead, body ++ r, by rw [← hsplit, List.append_assoc], hg.1⟩
  cases g with
  | covered k lead body =>
    cases g' with
    | covered k' lead' body' =>
      rw [Grain.text, Grain.text, List.append_assoc, List.append_assoc] at htext
      obtain ⟨rfl, rfl⟩ := h.1.unique h'.1 htext
      rw [h.2.unique h'.2 (List.append_cancel_left htext)]
    | delimiter d => exact absurd h' (hcovered h htext).1
    | plain d =>
      obtain ⟨-, behind, hsplit, hopens⟩ := hcovered h htext
      exact absurd hopens (h'.2 k lead behind hsplit)
  | delimiter c =>
    cases g' with
    | covered k lead body => exact absurd h (hcovered h' htext.symm).1
    | delimiter d => rw [(List.cons.inj htext).1]
    | plain d =>
      obtain ⟨rfl, -⟩ := List.cons.inj htext
      exact absurd h h'.1
  | plain c =>
    cases g' with
    | covered k lead body =>
      obtain ⟨-, behind, hsplit, hopens⟩ := hcovered h' htext.symm
      exact absurd hopens (h.2 k lead behind hsplit)
    | delimiter d =>
      obtain ⟨rfl, -⟩ := List.cons.inj htext
      exact absurd h' h.1
    | plain d => rw [(List.cons.inj htext).1]

theorem Row.unique {gs hs : List Grain} (h : Row p gs rest) (h' : Row p hs rest)
    (htext : gs.flatMap Grain.text = hs.flatMap Grain.text) : gs = hs := by
  induction gs generalizing p hs with
  | nil =>
    cases hs with
    | nil => rfl
    | cons g hs => exact absurd (List.append_eq_nil_iff.mp htext.symm).1 (Grain.text_ne_nil h'.1)
  | cons g gs ih =>
    cases hs with
    | nil => exact absurd (List.append_eq_nil_iff.mp htext).1 (Grain.text_ne_nil h.1)
    | cons g' hs =>
      have hall : g.text ++ (gs.flatMap Grain.text ++ rest) =
          g'.text ++ (hs.flatMap Grain.text ++ rest) := by
        simpa using congrArg (· ++ rest) htext
      obtain rfl := h.1.unique h'.1 hall
      rw [ih h.2 h'.2 (List.append_cancel_left htext)]

end

end Templating.Code
