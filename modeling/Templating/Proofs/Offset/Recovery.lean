import Templating.Proofs.Offset.Progress

/-! Where reading goes on after an error: behind the sign of the construct, in the text, and not
before a place that was passed. With turns that leave less to do, a template is read to its end
unless a slash in a tag is stood at. -/
namespace Templating.Offset
open Code (ScanError Stop)
open Markup (Nodes Piece Scope Tree)
open Text (Cursor byteSize isBlank leadingName)
open Text.Cursor

/-- The states that a loop comes to from a state. -/
inductive Reaches {σ ρ : Type} (turn : σ → Attempt (Turn σ ρ)) : σ → σ → Prop where
  | here (s : σ) : Reaches turn s s
  | next {s s' s'' : σ} (h : turn s = .ok (.next s')) (h' : Reaches turn s' s'') :
      Reaches turn s s''

section
variable {σ ρ : Type} {text : List Char} {turn : σ → Attempt (Turn σ ρ)} {offset : σ → Nat}
  {s s' : σ}

theorem Descends.offset_lt (h : Descends text offset (fun _ => 0) turn)
    (hs : turn s = .ok (.next s')) : offset s < offset s' := by
  rcases Prod.lex_def.mp (h s s' hs) with hlt | ⟨-, hlt⟩
  · dsimp only at hlt
    omega
  · exact absurd hlt (Nat.lt_irrefl 0)

theorem offset_le_of_loop {stop : ρ → Nat}
    (hnext : ∀ s s', turn s = .ok (.next s') → offset s ≤ offset s')
    (hlast : ∀ s r, turn s = .ok (.last r) → offset s ≤ stop r) {k : Nat} {r : ρ}
      (hloop : loop turn k s = .ok r)
    (h : Reaches turn s s') : offset s' ≤ stop r := by
  induction h generalizing k with
  | here s =>
    induction k generalizing s with
    | zero => cases hloop
    | succ k ih =>
      obtain ⟨u, hu, hloop⟩ := exists_of_bind hloop
      cases u with
      | last r' =>
        cases hloop
        exact hlast s r hu
      | next s' => exact (hnext s s' hu).trans (ih s' hloop)
  | next hturn _ ih =>
    cases k with
    | zero => cases hloop
    | succ k =>
      rw [loop, hturn] at hloop
      exact ih hloop

end

/-! Code that cannot be scanned -/

section
variable {n i : Nat} {text : List Char}

theorem ahead_bounds {c d : Cursor} (hc : c.text = text) (h : Ahead c d) :
    c.offset ≤ d.offset ∧ d.offset ≤ byteSize text :=
  ⟨h.offset_le, hc ▸ h.le_byteSize⟩

theorem recover_bounds {c : Cursor} (hc : c.text = text) {read : List Char} {e : ScanError}
    (h : Code.Halted c.rest read e) :
    c.offset ≤ (c.past read).offset ∧ (c.past read).offset ≤
      (recover text ((c.past read).offset, e)).2 ∧
      (recover text ((c.past read).offset, e)).2 ≤ byteSize text := by
  have hread := ahead_past c read
  have hresume : Ahead (c.past read) (Markup.recover c read e).2 := by
    unfold Markup.recover
    dsimp only
    split
    · exact ahead_forward _ 1
    · exact ahead_forward _ 1
    · exact ahead_toEnd _
  rw [recover_at hc h]
  exact ⟨hread.offset_le, hresume.offset_le, (ahead_bounds hc (hread.trans hresume)).2⟩

theorem codeAt_bounds {stop : Stop} (hstop : Bytewise stop) {f : Fault} {resume : Nat}
    (h : codeAt n text i stop = .ok (.error (f, resume))) :
    i ≤ f.span.start ∧ f.span.start ≤ resume ∧ resume ≤ byteSize text := by
  obtain ⟨c, hc, rfl⟩ := place_of_codeAt h
  have hcoded := (codeAt_settles (n := n) hc hstop).eq_of_ok h
  cases hcode : Markup.codeAt stop c with
  | ok found =>
    rw [hcode] at hcoded
    cases hcoded
  | error failed =>
    obtain ⟨read, e, hhalted, hrecover⟩ := Markup.codeAt_error hcode
    have hbounds := recover_bounds hc hhalted
    rw [recover_at hc hhalted] at hbounds
    rw [hcode, show failed = Markup.recover c read e from hrecover] at hcoded
    cases hcoded
    exact hbounds

theorem implicitEnd_bounds {f : Nat × ScanError} (h : implicitEnd n text i = .ok (.error f)) :
    i ≤ f.1 ∧ f.1 ≤ (recover text f).2 ∧ (recover text f).2 ≤ byteSize text := by
  obtain ⟨c, hc, rfl⟩ := place_of_bind h
  have hended := (implicitEnd_settles (n := n) hc).eq_of_ok h
  have hfront := Markup.Implicit.atFront_read c.rest
  cases hread : Markup.Implicit.read c.rest with
  | ok code =>
    rw [hread] at hended
    cases hended
  | error failed =>
    rw [hread] at hended hfront
    cases hended
    exact recover_bounds hc hfront

theorem closeBody_bounds {mark : Nat} {closed : Bool} {faults : List Fault} {after : Nat}
    (h : closeBody text mark i = .ok (closed, faults, after)) :
    i ≤ after ∧ after ≤ byteSize text := by
  obtain ⟨rest, hrest, h⟩ := exists_of_bind h
  obtain ⟨c, hc, rfl, rfl⟩ := exists_of_onward hrest
  split at h
  next hbrace =>
    obtain ⟨v, hv⟩ := List.isPrefixOf_iff_prefix.mp hbrace
    cases h
    rw [offset_one hv.symm rfl]
    exact ahead_bounds hc (ahead_forward c 1)
  · cases h
    exact ⟨(ahead_bounds hc (ahead_refl c)).2, Nat.le_refl _⟩

end

/-! Loops over bodies -/

section
variable {heed : Bool} {n k : Nat} {text : List Char} {t : DirectiveTable}

theorem controlTurn_last {mark : Nat} (hmark : Place text mark) {chained : Bool} {s : Clausing}
    {r : Claused}
    (h : controlTurn n text (nodes heed n text t k .nested) mark chained s = .ok (.last r)) :
    s.offset ≤ r.offset ∧ r.offset ≤ byteSize text := by
  obtain ⟨m, hm, rfl⟩ := hmark
  obtain ⟨found, hfound, -⟩ := exists_of_bind h
  obtain ⟨c, hc, hs⟩ := place_of_codeAt hfound
  have hturn :=
    controlTurn_advances (bodySettles_nodes heed n k text t) hm hc hs.symm (Nat.le_refl _)
    chained rfl
  rw [hturn.eq_last h, ← hs]
  exact ahead_bounds hc ((Markup.stepsAhead t _).branches _ _ _)

theorem armTurn_last {mark : Nat} (hmark : Place text mark) {s : Clausing} {r : Claused}
    (h : armTurn n text (nodes heed n text t k .nested) mark s = .ok (.last r)) :
    s.offset ≤ r.offset ∧ r.offset ≤ byteSize text := by
  obtain ⟨m, hm, rfl⟩ := hmark
  obtain ⟨c, hc, hs⟩ := place_of_skipWhile h
  have hturn :=
    armTurn_advances (bodySettles_nodes heed n k text t) hm hc hs.symm (Nat.le_refl _) rfl
  rw [hturn.eq_last h, ← hs]
  exact ahead_bounds hc ((Markup.stepsAhead t _).arms _ _)

theorem nodesTurn_last {scope : Scope} {s : Noding} {r : Passage Nodes}
    (h : nodesTurn n text (nodes heed n text t k .nested) t heed scope s = .ok (.last r)) :
    s.offset ≤ r.offset ∧ r.offset ≤ byteSize text := by
  obtain ⟨c, hc, hs⟩ := place_of_bind h
  have hturn :=
    nodesTurn_advances hc False False.elim (bodySettles_nodes heed n k text t) hs.symm
      (Nat.le_refl _)
      (rfl : noded s (Markup.pieces t scope _ s.depth c) = _)
  rw [hturn.eq_last h, ← hs]
  exact ahead_bounds hc ((Markup.stepsAhead t _).pieces _ _ _)

/-! What a sign begins -/

theorem transition_bounds {scope : Scope} {mark : Nat} {rest : List Char} {p : Passage (List Piece)}
    (hmark : onward mark text = .ok ('@' :: rest))
    (h : transition n text (nodes heed n text t k .nested) t scope mark = .ok p) :
    mark < p.offset ∧ p.offset ≤ byteSize text := by
  obtain ⟨c, hc, rfl, hrest⟩ := exists_of_onward hmark
  have hsettles :=
    transition_settles (bodySettles_nodes heed n k text t) hc scope hrest (Nat.le_refl _)
  obtain ⟨m, hm⟩ : ∃ m, c.rest.length = m + 1 := ⟨rest.length, by rw [hrest, List.length_cons]⟩
  have hbeyond := Markup.beyond_construct t scope m hrest
  rw [hsettles.eq_of_ok h, hm]
  exact ⟨hbeyond.offset_lt, (ahead_bounds hc hbeyond.ahead).2⟩

theorem directiveAt_bounds {scope : Scope} {mark : Nat} {d : Directive} {rest : List Char}
    {region : Span} {p : Passage (List Piece)}
    (hmark : onward mark text = .ok (('@' :: d.keyword.toList) ++ rest))
      (hregion : directiveRegion text mark d = .ok region)
    (h : directiveAt n text (nodes heed n text t k .nested) scope mark d = .ok p) :
    region.stop ≤ p.offset ∧ p.offset ≤ byteSize text := by
  obtain ⟨c, hc, rfl, hrest⟩ := exists_of_onward hmark
  obtain ⟨m, hm⟩ : ∃ m, c.rest.length = m + 1 :=
    ⟨(d.keyword.toList ++ rest).length, by rw [hrest]; rfl⟩
  have hsettles :=
    directiveAt_settles (bodySettles_nodes heed n k text t) hc scope hrest (Nat.le_refl _)
  have hsign : c.rest = '@' :: (d.keyword.toList ++ rest) := hrest
  have hstop := Markup.beyond_announcement hsign d
  rw [directiveRegion_at hc hrest] at hregion
  obtain rfl := Except.ok.inj hregion
  rw [hsettles.eq_of_ok h, hm]
  exact ahead_bounds (hstop.ahead.text_eq.trans hc)
    (Markup.ahead_directive (Markup.stepsAhead t m) scope c d)

theorem tokensGoOn_of_reaches {d : Directive} {region : Span} {l : Nat} {r : Tokenized}
    {s s' : Tokenizing} (h : Reaches (tokensTurn n text d region) s s') {c : Cursor}
    (hc : TokensGoOn text d region l r c s) :
    ∃ e, TokensGoOn text d region l r e s' := by
  induction h generalizing c with
  | here s => exact ⟨c, hc⟩
  | next hturn _ ih =>
    obtain ⟨u, hu, hend⟩ := tokensTurn_goes (n := n) hc
    have heq := hu.eq_of_ok hturn
    rcases hend with rfl | ⟨s'', e, rfl, -, -, he⟩
    · cases heq
    · cases heq
      exact ih he

theorem tokens_bounds {mark : Nat} {d : Directive} {rest : List Char} {region : Span}
    {s : Tokenizing} (hmark : onward mark text = .ok (('@' :: d.keyword.toList) ++ rest))
      (hregion : directiveRegion text mark d = .ok region)
    (h : Reaches (tokensTurn n text d region) ⟨d.tokens, [], region.start⟩ s) :
    s.offset ≤ region.stop := by
  obtain ⟨c, hc, rfl, hrest⟩ := exists_of_onward hmark
  rw [directiveRegion_at hc hrest] at hregion
  obtain rfl := Except.ok.inj hregion
  obtain ⟨cs, hin, -⟩ := announcement_region hc d
  obtain ⟨e, hs, -, cs, hin, -⟩ := tokensGoOn_of_reaches h ⟨rfl, Nat.le_refl _, cs, hin, rfl⟩
  rw [hs, ← hin.stop_eq]
  exact (ahead_past e cs).offset_le

end

/-! The whole reader -/

section
variable (heed : Bool) (n k : Nat) (text : List Char) (t : DirectiveTable)

/-- Every turn of a loop ends the loop or leaves less to do: less text, as much text but fewer
tokens to look for, or, at the end of code, no comment to leave any more. Only a tag with a slash
that does not end it can stay where it is. -/
structure Descending : Prop where
  node : ∀ scope, Descends text Noding.offset (fun _ => 0)
    (nodesTurn n text (nodes heed n text t k .nested) t heed scope)
  branch : ∀ mark, Place text mark → ∀ chained,
    Descends text Clausing.offset (fun _ => 0)
      (controlTurn n text (nodes heed n text t k .nested) mark chained)
  arm : ∀ mark, Place text mark →
    Descends text Clausing.offset (fun _ => 0) (armTurn n text (nodes heed n text t k .nested) mark)
  token : ∀ d region,
    Descends text Tokenizing.offset (fun s => s.specs.length) (tokensTurn n text d region)
  tag : ∀ s s', tagTurn n text heed s = .ok (.next s') →
    byteSize text - s'.offset < byteSize text - s.offset ∨ heed = false ∧ Stuck text s.offset
  value : ∀ quote, Descends text Valuing.offset (fun _ => 0) (valueTurn n text quote)
  suffix : Descends text id (fun _ => 0) (implicitTurn n text)
  code : ∀ stop, Bytewise stop → Descends text Scanning.offset Scanning.pending (scanTurn text stop)

/-- Whatever is wrong, reading goes on behind the sign of the construct and in the text, and no
earlier than where the error was found, where a body or a region ended, or where any turn of the
loop stood. -/
structure Recovering : Prop where
  construct : ∀ scope mark rest p, onward mark text = .ok ('@' :: rest) →
    transition n text (nodes heed n text t k .nested) t scope mark = .ok p → mark < p.offset ∧
      p.offset ≤ byteSize text
  code : ∀ stop, Bytewise stop → ∀ i f resume, codeAt n text i stop = .ok (.error (f, resume)) →
    i ≤ f.span.start ∧ f.span.start ≤ resume ∧ resume ≤ byteSize text
  expression : ∀ i f, implicitEnd n text i = .ok (.error f) →
    i ≤ f.1 ∧ f.1 ≤ (recover text f).2 ∧ (recover text f).2 ≤ byteSize text
  body : ∀ mark i closed faults after, closeBody text mark i = .ok (closed, faults, after) →
    i ≤ after ∧ after ≤ byteSize text
  directive : ∀ scope mark d rest region p, onward mark text =
    .ok (('@' :: d.keyword.toList) ++ rest) →
    directiveRegion text mark d = .ok region →
    (∀ s, Reaches (tokensTurn n text d region) ⟨d.tokens, [], region.start⟩ s →
      s.offset ≤ region.stop) ∧
      (directiveAt n text (nodes heed n text t k .nested) scope mark d = .ok p →
        region.stop ≤ p.offset ∧ p.offset ≤ byteSize text)
  branch : ∀ mark, Place text mark → ∀ chained j s s' r,
    loop (controlTurn n text (nodes heed n text t k .nested) mark chained) j s = .ok r →
    Reaches (controlTurn n text (nodes heed n text t k .nested) mark chained) s s' →
      s'.offset ≤ r.offset
  arm : ∀ mark, Place text mark → ∀ j s s' r,
    loop (armTurn n text (nodes heed n text t k .nested) mark) j s = .ok r →
    Reaches (armTurn n text (nodes heed n text t k .nested) mark) s s' → s'.offset ≤ r.offset
  node : ∀ scope j s s' r,
    loop (nodesTurn n text (nodes heed n text t k .nested) t heed scope) j s = .ok r →
    Reaches (nodesTurn n text (nodes heed n text t k .nested) t heed scope) s s' →
      s'.offset ≤ r.offset

theorem descending : Descending heed n k text t where
  node := nodesTurn_descends
  branch _ hmark chained := controlTurn_descends hmark chained
  arm _ hmark := armTurn_descends hmark
  token _ _ := tokensTurn_descends
  tag _ _ h := tagTurn_descends h
  value := valueTurn_descends
  suffix := implicitTurn_descends
  code _ hstop := scanTurn_descends hstop

theorem recovering : Recovering heed n k text t where
  construct _ _ _ _ hmark h := transition_bounds hmark h
  code _ hstop _ _ _ h := codeAt_bounds hstop h
  expression _ _ h := implicitEnd_bounds h
  body _ _ _ _ _ h := closeBody_bounds h
  directive _ _ _ _ _ _ hmark hregion :=
    ⟨fun _ h => tokens_bounds hmark hregion h, fun h => directiveAt_bounds hmark hregion h⟩
  branch _ hmark chained _ _ _ _ hloop h := offset_le_of_loop
    (fun _ _ hs => Nat.le_of_lt ((controlTurn_descends hmark chained).offset_lt hs)) (fun _ _ hs =>
      (controlTurn_last hmark hs).1)
    hloop h
  arm _ hmark _ _ _ _ hloop h := offset_le_of_loop
    (fun _ _ hs => Nat.le_of_lt ((armTurn_descends hmark).offset_lt hs)) (fun _ _ hs =>
      (armTurn_last hmark hs).1) hloop h
  node scope _ _ _ _ hloop h := offset_le_of_loop
    (fun _ _ hs => Nat.le_of_lt ((nodesTurn_descends scope).offset_lt hs)) (fun _ _ hs =>
      (nodesTurn_last hs).1) hloop h

end

/-- A template is read to its end, with a turn more in each loop than there are characters, unless a
tag is stuck at a slash. -/
theorem parse_ends (s : Source) (t : DirectiveTable) :
    (¬ Stalls s t → ∀ n, s.text.toList.length < n → parse false n s t = .ok (Tree.parse s t)) ∧
      ∀ heed n k, Descending heed n k s.text.toList t ∧ Recovering heed n k s.text.toList t :=
  ⟨fun hstalls _ hn => parse_of_not_stalls hstalls hn, fun heed n k =>
    ⟨descending heed n k _ t, recovering heed n k _ t⟩⟩

/-- An unterminated body with a tag in it. -/
theorem parse_ends_unterminated :
    ¬ Stalls { name := "a", text := "@if b \x7b<p class='@c'>" } .standard ∧
      parse false 40 { name := "a", text := "@if b \x7b<p class='@c'>" } .standard =
        .ok (Tree.parse { name := "a", text := "@if b \x7b<p class='@c'>" } .standard) :=
  ⟨not_stalls (by decide) _, (parse_ends _ _).1 (not_stalls (by decide) _) 40 (by decide)⟩

end Templating.Offset
