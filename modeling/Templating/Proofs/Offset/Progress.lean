import Templating.Proofs.Offset.Slash

/-! Each turn of a loop that goes on leaves less to do: less text, or as much text and less of what
the loop has to do besides. -/
namespace Templating.Offset
open Code (Mode Stop)
open Markup (Nodes Scope Tree)
open Text (Cursor byteSize isBlank)
open Text.Cursor

/-- Each turn that goes on leaves less text, or as much text and less of the other measure. -/
def Descends {σ ρ : Type} (text : List Char) (offset also : σ → Nat)
    (turn : σ → Attempt (Turn σ ρ)) : Prop :=
  ∀ s s', turn s = .ok (.next s') →
    Prod.Lex (· < ·) (· < ·) (byteSize text - offset s', also s') (byteSize text - offset s, also s)

/-! What is told is told of a place -/

theorem exists_of_bind {α β : Type} {a : Attempt α} {f : α → Attempt β} {w : β}
    (h : a >>= f = .ok w) :
    ∃ v, a = .ok v ∧ f v = .ok w := by
  cases a with
  | error e => cases h
  | ok v => exact ⟨v, rfl, h⟩

section
variable {σ ρ : Type} {turn : σ → Attempt (Turn σ ρ)} {k : Nat} {s : σ} {r : ρ}

theorem exists_of_loop (h : loop turn k s = .ok r) : ∃ u, turn s = .ok u := by
  cases k with
  | zero => cases h
  | succ k =>
    obtain ⟨u, hu, -⟩ := exists_of_bind h
    exact ⟨u, hu⟩

end

section
variable {text : List Char} {i n : Nat}

def Place (text : List Char) (i : Nat) : Prop := ∃ c : Cursor, c.text = text ∧ c.offset = i

theorem place_of_onward {v : List Char} (h : onward i text = .ok v) : Place text i := by
  obtain ⟨c, hc, hi, -⟩ := exists_of_onward h
  exact ⟨c, hc, hi⟩

theorem place_of_bind {α : Type} {f : List Char → Attempt α} {w : α}
    (h : onward i text >>= f = .ok w) : Place text i := by
  obtain ⟨v, hv, -⟩ := exists_of_bind h
  exact place_of_onward hv

theorem place_of_skipWhile {p : Char → Bool} {α : Type} {f : Nat → Attempt α} {w : α}
    (h : skipWhile p text i >>= f = .ok w) :
    Place text i := by
  obtain ⟨v, hv, -⟩ := exists_of_bind h
  exact place_of_bind hv

theorem place_of_scan {stop : Stop} {r : Told} (h : scan n text i stop = .ok r) : Place text i := by
  obtain ⟨u, hu⟩ := exists_of_loop h
  exact place_of_bind hu

theorem place_of_codeAt {stop : Stop} {found : Except (Fault × Nat) (List Char × Nat × Nat)}
    (h : codeAt n text i stop = .ok found) :
    Place text i := by
  obtain ⟨r, hr, -⟩ := exists_of_bind h
  exact place_of_scan hr

theorem left_lt {c d : Cursor} (hc : c.text = text) (h : Beyond c d) :
    byteSize text - d.offset < byteSize text - c.offset := by
  have hlt := h.offset_lt
  have hle := h.ahead.le_byteSize
  rw [hc] at hle
  omega

end

section
variable {n k : Nat} {text : List Char} {t : DirectiveTable}

theorem descends_of_advances {σ ρ : Type} {turn : σ → Attempt (Turn σ ρ)} {offset also : σ → Nat}
    (hplace : ∀ s u, turn s = .ok u → Place text (offset s))
    (hturn : ∀ s c, c.text = text → offset s = c.offset →
      ∃ (heed enough : Prop) (r : ρ) (again : Cursor → σ → Prop),
      Advances heed enough (turn s) c r again ∧ ∀ d s', again d s' →
        offset s' = d.offset) : Descends text offset also turn := by
  intro s s' h
  obtain ⟨c, hc, hs⟩ := hplace s _ h
  obtain ⟨heed, enough, r, again, hadvances, hoffset⟩ := hturn s c hc hs.symm
  obtain ⟨d, hd, hagain⟩ := hadvances.beyond h
  have hleft := left_lt hc hd
  rw [← hoffset d s' hagain, hs] at hleft
  exact .left _ _ hleft

/-! Expressions, values and tags -/

theorem implicitTurn_descends : Descends text id (fun _ => 0) (implicitTurn n text) := by
  refine descends_of_advances (fun _ _ h => place_of_bind h) ?_
  rintro s c hc rfl
  exact ⟨False, False, _, _, implicitTurn_advances False.elim 0 hc, fun _ _ h => h.1⟩

theorem valueTurn_descends (quote : Char) :
    Descends text Valuing.offset (fun _ => 0) (valueTurn n text quote) := by
  refine descends_of_advances (fun _ _ h => place_of_bind h) ?_
  rintro ⟨draft, i⟩ c hc rfl
  exact ⟨False, False, _, _, valueTurn_advances hc False.elim quote 0 draft, fun _ _ h => h.1⟩

theorem tagTurn_place {heed : Bool} {s : Tagging}
    {u : Turn Tagging (Option (List Markup.Piece × Nat))}
    (h : tagTurn n text heed s = .ok u) : Place text s.offset := place_of_skipWhile h

def Stuck (text : List Char) (i : Nat) : Prop :=
  ∃ c : Cursor, c.text = text ∧ c.offset = i ∧ AtSlash c

theorem tagTurn_descends {heed : Bool} {s s' : Tagging}
    (h : tagTurn n text heed s = .ok (.next s')) :
    byteSize text - s'.offset < byteSize text - s.offset ∨ heed = false ∧ Stuck text s.offset := by
  obtain ⟨c, hc, hs⟩ := tagTurn_place h
  rcases tagTurn_advances (n := n) heed hc hs.symm 0 with hturn | ⟨hheed, hslash⟩
  · obtain ⟨d, hd, hagain⟩ := hturn.beyond h
    rw [hagain.1, ← hs]
    exact .inl (left_lt hc hd)
  · exact .inr ⟨hheed, c, hc, hs, hslash⟩

end

/-! Code -/

/-- A comment up to the end of its line is still to be left. -/
def Scanning.pending (s : Scanning) : Nat := if s.mode = .lineComment then 1 else 0

theorem scanTurn_descends {text : List Char} {stop : Stop} (hstop : Bytewise stop) :
    Descends text Scanning.offset Scanning.pending (scanTurn text stop) := by
  rintro ⟨i, mode, closers⟩ s' h
  obtain ⟨c, hc, rfl⟩ := place_of_bind h
  cases hrest : c.rest with
  | nil =>
    rw [scanTurn_nil hc hrest] at h
    split at h
    next hmode =>
      cases h
      subst hmode
      exact .right _ Nat.one_pos
    · cases h
  | cons x next =>
    rw [scanTurn_move hrest hc hstop] at h
    generalize Code.move stop mode closers c.before.head? x next = m at h
    cases m with
    | go skip mode' closers' =>
      cases h
      exact .left _ _ (left_lt hc (beyond_forward (by simp [hrest]) skip))
    | _ => cases h

/-! The tokens of a directive -/

theorem not_next_of_finish {text : List Char} {d : Directive} {region : Span} {s s' : Tokenizing}
    {faults : List Fault} :
    s.finish text d region faults ≠ .ok (.next s') := by
  intro h
  obtain ⟨rest, -, h⟩ := exists_of_bind h
  dsimp only at h
  split at h <;> cases h

theorem tokensTurn_descends {n : Nat} {text : List Char} {d : Directive} {region : Span} :
    Descends text Tokenizing.offset (fun s => s.specs.length) (tokensTurn n text d region) := by
  -- a token is looked for further on, and one token less
  have hless : ∀ {i j l m : Nat}, i ≤ j → l < m →
      Prod.Lex (· < ·) (· < ·) (byteSize text - j, l) (byteSize text - i, m) := by
    intro i j l m hij hlm
    rcases Nat.lt_or_eq_of_le (Nat.sub_le_sub_left hij (byteSize text)) with hlt | heq
    · exact .left _ _ hlt
    · rw [heq]
      exact .right _ hlm
  rintro ⟨specs, tokens, i⟩ s' h
  cases specs with
  | nil => exact absurd h not_next_of_finish
  | cons spec specs =>
    obtain ⟨before, -, h⟩ := exists_of_bind h
    obtain ⟨j, hskip, h⟩ := exists_of_bind h
    obtain ⟨rest, -, h⟩ := exists_of_bind h
    obtain ⟨found, -, h⟩ := exists_of_bind h
    have hij : i ≤ j := by
      obtain ⟨v, -, hj⟩ := exists_of_bind hskip
      obtain rfl := Except.ok.inj hj
      exact Nat.le_add_right _ _
    dsimp only at h
    split at h
    · obtain ⟨raw, -, h⟩ := exists_of_bind h
      obtain ⟨token, -, h⟩ := exists_of_bind h
      cases h
      exact hless (hij.trans (Nat.le_add_right _ _)) (Nat.lt_succ_self _)
    · split at h
      · cases h
        exact hless hij (Nat.lt_succ_self _)
      · exact absurd h not_next_of_finish
    · exact absurd h not_next_of_finish

/-! Bodies -/

section
variable {heed : Bool} {n k : Nat} {text : List Char} {t : DirectiveTable}

theorem bodySettles_nodes (heed : Bool) (n k : Nat) (text : List Char) (t : DirectiveTable) :
    BodySettles (heed = true) n k text t (nodes heed n text t k .nested) :=
      fun _ _ hc hm => nodes_settle heed k .nested hc hm

theorem controlTurn_descends {mark : Nat} (hmark : Place text mark) (chained : Bool) :
    Descends text Clausing.offset (fun _ => 0)
      (controlTurn n text (nodes heed n text t k .nested) mark chained) := by
  obtain ⟨m, hm, rfl⟩ := hmark
  refine descends_of_advances (fun _ _ h => ?_) fun _ _ hc hs => ⟨_, _, _, _,
    controlTurn_advances (bodySettles_nodes heed n k text t) hm hc hs (Nat.le_refl _) chained rfl,
      fun _ _ h => h.1⟩
  obtain ⟨found, hfound, -⟩ := exists_of_bind h
  exact place_of_codeAt hfound

theorem armTurn_descends {mark : Nat} (hmark : Place text mark) :
    Descends text Clausing.offset (fun _ => 0)
      (armTurn n text (nodes heed n text t k .nested) mark) := by
  obtain ⟨m, hm, rfl⟩ := hmark
  exact descends_of_advances (fun _ _ h => place_of_skipWhile h) fun _ _ hc hs => ⟨_, _, _, _,
    armTurn_advances (bodySettles_nodes heed n k text t) hm hc hs (Nat.le_refl _) rfl,
      fun _ _ h => h.1⟩

theorem nodesTurn_descends (scope : Scope) :
    Descends text Noding.offset (fun _ => 0)
      (nodesTurn n text (nodes heed n text t k .nested) t heed scope) :=
  descends_of_advances (fun _ _ h => place_of_bind h) fun _ _ hc hs => ⟨_, False, _, _,
    nodesTurn_advances hc False False.elim (bodySettles_nodes heed n k text t) hs (Nat.le_refl _)
      rfl, fun _ _ h => h.1⟩

end

end Templating.Offset
