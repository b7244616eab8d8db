import Templating.Proofs.Code.UseTree

/-!
Types that are paths. Their tokens are names with two colons between them, up to the first arguments
or to the end. If those arguments end the type, the last of these names is the last name of the
path.
-/

namespace Templating.Code

open Reader

/-- Names with two colons between them, and perhaps before the first; the last of the names. -/
inductive Names : List Token → String → Prop
  | one (w : String) : Names [.word w] w
  | rooted (w : String) (j : Bool) : Names [.mark ':' true, .mark ':' j, .word w] w
  | under {ts : List Token} {v : String} (h : Names ts v) (w : String) (j : Bool) :
      Names (ts ++ [.mark ':' true, .mark ':' j, .word w]) w

def Token.ofNames : Token → Bool
  | .word _ => true
  | .mark c _ => c == ':'
  | _ => false

def Token.opensArguments : Token → Bool
  | .mark c _ => c == '<'
  | _ => false

theorem not_opensArguments {t : Token} (h : t.ofNames = true) : t.opensArguments = false := by
  cases t with
  | mark c j =>
    obtain rfl := eq_of_beq h
    rfl
  | _ => rfl

theorem Names.all {ts : List Token} {v : String} (h : Names ts v) : ∀ t ∈ ts, t.ofNames = true := by
  induction h with
  | one w => simp [Token.ofNames]
  | rooted w j => simp [Token.ofNames]
  | under h w j ih => exact List.forall_mem_append.mpr ⟨ih, by simp [Token.ofNames]⟩

theorem Names.exists_last {ts : List Token} {v : String} (h : Names ts v) :
    ∃ us, ts = us ++ [.word v] ∧ (us = [] ∨ ∃ vs j, us = vs ++ [.mark ':' true, .mark ':' j]) := by
  cases h with
  | one => exact ⟨[], rfl, .inl rfl⟩
  | rooted _ j => exact ⟨[.mark ':' true, .mark ':' j], rfl, .inr ⟨[], j, rfl⟩⟩
  | @under us _ _ _ j => exact ⟨us ++ [.mark ':' true, .mark ':' j], by simp, .inr ⟨us, j, rfl⟩⟩

/-! What readers of paths take -/

section
variable {α : Type} {read : Readers} {ts us rest : List Token}

theorem run_sees_bind (s : String) (f : Bool → Reader α) (ts : List Token) :
    (sees s >>= f).run ts = (f (beginsSymbol s.toList ts)).run ts := rfl

theorem run_seesSymbolAt_bind (n : Nat) (s : String) (f : Bool → Reader α) (ts : List Token) :
    (seesSymbolAt n s >>= f).run ts = (f (beginsSymbol s.toList (ts.drop n))).run ts := rfl

theorem eq_of_beginsColons (h : beginsSymbol [':', ':'] ts = true) :
    ∃ j us, ts = .mark ':' true :: .mark ':' j :: us := by
  obtain ⟨x, us, rfl, rfl, h⟩ : ∃ x us, ts = .mark x true :: us ∧
    ':' = x ∧ beginsSymbol [':'] us = true := by
    rcases ts with _ | ⟨_ | _ | _ | ⟨x, _ | _⟩ | _ | _, us⟩
    case cons.mark.true =>
      obtain ⟨hx, h⟩ := Bool.and_eq_true_iff.mp h
      exact ⟨x, us, rfl, eq_of_beq hx, h⟩
    all_goals cases h
  rcases us with _ | ⟨_ | _ | _ | ⟨y, j⟩ | _ | _, us⟩
  case cons.mark =>
    obtain rfl := eq_of_beq h
    exact ⟨j, us, rfl⟩
  all_goals cases h

theorem opens_of_beginsAngle (h : beginsSymbol ['<'] ts = true) :
    ∃ t us, ts = t :: us ∧ t.opensArguments = true := by
  rcases ts with _ | ⟨_ | _ | _ | ⟨x, j⟩ | _ | _, us⟩
  case cons.mark =>
    obtain rfl := eq_of_beq h
    exact ⟨_, us, rfl, rfl⟩
  all_goals cases h

theorem colons_eq {x : Pieces} (h : (symbol "::").run ts = some (x, rest)) :
    ∃ j, ts = .mark ':' true :: .mark ':' j :: rest := by
  obtain ⟨hbegins, hrest⟩ := symbol_eq h
  obtain ⟨j, us, rfl⟩ := eq_of_beginsColons hbegins
  exact ⟨j, by rw [hrest]; rfl⟩

theorem colons?_eq {x : Pieces} (h : (symbol? "::").run ts = some (x, rest)) :
    ts = rest ∨ ∃ j, ts = .mark ':' true :: .mark ':' j :: rest := by
  obtain ⟨seen, us, hseen, h⟩ := run_bind_eq h
  obtain ⟨rfl, rfl⟩ := Prod.mk.inj (Option.some.inj hseen)
  split at h
  · exact .inr (colons_eq h)
  · obtain ⟨-, rfl⟩ := Prod.mk.inj (Option.some.inj h)
    exact .inl rfl

theorem seesName_eq {b : Bool} (h : seesName.run ts = some (b, rest)) :
    ts = rest ∧ (b = true → ∃ w us, ts = .word w :: us) := by
  obtain ⟨_, _, hget, h⟩ := run_bind_eq h
  obtain ⟨rfl, rfl⟩ := Prod.mk.inj (Option.some.inj hget)
  split at h
  next w hw =>
    obtain ⟨-, rfl⟩ := Prod.mk.inj (Option.some.inj h)
    rw [← List.head?_eq_getElem?] at hw
    obtain ⟨us, rfl⟩ := List.head?_eq_some_iff.mp hw
    exact ⟨rfl, fun _ => ⟨w, us, rfl⟩⟩
  · obtain ⟨rfl, rfl⟩ := Prod.mk.inj (Option.some.inj h)
    exact ⟨rfl, nofun⟩

theorem seesWords_eq {ws : List String} {b : Bool} (h : (seesWords ws).run ts = some (b, rest)) :
    ts = rest ∧ (b = true → ∃ w us, ts = .word w :: us) := by
  induction ws with
  | nil =>
    obtain ⟨rfl, rfl⟩ := Prod.mk.inj (Option.some.inj h)
    exact ⟨rfl, nofun⟩
  | cons w ws ih =>
    obtain ⟨seen, us, hseen, h⟩ := run_bind_eq h
    obtain ⟨rfl, rfl⟩ := Prod.mk.inj (Option.some.inj hseen)
    split at h
    next hw =>
      obtain ⟨-, rfl⟩ := Prod.mk.inj (Option.some.inj h)
      rw [beq_iff_eq, ← List.head?_eq_getElem?] at hw
      obtain ⟨us, rfl⟩ := List.head?_eq_some_iff.mp hw
      exact ⟨rfl, fun _ => ⟨w, us, rfl⟩⟩
    · exact ih h

theorem segment_eq {s : Path.Segment} (h : (Path.segment read false).run ts = some (s, rest)) :
    ∃ us, ts = .word s.name :: us ∧
      (us = rest ∨ ∃ x, (Path.given read).run us = some (x, rest)) := by
  unfold Path.segment at h
  obtain ⟨b, us, hb, h⟩ := run_bind_eq h
  obtain ⟨rfl, -⟩ := seesWords_eq hb
  split at h
  · obtain ⟨w, us, hw, h⟩ := run_bind_eq h
    obtain ⟨rfl, rfl⟩ := Prod.mk.inj (Option.some.inj h)
    exact ⟨us, anyWord_eq hw, .inl rfl⟩
  · obtain ⟨self, us, hself, h⟩ := run_bind_eq h
    obtain ⟨rfl, rfl⟩ := Prod.mk.inj (Option.some.inj hself)
    have hname : ∀ {f : String → Reader Path.Segment},
        (if ts[0]? == some (.word "Self") then anyWord >>= f else name >>=
          f : Reader Path.Segment).run ts = some (s, rest) →
        ∃ w us, ts = .word w :: us ∧ (f w).run us = some (s, rest) := by
      intro f h
      split at h
      · obtain ⟨w, us, hw, h⟩ := run_bind_eq h
        exact ⟨w, us, anyWord_eq hw, h⟩
      · obtain ⟨w, us, hw, h⟩ := run_bind_eq h
        exact ⟨w, us, name_eq hw, h⟩
    obtain ⟨w, us, rfl, hbehind⟩ := hname h
    simp only [run_sees_bind, run_seesSymbolAt_bind] at hbehind
    refine ⟨us, ?_⟩
    split at hbehind
    · obtain ⟨x, us', hx, hend⟩ := run_bind_eq hbehind
      obtain ⟨rfl, rfl⟩ := Prod.mk.inj (Option.some.inj hend)
      exact ⟨rfl, .inr ⟨x, hx⟩⟩
    · obtain ⟨rfl, rfl⟩ := Prod.mk.inj (Option.some.inj hbehind)
      exact ⟨rfl, .inl rfl⟩

theorem given_eq {x : Pieces × List Pieces} (h : (Path.given read).run ts = some (x, rest)) :
    ∃ t us, t.opensArguments = true ∧
      (ts = t :: us ∨ ∃ j, ts = .mark ':' true :: .mark ':' j :: t :: us) := by
  unfold Path.given at h
  obtain ⟨_, us, hcolons, h⟩ := run_bind_eq h
  obtain ⟨_, vs, hopening, -⟩ := run_bind_eq h
  obtain ⟨t, us', rfl, ht⟩ := opens_of_beginsAngle (symbol_eq hopening).1
  refine ⟨t, us', ht, ?_⟩
  cases colons?_eq hcolons with
  | inl h => exact .inl h
  | inr h => exact .inr h

/-- What a path has been read up to: the end, or arguments behind which, if they end the text, it
ends too. -/
def Upto (read : Readers) (us rest : List Token) (v last : String) : Prop :=
  us = rest ∧ v = last ∨
    ∃ x behind, (Path.given read).run us = some (x, behind) ∧ (behind = [] → rest = [] ∧ v = last)

def further (read : Readers) : Reader (Pieces × Path.Segment) :=
  do return (← symbol "::", ← Path.segment read false)

theorem further_eq {z : Pieces × Path.Segment} (h : (further read).run ts = some (z, rest)) :
    ∃ j us, ts = .mark ':' true :: .mark ':' j :: .word z.2.name :: us ∧
      (us = rest ∨ ∃ x, (Path.given read).run us = some (x, rest)) := by
  obtain ⟨_, us, hcolons, h⟩ := run_bind_eq h
  obtain ⟨s, us', hs, h⟩ := run_bind_eq h
  obtain ⟨rfl, rfl⟩ := Prod.mk.inj (Option.some.inj h)
  obtain ⟨j, rfl⟩ := colons_eq hcolons
  obtain ⟨vs, rfl, hvs⟩ := segment_eq hs
  exact ⟨j, vs, rfl, hvs⟩

theorem many_further_nil (n : Nat) :
    (many.go Path.goesOn (further read) n).run [] = some ([], []) := by cases n <;> rfl

/-- The names read so far are carried along. Where arguments follow one of them, no more is said
than what holds if the text ends with them. -/
theorem many_further_eq {n : Nat} {w : String} {ns : List Token}
    {more : List (Pieces × Path.Segment)} (hns : Names ns w)
    (h : (many.go Path.goesOn (further read) n).run ts = some (more, rest)) :
    ∃ cs us v, ts = cs ++ us ∧ Names (ns ++ cs) v ∧
      Upto read us rest v (more.foldl (fun _ z => z.2.name) w) := by
  induction n generalizing ns w ts more with
  | zero =>
    obtain ⟨rfl, rfl⟩ := Prod.mk.inj (Option.some.inj h)
    exact ⟨[], ts, w, rfl, by rwa [List.append_nil], .inl ⟨rfl, rfl⟩⟩
  | succ n ih =>
    obtain ⟨on, us, hon, h⟩ := run_bind_eq h
    obtain ⟨rfl, rfl⟩ := Prod.mk.inj (Option.some.inj hon)
    split at h
    · obtain ⟨z, us, hz, h⟩ := run_bind_eq h
      obtain ⟨zs, us', hzs, h⟩ := run_bind_eq h
      obtain ⟨rfl, rfl⟩ := Prod.mk.inj (Option.some.inj h)
      obtain ⟨j, vs, rfl, hvs⟩ := further_eq hz
      have hname := Names.under hns z.2.name j
      cases hvs with
      | inl hvs =>
        subst hvs
        obtain ⟨cs, us, v, rfl, hv, hupto⟩ := ih hname hzs
        exact ⟨_ :: _ :: _ :: cs, us, v, rfl, by simpa using hv, hupto⟩
      | inr hvs =>
        obtain ⟨x, hx⟩ := hvs
        refine ⟨[.mark ':' true, .mark ':' j, .word z.2.name], vs, z.2.name, rfl, hname,
          .inr ⟨x, us, hx, ?_⟩⟩
        rintro rfl
        rw [many_further_nil] at hzs
        obtain ⟨rfl, rfl⟩ := Prod.mk.inj (Option.some.inj hzs)
        exact ⟨rfl, rfl⟩
    · obtain ⟨rfl, rfl⟩ := Prod.mk.inj (Option.some.inj h)
      exact ⟨[], ts, w, rfl, by rwa [List.append_nil], .inl ⟨rfl, rfl⟩⟩

theorem rest_eq {p q : Path} {ns : List Token}
    (h : (Path.rest read false p).run ts = some (q, rest)) (hns : Names ns p.last) :
    ∃ cs us v, ts = cs ++ us ∧ Names (ns ++ cs) v ∧ Upto read us rest v q.last := by
  unfold Path.rest at h
  obtain ⟨more, us, hmany, h⟩ := run_bind_eq h
  obtain ⟨rfl, rfl⟩ := Prod.mk.inj (Option.some.inj h)
  obtain ⟨_, _, hget, hmore⟩ := run_bind_eq hmany
  obtain ⟨rfl, rfl⟩ := Prod.mk.inj (Option.some.inj hget)
  have hlast : ∀ p : Path, (more.foldl (fun (p : Path) z =>
      { p with
        pieces := p.pieces ++ z.1 ++ z.2.pieces, count := p.count + 1
        mere := p.mere && !z.2.given, bare := !z.2.given
        last := z.2.name, arguments := z.2.arguments }) p).last =
          more.foldl (fun _ z => z.2.name) p.last :=
    fun p => (List.foldl_hom Path.last fun _ _ => rfl).symm
  obtain ⟨cs, us', v, rfl, hv, hupto⟩ := many_further_eq hns hmore
  rw [← hlast] at hupto
  exact ⟨cs, us', v, rfl, hv, hupto⟩

theorem path_eq {p : Path} (h : (Path.path read false).run ts = some (p, rest)) :
    ∃ ns us v, ts = ns ++ us ∧ Names ns v ∧ Upto read us rest v p.last := by
  unfold Path.path at h
  obtain ⟨colons, us, hcolons, h⟩ := run_bind_eq h
  obtain ⟨s, vs, hs, h⟩ := run_bind_eq h
  obtain ⟨us', rfl, hus'⟩ := segment_eq hs
  obtain ⟨ns, rfl, hns⟩ : ∃ ns, ts = ns ++ us' ∧ Names ns s.name := by
    cases colons?_eq hcolons with
    | inl h => exact ⟨[.word s.name], h, .one s.name⟩
    | inr h =>
      obtain ⟨j, h⟩ := h
      exact ⟨[.mark ':' true, .mark ':' j, .word s.name], h, .rooted s.name j⟩
  cases hus' with
  | inl heq =>
    subst heq
    obtain ⟨cs, us, v, rfl, hv, hupto⟩ := rest_eq h hns
    exact ⟨ns ++ cs, us, v, by simp, hv, hupto⟩
  | inr hgiven =>
    obtain ⟨x, hx⟩ := hgiven
    refine ⟨ns, us', s.name, rfl, hns, .inr ⟨x, vs, hx, ?_⟩⟩
    rintro rfl
    obtain ⟨rfl, rfl⟩ := Prod.mk.inj (Option.some.inj h)
    exact ⟨rfl, rfl⟩

/-! Types -/

def Looks (r : Reader α) : Prop := ∀ ts x us, r.run ts = some (x, us) → us = ts

theorem looks_pure (x : α) : Looks (pure x) := by
  intro ts y us h
  exact (Prod.mk.inj (Option.some.inj h)).2.symm

theorem looks_get : Looks get := by
  intro ts y us h
  exact (Prod.mk.inj (Option.some.inj h)).2.symm

theorem Looks.bind {β : Type} {r : Reader α} {f : α → Reader β} (h : Looks r)
    (h' : ∀ x, Looks (f x)) : Looks (r >>= f) := by
  intro ts y us hrun
  obtain ⟨x, vs, hr, hf⟩ := run_bind_eq hrun
  obtain rfl := h ts x vs hr
  exact h' x vs y us hf

theorem looks_sees (s : String) : Looks (sees s) := looks_get.bind fun _ => looks_pure _

theorem looks_seesOpening (d : Delimiter) : Looks (seesOpening d) :=
  looks_get.bind fun _ => looks_pure _

theorem looks_seesWords (ws : List String) : Looks (seesWords ws) :=
  fun _ _ _ h => (seesWords_eq h).1.symm

theorem looks_seesName : Looks seesName := fun _ _ _ h => (seesName_eq h).1.symm

theorem looks_beginsPath : Looks TypeExpr.beginsPath :=
  looks_seesName.bind fun _ => (looks_seesWords _).bind fun _ => (looks_sees _).bind fun _ =>
    (looks_sees _).bind fun _ =>
    looks_pure _

/-- All that the reader gives has the property. -/
def Gives (P : α → Prop) (r : Reader α) : Prop := ∀ ts x rest, r.run ts = some (x, rest) → P x

section
variable {β : Type} {P : β → Prop} {c : Prop} [Decidable c] {k k' : Reader β}

theorem Gives.run {ts rest : List Token} {x : β} (h : k.run ts = some (x, rest)) (hk : Gives P k) :
    P x := hk ts x rest h

theorem gives_pure {x : β} (hx : P x) : Gives P (pure x : Reader β) := by
  intro ts y rest h
  obtain ⟨rfl, -⟩ := Prod.mk.inj (Option.some.inj h)
  exact hx

theorem gives_failure : Gives P (failure : Reader β) := fun _ _ _ h => by cases h

theorem gives_bind {r : Reader α} {f : α → Reader β} (h : ∀ x, Gives P (f x)) :
    Gives P (r >>= f) := by
  intro ts y rest hrun
  obtain ⟨x, us, -, hf⟩ := run_bind_eq hrun
  exact h x us y rest hf

theorem gives_ite (h : Gives P k) (h' : Gives P k') : Gives P (if c then k else k') := by
  split
  · exact h
  · exact h'

theorem gives_either {r r' : Reader α} {f : α → Reader β} (h : ∀ x, Gives P (f x)) :
    Gives P (if c then r >>= f else r' >>= f) := gives_ite (gives_bind h) (gives_bind h)

end

/-- What the reader gives as a type that is a path, another one gives. -/
def Defers (r r' : Reader TypeExpr) : Prop :=
  ∀ ts t rest, r.run ts = some (t, rest) → t.path?.isSome = true → r'.run ts = some (t, rest)

variable {q r r' : Reader TypeExpr}

theorem defers_refl (q : Reader TypeExpr) : Defers q q := fun _ _ _ h _ => h

theorem defers_ite {c : Prop} [Decidable c] (h : Defers r q) (h' : Defers r' q) :
    Defers (if c then r else r') q := by
  split
  · exact h
  · exact h'

theorem Looks.defers {r : Reader α} {f : α → Reader TypeExpr} (h : Looks r)
    (h' : ∀ x, Defers (f x) q) : Defers (r >>= f) q := by
  intro ts t rest hrun ht
  obtain ⟨x, us, hr, hf⟩ := run_bind_eq hrun
  obtain rfl := h ts x us hr
  exact h' x us t rest hf ht

theorem Defers.run {t : TypeExpr} (h : r.run ts = some (t, rest)) (ht : t.path?.isSome = true)
    (hr : Defers r q) :
    q.run ts = some (t, rest) := hr ts t rest h ht

def Pathless (t : TypeExpr) : Prop := t.path? = none

theorem Gives.defers (h : Gives Pathless r) (q : Reader TypeExpr) : Defers r q := by
  intro ts t rest hrun ht
  rw [show t.path? = none from h ts t rest hrun] at ht
  cases ht

theorem pathless_pure (ps : Pieces) (b : Bool) :
    Gives Pathless (pure { pieces := ps, bound := b }) := gives_pure rfl

theorem pathless_sum (strict : Bool) (first : Pieces) :
    Gives Pathless (TypeExpr.sum read strict first) :=
  gives_bind fun _ => pathless_pure _ _

theorem pathless_function (binder : Pieces) : Gives Pathless (TypeExpr.function read binder) := by
  unfold TypeExpr.function
  refine gives_bind fun safety => gives_bind fun foreign => gives_either fun abi => ?_
  exact gives_bind fun fn => gives_bind fun args => gives_bind fun arrow =>
    gives_either fun output => pathless_pure _ _

theorem pathless_parenthesised (plus : Bool) :
    Gives Pathless (TypeExpr.parenthesised read plus) := by
  unfold TypeExpr.parenthesised
  refine gives_bind fun optional => gives_bind fun inner => ?_
  exact gives_bind fun _ => gives_ite (pathless_sum _ _) (pathless_pure _ _)

theorem pathless_object (plus : Bool) : Gives Pathless (TypeExpr.object read plus) := by
  unfold TypeExpr.object
  exact gives_bind fun dyn => gives_either fun star => gives_bind fun _ => pathless_pure _ _

theorem binder?_eq {binder : Pieces} (h : (Bound.binder? read).run ts = some (binder, us)) :
    binder = [] ∧ us = ts ∨ binder ≠ [] := by
  unfold Bound.binder? at h
  obtain ⟨_, _, hword, h⟩ := run_bind_eq h
  obtain ⟨rfl, rfl⟩ := Prod.mk.inj (Option.some.inj hword)
  split at h
  · obtain ⟨rfl, rfl⟩ := Prod.mk.inj (Option.some.inj h)
    exact .inl ⟨rfl, rfl⟩
  · obtain ⟨_, _, _, h⟩ := run_bind_eq h
    obtain ⟨_, _, _, h⟩ := run_bind_eq h
    obtain ⟨k, _, hk, h⟩ := run_bind_eq h
    obtain ⟨g, _, _, h⟩ := run_bind_eq h
    obtain ⟨rfl, rfl⟩ := Prod.mk.inj (Option.some.inj h)
    obtain ⟨-, rfl⟩ := keyword_eq hk
    exact .inr (List.cons_ne_nil _ _)

theorem word_of_bound {x : α} {c : Prop} [Decidable c] {ws : List String} {k : Reader α}
    (h : (if c then (do guard ((← seesName) || (← seesWords ws)); k) else k : Reader α).run ts =
      some (x, rest)) :
    k.run ts = some (x, rest) ∧ (c → ∃ w us, ts = .word w :: us) := by
  split at h
  · obtain ⟨b, us, hb, h⟩ := run_bind_eq h
    obtain ⟨rfl, hname⟩ := seesName_eq hb
    obtain ⟨b', us, hb', h⟩ := run_bind_eq h
    obtain ⟨rfl, hwords⟩ := seesWords_eq hb'
    obtain ⟨_, us, hguard, h⟩ := run_bind_eq h
    obtain ⟨hor, rfl⟩ := run_guard_eq hguard
    exact ⟨h, fun _ => (Bool.or_eq_true_iff.mp hor).elim hname hwords⟩
  next hc => exact ⟨h, fun hc' => absurd hc' hc⟩

theorem ofNamed_of_rule {plus : Bool} {t : TypeExpr} (ht : t.path?.isSome = true)
    (h : (TypeExpr.rule read plus).run ts = some (t, rest)) :
    ∃ binder us, (Bound.binder? read).run ts = some (binder, us) ∧
      (binder ≠ [] → ∃ w vs, us = .word w :: vs) ∧
        (TypeExpr.ofNamed read plus binder).run us = some (t, rest) := by
  unfold TypeExpr.rule at h
  obtain ⟨binder, us, hbinder, h⟩ := run_bind_eq h
  obtain ⟨h, hword⟩ := word_of_bound h
  refine ⟨binder, us, hbinder, fun hne => hword (by simpa using hne), Defers.run h ht ?_⟩
  refine (looks_seesOpening _).defers fun _ => defers_ite ((pathless_parenthesised _).defers _) ?_
  refine (looks_seesWords _).defers fun _ => defers_ite ((pathless_function _).defers _) ?_
  refine looks_beginsPath.defers fun _ => defers_ite (defers_refl _) (Gives.defers ?_ _)
  -- what begins otherwise is no path
  refine gives_bind fun _ => gives_bind fun _ =>
    gives_ite (gives_bind fun _ => pathless_object _) ?_
  refine gives_bind fun _ => gives_ite (gives_bind fun _ => pathless_pure _ _) ?_
  refine gives_bind fun _ => gives_ite (gives_bind fun _ => gives_bind fun _ =>
    gives_either fun _ => gives_bind fun _ => pathless_pure _ _) ?_
  refine gives_bind fun _ => gives_ite (gives_bind fun _ => gives_bind fun _ => gives_bind fun _ =>
    gives_bind fun _ => pathless_pure _ _) ?_
  refine gives_bind fun _ => gives_bind fun _ =>
    gives_ite (gives_bind fun _ => pathless_pure _ _) ?_
  refine gives_bind fun _ =>
    gives_ite (gives_bind fun _ => gives_bind fun _ => pathless_pure _ _) ?_
  exact gives_bind fun _ => gives_ite (gives_bind fun _ => pathless_pure _ _) gives_failure

theorem qualified_eq {b : Bool} {p : Path}
    (h : (Path.qualified read false).run ts = some ((b, p), rest)) :
    b = beginsSymbol ['<'] ts ∧ (b = false → (Path.path read false).run ts = some (p, rest)) := by
  unfold Path.qualified at h
  rw [run_sees_bind] at h
  have hangle : "<".toList = ['<'] := rfl
  rw [hangle] at h
  split at h
  next hsees =>
    obtain ⟨q, us, hq, h⟩ := run_bind_eq h
    obtain ⟨hpair, rfl⟩ := Prod.mk.inj (Option.some.inj h)
    obtain ⟨rfl, rfl⟩ := Prod.mk.inj hpair
    exact ⟨by simpa using hsees, fun _ => hq⟩
  next hsees =>
    have htrue : b = true := by
      refine Gives.run (P := fun z : Bool × Path => z.1 = true) h ?_
      refine gives_bind fun opening => gives_bind fun this => gives_bind fun cast =>
        gives_either fun ofTrait => ?_
      exact gives_bind fun closing => gives_bind fun colons => gives_bind fun s =>
        gives_bind fun more => gives_pure rfl
    have hbegins : beginsSymbol ['<'] ts = true := by simpa using hsees
    exact ⟨htrue.trans hbegins.symm, fun hb => absurd (hb.symm.trans htrue) Bool.false_ne_true⟩

theorem path_of_ofNamed {plus : Bool} {binder : Pieces} {t : TypeExpr} {p : PathEnd}
    (ht : t.path? = some p) (h : (TypeExpr.ofNamed read plus binder).run ts = some (t, rest)) :
    p.qualified = beginsSymbol ['<'] ts ∧ (p.qualified = false →
      binder = [] ∧ ∃ q, (Path.path read false).run ts = some (q, rest) ∧ q.last = p.name) := by
  unfold TypeExpr.ofNamed at h
  obtain ⟨⟨b, q⟩, us, hq, h⟩ := run_bind_eq h
  obtain ⟨rfl, hpath⟩ := qualified_eq hq
  have hsome : t.path?.isSome = true := by rw [ht]; rfl
  dsimp only at h
  split at h
  next htrue =>
    obtain ⟨rfl, rfl⟩ := Prod.mk.inj (Option.some.inj h)
    obtain rfl := Option.some.inj ht
    refine ⟨htrue.symm, nofun⟩
  next hfalse =>
    have hpath := hpath (eq_false_of_ne_true hfalse)
    cases hbinder : binder.isEmpty with
    | false =>
      -- behind a binder stands a bound
      have hnone : Pathless t := by
        refine Gives.run h (gives_bind fun _ => gives_bind fun _ =>
          gives_ite ?_ (gives_bind fun _ => gives_ite ?_ ?_))
        · exact gives_bind fun _ => gives_bind fun _ => pathless_pure _ _
        · exact pathless_sum _ _
        · rw [hbinder]
          exact pathless_pure _ _
      rw [hnone] at hsome
      cases hsome
    | true =>
      have hend : (pure (TypeExpr.ofPath false q) : Reader TypeExpr).run us = some (t, rest) := by
        refine Defers.run h hsome ((looks_sees _).defers fun _ => (looks_sees _).defers fun _ =>
          defers_ite ?_ ?_)
        · exact (gives_bind fun _ => gives_bind fun _ => pathless_pure _ _).defers _
        · refine (looks_sees _).defers fun _ => defers_ite ((pathless_sum _ _).defers _) ?_
          rw [hbinder]
          exact defers_refl _
      obtain ⟨rfl, rfl⟩ := Prod.mk.inj (Option.some.inj hend)
      obtain rfl := Option.some.inj ht
      exact ⟨(eq_false_of_ne_true hfalse).symm, fun _ =>
        ⟨List.isEmpty_iff.mp hbinder, q, hpath, rfl⟩⟩

end

/-- However deep arguments are read from the tokens, none are left behind them. -/
def Closed (ts : List Token) : Prop :=
  ∀ n x rest, (Path.given (Phrase.read n)).run ts = some (x, rest) → rest = []

/-- Tokens of a path with the given last name. It has names up to the end, or arguments behind some
of them, which colons may precede; if arguments end the tokens, the last name is
the one before them. -/
inductive PathTokens (last : String) : List Token → Prop
  | names {ns : List Token} (h : Names ns last) : PathTokens last ns
  | arguments {ns us : List Token} {u : Token} {v : String} (h : Names ns v)
      (hu : u.opensArguments = true)
      (hlast : Closed (u :: us) → v = last) : PathTokens last (ns ++ u :: us)
  | colons {ns us : List Token} {u : Token} {v : String} (j : Bool) (h : Names ns v)
      (hu : u.opensArguments = true) :
      PathTokens last (ns ++ .mark ':' true :: .mark ':' j :: u :: us)

theorem pathTokens_of_path {n : Nat} {ts : List Token} {p : Path}
    (h : (Path.path (Phrase.read n) false).run ts = some (p, [])) :
    PathTokens p.last ts := by
  obtain ⟨ns, us, v, rfl, hns, hupto⟩ := path_eq h
  rcases hupto with ⟨rfl, rfl⟩ | ⟨x, behind, hgiven, hlast⟩
  · rw [List.append_nil]
    exact .names hns
  · obtain ⟨u, us', hu, rfl | ⟨j, rfl⟩⟩ := given_eq hgiven
    · exact .arguments hns hu fun hclosed => (hlast (hclosed n x behind hgiven)).2
    · exact .colons j hns hu

theorem pathTokens_of_type? {s : String} {t : TypeExpr} {p : PathEnd} (h : type? s = some t)
    (ht : t.path? = some p) :
    ∃ ts, Lexeme.tokens? s.toList = some ts ∧
      (p.qualified = true ∧ (∃ u us, ts = u :: us ∧ u.opensArguments = true) ∨
        p.qualified = false ∧ PathTokens p.name ts) := by
  obtain ⟨ts, htokens, hread⟩ := Option.bind_eq_some_iff.mp h
  refine ⟨ts, htokens, ?_⟩
  unfold Phrase.parse? whole? at hread
  split at hread
  next x hrun =>
    obtain rfl := Option.some.inj hread
    have hrule : (TypeExpr.rule (Phrase.read (8 * ts.length + 7)) true).run ts = some (x, []) :=
      hrun
    have hsome : x.path?.isSome = true := by rw [ht]; rfl
    obtain ⟨binder, us, hbinder, hword, hnamed⟩ := ofNamed_of_rule hsome hrule
    obtain ⟨hqualified, hpath⟩ := path_of_ofNamed ht hnamed
    cases hp : p.qualified with
    | true =>
      obtain ⟨u, vs, rfl, hu⟩ := opens_of_beginsAngle (hqualified.symm.trans hp)
      rcases binder?_eq hbinder with ⟨-, rfl⟩ | hne
      · exact .inl ⟨rfl, u, vs, rfl, hu⟩
      · obtain ⟨w, ws, hws⟩ := hword hne
        obtain ⟨rfl, -⟩ := List.cons.inj hws
        cases hu
    | false =>
      obtain ⟨rfl, q, hq, hlast⟩ := hpath hp
      rcases binder?_eq hbinder with ⟨-, rfl⟩ | hne
      · exact .inr ⟨rfl, hlast ▸ pathTokens_of_path hq⟩
      · exact absurd rfl hne
  · cases hread

end Templating.Code
