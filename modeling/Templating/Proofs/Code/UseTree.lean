import Templating.Code.Grammar
import Templating.Proofs.Code.Lexing

/-! A tree of names that are used holds no literal, so its text is balanced or
ends inside a comment. -/
namespace Templating.Code
variable {α β : Type}

namespace Reader

/-- The tokens that the reader takes are no literals in quotes. -/
def Bare (r : Reader α) : Prop :=
  ∀ ts x rest, r.run ts = some (x, rest) → ∃ used, ts = used ++ rest ∧ Unquoted used

theorem unquoted_append {ts us : List Token} (h : Unquoted ts) (h' : Unquoted us) :
    Unquoted (ts ++ us) := by
  intro t ht
  rcases List.mem_append.mp ht with ht | ht
  · exact h t ht
  · exact h' t ht

theorem unquoted_nil : Unquoted [] := fun _ h => by cases h

theorem unquoted_one {t : Token} (h : t.quoted = false) : Unquoted [t] := by
  intro u hu
  obtain rfl := List.mem_singleton.mp hu
  exact h

/-! How readers are put together -/

theorem run_bind_eq {r : Reader α} {f : α → Reader β} {ts rest : List Token} {y : β}
    (h : (r >>= f).run ts = some (y, rest)) :
    ∃ x us, r.run ts = some (x, us) ∧ (f x).run us = some (y, rest) := by
  rw [StateT.run_bind] at h
  obtain ⟨⟨x, us⟩, hr, hf⟩ := Option.bind_eq_some_iff.mp h
  exact ⟨x, us, hr, hf⟩

theorem bare_pure (x : α) : Bare (pure x : Reader α) := by
  intro ts y rest h
  obtain ⟨-, rfl⟩ := Prod.mk.inj (Option.some.inj h)
  exact ⟨[], rfl, unquoted_nil⟩

theorem bare_failure : Bare (failure : Reader α) := fun _ _ _ h => by cases h

theorem Bare.bind {r : Reader α} {f : α → Reader β} (h : Bare r) (h' : ∀ x, Bare (f x)) :
    Bare (r >>= f) := by
  intro ts y rest hrun
  obtain ⟨x, us, hr, hf⟩ := run_bind_eq hrun
  obtain ⟨used, rfl, hused⟩ := h ts x us hr
  obtain ⟨used', rfl, hused'⟩ := h' x us y rest hf
  exact ⟨used ++ used', by simp, unquoted_append hused hused'⟩

theorem Bare.map {r : Reader α} (h : Bare r) (f : α → β) : Bare (f <$> r) := by
  have hbind : f <$> r = r >>= fun x => pure (f x) := (bind_pure_comp f r).symm
  rw [hbind]
  exact h.bind fun x => bare_pure (f x)

theorem bare_ite {c : Prop} [Decidable c] {r r' : Reader α} (h : Bare r) (h' : Bare r') :
    Bare (if c then r else r') := by
  split
  · exact h
  · exact h'

theorem bare_get : Bare (get : Reader (List Token)) := by
  intro ts x rest h
  obtain ⟨-, rfl⟩ := Prod.mk.inj (Option.some.inj h)
  exact ⟨[], rfl, unquoted_nil⟩

theorem bare_look (f : List Token → α) : Bare (do return f (← get) : Reader α) :=
  bare_get.bind fun ts => bare_pure (f ts)

theorem bare_guard (p : Prop) [Decidable p] : Bare (guard p : Reader Unit) := by
  unfold guard
  exact bare_ite (bare_pure ()) bare_failure

theorem bare_sees (s : String) : Bare (sees s) := bare_look _

theorem bare_seesWord (w : String) : Bare (seesWord w) := bare_look _

theorem bare_seesWords (ws : List String) : Bare (seesWords ws) := by
  induction ws with
  | nil => exact bare_pure false
  | cons w ws ih =>
    refine (bare_seesWord w).bind fun found => ?_
    cases found
    · exact ih
    · exact bare_pure true

theorem bare_seesName : Bare seesName := by
  refine bare_get.bind fun ts => ?_
  split <;> exact bare_pure _

theorem bare_atEnd : Bare atEnd := by
  refine bare_get.bind fun ts => ?_
  split <;> exact bare_pure _

/-! What is taken -/

theorem token_eq {ts rest : List Token} {t : Token} (h : token.run ts = some (t, rest)) :
    ts = t :: rest := by
  cases ts with
  | nil => cases h
  | cons u us =>
    obtain ⟨rfl, rfl⟩ := Prod.mk.inj (Option.some.inj h)
    rfl

theorem unquoted_symbol {cs : List Char} {ts : List Token} (h : beginsSymbol cs ts = true) :
    Unquoted (ts.take cs.length) := by
  fun_induction beginsSymbol cs ts with
  | case1 => exact unquoted_nil
  | case2 c x joint ts => exact unquoted_one rfl
  | case3 c cs x ts _ ih =>
    rw [Bool.and_eq_true] at h
    exact unquoted_append (@unquoted_one (.mark x true) rfl) (ih h.2)
  | case4 => cases h

theorem run_guard_eq {p : Prop} [Decidable p] {ts rest : List Token} {x : Unit}
    (h : (guard p : Reader Unit).run ts = some (x, rest)) : p ∧ ts = rest := by
  unfold guard at h
  split at h
  next hp =>
    obtain ⟨-, rfl⟩ := Prod.mk.inj (Option.some.inj h)
    exact ⟨hp, rfl⟩
  · cases h

theorem symbol_eq {s : String} {ts rest : List Token} {x : Pieces}
    (h : (symbol s).run ts = some (x, rest)) :
    beginsSymbol s.toList ts = true ∧ rest = ts.drop s.length := by
  obtain ⟨seen, us, hseen, h⟩ := run_bind_eq h
  obtain ⟨rfl, rfl⟩ := Prod.mk.inj (Option.some.inj hseen)
  obtain ⟨_, us, hguard, h⟩ := run_bind_eq h
  obtain ⟨hbegins, rfl⟩ := run_guard_eq hguard
  obtain ⟨_, us, hdrop, h⟩ := run_bind_eq h
  obtain ⟨-, rfl⟩ := Prod.mk.inj (Option.some.inj hdrop)
  obtain ⟨-, rfl⟩ := Prod.mk.inj (Option.some.inj h)
  exact ⟨hbegins, rfl⟩

theorem bare_symbol (s : String) : Bare (symbol s) := by
  intro ts x rest h
  obtain ⟨hbegins, rfl⟩ := symbol_eq h
  refine ⟨ts.take s.length, (List.take_append_drop _ _).symm, ?_⟩
  rw [← String.length_toList]
  exact unquoted_symbol hbegins

theorem anyWord_eq {w : String} {ts rest : List Token} (h : anyWord.run ts = some (w, rest)) :
    ts = .word w :: rest := by
  obtain ⟨t, us, ht, h⟩ := run_bind_eq h
  obtain rfl := token_eq ht
  cases t with
  | word v =>
    obtain ⟨rfl, rfl⟩ := Prod.mk.inj (Option.some.inj h)
    rfl
  | _ => cases h

theorem bare_anyWord : Bare anyWord := fun _ w _ h => ⟨[.word w], anyWord_eq h, unquoted_one rfl⟩

theorem name_eq {w : String} {ts rest : List Token} (h : name.run ts = some (w, rest)) :
    ts = .word w :: rest := by
  obtain ⟨v, us, hv, h⟩ := run_bind_eq h
  obtain ⟨_, us, hguard, h⟩ := run_bind_eq h
  obtain ⟨-, rfl⟩ := run_guard_eq hguard
  obtain ⟨rfl, rfl⟩ := Prod.mk.inj (Option.some.inj h)
  exact anyWord_eq hv

theorem bare_name : Bare name := fun _ w _ h => ⟨[.word w], name_eq h, unquoted_one rfl⟩

theorem keyword_eq {w : String} {ts rest : List Token} {x : Pieces}
    (h : (keyword w).run ts = some (x, rest)) :
    ts = .word w :: rest ∧ x = [.token (.word w)] := by
  obtain ⟨seen, us, hseen, h⟩ := run_bind_eq h
  obtain ⟨rfl, rfl⟩ := Prod.mk.inj (Option.some.inj hseen)
  obtain ⟨_, us, hguard, h⟩ := run_bind_eq h
  obtain ⟨hword, rfl⟩ := run_guard_eq hguard
  obtain ⟨t, us, ht, h⟩ := run_bind_eq h
  obtain rfl := token_eq ht
  obtain ⟨rfl, rfl⟩ := Prod.mk.inj (Option.some.inj h)
  obtain rfl : t = .word w := by simpa using hword
  exact ⟨rfl, rfl⟩

theorem bare_keyword (w : String) : Bare (keyword w) :=
  fun _ _ _ h => ⟨[.word w], (keyword_eq h).1, unquoted_one rfl⟩

theorem Bare.group {inner : Reader Pieces} (h : Bare inner) (d : Delimiter) :
    Bare (group d inner) := by
  refine Bare.map (fun ts x rest hrun => ?_) _
  obtain ⟨t, us, ht, hguarded⟩ := run_bind_eq hrun
  obtain ⟨_, _, hguard, hbody⟩ := run_bind_eq hguarded
  obtain ⟨hopen, rfl⟩ := run_guard_eq hguard
  obtain ⟨y, us', hinner, hend⟩ := run_bind_eq hbody
  obtain ⟨t', vs, ht', hguarded'⟩ := run_bind_eq hend
  obtain ⟨_, _, hguard', hlast⟩ := run_bind_eq hguarded'
  obtain ⟨hclose, rfl⟩ := run_guard_eq hguard'
  obtain ⟨-, rfl⟩ := Prod.mk.inj (Option.some.inj hlast)
  obtain ⟨used, rfl, hused⟩ := h _ _ _ hinner
  rw [token_eq ht, token_eq ht']
  obtain rfl := eq_of_beq hopen
  obtain rfl := eq_of_beq hclose
  refine ⟨.opening d :: (used ++ [.closing d]), by simp, ?_⟩
  exact unquoted_append (@unquoted_one (.opening d) rfl)
    (unquoted_append hused (@unquoted_one (.closing d) rfl))

theorem Bare.separated {item : Reader α} (h : Bare item) {closed : Reader Bool}
    (hclosed : Bare closed) (sep : String) :
    Bare (separated sep closed item) := by
  refine bare_get.bind fun ts => ?_
  induction ts.length + 1 with
  | zero => exact bare_pure []
  | succ n ih =>
    refine hclosed.bind fun ended =>
      bare_ite (bare_pure []) (h.bind fun x => hclosed.bind fun last => ?_)
    exact bare_ite (bare_pure _) ((bare_symbol sep).bind fun _ => ih.bind fun xs => bare_pure _)

theorem Bare.listed {item : Reader Pieces} (h : Bare item) : Bare (listed item) :=
  (h.separated bare_atEnd ",").map _

end Reader

open Reader

theorem bare_useTree (n : Nat) : Bare (Phrase.read n .useTree) := by
  induction n with
  | zero => exact bare_failure
  | succ n ih =>
    show Bare (UseTree.rule (Phrase.read n))
    unfold UseTree.rule
    refine (bare_sees "*").bind fun star => bare_ite (bare_symbol "*") ?_
    refine (bare_look _).bind fun brace => bare_ite (ih.listed.group .brace) ?_
    refine bare_seesName.bind fun name => (bare_seesWords _).bind fun word =>
      (bare_guard _).bind fun _ => ?_
    refine bare_anyWord.bind fun w => (bare_sees "::").bind fun colons => bare_ite ?_ ?_
    · exact (bare_symbol "::").bind fun _ => ih.bind fun _ => bare_pure _
    · refine (bare_seesWord "as").bind fun renamed => bare_ite ?_ (bare_pure _)
      refine (bare_keyword "as").bind fun _ => (bare_seesWord "_").bind fun hidden => ?_
      exact bare_ite (bare_anyWord.bind fun _ => bare_pure _) (bare_name.bind fun _ => bare_pure _)

theorem pasted_of_isUseTree {s : String} (h : isUseTree s = true) : Pasted s.toList := by
  obtain ⟨ps, hps⟩ := Option.isSome_iff_exists.mp h
  obtain ⟨ts, hts, hread⟩ := Option.bind_eq_some_iff.mp hps
  refine pasted_of_tokens hts ?_
  unfold Phrase.parse? whole? at hread
  split at hread
  next x hrun =>
    obtain ⟨used, rfl, hused⟩ := bare_useTree _ _ _ _ hrun
    rwa [List.append_nil]
  · cases hread

end Templating.Code
