import Templating.Render.Execution

/-! What a task gives when it is run to its end, however often it stops on the way. -/
namespace Templating.Render
variable {ω α β τ ε : Type}

theorem Poll.finish_bind (p : Poll ω α) (f : α → Task ω β) :
    (p.bind f).finish = p.finish.bind fun (a, w) => (f a w).finish := by
  induction p with
  | ready a w => rfl
  | pending w resume ih => exact ih w
  | endless => rfl

theorem Poll.bind_pure (p : Poll ω α) : p.bind (fun a w => .ready a w) = p := by
  induction p with
  | ready a w => rfl
  | pending w resume ih => exact congrArg (Poll.pending w) (funext ih)
  | endless => rfl

theorem Poll.bind_bind {γ : Type} (p : Poll ω α) (f : α → Task ω β) (g : β → Task ω γ) :
    (p.bind f).bind g = p.bind fun a w => (f a w).bind g := by
  induction p with
  | ready a w => rfl
  | pending w resume ih => exact congrArg (Poll.pending w) (funext ih)
  | endless => rfl

instance : LawfulMonad (Task ω) :=
  LawfulMonad.mk' (Task ω) (fun t => funext fun w => (t w).bind_pure) (fun _ _ => rfl) fun t f g =>
    funext fun w => (t w).bind_bind f g

theorem bind_of_ready {t : Task ω α} {f : α → Task ω β} {a : α} {w w' : ω} (h : t w = .ready a w') :
    (t >>= f) w = f a w' := by
  show (t w).bind f = f a w'
  rw [h]
  rfl

/-- The task ends with a result, in a world. -/
def Task.Gives (t : Task ω α) (w : ω) (a : α) (w' : ω) : Prop := (t w).finish = some (a, w')

theorem gives_pure {a b : α} {w w' : ω} : (pure a : Task ω α).Gives w b w' ↔ a = b ∧ w = w' := by
  simp [Task.Gives, pure, Poll.finish]

theorem gives_bind {t : Task ω α} {f : α → Task ω β} {b : β} {w w'' : ω} :
    (t >>= f).Gives w b w'' ↔ ∃ a w', t.Gives w a w' ∧ (f a).Gives w' b w'' := by
  have h : (t >>= f) w = (t w).bind f := rfl
  simp [Task.Gives, h, Poll.finish_bind, Option.bind_eq_some_iff]

theorem Task.Gives.bind {t : Task ω α} {f : α → Task ω β} {a : α} {b : β} {w w' w'' : ω}
    (ht : t.Gives w a w') (hf : (f a).Gives w' b w'') : (t >>= f).Gives w b w'' :=
  gives_bind.mpr ⟨a, w', ht, hf⟩

theorem gives_modify {f : ω → ω} {u : Unit} {w w' : ω} : (Task.modify f).Gives w u w' ↔
    w' = f w := by
  simp [Task.Gives, Task.modify, Poll.finish, eq_comm]

theorem gives_suspend {u : Unit} {w w' : ω} : Task.suspend.Gives w u w' ↔ w' = w := by
  simp [Task.Gives, Task.suspend, Poll.finish, eq_comm]

/-! Attempts -/

theorem gives_attempt_bind {x : Attempt τ ε α} {f : α → Attempt τ ε β} {b : Except RenderError β}
    {w w'' : World τ ε} :
    (x >>= f).run.Gives w b w'' ↔ (∃ e, x.run.Gives w (.error e) w'' ∧ b = .error e) ∨
      ∃ a w', x.run.Gives w (.ok a) w' ∧ (f a).run.Gives w' b w'' := by
  have hb : (x >>= f).run = (x.run >>= fun r => ExceptT.bindCont f r) := rfl
  rw [hb, gives_bind]
  constructor
  · rintro ⟨r, w', hx, hf⟩
    cases r with
    | ok a => exact .inr ⟨a, w', hx, hf⟩
    | error e =>
      obtain ⟨rfl, rfl⟩ := gives_pure.mp hf
      exact .inl ⟨e, hx, rfl⟩
  · rintro (⟨e, hx, rfl⟩ | ⟨a, w', hx, hf⟩)
    · exact ⟨_, w'', hx, gives_pure.mpr ⟨rfl, rfl⟩⟩
    · exact ⟨_, w', hx, hf⟩

theorem attempt_bind_of_ok {x : Attempt τ ε α} {f : α → Attempt τ ε β} {a : α} {w w' : World τ ε}
    (h : x.run w = .ready (.ok a) w') : (x >>= f).run w = (f a).run w' :=
  bind_of_ready (f := ExceptT.bindCont f) h

theorem gives_lift {t : Run τ ε α} {r : Except RenderError α} {w w' : World τ ε} :
    (liftM t : Attempt τ ε α).run.Gives w r w' ↔ ∃ a, t.Gives w a w' ∧ r = .ok a := by
  have hl : (liftM t : Attempt τ ε α).run = (t >>= fun a => pure (.ok a)) := rfl
  rw [hl, gives_bind]
  constructor
  · rintro ⟨a, w₁, ht, hp⟩
    obtain ⟨rfl, rfl⟩ := gives_pure.mp hp
    exact ⟨a, ht, rfl⟩
  · rintro ⟨a, ht, rfl⟩
    exact ⟨a, w', ht, gives_pure.mpr ⟨rfl, rfl⟩⟩

theorem gives_lift_bind {t : Run τ ε α} {f : α → Attempt τ ε β} {r : Except RenderError β}
    {w w'' : World τ ε} :
    ((liftM t : Attempt τ ε α) >>= f).run.Gives w r w'' ↔ ∃ a w', t.Gives w a w' ∧
      (f a).run.Gives w' r w'' := by
  rw [gives_attempt_bind]
  constructor
  · rintro (⟨e, he, -⟩ | ⟨a, w', ha, hf⟩)
    · obtain ⟨_, -, hr⟩ := gives_lift.mp he
      cases hr
    · obtain ⟨_, ht, hr⟩ := gives_lift.mp ha
      cases hr
      exact ⟨a, w', ht, hf⟩
  · rintro ⟨a, w', ht, hf⟩
    exact .inr ⟨a, w', gives_lift.mpr ⟨a, ht, rfl⟩, hf⟩

section
variable {S T : Signature} {σ ρ : Type} {handle : (op : S.Op) → σ → Run τ ε (S.Reply op × σ)}

theorem gives_run_perform {op : S.Op} {s s' : σ} {r : S.Reply op} {w w' : World τ ε}
    (h : (handle op s).Gives w (r, s') w') :
    ((Program.perform op Program.done).run handle s).Gives w (r, s') w' :=
  h.bind (gives_pure.mpr ⟨rfl, rfl⟩)

theorem gives_run_bind {p : Program S α} {f : α → Program S β} {s s' s'' : σ} {a : α} {b : β}
    {w w' w'' : World τ ε}
    (hp : (p.run handle s).Gives w (a, s') w') (hf : ((f a).run handle s').Gives w' (b, s'') w'') :
    ((p.bind f).run handle s).Gives w (b, s'') w'' := by
  induction p generalizing s w with
  | done x =>
    obtain ⟨hx, rfl⟩ := gives_pure.mp hp
    obtain ⟨rfl, rfl⟩ : x = a ∧ s = s' := by simpa using hx
    exact hf
  | perform op next ih =>
    obtain ⟨⟨r, s₁⟩, w₁, hop, hnext⟩ := gives_bind.mp hp
    exact Task.Gives.bind hop (ih r hnext)

end

end Templating.Render
