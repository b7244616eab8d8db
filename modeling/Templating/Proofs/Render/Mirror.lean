import Templating.Proofs.Render.World

/-! Two runs side by side: tasks that do the same whatever the sink holds, and writers that do the
same whatever has been written before. -/
namespace Templating.Render
variable {ω α β α' β' τ ε : Type}

/-- The second task ends if the first one does, as `f` says; otherwise neither ends. -/
def Task.Mirrors (f : α × ω → β × ω) (t : Task ω α) (w : ω) (u : Task ω β) (v : ω) : Prop :=
  (u v).finish = (t w).finish.map f

namespace Task.Mirrors
variable {f : α × ω → β × ω} {f' : α' × ω → β' × ω} {t : Task ω α} {u : Task ω β} {w v : ω}

theorem of_pure {a : α} {b : β} (h : f (a, w) = (b, v)) : Task.Mirrors f (pure a) w (pure b) v := by
  simp [Task.Mirrors, pure, Poll.finish, h]

theorem bind {g : α → Task ω α'} {k : β → Task ω β'} (h : Task.Mirrors f t w u v)
    (hg : ∀ a w', t.Gives w a w' → Task.Mirrors f' (g a) w' (k (f (a, w')).1) (f (a, w')).2) :
    Task.Mirrors f' (t >>= g) w (u >>= k) v := by
  have ht : (t >>= g) w = (t w).bind g := rfl
  have hu : (u >>= k) v = (u v).bind k := rfl
  unfold Task.Mirrors at h ⊢
  rw [ht, hu, Poll.finish_bind, Poll.finish_bind, h]
  cases hr : (t w).finish with
  | none => rfl
  | some r => exact hg r.1 r.2 hr

theorem gives (h : Task.Mirrors f t w u v) {a : α} {w' : ω} (ht : t.Gives w a w') :
    u.Gives v (f (a, w')).1 (f (a, w')).2 := by
  have hf : (t w).finish = some (a, w') := ht
  unfold Task.Mirrors at h
  rw [hf] at h
  exact h

theorem of_gives {a : α} {w' : ω} (ht : t.Gives w a w')
    (hu : u.Gives v (f (a, w')).1 (f (a, w')).2) : Task.Mirrors f t w u v := by
  have ht' : (t w).finish = some (a, w') := ht
  unfold Task.Mirrors
  rw [ht']
  exact hu

theorem congr {f₂ : α × ω → β × ω} (h : Task.Mirrors f t w u v)
    (hf : ∀ a w', t.Gives w a w' → f (a, w') = f₂ (a, w')) :
    Task.Mirrors f₂ t w u v := by
  unfold Task.Mirrors at h ⊢
  rw [h]
  cases hr : (t w).finish with
  | none => rfl
  | some r => exact congrArg some (hf r.1 r.2 hr)

end Task.Mirrors

/-! The sink -/

def World.withSink (w : World τ ε) (s : Sink) : World τ ε := { w with sink := s }

@[simp] theorem World.withSink_sink (w : World τ ε) (s : Sink) : (w.withSink s).sink = s := rfl

@[simp] theorem World.withSink_withSink (w : World τ ε) (s s' : Sink) :
    (w.withSink s).withSink s' = w.withSink s' := rfl

@[simp] theorem World.withSink_self (w : World τ ε) : w.withSink w.sink = w := rfl

@[simp] theorem World.arrive_withSink (w : World τ ε) (s : Sink) :
    (w.withSink s).arrive = w.arrive.withSink s := by
  obtain ⟨signals, arrivals, sink, log⟩ := w
  cases arrivals <;> rfl

/-- The task leaves the sink alone, and would do the same with any other. -/
def Task.Sinkless (t : Run τ ε α) : Prop :=
  ∀ w, (∀ a w', t.Gives w a w' → w'.sink = w.sink) ∧
    ∀ s, Task.Mirrors (fun (a, w') => (a, w'.withSink s)) t w t (w.withSink s)

theorem sinkless_modify {f : World τ ε → World τ ε} (hs : ∀ w, (f w).sink = w.sink)
    (hf : ∀ (w : World τ ε) (s : Sink), f (w.withSink s) = (f w).withSink s) :
    (Task.modify f).Sinkless := by
  intro w
  refine ⟨fun a w' h => ?_, fun s => ?_⟩
  · obtain rfl := gives_modify.mp h
    exact hs w
  · simp [Task.Mirrors, Task.modify, Poll.finish, hf]

theorem closed_sinkless : Closed (τ := τ) (ε := ε) Task.Sinkless := by
  refine ⟨?pure, ?bind, ?check, ?record, ?cancel, ?suspend, ?endless⟩
  case pure =>
    intro α a w
    refine ⟨fun b w' h => ?_, fun s => .of_pure rfl⟩
    obtain ⟨-, rfl⟩ := gives_pure.mp h
    rfl
  case bind =>
    intro α β t g ht hg w
    refine ⟨fun b w'' h => ?_, fun s => ?_⟩
    · obtain ⟨a, w', ha, hb⟩ := gives_bind.mp h
      rw [(hg a w w' ha w').1 b w'' hb, (ht w).1 a w' ha]
    · exact ((ht w).2 s).bind fun a w' ha => (hg a w w' ha w').2 s
  case check =>
    intro token w
    refine ⟨fun r w' h => ?_, fun s => ?_⟩
    · obtain ⟨-, rfl⟩ := gives_check.mp h
      exact w.arrive_sink
    · show (Poll.finish (.ready ((w.withSink s).arrive.signals.check token)
        (w.withSink s).arrive)) = _
      rw [World.arrive_withSink]
      rfl
  case record => exact fun e => sinkless_modify (fun _ => rfl) fun _ _ => rfl
  case cancel => exact fun token => sinkless_modify (fun _ => rfl) fun _ _ => rfl
  case suspend =>
    intro w
    refine ⟨fun u w' h => ?_, fun s => rfl⟩
    obtain rfl := gives_suspend.mp h
    rfl
  case endless =>
    intro α w
    refine ⟨fun a w' h => ?_, fun s => rfl⟩
    cases h

/-- The outcome of an attempt in a world with another sink, where `φ` says what
comes of a success. -/
def through (s : Sink) (φ : α → World τ ε → β) :
    Except RenderError α × World τ ε → Except RenderError β × World τ ε :=
  fun (r, w) => (r.map (φ · w), w.withSink s)

theorem Task.Mirrors.attempt_bind {s : Sink} {φ : α → World τ ε → β} {φ' : α' → World τ ε → β'}
    {x : Attempt τ ε α}
    {y : Attempt τ ε β} {g : α → Attempt τ ε α'} {k : β → Attempt τ ε β'} {w v : World τ ε}
    (h : Task.Mirrors (through s φ) x.run w y.run v)
    (hg : ∀ a w', x.run.Gives w (.ok a) w' →
      Task.Mirrors (through s φ') (g a).run w' (k (φ a w')).run (w'.withSink s)) :
    Task.Mirrors (through s φ') (x >>= g).run w (y >>= k).run v := by
  refine Task.Mirrors.bind h fun r w' hr => ?_
  cases r with
  | ok a => exact hg a w' hr
  | error e => exact .of_pure rfl

theorem Task.Mirrors.lift {s : Sink} {φ : α → World τ ε → β} {t : Run τ ε α} {u : Run τ ε β}
    {w v : World τ ε} (h : Task.Mirrors (fun (a, w) => (φ a w, w.withSink s)) t w u v) :
    Task.Mirrors (through s φ) (liftM t : Attempt τ ε α).run w (liftM u : Attempt τ ε β).run v :=
  Task.Mirrors.bind h fun _ _ _ => .of_pure rfl

theorem Task.Sinkless.mirrors {x : Attempt τ ε α} (hx : x.run.Sinkless) (w : World τ ε) (s : Sink) :
    Task.Mirrors (through s fun a _ => a) x.run w x.run (w.withSink s) :=
  ((hx w).2 s).congr fun r _ _ => by cases r <;> rfl

/-! Writers -/

namespace Writer

def holding (text : String) (x : Writer) : Writer := { x with output := text ++ x.output }

end Writer

def Written.holding (text : String) : Written τ → Written τ
  | .done r x => .done r (x.holding text)
  | .nested t x => .nested t (x.holding text)

theorem append_push (a b : String) (c : Char) : a ++ b.push c = (a ++ b).push c := by
  apply String.toList_injective
  simp

theorem encodeChar_append (text out : String) (c : Char) :
    encodeChar (text ++ out) c = text ++ encodeChar out c := by
  unfold encodeChar
  split
  · exact String.append_assoc
  · exact (append_push text out c).symm

theorem encodeOnto_append (text out s : String) :
    encodeOnto (text ++ out) s = text ++ encodeOnto out s := by
  have hfold : ∀ (cs : List Char) (out : String), cs.foldl encodeChar (text ++ out) =
      text ++ cs.foldl encodeChar out := by
    intro cs
    induction cs with
    | nil => exact fun _ => rfl
    | cons c cs ih =>
      intro out
      rw [List.foldl_cons, List.foldl_cons, encodeChar_append, ih]
  exact hfold s.toList out

theorem encodeChunks_append (text out : String) (chunks : List String) :
    encodeChunks (text ++ out) chunks = text ++ encodeChunks out chunks := by
  induction chunks generalizing out with
  | nil => rfl
  | cons s chunks ih =>
    have hs : encodeChunks (text ++ out) (s :: chunks) =
        encodeChunks (encodeOnto (text ++ out) s) chunks := rfl
    rw [hs, encodeOnto_append, ih]
    rfl

namespace Writer
variable (text : String) (x : Writer)

@[simp] theorem holding_kind : (x.holding text).kind = x.kind := rfl

@[simp] theorem holding_token : (x.holding text).token = x.token := rfl

@[simp] theorem holding_attribute? : (x.holding text).attribute? = x.attribute? := rfl

theorem holding_literal (s : String) : (x.holding text).literal s = (x.literal s).holding text := by
  simp [literal, holding, String.append_assoc]

theorem holding_pieces (chunks : List String) :
    (x.holding text).pieces chunks = (x.pieces chunks).holding text := by
  have hkind : (x.holding text).kind = x.kind := rfl
  unfold pieces
  rw [hkind]
  split
  · simp [holding, encodeChunks_append]
  · exact holding_literal text x _

theorem holding_write (v : Value τ) : (x.holding text).write v = (x.write v).holding text := by
  cases v <;> simp [write, Written.holding, holding_literal, holding_pieces]

theorem holding_followPart (lead : String) (literal : Bool) (v : Value τ) :
    (x.holding text).followPart lead literal v = (x.followPart lead literal v).holding text := by
  have hwrite : ∀ u : Value τ, ((x.holding text).literal lead).write u =
      ((x.literal lead).write u).holding text := by
    intro u
    rw [holding_literal, holding_write]
  cases v with
  | null => rfl
  | text s =>
    simp only [followPart]
    split
    · simp [Written.holding, holding_literal]
    · exact hwrite _
  | boolean b => exact hwrite (.boolean b)
  | encoded e => exact hwrite (.encoded e)
  | template t => exact hwrite (.template t)
  | display d => exact hwrite (.display d)

theorem holding_part (lead : String) (v : Value τ) (literal : Bool) :
    (x.holding text).part lead v literal = (x.part lead v literal).holding text := by
  have hopen : ∀ (a : OpenAttribute) (u : Value τ),
    ((x.holding text).literal a.opening).followPart lead literal u =
      ((x.literal a.opening).followPart lead literal u).holding text := by
    intro a u
    rw [holding_literal, holding_followPart]
  have ha : (x.holding text).attribute? = x.attribute? := rfl
  unfold part
  rw [ha]
  split
  · rfl
  split
  · rfl
  split
  · exact holding_followPart text x lead literal v
  split
  · exact hopen _ v
  split
  · rfl
  · rfl
  · exact hopen _ _
  · exact hopen _ _

theorem holding_beginAttribute (name opening closing : String) (count : Nat) :
    (x.holding text).beginAttribute name opening closing count =
      ((x.beginAttribute name opening closing count).1,
        (x.beginAttribute name opening closing count).2.holding text) := by
  have ha : (x.holding text).attribute? = x.attribute? := rfl
  unfold beginAttribute
  rw [ha]
  split
  · rfl
  · dsimp only
    split
    · rfl
    · rw [holding_literal]
      rfl

theorem holding_endAttribute :
    (x.holding text).endAttribute = (x.endAttribute.1, x.endAttribute.2.holding text) := by
  have ha : (x.holding text).attribute? = x.attribute? := rfl
  unfold endAttribute
  rw [ha]
  split
  · rfl
  · dsimp only
    split
    · rfl
    · rw [holding_literal]
      rfl

variable {text x} {nested : Nested τ ε} (hn : ∀ t token, (nested t token).run.Sinkless)
include hn

theorem mirrors_complete (o : Written τ) (w : World τ ε) (s : Sink) :
    Task.Mirrors (fun ((r, y), w') => ((r, y.holding text), w'.withSink s)) (complete nested o) w
      (complete nested (o.holding text)) (w.withSink s) := by
  cases o with
  | done r y => exact .of_pure rfl
  | nested t y =>
    refine Task.Mirrors.bind ((hn t y.token w).2 s) fun r w' _ => ?_
    cases r with
    | ok out => exact .of_pure (by rw [holding_literal])
    | error e => exact .of_pure rfl

theorem mirrors_perform {op : WriterOp τ ε} (hop : op ≠ .output) (w : World τ ε) (s : Sink) :
    Task.Mirrors (fun ((r, y), w') => ((r, y.holding text), w'.withSink s)) (x.perform nested op) w
      ((x.holding text).perform nested op) (w.withSink s) := by
  cases op with
  | output => exact absurd rfl hop
  | literal t => exact .of_pure (by rw [holding_literal])
  | write v =>
    simp only [perform, holding_write]
    exact mirrors_complete hn _ w s
  | part lead v literal =>
    simp only [perform, holding_part]
    exact mirrors_complete hn _ w s
  | beginAttribute name opening closing count => exact .of_pure (by rw [holding_beginAttribute])
  | endAttribute => exact .of_pure (by rw [holding_endAttribute])
  | kind => exact .of_pure rfl
  | cancel => exact ((closed_sinkless.cancel x.token w).2 s).bind fun _ _ _ => .of_pure rfl
  | check => exact ((closed_sinkless.check x.token w).2 s).bind fun _ _ _ => .of_pure rfl
  | suspend => exact ((closed_sinkless.suspend w).2 s).bind fun _ _ _ => .of_pure rfl
  | report e => exact ((closed_sinkless.record (.reported e) w).2 s).bind fun _ _ _ => .of_pure rfl

end Writer

end Templating.Render
