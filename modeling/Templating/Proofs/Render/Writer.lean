import Templating.Proofs.Render.Task

/-! What the operations of a writer keep: its kind and its token, and the attribute
that is being written. -/
namespace Templating.Render
variable {τ ε : Type} {nested : Nested τ ε}

/-- The value is written without an error by any writer that holds the token. -/
def Value.Writes (nested : Nested τ ε) (token : Token) : Value τ → Prop
  | display d => d.fails = false
  | template t => ∀ w, ∃ s w', (nested t token).Gives w (.ok s) w'
  | _ => True

def Written.writer : Written τ → Writer
  | .done _ x | .nested _ x => x

namespace Writer

@[simp] theorem literal_token (x : Writer) (s : String) : (x.literal s).token = x.token := rfl

@[simp] theorem literal_attribute? (x : Writer) (s : String) :
    (x.literal s).attribute? = x.attribute? := rfl

@[simp] theorem pieces_token (x : Writer) (chunks : List String) :
    (x.pieces chunks).token = x.token := by
  cases h : x.kind <;> simp [pieces, h]

@[simp] theorem pieces_attribute? (x : Writer) (chunks : List String) :
    (x.pieces chunks).attribute? = x.attribute? := by
  cases h : x.kind <;> simp [pieces, h]

/-- Writing ends well, and with the attribute as it was. -/
def Fills (nested : Nested τ ε) (x : Writer) (o : Written τ) : Prop :=
  ∀ w, ∃ x' w', (complete nested o).Gives w (.ok (), x') w' ∧ x'.token = x.token ∧
    x'.attribute? = x.attribute?

theorem fills_done {x x' : Writer} (ht : x'.token = x.token) (ha : x'.attribute? = x.attribute?) :
    Fills nested x (.done (.ok ()) x') :=
  fun w => ⟨x', w, gives_pure.mpr ⟨rfl, rfl⟩, ht, ha⟩

theorem fills_nested {x : Writer} {t : τ}
    (ht : ∀ w, ∃ s w', (nested t x.token).Gives w (.ok s) w') :
    Fills nested x (.nested t x) := by
  intro w
  obtain ⟨s, w', hs⟩ := ht w
  refine ⟨x.literal s, w', ?_, rfl, rfl⟩
  exact Task.Gives.bind hs (gives_pure.mpr ⟨rfl, rfl⟩)

theorem fills_write (x : Writer) {v : Value τ} (hv : v.Writes nested x.token) :
    Fills nested x (x.write v) := by
  cases v with
  | null => exact fills_done rfl rfl
  | boolean b => exact fills_done (by simp) (by simp)
  | text s => exact fills_done (by simp) (by simp)
  | encoded e => exact fills_done (by simp) (by simp)
  | template t => exact fills_nested hv
  | display d =>
    have hd : d.fails = false := hv
    simp only [write, hd]
    exact fills_done (by simp) (by simp)

theorem fills_followPart (x : Writer) (lead : String) (literal : Bool) {v : Value τ}
    (hv : v.Writes nested x.token) :
    Fills nested x (x.followPart lead literal v) := by
  have hw : Fills nested x ((x.literal lead).write v) := fills_write (x.literal lead) hv
  cases v with
  | null => exact fills_done rfl rfl
  | text s =>
    simp only [followPart]
    split
    · exact fills_done (by simp) (by simp)
    · exact hw
  | boolean b => exact hw
  | encoded e => exact hw
  | template t => exact hw
  | display d => exact hw

theorem gives_part {x : Writer} (ha : x.attribute?.isSome) (lead : String) (literal : Bool)
    {v : Value τ} (hv : v.Writes nested x.token) (w : World τ ε) :
    ∃ x' w', (complete nested (x.part lead v literal)).Gives w (.ok (), x') w' ∧
      x'.token = x.token ∧
      x'.attribute?.isSome := by
  obtain ⟨a, ha⟩ := Option.isSome_iff_exists.mp ha
  have hfills : ∀ {o : Written τ}, Fills nested x o →
    ∃ x' w', (complete nested o).Gives w (.ok (), x') w' ∧
      x'.token = x.token ∧ x'.attribute?.isSome := by
    intro o ho
    obtain ⟨x', w', hx, ht, hx'⟩ := ho w
    exact ⟨x', w', hx, ht, by rw [hx', ha]; rfl⟩
  have hopen : ∀ {u : Value τ}, u.Writes nested x.token →
      Fills nested x ((x.literal a.opening).followPart lead literal u) :=
    fun hu => fills_followPart (x.literal a.opening) lead literal hu
  have hsuppressed : ∀ y : Writer, y.token = x.token → y.attribute?.isSome → ∃ x' w',
      (complete nested (.done (.ok ()) y)).Gives w (.ok (), x') w' ∧ x'.token = x.token ∧
        x'.attribute?.isSome :=
    fun y ht hy => ⟨y, w, gives_pure.mpr ⟨rfl, rfl⟩, ht, hy⟩
  simp only [part, ha]
  split
  · exact hfills (fills_done rfl rfl)
  split
  · exact hfills (fills_followPart x lead literal hv)
  split
  · exact hfills (hopen hv)
  split
  · exact hsuppressed _ rfl rfl
  · exact hsuppressed _ rfl rfl
  · exact hfills (hopen (u := .text a.name) trivial)
  · exact hfills (hopen hv)

theorem gives_beginAttribute {x : Writer} (ha : x.attribute? = none) (name opening closing : String)
    (count : Nat) :
    ∃ x', x.beginAttribute name opening closing count = (.ok (), x') ∧ x'.token = x.token ∧
      x'.attribute?.isSome := by
  simp only [beginAttribute, ha]
  refine ⟨_, rfl, ?_, rfl⟩
  split <;> rfl

theorem gives_endAttribute {x : Writer} (ha : x.attribute?.isSome) :
    ∃ x', x.endAttribute = (.ok (), x') ∧ x'.token = x.token ∧ x'.attribute? = none := by
  obtain ⟨a, ha⟩ := Option.isSome_iff_exists.mp ha
  simp only [endAttribute, ha]
  refine ⟨_, rfl, ?_, rfl⟩
  split <;> rfl

/-- The writers are of one kind and under one token. -/
structure Akin (x y : Writer) : Prop where
  token : y.token = x.token
  kind : y.kind = x.kind

theorem Akin.refl (x : Writer) : x.Akin x := ⟨rfl, rfl⟩

theorem Akin.trans {x y z : Writer} (h : x.Akin y) (h' : y.Akin z) : x.Akin z :=
  ⟨h'.token.trans h.token, h'.kind.trans h.kind⟩

theorem akin_literal (x : Writer) (s : String) : x.Akin (x.literal s) := ⟨rfl, rfl⟩

theorem akin_pieces (x : Writer) (chunks : List String) : x.Akin (x.pieces chunks) := by
  unfold pieces
  split <;> exact ⟨rfl, rfl⟩

theorem akin_write (x : Writer) (v : Value τ) : x.Akin (x.write v).writer := by
  cases v with
  | null => exact .refl x
  | boolean b => exact akin_literal x _
  | text s => exact akin_pieces x [s]
  | encoded e => exact akin_literal x e.text
  | template t => exact .refl x
  | display d => exact akin_pieces x d.chunks

theorem akin_followPart (x : Writer) (lead : String) (literal : Bool) (v : Value τ) :
    x.Akin (x.followPart lead literal v).writer := by
  have hw : x.Akin ((x.literal lead).write v).writer := (akin_literal x lead).trans (akin_write _ v)
  cases v with
  | null => exact .refl x
  | text s =>
    simp only [followPart]
    split
    · exact (akin_literal x lead).trans (akin_literal _ s)
    · exact hw
  | boolean b => exact hw
  | encoded e => exact hw
  | template t => exact hw
  | display d => exact hw

theorem akin_part (x : Writer) (lead : String) (v : Value τ) (literal : Bool) :
    x.Akin (x.part lead v literal).writer := by
  have hopen : ∀ (a : OpenAttribute) (u : Value τ),
      x.Akin ((x.literal a.opening).followPart lead literal u).writer :=
    fun a u => (akin_literal x a.opening).trans (akin_followPart _ lead literal u)
  unfold part
  split
  · exact .refl x
  split
  · exact .refl x
  split
  · exact akin_followPart x lead literal v
  split
  · exact hopen _ v
  split
  · exact ⟨rfl, rfl⟩
  · exact ⟨rfl, rfl⟩
  · exact hopen _ _
  · exact hopen _ _

theorem akin_complete {o : Written τ} {r : Except RenderError Unit} {y : Writer} {w w' : World τ ε}
    (h : (complete nested o).Gives w (r, y) w') : o.writer.Akin y := by
  cases o with
  | done r' x =>
    obtain ⟨hx, -⟩ := gives_pure.mp h
    obtain ⟨-, rfl⟩ : r' = r ∧ x = y := by simpa using hx
    exact .refl x
  | nested t x =>
    obtain ⟨s, w₁, -, hs⟩ := gives_bind.mp h
    cases s with
    | ok s =>
      obtain ⟨hx, -⟩ := gives_pure.mp hs
      obtain ⟨-, rfl⟩ : Except.ok () = r ∧ x.literal s = y := by simpa using hx
      exact akin_literal x s
    | error e =>
      obtain ⟨hx, -⟩ := gives_pure.mp hs
      obtain ⟨-, rfl⟩ : Except.error e = r ∧ x = y := by simpa using hx
      exact .refl x

theorem akin_of_pure {ρ : Type} {o : ρ × Writer} {r : ρ} {y : Writer} {w w' : World τ ε}
    (h : (pure o : Run τ ε (ρ × Writer)).Gives w (r, y) w') {x : Writer} (hx : x.Akin o.2) :
    x.Akin y := by
  obtain ⟨rfl, -⟩ := gives_pure.mp h
  exact hx

theorem akin_perform {op : WriterOp τ ε} {x y : Writer} {r : op.Reply} {w w' : World τ ε}
    (h : (x.perform nested op).Gives w (r, y) w') : x.Akin y := by
  cases op with
  | literal s => exact akin_of_pure h (akin_literal x s)
  | write v => exact (akin_write x v).trans (akin_complete h)
  | beginAttribute name opening closing count =>
    refine akin_of_pure h ?_
    unfold beginAttribute
    split
    · exact .refl x
    · dsimp only
      split <;> exact ⟨rfl, rfl⟩
  | part lead v literal => exact (akin_part x lead v literal).trans (akin_complete h)
  | endAttribute =>
    refine akin_of_pure h ?_
    unfold endAttribute
    split
    · exact .refl x
    · dsimp only
      split <;> exact ⟨rfl, rfl⟩
  | output => exact akin_of_pure h (.refl x)
  | kind => exact akin_of_pure h (.refl x)
  | cancel | check | suspend | report =>
    obtain ⟨_, _, -, hp⟩ := gives_bind.mp h
    exact akin_of_pure hp (.refl x)

end Writer

theorem defineSection_cases (cx : Context τ ε) (name : String) (body : SectionBody τ ε) :
    cx.defineSection name body = (.error (.sectionRedefined name), cx) ∨
      ∃ cx', cx.defineSection name body = (.ok (), cx') ∧ cx'.writer = cx.writer := by
  unfold Context.defineSection
  split
  · exact .inl rfl
  · exact .inr ⟨_, rfl, rfl⟩

theorem gives_ofWriting {α : Type} {p : Program (writing τ ε) α} {cx : Context τ ε}
    {x : Writer} {a : α}
    {w w' : World τ ε} (h : (p.run (Writer.perform nested) cx.writer).Gives w (a, x) w') :
    ((ofWriting p).run (Context.perform nested) cx).Gives w (a, { cx with writer := x }) w' := by
  induction p generalizing cx w with
  | done b =>
    obtain ⟨hb, rfl⟩ := gives_pure.mp h
    obtain ⟨rfl, rfl⟩ : b = a ∧ cx.writer = x := by simpa using hb
    exact gives_pure.mpr ⟨rfl, rfl⟩
  | perform op next ih =>
    obtain ⟨⟨r, y⟩, w₁, hop, hnext⟩ := gives_bind.mp h
    have hcx : (cx.perform nested (.writer op)).Gives w (r, { cx with writer := y }) w₁ :=
      hop.bind (gives_pure.mpr ⟨rfl, rfl⟩)
    exact hcx.bind (@ih r { cx with writer := y } w₁ hnext)

end Templating.Render
