import Mathlib.Logic.Relation
import Templating.Proofs.Render.Sections

/-! Where a render may come to: at a template, in a body, between layouts, or in a section, at any
depth of nesting. A body in which another one runs has not ended; the inner body is reached by going
down from the operation of the outer one. -/
namespace Templating.Render
variable {τ ε : Type}

/-- What is to be done next. Templates can nest to a depth; after a template there may be so many
layouts left. -/
inductive Stage (τ ε : Type) where
  | template (depth left : Nat) (t : τ) (cx : Context τ ε)
  | body (depth : Nat) (p : Body τ ε) (cx : Context τ ε)
  | layouts (depth left : Nat) (x : Executed τ ε)
  | asked (depth : Nat) (x : Executed τ ε) (s : Section τ ε) (body : SectionBody τ ε)
  | writing (depth : Nat) (p : SectionBody τ ε) (y : Writer)

abbrev Moment (τ ε : Type) := Stage τ ε × World τ ε

def Written.nested? : Written τ → Option (τ × Writer)
  | .done .. => none
  | .nested t y => some (t, y)

def WriterOp.nested? (op : WriterOp τ ε) (y : Writer) : Option (τ × Writer) :=
  match op with
  | .write v => (y.write v).nested?
  | .part lead v fixed => (y.part lead v fixed).nested?
  | _ => none

/-- One step of a render; those in which a body starts bear the event. -/
inductive Step (lib : Library τ ε) : Option (Event τ ε) → Moment τ ε → Moment τ ε → Prop
  | start {depth left t cx w w'}
      (h : (World.check cx.writer.token : Attempt τ ε Unit).run.Gives w (.ok ()) w') :
    Step lib (some (.started t)) (.template depth left t cx, w) (.body depth (lib t).body cx,
      w'.recorded (.started t))
  | perform {depth op next cx r cx' w w'}
      (h : (cx.perform (renderNested lib depth) op).Gives w (r, cx') w') :
    Step lib none (.body depth (.perform op next) cx, w) (.body depth (next r) cx', w')
  | nest {depth op next cx t y w} (h : op.nested? cx.writer = some (t, y)) :
    Step lib none (.body (depth + 1) (.perform (.writer op) next) cx, w)
      (.template depth maxLayouts t (.new (lib t).kind y.token), w)
  | ask {depth name required next cx x s body w w'}
      (h : (World.check cx.writer.token : Attempt τ ε Unit).run.Gives w (.ok ()) w')
        (hx : cx.input? = some x)
      (hs : x.sections.find? (·.isCalled name) = some s) (hbody : s.body? = some body) :
    Step lib none (.body depth (.perform (.renderSection name required) next) cx, w)
      (.asked depth x s body, w')
  | leave {depth left t cx x w w'}
      (h : (execute lib (renderNested lib depth) t cx).run.Gives w (.ok x) w') :
    Step lib none (.template depth left t cx, w) (.layouts depth left x, w')
  | hop {depth left x t w w'} (ht : x.layout? = some t)
      (h : (World.check x.token : Attempt τ ε Unit).run.Gives w (.ok ()) w') :
    Step lib none (.layouts depth (left + 1) x, w)
      (.template depth left t
        { Context.new (lib t).kind x.token with input? := some { x with layout? := none } }, w')
  | startSection {depth x s body w w'}
      (h : (World.check x.token : Attempt τ ε Unit).run.Gives w (.ok ()) w') :
    Step lib (some (.sectionStarted s.name)) (.asked depth x s body, w)
      (.writing depth body { kind := x.kind, token := x.token },
        w'.recorded (.sectionStarted s.name))
  | write {depth op next y r y' w w'}
      (h : (Writer.perform (renderNested lib depth) op y).Gives w (r, y') w') :
    Step lib none (.writing depth (.perform op next) y, w) (.writing depth (next r) y', w')
  | nestWriting {depth op next y t z w} (h : op.nested? y = some (t, z)) :
    Step lib none (.writing (depth + 1) (.perform op next) y, w)
      (.template depth maxLayouts t (.new (lib t).kind z.token), w)

/-- A render that is at the first moment may come to the second. -/
abbrev Reaches (lib : Library τ ε) : Moment τ ε → Moment τ ε → Prop :=
  Relation.ReflTransGen fun m m' => ∃ e, Step lib e m m'

def entry (lib : Library τ ε) (depth : Nat) (t : τ) (token : Token) (direct : Bool)
    (w : World τ ε) : Moment τ ε :=
  (.template depth maxLayouts t { Context.new (lib t).kind token with direct }, w.arrive)

theorem Step.reaches {lib : Library τ ε} {e : Option (Event τ ε)} {m m' : Moment τ ε}
    (h : Step lib e m m') :
    Reaches lib m m' :=
  .single ⟨e, h⟩

namespace Stage

/-- All that is there goes by the token: the writer, and what is left of the body below. -/
def Under (token : Token) : Stage τ ε → Prop
  | template _ _ _ cx | body _ _ cx =>
    cx.writer.token = token ∧ ∀ x, cx.input? = some x → x.token = token
  | layouts _ _ x | asked _ x _ _ => x.token = token
  | writing _ _ y => y.token = token

end Stage

section
variable {lib : Library τ ε} {e : Option (Event τ ε)} {σ σ' : Stage τ ε} {m m' : Moment τ ε}
  {w w' : World τ ε} {token : Token}

theorem akin_of_nested? {op : WriterOp τ ε} {y z : Writer} {t : τ}
    (h : op.nested? y = some (t, z)) : y.Akin z := by
  have hwritten : ∀ {o : Written τ}, o.nested? = some (t, z) → o.writer = z := by
    intro o ho
    cases o with
    | done r x => cases ho
    | nested t' x => exact congrArg Prod.snd (Option.some.inj ho)
  cases op with
  | write v => exact hwritten h ▸ Writer.akin_write y v
  | part lead v literal => exact hwritten h ▸ Writer.akin_part y lead v literal
  | _ => cases h

theorem Step.under (h : Step lib e (σ, w) (σ', w')) (hσ : σ.Under token) : σ'.Under token := by
  cases h with
  | start _ => exact hσ
  | perform hop =>
    have hfollows := Context.follows_perform hop
    obtain ⟨names, -, hinput⟩ := hfollows.input
    refine ⟨hfollows.writer.token.trans hσ.1, fun x hx => ?_⟩
    rw [hinput] at hx
    obtain ⟨x₀, hx₀, rfl⟩ := Option.map_eq_some_iff.mp hx
    rw [x₀.spendAll_eq names]
    exact hσ.2 x₀ hx₀
  | nest hop => exact ⟨(akin_of_nested? hop).token.trans hσ.1, fun x hx => by cases hx⟩
  | ask _ hx _ _ => exact hσ.2 _ hx
  | leave hexecute =>
    rcases gives_execute.mp hexecute with ⟨-, hr, -⟩ | ⟨-, r, cx', hbody, hr⟩
    · cases hr
    obtain ⟨ds, htraces⟩ := gives_iff_traces.mp hbody
    cases r with
    | error _ => cases hr
    | ok _ =>
      obtain rfl := Except.ok.inj hr
      exact htraces.follows.writer.token.trans hσ.1
  | hop _ _ =>
    refine ⟨hσ, fun x hx => ?_⟩
    obtain rfl := Option.some.inj hx
    exact hσ
  | startSection _ => exact hσ
  | write hop => exact (Writer.akin_perform hop).token.trans hσ
  | nestWriting hop => exact ⟨(akin_of_nested? hop).token.trans hσ, fun x hx => by cases hx⟩

theorem Reaches.under (h : Reaches lib m m') (hm : m.1.Under token) : m'.1.Under token := by
  induction h with
  | refl => exact hm
  | tail _ hstep ih =>
    obtain ⟨e, hstep⟩ := hstep
    exact hstep.under ih

theorem World.extends_recorded (w : World τ ε) (e : Event τ ε) : w.Extends (w.recorded e) :=
  ⟨List.prefix_append _ _, fun _ h => h⟩

theorem extends_of_gives_check {r : Except RenderError Unit}
    (h : (World.check token : Attempt τ ε Unit).run.Gives w r w') :
    w.Extends w' := by
  obtain ⟨-, rfl⟩ := gives_check.mp h
  exact w.extends_arrive

theorem Step.extends (h : Step lib e m m') : m.2.Extends m'.2 := by
  have hnested : ∀ depth t token, Attempt.Grows (renderNested lib depth t token) :=
    grows_renderNested lib
  cases h with
  | start hcheck => exact (extends_of_gives_check hcheck).trans (World.extends_recorded _ _)
  | perform hop => exact grows_context (hnested _) _ _ hop
  | nest _ => exact .refl _
  | ask hcheck _ _ _ => exact extends_of_gives_check hcheck
  | leave hexecute => exact closed_grows.execute (hnested _) lib _ _ (fun _ => grows_emit) hexecute
  | hop _ hcheck => exact extends_of_gives_check hcheck
  | startSection hcheck => exact (extends_of_gives_check hcheck).trans (World.extends_recorded _ _)
  | write hop => exact closed_grows.writer (hnested _) _ _ hop
  | nestWriting _ => exact .refl _

theorem Reaches.extends (h : Reaches lib m m') : m.2.Extends m'.2 := by
  induction h with
  | refl => exact .refl _
  | tail _ hstep ih =>
    obtain ⟨e, hstep⟩ := hstep
    exact ih.trans hstep.extends

end

end Templating.Render
