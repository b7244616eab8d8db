import Templating.Page.Build
import Templating.Proofs.Render.Writer
import Templating.Proofs.Unit.Written
import Templating.Render.Script

/-! The calls that a body makes when it is run. They are those that are printed for its statements;
embedded code decides which branches are taken, how often, what values expressions have, and whether
a body is left before its end. So a body has as many runs as there are ways to decide. -/
namespace Templating.Page
open Markup (Clause)
open Render (Value WriterOp SectionBody Nested World Script.inTurn)
open Templating.Unit (WriterCall)
variable {τ ε : Type}

/-- A call as it is made, with the value that its expression has, if it has one. A section comes
with the calls of its body, should it be rendered. -/
inductive Made (τ : Type) where
  | call (c : WriterCall) (v : Value τ)
  | defineSection (name : String) (calls : List (Made τ))

namespace Made

def writing : Made τ → SectionBody τ ε
  | call (.literal text) _ => .perform (.literal text) fun _ => .done (.ok ())
  | call (.expression _) v => .perform (.write v) .done
  | call (.beginAttribute name opening closing count) _ =>
    .perform (.beginAttribute name opening closing count) .done
  | call (.literalPart lead text) _ => .perform (.part lead (.text text) true) .done
  | call (.part lead _) v => .perform (.part lead v false) .done
  | call .endAttribute _ => .perform .endAttribute .done
  | defineSection _ _ => .done (.ok ())

def composing : Made τ → Render.Body τ ε
  | defineSection name calls =>
    .perform (.defineSection name (Script.inTurn (calls.map writing))) .done
  | call c v => Render.ofWriting (call c v).writing

def Writable (nested : Nested τ ε) (token : Render.Token) : Made τ → Prop
  | call (.expression _) v | call (.part _ _) v => v.Writes nested token
  | _ => True

end Made

namespace Statement

/-- Whether code of the template stands around the calls of a statement, and may leave the body. -/
def embeds : Statement → Bool
  | code _ | block _ | choice _ _ => true
  | _ => false

end Statement

/-- The ways to run a body, by the calls that are made. A block passes through its branches any
number of times and in any order; that covers conditions and loops. -/
inductive Runs : List (Located Statement) → List (Made τ) → Prop
  | nil : Runs [] []
  | call {s p b c cs} (hs : Statement.call? s = some c) (v : Value τ) (h : Runs b cs) :
      Runs (⟨s, p⟩ :: b) (.call c v :: cs)
  | code {c p b cs} (h : Runs b cs) : Runs (⟨.code c, p⟩ :: b) cs
  | block {branches p b cs} (passes : List (Clause (Located Statement) × List (Made τ)))
      (hb : ∀ x ∈ passes, x.1 ∈ branches) (hp : ∀ x ∈ passes, Runs x.1.body x.2) (h : Runs b cs) :
      Runs (⟨.block branches, p⟩ :: b) (passes.flatMap (·.2) ++ cs)
  | choice {scrutinee arms p b arm ds cs} (ha : arm ∈ arms) (hd : Runs arm.body ds)
      (h : Runs b cs) :
      Runs (⟨.choice scrutinee arms, p⟩ :: b) (ds ++ cs)
  | defineSection {name body p b ds cs} (hd : Runs body ds) (h : Runs b cs) :
      Runs (⟨.defineSection name body, p⟩ :: b) (.defineSection name ds :: cs)
  /-- The body is left where a statement begins. -/
  | skipped {s p b} (hs : s.embeds) : Runs (⟨s, p⟩ :: b) []
  /-- The body is left inside a statement. -/
  | left {s p b cs} (hs : s.embeds) (h : Runs [⟨s, p⟩] cs) : Runs (⟨s, p⟩ :: b) cs

/-! Sections -/

/-- A body defines a section, itself or in a branch or an arm. -/
inductive Defines (name : String) (body : List (Located Statement)) :
    List (Located Statement) → Prop
  | here {p b} : Defines name body (⟨.defineSection name body, p⟩ :: b)
  | later {s b} (h : Defines name body b) : Defines name body (s :: b)
  | block {branches c p b} (hc : c ∈ branches) (h : Defines name body c.body) :
      Defines name body (⟨.block branches, p⟩ :: b)
  | choice {scrutinee arms c p b} (hc : c ∈ arms) (h : Defines name body c.body) :
      Defines name body (⟨.choice scrutinee arms, p⟩ :: b)

theorem Defines.of_singleton {name : String} {body b : List (Located Statement)}
    {s : Located Statement} (h : Defines name body [s]) : Defines name body (s :: b) := by
  cases h with
  | here => exact .here
  | later h => cases h
  | block hc h => exact .block hc h
  | choice hc h => exact .choice hc h

theorem Runs.section {b : List (Located Statement)} {calls ds : List (Made τ)} {name : String}
    (h : Runs b calls)
    (hs : .defineSection name ds ∈ calls) : ∃ body, Defines name body b ∧ Runs body ds := by
  induction h with
  | nil | skipped => simp at hs
  | call hc v h ih =>
    obtain ⟨body, hd, hr⟩ := ih (by simpa using hs)
    exact ⟨body, hd.later, hr⟩
  | code h ih =>
    obtain ⟨body, hd, hr⟩ := ih hs
    exact ⟨body, hd.later, hr⟩
  | block passes hb hp h ihp ih =>
    rcases List.mem_append.mp hs with hs | hs
    · obtain ⟨x, hx, hs⟩ := List.mem_flatMap.mp hs
      obtain ⟨body, hd, hr⟩ := ihp x hx hs
      exact ⟨body, .block (hb x hx) hd, hr⟩
    · obtain ⟨body, hd, hr⟩ := ih hs
      exact ⟨body, hd.later, hr⟩
  | choice ha hd h ihd ih =>
    rcases List.mem_append.mp hs with hs | hs
    · obtain ⟨body, hd, hr⟩ := ihd hs
      exact ⟨body, .choice ha hd, hr⟩
    · obtain ⟨body, hd, hr⟩ := ih hs
      exact ⟨body, hd.later, hr⟩
  | defineSection hd h ihd ih =>
    rcases List.mem_cons.mp hs with hs | hs
    · obtain ⟨rfl, rfl⟩ : name = _ ∧ ds = _ := by simpa using hs
      exact ⟨_, .here, hd⟩
    · obtain ⟨body, hd, hr⟩ := ih hs
      exact ⟨body, hd.later, hr⟩
  | left hl h ih =>
    obtain ⟨body, hd, hr⟩ := ih hs
    exact ⟨body, hd.of_singleton, hr⟩

end Templating.Page
