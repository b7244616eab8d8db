import Templating.Page.Statement
import Templating.Proofs.Unit.Layout

/-! The embedded code of a body, and what is known of it: the reader gives balanced code, which may
come to end inside a comment when it is trimmed; what is pasted must not. -/
namespace Templating.Page
open Code
open Markup (Clause Part)

/-- Embedded code as it is pasted: inside a line, or on lines of its own. -/
inductive Snippet where
  | inline (code : String)
  | block (code : String)
  deriving DecidableEq, Repr

namespace Snippet

/-- What the reader sees to. -/
def Read : Snippet → Prop
  | inline code => Pasted code.toList
  | block code => Balanced code.toList

/-- What the reader does not look at: that code inside a line does not end inside a comment, and
that no line end is a character. -/
def Contained : Snippet → Prop
  | inline code => ¬ Takes (.code, []) code.toList (.lineComment, [])
  | block code => ¬ Unit.quotedEnd <:+: code.toList

instance : DecidablePred Contained
  | inline code => inferInstanceAs (Decidable (¬ Takes (.code, []) code.toList (.lineComment, [])))
  | block code => inferInstanceAs (Decidable (¬ Unit.quotedEnd <:+: code.toList))

/-- What keeps the code apart from what stands around it. -/
def Closed : Snippet → Prop
  | inline code => Balanced code.toList
  | block code => Balanced code.toList ∧ ¬ Unit.quotedEnd <:+: code.toList

theorem Read.closed : ∀ {x : Snippet}, x.Read → x.Contained → x.Closed
  | inline _, h, hc => h.resolve_right hc
  | block _, h, hc => ⟨h, hc⟩

end Snippet

mutual

def Statement.snippets : Statement → List Snippet
  | .expression code => [.inline code]
  | .code code => [.block code]
  | .block branches => clauseSnippets branches
  | .choice scrutinee arms => .inline scrutinee :: clauseSnippets arms
  | .part ⟨_, .expression code⟩ => [.inline code]
  | .defineSection _ body => bodySnippets body
  | _ => []

def bodySnippets : List (Located Statement) → List Snippet
  | [] => []
  | ⟨s, _⟩ :: b => s.snippets ++ bodySnippets b

def clauseSnippets : List (Clause (Located Statement)) → List Snippet
  | [] => []
  | ⟨head, body⟩ :: cs => .inline head :: bodySnippets body ++ clauseSnippets cs

end

/-- Every snippet of the body is as told, and all control flow has a branch. -/
inductive Embeds (P : Snippet → Prop) : List (Located Statement) → Prop
  | nil : Embeds P []
  | literal {s p b} (h : Embeds P b) : Embeds P (⟨.literal s, p⟩ :: b)
  | expression {code p b} (hx : P (.inline code)) (h : Embeds P b) :
      Embeds P (⟨.expression code, p⟩ :: b)
  | code {code p b} (hx : P (.block code)) (h : Embeds P b) : Embeds P (⟨.code code, p⟩ :: b)
  | block {branches p b} (hne : branches ≠ []) (hheads : ∀ c ∈ branches, P (.inline c.head))
      (hbodies : ∀ c ∈ branches, Embeds P c.body) (h : Embeds P b) :
      Embeds P (⟨.block branches, p⟩ :: b)
  | choice {scrutinee arms p b} (hx : P (.inline scrutinee)) (hheads : ∀ c ∈ arms,
      P (.inline c.head))
      (hbodies : ∀ c ∈ arms, Embeds P c.body) (h : Embeds P b) :
      Embeds P (⟨.choice scrutinee arms, p⟩ :: b)
  | beginAttribute {name opening closing count p b} (h : Embeds P b) :
      Embeds P (⟨.beginAttribute name opening closing count, p⟩ :: b)
  | part {q p b} (hx : ∀ code, q.content = .expression code → P (.inline code)) (h : Embeds P b) :
      Embeds P (⟨.part q, p⟩ :: b)
  | endAttribute {p b} (h : Embeds P b) : Embeds P (⟨.endAttribute, p⟩ :: b)
  | defineSection {name body p b} (hbody : Embeds P body) (h : Embeds P b) :
      Embeds P (⟨.defineSection name body, p⟩ :: b)

section
variable {P Q : Snippet → Prop} {b : List (Located Statement)}
  {cs : List (Clause (Located Statement))}

theorem head_mem_clauseSnippets {c : Clause (Located Statement)} (h : c ∈ cs) :
    .inline c.head ∈ clauseSnippets cs := by
  induction cs with
  | nil => cases h
  | cons d cs ih =>
    rcases List.mem_cons.mp h with rfl | h
    · exact List.mem_cons_self
    · exact List.mem_append_right _ (ih h)

theorem body_subset_clauseSnippets {c : Clause (Located Statement)} (h : c ∈ cs) :
    bodySnippets c.body ⊆ clauseSnippets cs := by
  induction cs with
  | nil => cases h
  | cons d cs ih =>
    rcases List.mem_cons.mp h with rfl | h
    · exact fun x hx => List.mem_append_left _ (List.mem_cons_of_mem _ hx)
    · exact fun x hx => List.mem_append_right _ (ih h hx)

theorem Embeds.mono (h : Embeds P b) (hPQ : ∀ x ∈ bodySnippets b, P x → Q x) : Embeds Q b := by
  induction h with
  | nil => exact .nil
  | literal _ ih => exact .literal (ih hPQ)
  | expression hx _ ih =>
    exact .expression (hPQ _ List.mem_cons_self hx) (ih fun x hx =>
      hPQ x (List.mem_cons_of_mem _ hx))
  | code hx _ ih =>
    exact .code (hPQ _ List.mem_cons_self hx) (ih fun x hx => hPQ x (List.mem_cons_of_mem _ hx))
  | block hne hheads _ _ ihbodies ih =>
    refine .block hne (fun c hc => ?_) (fun c hc => ?_) (ih fun x hx =>
      hPQ x (List.mem_append_right _ hx))
    · exact hPQ _ (List.mem_append_left _ (head_mem_clauseSnippets hc)) (hheads c hc)
    · exact ihbodies c hc fun x hx =>
        hPQ x (List.mem_append_left _ (body_subset_clauseSnippets hc hx))
  | choice hx hheads _ _ ihbodies ih =>
    refine .choice (hPQ _ List.mem_cons_self hx) (fun c hc => ?_) (fun c hc => ?_)
      (ih fun x hx => hPQ x (List.mem_append_right _ hx))
    · exact hPQ _ (List.mem_append_left _ (List.mem_cons_of_mem _ (head_mem_clauseSnippets hc)))
        (hheads c hc)
    · exact ihbodies c hc fun x hx =>
        hPQ x (List.mem_append_left _ (List.mem_cons_of_mem _ (body_subset_clauseSnippets hc hx)))
  | beginAttribute _ ih => exact .beginAttribute (ih hPQ)
  | @part q p b hx _ ih =>
    obtain ⟨lead, content⟩ := q
    refine .part (fun code hcode => ?_) (ih fun x hx => hPQ x (List.mem_append_right _ hx))
    obtain rfl : content = .expression code := hcode
    exact hPQ _ List.mem_cons_self (hx code rfl)
  | endAttribute _ ih => exact .endAttribute (ih hPQ)
  | defineSection _ _ ihbody ih =>
    exact .defineSection (ihbody fun x hx => hPQ x (List.mem_append_left _ hx))
      (ih fun x hx => hPQ x (List.mem_append_right _ hx))

end

end Templating.Page
