/-!
Programs: what is done one operation at a time, each step free to depend on all
answers so far. -/

namespace Templating.Render

/-- Operations, and what answers each of them. -/
structure Signature where
  Op : Type
  Reply : Op → Type

inductive Program (S : Signature) (α : Type) where
  | done (a : α)
  | perform (op : S.Op) (next : S.Reply op → Program S α)

namespace Program

variable {S T : Signature} {α β : Type}

def bind (f : α → Program S β) : Program S α → Program S β
  | done a => f a
  | perform op next => perform op fun r => (next r).bind f

instance : Monad (Program S) where
  pure := done
  bind p f := p.bind f

def map (op : S.Op → T.Op) (reply : ∀ o, T.Reply (op o) → S.Reply o) : Program S α → Program T α
  | done a => done a
  | perform o next => perform (op o) fun r => (next (reply o r)).map op reply

end Program

end Templating.Render
