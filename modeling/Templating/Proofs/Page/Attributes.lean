import Mathlib
import Templating.Markup.Reading
import Templating.Proofs.Page.Build
import Templating.Proofs.Page.Calls

/-! A lowered body writes each attribute whole: once it has begun, just its parts are written before
it ends, as many as were announced, and no code stands between them that could leave the body. The
state of this is the number of parts that are still to come, if an attribute is open. -/
namespace Templating.Page
open Markup (Clause Node Nodes)
open Render (Value RenderError Nested Signature Program World Writer Written Run Token OpenAttribute
  gives_pure gives_bind
  gives_run_perform gives_run_bind)
open Render.Script (inTurn)
variable {τ ε : Type}

/-! Bodies -/

/-- The statements begin, fill and end attributes in turn, and so do the bodies inside them. -/
inductive Framed : Option Nat → List (Located Statement) → Prop
  | nil : Framed none []
  | literal {s p b} (h : Framed none b) : Framed none (⟨.literal s, p⟩ :: b)
  | expression {code p b} (h : Framed none b) : Framed none (⟨.expression code, p⟩ :: b)
  | code {c p b} (h : Framed none b) : Framed none (⟨.code c, p⟩ :: b)
  | block {branches p b} (hb : ∀ c ∈ branches, Framed none c.body) (h : Framed none b) :
      Framed none (⟨.block branches, p⟩ :: b)
  | choice {scrutinee arms p b} (ha : ∀ c ∈ arms, Framed none c.body) (h : Framed none b) :
      Framed none (⟨.choice scrutinee arms, p⟩ :: b)
  | beginAttribute {name opening closing count p b} (h : Framed (some count) b) :
      Framed none (⟨.beginAttribute name opening closing count, p⟩ :: b)
  | part {q n p b} (h : Framed (some n) b) : Framed (some (n + 1)) (⟨.part q, p⟩ :: b)
  | endAttribute {p b} (h : Framed none b) : Framed (some 0) (⟨.endAttribute, p⟩ :: b)
  | defineSection {name body p b} (hs : Framed none body) (h : Framed none b) :
      Framed none (⟨.defineSection name body, p⟩ :: b)

theorem Framed.join {s : String} {p : Span} {b : Body} (h : Framed none b) :
    Framed none (join ⟨.literal s, p⟩ b) := by
  cases h with
  | literal h => exact .literal h
  | nil => exact .literal .nil
  | expression h => exact .literal (.expression h)
  | code h => exact .literal (.code h)
  | block hb h => exact .literal (.block hb h)
  | choice ha h => exact .literal (.choice ha h)
  | beginAttribute h => exact .literal (.beginAttribute h)
  | defineSection hs h => exact .literal (.defineSection hs h)

theorem Framed.parts {b : Body} (h : Framed (some 0) b) (ps : List (Located Markup.Part)) :
    Framed (some ps.length) (ps.map (fun p => (⟨.part p.val, p.span⟩ : Located Statement)) ++
      b) := by
  induction ps with
  | nil => exact h
  | cons p ps ih => exact .part ih

theorem Framed.ofAttribute {b : Body} (h : Framed none b) (a : Markup.Attribute) (span : Span) :
    Framed none (ofAttribute a span ++ b) := by
  have hp := Framed.parts (Framed.endAttribute (p := span) h) a.parts
  simpa [Page.ofAttribute] using Framed.beginAttribute hp

mutual

theorem framed_lowerNode (top : Bool) (span : Span) {after : Body} (h : Framed none after) :
    ∀ n : Node, Framed none (lowerNode top span after n)
  | .markup text => h.join
  | .comment => h
  | .expression code => .expression h
  | .code code => .code h
  | .control branches => .block (framed_lowerClauses branches) h
  | .choice scrutinee arms => .choice (framed_lowerClauses arms) h
  | .attribute a => h.ofAttribute a span
  | .directive ⟨keyword, [], body, fs⟩ => h
  | .directive ⟨keyword, t :: ts, none, fs⟩ => h
  | .directive ⟨keyword, t :: ts, some (.code c), fs⟩ => h
  | .directive ⟨keyword, t :: ts, some (.markup nodes), f :: fs⟩ => h
  | .directive ⟨keyword, t :: ts, some (.markup nodes), []⟩ => by
    rw [lowerNode]
    split
    · exact .defineSection (framed_lower false nodes) h
    · exact h

theorem framed_lower (top : Bool) : ∀ ns : Nodes, Framed none (lower top ns)
  | [] => .nil
  | ⟨n, span⟩ :: ns => framed_lowerNode top span (framed_lower top ns) n

theorem framed_lowerClauses : ∀ cs : List (Clause (Located Node)), ∀ c ∈ lowerClauses cs,
    Framed none c.body
  | [], c, hc => by simp [lowerClauses] at hc
  | ⟨head, body⟩ :: cs, c, hc => by
    rw [lowerClauses] at hc
    rcases List.mem_cons.mp hc with rfl | hc
    · exact framed_lower false body
    · exact framed_lowerClauses cs c hc

end

theorem Defines.framed {name : String} {body b : List (Located Statement)} (h : Defines name body b)
    {st : Option Nat} (hb : Framed st b) : Framed none body := by
  induction h generalizing st with
  | here => cases hb with | defineSection hs _ => exact hs
  | later h ih => cases hb <;> exact ih ‹_›
  | block hc h ih => cases hb with | block hb _ => exact ih (hb _ hc)
  | choice hc h ih => cases hb with | choice ha _ => exact ih (ha _ hc)

/-! Calls -/

inductive Made.Moves : Option Nat → Made τ → Option Nat → Prop
  | literal {s v} : Moves none (.call (.literal s) v) none
  | expression {code v} : Moves none (.call (.expression code) v) none
  | beginAttribute {name opening closing count v} :
      Moves none (.call (.beginAttribute name opening closing count) v) (some count)
  | literalPart {n lead text v} : Moves (some (n + 1)) (.call (.literalPart lead text) v) (some n)
  | part {n lead code v} : Moves (some (n + 1)) (.call (.part lead code) v) (some n)
  | endAttribute {v} : Moves (some 0) (.call .endAttribute v) none
  | defineSection {name calls} : Moves none (.defineSection name calls) none

/-- Calls that leave no attribute open. -/
inductive Orderly : Option Nat → List (Made τ) → Prop
  | nil : Orderly none []
  | cons {st st' c cs} (hc : c.Moves st st') (h : Orderly st' cs) : Orderly st (c :: cs)

theorem Orderly.append {st : Option Nat} {cs ds : List (Made τ)} (h : Orderly st cs)
    (hd : Orderly none ds) :
    Orderly st (cs ++ ds) := by
  induction h with
  | nil => exact hd
  | cons hc h ih => exact .cons hc ih

theorem Orderly.flatMap {α : Type} {xs : List α} {f : α → List (Made τ)}
    (h : ∀ x ∈ xs, Orderly none (f x)) :
    Orderly none (xs.flatMap f) := by
  induction xs with
  | nil => exact .nil
  | cons x xs ih =>
    have hx := h x (List.mem_cons_self ..)
    have hxs := ih fun y hy => h y (List.mem_cons_of_mem x hy)
    exact hx.append hxs

theorem Runs.orderly {b : List (Located Statement)} {calls : List (Made τ)} (h : Runs b calls)
    {st : Option Nat} (hb : Framed st b) : Orderly st calls := by
  induction h generalizing st with
  | nil => cases hb with | nil => exact .nil
  | call hs v h ih =>
    cases hb with
    | literal hb => cases hs; exact .cons .literal (ih hb)
    | expression hb => cases hs; exact .cons .expression (ih hb)
    | beginAttribute hb => cases hs; exact .cons .beginAttribute (ih hb)
    | @part q n p b hb =>
      obtain ⟨lead, text | code⟩ := q
      · cases hs; exact .cons .literalPart (ih hb)
      · cases hs; exact .cons .part (ih hb)
    | endAttribute hb => cases hs; exact .cons .endAttribute (ih hb)
    | code | block | choice | defineSection => cases hs
  | code h ih => cases hb with | code hb => exact ih hb
  | block passes hm hp h ihp ih =>
    cases hb with | block hbs hb =>
    exact (Orderly.flatMap fun x hx => ihp x hx (hbs _ (hm x hx))).append (ih hb)
  | choice ha hd h ihd ih => cases hb with | choice has hb => exact (ihd (has _ ha)).append (ih hb)
  | defineSection hd h ihd ih =>
    cases hb with | defineSection hs hb => exact .cons .defineSection (ih hb)
  | skipped hs => cases hb <;> first | exact .nil | simp [Statement.embeds] at hs
  | left hs h ih =>
    cases hb with
    | code hb => exact ih (.code .nil)
    | block hbs hb => exact ih (.block hbs .nil)
    | choice has hb => exact ih (.choice has .nil)
    | _ => simp [Statement.embeds] at hs

def Made.isPart : Made τ → Bool
  | call (.literalPart ..) _ | call (.part ..) _ => true
  | _ => false

/-- Between the beginning of an attribute and its end there are its parts and nothing else. -/
def Bracketed (calls : List (Made τ)) : Prop :=
  ∀ before name opening closing count v after,
    calls = before ++ .call (.beginAttribute name opening closing count) v :: after →
      ∃ parts u rest, after = parts ++ .call .endAttribute u :: rest ∧ parts.length = count ∧
        ∀ c ∈ parts, c.isPart

theorem Orderly.drop {st : Option Nat} {cs ds : List (Made τ)} (h : Orderly st (cs ++ ds)) :
    ∃ st', Orderly st' ds := by
  induction cs generalizing st with
  | nil => exact ⟨st, h⟩
  | cons c cs ih => cases h with | cons hc h => exact ih h

theorem Orderly.parts {n : Nat} {cs : List (Made τ)} (h : Orderly (some n) cs) :
    ∃ parts u rest, cs = parts ++ .call .endAttribute u :: rest ∧ parts.length = n ∧
      ∀ c ∈ parts, c.isPart := by
  induction n generalizing cs with
  | zero =>
    cases h with | cons hc h =>
    cases hc with | endAttribute => exact ⟨[], _, _, rfl, rfl, by simp⟩
  | succ n ih =>
    cases h with | cons hc h =>
    cases hc with
    | literalPart =>
      obtain ⟨parts, u, rest, rfl, hn, hp⟩ := ih h
      exact ⟨_ :: parts, u, rest, rfl, by simp [hn], by simpa [Made.isPart] using hp⟩
    | part =>
      obtain ⟨parts, u, rest, rfl, hn, hp⟩ := ih h
      exact ⟨_ :: parts, u, rest, rfl, by simp [hn], by simpa [Made.isPart] using hp⟩

theorem Orderly.bracketed {st : Option Nat} {calls : List (Made τ)} (h : Orderly st calls) :
    Bracketed calls := by
  rintro before name opening closing count v after rfl
  obtain ⟨st', h⟩ := h.drop
  cases h with | cons hc h =>
  cases hc with | beginAttribute => exact h.parts

/-! Execution -/

section
variable {S : Signature} {σ : Type} {nested : Nested τ ε}
  {handle : (op : S.Op) → σ → Run τ ε (S.Reply op × σ)}
  {act : Made τ → Program S (Except RenderError Unit)} {writer : σ → Writer}
    {bad : RenderError → Prop}

/-- Each call does its move, or fails for a reason of its own and then leaves no attribute open. -/
def Acts (nested : Nested τ ε) (handle : (op : S.Op) → σ → Run τ ε (S.Reply op × σ))
    (act : Made τ → Program S (Except RenderError Unit)) (writer : σ → Writer)
    (bad : RenderError → Prop) : Prop :=
  ∀ c st st' x w, c.Moves st st' → (writer x).attribute?.isSome = st.isSome →
    c.Writable nested (writer x).token →
    ∃ r x' w', ((act c).run handle x).Gives w (r, x') w' ∧ (writer x').token = (writer x).token ∧
      (r = .ok () ∧ (writer x').attribute?.isSome = st'.isSome ∨
        (∃ e, bad e ∧ r = .error e) ∧ (writer x').attribute? = none)

theorem Orderly.gives (hact : Acts nested handle act writer bad) {st : Option Nat}
    {calls : List (Made τ)}
    (h : Orderly st calls) (x : σ) (hx : (writer x).attribute?.isSome = st.isSome)
    (hv : ∀ c ∈ calls, c.Writable nested (writer x).token) (w : World τ ε) :
    ∃ r x' w', ((inTurn (calls.map act)).run handle x).Gives w (r, x') w' ∧
      (r = .ok () ∨ ∃ e, bad e ∧ r = .error e) ∧ (writer x').attribute? = none := by
  induction h generalizing x w with
  | nil => exact ⟨.ok (), x, w, gives_pure.mpr ⟨rfl, rfl⟩, .inl rfl, by simpa using hx⟩
  | @cons st st' c cs hc h ih =>
    obtain ⟨r, x', w', hr, ht, ⟨rfl, hx'⟩ | ⟨⟨e, he, rfl⟩, hx'⟩⟩ :=
      hact c st st' x w hc hx (hv c (List.mem_cons_self ..))
    · obtain ⟨r, x'', w'', hrest, hgood⟩ :=
        ih x' hx' (fun d hd => ht ▸ hv d (List.mem_cons_of_mem c hd)) w'
      exact ⟨r, x'', w'', gives_run_bind hr hrest, hgood⟩
    · exact ⟨.error e, x', w', gives_run_bind hr (gives_pure.mpr ⟨rfl, rfl⟩),
        .inr ⟨e, he, rfl⟩, hx'⟩

end

theorem acts_writing (nested : Nested τ ε) :
    Acts nested (Writer.perform nested) Made.writing id fun _ => False := by
  intro c st st' x w hc hx hv
  have hkept : ∀ {y : Writer} {w' : World τ ε}, y.token = x.token →
    y.attribute?.isSome = st'.isSome →
      (c.writing.run (Writer.perform nested) x).Gives w (.ok (), y) w' →
      ∃ r x' w', (c.writing.run (Writer.perform nested) x).Gives w (r, x') w' ∧ x'.token = x.token ∧
        (r = .ok () ∧ x'.attribute?.isSome = st'.isSome ∨ (∃ e, False ∧ r = .error e) ∧
          x'.attribute? = none) :=
    fun ht ha h => ⟨_, _, _, h, ht, .inl ⟨rfl, ha⟩⟩
  cases hc with
  | literal => exact hkept (y := x.literal _) rfl hx (gives_pure.mpr ⟨rfl, rfl⟩)
  | expression =>
    obtain ⟨y, w', hy, ht, ha⟩ := Writer.fills_write x hv w
    exact hkept ht (by rw [ha]; exact hx) (gives_run_perform hy)
  | beginAttribute =>
    obtain ⟨y, hy, ht, ha⟩ := Writer.gives_beginAttribute (by simpa using hx) _ _ _ _
    exact hkept ht (by simpa using ha) (gives_run_perform (gives_pure.mpr ⟨hy, rfl⟩))
  | @literalPart n lead text =>
    have htext : (Value.text text).Writes nested x.token := trivial
    obtain ⟨y, w', hy, ht, ha⟩ := Writer.gives_part (by simpa using hx) _ true htext w
    exact hkept ht (by simpa using ha) (gives_run_perform hy)
  | part =>
    obtain ⟨y, w', hy, ht, ha⟩ := Writer.gives_part (by simpa using hx) _ false hv w
    exact hkept ht (by simpa using ha) (gives_run_perform hy)
  | endAttribute =>
    obtain ⟨y, hy, ht, ha⟩ := Writer.gives_endAttribute (by simpa using hx)
    exact hkept ht (by simp [ha]) (gives_run_perform (gives_pure.mpr ⟨hy, rfl⟩))
  | defineSection => exact hkept rfl hx (gives_pure.mpr ⟨rfl, rfl⟩)

theorem acts_composing (nested : Nested τ ε) :
    Acts nested (Render.Context.perform nested) Made.composing Render.Context.writer
      fun e => ∃ name, e = .sectionRedefined name := by
  intro c st st' cx w hc hx hv
  have hwrites : c.composing = Render.ofWriting (ε := ε) c.writing →
      ∃ r cx' w', (c.composing.run (Render.Context.perform nested) cx).Gives w (r, cx') w' ∧
        cx'.writer.token = cx.writer.token ∧
          (r = .ok () ∧ cx'.writer.attribute?.isSome = st'.isSome ∨
          (∃ e, (∃ name, e = .sectionRedefined name) ∧ r = .error e) ∧
            cx'.writer.attribute? = none) := by
    intro h
    obtain ⟨r, y, w', hy, ht, ⟨hr, ha⟩ | ⟨⟨e, he, -⟩, -⟩⟩ :=
      acts_writing nested c st st' cx.writer w hc hx hv
    · exact ⟨r, { cx with writer := y }, w', h ▸ Render.gives_ofWriting hy, ht, .inl ⟨hr, ha⟩⟩
    · exact he.elim
  cases hc with
  | @defineSection name calls =>
    rcases Render.defineSection_cases cx name (inTurn (calls.map Made.writing)) with
      h | ⟨cx', h, hx'⟩
    · exact ⟨_, cx, w, gives_run_perform (gives_pure.mpr ⟨h, rfl⟩), rfl,
        .inr ⟨⟨_, ⟨name, rfl⟩, rfl⟩, by simpa using hx⟩⟩
    · exact ⟨_, cx', w, gives_run_perform (gives_pure.mpr ⟨h, rfl⟩),
        by rw [hx'], .inl ⟨rfl, by rw [hx']; exact hx⟩⟩
  | literal => exact hwrites rfl
  | expression => exact hwrites rfl
  | beginAttribute => exact hwrites rfl
  | literalPart => exact hwrites rfl
  | part => exact hwrites rfl
  | endAttribute => exact hwrites rfl

/-- The lines of a page's body are those of its calls, in their order, inside the lines of its
control flow. However it is run, each attribute is whole, and the writer never objects and is left
without an open attribute. The same holds of the sections it defines, each on a
writer of its own. -/
theorem build_attributes (file : InputFile) (options : Options) (t : DirectiveTable)
    (imports : List Markup.Tree) (s : Source) (extra : List Member) {calls : List (Made τ)}
    (h : Runs (build file options t imports (.parse s t)).definition.body calls) :
    (∃ default ls, Unit.Written (build file options t imports (.parse s t)) extra default ls ∧
        (Unit.emit (build file options t imports (.parse s t)) extra).toList = ls.written) ∧
      Bracketed calls ∧
      (∀ (nested : Nested τ ε) (cx : Render.Context τ ε) (w : World τ ε),
        cx.writer.attribute? = none →
        (∀ c ∈ calls, c.Writable nested cx.writer.token) →
        ∃ r cx' w',
          ((inTurn (calls.map Made.composing)).run (Render.Context.perform nested) cx).Gives w
            (r, cx') w' ∧
          (r = .ok () ∨ ∃ name, r = .error (.sectionRedefined name)) ∧
            cx'.writer.attribute? = none) ∧
      ∀ name ds, .defineSection name ds ∈ calls →
        (∃ body, Defines name body (build file options t imports (.parse s t)).definition.body ∧
          Runs body ds) ∧ Bracketed ds ∧
          ∀ (nested : Nested τ ε) (kind : Render.ContentKind) (token : Token) (w : World τ ε),
            (∀ c ∈ ds, c.Writable nested token) →
            ∃ x w',
              ((inTurn (ds.map Made.writing)).run (Writer.perform nested) { kind, token }).Gives w
                (.ok (), x) w' ∧
              x.attribute? = none := by
  have hframed : Framed none (build file options t imports (.parse s t)).definition.body :=
    framed_lower true _
  have horderly := h.orderly hframed
  refine ⟨⟨_, Unit.exists_written _ _⟩, horderly.bracketed, ?_, ?_⟩
  · intro nested cx w hcx hv
    obtain ⟨r, cx', w', hr, hgood, hidle⟩ :=
      horderly.gives (acts_composing nested) cx (by simp [hcx]) hv w
    refine ⟨r, cx', w', hr, hgood.imp_right ?_, hidle⟩
    rintro ⟨_, ⟨name, rfl⟩, rfl⟩
    exact ⟨name, rfl⟩
  · intro name ds hds
    obtain ⟨body, hdef, hbody⟩ := h.section hds
    have hsection := hbody.orderly (hdef.framed hframed)
    refine ⟨⟨body, hdef, hbody⟩, hsection.bracketed, ?_⟩
    intro nested kind token w hv
    obtain ⟨r, x, w', hr, rfl | ⟨e, he, -⟩, hidle⟩ :=
      hsection.gives (acts_writing nested) ({ kind, token } : Writer) rfl hv w
    · exact ⟨x, w', hr, hidle⟩
    · exact he.elim

def paragraph : Source := ⟨"page", "<p a=\"b @(c)\">"⟩

/-- The calls of its body; what a call without an expression is made with makes no difference. -/
def paragraphCalls : List (Made String) := [
  .call (.literal "<p") .null,
  .call (.beginAttribute "a" " a=\"" "\"" 2) .null,
  .call (.literalPart "" "b ") .null,
  .call (.part "" "c") (.text "d"),
  .call .endAttribute .null,
  .call (.literal ">") .null]

set_option maxRecDepth 10000 in
theorem runs_paragraph :
    Runs (build ⟨"page", none, none⟩ {} .standard [] (.parse paragraph .standard)).definition.body
      paragraphCalls := by
  have hbody : lower true (Markup.Tree.parse paragraph .standard).nodes = [
      ⟨.literal "<p", ⟨0, 2⟩⟩,
      ⟨.beginAttribute "a" " a=\"" "\"" 2, ⟨2, 13⟩⟩,
      ⟨.part ⟨"", .literal "b "⟩, ⟨6, 8⟩⟩,
      ⟨.part ⟨"", .expression "c"⟩, ⟨8, 12⟩⟩,
      ⟨.endAttribute, ⟨2, 13⟩⟩,
      ⟨.literal ">", ⟨13, 14⟩⟩] := by cbv
  rw [body_build, hbody]
  exact .call rfl _ (.call rfl _ (.call rfl _ (.call rfl _ (.call rfl _ (.call rfl _ .nil)))))

theorem build_attributes_paragraph :
    Bracketed paragraphCalls ∧
      ∃ r cx' w', ((inTurn (paragraphCalls.map Made.composing)).run
          (Render.Context.perform fun _ _ => Render.Task.endless) (.new .html ⟨0⟩)).Gives
            ({} : World String String) (r, cx') w' ∧
          (r = .ok () ∨ ∃ name, r = .error (.sectionRedefined name)) ∧
            cx'.writer.attribute? = none := by
  have h := build_attributes (ε := String) ⟨"page", none, none⟩ {} .standard [] paragraph []
    runs_paragraph
  refine ⟨h.2.1, h.2.2.1 _ _ _ rfl ?_⟩
  simp [paragraphCalls, Made.Writable, Value.Writes]

end Templating.Page
