import Templating.Proofs.Page.Lowering
import Templating.Proofs.Text.Literal
import Templating.Proofs.Unit.Written

/-! The texts of a page stand in its unit as literals that denote them: in the calls that write
text, begin an attribute or write a part of one, or define a section. -/
namespace Templating.Page
open Code (Crosses Stop)
open Markup (Clause)
open Text (quoted)
open Text.Literal (read? inside)
open Templating.Unit (Printed Branched Chosen Lines WriterCall)
variable {t : String}

/-! Literals -/

/-- A literal of the text: it stays on its line; it is read as the text whatever stands behind it;
and a scan that comes to it in code goes over it as a string, and is in the same code behind it. -/
structure LiteralOf (t : String) (l : List Char) : Prop where
  oneLine : '\n' ∉ l ∧ '\r' ∉ l
  reads : ∀ rest, read? (l ++ rest) = some (t, rest)
  crosses : ∀ stop, stop ≠ .closer '"' → ∀ closers p rest,
    Crosses stop (.code, closers) (.code, closers) p l rest
  within : ∀ u v, l = u ++ v → u ≠ [] → v ≠ [] → ∃ mode, (mode = .string ∨ mode = .stringEscape) ∧
    ∀ stop, stop ≠ .closer '"' → ∀ closers p rest,
      Crosses stop (.code, closers) (mode, closers) p u (v ++ rest)

theorem literalOf_quoted (t : String) : LiteralOf t (quoted t).toList where
  oneLine := by
    constructor
    · exact fun h => absurd (Text.Literal.not_hidden_quoted h) (by decide)
    · exact fun h => absurd (Text.Literal.not_hidden_quoted h) (by decide)
  reads := Text.Literal.read?_quoted t
  crosses stop hstop closers p rest := by
    rw [Text.Literal.toList_quoted]
    have hinside : Crosses stop (.string, closers) (.code, closers) (some '"') (inside t) rest :=
      Code.crosses_unescaped .stringEscape (by decide) (fun _ _ _ => rfl) (fun _ _ _ => rfl)
        (Code.upToUnescaped_inside t) _ rest
    exact (Code.crosses_quote hstop closers p _).append hinside
  within u v hsplit hu hv := by
    rw [Text.Literal.toList_quoted] at hsplit
    cases u with
    | nil => exact absurd rfl hu
    | cons c u =>
      obtain ⟨rfl, hinside⟩ := List.cons.inj hsplit
      obtain ⟨mode, hmode, hcrosses⟩ := (Code.upToUnescaped_inside t).crosses_within hinside hv
      exact ⟨mode, hmode, fun stop hstop closers p rest =>
        (Code.crosses_quote hstop closers p _).append (hcrosses stop closers _ rest)⟩

/-! Where literals stand -/

def passed : WriterCall → List String
  | .literal text => [text]
  | .beginAttribute name opening closing _ => [name, opening, closing]
  | .literalPart lead text => [lead, text]
  | .part lead _ => [lead]
  | .expression _ | .endAttribute => []

def Statement.texts : Statement → List String
  | defineSection name _ => [name]
  | s => s.call?.elim [] passed

section
variable {n : Nat} {ls ms : Lines}

theorem exists_of_branched {close : String} {cs : List (Clause (Located Statement))}
    (h : Branched n close cs ls) {c : Clause (Located Statement)} (hc : c ∈ cs) :
    ∃ ms, Printed (n + 1) c.body ms ∧ ms <:+: ls := by
  induction cs generalizing close ls with
  | nil => cases hc
  | cons c' cs ih =>
    cases h with | @cons _ _ _ _ _ ms rest hb h =>
    rcases List.mem_cons.mp hc with rfl | hc
    · exact ⟨ms, hb, [_], rest, rfl⟩
    · obtain ⟨ms', hms, hstands⟩ := ih h hc
      exact ⟨ms', hms, hstands.trans (List.suffix_append _ _).isInfix⟩

theorem exists_of_chosen {arms : List (Clause (Located Statement))} (h : Chosen n arms ls)
    {c : Clause (Located Statement)} (hc : c ∈ arms) :
    ∃ ms, Printed (n + 1) c.body ms ∧ ms <:+: ls := by
  induction arms generalizing ls with
  | nil => cases hc
  | cons c' arms ih =>
    cases h with | @cons _ head _ _ ms rest hb h =>
    rcases List.mem_cons.mp hc with rfl | hc
    · have hblock := Unit.infix_block n (head ++ " =>") (List.infix_refl ms)
      exact ⟨ms, hb, hblock.trans (List.prefix_append _ _).isInfix⟩
    · obtain ⟨ms', hms, hstands⟩ := ih h hc
      exact ⟨ms', hms, hstands.trans (List.suffix_append _ _).isInfix⟩

theorem exists_of_within {a b : Body} (h : Within a b) (ha : Printed n a ls) :
    ∃ m ms, Printed m b ms ∧ ms <:+: ls := by
  induction h generalizing n ls with
  | here b => exact ⟨n, ls, ha, List.infix_refl ls⟩
  | block hs hc h ih =>
    obtain ⟨ms, hms, hstands⟩ := ha.exists_of_mem hs
    cases hms with | call hs => cases hs | block hb hnil =>
    obtain ⟨inner, hinner, hin⟩ := exists_of_branched hb hc
    obtain ⟨m, xs, hxs, hx⟩ := ih hinner
    exact ⟨m, xs, hxs, (hx.trans hin).trans ((List.prefix_append _ _).isInfix.trans hstands)⟩
  | choice hs hc h ih =>
    obtain ⟨ms, hms, hstands⟩ := ha.exists_of_mem hs
    cases hms with | call hs => cases hs | choice ha hnil =>
    obtain ⟨inner, hinner, hin⟩ := exists_of_chosen ha hc
    obtain ⟨m, xs, hxs, hx⟩ := ih hinner
    exact ⟨m, xs, hxs, (Unit.infix_block _ _ (hx.trans hin)).trans
      ((List.prefix_append _ _).isInfix.trans hstands)⟩
  | defineSection hs h ih =>
    obtain ⟨ms, hms, hstands⟩ := ha.exists_of_mem hs
    cases hms with | call hs => cases hs | defineSection hd hnil =>
    obtain ⟨m, xs, hxs, hx⟩ := ih hd
    exact ⟨m, xs, hxs, (Unit.infix_sectionBlock _ _ hx).trans
      ((List.prefix_append _ _).isInfix.trans hstands)⟩

theorem exists_literal_of_call {c : WriterCall} (ht : t ∈ passed c) (n : Nat) :
    ∃ m x, .text m x ∈ c.lines n ∧ (quoted t).toList <:+: x.toList := by
  have hlast : ∀ a : String, (quoted t).toList <:+: (a ++ quoted t).toList := fun a => by
    rw [String.toList_append]
    exact (List.suffix_append _ _).isInfix
  have hmore : ∀ {a : String} (b : String), (quoted t).toList <:+: a.toList →
      (quoted t).toList <:+: (a ++ b).toList := fun b h => by
    rw [String.toList_append]
    exact h.trans (List.prefix_append _ _).isInfix
  cases c with
  | literal text =>
    obtain rfl := List.mem_singleton.mp ht
    exact ⟨n, _, List.mem_cons_self, hmore _ (hlast _)⟩
  | beginAttribute name opening closing count =>
    refine ⟨n, _, List.mem_cons_self, hmore _ (hmore _ (hmore _ ?_))⟩
    simp only [passed, List.mem_cons, List.not_mem_nil, or_false] at ht
    rcases ht with rfl | rfl | rfl
    · exact hmore _ (hmore _ (hmore _ (hmore _ (hlast _))))
    · exact hmore _ (hmore _ (hlast _))
    · exact hlast _
  | literalPart lead text =>
    refine ⟨n, _, List.mem_cons_self, hmore _ ?_⟩
    simp only [passed, List.mem_cons, List.not_mem_nil, or_false] at ht
    rcases ht with rfl | rfl
    · exact hmore _ (hmore _ (hlast _))
    · exact hlast _
  | part lead code =>
    obtain rfl := List.mem_singleton.mp ht
    refine ⟨n + 1, _, List.mem_cons_of_mem _ (List.mem_cons_of_mem _ List.mem_cons_self), ?_⟩
    exact hmore _ (hlast _)
  | expression | endAttribute => cases ht

theorem exists_literal {s : Located Statement} (h : Printed n [s] ms) (ht : t ∈ s.val.texts) :
    ∃ m x, .text m x ∈ ms ∧ (quoted t).toList <:+: x.toList := by
  cases h with
  | @call _ s _ _ c _ hs hnil =>
    have hpassed : t ∈ passed c := by
      cases s <;> simp_all [Statement.texts, Statement.call?]
    obtain ⟨m, x, hx, hin⟩ := exists_literal_of_call hpassed n
    exact ⟨m, x, List.mem_append_left _ hx, hin⟩
  | @defineSection _ name _ _ _ _ _ hd hnil =>
    obtain rfl : t = name := List.mem_singleton.mp ht
    have hcall : (quoted t).toList <:+:
        ("cx.define_section(" ++ quoted t ++ ", move |mut cx: Writer|" ++ " \x7b").toList :=
      ⟨"cx.define_section(".toList, ", move |mut cx: Writer| \x7b".toList, by simp⟩
    exact ⟨n, _, List.mem_cons_self, hcall⟩
  | code | block | choice => cases ht

end

/-- Every text has a literal, and that is how it stands in a unit: the lines of a statement of a
page, at any depth, stand in the unit, and each text that is passed in its call stands in
them as a literal. -/
theorem literals_denote (t : String) : LiteralOf t (quoted t).toList ∧
    ∀ (d : Document) (extra : List Member), ∃ default ls, Unit.Written d extra default ls ∧
      (Unit.emit d extra).toList = ls.written ∧
      ∀ b s, Within d.definition.body b → s ∈ b → t ∈ s.val.texts →
        ∃ n ms, Printed n [s] ms ∧ ms <:+: ls ∧
          ∃ m x, .text m x ∈ ms ∧ (quoted t).toList <:+: x.toList := by
  refine ⟨literalOf_quoted t, fun d extra => ?_⟩
  obtain ⟨ls, hwritten, htext⟩ := Unit.exists_written d extra
  refine ⟨_, ls, hwritten, htext, fun b s hb hs ht => ?_⟩
  obtain ⟨body, hbody, hbodyls⟩ := hwritten.exists_printed
  obtain ⟨n, inner, hinner, hin⟩ := exists_of_within hb hbody
  obtain ⟨ms, hms, hstands⟩ := hinner.exists_of_mem hs
  exact ⟨n, ms, hms, (hstands.trans hin).trans hbodyls, exists_literal hms ht⟩

def accent : String := "a\"\\\n\u0301"

def accentPage : Document where
  source := "Accent.stencil"
  namespaceName := "pages"
  definition :=
    { name := "Accent", body := [⟨.defineSection "notes" [⟨.literal accent, ⟨17, 23⟩⟩], ⟨0, 24⟩⟩] }

theorem literals_denote_accent :
    LiteralOf accent ['"', 'a', '\\', '"', '\\', '\\', '\\', 'n', '\\', 'u', '\x7b', '3', '0', '1',
      '\x7d', '"'] ∧
    ∃ default ls, Unit.Written accentPage [] default ls ∧
      (Unit.emit accentPage []).toList = ls.written ∧
      ∃ n, .text n "cx.write_literal(\"a\\\"\\\\\\n\\u\x7b301\x7d\");" ∈ ls := by
  have hquoted : quoted accent = "\"a\\\"\\\\\\n\\u\x7b301\x7d\"" := by decide +kernel
  have hwithin : Within accentPage.definition.body [⟨.literal accent, ⟨17, 23⟩⟩] :=
    .defineSection List.mem_cons_self (.here _)
  obtain ⟨hliteral, hunit⟩ := literals_denote accent
  obtain ⟨default, ls, hwritten, htext, hall⟩ := hunit accentPage []
  obtain ⟨n, ms, hms, hstands, -⟩ := hall _ _ hwithin List.mem_cons_self List.mem_cons_self
  rw [hquoted] at hliteral
  refine ⟨hliteral, default, ls, hwritten, htext, n, hstands.subset ?_⟩
  cases hms with | call hs h =>
  obtain rfl := Option.some.inj hs
  rw [Unit.WriterCall.lines, hquoted]
  exact List.mem_cons_self

end Templating.Page
