import Templating.Proofs.Page.Snippets
import Templating.Proofs.Text.Returns
import Templating.Proofs.Unit.Literals
import Templating.Unit.Emission

/-! Carriage returns in a unit: they are those of what is pasted into it. Text that is written as a
literal brings none. -/
namespace Templating.Unit
open Page (Snippet Member Statement Definition Document bodySnippets clauseSnippets)
open Markup (Clause)
open Text (quoted)

/-! Lines -/

def Returns (ls : Lines) : Prop := ∃ n x, .text n x ∈ ls ∧ '\r' ∈ x.toList

section
variable {ls ls' : Lines} {x : String}

@[simp] theorem returns_nil : ¬ Returns [] := fun ⟨_, _, h, _⟩ => by cases h

@[simp] theorem returns_blank : Returns (.blank :: ls) ↔ Returns ls := by
  simp [Returns]

@[simp] theorem returns_text (n : Nat) (x : String) :
    Returns (.text n x :: ls) ↔ '\r' ∈ x.toList ∨ Returns ls := by
  simp only [Returns, List.mem_cons, Line.text.injEq]
  constructor
  · rintro ⟨m, y, ⟨-, rfl⟩ | h, hy⟩
    · exact .inl hy
    · exact .inr ⟨m, y, h, hy⟩
  · rintro (hx | ⟨m, y, h, hy⟩)
    · exact ⟨n, x, .inl ⟨rfl, rfl⟩, hx⟩
    · exact ⟨m, y, .inr h, hy⟩

@[simp] theorem returns_of (x : String) : Returns (.of x :: ls) ↔ '\r' ∈ x.toList ∨ Returns ls :=
  returns_text 0 x

@[simp] theorem returns_append : Returns (ls ++ ls') ↔ Returns ls ∨ Returns ls' := by
  induction ls with
  | nil => simp
  | cons l ls ih => cases l <;> simp [ih, or_assoc]

@[simp] theorem returns_nest : Returns (Lines.nest ls) ↔ Returns ls := by
  induction ls with
  | nil => rfl
  | cons l ls ih =>
    have hcons : Lines.nest (l :: ls) = l.deeper :: Lines.nest ls := rfl
    cases l <;> simp [hcons, Line.deeper, ih]

@[simp] theorem returns_braced (head tail : String) :
    Returns (braced head ls tail) ↔ '\r' ∈ head.toList ∨ Returns ls ∨ '\r' ∈ tail.toList := by
  simp [braced]

@[simp] theorem returns_flatMap {α : Type} (xs : List α) (f : α → Lines) :
    Returns (xs.flatMap f) ↔ ∃ x ∈ xs, Returns (f x) := by
  induction xs with
  | nil => simp
  | cons x xs ih => simp [ih]

@[simp] theorem returns_spaced (parts : List Lines) :
    Returns (spaced parts) ↔ ∃ ls ∈ parts, Returns ls := by
  induction parts with
  | nil => simp [spaced]
  | cons ls parts ih =>
    cases parts with
    | nil => simp [spaced]
    | cons ls' parts =>
      rw [spaced, returns_append, returns_blank, ih]
      · simp
      · exact List.cons_ne_nil ls' parts

@[simp] theorem returns_moduleLines (segments : List String) :
    Returns (moduleLines segments ls) ↔ (∃ s ∈ segments, '\r' ∈ s.toList) ∨ Returns ls := by
  induction segments with
  | nil => simp [moduleLines]
  | cons s ss ih => simp [moduleLines, ih, toString, or_assoc]

theorem return_mem_indentation (n : Nat) : '\r' ∉ indentation n := by
  unfold indentation
  induction n with
  | zero => simp
  | succ n ih =>
    rw [List.replicate_succ, String.join_cons, String.toList_append, List.mem_append, not_or]
    exact ⟨by decide, ih⟩

theorem return_mem_render (ls : Lines) : '\r' ∈ (Lines.render ls).toList ↔ Returns ls := by
  induction ls with
  | nil => simp [Lines.render]
  | cons l ls ih =>
    rw [toList_render_cons, List.mem_append, ih]
    cases l with
    | blank => simp [Line.render]
    | text n x => simp [toList_render_text, return_mem_indentation]

theorem return_mem_join {sep : String} (hsep : '\r' ∉ sep.toList) (parts : List String) :
    '\r' ∈ (Text.join sep parts).toList ↔ ∃ x ∈ parts, '\r' ∈ x.toList := by
  induction parts with
  | nil => simp [Text.join]
  | cons x parts ih =>
    cases parts with
    | nil => simp [Text.join, String.intercalate_singleton]
    | cons y parts =>
      rw [Text.toList_join_cons, List.mem_append, List.mem_append, ih]
      simp [hsep]

theorem return_not_mem_digits (n : Nat) : '\r' ∉ Nat.toDigits 10 n :=
  fun h => absurd (Nat.isDigit_of_mem_toDigits (by decide) (by decide) h) (by decide)

theorem return_not_mem_quoted (s : String) : '\r' ∉ (quoted s).toList :=
  (Page.literalOf_quoted s).oneLine.2

end

/-! Bodies -/

theorem mem_of_outdent {n : Nat} {l : List Char} {c : Char} (h : c ∈ outdent n l) : c ∈ l := by
  unfold outdent at h
  split at h
  next front rest hcut =>
    obtain ⟨rfl, -⟩ := Text.append_of_cutAt? hcut
    exact List.mem_append_right front h
  · exact (List.dropWhile_sublist _).subset h

theorem mem_of_trimEnd {l : List Char} {c : Char} (h : c ∈ Text.trimEnd l) : c ∈ l := by
  obtain ⟨b, hl, -⟩ := Text.exists_trimEnd l
  rw [hl]
  exact List.mem_append_left b h

theorem mem_of_dropBlankEnds {ls : List (List Char)} {l : List Char}
    (h : l ∈ Text.dropBlankEnds ls) : l ∈ ls := by
  obtain ⟨a, b, hls, -, -⟩ := Text.exists_dropBlankEnds ls
  rw [hls]
  exact List.mem_append_right a (List.mem_append_left b h)

theorem not_returns_codeLines {code : String} (h : Text.paired code.toList = true) :
    ¬ Returns (codeLines code) := by
  rintro ⟨n, x, hline, hreturn⟩
  obtain ⟨l, hl, hx⟩ := List.mem_map.mp hline
  split at hx
  · cases hx
  · obtain ⟨-, rfl⟩ := Line.text.inj hx
    rw [String.toList_ofList] at hreturn
    exact Text.return_not_mem_lines h l (mem_of_dropBlankEnds hl)
      (mem_of_outdent (mem_of_trimEnd hreturn))

/-- A snippet brings a carriage return with it; one that is laid out afresh only if it is not at the
end of a line. -/
def SnippetReturns : Snippet → Prop
  | .inline code => '\r' ∈ code.toList
  | .block code => Returns (codeLines code)

mutual

theorem returns_statementLines : ∀ s : Statement,
    Returns (statementLines s) ↔ ∃ x ∈ s.snippets, SnippetReturns x
  | .literal text => by simp [statementLines, Statement.snippets, toString, return_not_mem_quoted]
  | .expression code => by simp [statementLines, Statement.snippets, SnippetReturns, toString]
  | .code code => by simp [statementLines, Statement.snippets, SnippetReturns]
  | .block branches => by
    rw [statementLines, Statement.snippets]
    exact returns_branchLines branches true
  | .choice scrutinee arms => by
    have harms := returns_armLines arms
    simp [statementLines, Statement.snippets, SnippetReturns, toString, harms]
  | .beginAttribute name opening closing count => by
    simp [statementLines, Statement.snippets, toString, return_not_mem_quoted,
      return_not_mem_digits]
  | .part ⟨lead, .literal text⟩ => by
    simp [statementLines, Statement.snippets, toString, return_not_mem_quoted]
  | .part ⟨lead, .expression code⟩ => by
    simp [statementLines, Statement.snippets, SnippetReturns, toString, return_not_mem_quoted]
  | .endAttribute => by simp [statementLines, Statement.snippets]
  | .defineSection name body => by
    have hbody := returns_bodyLines body
    simp [statementLines, Statement.snippets, toString, return_not_mem_quoted, hbody]

theorem returns_bodyLines : ∀ b : List (Located Statement), Returns (bodyLines b) ↔
    ∃ x ∈ bodySnippets b, SnippetReturns x
  | [] => by simp [bodyLines, bodySnippets]
  | ⟨s, p⟩ :: b => by
    have hs := returns_statementLines s
    have hb := returns_bodyLines b
    simp only [bodyLines, bodySnippets, returns_append, hs, hb, List.mem_append, or_and_right,
      exists_or]

theorem returns_branchLines : ∀ (cs : List (Clause (Located Statement))) (first : Bool),
    Returns (branchLines first cs) ↔ ∃ x ∈ clauseSnippets cs, SnippetReturns x
  | [], first => by simp [branchLines, clauseSnippets]
  | ⟨head, body⟩ :: cs, first => by
    have hbody := returns_bodyLines body
    have hcs := returns_branchLines cs false
    cases first <;> simp [branchLines, clauseSnippets, SnippetReturns, hbody, hcs, or_and_right,
      exists_or]

theorem returns_armLines : ∀ cs : List (Clause (Located Statement)),
    Returns (armLines cs) ↔ ∃ x ∈ clauseSnippets cs, SnippetReturns x
  | [] => by simp [armLines, clauseSnippets]
  | ⟨head, body⟩ :: cs => by
    have hbody := returns_bodyLines body
    have hcs := returns_armLines cs
    simp [armLines, clauseSnippets, SnippetReturns, hbody, hcs, or_and_right, exists_or, or_assoc]

end

/-! Members -/

def MemberReturns : Member → Prop
  | .functions code => Returns (codeLines code.text)
  | .constructor c =>
    (∃ d ∈ c.docs, '\r' ∈ d.toList) ∨ '\r' ∈ c.name.toList ∨ '\r' ∈ c.base.toList ∨
      ∃ p ∈ c.parameters, '\r' ∈ p.name.toList ∨ '\r' ∈ p.type.toList

theorem return_not_mem_visibility (m : Page.Modifiers) : '\r' ∉ m.visibility.toList := by
  unfold Page.Modifiers.visibility
  split <;> decide

theorem returns_memberLines (m : Page.Modifiers) (x : Member) :
    Returns (memberLines m.visibility x) ↔ MemberReturns x := by
  have hcomma : '\r' ∉ ", ".toList := by decide
  cases x with
  | functions code => rfl
  | constructor c =>
    have hdocs : Returns (c.docs.map fun d => .of ("/// " ++ d)) ↔
        ∃ d ∈ c.docs, '\r' ∈ d.toList := by
      induction c.docs with
      | nil => simp
      | cons d ds ih => simp [ih]
    have hinputs :
      '\r' ∈ (Text.join ", " (c.parameters.map fun p => p.name ++ ": " ++ p.type)).toList ↔
        ∃ p ∈ c.parameters, '\r' ∈ p.name.toList ∨ '\r' ∈ p.type.toList := by
      rw [return_mem_join hcomma]
      simp
    have harguments : '\r' ∈ (Text.join ", " (c.parameters.map (·.name))).toList ↔
        ∃ p ∈ c.parameters, '\r' ∈ p.name.toList := by
      rw [return_mem_join hcomma]
      simp
    have hlines : Returns (memberLines m.visibility (.constructor c)) ↔
      (∃ d ∈ c.docs, '\r' ∈ d.toList) ∨
        ('\r' ∈ c.name.toList ∨ ∃ p ∈ c.parameters, '\r' ∈ p.name.toList ∨ '\r' ∈ p.type.toList) ∨
          '\r' ∈ c.base.toList ∨ '\r' ∈ c.name.toList ∨ ∃ p ∈ c.parameters,
            '\r' ∈ p.name.toList := by
      simp [memberLines, constructorLines, hdocs, toString, return_not_mem_visibility, hinputs,
        harguments]
    rw [hlines, MemberReturns]
    constructor
    case mp =>
      rintro (hdoc | (hname | hinput) | hbase | hname | ⟨p, hp, hname⟩)
      · exact .inl hdoc
      · exact .inr (.inl hname)
      · exact .inr (.inr (.inr hinput))
      · exact .inr (.inr (.inl hbase))
      · exact .inr (.inl hname)
      · exact .inr (.inr (.inr ⟨p, hp, .inl hname⟩))
    case mpr =>
      rintro (hdoc | hname | hbase | hinput)
      · exact .inl hdoc
      · exact .inr (.inl (.inl hname))
      · exact .inr (.inr (.inl hbase))
      · exact .inr (.inl (.inr hinput))

/-! The class -/

/-- Names of a page hold no carriage return, as they are made of the characters of words. -/
structure NamesPlain (d : Document) : Prop where
  segments : ∀ s ∈ d.segments, '\r' ∉ s.toList
  name : '\r' ∉ d.definition.name.toList
  parameters : ∀ p ∈ d.definition.typeParameters, '\r' ∉ p.name.toList

def ConstraintReturns (c : Definition) : Prop :=
  ∃ p ∈ c.typeParameters, ∃ s ∈ p.constraint?, '\r' ∈ Definition.predicate s.toList

theorem return_mem_whereClause (c : Definition) : '\r' ∈ c.whereClause.toList ↔
    ConstraintReturns c := by
  have hcomma : '\r' ∉ ", ".toList := by decide
  have hkept : ∀ xs : List String, (∃ x ∈ xs.filter (· != ""), '\r' ∈ x.toList) ↔
      ∃ x ∈ xs, '\r' ∈ x.toList := by
    intro xs
    constructor
    · rintro ⟨x, hx, hreturn⟩
      exact ⟨x, List.mem_of_mem_filter hx, hreturn⟩
    · rintro ⟨x, hx, hreturn⟩
      refine ⟨x, List.mem_filter.mpr ⟨hx, ?_⟩, hreturn⟩
      rw [bne_iff_ne]
      rintro rfl
      cases hreturn
  have hpredicates :
    (∃ x ∈ (c.typeParameters.filterMap (·.constraint?)).map fun s =>
      String.ofList (Definition.predicate s.toList),
      '\r' ∈ x.toList) ↔ ConstraintReturns c := by
    simp only [ConstraintReturns, List.mem_map, exists_exists_and_eq_and, List.mem_filterMap,
      String.toList_ofList]
    constructor
    · rintro ⟨s, ⟨p, hp, hs⟩, hreturn⟩
      exact ⟨p, hp, s, hs, hreturn⟩
    · rintro ⟨p, hp, s, hs, hreturn⟩
      exact ⟨s, ⟨p, hp, hs⟩, hreturn⟩
  rw [← hpredicates, ← hkept]
  unfold Definition.whereClause
  dsimp only
  split
  next hnone => simp [hnone]
  next ps hne =>
    rw [String.toList_append, List.mem_append, return_mem_join hcomma]
    simp

section
variable {c : Definition} (hparameters : ∀ p ∈ c.typeParameters, '\r' ∉ p.name.toList)
include hparameters

theorem return_not_mem_generics : '\r' ∉ c.generics.toList := by
  have hcomma : '\r' ∉ ", ".toList := by decide
  unfold Definition.generics
  split
  · decide
  · rw [String.toList_append, String.toList_append, List.mem_append, List.mem_append,
      return_mem_join hcomma]
    simpa using hparameters

theorem return_not_mem_marker {m : String} (h : marker? c = some m) : '\r' ∉ m.toList := by
  have hspace : '\r' ∉ " ".toList := by decide
  unfold marker? at h
  split at h
  · cases h
  · obtain rfl := Option.some.inj h
    rw [String.toList_append, String.toList_append, List.mem_append, List.mem_append,
      return_mem_join hspace]
    simpa using hparameters

variable (hname : '\r' ∉ c.name.toList)
include hname

theorem return_mem_inherent : '\r' ∈ (inherent c).toList ↔ ConstraintReturns c := by
  simp [inherent, toString, hname, return_not_mem_generics hparameters, return_mem_whereClause]

theorem return_mem_implementing (trait : String) (htrait : '\r' ∉ trait.toList) :
    '\r' ∈ (implementing trait c).toList ↔ ConstraintReturns c := by
  simp [implementing, toString, hname, htrait, return_not_mem_generics hparameters,
    return_mem_whereClause]

theorem returns_structLines (source : String) :
    Returns (structLines source c) ↔ '\r' ∈ source.toList ∨ ConstraintReturns c ∨
      '\r' ∈ c.baseType.toList := by
  have hgenerics := return_not_mem_generics hparameters
  cases hmarker : marker? c with
  | none =>
    simp [structLines, toString, hname, hgenerics, hmarker, return_mem_whereClause,
      return_not_mem_visibility]
  | some m =>
    have hm := return_not_mem_marker hparameters hmarker
    simp [structLines, toString, hname, hgenerics, hmarker, hm, return_mem_whereClause,
      return_not_mem_visibility]

theorem returns_ownLines :
    Returns (ownLines c) ↔ ConstraintReturns c ∨ '\r' ∈ c.baseType.toList ∨ ∃ m ∈ c.members,
      MemberReturns m := by
  have hmarker :
      '\r' ∉ (if (marker?
        c).isSome then ", _marker: ::std::marker::PhantomData" else "").toList := by
    split <;> decide
  simp [ownLines, toString, hname, hmarker, return_mem_inherent hparameters hname,
    return_not_mem_visibility, returns_memberLines]

theorem returns_derefLines : Returns (derefLines c) ↔ ConstraintReturns c ∨
    '\r' ∈ c.baseType.toList := by
  have hhead := return_mem_implementing hparameters hname "::std::ops::Deref" (by decide)
  simp [derefLines, toString, hhead]

theorem returns_derefMutLines : Returns (derefMutLines c) ↔ ConstraintReturns c := by
  have hhead := return_mem_implementing hparameters hname "::std::ops::DerefMut" (by decide)
  simp [derefMutLines, hhead]

theorem returns_defaultLines : Returns (defaultLines c) ↔ ConstraintReturns c := by
  have hhead := return_mem_implementing hparameters hname "::std::default::Default" (by decide)
  simp [defaultLines, hhead]

theorem returns_toValueLines : Returns (toValueLines c) ↔ ConstraintReturns c := by
  have hhead := return_mem_implementing hparameters hname "ToValue" (by decide)
  simp [toValueLines, hhead]

theorem returns_templateLines :
    Returns (templateLines c) ↔ ConstraintReturns c ∨ ∃ x ∈ bodySnippets c.body,
      SnippetReturns x := by
  have hhead := return_mem_implementing hparameters hname "Template" (by decide)
  simp [templateLines, executeLines, hhead, returns_bodyLines]

def ClassReturns (source : String) (c : Definition) : Prop :=
  '\r' ∈ source.toList ∨ '\r' ∈ c.baseType.toList ∨ ConstraintReturns c ∨
    (∃ m ∈ c.members, MemberReturns m) ∨
    ∃ x ∈ bodySnippets c.body, SnippetReturns x

theorem returns_classLines (source : String) : Returns (classLines source c) ↔
    ClassReturns source c := by
  have hstruct := returns_structLines hparameters hname source
  have hown := returns_ownLines hparameters hname
  have hderef := returns_derefLines hparameters hname
  have hderefMut := returns_derefMutLines hparameters hname
  have hdefault := returns_defaultLines hparameters hname
  have htoValue := returns_toValueLines hparameters hname
  have htemplate := returns_templateLines hparameters hname
  rw [classLines, returns_spaced, ClassReturns]
  constructor
  case mp =>
    rintro ⟨ls, hls, h⟩
    simp only [List.mem_append, List.mem_cons, List.not_mem_nil, or_false] at hls
    rcases hls with ((rfl | rfl | rfl | rfl) | hls) | rfl | rfl
    · rcases hstruct.mp h with h | h | h
      · exact .inl h
      · exact .inr (.inr (.inl h))
      · exact .inr (.inl h)
    · rcases hown.mp h with h | h | h
      · exact .inr (.inr (.inl h))
      · exact .inr (.inl h)
      · exact .inr (.inr (.inr (.inl h)))
    · rcases hderef.mp h with h | h
      · exact .inr (.inr (.inl h))
      · exact .inr (.inl h)
    · exact .inr (.inr (.inl (hderefMut.mp h)))
    · split at hls
      · obtain rfl := List.mem_singleton.mp hls
        exact .inr (.inr (.inl (hdefault.mp h)))
      · cases hls
    · exact .inr (.inr (.inl (htoValue.mp h)))
    · rcases htemplate.mp h with h | h
      · exact .inr (.inr (.inl h))
      · exact .inr (.inr (.inr (.inr h)))
  case mpr =>
    have hfirst : ∀ ls : Lines,
      ls ∈ [structLines source c, ownLines c, derefLines c, derefMutLines c] → Returns ls →
        ∃ ls ∈ [structLines source c, ownLines c, derefLines c, derefMutLines c] ++
          (if isDefaultBase c.baseType then [defaultLines c] else []) ++
            [toValueLines c, templateLines c], Returns ls :=
      fun ls hls h => ⟨ls, List.mem_append_left _ (List.mem_append_left _ hls), h⟩
    rintro (h | h | h | h | h)
    · exact hfirst _ (by simp) (hstruct.mpr (.inl h))
    · exact hfirst _ (by simp) (hstruct.mpr (.inr (.inr h)))
    · exact hfirst _ (by simp) (hstruct.mpr (.inr (.inl h)))
    · exact hfirst (ownLines c) (by simp) (hown.mpr (.inr (.inr h)))
    · exact ⟨templateLines c, by simp, htemplate.mpr (.inr h)⟩

end

/-! The unit -/

theorem returns_useLines (item : String) : Returns (useLines item) ↔ '\r' ∈ item.toList := by
  simp [useLines, toString]

/-- A unit holds a carriage return if and only if one comes from the path of its template, from what
it uses, from its base or its constraints, from the members of the page, its own and those of its
base, or from the code in its body. -/
theorem return_mem_emit {d : Document} (h : NamesPlain d) (ms : List Member) :
    '\r' ∈ (emit d ms).toList ↔
      (∃ u ∈ d.uses, '\r' ∈ u.text.toList) ∨ ClassReturns d.source d.definition ∨ ∃ m ∈ ms,
        MemberReturns m := by
  have hsegments : ¬ ∃ s ∈ d.segments, '\r' ∈ s.toList :=
    fun ⟨s, hs, hreturn⟩ => h.segments s hs hreturn
  have hcolons : '\r' ∉ "::".toList := by decide
  have hclass := returns_classLines h.parameters h.name d.source
  have hpage : Returns (pageLines d) ↔ (∃ u ∈ d.uses, '\r' ∈ u.text.toList) ∨
      ClassReturns d.source d.definition := by
    have hlines : Returns (pageLines d) ↔ '\r' ∈ d.source.toList ∨
      (∃ u ∈ d.uses, '\r' ∈ u.text.toList) ∨
        ClassReturns d.source d.definition := by
      simp [pageLines, toString, hsegments, returns_useLines, hclass]
    rw [hlines]
    constructor
    · rintro (hsource | h)
      · exact .inr (.inl hsource)
      · exact h
    · exact .inr
  have hforwarded : Returns (forwardedLines d ms) ↔ ConstraintReturns d.definition ∨ ∃ m ∈ ms,
      MemberReturns m := by
    have hpath := return_mem_join hcolons d.segments
    simp [forwardedLines, toString, hsegments, hpath, return_mem_inherent h.parameters h.name,
      returns_memberLines]
  rw [emit, return_mem_render, lines, returns_append, hpage]
  cases ms with
  | nil => simp
  | cons m ms =>
    rw [List.isEmpty_cons, if_neg Bool.false_ne_true, hforwarded, or_assoc]
    constructor
    · rintro (huse | hclass | hconstraint | hmember)
      · exact .inl huse
      · exact .inr (.inl hclass)
      · exact .inr (.inl (.inr (.inr (.inl hconstraint))))
      · exact .inr (.inr hmember)
    · rintro (huse | hclass | hmember)
      · exact .inl huse
      · exact .inr (.inl hclass)
      · exact .inr (.inr (.inr hmember))

end Templating.Unit
