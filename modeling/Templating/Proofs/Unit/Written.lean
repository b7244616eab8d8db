import Mathlib.Data.List.Forall2
import Templating.Proofs.Unit.Layout
import Templating.Unit.Emission

/-!
What a unit is written as, line by line, each line with its depth in the whole unit: the modules
from the outermost to the innermost and back, the blocks of the class in between, in one of them
the calls of the body inside the lines of its control flow, and behind the modules the block of the
members that come from the base.
-/

namespace Templating

open Page (Body Definition Document Member Constructor Statement)
open Markup (Clause)
open Text (quoted isBlank allBlank)

/-! The text of lines -/

namespace Unit

/-- A line with four blanks for each level, and with its end. -/
def Line.written : Line → List Char
  | .blank => ['\n']
  | .text n s => List.replicate (4 * n) ' ' ++ s.toList ++ ['\n']

def Lines.written (ls : Lines) : List Char := ls.flatMap Line.written

theorem indentation_eq (n : Nat) : indentation n = List.replicate (4 * n) ' ' := by
  induction n with
  | zero => rfl
  | succ n ih =>
    have hfour : List.replicate (4 * (n + 1)) ' ' = Line.indent.toList ++
        List.replicate (4 * n) ' ' := by
      rw [Nat.mul_succ, Nat.add_comm, ← List.replicate_append_replicate]
      rfl
    rw [hfour, ← ih, indentation, List.replicate_succ, String.join_cons, String.toList_append]
    rfl

theorem toList_render (ls : Lines) : (Lines.render ls).toList = ls.written := by
  induction ls with
  | nil => rfl
  | cons l ls ih =>
    have hline : l.render.toList = l.written := by
      cases l with
      | blank => rfl
      | text n s => rw [toList_render_text, indentation_eq, Line.written, List.append_assoc]
    rw [toList_render_cons, ih, hline]
    rfl

/-! Calls -/

/-- A call of a writer as it is printed. -/
inductive WriterCall where
  | literal (text : String)
  | expression (code : String)
  | beginAttribute (name opening closing : String) (count : Nat)
  | literalPart (lead text : String)
  | part (lead code : String)
  | endAttribute
  deriving DecidableEq, Repr

def WriterCall.lines (n : Nat) : WriterCall → Lines
  | literal text => [.text n s!"cx.write_literal({quoted text});"]
  | expression code =>
    [.text n "\x7b", .text (n + 1) s!"let __value = ({code});",
      .text (n + 1) "cx.write(&__value).await?;", .text n "\x7d"]
  | beginAttribute name opening closing count =>
    [.text n
      s!"cx.begin_write_attribute({quoted name}, {quoted opening}, {quoted closing}, {count})?;"]
  | literalPart lead text =>
    [.text n s!"cx.write_attribute_value({quoted lead}, {quoted text}, true).await?;"]
  | part lead code =>
    [.text n "\x7b", .text (n + 1) s!"let __value = ({code});",
      .text (n + 1) s!"cx.write_attribute_value({quoted lead}, &__value, false).await?;",
      .text n "\x7d"]
  | endAttribute => [.text n "cx.end_write_attribute()?;"]

end Unit

def Page.Statement.call? : Statement → Option Unit.WriterCall
  | .literal text => some (.literal text)
  | .expression e => some (.expression e)
  | .beginAttribute name opening closing count => some (.beginAttribute name opening closing count)
  | .part ⟨lead, .literal text⟩ => some (.literalPart lead text)
  | .part ⟨lead, .expression e⟩ => some (.part lead e)
  | .endAttribute => some .endAttribute
  | _ => none

def Page.Definition.head (c : Definition) : String :=
  s!"{c.modifiers.visibility} struct {c.name}{c.generics}{c.whereClause}"

namespace Unit

/-! Embedded code -/

/-- The characters of a text that are no white space. -/
def solid (cs : List Char) : List Char := cs.filter (!isBlank ·)

def Line.solid : Line → List Char
  | .blank => []
  | .text _ s => Unit.solid s.toList

/-- Lines of code, as deep as is said: the code is in them and nothing else, white space apart. -/
structure Copied (n : Nat) (code : String) (ls : Lines) : Prop where
  deep : ∀ l ∈ ls, l = .blank ∨ ∃ s, l = .text n s
  same : ls.flatMap Line.solid = solid code.toList

/-! Bodies -/

def block (n : Nat) (head : String) (inner : Lines) : Lines :=
  .text n (head ++ " \x7b") :: inner ++ [.text n "\x7d"]

def sectionBlock (n : Nat) (name : String) (body : Lines) : Lines :=
  .text n (s!"cx.define_section({quoted name}, move |mut cx: Writer|" ++ " \x7b") ::
    block (n + 1) "async move" (body ++ [.text (n + 2) "Ok::<_, RenderError>(cx)"]) ++
    [.text (n + 1) ".boxed_local()", .text n "\x7d)?;"]

mutual

/-- The lines of statements: those of their calls and of embedded code, in their order. -/
inductive Printed : Nat → Body → Lines → Prop
  | nil {n} : Printed n [] []
  | call {n s p b c ls} (hs : Statement.call? s = some c) (h : Printed n b ls) :
      Printed n (⟨s, p⟩ :: b) (c.lines n ++ ls)
  | code {n code p b ms ls} (hc : Copied n code ms) (h : Printed n b ls) :
      Printed n (⟨.code code, p⟩ :: b) (ms ++ ls)
  | block {n branches p b ms ls} (hb : Branched n "" branches ms) (h : Printed n b ls) :
      Printed n (⟨.block branches, p⟩ :: b) (ms ++ ls)
  | choice {n scrutinee arms p b ms ls} (ha : Chosen (n + 1) arms ms) (h : Printed n b ls) :
      Printed n (⟨.choice scrutinee arms, p⟩ :: b) (block n s!"match {scrutinee}" ms ++ ls)
  | defineSection {n name body p b ms ls} (hd : Printed (n + 2) body ms) (h : Printed n b ls) :
      Printed n (⟨.defineSection name body, p⟩ :: b) (sectionBlock n name ms ++ ls)

/-- The lines of branches, each opened on the line that closes the one before. -/
inductive Branched : Nat → String → List (Clause (Located Statement)) → Lines → Prop
  | nil {n close} : Branched n close [] [.text n "\x7d"]
  | cons {n close head body cs ms ls} (hb : Printed (n + 1) body ms)
      (h : Branched n "\x7d " cs ls) :
      Branched n close (⟨head, body⟩ :: cs) (.text n (close ++ head ++ " \x7b") :: ms ++ ls)

inductive Chosen : Nat → List (Clause (Located Statement)) → Lines → Prop
  | nil {n} : Chosen n [] []
  | cons {n head body cs ms ls} (hb : Printed (n + 1) body ms) (h : Chosen n cs ls) :
      Chosen n (⟨head, body⟩ :: cs) (block n (head ++ " =>") ms ++ ls)

end

/-! Members -/

def handing (n : Nat) (visibility : String) (k : Constructor) : Lines :=
  block n (visibility ++ " fn " ++ k.name ++
      "(" ++ Text.join ", " (k.parameters.map fun p => p.name ++ ": " ++ p.type) ++ ") -> Self")
    [.text (n + 1) ("Self::from_base(<" ++ k.base ++ ">::" ++ k.name ++
      "(" ++ Text.join ", " (k.parameters.map (·.name)) ++ "))")]

inductive Declared (n : Nat) (visibility : String) : Member → Lines → Prop
  | functions {code ls} (h : Copied n code.text ls) : Declared n visibility (.functions code) ls
  | constructor (k : Constructor) :
      Declared n visibility (.constructor k)
        (k.docs.map (fun doc => .text n ("/// " ++ doc)) ++ handing n visibility k)

/-! The class -/

def structBlock (n : Nat) (source : String) (c : Definition) : Lines :=
  [.text n s!"/// Template compiled from `{source}`.",
    .text n "#[allow(dead_code, non_camel_case_types, non_snake_case)]"] ++
  block n c.head
    (.text (n + 1) s!"base: {c.baseType}," ::
      (marker? c).toList.map fun m => .text (n + 1) s!"_marker: ::std::marker::PhantomData<{m}>,")

def ownBlock (n : Nat) (c : Definition) (members : List Lines) : Lines :=
  block n (inherent c)
    (.text (n + 1) "/// Builds the template around an existing base." ::
      block (n + 1) s!"{c.modifiers.visibility} fn from_base(base: {c.baseType}) -> Self"
        [.text (n + 2) (c.name ++ " \x7b base" ++
          (if (marker? c).isSome then ", _marker: ::std::marker::PhantomData" else "") ++
            " \x7d")] ++
      members.flatMap (.blank :: ·))

def traitBlock (n : Nat) (traitName : String) (c : Definition) (before : Lines) (function : String)
    (line : String) : Lines :=
  block n (implementing traitName c) (before ++ block (n + 1) function [.text (n + 2) line])

def defaultBlock (n : Nat) (c : Definition) : Lines :=
  traitBlock n "::std::default::Default" c [] "fn default() -> Self"
    "Self::from_base(::std::default::Default::default())"

def templateBlock (n : Nat) (c : Definition) (body : Lines) : Lines :=
  block n (implementing "Template" c)
    (block (n + 1) "fn content_kind(&self) -> ContentKind"
        [.text (n + 2) "TemplateBase::content_kind(&self.base)"] ++
      [.blank,
        .text (n + 1)
          "#[allow(unused_braces, unused_parens, unused_mut, unused_variables, unreachable_code)]",
        .text (n + 1) "fn execute<'s: 'c, 'c>(",
        .text (n + 2) "&'s self,",
        .text (n + 2) "cx: &'c mut Context<'s>,"] ++
      block (n + 1) ") -> LocalBoxFuture<'c, Result<(), RenderError>>"
        (block (n + 2) "async move" (body ++ [.text (n + 3) "Ok::<(), RenderError>(())"]) ++
          [.text (n + 2) ".boxed_local()"]))

/-- The blocks of a class. Only one of them implements the default, if there is one. -/
def classBlocks (n : Nat) (source : String) (c : Definition) (default : Bool)
    (members : List Lines) (body : Lines) : List Lines :=
  [structBlock n source c, ownBlock n c members,
    traitBlock n "::std::ops::Deref" c [.text (n + 1) s!"type Target = {c.baseType};", .blank]
      "fn deref(&self) -> &Self::Target" "&self.base",
    traitBlock n "::std::ops::DerefMut" c [] "fn deref_mut(&mut self) -> &mut Self::Target"
      "&mut self.base"] ++
  (if default then [defaultBlock n c] else []) ++
  [traitBlock n "ToValue" c [] "fn to_value(&self) -> Value<'_>" "Value::Template(self)",
    templateBlock n c body]

/-! The unit -/

def openings : Nat → List String → Lines
  | _, [] => []
  | n, s :: ss => .text n (s!"pub mod {s}" ++ " \x7b") :: openings (n + 1) ss

def closings : Nat → Lines
  | 0 => []
  | n + 1 => .text n "\x7d" :: closings n

def useBlock (n : Nat) (item : String) : Lines :=
  [.text n "#[allow(unused_imports)]", .text n s!"pub(crate) use {item};"]

/-- The block of the members that come from the base; it imports from the innermost module. -/
def forwardedBlock (d : Document) (members : List Lines) : Lines :=
  [.blank, .text 0 "// forwarded template constructors", .text 0 "const _: () = \x7b",
    .text 1 "#[allow(unused_imports)]",
      .text 1 ("use self::" ++ Text.join "::" d.segments ++ "::*;"),
    .blank] ++
  block 1 (inherent d.definition) ([Line.blank].intercalate members) ++ [.text 0 "\x7d;"]

/-- The lines of the unit of a page, with an implementation of the default or without. -/
inductive Written (d : Document) (extra : List Member) (default : Bool) : Lines → Prop
  | intro (own taken : List Lines) (body : Lines)
      (hown : List.Forall₂ (Declared (d.segments.length + 1) d.definition.modifiers.visibility)
        d.definition.members own)
      (hbody : Printed (d.segments.length + 3) d.definition.body body)
      (htaken : List.Forall₂ (Declared 2 d.definition.modifiers.visibility) extra taken) :
      Written d extra default
        ([.text 0 "// <auto-generated/>",
            .text 0 s!"// Compiled by stencil from `{d.source}`. Do not edit.", .blank] ++
          openings 0 d.segments ++
          useBlock d.segments.length "stencil_runtime::prelude::*" ++
          d.uses.flatMap (fun u => useBlock d.segments.length u.text) ++ .blank ::
          [Line.blank].intercalate
            (classBlocks d.segments.length d.source d.definition default own body) ++
          closings d.segments.length ++
          if extra.isEmpty then [] else forwardedBlock d taken)

/-! Lines so many levels deeper -/

def sunk (n : Nat) (ls : Lines) : Lines := ls.map fun l =>
  match l with
  | .blank => .blank
  | .text k s => .text (n + k) s

section
variable (n : Nat) (ls ms : Lines)

@[simp] theorem sunk_nil : sunk n [] = [] := rfl

@[simp] theorem sunk_blank : sunk n (.blank :: ls) = .blank :: sunk n ls := rfl

@[simp] theorem sunk_text (k : Nat) (s : String) :
    sunk n (.text k s :: ls) = .text (n + k) s :: sunk n ls := rfl

@[simp] theorem sunk_of (s : String) : sunk n (.of s :: ls) = .text n s :: sunk n ls := rfl

@[simp] theorem sunk_append : sunk n (ls ++ ms) = sunk n ls ++ sunk n ms := List.map_append

theorem sunk_zero : sunk 0 ls = ls := by
  induction ls with
  | nil => rfl
  | cons l ls ih => cases l <;> simp [ih]

@[simp] theorem sunk_nest : sunk n (Lines.nest ls) = sunk (n + 1) ls := by
  induction ls with
  | nil => rfl
  | cons l ls ih =>
    cases l with
    | blank => exact congrArg (.blank :: ·) ih
    | text k s =>
      have hdepth : n + (k + 1) = n + 1 + k := by omega
      show .text (n + (k + 1)) s :: _ = Line.text (n + 1 + k) s :: _
      rw [hdepth]
      exact congrArg _ ih

theorem sunk_braced (head tail : String) :
    sunk n (braced head ls tail) = .text n (head ++ " \x7b") :: sunk (n + 1) ls ++
      [.text n tail] := by
  simp [braced]

@[simp] theorem sunk_block (head : String) :
    sunk n (braced head ls) = block n head (sunk (n + 1) ls) := sunk_braced n ls head "\x7d"

theorem sunk_flatMap {α : Type} (xs : List α) (f : α → Lines) :
    sunk n (xs.flatMap f) = xs.flatMap fun x => sunk n (f x) := by
  induction xs with
  | nil => rfl
  | cons x xs ih => rw [List.flatMap_cons, sunk_append, ih, List.flatMap_cons]

theorem sunk_spaced (parts : List Lines) :
    sunk n (spaced parts) = [Line.blank].intercalate (parts.map (sunk n)) := by
  induction parts with
  | nil => rfl
  | cons ls parts ih =>
    cases parts with
    | nil => simp [spaced]
    | cons ms parts => simpa [spaced] using ih

end

theorem nest_append (ls ms : Lines) : Lines.nest (ls ++ ms) = ls.nest ++ ms.nest := List.map_append

theorem nest_openings (n : Nat) (segments : List String) :
    (openings n segments).nest = openings (n + 1) segments := by
  induction segments generalizing n with
  | nil => rfl
  | cons s segments ih => exact congrArg (List.cons _) (ih (n + 1))

theorem nest_closings (n : Nat) : (closings n).nest ++ [.of "\x7d"] = closings (n + 1) := by
  induction n with
  | zero => rfl
  | succ n ih => exact congrArg (List.cons (.text (n + 1) "\x7d")) ih

theorem nest_sunk (n : Nat) (ls : Lines) : (sunk n ls).nest = sunk (n + 1) ls := by
  induction ls with
  | nil => rfl
  | cons l ls ih =>
    cases l with
    | blank => exact congrArg (.blank :: ·) ih
    | text k s =>
      have hdepth : n + k + 1 = n + 1 + k := by omega
      show .text (n + k + 1) s :: _ = Line.text (n + 1 + k) s :: _
      rw [hdepth]
      exact congrArg _ ih

theorem moduleLines_eq (segments : List String) (ls : Lines) : moduleLines segments ls =
    openings 0 segments ++ sunk segments.length ls ++ closings segments.length := by
  induction segments with
  | nil => simp [moduleLines, openings, closings, sunk_zero]
  | cons s segments ih =>
    rw [moduleLines, braced, ih, nest_append, nest_append, nest_openings, List.length_cons,
      ← nest_sunk, ← nest_closings]
    simp only [openings, Line.of, List.cons_append, List.append_assoc]

/-! Embedded code -/

theorem solid_append (a b : List Char) : solid (a ++ b) = solid a ++ solid b :=
  List.filter_append ..

theorem solid_of_blank {b : List Char} (h : ∀ c ∈ b, isBlank c = true) : solid b = [] :=
  List.filter_eq_nil_iff.mpr fun c hc => by simp [h c hc]

theorem solid_lines (cs : List Char) : (Text.lines cs).flatMap solid = solid cs := by
  induction hlength : cs.length using Nat.strongRecOn generalizing cs with
  | ind n ih =>
    by_cases hcs : cs = []
    · subst hcs
      rfl
    obtain ⟨l, e, rest, rfl, he, hlines⟩ := Text.exists_lines hcs
    have hrest := ih rest.length (hlength ▸ he.length_lt hcs) rest rfl
    rw [hlines, List.flatMap_cons, hrest, solid_append, solid_append, solid_of_blank he.blank,
      List.nil_append]

theorem solid_laid {n : Nat} {l : List Char} (h : allBlank l = false → n ≤ margin l) :
    (laid n l).solid = solid l := by
  unfold laid
  cases hl : allBlank l with
  | true => exact (solid_of_blank (List.all_eq_true.mp hl)).symm
  | false =>
    obtain ⟨a, hlead, ha⟩ := exists_outdent (h hl)
    obtain ⟨b, hend, hb⟩ := Text.exists_trimEnd (outdent n l)
    have hkept : solid l = solid (Text.trimEnd (outdent n l)) := by
      conv_lhs => rw [hlead, hend]
      rw [solid_append, solid_append, solid_of_blank ha, solid_of_blank hb, List.nil_append,
        List.append_nil]
    simpa [Line.of, Line.solid] using hkept.symm

theorem solid_blank_lines {ls : List (List Char)} (h : ∀ l ∈ ls, allBlank l = true) :
    ls.flatMap solid = [] :=
  List.flatMap_eq_nil_iff.mpr fun l hl => solid_of_blank (List.all_eq_true.mp (h l hl))

theorem copied_codeLines (n : Nat) (code : String) : Copied n code (sunk n (codeLines code)) where
  deep l hl := by
    obtain ⟨k, hk, rfl⟩ := List.mem_map.mp hl
    rw [codeLines_eq] at hk
    obtain ⟨x, -, rfl⟩ := List.mem_map.mp hk
    by_cases hx : allBlank x = true
    · exact .inl (by simp [laid, hx])
    · exact .inr ⟨_, by simp only [laid, hx]; rfl⟩
  same := by
    have hsunk : ∀ ls : Lines, (sunk n ls).flatMap Line.solid = ls.flatMap Line.solid := by
      intro ls
      induction ls with
      | nil => rfl
      | cons l ls ih => cases l <;> exact congrArg (_ ++ ·) ih
    obtain ⟨a, b, hlines, ha, hb⟩ := Text.exists_dropBlankEnds (Text.lines code.toList)
    have hkept :
        (Text.dropBlankEnds (Text.lines code.toList)).flatMap solid = solid code.toList := by
      rw [← solid_lines, hlines, List.flatMap_append, List.flatMap_append, solid_blank_lines ha,
        solid_blank_lines hb, List.nil_append, List.append_nil, ← hlines]
    rw [hsunk, codeLines_eq, List.flatMap_map, ← hkept]
    exact List.flatMap_congr fun l hl => solid_laid (sharedMargin_le hl)

/-! The unit is written so -/

mutual

theorem printed_bodyLines (n : Nat) : ∀ b : Body, Printed n b (sunk n (bodyLines b))
  | [] => .nil
  | ⟨.literal text, _⟩ :: b => .call (c := .literal text) rfl (printed_bodyLines n b)
  | ⟨.expression code, _⟩ :: b => .call (c := .expression code) rfl (printed_bodyLines n b)
  | ⟨.code code, _⟩ :: b => by
    rw [bodyLines, sunk_append]
    exact .code (copied_codeLines n code) (printed_bodyLines n b)
  | ⟨.block branches, _⟩ :: b => by
    rw [bodyLines, sunk_append]
    exact .block (branched_branchLines n true branches) (printed_bodyLines n b)
  | ⟨.choice scrutinee arms, _⟩ :: b => by
    rw [bodyLines, sunk_append, statementLines, sunk_block]
    exact .choice (chosen_armLines (n + 1) arms) (printed_bodyLines n b)
  | ⟨.beginAttribute name opening closing count, _⟩ :: b =>
    .call (c := .beginAttribute name opening closing count) rfl (printed_bodyLines n b)
  | ⟨.part ⟨lead, .literal text⟩, _⟩ :: b =>
    .call (c := .literalPart lead text) rfl (printed_bodyLines n b)
  | ⟨.part ⟨lead, .expression code⟩, _⟩ :: b =>
    .call (c := .part lead code) rfl (printed_bodyLines n b)
  | ⟨.endAttribute, _⟩ :: b => .call (c := .endAttribute) rfl (printed_bodyLines n b)
  | ⟨.defineSection name body, p⟩ :: b => by
    have hsection : Printed n (⟨.defineSection name body, p⟩ :: b)
        (sectionBlock n name (sunk (n + 2) (bodyLines body)) ++ sunk n (bodyLines b)) :=
      .defineSection (printed_bodyLines (n + 2) body) (printed_bodyLines n b)
    rw [bodyLines, statementLines, sunk_append, sunk_braced]
    simpa [sectionBlock] using hsection

theorem branched_branchLines (n : Nat) : ∀ (first : Bool) (cs : List (Clause (Located Statement))),
    Branched n (if first then "" else "\x7d ") cs (sunk n (branchLines first cs))
  | first, [] => by
    rw [branchLines]
    exact .nil
  | first, ⟨head, body⟩ :: cs => by
    rw [branchLines, sunk_append, sunk_of, sunk_nest]
    exact .cons (printed_bodyLines (n + 1) body) (branched_branchLines n false cs)

theorem chosen_armLines (n : Nat) : ∀ arms : List (Clause (Located Statement)),
    Chosen n arms (sunk n (armLines arms))
  | [] => by
    rw [armLines]
    exact .nil
  | ⟨head, body⟩ :: arms => by
    rw [armLines, sunk_append, sunk_block]
    exact .cons (printed_bodyLines (n + 1) body) (chosen_armLines n arms)

end

/-! Members and blocks -/

theorem declared_memberLines (n : Nat) (visibility : String) (m : Member) :
    Declared n visibility m (sunk n (memberLines visibility m)) := by
  cases m with
  | functions code => exact .functions (copied_codeLines n code.text)
  | constructor k =>
    have hdocs : sunk n (k.docs.map fun doc => .of ("/// " ++ doc)) =
        k.docs.map fun doc => .text n ("/// " ++ doc) := by
      rw [sunk, List.map_map]
      rfl
    rw [memberLines, constructorLines, sunk_append, hdocs, sunk_block]
    exact .constructor k

theorem declared_members (n : Nat) (visibility : String) (ms : List Member) :
    List.Forall₂ (Declared n visibility) ms (ms.map fun m =>
      sunk n (memberLines visibility m)) := by
  induction ms with
  | nil => exact .nil
  | cons m ms ih => exact .cons (declared_memberLines n visibility m) ih

section
variable (n : Nat) (c : Definition)

theorem sunk_structLines (source : String) :
    sunk n (structLines source c) = structBlock n source c := by
  unfold structLines structBlock Page.Definition.head
  cases marker? c <;> simp

theorem sunk_ownLines : sunk n (ownLines c) =
    ownBlock n c (c.members.map fun m => sunk (n + 1) (memberLines c.modifiers.visibility m)) := by
  unfold ownLines ownBlock
  simp [sunk_flatMap, List.flatMap_map]

theorem sunk_templateLines : sunk n (templateLines c) =
    templateBlock n c (sunk (n + 3) (bodyLines c.body)) := by
  unfold templateLines templateBlock executeLines
  simp [block]

end

theorem sunk_classLines (n : Nat) (source : String) (c : Definition) :
    sunk n (classLines source c) = [Line.blank].intercalate
      (classBlocks n source c (isDefaultBase c.baseType)
        (c.members.map fun m => sunk (n + 1) (memberLines c.modifiers.visibility m))
        (sunk (n + 3) (bodyLines c.body))) := by
  have hparts : ∀ default : Bool,
    ([structLines source c, ownLines c, derefLines c, derefMutLines c] ++
      (if default then [defaultLines c] else []) ++ [toValueLines c, templateLines c]).map
        (sunk n) =
      classBlocks n source c default
        (c.members.map fun m => sunk (n + 1) (memberLines c.modifiers.visibility m))
        (sunk (n + 3) (bodyLines c.body)) := by
    intro default
    cases default <;>
      simp [classBlocks, sunk_structLines, sunk_ownLines, sunk_templateLines, derefLines,
        derefMutLines, defaultLines, toValueLines, traitBlock, defaultBlock]
  rw [classLines, sunk_spaced, hparts]

@[simp] theorem sunk_useLines (n : Nat) (item : String) :
    sunk n (useLines item) = useBlock n item := rfl

theorem forwardedLines_eq (d : Document) (extra : List Member) : forwardedLines d extra =
    forwardedBlock d
      (extra.map fun m => sunk 2 (memberLines d.definition.modifiers.visibility m)) := by
  rw [← sunk_zero (forwardedLines d extra), forwardedLines, forwardedBlock]
  simp only [sunk_append, sunk_braced, sunk_spaced, List.map_map]
  rfl

theorem written_lines (d : Document) (extra : List Member) :
    Written d extra (isDefaultBase d.definition.baseType) (lines d extra) := by
  have hown := declared_members (d.segments.length + 1) d.definition.modifiers.visibility
    d.definition.members
  have hbody := printed_bodyLines (d.segments.length + 3) d.definition.body
  have htaken := declared_members 2 d.definition.modifiers.visibility extra
  have hwritten : Written d extra (isDefaultBase d.definition.baseType) _ :=
    .intro _ _ _ hown hbody htaken
  rw [lines, pageLines, moduleLines_eq, forwardedLines_eq]
  simpa [sunk_flatMap, sunk_classLines, Line.of] using hwritten

theorem exists_written (d : Document) (extra : List Member) : ∃ ls,
    Written d extra (isDefaultBase d.definition.baseType) ls ∧ (emit d extra).toList = ls.written :=
  ⟨lines d extra, written_lines d extra, toList_render _⟩

/-! What stands in it -/

theorem mem_openings {n i : Nat} {s : String} {segments : List String} (h : segments[i]? = some s) :
    .text (n + i) (s!"pub mod {s}" ++ " \x7b") ∈ openings n segments := by
  induction segments generalizing n i with
  | nil => cases h
  | cons r segments ih =>
    cases i with
    | zero =>
      obtain rfl := Option.some.inj h
      exact List.mem_cons_self
    | succ i =>
      have hrest := ih (n := n + 1) h
      rw [Nat.add_right_comm] at hrest
      exact List.mem_cons_of_mem _ hrest

theorem infix_block (n : Nat) (head : String) {ms ls : Lines} (h : ms <:+: ls) :
    ms <:+: block n head ls :=
  h.trans ⟨[.text n (head ++ " \x7b")], [.text n "\x7d"], rfl⟩

theorem infix_sectionBlock (n : Nat) (name : String) {ms ls : Lines} (h : ms <:+: ls) :
    ms <:+: sectionBlock n name ls := by
  have hbody : ms <:+: ls ++ [.text (n + 2) "Ok::<_, RenderError>(cx)"] :=
    h.trans (List.prefix_append _ _).isInfix
  exact (infix_block (n + 1) "async move" hbody).trans
    ((List.suffix_cons _ _).isInfix.trans (List.prefix_append _ _).isInfix)

theorem infix_intercalate {α : Type} {xs : List α} {parts : List (List α)} (h : xs ∈ parts)
    (sep : List α) : xs <:+: sep.intercalate parts := by
  induction parts with
  | nil => cases h
  | cons ys parts ih =>
    cases parts with
    | nil =>
      obtain rfl := List.mem_singleton.mp h
      simp
    | cons zs parts =>
      rw [List.intercalate_cons_cons]
      rcases List.mem_cons.mp h with rfl | h
      · exact ⟨[], sep ++ sep.intercalate (zs :: parts), by simp⟩
      · exact (ih h).trans (List.suffix_append _ _).isInfix

theorem exists_of_forall₂ {α β : Type} {R : α → β → Prop} {xs : List α} {ys : List β}
    (h : List.Forall₂ R xs ys) {x : α} (hx : x ∈ xs) : ∃ y ∈ ys, R x y := by
  induction h with
  | nil => cases hx
  | cons hxy _ ih =>
    rcases List.mem_cons.mp hx with rfl | hx
    · exact ⟨_, List.mem_cons_self, hxy⟩
    · obtain ⟨y, hy, hr⟩ := ih hx
      exact ⟨y, List.mem_cons_of_mem _ hy, hr⟩

namespace Written
variable {d : Document} {extra : List Member} {default : Bool} {ls : Lines}

theorem mem_module (h : Written d extra default ls) {i : Nat} {s : String}
    (hs : d.segments[i]? = some s) : .text i (s!"pub mod {s}" ++ " \x7b") ∈ ls := by
  have hopen := mem_openings (n := 0) hs
  rw [Nat.zero_add] at hopen
  cases h
  simp only [List.mem_append]
  tauto

theorem infix_of_mem (h : Written d extra default ls) : ∃ own body,
    Printed (d.segments.length + 3) d.definition.body body ∧
      ∀ ms ∈ classBlocks d.segments.length d.source d.definition default own body, ms <:+: ls := by
  obtain ⟨own, taken, body, -, hbody, -⟩ := h
  refine ⟨own, body, hbody, fun ms hms => (infix_intercalate hms [.blank]).trans ?_⟩
  rw [List.append_assoc, List.append_assoc, List.cons_append]
  exact ⟨_ ++ [.blank], _, by rw [List.append_assoc, List.append_assoc]; rfl⟩

theorem mem_head (h : Written d extra default ls) :
    .text d.segments.length (d.definition.head ++ " \x7b") ∈ ls := by
  obtain ⟨own, body, -, hblocks⟩ := h.infix_of_mem
  have hstruct : .text d.segments.length (d.definition.head ++ " \x7b") ∈
      structBlock d.segments.length d.source d.definition :=
    List.mem_append_right _ List.mem_cons_self
  exact (hblocks _ List.mem_cons_self).subset hstruct

theorem exists_printed (h : Written d extra default ls) :
    ∃ ms, Printed (d.segments.length + 3) d.definition.body ms ∧ ms <:+: ls := by
  obtain ⟨own, body, hbody, hblocks⟩ := h.infix_of_mem
  have hasync : body <:+: block (d.segments.length + 2) "async move"
      (body ++ [.text (d.segments.length + 3) "Ok::<(), RenderError>(())"]) :=
    infix_block _ _ (List.prefix_append _ _).isInfix
  have htemplate : body <:+: templateBlock d.segments.length d.definition body :=
    infix_block _ _ ((infix_block _ _ (hasync.trans (List.prefix_append _ _).isInfix)).trans
      (List.suffix_append _ _).isInfix)
  exact ⟨body, hbody, htemplate.trans (hblocks _ (by simp [classBlocks]))⟩

theorem exists_declared (h : Written d extra default ls) {m : Member} (hm : m ∈ extra) :
    ∃ ms, Declared 2 d.definition.modifiers.visibility m ms ∧ ms <:+: ls := by
  obtain ⟨own, taken, body, -, -, htaken⟩ := h
  obtain ⟨ms, hms, hdeclared⟩ := exists_of_forall₂ htaken hm
  have hextra : extra.isEmpty = false := List.isEmpty_eq_false_iff_exists_mem.mpr ⟨m, hm⟩
  have hblock := infix_block 1 (inherent d.definition) (infix_intercalate hms [.blank])
  have hforwarded : ms <:+: forwardedBlock d taken :=
    (hblock.trans (List.suffix_append _ _).isInfix).trans (List.prefix_append _ _).isInfix
  refine ⟨ms, hdeclared, hforwarded.trans ?_⟩
  rw [hextra]
  exact (List.suffix_append _ _).isInfix

end Written

/-! What stands in a body -/

theorem Printed.exists_of_mem {n : Nat} {b : Body} {ls : Lines} (h : Printed n b ls)
    {s : Located Statement} (hs : s ∈ b) : ∃ ms, Printed n [s] ms ∧ ms <:+: ls := by
  have hfirst : ∀ {s : Located Statement} {b : Body} {ls : Lines}, Printed n (s :: b) ls →
      ∃ ms rest, ls = ms ++ rest ∧ Printed n [s] ms ∧ Printed n b rest := by
    intro s b ls h
    cases h with
    | call hs h => exact ⟨_, _, rfl, by simpa using Printed.call hs .nil, h⟩
    | code hc h => exact ⟨_, _, rfl, by simpa using Printed.code hc .nil, h⟩
    | block hb h => exact ⟨_, _, rfl, by simpa using Printed.block hb .nil, h⟩
    | choice ha h => exact ⟨_, _, rfl, by simpa using Printed.choice ha .nil, h⟩
    | defineSection hd h => exact ⟨_, _, rfl, by simpa using Printed.defineSection hd .nil, h⟩
  induction b generalizing ls with
  | nil => cases hs
  | cons r b ih =>
    obtain ⟨ms, rest, rfl, hms, hrest⟩ := hfirst h
    rcases List.mem_cons.mp hs with rfl | hs
    · exact ⟨ms, hms, (List.prefix_append _ _).isInfix⟩
    · obtain ⟨ms', hms', hstands⟩ := ih hrest hs
      exact ⟨ms', hms', hstands.trans (List.suffix_append _ _).isInfix⟩

end Unit

end Templating
