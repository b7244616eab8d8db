import Templating.Page.Document
import Templating.Unit.Line

/-!
The unit of code that a page is emitted as.
-/

namespace Templating.Unit

open Page
open Markup (Clause Part)
open Text (quoted)

mutual

def statementLines : Statement → Lines
  | .literal text => [.of s!"cx.write_literal({quoted text});"]
  | .expression code =>
    .of "\x7b" :: Lines.nest [.of s!"let __value = ({code});", .of "cx.write(&__value).await?;"] ++
      [.of "\x7d"]
  | .code code => codeLines code
  | .block branches => branchLines true branches
  | .choice scrutinee arms => braced s!"match {scrutinee}" (armLines arms)
  | .beginAttribute name opening closing count =>
    [.of s!"cx.begin_write_attribute({quoted name}, {quoted opening}, {quoted closing}, {count})?;"]
  | .part ⟨lead, .literal text⟩ =>
    [.of s!"cx.write_attribute_value({quoted lead}, {quoted text}, true).await?;"]
  | .part ⟨lead, .expression code⟩ =>
    .of "\x7b" ::
      Lines.nest [.of s!"let __value = ({code});",
        .of s!"cx.write_attribute_value({quoted lead}, &__value, false).await?;"] ++ [.of "\x7d"]
  | .endAttribute => [.of "cx.end_write_attribute()?;"]
  | .defineSection name body =>
    braced s!"cx.define_section({quoted name}, move |mut cx: Writer|"
      (braced "async move" (bodyLines body ++ [.of "Ok::<_, RenderError>(cx)"]) ++
        [.of ".boxed_local()"]) "\x7d)?;"

def bodyLines : List (Located Statement) → Lines
  | [] => []
  | ⟨s, _⟩ :: ss => statementLines s ++ bodyLines ss

/-- Branches in a row; the brace that ends one stands on the line of the next. -/
def branchLines : Bool → List (Clause (Located Statement)) → Lines
  | _, [] => [.of "\x7d"]
  | first, ⟨head, body⟩ :: cs =>
    .of ((if first then "" else "\x7d ") ++ head ++ " \x7b") :: Lines.nest (bodyLines body) ++
      branchLines false cs

def armLines : List (Clause (Located Statement)) → Lines
  | [] => []
  | ⟨head, body⟩ :: cs => braced (head ++ " =>") (bodyLines body) ++ armLines cs

end

def constructorLines (visibility : String) (c : Constructor) : Lines :=
  let parameters := Text.join ", " (c.parameters.map fun p => p.name ++ ": " ++ p.type)
  let arguments := Text.join ", " (c.parameters.map (·.name))
  c.docs.map (fun d => .of ("/// " ++ d)) ++
    braced s!"{visibility} fn {c.name}({parameters}) -> Self"
      [.of s!"Self::from_base(<{c.base}>::{c.name}({arguments}))"]

def memberLines (visibility : String) : Member → Lines
  | .functions code => codeLines code.text
  | .constructor c => constructorLines visibility c

/-- Whether a base is the default one, whatever arguments are given to it. -/
def isDefaultBase (base : String) : Bool :=
  let path := Text.trim (base.toList.takeWhile (· != '<'))
  path == defaultBase.toList || ("::" ++ defaultBase).toList.isSuffixOf path

def inherent (c : Definition) : String := s!"impl{c.generics} {c.name}{c.generics}{c.whereClause}"

def implementing (traitName : String) (c : Definition) : String :=
  s!"impl{c.generics} {traitName} for {c.name}{c.generics}{c.whereClause}"

/-- The type that stands for the type parameters, if there are any. -/
def marker? (c : Definition) : Option String :=
  if c.typeParameters.isEmpty then none
  else some ("fn() -> (" ++ Text.join " " (c.typeParameters.map fun p => p.name ++ ",") ++ ")")

def structLines (source : String) (c : Definition) : Lines :=
  .of s!"/// Template compiled from `{source}`." ::
    .of "#[allow(dead_code, non_camel_case_types, non_snake_case)]" ::
    braced s!"{c.modifiers.visibility} struct {c.name}{c.generics}{c.whereClause}"
      (.of s!"base: {c.baseType}," ::
        match marker? c with
        | some m => [.of s!"_marker: ::std::marker::PhantomData<{m}>,"]
        | none => [])

def ownLines (c : Definition) : Lines :=
  let marker := if (marker? c).isSome then ", _marker: ::std::marker::PhantomData" else ""
  braced (inherent c)
    (.of "/// Builds the template around an existing base." ::
      braced s!"{c.modifiers.visibility} fn from_base(base: {c.baseType}) -> Self"
        [.of (c.name ++ " \x7b base" ++ marker ++ " \x7d")] ++
      c.members.flatMap fun m => .blank :: memberLines c.modifiers.visibility m)

def derefLines (c : Definition) : Lines :=
  braced (implementing "::std::ops::Deref" c)
    ([.of s!"type Target = {c.baseType};", .blank] ++ braced "fn deref(&self) -> &Self::Target"
      [.of "&self.base"])

def derefMutLines (c : Definition) : Lines :=
  braced (implementing "::std::ops::DerefMut" c)
    (braced "fn deref_mut(&mut self) -> &mut Self::Target" [.of "&mut self.base"])

def defaultLines (c : Definition) : Lines :=
  braced (implementing "::std::default::Default" c)
    (braced "fn default() -> Self" [.of "Self::from_base(::std::default::Default::default())"])

def toValueLines (c : Definition) : Lines :=
  braced (implementing "ToValue" c)
    (braced "fn to_value(&self) -> Value<'_>" [.of "Value::Template(self)"])

def executeLines (body : Body) : Lines :=
  [.of "#[allow(unused_braces, unused_parens, unused_mut, unused_variables, unreachable_code)]",
    .of "fn execute<'s: 'c, 'c>("] ++
    Lines.nest [.of "&'s self,", .of "cx: &'c mut Context<'s>,"] ++
    braced ") -> LocalBoxFuture<'c, Result<(), RenderError>>"
      (braced "async move" (bodyLines body ++ [.of "Ok::<(), RenderError>(())"]) ++
        [.of ".boxed_local()"])

def templateLines (c : Definition) : Lines :=
  braced (implementing "Template" c)
    (braced "fn content_kind(&self) -> ContentKind"
      [.of "TemplateBase::content_kind(&self.base)"] ++
      .blank :: executeLines c.body)

def classLines (source : String) (c : Definition) : Lines :=
  spaced ([structLines source c, ownLines c, derefLines c, derefMutLines c] ++
    (if isDefaultBase c.baseType then [defaultLines c] else []) ++
      [toValueLines c, templateLines c])

def useLines (item : String) : Lines :=
  [.of "#[allow(unused_imports)]", .of s!"pub(crate) use {item};"]

def moduleLines : List String → Lines → Lines
  | [], body => body
  | s :: ss, body => braced s!"pub mod {s}" (moduleLines ss body)

def pageLines (d : Document) : Lines :=
  [.of "// <auto-generated/>", .of s!"// Compiled by stencil from `{d.source}`. Do not edit.",
    .blank] ++
    moduleLines d.segments
      (useLines "stencil_runtime::prelude::*" ++ d.uses.flatMap (fun u => useLines u.text) ++
        .blank :: classLines d.source d.definition)

def forwardedLines (d : Document) (extra : List Member) : Lines :=
  let path := Text.join "::" d.segments
  [.blank, .of "// forwarded template constructors"] ++
    braced "const _: () ="
      ([.of "#[allow(unused_imports)]", .of s!"use self::{path}::*;", .blank] ++
        braced (inherent d.definition)
          (spaced (extra.map (memberLines d.definition.modifiers.visibility)))) "\x7d;"

def lines (d : Document) (extra : List Member) : Lines :=
  pageLines d ++ if extra.isEmpty then [] else forwardedLines d extra

def emit (d : Document) (extra : List Member) : String := (lines d extra).render

end Templating.Unit
