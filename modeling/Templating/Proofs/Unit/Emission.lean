import Templating.Unit.Emission
import Templating.Proofs.Unit.Statements

/-! A unit closes what it opens, and nothing else, if all that is pasted into it does. -/
namespace Templating.Page
open Code

/-! What is pasted -/

/-- Names and types of a constructor close what they open, and its documentation
stays on its lines. -/
structure Constructor.Contained (c : Constructor) : Prop where
  docs : ∀ d ∈ c.docs, '\n' ∉ d.toList
  name : Balanced c.name.toList
  /-- Otherwise the apostrophe could take the delimiter behind it for a character. -/
  nameEnd : c.name.toList.getLast? ≠ some '\''
  parameters : ∀ p ∈ c.parameters, Balanced p.name.toList ∧ Balanced p.type.toList

instance (c : Constructor) : Decidable c.Contained :=
  decidable_of_iff ((∀ d ∈ c.docs, '\n' ∉ d.toList) ∧ Balanced c.name.toList ∧
    c.name.toList.getLast? ≠ some '\'' ∧
    ∀ p ∈ c.parameters, Balanced p.name.toList ∧ Balanced p.type.toList)
    ⟨fun ⟨hdocs, hname, hend, hparameters⟩ => ⟨hdocs, hname, hend, hparameters⟩,
      fun h => ⟨h.docs, h.name, h.nameEnd, h.parameters⟩⟩

structure Constructor.Closed (c : Constructor) : Prop extends c.Contained where
  base : Balanced c.base.toList

def Member.Closed : Member → Prop
  | .functions code => (Snippet.block code.text).Closed
  | .constructor c => c.Closed

structure Definition.Closed (c : Definition) : Prop where
  name : Wordy c.name.toList
  parameters : ∀ p ∈ c.typeParameters, Wordy p.name.toList
  constraints : ∀ p ∈ c.typeParameters, ∀ s, p.constraint? = some s →
    Balanced (Definition.predicate s.toList)
  base : Balanced c.baseType.toList
  members : ∀ m ∈ c.members, m.Closed
  body : Embeds Snippet.Closed c.body

structure Document.Closed (d : Document) : Prop where
  source : '\n' ∉ d.source.toList
  segments : ∀ s ∈ d.segments, Wordy s.toList
  uses : ∀ u ∈ d.uses, Pasted u.text.toList
  definition : d.definition.Closed

end Templating.Page

namespace Templating.Unit
open Code Page

/-! Lines in general -/

theorem takes_head {head : String} (h : Balanced head.toList) :
    Takes (.code, []) ((head ++ " \x7b").toList ++ ['\n']) (.code, ['\x7d']) := by
  have hhead := takes_weave [] "" [head] [" \x7b"] ['\x7d'] (by simpa using h) (by decide) (by simp)
  simpa only [weave, String.empty_append] using hhead

theorem Whole.block {head : String} {ls : Lines} (hhead : Balanced head.toList) (h : Whole ls) :
    Whole (Unit.braced head ls) :=
  Whole.braced _ (takes_head hhead) h (by decide)

theorem takes_comment {x : List Char} (hx : '\n' ∉ x) :
    Takes (.lineComment, []) (x ++ ['\n']) (.code, []) := by
  have hrun : ∀ {x : List Char} {p : Option Char}, '\n' ∉ x →
      State.run p [] ⟨0, .lineComment, []⟩ (x ++ ['\n']) = some ⟨0, .code, []⟩ := by
    intro x
    induction x with
    | nil => exact fun _ => rfl
    | cons c x ih =>
      intro p hx
      rw [List.mem_cons, not_or] at hx
      have hnext : (c == '\n') = false := beq_eq_false_iff_ne.mpr fun h => hx.1 h.symm
      simpa [State.run, State.next?, move, hnext] using ih hx.2
  exact hrun hx

theorem takes_remark {a x : String} (ha : Takes (.code, []) a.toList (.lineComment, []))
    (hfirm : firm a.toList = true)
    (hx : '\n' ∉ x.toList) : Takes (.code, []) ((a ++ x).toList ++ ['\n']) (.code, []) := by
  rw [String.toList_append, List.append_assoc]
  exact ha.append (apart_of_firm hfirm _) (takes_comment hx)

theorem takes_path {a source b : String} (ha : Takes (.code, []) a.toList (.lineComment, []))
    (hfirm : firm a.toList = true) (hs : '\n' ∉ source.toList) (hb : '\n' ∉ b.toList) :
    Takes (.code, []) ((a ++ source ++ b).toList ++ ['\n']) (.code, []) := by
  rw [String.append_assoc]
  exact takes_remark ha hfirm (by simp [hs, hb])

/-! Names -/

theorem balanced_list {xs : List String} (h : ∀ x ∈ xs, Balanced x.toList) :
    Balanced (Text.join ", " xs).toList :=
  balanced_join (by decide) (by decide) h fun x _ r =>
    apart_of_shut false (by decide) (by simp) x.toList

theorem balanced_visibility (m : Modifiers) : Balanced m.visibility.toList := by
  unfold Modifiers.visibility
  split <;> decide

def signature (c : Definition) : String := c.name ++ c.generics ++ c.whereClause

theorem apart_generics (c : Definition) {x : List Char} (hx : x.getLast? ≠ some '\'') :
    Apart x c.generics.toList := by
  unfold Definition.generics
  split
  · exact .nil _
  · rw [String.toList_append, String.toList_append, List.append_assoc]
    exact .of_single (by decide) hx

section
variable {c : Definition} (hc : c.Closed)
include hc

theorem balanced_generics : Balanced c.generics.toList := by
  have hnames : Balanced (Text.join ", " (c.typeParameters.map (·.name))).toList :=
    balanced_list fun x hx => by
    obtain ⟨p, hp, rfl⟩ := List.mem_map.mp hx
    exact (hc.parameters p hp).balanced
  unfold Definition.generics
  split
  · decide
  · have hangles :=
      balanced_weave "<" [Text.join ", " (c.typeParameters.map (·.name))] [">"]
        (by simpa using hnames) (by decide) (by simp)
    simpa only [weave] using hangles

theorem whereClause_cases :
    c.whereClause = "" ∨ ∃ ps, c.whereClause = " where " ++ Text.join ", " ps ∧ ∀ x ∈ ps,
      Balanced x.toList := by
  unfold Definition.whereClause
  dsimp only
  split
  · exact .inl rfl
  next ps hne =>
    refine .inr ⟨_, rfl, fun x hx => ?_⟩
    obtain ⟨s, hs, rfl⟩ := List.mem_map.mp (List.mem_filter.mp hx).1
    obtain ⟨p, hp, hps⟩ := List.mem_filterMap.mp hs
    simpa using hc.constraints p hp s hps

theorem balanced_whereClause : Balanced c.whereClause.toList := by
  rcases whereClause_cases hc with h | ⟨ps, h, hps⟩
  · rw [h]
    decide
  · rw [h, String.toList_append]
    exact Balanced.append (by decide) (apart_of_firm (by decide) _) (balanced_list hps)

theorem balanced_signature : Balanced (signature c).toList := by
  have hwhere : Apart (c.name ++ c.generics).toList c.whereClause.toList := by
    rcases whereClause_cases hc with h | ⟨ps, h, -⟩
    · rw [h]
      exact .nil _
    · have hw : c.whereClause.toList = " where ".toList ++ (Text.join ", " ps).toList := by
        rw [h, String.toList_append]
      rw [hw]
      exact apart_of_shut false (by decide) (by simp) _
  have htyped :=
    hc.name.balanced.append (apart_generics c hc.name.getLast?_ne) (balanced_generics hc)
  rw [← String.toList_append] at htyped
  have hall := htyped.append hwhere (balanced_whereClause hc)
  rwa [← String.toList_append] at hall

theorem balanced_impl {x : String} (h : Balanced x.toList) :
    Balanced ("impl" ++ c.generics ++ " " ++ x).toList := by
  have hlast : ("impl" ++ c.generics).toList.getLast? ≠ some '\'' := by
    rw [String.toList_append, List.getLast?_append]
    unfold Definition.generics
    split
    · decide
    · rw [String.toList_append, List.getLast?_append]
      simp
  have himpl :=
    Balanced.append (a := "impl".toList) (by decide) (apart_generics c (by decide))
      (balanced_generics hc)
  rw [← String.toList_append] at himpl
  have hrest := Balanced.append (a := [' ']) (by decide) (apart_of_firm (by decide) _) h
  have hall := himpl.append (.of_single (by decide) hlast) hrest
  simpa using hall

theorem balanced_inherent : Balanced (inherent c).toList := by
  have h := balanced_impl hc (balanced_signature hc)
  simpa only [inherent, signature, toString, String.append_assoc] using h

theorem balanced_implementing {name : String} (h : Balanced name.toList) :
    Balanced (implementing name c).toList := by
  have hall := balanced_impl hc (balanced_beside h " for " (by decide) (balanced_signature hc))
  simpa only [implementing, signature, toString, String.append_assoc] using hall

theorem balanced_marker {m : String} (h : marker? c = some m) : Balanced m.toList := by
  unfold marker? at h
  split at h
  · cases h
  obtain rfl := Option.some.inj h
  have hnames : Balanced (Text.join " " (c.typeParameters.map fun p => p.name ++ ",")).toList := by
    refine balanced_join (by decide) (by decide) ?_ ?_
    · intro x hx
      obtain ⟨p, hp, rfl⟩ := List.mem_map.mp hx
      rw [String.toList_append]
      exact (hc.parameters p hp).balanced.append (.of_last (by decide)) (by decide)
    · intro x hx r
      obtain ⟨p, hp, rfl⟩ := List.mem_map.mp hx
      exact .of_single (by decide) (by simp)
  have htype :=
    balanced_weave "fn() -> (" [Text.join " " (c.typeParameters.map fun p => p.name ++ ",")] [")"]
      (by simpa using hnames) (by decide) (by simp)
  simpa only [weave] using htype

/-! The class -/

theorem whole_structLines {source : String} (hs : '\n' ∉ source.toList) :
    Whole (structLines source c) := by
  have hhead :
      Balanced s!"{c.modifiers.visibility} struct {c.name}{c.generics}{c.whereClause}".toList := by
    have h :=
      balanced_beside (balanced_visibility c.modifiers) " struct " (by decide)
        (balanced_signature hc)
    simpa only [signature, toString, String.append_assoc] using h
  have hbase :=
    takes_weave [] "base: " [c.baseType] [","] [] (by simpa using hc.base) (by decide) (by simp)
  refine .cons (takes_path (by decide) (by decide) hs (by decide))
    (.cons (by decide) (.block hhead (.cons hbase ?_)))
  cases h : marker? c with
  | none => exact .nil
  | some m => exact .line (takes_weave [] "_marker: ::std::marker::PhantomData<" [m] [">,"] []
      (by simpa using balanced_marker hc h) (by decide) (by simp))

end

theorem balanced_call {name inputs : String} (hname : Balanced name.toList)
    (hend : name.toList.getLast? ≠ some '\'')
    (hinputs : Balanced inputs.toList) : Balanced (name ++ "(" ++ inputs ++ ")").toList := by
  have hparens := balanced_weave "(" [inputs] [")"] (by simpa using hinputs) (by decide) (by simp)
  have hcall := hname.append (b := '(' :: (inputs.toList ++ [')'])) (.of_single (by decide) hend)
    (by simpa [weave] using hparens)
  simpa using hcall

theorem whole_constructorLines (m : Modifiers) {c : Constructor} (hc : c.Closed) :
    Whole (constructorLines m.visibility c) := by
  have hdocs : Whole (c.docs.map fun d => .of ("/// " ++ d)) := by
    have hlines :=
      Whole.flatMap fun d hd =>
      (Goes.line (takes_remark (a := "/// ") (by decide) (by decide) (hc.docs d hd)))
    simpa [← List.map_eq_flatMap] using hlines
  have hinputs :
      Balanced (Text.join ", " (c.parameters.map fun p => p.name ++ ": " ++ p.type)).toList := by
    refine balanced_list fun x hx => ?_
    obtain ⟨p, hp, rfl⟩ := List.mem_map.mp hx
    exact balanced_beside (hc.parameters p hp).1 ": " (by decide) (hc.parameters p hp).2
  have harguments : Balanced (Text.join ", " (c.parameters.map (·.name))).toList := by
    refine balanced_list fun x hx => ?_
    obtain ⟨p, hp, rfl⟩ := List.mem_map.mp hx
    exact (hc.parameters p hp).1
  have hhead :=
    balanced_weave "" [m.visibility,
      c.name ++ "(" ++ Text.join ", " (c.parameters.map fun p => p.name ++ ": " ++ p.type) ++ ")"]
    [" fn ", " -> Self"]
      (by simp only [List.forall_mem_cons]; exact ⟨balanced_visibility m,
        balanced_call hc.name hc.nameEnd hinputs, by simp⟩)
    (by decide) (by simp)
  have hbody :=
    takes_weave [] "Self::from_base(<"
    [c.base, c.name ++ "(" ++ Text.join ", " (c.parameters.map (·.name)) ++ ")"]
    [">::", ")"] []
    (by
      simp only [List.forall_mem_cons]
      exact ⟨hc.base, balanced_call hc.name hc.nameEnd harguments, by simp⟩)
    (by decide) (by simp)
  refine hdocs.append (Whole.block ?_ (.line ?_))
  · simpa [weave, toString] using hhead
  · simpa [weave, toString] using hbody

theorem whole_memberLines (m : Modifiers) {x : Member} (h : x.Closed) :
    Whole (memberLines m.visibility x) := by
  cases x with
  | functions code => exact whole_codeLines h.1 h.2
  | constructor c => exact whole_constructorLines m h

section
variable {c : Definition} (hc : c.Closed)
include hc

theorem whole_ownLines : Whole (ownLines c) := by
  have hhead :=
    balanced_weave "" [c.modifiers.visibility, c.baseType] [" fn from_base(base: ", ") -> Self"]
      (by simp only [List.forall_mem_cons]; exact ⟨balanced_visibility _, hc.base, by simp⟩)
      (by decide) (by simp)
  have hbase : Takes (.code, []) ((c.name ++ " \x7b base" ++
      (if (marker? c).isSome then ", _marker: ::std::marker::PhantomData" else "") ++
        " \x7d").toList ++ ['\n']) (.code, []) := by
    split
    · have hline :=
        takes_weave [] "" [c.name] [" \x7b base, _marker: ::std::marker::PhantomData \x7d"] []
          (by simpa using hc.name.balanced) (by decide) (by simp)
      simpa [weave] using hline
    · have hline :=
        takes_weave [] "" [c.name] [" \x7b base \x7d"] [] (by simpa using hc.name.balanced)
          (by decide) (by simp)
      simpa [weave] using hline
  have hmembers : Whole (c.members.flatMap fun m =>
      .blank :: memberLines c.modifiers.visibility m) :=
    .flatMap fun m hm => .blank (whole_memberLines _ (hc.members m hm))
  have hfirst : Whole (.of "/// Builds the template around an existing base." ::
      braced s!"{c.modifiers.visibility} fn from_base(base: {c.baseType}) -> Self"
        [.of (c.name ++ " \x7b base" ++
          (if (marker? c).isSome then ", _marker: ::std::marker::PhantomData" else "") ++
          " \x7d")]) := by
    refine .cons (by decide) (.block ?_ (.line hbase))
    simpa only [weave, toString, String.empty_append] using hhead
  exact .block (balanced_inherent hc) (hfirst.append hmembers)

theorem whole_derefLines : Whole (derefLines c) := by
  have htarget :=
    takes_weave [] "type Target = " [c.baseType] [";"] [] (by simpa using hc.base) (by decide)
      (by simp)
  have hderef : Whole (braced "fn deref(&self) -> &Self::Target" [.of "&self.base"]) :=
    .block (by decide) (.line (by decide))
  exact .block (balanced_implementing hc (by decide)) (.cons htarget (.blank hderef))

theorem whole_derefMutLines : Whole (derefMutLines c) :=
  .block (balanced_implementing hc (by decide)) (.block (by decide) (.line (by decide)))

theorem whole_defaultLines : Whole (defaultLines c) :=
  .block (balanced_implementing hc (by decide)) (.block (by decide) (.line (by decide)))

theorem whole_toValueLines : Whole (toValueLines c) :=
  .block (balanced_implementing hc (by decide)) (.block (by decide) (.line (by decide)))

theorem whole_executeLines : Whole (executeLines c.body) := by
  have hbody : Whole (bodyLines c.body ++ [.of "Ok::<(), RenderError>(())"]) :=
    (whole_bodyLines hc.body).append (.line (by decide))
  have hasync :
    Whole (braced "async move" (bodyLines c.body ++ [.of "Ok::<(), RenderError>(())"]) ++
      [.of ".boxed_local()"]) := (Whole.block (by decide) hbody).append (.line (by decide))
  -- the parenthesis that the first lines open is closed where the body begins
  have hinputs : Goes (.code, [')']) [.of "&'s self,", .of "cx: &'c mut Context<'s>,"]
      (.code, [')']) :=
    .text (u := (.code, [')'])) (by decide) (.line (by decide))
  have hrest : Goes (.code, [')']) (braced ") -> LocalBoxFuture<'c, Result<(), RenderError>>"
      (braced "async move" (bodyLines c.body ++ [.of "Ok::<(), RenderError>(())"]) ++
        [.of ".boxed_local()"])) (.code, []) :=
    .text (u := (.code, ['\x7d'])) (by decide) ((hasync.nested ['\x7d']).append (.line (by decide)))
  exact .cons (by decide) (.text (u := (.code, [')'])) (by decide) (hinputs.nest.append hrest))

theorem whole_templateLines : Whole (templateLines c) := by
  have hkind :
      Whole (braced "fn content_kind(&self) -> ContentKind"
        [.of "TemplateBase::content_kind(&self.base)"]) :=
    .block (by decide) (.line (by decide))
  exact .block (balanced_implementing hc (by decide))
    (hkind.append (.blank (whole_executeLines hc)))

theorem whole_classLines {source : String} (hs : '\n' ∉ source.toList) :
    Whole (classLines source c) := by
  refine .spaced fun ls hls => ?_
  simp only [List.mem_append, List.mem_cons, List.not_mem_nil, or_false] at hls
  rcases hls with (((rfl | rfl | rfl | rfl) | hls) | rfl | rfl)
  · exact whole_structLines hc hs
  · exact whole_ownLines hc
  · exact whole_derefLines hc
  · exact whole_derefMutLines hc
  · split at hls
    · obtain rfl := List.mem_singleton.mp hls
      exact whole_defaultLines hc
    · cases hls
  · exact whole_toValueLines hc
  · exact whole_templateLines hc

end

/-! The unit -/

theorem whole_useLines {item : String} (h : Pasted item.toList) : Whole (useLines item) := by
  refine .cons (by decide) (.line ?_)
  rcases h with h | h
  · exact takes_weave [] "pub(crate) use " [item] [";"] [] (by simpa using h) (by decide) (by simp)
  · have hkeyword : Takes (.code, []) "pub(crate) use ".toList (.code, []) := by decide
    have hend : Takes (.lineComment, []) ([';'] ++ ['\n']) (.code, []) := takes_comment (by decide)
    have hline :=
      hkeyword.append (apart_of_firm (by decide) _)
      (h.append (.of_pair (by decide) (by decide)) hend)
    simpa [toString] using hline

theorem whole_moduleLines {segments : List String} (hs : ∀ s ∈ segments, Wordy s.toList)
    {body : Lines} (h : Whole body) :
    Whole (moduleLines segments body) := by
  induction segments with
  | nil => exact h
  | cons s ss ih =>
    have hhead :=
      balanced_beside (x := "pub") (by decide) " mod " (by decide)
      (hs s List.mem_cons_self).balanced
    refine .block ?_ (ih fun r hr => hs r (List.mem_cons_of_mem s hr))
    simpa [toString] using hhead

section
variable {d : Document} (hd : d.Closed)
include hd

theorem whole_pageLines : Whole (pageLines d) := by
  have huses : Whole (d.uses.flatMap fun u => useLines u.text) :=
    .flatMap fun u hu => whole_useLines (hd.uses u hu)
  have hprelude : Whole (useLines "stencil_runtime::prelude::*") :=
    whole_useLines (.inl (by decide))
  have hinner := (hprelude.append huses).append (.blank (whole_classLines hd.definition hd.source))
  exact .cons (by decide) (.cons (takes_path (by decide) (by decide) hd.source (by decide))
    (.blank (whole_moduleLines hd.segments hinner)))

theorem whole_forwardedLines {extra : List Member} (h : ∀ m ∈ extra, m.Closed) :
    Whole (forwardedLines d extra) := by
  have hpath : Balanced (Text.join "::" d.segments).toList := by
    refine balanced_join (by decide) (by decide) (fun s hs => (hd.segments s hs).balanced) fun s
      _ r => ?_
    exact apart_of_shut false (by decide) (by simp) _
  have huse :=
    takes_weave [] "use self::" [Text.join "::" d.segments] ["::*;"] [] (by simpa using hpath)
      (by decide) (by simp)
  have hmembers : Whole (spaced (extra.map (memberLines d.definition.modifiers.visibility))) := by
    refine .spaced fun ls hls => ?_
    obtain ⟨m, hm, rfl⟩ := List.mem_map.mp hls
    exact whole_memberLines _ (h m hm)
  have hblock := Whole.block (balanced_inherent hd.definition) hmembers
  have hinner :=
    Whole.cons (x := "#[allow(unused_imports)]") (by decide) (.cons huse (.blank hblock))
  exact .blank (Whole.cons (by decide) (.braced ['\x7d'] (by decide) hinner (by decide)))

theorem whole_lines {extra : List Member} (h : ∀ m ∈ extra, m.Closed) : Whole (lines d extra) := by
  refine (whole_pageLines hd).append ?_
  split
  · exact .nil
  · exact whole_forwardedLines hd h

end

/-! No line begins with an apostrophe, so none looks at the next. -/

theorem clear_useLines (item : String) : Clear (useLines item) :=
  .cons (clear_of (by decide)) (.cons (clear_of (by simp [toString])) clear_nil)

theorem clear_moduleLines (segments : List String) {body : Lines} (h : Clear body) :
    Clear (moduleLines segments body) := by
  cases segments with
  | nil => exact h
  | cons s ss => exact clear_braced (by simp [toString]) (by decide) _

theorem clear_classLines (source : String) (c : Definition) : Clear (classLines source c) := by
  have hvisibility : ∀ m : Modifiers, ∃ cs, m.visibility.toList = 'p' :: cs := by
    intro m
    unfold Modifiers.visibility
    split
    · exact ⟨['u', 'b'], by decide⟩
    · exact ⟨"ub(crate)".toList, by decide⟩
  have himplementing : ∀ (name : String) (ls : Lines), Clear (braced (implementing name c) ls) :=
    fun name ls =>
    clear_braced (by simp [implementing, toString]) (by decide) ls
  refine clear_spaced fun ls hls => ?_
  simp only [List.mem_append, List.mem_cons, List.not_mem_nil, or_false] at hls
  rcases hls with (((rfl | rfl | rfl | rfl) | hls) | rfl | rfl)
  · obtain ⟨cs, hcs⟩ := hvisibility c.modifiers
    refine .cons (clear_of (by simp [toString]))
      (.cons (clear_of (by decide)) (clear_braced ?_ (by decide) _))
    simp [toString, hcs]
  · exact clear_braced (by simp [inherent, toString]) (by decide) _
  · exact himplementing _ _
  · exact himplementing _ _
  · split at hls
    · obtain rfl := List.mem_singleton.mp hls
      exact himplementing _ _
    · cases hls
  · exact himplementing _ _
  · exact himplementing _ _

theorem clear_lines (d : Document) (extra : List Member) : Clear (lines d extra) := by
  have huses : Clear (d.uses.flatMap fun u => useLines u.text) := by
    intro l hl
    obtain ⟨u, -, hl⟩ := List.mem_flatMap.mp hl
    exact clear_useLines u.text l hl
  have hinner :
    Clear (useLines "stencil_runtime::prelude::*" ++ d.uses.flatMap (fun u => useLines u.text) ++
      .blank :: classLines d.source d.definition) :=
    ((clear_useLines _).append huses).append (.cons trivial (clear_classLines _ _))
  have hpage : Clear (pageLines d) :=
    .cons (clear_of (by decide))
      (.cons (clear_of (by simp [toString])) (.cons trivial (clear_moduleLines d.segments hinner)))
  refine hpage.append ?_
  split
  · exact clear_nil
  · exact .cons trivial (.cons (clear_of (by decide)) (clear_braced (by decide) (by decide) _))

/-- A unit is balanced if what is pasted into it keeps to itself. -/
theorem balanced_emit {d : Document} (hd : d.Closed) {extra : List Member}
    (h : ∀ m ∈ extra, m.Closed) :
    Balanced (emit d extra).toList :=
  Goes.takes (whole_lines hd h) (fun _ => rfl) (clear_lines d extra)

end Templating.Unit
