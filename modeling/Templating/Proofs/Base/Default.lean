import Mathlib.Data.List.DropRight
import Templating.Base.Forwarding
import Templating.Proofs.Code.Spells
import Templating.Proofs.Unit.Written

/-!
The default base. What a page inherits is known to the unit by the text before its arguments, and to
the search for constructors by the last name of the path that the text is read as. The two agree on
every path whose last name stands in the text right behind its colons, with no comment before it and
its arguments, if there are any, at the end.
-/

namespace Templating.Base

open Code (PathEnd Names Spaces Undivided beforeAngle)
open Code.Lexeme (isSpace)

def named (base : String) : List Char := beforeAngle base.toList

def behindColons (cs : List Char) : List Char := cs.rtakeWhile (· != ':')

/-- The last name of a base shows in its text: no comment stands before the arguments, a name
follows at once on the last colon, and the spaces around it are blanks. -/
structure Apparent (base : String) : Prop where
  uncommented : '/' ∉ named base
  direct : ':' ∈ named base → (behindColons (named base)).head?.any (fun c => !isSpace c) = true
  unmarked : ∀ c ∈ behindColons (named base), c ∉ ['\u200e', '\u200f', '\ufeff']

instance (base : String) : Decidable (Apparent base) :=
  decidable_of_iff (_ ∧ _ ∧ _) ⟨fun h => ⟨h.1, h.2.1, h.2.2⟩, fun h =>
    ⟨h.uncommented, h.direct, h.unmarked⟩⟩

/-- The arguments of a base, if it has any, end it. -/
def Ended (base : String) : Prop :=
  ∀ ts, Code.Lexeme.tokens? base.toList = some ts → Code.Closed (ts.dropWhile (!·.opensArguments))

/-- What stands before the arguments of a base is, blanks aside, the default's name, or ends in it
behind colons. -/
def Feigned (base : String) : Prop :=
  Text.trim (named base) = Page.defaultBase.toList ∨
    ':' :: ':' :: Page.defaultBase.toList <:+ Text.trim (named base)

instance (base : String) : Decidable (Feigned base) := inferInstanceAs (Decidable (_ ∨ _))

theorem isDefaultBase_iff_feigned (base : String) : Unit.isDefaultBase base = true ↔
    Feigned base := by
  have hsuffix : ("::" ++ Page.defaultBase).toList = ':' :: ':' :: Page.defaultBase.toList := rfl
  rw [Unit.isDefaultBase, hsuffix, Bool.or_eq_true, beq_iff_eq, List.isSuffixOf_iff_suffix]
  rfl

/-! Texts -/

section
variable {cs lead w tail : List Char}

theorem behindColons_of_not_mem (h : ':' ∉ cs) : behindColons cs = cs := by
  refine List.rtakeWhile_eq_self_iff.mpr fun c hc => ?_
  simpa using ne_of_mem_of_not_mem hc h

theorem behindColons_append (h : ':' ∉ cs) (lead : List Char) :
    behindColons (lead ++ ':' :: cs) = cs := by
  have hcs : ∀ c ∈ cs.reverse, (c != ':') = true := fun c hc => by
    simpa using ne_of_mem_of_not_mem (List.mem_reverse.mp hc) h
  rw [behindColons, List.rtakeWhile, List.reverse_append, List.reverse_cons, List.append_assoc,
    List.takeWhile_append_of_pos hcs, List.singleton_append, List.takeWhile_cons_of_neg (by simp)]
  simp

theorem trim_append (hw : Undivided w) (htail : ∀ c ∈ tail, Text.isBlank c = true)
    (lead : List Char) :
    Text.trim (lead ++ (w ++ tail)) = Text.trimStart lead ++ w := by
  have hblank : ∀ c ∈ w, Text.isBlank c = false := fun c hc => by
    have hsolid := hw.solid c hc
    simp only [isSpace, Bool.or_eq_false_iff] at hsolid
    exact hsolid.1.1
  obtain ⟨c, r, hfirst⟩ := List.exists_cons_of_ne_nil hw.ne_nil
  have hlast := List.dropLast_append_getLast hw.ne_nil
  have hc : Text.isBlank c = false := hblank c (hfirst ▸ List.mem_cons_self)
  have hd : Text.isBlank (w.getLast hw.ne_nil) = false := hblank _ (List.getLast_mem hw.ne_nil)
  calc Text.trim (lead ++ (w ++ tail))
      = Text.trimEnd (Text.trimStart lead ++ (w ++ tail)) := by
        rw [Text.trim, hfirst, List.cons_append, Text.trimStart_append hc]
    _ = Text.trimEnd (Text.trimStart lead ++ w.dropLast ++ w.getLast hw.ne_nil :: tail) := by
        conv_lhs => rw [← hlast]
        simp
    _ = Text.trimStart lead ++ w := by
        rw [Text.trimEnd_append hd htail, List.append_assoc, hlast]

end

theorem isDefaultBase_iff_of_trim {base v : String} {lead : List Char}
    (htrim : Text.trim (named base) = lead ++ v.toList)
    (hlead : lead = [] ∨ [':', ':'] <:+ lead) (hv : ':' ∉ v.toList) :
    Unit.isDefaultBase base = true ↔ v = Page.defaultBase := by
  have hdefault : ':' ∉ Page.defaultBase.toList := by decide
  rw [isDefaultBase_iff_feigned, Feigned, htrim, ← String.toList_inj]
  rcases hlead with rfl | ⟨lead, rfl⟩
  · refine or_iff_left fun hcolons => hv (hcolons.subset ?_)
    exact List.mem_cons_self
  · have hbehind : ∀ cs, ':' ∉ cs → behindColons (lead ++ [':', ':'] ++ cs) = cs := fun cs hcs => by
      simpa using behindColons_append hcs (lead ++ [':'])
    have hno : lead ++ [':', ':'] ++ v.toList ≠ Page.defaultBase.toList :=
      fun h => hdefault (h ▸ by simp)
    rw [or_iff_right hno]
    constructor
    case mp =>
      rintro ⟨before, h⟩
      have hname := behindColons_append hdefault (before ++ [':'])
      rw [List.append_assoc, List.singleton_append, h, hbehind v.toList hv] at hname
      exact hname
    case mpr =>
      intro h
      rw [h]
      exact ⟨lead, by simp⟩

theorem named_eq (base : String) :
    ∃ mark cs, (mark = [] ∨ mark = ['\ufeff']) ∧ named base = mark ++ beforeAngle cs ∧
    Code.Lexeme.tokens? base.toList = Code.Lexeme.tokensFrom (cs.length + 1) [] cs := by
  unfold Code.Lexeme.tokens? named
  dsimp only
  split
  next hmark =>
    obtain ⟨cs, hcs⟩ := List.head?_eq_some_iff.mp (eq_of_beq hmark)
    exact ⟨['\ufeff'], cs, .inr rfl, by rw [hcs, Code.beforeAngle_cons (by decide)]; rfl,
      by rw [hcs]; rfl⟩
  · exact ⟨[], base.toList, .inl rfl, rfl, rfl⟩

section
variable {base v : String} {mark cs : List Char}

theorem not_isDefaultBase_of_spaces (hmark : mark = [] ∨ mark = ['\ufeff']) (hcs : Spaces cs)
    (h : named base = mark ++ cs) :
    Unit.isDefaultBase base = false := by
  have hletter : 'H' ∉ named base := by
    rw [h, List.mem_append, not_or]
    refine ⟨?_, hcs.not_mem (by decide)⟩
    rcases hmark with rfl | rfl <;> decide
  have hpath : 'H' ∉ Text.trim (named base) := by
    obtain ⟨a, b, hab, -, -⟩ := Text.exists_trim (named base)
    exact fun hmem => hletter (hab ▸ List.mem_append_right a (List.mem_append_left b hmem))
  rw [Bool.eq_false_iff, Ne, isDefaultBase_iff_feigned]
  rintro (heq | hsuffix)
  · refine hpath ?_
    rw [heq]
    decide
  · exact hpath (hsuffix.subset (by decide))

theorem isBlank_of_unmarked {c : Char} (h : isSpace c = true)
    (hc : c ∉ ['\u200e', '\u200f', '\ufeff']) :
    Text.isBlank c = true := by
  simp only [List.mem_cons, List.not_mem_nil, or_false, not_or] at hc
  simp only [isSpace, Bool.or_eq_true, beq_iff_eq] at h
  rcases h with (h | h) | h
  · exact h
  · exact absurd (Char.toNat_inj.mp h) hc.1
  · exact absurd (Char.toNat_inj.mp h) hc.2.1

theorem isDefaultBase_iff_of_names {ns : List Code.Token} (hmark : mark = [] ∨ mark = ['\ufeff'])
    (hns : Names ns v)
    (hspells : Code.Spells ns cs) (hnamed : named base = mark ++ cs) (happarent : Apparent base) :
    Unit.isDefaultBase base = true ↔ v = Page.defaultBase := by
  obtain ⟨lead, gap, tail, rfl, hlead, hgap, hv, htail⟩ := hspells.of_names hns
  have hcolon : ':' ∉ gap ++ (v.toList ++ tail) := by
    simp [hgap.not_mem (show isSpace ':' = false by decide), hv.colon,
      htail.not_mem (show isSpace ':' = false by decide)]
  have hblanks : ∀ {sp : List Char}, Spaces sp → sp ⊆ behindColons (named base) →
      ∀ c ∈ sp, Text.isBlank c = true :=
    fun hsp hsub c hc => isBlank_of_unmarked (hsp c hc) (happarent.unmarked c (hsub hc))
  rcases hlead with rfl | ⟨lead, rfl⟩
  · have hbehind : behindColons (named base) = mark ++ (gap ++ (v.toList ++ tail)) := by
      rw [hnamed]
      refine behindColons_of_not_mem (List.not_mem_append ?_ hcolon)
      rcases hmark with rfl | rfl <;> decide
    obtain rfl : mark = [] := hmark.resolve_right fun hmark => by
      refine happarent.unmarked '\ufeff' ?_ (by decide)
      rw [hbehind, hmark]
      exact List.mem_cons_self
    have hgap' := hblanks hgap (by simp [hbehind])
    have htail' := hblanks htail (by simp [hbehind])
    have hstart : Text.trimStart gap = [] := List.dropWhile_eq_nil_iff.mpr hgap'
    have htrim : Text.trim (named base) = [] ++ v.toList := by
      rw [hnamed, List.nil_append, List.nil_append, trim_append hv htail', hstart]
    exact isDefaultBase_iff_of_trim htrim (.inl rfl) hv.colon
  · have hbehind : behindColons (named base) = gap ++ (v.toList ++ tail) := by
      rw [hnamed]
      simpa using behindColons_append hcolon (mark ++ lead ++ [':'])
    obtain rfl : gap = [] := by
      cases gap with
      | nil => rfl
      | cons c gap =>
        have hdirect := happarent.direct (by simp [hnamed])
        rw [hbehind, List.cons_append, List.head?_cons, Option.any_some, hgap c List.mem_cons_self]
          at hdirect
        cases hdirect
    have htail' := hblanks htail (by simp [hbehind])
    have htrim :
        Text.trim (named base) = Text.trimStart (mark ++ lead) ++ [':', ':'] ++ v.toList := by
      have hassoc : named base = mark ++ lead ++ [':', ':'] ++ (v.toList ++ tail) := by
        simpa using hnamed
      rw [hassoc, trim_append hv htail', Text.trimStart_append (by decide)]
    exact isDefaultBase_iff_of_trim htrim (.inr (List.suffix_append _ _)) hv.colon

end

theorem isDefaultBase_iff {base : String} {t : Code.TypeExpr} {p : PathEnd}
    (htype : Code.type? base = some t) (hpath : t.path? = some p) (happarent : Apparent base)
    (hended : p.qualified = false → Ended base) :
    Unit.isDefaultBase base = true ↔ p.qualified = false ∧ p.name = Page.defaultBase := by
  obtain ⟨ts, htokens, hts⟩ := Code.pathTokens_of_type? htype hpath
  obtain ⟨mark, cs, hmark, hnamed, hcs⟩ := named_eq base
  rw [hcs] at htokens
  have hslash : '/' ∉ beforeAngle cs :=
    fun h => happarent.uncommented (hnamed ▸ List.mem_append_right mark h)
  rcases hts with ⟨hqualified, u, us, rfl, hu⟩ | ⟨hqualified, hts⟩
  · have hspells : Code.Spells [] (beforeAngle cs) :=
      Code.spells_of_tokensFrom htokens (by simp) (by simpa using hu) hslash
    simp [not_isDefaultBase_of_spaces hmark hspells.spaces hnamed, hqualified]
  simp only [hqualified, true_and]
  cases hts with
  | names hns =>
    rw [← List.append_nil ts] at htokens
    have hspells := Code.spells_of_tokensFrom htokens hns.all (by simp) hslash
    exact isDefaultBase_iff_of_names hmark hns hspells hnamed happarent
  | @arguments ns us u v hns hu hlast =>
    have hspells := Code.spells_of_tokensFrom htokens hns.all (by simpa using hu) hslash
    have hnames : ∀ t ∈ ns, (!t.opensArguments) = true := fun t ht => by
      simp [Code.not_opensArguments (hns.all t ht)]
    have hclosed := hended hqualified _ (hcs.trans htokens)
    rw [List.dropWhile_append_of_pos hnames, List.dropWhile_cons_of_neg (by simp [hu])] at hclosed
    rw [← hlast hclosed]
    exact isDefaultBase_iff_of_names hmark hns hspells hnamed happarent
  | @colons ns us u v j hns hu =>
    -- behind the last colons stands no name
    have hcolons : ∀ t ∈ ns ++ [.mark ':' true, .mark ':' j], t.ofNames = true :=
      List.forall_mem_append.mpr ⟨hns.all, by simp [Code.Token.ofNames]⟩
    rw [show ns ++ .mark ':' true :: .mark ':' j :: u :: us =
      (ns ++ [.mark ':' true, .mark ':' j]) ++ u :: us by simp] at htokens
    have hspells := Code.spells_of_tokensFrom htokens hcolons (by simpa using hu) hslash
    obtain ⟨a, b, hab, -, hb⟩ := hspells.append
    obtain ⟨lead, gap, rfl, hgap⟩ := hb.of_colons
    have hbehind : behindColons (named base) = gap := by
      rw [hnamed, hab]
      simpa using behindColons_append (hgap.not_mem (show isSpace ':' = false by decide))
        (mark ++ a ++ lead ++ [':'])
    have hdirect := happarent.direct (by simp [hnamed, hab])
    rw [hbehind] at hdirect
    cases gap with
    | nil => cases hdirect
    | cons c gap =>
      rw [List.head?_cons, Option.any_some, hgap c List.mem_cons_self] at hdirect
      cases hdirect

/-! Units -/

theorem forward_congr {d : Page.Document} {base : Page.Declaration} {t : Code.TypeExpr}
    (hbase : d.definition.base? = some base) (htype : Code.type? base.text = some t)
    {r r' : Resolver} (h : ∀ p, t.path? = some p → p.qualified = false → r p.name = r' p.name) :
    forward d r = forward d r' := by
  unfold forward
  rw [hbase]
  dsimp only
  rw [htype]
  dsimp only [Option.bind_some]
  cases hpath : t.path? with
  | none => rfl
  | some p =>
    dsimp only
    split
    · rfl
    next hqualified => rw [h p hpath (eq_false_of_ne_true hqualified)]

/-- The unit of a page with a base implements the default, once and in the place for it, if the text
before the base's arguments is the default's name or ends in it behind colons, and else not at all.
For a base that is read as a path this says that the path is that of a type with the name of the
default, if the last name shows in the text and the arguments end it; under that last name, and no
other, constructors are looked for. -/
theorem default_iff_resolved {d : Page.Document} {base : Page.Declaration} {t : Code.TypeExpr}
    (hbase : d.definition.base? = some base) (htype : Code.type? base.text = some t)
    (ms : List Page.Member) :
    (∃ default ls, Unit.Written d ms default ls ∧ (Unit.emit d ms).toList = ls.written ∧
      (default = true ↔ Feigned base.text) ∧
      ∀ p, t.path? = some p → Apparent base.text → (p.qualified = false → Ended base.text) →
        (default = true ↔ p.qualified = false ∧ p.name = Page.defaultBase)) ∧
    ∀ r r' : Resolver, (∀ p, t.path? = some p → p.qualified = false → r p.name = r' p.name) →
      forward d r = forward d r' := by
  have hbaseType : d.definition.baseType = base.text := by
    rw [Page.Definition.baseType, hbase]
    rfl
  obtain ⟨ls, hwritten, htext⟩ := Unit.exists_written d ms
  rw [hbaseType] at hwritten
  refine ⟨⟨_, ls, hwritten, htext, isDefaultBase_iff_feigned base.text, ?_⟩,
    fun r r' => forward_congr hbase htype⟩
  exact fun p hpath => isDefaultBase_iff htype hpath

def statusPage (base : String) : Page.Document where
  source := "status.stencil"
  namespaceName := "templates"
  definition := { name := "status", base? := some ⟨base, ⟨⟨"status.stencil", ""⟩, ⟨0, 0⟩⟩⟩ }

theorem ended_status : Ended "stencil_runtime ::HtmlTemplate<u8>" := by
  have htokens : Code.Lexeme.tokens? "stencil_runtime ::HtmlTemplate<u8>".toList =
      some [.word "stencil_runtime", .mark ':' true, .mark ':' false, .word "HtmlTemplate",
        .mark '<' false, .word "u8",
        .mark '>' false] := by decide +kernel
  intro ts hts n x rest h
  obtain rfl := Option.some.inj (htokens.symm.trans hts)
  cases n with
  | zero => cases h
  | succ n =>
    -- a type that is one name is read without reading what is deeper
    have hrun : ∃ y, (Code.Path.given (Code.Phrase.read (n + 1))).run [.mark '<' false, .word "u8",
      .mark '>' false] =
        some (y, []) := ⟨_, rfl⟩
    obtain ⟨y, hy⟩ := hrun
    exact (Prod.mk.inj (Option.some.inj (hy.symm.trans h))).2.symm

/-- The default by its path and with an argument, and a reference to it. -/
theorem default_iff_resolved_status :
    (∃ ls, Unit.Written (statusPage "stencil_runtime ::HtmlTemplate<u8>") [] true ls ∧
      (Unit.emit (statusPage "stencil_runtime ::HtmlTemplate<u8>") []).toList = ls.written) ∧
    (∃ ls, Unit.Written (statusPage "&HtmlTemplate") [] false ls ∧
      (Unit.emit (statusPage "&HtmlTemplate") []).toList = ls.written) ∧
    ∀ r r' : Resolver, r "HtmlTemplate" = r' "HtmlTemplate" →
      forward (statusPage "stencil_runtime ::HtmlTemplate<u8>") r =
        forward (statusPage "stencil_runtime ::HtmlTemplate<u8>") r' := by
  have hread : ((Code.type? "stencil_runtime ::HtmlTemplate<u8>").bind (·.path?)).map (fun p =>
    (p.qualified, p.name)) =
      some (false, "HtmlTemplate") := by decide +kernel
  have hreference : (Code.type? "&HtmlTemplate").isSome = true := by decide +kernel
  obtain ⟨p, hboth, hp⟩ := Option.map_eq_some_iff.mp hread
  obtain ⟨hqualified, hname⟩ := Prod.mk.inj hp
  obtain ⟨t, htype, hpath⟩ := Option.bind_eq_some_iff.mp hboth
  obtain ⟨u, hu⟩ := Option.isSome_iff_exists.mp hreference
  obtain ⟨⟨default, ls, hwritten, htext, -, hdefault⟩, hresolved⟩ :=
    default_iff_resolved (d := statusPage "stencil_runtime ::HtmlTemplate<u8>") rfl htype []
  obtain ⟨⟨default', ls', hwritten', htext', hfeigned, -⟩, -⟩ :=
    default_iff_resolved (d := statusPage "&HtmlTemplate") rfl hu []
  obtain rfl := (hdefault p hpath (by decide) fun _ => ended_status).mpr ⟨hqualified, hname⟩
  obtain rfl : default' = false := by
    rw [Bool.eq_false_iff, Ne, hfeigned]
    decide
  refine ⟨⟨ls, hwritten, htext⟩, ⟨ls', hwritten', htext'⟩, fun r r' h =>
    hresolved r r' fun q hq _ => ?_⟩
  obtain rfl := Option.some.inj (hpath.symm.trans hq)
  rw [hname]
  exact h

/-- Where a blank stands behind the last colons, the path has the default's name, but its text does
not show it. -/
example : ¬Apparent "a:: HtmlTemplate" ∧ ¬Feigned "a:: HtmlTemplate" ∧
    ((Code.type? "a:: HtmlTemplate").bind (·.path?)).map (·.name) = some Page.defaultBase := by
      decide +kernel

end Templating.Base
