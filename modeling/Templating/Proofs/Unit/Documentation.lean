import Mathlib.Data.List.Basic
import Templating.Proofs.Text.Split
import Templating.Proofs.Unit.Lines
import Templating.Unit.Emission

/-!
The documentation of constructors that come from the base. It adds lines to the unit and changes
none. The first line of each text stands behind three slashes; the others are printed as they are,
so that it takes a line end to leave the comment.
-/

namespace Templating.Page.Member

def docs : Member → List String
  | .functions _ => []
  | .constructor c => c.docs

def undocumented : Member → Member
  | .functions code => .functions code
  | .constructor c => .constructor { c with docs := [] }

end Templating.Page.Member

namespace Templating.Unit

open Page (Member)

/-! Lists with others among them -/

/-- The last list is the first one with the elements of the second among its own,
all in their order. -/
inductive Adds {α : Type} : List α → List α → List α → Prop
  | nil : Adds [] [] []
  | kept (x : α) {bare added full : List α} (h : Adds bare added full) :
      Adds (x :: bare) added (x :: full)
  | added (x : α) {bare added full : List α} (h : Adds bare added full) :
      Adds bare (x :: added) (x :: full)

namespace Adds

variable {α β : Type} {bare bare' added added' full full' : List α}

theorem refl (xs : List α) : Adds xs [] xs := by
  induction xs with
  | nil => exact .nil
  | cons x xs ih => exact .kept x ih

theorem all (xs : List α) : Adds [] xs xs := by
  induction xs with
  | nil => exact .nil
  | cons x xs ih => exact .added x ih

theorem append (h : Adds bare added full) (h' : Adds bare' added' full') :
    Adds (bare ++ bare') (added ++ added') (full ++ full') := by
  induction h with
  | nil => exact h'
  | kept x _ ih => exact .kept x ih
  | added x _ ih => exact .added x ih

theorem append_left (h : Adds bare added full) (before : List α) :
    Adds (before ++ bare) added (before ++ full) :=
  (refl before).append h

theorem append_right (h : Adds bare added full) (after : List α) :
    Adds (bare ++ after) added (full ++ after) := by
  simpa using h.append (refl after)

theorem map (h : Adds bare added full) (f : α → β) :
    Adds (bare.map f) (added.map f) (full.map f) := by
  induction h with
  | nil => exact .nil
  | kept x _ ih => exact .kept (f x) ih
  | added x _ ih => exact .added (f x) ih

theorem flatMap (h : Adds bare added full) (f : α → List β) :
    Adds (bare.flatMap f) (added.flatMap f) (full.flatMap f) := by
  induction h with
  | nil => exact .nil
  | kept x _ ih => simpa only [List.flatMap_cons] using ih.append_left (f x)
  | added x _ ih => simpa only [List.flatMap_cons, List.nil_append] using (all (f x)).append ih

theorem perm (h : Adds bare added full) : full.Perm (bare ++ added) := by
  induction h with
  | nil => exact .nil
  | kept x _ ih => exact ih.cons x
  | @added x bare added full _ ih => exact (ih.cons x).trans List.perm_middle.symm

theorem added_perm (h : Adds bare added full) (h' : Adds bare added' full) : added.Perm added' :=
  (List.perm_append_left_iff bare).mp (h.perm.symm.trans h'.perm)

end Adds

/-! The lines of a text -/

/-- The lines of a text; behind its last line end there is one more. -/
def rows (text : String) : List (List Char) := Text.splitAt (· == '\n') text.toList

def Line.rows : Line → List (List Char)
  | .blank => [[]]
  | .text n x => Text.splitAt (· == '\n') (indentation n ++ x.toList)

theorem rows_render (ls : Lines) : rows (Lines.render ls) = ls.flatMap Line.rows ++ [[]] := by
  have hmark : ('\n' == '\n') = true := by decide
  induction ls with
  | nil => rfl
  | cons l ls ih =>
    have hline : rows (Lines.render (l :: ls)) = l.rows ++ rows (Lines.render ls) := by
      unfold rows
      rw [toList_render_cons]
      cases l with
      | blank =>
        exact Text.splitAt_mark (p := (· == '\n')) hmark [] _
      | text n x =>
        rw [toList_render_text, ← List.append_assoc, List.append_assoc, List.singleton_append]
        exact Text.splitAt_mark (p := (· == '\n')) hmark _ _
    rw [hline, ih, List.flatMap_cons, List.append_assoc]

theorem Adds.braced {bare added full : Lines} (h : Adds bare added full) (head tail : String) :
    Adds (braced head bare tail) (added.map Line.deeper) (braced head full tail) :=
  .kept _ ((h.map Line.deeper).append_right [.of tail])

/-! Documentation -/

def slashes : List Char := "        /// ".toList

def docRows (doc : String) : List (List Char) := (rows doc).modifyHead (slashes ++ ·)

def docComment (doc : String) : List (List Char) := (rows doc).map (slashes ++ ·)

/-- A line that begins with three slashes, after its indentation. -/
def commented (row : List Char) : Bool := "///".toList.isPrefixOf (Text.trimStart row)

theorem rows_doc (doc : String) : (Line.text 2 ("/// " ++ doc)).rows = docRows doc := by
  have hslashes : indentation 2 ++ ("/// " ++ doc).toList = slashes ++ doc.toList := by
    rw [String.toList_append, ← List.append_assoc]
    rfl
  rw [Line.rows, hslashes]
  exact Text.splitAt_clear (by decide) _

theorem adds_memberLines (visibility : String) (m : Member) :
    Adds (memberLines visibility m.undocumented) (m.docs.map fun doc => .of ("/// " ++ doc))
      (memberLines visibility m) := by
  cases m with
  | functions code => exact .refl _
  | constructor c => exact (Adds.all _).append_right _

theorem adds_spaced (visibility : String) (ms : List Member) :
    Adds (spaced ((ms.map Member.undocumented).map (memberLines visibility)))
      ((ms.flatMap Member.docs).map fun doc => .of ("/// " ++ doc))
        (spaced (ms.map (memberLines visibility))) := by
  induction ms with
  | nil => exact .nil
  | cons m ms ih =>
    have hm := adds_memberLines visibility m
    rw [List.flatMap_cons, List.map_append]
    cases ms with
    | nil => simpa [spaced] using hm
    | cons m' ms => exact hm.append (.kept .blank ih)

theorem adds_lines (d : Page.Document) (ms : List Member) :
    Adds (lines d (ms.map Member.undocumented)) ((ms.flatMap Member.docs).map fun doc =>
      .text 2 ("/// " ++ doc))
      (lines d ms) := by
  cases ms with
  | nil => exact .refl _
  | cons m ms =>
    have hblock :=
      ((adds_spaced d.definition.modifiers.visibility (m :: ms)).braced (inherent d.definition)
        "\x7d").append_left
      [.of "#[allow(unused_imports)]",
        .of ("use self::" ++ Text.join "::" d.segments ++ "::*;"), .blank]
    have hforwarded := hblock.braced "const _: () =" "\x7d;"
    have hdepth : ∀ docs : List String,
        ((docs.map fun doc => Line.of ("/// " ++ doc)).map Line.deeper).map Line.deeper =
          docs.map fun doc => .text 2 ("/// " ++ doc) := by
      intro docs
      rw [List.map_map, List.map_map]
      rfl
    rw [hdepth] at hforwarded
    exact (hforwarded.append_left [.blank, .of "// forwarded template constructors"]).append_left
      (pageLines d)

theorem adds_emit (d : Page.Document) (ms : List Member) :
    Adds (rows (emit d (ms.map Member.undocumented))) ((ms.flatMap Member.docs).flatMap docRows)
      (rows (emit d ms)) := by
  have hlines := ((adds_lines d ms).flatMap Line.rows).append_right [[]]
  rw [List.flatMap_map] at hlines
  simp only [rows_doc] at hlines
  rwa [emit, emit, rows_render, rows_render]

theorem commented_slashes (r : List Char) : commented (slashes ++ r) = true := rfl

theorem exists_rows (doc : String) :
    ∃ r rs, rows doc = r :: rs ∧ rs.length = doc.toList.countP (· == '\n') := by
  obtain ⟨r, rs, hrows⟩ : ∃ r rs, rows doc = r :: rs := Text.exists_splitAt _ _
  have hlength : (rows doc).length = doc.toList.countP (· == '\n') + 1 :=
    Text.length_splitAt doc.toList
  rw [hrows, List.length_cons] at hlength
  exact ⟨r, rs, hrows, Nat.succ.inj hlength⟩

theorem docComment_eq {doc : String} (h : '\n' ∉ doc.toList) : docComment doc = docRows doc := by
  obtain ⟨r, rs, hrows, hlength⟩ := exists_rows doc
  have hnone : doc.toList.countP (· == '\n') = 0 := by
    rw [List.countP_eq_zero]
    intro c hc heq
    obtain rfl : c = '\n' := by simpa using heq
    exact h hc
  obtain rfl := List.eq_nil_of_length_eq_zero (hlength.trans hnone)
  rw [docComment, docRows, hrows]
  rfl

theorem length_docComment (doc : String) :
    (docComment doc).flatten.length = (docRows doc).flatten.length + slashes.length *
      doc.toList.countP (· == '\n') := by
  have htail : ∀ rs : List (List Char), (rs.map (slashes ++ ·)).flatten.length =
      rs.flatten.length + slashes.length * rs.length := by
    intro rs
    induction rs with
    | nil => rfl
    | cons r rs ih =>
      rw [List.map_cons, List.flatten_cons, List.flatten_cons, List.length_append,
        List.length_append, List.length_append, ih,
        List.length_cons, Nat.mul_succ]
      omega
  obtain ⟨r, rs, hrows, hlength⟩ := exists_rows doc
  rw [docComment, docRows, hrows, List.modifyHead_cons, List.map_cons, List.flatten_cons,
    List.flatten_cons,
    List.length_append, @List.length_append _ (slashes ++ r), htail, hlength, Nat.add_assoc]

theorem length_comments (docs : List String) :
    (docs.flatMap docComment).flatten.length =
      (docs.flatMap docRows).flatten.length + slashes.length * (docs.flatMap String.toList).countP
        (· == '\n') := by
  induction docs with
  | nil => rfl
  | cons doc docs ih =>
    simp only [List.flatMap_cons, List.flatten_append, List.length_append, List.countP_append, ih,
      length_docComment,
      Nat.mul_add]
    omega

/-- Documentation stays documentation: the unit with it is the unit without it and whole lines in
between. The first line of each text stands behind slashes, and the others are printed as they are.
So all that is added begins with slashes if and only if the other lines of every text do so
themselves; and the lines that are added are those of the texts, each behind slashes, if and only if
no text holds a line end. -/
theorem documentation_added (d : Page.Document) (ms : List Member) :
    Adds (rows (emit d (ms.map Member.undocumented))) ((ms.flatMap Member.docs).flatMap docRows)
      (rows (emit d ms)) ∧
      ((∃ added, Adds (rows (emit d (ms.map Member.undocumented))) added (rows (emit d ms)) ∧
          ∀ r ∈ added, commented r = true) ↔
        ∀ m ∈ ms, ∀ doc ∈ m.docs, ∀ r ∈ (rows doc).tail, commented r = true) ∧
      (Adds (rows (emit d (ms.map Member.undocumented)))
        ((ms.flatMap Member.docs).flatMap docComment) (rows (emit d ms)) ↔
        ∀ m ∈ ms, ∀ doc ∈ m.docs, '\n' ∉ doc.toList) := by
  have hadds := adds_emit d ms
  refine ⟨hadds, ?_, ?_⟩
  · have hdoc : ∀ doc, (∀ r ∈ docRows doc, commented r = true) ↔ ∀ r ∈ (rows doc).tail,
        commented r = true := by
      intro doc
      obtain ⟨r, rs, hrows, -⟩ := exists_rows doc
      rw [docRows, hrows, List.modifyHead_cons, List.forall_mem_cons, List.tail_cons]
      exact and_iff_right (commented_slashes r)
    have hall : (∀ r ∈ (ms.flatMap Member.docs).flatMap docRows, commented r = true) ↔
        ∀ m ∈ ms, ∀ doc ∈ m.docs, ∀ r ∈ (rows doc).tail, commented r = true := by
      simp only [List.forall_mem_flatMap, hdoc]
    rw [← hall]
    constructor
    case mp =>
      rintro ⟨added, h, hadded⟩ r hr
      exact hadded r ((h.added_perm hadds).mem_iff.mpr hr)
    case mpr => exact fun h => ⟨_, hadds, h⟩
  · constructor
    case mp =>
      intro h
      have hlength := (h.added_perm hadds).flatten.length_eq
      rw [length_comments, show slashes.length = 12 from rfl] at hlength
      have hnone : ((ms.flatMap Member.docs).flatMap String.toList).countP (· == '\n') = 0 := by
        omega
      intro m hm doc hdoc hmark
      have hmem : '\n' ∈ (ms.flatMap Member.docs).flatMap String.toList :=
        List.mem_flatMap.mpr ⟨doc, List.mem_flatMap.mpr ⟨m, hm, hdoc⟩, hmark⟩
      exact List.countP_eq_zero.mp hnone _ hmem (beq_self_eq_true '\n')
    case mpr =>
      intro h
      have hsame : (ms.flatMap Member.docs).flatMap docComment =
          (ms.flatMap Member.docs).flatMap docRows := by
        refine List.flatMap_congr fun doc hdoc => ?_
        obtain ⟨m, hm, hdoc⟩ := List.mem_flatMap.mp hdoc
        exact docComment_eq (h m hm doc hdoc)
      rwa [hsame]

/-- The second line of a text is no comment. -/
example : docRows "one\ntwo" = ["        /// one".toList, "two".toList] ∧
    commented "two".toList = false := by decide

end Templating.Unit
