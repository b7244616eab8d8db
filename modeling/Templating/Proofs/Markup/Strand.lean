import Templating.Proofs.Markup.Kept
import Templating.Proofs.Markup.Ranges

/-! Markup is read of literals that stand one behind the other in the text. The range of a node of
markup ends where its text would end if it stood at the place of the last literal as it is, and what
it denotes is the text under a condition on the literals. -/
namespace Templating.Markup
open Text (Cursor byteSize byteSize_append byteSize_pos halved)
open Text.Cursor

/-- What a node of markup is read of. -/
inductive Literal where
  | char (x : Char)
  /-- Two at signs. -/
  | escape
  /-- An at sign alone that announces nothing. -/
  | sign
  /-- A stretch of a tag, and what is kept of it. -/
  | tag (stretch kept : List Char)

def Tag.behind : List Piece → Cursor → Nat
  | [], e => e.offset
  | p :: _, _ => p.range.start

namespace Literal

def source : Literal → List Char
  | char x => [x]
  | escape => ['@', '@']
  | sign => ['@']
  | tag w _ => w

def text : Literal → List Char
  | char x => [x]
  | escape | sign => ['@']
  | tag _ v => v

/-- The literal stands at a cursor. -/
inductive Stands (c : Cursor) : Literal → Prop
  | char {x : Char} {r : List Char} (h : c.rest = x :: r) (hat : x ≠ '@') (htag : x = '<' →
      Tag.read? c = none) :
      Stands c (char x)
  | escape {r : List Char} (h : c.rest = '@' :: '@' :: r) : Stands c escape
  | sign {r : List Char} (h : c.rest = '@' :: r) (hr : r.head? ≠ some '@') : Stands c sign
  | tag {w v r : List Char} {mark e : Cursor} {ps qs : List Piece} (h : c.rest = w ++ r)
      (hkept : Tag.Kept w v) (hv : v ≠ [])
      (hmark : mark.text = c.text) (hread : Tag.read? mark = some (ps ++ .text v c.offset :: qs, e))
      (hstop : (c.past w).offset = Tag.behind qs e) : Stands c (tag w v)

def Ended : Literal → Prop
  | tag w _ => w.getLast? = some '>'
  | _ => True

/-- All of a stretch of a tag is kept. -/
def Whole : Literal → Prop
  | tag w v => w = v
  | _ => True

section
variable {c : Cursor} {l : Literal} {r p : List Char}

theorem Stands.source_prefix (h : l.Stands c) : l.source <+: c.rest := by
  cases h with
  | char h => exact ⟨_, h.symm⟩
  | escape h => exact ⟨_, h.symm⟩
  | sign h => exact ⟨_, h.symm⟩
  | tag h => exact ⟨_, h.symm⟩

theorem Stands.text_ne_nil (h : l.Stands c) : l.text ≠ [] := by
  cases h with
  | tag _ _ hv => exact hv
  | _ => exact List.cons_ne_nil _ _

theorem Stands.byteSize_le (h : l.Stands c) : byteSize l.text ≤ byteSize l.source := by
  cases h with
  | char => exact Nat.le_refl _
  | escape => exact Nat.le_add_left _ _
  | sign => exact Nat.le_refl _
  | tag _ hkept => exact hkept.byteSize_le

theorem Stands.byteSize_halved_le (h : l.Stands c) :
    byteSize (halved l.source) ≤ byteSize l.text := by
  cases h with
  | @char x =>
    rw [source, text, Text.halved_cons (by simp), Text.halved_nil]
  | escape => exact Nat.le_refl _
  | sign => exact Nat.le_refl _
  | tag _ hkept => exact hkept.byteSize_halved_le

theorem Stands.halved_append (h : l.Stands c) (hended : l.Ended) (hp : p ≠ [])
    (hfront : p <+: (c.past l.source).rest) :
    halved (l.source ++ p) = halved l.source ++ halved p := by
  cases h with
  | char h hat => exact Text.halved_append fun hlast => absurd (Option.some.inj hlast) hat
  | escape => rfl
  | @sign r h hr =>
    have hrest : (c.past Literal.sign.source).rest = r := rest_forward_one h
    rw [hrest] at hfront
    obtain ⟨x, p, rfl⟩ := List.exists_cons_of_ne_nil hp
    obtain ⟨r', rfl⟩ := hfront
    exact Text.halved_append fun _ => hr
  | @tag w =>
    refine Text.halved_append fun hlast => ?_
    have hclose : w.getLast? = some '>' := hended
    rw [show w.getLast? = some '@' from hlast] at hclose
    cases hclose

theorem Stands.whole_of_prefix (h : l.Stands c) (hp : l.text <+: l.source)
    (hhalved : halved l.text = l.text) :
    halved l.source = l.text ∧ l.Whole := by
  cases h with
  | @char x => exact ⟨Text.halved_cons (by simp), trivial⟩
  | escape => exact ⟨rfl, trivial⟩
  | sign => exact ⟨rfl, trivial⟩
  | tag _ hkept =>
    obtain rfl := hkept.eq_of_prefix hp
    exact ⟨hhalved, rfl⟩

theorem Stands.prefix_of_whole (h : l.Stands c) (hhalved : halved l.source = l.text)
    (hwhole : l.Whole) :
    l.text <+: l.source ∧ halved l.text = l.text := by
  cases h with
  | char => exact ⟨List.prefix_refl _, hhalved⟩
  | escape => exact ⟨⟨['@'], rfl⟩, rfl⟩
  | sign => exact ⟨List.prefix_refl _, hhalved⟩
  | tag =>
    obtain rfl := hwhole
    exact ⟨List.prefix_refl _, hhalved⟩

end

end Literal

/-- Literals stand one behind the other from a cursor on, and a last one behind them. Only that may
be a stretch of a tag which goes on. -/
def Strand (c : Cursor) : List Literal → Literal → Prop
  | [], last => last.Stands c
  | l :: ls, last => l.Stands c ∧ l.Ended ∧ Strand (c.past l.source) ls last

/-- The range denotes the text: it can be cut out, and it is the text when two at signs in a row are
made one. -/
def Denotes (s : Source) (span : Span) (text : List Char) : Prop :=
  ∃ w, (⟨s, span⟩ : Location).text? = some w ∧ halved w.toList = text

theorem slice_iff {c : Cursor} {stop : Nat} {w : String} :
    Text.slice? c.offset stop (.ofList c.text) = some w ↔
    w.toList <+: c.rest ∧ stop = c.offset + byteSize w.toList := by
  constructor
  · intro h
    unfold Text.slice? at h
    rw [String.toList_ofList] at h
    obtain ⟨⟨⟩, hguard, h⟩ := Option.bind_eq_some_iff.mp h
    have hle : c.offset ≤ stop := by
      by_contra hnot
      rw [guard, if_neg hnot] at hguard
      cases hguard
    obtain ⟨⟨front, rest⟩, hfront, h⟩ := Option.bind_eq_some_iff.mp h
    rw [c.cutAt?_offset] at hfront
    obtain ⟨-, rfl⟩ := Prod.mk.inj (Option.some.inj hfront)
    obtain ⟨⟨piece, behind⟩, hpiece, h⟩ := Option.bind_eq_some_iff.mp h
    obtain ⟨hrest, hsize⟩ := Text.append_of_cutAt? hpiece
    obtain rfl := Option.some.inj h
    rw [String.toList_ofList]
    exact ⟨⟨behind, hrest⟩, by omega⟩
  · rintro ⟨⟨r, hr⟩, rfl⟩
    have hslice := Tag.slice_past hr.symm
    rwa [past, offset_forward hr.symm, String.ofList_toList] at hslice

section
variable {c : Cursor} {l last : Literal} {ls : List Literal} {p : List Char}

theorem Strand.source_prefix (h : Strand c ls last) :
    ls.flatMap Literal.source ++ last.source <+: c.rest := by
  induction ls generalizing c with
  | nil => exact Literal.Stands.source_prefix h
  | cons l ls ih =>
    obtain ⟨hl, -, hrest⟩ := h
    obtain ⟨r, hr⟩ := hl.source_prefix
    have hbehind := ih hrest
    rw [past, rest_forward_of_append hr.symm] at hbehind
    rw [List.flatMap_cons, List.append_assoc, ← hr]
    exact (List.prefix_append_right_inj _).mpr hbehind

theorem Strand.stands_last (h : Strand c ls last) :
    last.Stands (c.past (ls.flatMap Literal.source)) := by
  induction ls generalizing c with
  | nil => exact h
  | cons l ls ih =>
    obtain ⟨-, -, hrest⟩ := h
    rw [List.flatMap_cons, past_append]
    exact ih hrest

theorem Strand.stands (h : Strand c ls last) :
    ∀ l ∈ ls ++ [last], ∃ d, d.text = c.text ∧ l.Stands d := by
  induction ls generalizing c with
  | nil => exact List.forall_mem_singleton.mpr ⟨c, rfl, h⟩
  | cons l ls ih =>
    obtain ⟨hl, -, hrest⟩ := h
    have hmore := ih hrest
    rw [past, text_forward] at hmore
    exact List.forall_mem_cons.mpr ⟨⟨c, rfl, hl⟩, hmore⟩

theorem Strand.snoc (h : Strand c ls last) (hended : last.Ended)
    (hl : l.Stands (c.past (ls.flatMap Literal.source ++ last.source))) :
    Strand c (ls ++ [last]) l := by
  induction ls generalizing c with
  | nil => exact ⟨h, hended, hl⟩
  | cons k ls ih =>
    obtain ⟨hk, hkended, hrest⟩ := h
    rw [List.flatMap_cons, List.append_assoc, past_append] at hl
    exact ⟨hk, hkended, ih hrest hl⟩

theorem Strand.halved_append (h : Strand c ls last) (hne : p ≠ []) (hp : p <+: last.source) :
    halved (ls.flatMap Literal.source ++ p) = ls.flatMap (fun l => halved l.source) ++
      halved p := by
  induction ls generalizing c with
  | nil => rfl
  | cons l ls ih =>
    obtain ⟨hl, hended, hrest⟩ := h
    have hfront : ls.flatMap Literal.source ++ p <+: (c.past l.source).rest :=
      ((List.prefix_append_right_inj _).mpr hp).trans hrest.source_prefix
    have hsome : ls.flatMap Literal.source ++ p ≠ [] := List.append_ne_nil_of_right_ne_nil _ hne
    rw [List.flatMap_cons, List.append_assoc, hl.halved_append hended hsome hfront, ih hrest,
      List.flatMap_cons,
      List.append_assoc]

theorem flatMap_inj_of_byteSize {α : Type} {f g : α → List Char} {as : List α} {a b : List Char}
    (hle : ∀ x ∈ as, byteSize (f x) ≤ byteSize (g x)) (hab : byteSize a ≤ byteSize b)
    (h : as.flatMap f ++ a = as.flatMap g ++ b) : (∀ x ∈ as, f x = g x) ∧ a = b := by
  have hsum : ∀ as : List α, (∀ x ∈ as, byteSize (f x) ≤ byteSize (g x)) →
      byteSize (as.flatMap f ++ a) ≤ byteSize (as.flatMap g ++ b) := by
    intro as hle
    induction as with
    | nil => exact hab
    | cons x as ih =>
      obtain ⟨hx, has⟩ := List.forall_mem_cons.mp hle
      have hmore := ih has
      simp only [List.flatMap_cons, List.append_assoc, byteSize_append] at hmore ⊢
      omega
  induction as with
  | nil => exact ⟨nofun, h⟩
  | cons x as ih =>
    obtain ⟨hx, has⟩ := List.forall_mem_cons.mp hle
    have hmore := hsum as has
    rw [List.flatMap_cons, List.flatMap_cons, List.append_assoc, List.append_assoc] at h
    have hsize := congrArg byteSize h
    simp only [byteSize_append] at hsize hmore
    obtain ⟨hfirst, hothers⟩ := Text.append_inj_of_byteSize h (by omega)
    obtain ⟨heach, heq⟩ := ih has hothers
    exact ⟨List.forall_mem_cons.mpr ⟨hfirst, heach⟩, heq⟩

theorem Strand.exists_front (h : Strand c ls last) {w : List Char} (hw : w <+: c.rest)
    (hsize : byteSize w = byteSize (ls.flatMap Literal.source) + byteSize last.text) :
    ∃ p, w = ls.flatMap Literal.source ++ p ∧ p <+: last.source ∧
      byteSize p = byteSize last.text := by
  have hle := h.stands_last.byteSize_le
  obtain ⟨p, rfl⟩ :=
    Text.prefix_of_byteSize_le ((List.prefix_append _ _).trans h.source_prefix) hw (by omega)
  rw [byteSize_append] at hsize
  have hwhole : ls.flatMap Literal.source ++ p <+: ls.flatMap Literal.source ++ last.source := by
    refine Text.prefix_of_byteSize_le hw h.source_prefix ?_
    rw [byteSize_append, byteSize_append]
    omega
  exact ⟨p, rfl, (List.prefix_append_right_inj _).mp hwhole, by omega⟩

theorem Strand.whole_of_halved (h : Strand c ls last) (hp : p <+: last.source)
    (hsize : byteSize p = byteSize last.text)
    (hhalved : halved (ls.flatMap Literal.source ++ p) = ls.flatMap Literal.text ++ last.text) :
    (∀ l ∈ ls ++ [last], halved l.source = l.text) ∧ last.Whole := by
  have hne : p ≠ [] := by
    rintro rfl
    have hpos := byteSize_pos h.stands_last.text_ne_nil
    simp only [byteSize] at hsize
    omega
  have hle : ∀ l ∈ ls, byteSize (halved l.source) ≤ byteSize l.text := by
    intro l hl
    obtain ⟨d, -, hd⟩ := h.stands l (List.mem_append_left _ hl)
    exact hd.byteSize_halved_le
  rw [h.halved_append hne hp] at hhalved
  obtain ⟨heach, hlast⟩ := flatMap_inj_of_byteSize hle (hsize ▸ Text.byteSize_halved_le p) hhalved
  -- nothing of the last was made one, so it is there as it goes into the node
  have hself : halved p = p := Text.halved_eq_self (by rw [hlast, hsize])
  obtain rfl : p = last.text := hself.symm.trans hlast
  obtain ⟨hone, hwhole⟩ := h.stands_last.whole_of_prefix hp hself
  exact ⟨List.forall_mem_append.mpr ⟨heach, List.forall_mem_singleton.mpr hone⟩, hwhole⟩

theorem Strand.halved_of_whole (h : Strand c ls last)
    (heach : ∀ l ∈ ls ++ [last], halved l.source = l.text)
    (hwhole : last.Whole) : ls.flatMap Literal.source ++ last.text <+: c.rest ∧
      halved (ls.flatMap Literal.source ++ last.text) = ls.flatMap Literal.text ++ last.text := by
  obtain ⟨heach, hone⟩ := List.forall_mem_append.mp heach
  obtain ⟨hp, hself⟩ :=
    h.stands_last.prefix_of_whole (hone last (List.mem_singleton_self last)) hwhole
  have hmap : ls.flatMap (fun l => halved l.source) = ls.flatMap Literal.text :=
    List.flatMap_congr heach
  refine ⟨((List.prefix_append_right_inj _).mpr hp).trans h.source_prefix, ?_⟩
  rw [h.halved_append h.stands_last.text_ne_nil hp, hself, hmap]

/-- The range of a strand, with the last literal taken as it goes into the node, denotes the text if
and only if each literal is halved to what goes into the node, and the last one is whole. -/
theorem Strand.denotes_iff (h : Strand c ls last) {s : Source} (hs : c.text = s.text.toList) :
    Denotes s ⟨c.offset, c.offset + byteSize (ls.flatMap Literal.source) + byteSize last.text⟩
        (ls.flatMap Literal.text ++ last.text) ↔
      (∀ l ∈ ls ++ [last], halved l.source = l.text) ∧ last.Whole := by
  have htext : s.text = .ofList c.text := by rw [hs, String.ofList_toList]
  constructor
  · rintro ⟨w, hw, hdenoted⟩
    rw [Location.text?, htext] at hw
    obtain ⟨hfront, hstop⟩ := slice_iff.mp hw
    obtain ⟨p, hp, hlast, hsize⟩ := h.exists_front hfront (by dsimp only at hstop; omega)
    rw [hp] at hdenoted
    exact h.whole_of_halved hlast hsize hdenoted
  · rintro ⟨heach, hwhole⟩
    obtain ⟨hfront, hhalved⟩ := h.halved_of_whole heach hwhole
    refine ⟨.ofList (ls.flatMap Literal.source ++ last.text), ?_,
      by rw [String.toList_ofList, hhalved]⟩
    rw [Location.text?, htext]
    refine slice_iff.mpr ⟨by rwa [String.toList_ofList], ?_⟩
    rw [String.toList_ofList, byteSize_append]
    exact Nat.add_assoc _ _ _

end

end Templating.Markup
