import Templating.Proofs.Markup.Advance
import Templating.Proofs.Markup.Comment
import Templating.Proofs.Markup.Implicit

/-! Tags in writing. What is made of a tag, written out again, is its text, but for the at signs
that a quoted value has twice. -/
namespace Templating.Markup
open Code (Finds)
open Text (Cursor allBlank byteSize isAlphanumeric isBlank startsName)
open Text.Cursor

/-! Pieces, written out -/

def Part.written (text : List Char) (p : Located Part) : List Char :=
  p.val.lead.toList ++
    match p.val.content with
    | .literal s => s.toList
    | .expression _ =>
      ((Text.slice? (p.span.start + byteSize p.val.lead.toList) p.span.stop (.ofList text)).getD
        "").toList

def Attribute.written (text : List Char) (a : Attribute) : List Char :=
  a.opening.toList ++ a.parts.flatMap (Part.written text) ++ a.closing.toList

def Piece.written (text : List Char) : Piece → List Char
  | .text cs _ => cs
  | .node (.attribute a) _ _ => a.written text
  | .node .. => []

def spelling (text : List Char) (ps : List Piece) : List Char := ps.flatMap (Piece.written text)

namespace Tag

/-! How a tag is written -/

/-- Behind a character and before a text, an at sign stands for itself. -/
def Lone (p : Option Char) (behind : List Char) : Prop :=
  ∀ x ∈ behind.head?, x ≠ '@' ∧
    (isAlphanumeric x = true ∧ p.any isAlphanumeric = true ∨ x ≠ '(' ∧ startsName x = false)

/-- What an at sign that stands behind a character takes as its expression, before a text. -/
inductive Expressed (p : Option Char) : List Char → List Char → Prop
  | explicit {code rest : List Char}
      (hcode : Finds (.closer ')') (some '(') (code ++ ')' :: rest) (.ok code)) :
      Expressed p ('(' :: code ++ [')']) rest
  | implicit {code rest : List Char} (hcode : Implicit.Maximal code rest)
      (hwhole : ∀ f, ¬ Implicit.Broken rest f)
      (hword : ∀ x ∈ code.head?, isAlphanumeric x = true → p.any isAlphanumeric = false) :
      Expressed p code rest

/-- A quoted value behind a character and before a text, and what it stands for: an at sign for two
that are no expression. -/
inductive Quoted (quote : Char) : Option Char → List Char → List Char → List Char → Prop
  | nil (p : Option Char) (rest : List Char) : Quoted quote p [] [] rest
  | char {p : Option Char} {x : Char} {u v rest : List Char} (hquote : x ≠ quote) (hat : x ≠ '@')
      (h : Quoted quote (some x) u v rest) : Quoted quote p (x :: u) (x :: v) rest
  | escape {p : Option Char} {u v rest : List Char} (h : Quoted quote (some '@') u v rest) :
      Quoted quote p ('@' :: '@' :: u) ('@' :: v) rest
  | sign {p : Option Char} {u v rest : List Char} (hlone : Lone p (u ++ rest))
      (h : Quoted quote (some '@') u v rest) :
      Quoted quote p ('@' :: u) ('@' :: v) rest
  | expression {p : Option Char} {w u v rest : List Char} (hw : Expressed p w (u ++ rest))
      (h : Quoted quote w.getLast? u v rest) :
      Quoted quote p ('@' :: (w ++ u)) ('@' :: (w ++ v)) rest

/-- The name of an attribute before a text. -/
structure Named (w behind : List Char) : Prop where
  begins : ∃ x u, w = x :: u ∧ beginsName x = true
  inside : ∀ x ∈ w, endsName x = false
  stops : ∀ x ∈ behind.head?, endsName x = true

/-- An attribute up to its value. -/
inductive Lead : List Char → List Char → Prop
  | lead {b w b' b'' behind : List Char} (hb : ∀ x ∈ b, isBlank x = true)
      (hw : Named w (b' ++ '=' :: (b'' ++ behind)))
      (hb' : ∀ x ∈ b', isBlank x = true) (hb'' : ∀ x ∈ b'', isBlank x = true)
      (hfirst : ∀ x ∈ behind.head?, isBlank x = false) :
      Lead (b ++ w ++ b' ++ '=' :: b'') behind

/-- The attributes of a tag and its end, before a text, and what they stand for. -/
inductive Attributes (rest : List Char) : List Char → List Char → Prop
  | close {b : List Char} (hb : ∀ x ∈ b, isBlank x = true) :
      Attributes rest (b ++ ['>']) (b ++ ['>'])
  | closeEmpty {b : List Char} (hb : ∀ x ∈ b, isBlank x = true) :
      Attributes rest (b ++ ['/', '>']) (b ++ ['/', '>'])
  | bare {b w u v : List Char} (hb : ∀ x ∈ b, isBlank x = true) (hw : Named w (u ++ rest))
      (hequals : ((u ++ rest).dropWhile isBlank).head? ≠ some '=') (h : Attributes rest u v) :
      Attributes rest (b ++ w ++ u) (b ++ w ++ v)
  | unquoted {lead w u v : List Char} (hlead : Lead lead (w ++ u ++ rest))
      (hquote : w.head? ≠ some '"' ∧ w.head? ≠ some '\'')
      (hw : ∀ x ∈ w, unquotes x = true) (hend : ∀ x ∈ (u ++ rest).head?, unquotes x = false)
      (h : Attributes rest u v) :
      Attributes rest (lead ++ w ++ u) (lead ++ w ++ v)
  | quoted {lead w s u v : List Char} {quote : Char}
      (hlead : Lead lead (quote :: w ++ quote :: u ++ rest))
      (hquote : quote = '"' ∨ quote = '\'')
      (hw : Quoted quote (some quote) w s (quote :: u ++ rest)) (h : Attributes rest u v) :
      Attributes rest (lead ++ quote :: w ++ quote :: u) (lead ++ quote :: s ++ quote :: v)

/-- A tag before a text, and what it stands for. -/
inductive Tagged : List Char → List Char → List Char → Prop
  | tagged {x : Char} {name u v rest : List Char} (hx : x.isAlpha = true) (hname : ∀ y ∈ x :: name,
      endsTagName y = false)
      (hend : ∀ y ∈ (u ++ rest).head?, endsTagName y = true) (h : Attributes rest u v) :
      Tagged ('<' :: x :: name ++ u) ('<' :: x :: name ++ v) rest

/-! At signs in values -/

theorem lone_of_transition {c : Cursor} {next : List Char} (h : transition c next = .literal) :
    Lone c.before.head? next := by
  unfold transition at h
  split at h
  · cases h
  next x next hat =>
    have hlone : insideWord c x = true ∨ x ≠ '(' ∧ startsName x = false →
        Lone c.before.head? (x :: next) := by
      rintro h _ ⟨⟩
      exact ⟨hat, h.imp_left fun hin => by simpa [insideWord] using hin⟩
    split at h
    next hin => exact hlone (.inl hin)
    split at h
    · cases hcode : Code.scan (.closer ')') (some '(') next <;> rw [hcode] at h <;> cases h
    next hparen =>
      split at h
      · cases hcode : Implicit.read (x :: next) <;> rw [hcode] at h <;> cases h
      next hname => exact hlone (.inr ⟨by simpa using hparen, by simpa using hname⟩)
  · intro _ hx
    cases hx

theorem expressed_of_transition {c : Cursor} {next : List Char} {s : String} {k : Nat}
    (h : transition c next = .expression s k) :
    ∃ w r, next = w ++ r ∧ k = w.length ∧ w ≠ [] ∧ Expressed c.before.head? w r := by
  unfold transition at h
  split at h
  · cases h
  next x next hat =>
    split at h
    · cases h
    next hin =>
      split at h
      next hparen =>
        obtain rfl := eq_of_beq hparen
        split at h
        next code hscan =>
          obtain ⟨-, rfl⟩ := Transition.expression.inj h
          obtain ⟨r, hr⟩ := Code.prefix_of_scan hscan
          obtain rfl : next = code ++ ')' :: r := hr
          exact ⟨'(' :: code ++ [')'], r,
            by simp, by simp, by simp, .explicit ((Code.scan_iff_finds ..).mp hscan)⟩
        · cases h
      next hparen =>
        split at h
        next hname =>
          obtain ⟨code, r, heq, hmaximal, htells⟩ := Implicit.exists_maximal next hname
          split at h
          next code' hread =>
            obtain ⟨-, rfl⟩ := Transition.expression.inj h
            rw [hread] at htells
            cases htells with
            | whole hwhole =>
              refine ⟨code, r, heq, rfl, ?_, .implicit hmaximal hwhole ?_⟩
              · rintro rfl
                obtain ⟨⟨w, u, hnil, hw, -⟩, -⟩ := hmaximal
                exact hw.ne_nil (List.append_eq_nil_iff.mp hnil.symm).1
              · intro y hy halnum
                have hyx : y = x := by
                  have hhead : y ∈ (code ++ r).head? := List.mem_head?_append_of_mem_head? hy
                  rw [← heq] at hhead
                  exact (Option.some.inj hhead).symm
                rw [hyx] at halnum
                simpa [insideWord, halnum] using hin
          · cases h
        · cases h
  · cases h

/-! Drafts -/

section
variable {d d' : Draft} {text u v w : List Char} {c e : Cursor} {i j n : Nat} {quote : Char}

def Draft.written (text : List Char) (d : Draft) : List Char :=
  d.parts.flatMap (Part.written text) ++ d.pending

/-- Blanks that are no part yet are just those before the place. -/
def Draft.Placed (d : Draft) (i : Nat) : Prop :=
  allBlank d.pending = true → d.pendingAt + byteSize d.pending = i

theorem Draft.written_literal (text : List Char) (d : Draft) (stop : Nat) :
    (d.literal stop).flatMap (Part.written text) = d.pending := by
  cases h : d.pending <;> simp [Draft.literal, h, Part.written]

theorem Draft.Placed.char {x : Char} (h : d.Placed i) :
    { d with pending := d.pending ++ [x] }.Placed (i + x.utf8Size) := by
  intro hblank
  simp only [allBlank, List.all_append, Bool.and_eq_true] at hblank
  have hplaced := h hblank.1
  simp only [Text.byteSize_append, byteSize]
  omega

theorem Draft.placed_sign (d : Draft) (i : Nat) :
    { d with pending := d.pending ++ ['@'] }.Placed i := by
  intro hblank
  simp only [allBlank, List.all_append, Bool.and_eq_true] at hblank
  exact absurd hblank.2 (by decide)

theorem Draft.expression_placed (code : String) (hd : d.Placed i)
    (hslice : Text.slice? i j (.ofList text) = some (.ofList w)) :
    (d.expression code i j).written text = d.written text ++ w ∧
      (d.expression code i j).Placed j := by
  unfold Draft.expression
  split
  next hblank =>
    have hplaced := hd (Bool.and_eq_true_iff.mp hblank).2
    refine ⟨?_, fun _ => rfl⟩
    simp [Draft.written, Part.written, hplaced, hslice]
  next hblank =>
    refine ⟨?_, fun _ => rfl⟩
    simp [Draft.written, Draft.written_literal, Part.written, hslice, byteSize]

theorem slice_past (h : c.rest = u ++ v) :
    Text.slice? c.offset (c.past u).offset (.ofList c.text) = some (.ofList u) := by
  have hoffset : (c.past u).offset = c.offset + byteSize u := by rw [past, offset_forward h]
  have hguard : (guard (c.offset ≤ c.offset + byteSize u) : Option Unit) = some () :=
    if_pos (Nat.le_add_right _ _)
  rw [hoffset, Text.slice?, hguard, String.toList_ofList, cutAt?_offset, h, Nat.add_sub_cancel_left]
  simp [Text.cutAt?_byteSize]

theorem Valued.quoted (h : Valued quote d c d' e) (hd : d.Placed c.offset) :
    ∃ u v, c.rest = u ++ e.rest ∧ Quoted quote c.before.head? u v e.rest ∧
      d'.written c.text = d.written c.text ++ v := by
  induction h with
  | close => exact ⟨[], [], rfl, .nil _ _, (List.append_nil _).symm⟩
  | @char _ _ c _ x r hrest hquote hat _ ih =>
    have hbefore : (c.forward 1).before.head? = some x :=
      head?_before_forward (u := [x]) hrest (by simp)
    have hplaced := hd.char (x := x)
    rw [← offset_forward_one hrest] at hplaced
    obtain ⟨u, v, hu, hquoted, hwritten⟩ := ih hplaced
    rw [rest_forward_one hrest] at hu
    rw [hbefore] at hquoted
    rw [text_forward] at hwritten
    refine ⟨x :: u, x :: v, by rw [hrest, hu]; rfl, .char hquote hat hquoted, ?_⟩
    rw [hwritten]
    simp [Draft.written]
  | @escape _ _ c _ r hrest _ _ ih =>
    have hbefore : (c.forward 2).before.head? = some '@' :=
      head?_before_forward (u := ['@', '@']) hrest (by simp)
    obtain ⟨u, v, hu, hquoted, hwritten⟩ := ih (Draft.placed_sign _ _)
    rw [rest_forward, hrest] at hu
    rw [hbefore] at hquoted
    rw [text_forward] at hwritten
    refine ⟨'@' :: '@' :: u, '@' :: v,
      by rw [hrest]; exact congrArg ('@' :: '@' :: ·) hu, .escape hquoted, ?_⟩
    rw [hwritten]
    simp [Draft.written]
  | @sign _ _ c _ r hrest _ hlone _ ih =>
    have hbefore : (c.forward 1).before.head? = some '@' :=
      head?_before_forward (u := ['@']) hrest (by simp)
    obtain ⟨u, v, hu, hquoted, hwritten⟩ := ih (Draft.placed_sign _ _)
    rw [rest_forward_one hrest] at hu
    rw [hbefore] at hquoted
    rw [text_forward] at hwritten
    refine ⟨'@' :: u, '@' :: v,
      by rw [hrest, hu]; rfl, .sign (hu ▸ lone_of_transition hlone) hquoted, ?_⟩
    rw [hwritten]
    simp [Draft.written]
  | @expression _ _ c _ r code _ hrest _ hcode _ ih =>
    obtain ⟨w, r, rfl, rfl, hw, hexpressed⟩ := expressed_of_transition hcode
    have hsplit : c.rest = ('@' :: w) ++ r := hrest
    have hlast : (c.past ('@' :: w)).before.head? = w.getLast? := by
      have hhead := head?_before_forward hsplit (by simp)
      rwa [List.getLast?_cons_of_ne_nil hw] at hhead
    obtain ⟨hexpression, hplaced⟩ := Draft.expression_placed code hd (slice_past hsplit)
    obtain ⟨u, v, hu, hquoted, hwritten⟩ := ih hplaced
    rw [show (c.forward (w.length + 1)).before.head? = w.getLast? from hlast] at hquoted
    rw [show (c.forward (w.length + 1)).rest = r from rest_forward_of_append hsplit] at hu
    rw [text_forward] at hwritten
    refine ⟨'@' :: (w ++ u), '@' :: (w ++ v),
      by rw [hrest, hu]; simp, .expression (hu ▸ hexpressed) hquoted, ?_⟩
    rw [hwritten, show (Draft.expression _ code c.offset (c.forward (w.length + 1)).offset).written
      c.text = _ from hexpression]
    simp

end

/-! Attributes -/

section
variable {c e : Cursor} {k quote : Char} {cs u before : List Char} {n offset : Nat}
  {ps : List Piece}

theorem named_nameOf (h : (nameAt c).rest = k :: cs) (hk : beginsName k = true) :
    Named (nameOf c) (nameEnd c).rest where
  begins := ⟨k, cs.takeWhile (!endsName ·), by simp [nameOf, h, not_endsName hk], hk⟩
  inside x hx := by simpa using List.mem_takeWhile_imp hx
  stops x hx := by
    rw [nameEnd, rest_skip] at hx
    simpa using Text.head?_dropWhile _ _ x hx

theorem lead_leadOf (h : (nameAt c).rest = k :: cs) (hk : beginsName k = true)
    (he : (equalsAt c).rest.head? = some '=') :
    Lead (leadOf c) (valueAt c).rest := by
  obtain ⟨r, hr⟩ := List.head?_eq_some_iff.mp he
  have hblanks := takeWhile_append_rest_skip isBlank c
  have hname := takeWhile_append_rest_skip (!endsName ·) (nameAt c)
  have hequals := takeWhile_append_rest_skip isBlank (nameEnd c)
  have hvalue := takeWhile_append_rest_skip isBlank ((equalsAt c).forward 1)
  have hnamed := named_nameOf h hk
  have hbehind : (nameEnd c).rest = (nameEnd c).rest.takeWhile isBlank ++
      '=' :: (((equalsAt c).forward 1).rest.takeWhile isBlank ++ (valueAt c).rest) := by
    rw [show (valueAt c).rest = (((equalsAt c).forward 1).skip isBlank).rest from rfl, hvalue,
      rest_forward_one hr, ← hr]
    exact hequals.symm
  have hlead : leadOf c = c.rest.takeWhile isBlank ++ nameOf c ++
    (nameEnd c).rest.takeWhile isBlank ++
      '=' :: ((equalsAt c).forward 1).rest.takeWhile isBlank := by
    apply leadOf_eq
    rw [List.append_assoc, List.append_assoc, List.append_assoc, List.cons_append, ← hbehind,
      show nameOf c ++ (nameEnd c).rest = (nameAt c).rest from hname]
    exact hblanks.symm
  rw [hlead]
  rw [hbehind] at hnamed
  refine .lead (fun x hx => Text.blank_of_mem_takeWhile hx) hnamed (fun x hx =>
    Text.blank_of_mem_takeWhile hx)
    (fun x hx => Text.blank_of_mem_takeWhile hx) fun x hx => ?_
  rw [valueAt, rest_skip] at hx
  exact Text.head?_dropWhile isBlank _ x hx

theorem spelling_append (text : List Char) (ps qs : List Piece) :
    spelling text (ps ++ qs) = spelling text ps ++ spelling text qs :=
  List.flatMap_append

theorem spelling_text (text cs : List Char) (offset : Nat) :
    spelling text (Tag.text cs offset) = cs := by
  cases cs <;> simp [Tag.text, spelling, Piece.written]

def Spelt (before : List Char) (c : Cursor) (o : Option (List Piece × Cursor)) : Prop :=
  ∀ ps e, o = some (ps, e) → ∃ u v, c.rest = u ++ e.rest ∧ Attributes e.rest u v ∧
    spelling c.text ps = before ++ v

theorem spelt_none : Spelt before c none := nofun

theorem written_attributeOf (text : List Char) (quote : Char) (c : Cursor) (d : Draft)
    (stop : Nat) :
    (attributeOf quote c d stop).written text = leadOf c ++ quote :: d.written text ++ [quote] := by
  simp [attributeOf, Attribute.written, Draft.written, Draft.written_literal]

section
variable {r : List Char} {d : Draft}
  (ih : ∀ before offset c, Spelt before c (attributes n before offset c))
  (hlead : Lead (leadOf c) (valueAt c).rest)
include ih hlead

theorem spelt_unquoted (offset : Nat) (hv : (valueAt c).rest = k :: r)
    (hquote : ¬ (k = '"' ∨ k = '\'')) :
    Spelt before c (attributeValue n before offset c) := by
  intro ps e h
  rw [attributeValue_unquoted hv (not_or.mp hquote)] at h
  obtain ⟨u, v, hu, hattributes, hspelling⟩ := ih _ _ _ ps e h
  have htext : ((valueAt c).skip unquotes).text = c.text :=
    ((ahead_valueAt c).trans (ahead_skip _ _)).text_eq
  have hsplit := takeWhile_append_rest_skip unquotes (valueAt c)
  have hrest := rest_valueAt c
  have hfirst : ∀ q, q = '"' ∨ q = '\'' → ((valueAt c).rest.takeWhile unquotes).head? ≠ some q := by
    intro q hq hhead
    have hmem : q ∈ (valueAt c).rest.head? := by
      rw [← hsplit]
      exact List.mem_head?_append_of_mem_head? hhead
    rw [hv] at hmem
    exact hquote (by rwa [Option.some.inj hmem])
  have hstops : ∀ x ∈ (u ++ e.rest).head?, unquotes x = false := by
    rw [← hu, rest_skip]
    exact Text.head?_dropWhile unquotes _
  rw [hu] at hsplit
  rw [← hsplit, ← List.append_assoc] at hlead hrest
  rw [htext] at hspelling
  refine ⟨_, _, by rw [hrest]; simp, .unquoted hlead ⟨hfirst _ (.inl rfl), hfirst _ (.inr rfl)⟩
    (fun x hx => List.mem_takeWhile_imp hx) hstops hattributes, by rw [hspelling]; simp⟩

theorem exists_behind_value (hv : (valueAt c).rest = quote :: r)
    (hquote : quote = '"' ∨ quote = '\'') (hvalue : quotedValue quote c = some (d, e)) {e' : Cursor}
    (h : attributes n before offset (e.forward 1) = some (ps, e')) :
    ∃ u v, c.rest = u ++ e'.rest ∧
      Attributes e'.rest u (leadOf c ++ quote :: d.written c.text ++ quote :: v) ∧
      spelling c.text ps = before ++ v := by
  have hrest := rest_valueAt c
  have hbefore : ((valueAt c).forward 1).before.head? = some quote :=
    head?_before_forward (u := [quote]) hv (by simp)
  have hbegun : Ahead c ((valueAt c).forward 1) := (ahead_valueAt c).trans (ahead_forward _ 1)
  obtain ⟨hahead, r', hend⟩ := ahead_value hvalue
  have htext : (e.forward 1).text = c.text :=
    ((hbegun.trans hahead).trans (ahead_forward _ 1)).text_eq
  obtain ⟨w, s, hw, hquoted, hwritten⟩ := (valued_of_value hvalue).quoted fun _ => Nat.add_zero _
  obtain ⟨u, v, hu, hattributes, hspelling⟩ := ih _ _ _ ps e' h
  have hs : d.written c.text = s := by
    rw [← hbegun.text_eq, hwritten]
    rfl
  rw [rest_forward_one hend] at hu
  rw [rest_forward_one hv, hend, hu] at hw
  rw [hbefore, hend, hu] at hquoted
  rw [hv, hw] at hlead hrest
  rw [htext] at hspelling
  rw [hs]
  exact ⟨leadOf c ++ quote :: w ++ quote :: u, v,
    by rw [hrest]; simp, .quoted (by simpa using hlead) hquote hquoted hattributes,
    hspelling⟩

theorem spelt_quoted (offset : Nat) (hv : (valueAt c).rest = quote :: r)
    (hquote : quote = '"' ∨ quote = '\'') :
    Spelt before c (attributeValue n before offset c) := by
  intro ps e' h
  cases hvalue : quotedValue quote c with
  | none =>
    rw [attributeValue_open hv hquote hvalue] at h
    cases h
  | some pair =>
    obtain ⟨d, e⟩ := pair
    by_cases hparts : d.parts = []
    · rw [attributeValue_literal hv hquote hvalue hparts] at h
      obtain ⟨u, v, hu, hattributes, hspelling⟩ := exists_behind_value ih hlead hv hquote hvalue h
      refine ⟨u, _, hu, hattributes, ?_⟩
      rw [hspelling, Draft.written, hparts]
      simp
    · rw [attributeValue_parts hv hquote hvalue hparts] at h
      obtain ⟨⟨qs, e''⟩, hread, heq⟩ := Option.map_eq_some_iff.mp h
      obtain ⟨rfl, rfl⟩ := Prod.mk.inj heq
      obtain ⟨u, v, hu, hattributes, hspelling⟩ :=
        exists_behind_value ih hlead hv hquote hvalue hread
      refine ⟨u, _, hu, hattributes, ?_⟩
      have hnode : spelling c.text
          [.node (.attribute (attributeOf quote c d e.offset)) ⟨c.offset, (e.forward 1).offset⟩
            false] =
            leadOf c ++ quote :: d.written c.text ++ [quote] := by
        rw [← written_attributeOf c.text quote c d e.offset]
        exact List.append_nil _
      rw [spelling_append, spelling_append, spelling_text, hnode, hspelling]
      simp

end

theorem spelt_value (ih : ∀ before offset c, Spelt before c (attributes n before offset c))
    (before : List Char) (offset : Nat) (h : (nameAt c).rest = k :: cs) (hk : beginsName k = true)
    (he : (equalsAt c).rest.head? = some '=') :
    Spelt before c (attributeValue n before offset c) := by
  have hlead := lead_leadOf h hk he
  cases hv : (valueAt c).rest with
  | nil =>
    rw [attributeValue_end hv]
    exact spelt_none
  | cons quote r =>
    by_cases hquote : quote = '"' ∨ quote = '\''
    · exact spelt_quoted ih hlead offset hv hquote
    · exact spelt_unquoted ih hlead offset hv hquote

theorem attributes_spelt (n : Nat) (before : List Char) (offset : Nat) (c : Cursor) :
    Spelt before c (attributes n before offset c) := by
  induction n generalizing before offset c with
  | zero => exact spelt_none
  | succ n ih =>
    have hblanks : c.rest = c.rest.takeWhile isBlank ++ (nameAt c).rest :=
      (takeWhile_append_rest_skip isBlank c).symm
    have hall : ∀ x ∈ c.rest.takeWhile isBlank, isBlank x = true :=
      fun x hx => Text.blank_of_mem_takeWhile hx
    cases hat : (nameAt c).rest with
    | nil =>
      rw [attributes_end hat]
      exact spelt_none
    | cons k r =>
      cases hk : beginsName k with
      | true =>
        rw [attributes_name hat hk]
        split
        next he => exact spelt_value ih before offset hat hk he
        next he =>
          intro ps e h
          obtain ⟨u, v, hu, hattributes, hspelling⟩ := ih _ _ _ ps e h
          have hname : nameOf c ++ (nameEnd c).rest = (nameAt c).rest :=
            takeWhile_append_rest_skip (!endsName ·) (nameAt c)
          have hnamed := named_nameOf hat hk
          have hequals : ((nameEnd c).rest.dropWhile isBlank).head? ≠ some '=' := by
            rwa [← rest_skip isBlank (nameEnd c)]
          rw [hu] at hname hnamed hequals
          rw [(ahead_nameEnd c).text_eq] at hspelling
          refine ⟨_, _, ?_, .bare hall hnamed hequals hattributes, by rw [hspelling]; simp⟩
          rw [List.append_assoc, List.append_assoc, hname]
          exact hblanks
      | false =>
        have hclose : ∀ {tail : List Char} {d : Cursor}, (nameAt c).rest = tail ++ d.rest →
            Attributes d.rest (c.rest.takeWhile isBlank ++ tail)
              (c.rest.takeWhile isBlank ++ tail) →
            Spelt before c (some (Tag.text (before ++ c.rest.takeWhile isBlank ++ tail) offset,
              d)) := by
          rintro tail d htail hattributes _ _ ⟨⟩
          refine ⟨_, _, ?_, hattributes, by rw [spelling_text, List.append_assoc]⟩
          rw [List.append_assoc, ← htail]
          exact hblanks
        rcases ends_or_refused hat hk with rfl | rfl | hrefused
        · rw [attributes_close hat]
          exact hclose (by rw [rest_forward_one hat, hat]; rfl) (.close hall)
        · by_cases hends : ∃ s, r = '>' :: s
          · obtain ⟨s, rfl⟩ := hends
            rw [attributes_closeEmpty hat]
            exact hclose (by rw [rest_forward, hat]; rfl) (.closeEmpty hall)
          · rw [attributes_slash hat fun s hs => hends ⟨s, hs⟩]
            exact spelt_none
        · rw [attributes_refuse hat hrefused]
          exact spelt_none

theorem exists_tagged (h : read? c = some (ps, e)) :
    ∃ u v, e = c.past u ∧ c.rest = u ++ e.rest ∧ Tagged u v e.rest ∧ spelling c.text ps = v := by
  have hahead := (beyond_read h).ahead
  unfold read? at h
  split at h
  next x r hrest =>
    split at h
    next hx =>
      have hone : (c.forward 1).rest = x :: r := rest_forward_one hrest
      have hname : endsTagName x = false := by
        have hname : Text.continuesName x = true := by
          simp [Text.continuesName, isAlphanumeric, Text.isAlphabetic, hx]
        have hblank : isBlank x = false := by
          cases hblank : isBlank x with
          | false => rfl
          | true => rw [Text.not_continuesName_of_isBlank hblank] at hname; cases hname
        have hclose : x ≠ '>' := by rintro rfl; cases hx
        have hslash : x ≠ '/' := by rintro rfl; cases hx
        simp [endsTagName, hblank, hclose, hslash]
      have htake : (c.forward 1).rest.takeWhile (!endsTagName ·) =
          x :: r.takeWhile (!endsTagName ·) := by
        rw [hone, List.takeWhile_cons_of_pos (by simp [hname])]
      have hsplit : (c.forward 1).rest = (x :: r.takeWhile (!endsTagName ·)) ++
          r.dropWhile (!endsTagName ·) := by
        rw [hone, List.cons_append, List.takeWhile_append_dropWhile]
      dsimp only at h
      rw [htake] at h
      obtain ⟨u, v, hu, hattributes, hspelling⟩ := attributes_spelt _ _ _ _ ps e h
      have hnext : ((c.forward 1).past (x :: r.takeWhile (!endsTagName ·))).rest =
          r.dropWhile (!endsTagName ·) :=
        rest_forward_of_append hsplit
      have hinside : ∀ y ∈ x :: r.takeWhile (!endsTagName ·), endsTagName y = false :=
        List.forall_mem_cons.mpr ⟨hname, fun y hy => by simpa using List.mem_takeWhile_imp hy⟩
      have hend : ∀ y ∈ (u ++ e.rest).head?, endsTagName y = true := by
        rw [← hu, hnext]
        exact fun y hy => by simpa using Text.head?_dropWhile _ r y hy
      have hsource : c.rest = ('<' :: x :: r.takeWhile (!endsTagName ·) ++ u) ++ e.rest := by
        rw [List.append_assoc, ← hu, hnext, hrest, List.cons_append, List.cons_append,
          List.takeWhile_append_dropWhile]
      rw [past, text_forward, text_forward] at hspelling
      exact ⟨_, _, hahead.eq_past hsource, hsource, .tagged hx hinside hend hattributes, hspelling⟩
    · cases h
  · cases h

end

end Tag

end Templating.Markup
