import Templating.Proofs.Markup.Tag
import Templating.Proofs.Text.Ahead

/-! How quoted values and tags are read, told once: what stands where, what is made of it, and where
reading goes on. What holds of every tag that is read follows by induction on that. -/
namespace Templating.Markup.Tag
open Text (Cursor isBlank)
open Text.Cursor
variable {d d' : Draft} {c e : Cursor} {quote : Char} {n : Nat}

/-! Quoted values -/

/-- A quoted value, read from a draft and a place on up to the quote that closes it. -/
inductive Valued (quote : Char) : Draft → Cursor → Draft → Cursor → Prop
  | close {d : Draft} {c : Cursor} {r : List Char} (hrest : c.rest = quote :: r) :
      Valued quote d c d c
  | char {d d' : Draft} {c e : Cursor} {x : Char} {r : List Char} (hrest : c.rest = x :: r)
      (hquote : x ≠ quote) (hat : x ≠ '@')
      (h : Valued quote { d with pending := d.pending ++ [x] } (c.forward 1) d' e) :
      Valued quote d c d' e
  | escape {d d' : Draft} {c e : Cursor} {r : List Char} (hrest : c.rest = '@' :: '@' :: r)
      (hquote : '@' ≠ quote)
      (h : Valued quote { d with pending := d.pending ++ ['@'] } (c.forward 2) d' e) :
      Valued quote d c d' e
  | sign {d d' : Draft} {c e : Cursor} {r : List Char} (hrest : c.rest = '@' :: r)
      (hquote : '@' ≠ quote)
      (hlone : transition c r = .literal)
      (h : Valued quote { d with pending := d.pending ++ ['@'] } (c.forward 1) d' e) :
      Valued quote d c d' e
  | expression {d d' : Draft} {c e : Cursor} {r : List Char} {code : String} {length : Nat}
      (hrest : c.rest = '@' :: r)
      (hquote : '@' ≠ quote) (hcode : transition c r = .expression code length)
      (h : Valued quote (d.expression code c.offset (c.forward (length + 1)).offset)
        (c.forward (length + 1)) d' e) :
      Valued quote d c d' e

theorem eq_of_escape {next : List Char} (h : transition c next = .escape) :
    ∃ r, next = '@' :: r := by
  unfold transition at h
  split at h
  · exact ⟨_, rfl⟩
  · split at h
    · cases h
    · repeat' split at h
      all_goals cases h
  · cases h

theorem valued_of_value (h : value quote n d c = some (d', e)) : Valued quote d c d' e := by
  induction n generalizing d c with
  | zero => cases h
  | succ n ih =>
    unfold value at h
    split at h
    · cases h
    next x next hrest =>
      split at h
      next hquote =>
        obtain ⟨rfl, rfl⟩ := Prod.mk.inj (Option.some.inj h)
        exact .close (r := next) (by rw [hrest, eq_of_beq hquote])
      next hquote =>
        have hquote : x ≠ quote := by simpa using hquote
        split at h
        next hat => exact .char hrest hquote (by simpa using hat) (ih h)
        next hat =>
          obtain rfl : x = '@' := by simpa using hat
          split at h
          next hescape =>
            obtain ⟨r, rfl⟩ := eq_of_escape hescape
            exact .escape hrest hquote (ih h)
          next hlone => exact .sign hrest hquote hlone (ih h)
          next hcode => exact .expression hrest hquote hcode (ih h)
          · cases h

theorem Valued.ahead (h : Valued quote d c d' e) : Ahead c e := by
  induction h with
  | close => exact ahead_refl _
  | char _ _ _ _ ih | escape _ _ _ ih | sign _ _ _ _ ih | expression _ _ _ _ ih =>
    exact (ahead_forward _ _).trans ih

theorem Valued.closes (h : Valued quote d c d' e) : ∃ r, e.rest = quote :: r := by
  induction h with
  | close hrest => exact ⟨_, hrest⟩
  | char _ _ _ _ ih | escape _ _ _ ih | sign _ _ _ _ ih | expression _ _ _ _ ih => exact ih

theorem ahead_value (h : value quote n d c = some (d', e)) : Ahead c e ∧ ∃ r, e.rest = quote :: r :=
  ⟨(valued_of_value h).ahead, (valued_of_value h).closes⟩

theorem Valued.behind (h : Valued quote d c d' e) {a : Cursor} (ha : Ahead a c) :
    Ahead a (e.forward 1) :=
  (ha.trans h.ahead).trans (ahead_forward e 1)

theorem Valued.rest_eq (h : Valued quote d c d' e) {a : Cursor} {lead w : List Char}
    (hlead : a.rest = lead ++ quote :: c.rest)
    (hw : c.rest = w ++ e.rest) : a.rest = lead ++ quote :: w ++ quote :: (e.forward 1).rest := by
  obtain ⟨r, hend⟩ := h.closes
  rw [hlead, hw, rest_forward_one hend, hend]
  simp

/-! Attributes -/

/-- The attributes of a tag and its end, read behind markup that began at an offset. -/
inductive Attributed : List Char → Nat → Cursor → List Piece → Cursor → Prop
  | close {markup u : List Char} {offset : Nat} {c e : Cursor} (he : Ahead c e)
      (hu : c.rest = u ++ e.rest)
      (hend : u.getLast? = some '>') : Attributed markup offset c (text (markup ++ u) offset) e
  /-- A name without a value, or with one without quotes. -/
  | plain {markup u : List Char} {offset : Nat} {c d e : Cursor} {ps : List Piece} (hd : Ahead c d)
      (hu : c.rest = u ++ d.rest)
      (h : Attributed (markup ++ u) offset d ps e) : Attributed markup offset c ps e
  /-- A quoted value without an expression. -/
  | literal {markup lead : List Char} {offset : Nat} {quote : Char} {c v a e : Cursor} {d : Draft}
      {ps : List Piece}
      (hv : Ahead c v) (hlead : c.rest = lead ++ quote :: v.rest) (hquote : quote = '"' ∨
        quote = '\'')
      (hvalue : Valued quote { pendingAt := v.offset } v d a) (hparts : d.parts = [])
      (h : Attributed (markup ++ (lead ++ quote :: d.pending ++ [quote])) offset
        (a.forward 1) ps e) :
      Attributed markup offset c ps e
  /-- A quoted value with expressions in it. -/
  | parts {markup lead name : List Char} {offset : Nat} {quote : Char} {c v a e : Cursor}
      {d : Draft} {ps : List Piece}
      (hv : Ahead c v) (hlead : c.rest = lead ++ quote :: v.rest) (hquote : quote = '"' ∨
        quote = '\'')
      (hvalue : Valued quote { pendingAt := v.offset } v d a) (hparts : d.parts ≠ [])
      (h : Attributed [] (a.forward 1).offset (a.forward 1) ps e) :
      Attributed markup offset c
        (text markup offset ++ .node (.attribute ⟨.ofList name, .ofList (lead ++ [quote]),
        quote.toString, d.parts ++ d.literal a.offset⟩) ⟨c.offset, (a.forward 1).offset⟩
          false :: ps) e

section
variable {markup cs : List Char} {offset : Nat} {k : Char} {ps : List Piece}

theorem ahead_nameEnd (c : Cursor) : Ahead c (nameEnd c) := (ahead_skip _ _).trans (ahead_skip _ _)

theorem ahead_valueAt (c : Cursor) : Ahead c (valueAt c) :=
  (((ahead_nameEnd c).trans (ahead_skip _ _)).trans (ahead_forward _ 1)).trans (ahead_skip _ _)

theorem rest_valueAt (c : Cursor) : c.rest = leadOf c ++ (valueAt c).rest :=
  take_ahead (ahead_valueAt c)

theorem ends_or_refused (h : (nameAt c).rest = k :: cs) (hk : beginsName k = false) :
    k = '>' ∨ k = '/' ∨ ['@', '"', '\'', '=', '<', '\x7b', '\x7d'].contains k = true := by
  have hblank : isBlank k = false := by
    have hstop := List.head?_dropWhile_not isBlank c.rest
    have hdrop : c.rest.dropWhile isBlank = k :: cs := by rw [← h, nameAt, rest_skip]
    rwa [hdrop] at hstop
  simp only [beginsName, hblank, Bool.false_or, Bool.not_eq_false', Bool.or_eq_true, beq_iff_eq,
    or_assoc] at hk
  exact hk

section
variable (ih : ∀ {markup offset c ps}, attributes n markup offset c = some (ps, e) →
  Attributed markup offset c ps e)
include ih

theorem attributed_of_quoted (hv : (valueAt c).rest = quote :: cs)
    (hquote : quote = '"' ∨ quote = '\'')
    (h : attributeValue n markup offset c = some (ps, e)) : Attributed markup offset c ps e := by
  cases hquoted : quotedValue quote c with
  | none =>
    rw [attributeValue_open hv hquote hquoted] at h
    cases h
  | some pair =>
    obtain ⟨d, a⟩ := pair
    have hvalue : Valued quote { pendingAt := ((valueAt c).forward 1).offset }
        ((valueAt c).forward 1) d a :=
      valued_of_value hquoted
    have hbegun : Ahead c ((valueAt c).forward 1) := (ahead_valueAt c).trans (ahead_forward _ 1)
    have hlead : c.rest = leadOf c ++ quote :: ((valueAt c).forward 1).rest := by
      rw [rest_forward_one hv, ← hv]
      exact rest_valueAt c
    by_cases hparts : d.parts = []
    · rw [attributeValue_literal hv hquote hquoted hparts] at h
      exact .literal hbegun hlead hquote hvalue hparts (ih (by simpa using h))
    · rw [attributeValue_parts hv hquote hquoted hparts] at h
      obtain ⟨⟨qs, e'⟩, hread, heq⟩ := Option.map_eq_some_iff.mp h
      obtain ⟨rfl, rfl⟩ := Prod.mk.inj heq
      rw [List.append_assoc, List.singleton_append]
      exact .parts hbegun hlead hquote hvalue hparts (ih hread)

theorem attributed_of_attributeValue (h : attributeValue n markup offset c = some (ps, e)) :
    Attributed markup offset c ps e := by
  cases hv : (valueAt c).rest with
  | nil =>
    rw [attributeValue_end hv] at h
    cases h
  | cons k r =>
    by_cases hquote : k = '"' ∨ k = '\''
    · exact attributed_of_quoted ih hv hquote h
    · rw [attributeValue_unquoted hv (not_or.mp hquote), List.append_assoc] at h
      refine .plain ((ahead_valueAt c).trans (ahead_skip _ unquotes)) ?_ (ih h)
      rw [List.append_assoc, takeWhile_append_rest_skip]
      exact rest_valueAt c

end

theorem attributed_of_attributes (h : attributes n markup offset c = some (ps, e)) :
    Attributed markup offset c ps e := by
  induction n generalizing markup offset c ps with
  | zero => cases h
  | succ n ih =>
    have hblanks : c.rest = c.rest.takeWhile isBlank ++ (nameAt c).rest :=
      (takeWhile_append_rest_skip isBlank c).symm
    have hname : nameOf c ++ (nameEnd c).rest = (nameAt c).rest :=
      takeWhile_append_rest_skip (!endsName ·) (nameAt c)
    -- the tag ends with a mark
    have hclose : ∀ {j : Nat} {mark : List Char}, (nameAt c).rest =
      mark ++ ((nameAt c).forward j).rest →
        mark.getLast? = some '>' →
        some (text (markup ++ c.rest.takeWhile isBlank ++ mark) offset, (nameAt c).forward j) =
          some (ps, e) →
        Attributed markup offset c ps e := by
      rintro j mark hmark hlast ⟨⟩
      rw [List.append_assoc]
      refine .close ((ahead_skip c _).trans (ahead_forward _ j)) ?_
        (by rw [List.getLast?_append, hlast]; rfl)
      rw [List.append_assoc, ← hmark]
      exact hblanks
    cases hat : (nameAt c).rest with
    | nil =>
      rw [attributes_end hat] at h
      cases h
    | cons k r =>
      cases hk : beginsName k with
      | true =>
        rw [attributes_name hat hk] at h
        split at h
        · exact attributed_of_attributeValue ih h
        · rw [List.append_assoc] at h
          refine .plain (ahead_nameEnd c) ?_ (ih h)
          rw [List.append_assoc, hname]
          exact hblanks
      | false =>
        rcases ends_or_refused hat hk with rfl | rfl | hrefused
        · rw [attributes_close hat] at h
          exact hclose (by rw [rest_forward_one hat, hat]; rfl) rfl h
        · by_cases hends : ∃ s, r = '>' :: s
          · obtain ⟨s, rfl⟩ := hends
            rw [attributes_closeEmpty hat] at h
            exact hclose (by rw [rest_forward, hat]; rfl) rfl h
          · rw [attributes_slash hat fun s hs => hends ⟨s, hs⟩] at h
            cases h
        · rw [attributes_refuse hat hrefused] at h
          cases h

theorem attributed_of_read (h : read? c = some (ps, e)) :
    ∃ name d, Ahead c d ∧ c.rest = '<' :: name ++ d.rest ∧
      Attributed ('<' :: name) c.offset d ps e := by
  unfold read? at h
  split at h
  next x r hrest =>
    split at h
    · refine ⟨_, _, (ahead_forward c 1).trans (ahead_skip _ (!endsTagName ·)), ?_,
        attributed_of_attributes h⟩
      rw [List.cons_append, takeWhile_append_rest_skip, rest_forward_one hrest, hrest]
    · cases h
  · cases h

end

end Templating.Markup.Tag
