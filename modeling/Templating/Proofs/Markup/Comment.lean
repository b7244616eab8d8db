import Templating.Proofs.Markup.Advance
import Templating.Proofs.Markup.RoundTrip
import Templating.Proofs.Markup.Tag

/-! Text up to a mark that is no text. Outside of tags the reader passes over it a character or a
tag at a time; what it makes of a tag without an at sign is the text of it, and of one with such a
sign something that still shows it. -/
namespace Templating.Markup
open Text (Cursor isBlank)
open Text.Cursor

/-! What tags are read as -/

/-- Some text shows an at sign, or an attribute took it. -/
def Shows (ps : List Piece) : Prop :=
  ∃ p ∈ ps, (∃ cs offset, p = .text cs offset ∧ '@' ∈ cs) ∨ ∃ a span,
    p = .node (.attribute a) span false

/-- The pieces are a text in one, unless there is an at sign in it, which they show. -/
def Spells (u : List Char) (offset : Nat) (ps : List Piece) : Prop :=
  ('@' ∉ u → ps = [.text u offset]) ∧ ('@' ∈ u → Shows ps)

namespace Tag

theorem spells_text {u : List Char} (hu : u ≠ []) (offset : Nat) :
    Spells u offset (text u offset) := by
  have hone : text u offset = [.text u offset] := by
    cases u with
    | nil => exact absurd rfl hu
    | cons x u => rfl
  rw [hone]
  exact ⟨fun _ => rfl, fun hat => ⟨_, List.mem_singleton_self _, .inl ⟨u, offset, rfl, hat⟩⟩⟩

/-- What a draft becomes over a text: the text is added to it, unless there is an at sign in that.
Then it shows the sign, or has an expression in it. -/
structure Draft.Becomes (d : Draft) (u : List Char) (d' : Draft) : Prop where
  plain : '@' ∉ u → d'.parts = d.parts ∧ d'.pending = d.pending ++ u
  shown : d'.parts = [] → d.parts = [] ∧ ('@' ∈ d.pending ++ u → '@' ∈ d'.pending)

section
variable {d d' : Draft} {u : List Char}

theorem Draft.Becomes.refl (d : Draft) : d.Becomes [] d :=
  ⟨fun _ => ⟨rfl, (List.append_nil _).symm⟩, fun h => ⟨h, by simp⟩⟩

theorem Draft.Becomes.char {x : Char} (h : { d with pending := d.pending ++ [x] }.Becomes u d') :
    d.Becomes (x :: u) d' where
  plain hat := by
    obtain ⟨hparts, hpending⟩ := h.plain fun hu => hat (List.mem_cons_of_mem x hu)
    exact ⟨hparts, by simpa using hpending⟩
  shown hparts := by
    obtain ⟨hnone, hin⟩ := h.shown hparts
    exact ⟨hnone, fun hat => hin (by simpa using hat)⟩

theorem Draft.Becomes.sign (h : { d with pending := d.pending ++ ['@'] }.Becomes u d')
    (v : List Char) :
    d.Becomes ('@' :: v ++ u) d' where
  plain hat := absurd List.mem_cons_self hat
  shown hparts := by
    obtain ⟨hnone, hin⟩ := h.shown hparts
    exact ⟨hnone, fun _ => hin (by simp)⟩

theorem Draft.Becomes.expression {code : String} {start stop : Nat}
    (h : (d.expression code start stop).Becomes u d')
    (v : List Char) : d.Becomes ('@' :: v ++ u) d' where
  plain hat := absurd List.mem_cons_self hat
  shown hparts := by
    have hnone := (h.shown hparts).1
    unfold Draft.expression at hnone
    split at hnone <;> simp at hnone

end

theorem Valued.becomes {quote : Char} {d d' : Draft} {c e : Cursor} (h : Valued quote d c d' e) :
    ∃ u, c.rest = u ++ e.rest ∧ d.Becomes u d' := by
  induction h with
  | close => exact ⟨[], rfl, .refl _⟩
  | @char _ _ c _ x r hrest _ _ _ ih =>
    obtain ⟨u, hu, hbecomes⟩ := ih
    rw [rest_forward_one hrest] at hu
    exact ⟨x :: u, by rw [hrest, hu]; rfl, hbecomes.char⟩
  | @escape _ _ c _ r hrest _ _ ih =>
    obtain ⟨u, hu, hbecomes⟩ := ih
    rw [rest_forward, hrest] at hu
    exact ⟨'@' :: ['@'] ++ u, by rw [hrest]; exact congrArg ('@' :: '@' :: ·) hu, hbecomes.sign _⟩
  | @sign _ _ c _ r hrest _ _ _ ih =>
    obtain ⟨u, hu, hbecomes⟩ := ih
    rw [rest_forward_one hrest] at hu
    exact ⟨'@' :: u, by rw [hrest, hu]; rfl, hbecomes.char⟩
  | @expression _ _ c _ r _ length hrest _ _ _ ih =>
    obtain ⟨u, hu, hbecomes⟩ := ih
    rw [rest_forward, hrest, List.drop_succ_cons] at hu
    exact ⟨'@' :: r.take length ++ u,
      by rw [hrest, List.append_assoc, ← hu, List.cons_append, List.take_append_drop],
      hbecomes.expression _⟩

theorem Attributed.spells {markup : List Char} {offset : Nat} {c e : Cursor} {ps : List Piece}
    (h : Attributed markup offset c ps e) :
    ∃ u, c.rest = u ++ e.rest ∧ Spells (markup ++ u) offset ps := by
  induction h with
  | close _ hu hend =>
    exact ⟨_, hu, spells_text (by simp [List.ne_nil_of_mem (List.mem_of_getLast? hend)]) _⟩
  | plain _ hu _ ih =>
    obtain ⟨v, hv, hspells⟩ := ih
    exact ⟨_, by rw [hu, hv, List.append_assoc], by rwa [← List.append_assoc]⟩
  | @literal _ lead _ quote c v a e d ps hv hlead _ hvalue hparts _ ih =>
    obtain ⟨w, hw, hbecomes⟩ := hvalue.becomes
    obtain ⟨u, hu, hspells⟩ := ih
    have hread : c.rest = (lead ++ quote :: w ++ quote :: u) ++ e.rest := by
      rw [hvalue.rest_eq hlead hw, hu]
      simp
    refine ⟨_, hread, ?_⟩
    by_cases hat : '@' ∈ w
    · -- past an at sign the pieces need only show it
      have hpending : '@' ∈ d.pending := (hbecomes.shown hparts).2 (by simpa using hat)
      exact ⟨fun hno => absurd (by simp [hat]) hno, fun _ => hspells.2 (by simp [hpending])⟩
    · have hpending : d.pending = w := (hbecomes.plain hat).2
      rw [hpending] at hspells
      simpa using hspells
  | @parts _ lead name _ quote c v a e d ps hv hlead _ hvalue hparts _ ih =>
    obtain ⟨w, hw, hbecomes⟩ := hvalue.becomes
    obtain ⟨u, hu, -⟩ := ih
    have hat : '@' ∈ w := by
      by_contra hat
      exact hparts (hbecomes.plain hat).1
    have hread : c.rest = (lead ++ quote :: w ++ quote :: u) ++ e.rest := by
      rw [hvalue.rest_eq hlead hw, hu]
      simp
    exact ⟨_, hread, fun hno => absurd (by simp [hat]) hno,
      fun _ => ⟨_, List.mem_append_right _ List.mem_cons_self, .inr ⟨_, _, rfl⟩⟩⟩

theorem read_reads {c e : Cursor} {ps : List Piece} (h : read? c = some (ps, e)) :
    ∃ u, u ≠ [] ∧ c.rest = u ++ e.rest ∧ Spells u c.offset ps := by
  obtain ⟨name, d, -, hd, hread⟩ := attributed_of_read h
  obtain ⟨u, hu, hspells⟩ := hread.spells
  exact ⟨'<' :: name ++ u, by simp, by rw [hd, hu, List.append_assoc], hspells⟩

end Tag

/-! Outside of tags -/

/-- The reader gets from one place of a text to another past characters and whole tags. It stands
inside no tag there. -/
inductive Outside : Cursor → Cursor → Prop
  | here (c : Cursor) : Outside c c
  | text {c d : Cursor} {x : Char} {r : List Char} (hc : c.rest = x :: r) (hx : x ≠ '@')
      (htag : x = '<' → Tag.read? c = none)
      (h : Outside (c.forward 1) d) : Outside c d
  | tag {c e d : Cursor} {ps : List Piece} (hread : Tag.read? c = some (ps, e)) (h : Outside e d) :
      Outside c d

section
variable {t : DirectiveTable} {scope : Scope} {c d e : Cursor} {n : Nat} {ps : List Piece}
  {u r : List Char}

theorem Outside.ahead (h : Outside c d) : Ahead c d := by
  induction h with
  | here c => exact ahead_refl c
  | text _ _ _ _ ih => exact (ahead_forward _ 1).trans ih
  | tag hread _ ih => exact (Tag.beyond_read hread).ahead.trans ih

theorem pieces_char {x : Char} (hc : c.rest = x :: r) (hx : x ≠ '@')
    (htag : x = '<' → Tag.read? c = none) (hb : scope = .topLevel ∨ x ≠ '\x7b' ∧ x ≠ '\x7d') :
    pieces t scope (n + 1) 0 c =
      (Outcome.literal [x] c (c.forward 1)).followedBy (pieces t scope n 0 (c.forward 1)) := by
  by_cases hless : x = '<'
  · subst hless
    exact pieces_noTag hc (htag rfl)
  · exact pieces_literal hc hx hless hb

theorem rest_of_read (h : Tag.read? c = some (ps, e)) : ∃ r, c.rest = '<' :: r := by
  unfold Tag.read? at h
  split at h
  next x r hrest => exact ⟨x :: r, hrest⟩
  · cases h

theorem pieces_outside (h : Outside c d) (hu : c.rest = u ++ d.rest) (hat : '@' ∉ u)
    (hb : scope = .topLevel ∨ ∀ x ∈ u, x ≠ '\x7b' ∧ x ≠ '\x7d') :
    ∃ texts, Gathers u texts ∧ ∀ n, c.rest.length < n → ∃ m, d.rest.length < m ∧
      pieces t scope n 0 c = Outcome.followedBy ⟨texts, [], d⟩ (pieces t scope m 0 d) := by
  induction h generalizing u with
  | here c =>
    obtain rfl : u = [] := by simpa using hu
    exact ⟨[], gathers_nil, fun n hn => ⟨n, hn, by simp [Outcome.followedBy]⟩⟩
  | @text c d x r hc hx htag h ih =>
    obtain ⟨v, hv, -⟩ := h.ahead.exists_read
    have hforward : (c.forward 1).rest = r := rest_forward_one hc
    obtain rfl : u = x :: v := by
      rw [hforward] at hv
      rw [hc, hv] at hu
      exact List.append_cancel_right hu.symm
    obtain ⟨texts, hgathers, hpieces⟩ := ih hv (fun hmem => hat (List.mem_cons_of_mem x hmem))
      (hb.imp_right fun h y hy => h y (List.mem_cons_of_mem x hy))
    have hbrace := hb.imp_right fun h => h x List.mem_cons_self
    refine ⟨.text [x] c.offset :: texts, hgathers.cons [x] c.offset, fun n hn => ?_⟩
    obtain ⟨n, rfl⟩ := Nat.exists_eq_succ_of_ne_zero (Nat.ne_of_gt (Nat.zero_lt_of_lt hn))
    have hless : (c.forward 1).rest.length < n := by
      rw [hc, List.length_cons] at hn
      rw [hforward]
      omega
    obtain ⟨m, hm, hrest⟩ := hpieces n hless
    exact ⟨m, hm,
      by rw [pieces_char hc hx htag hbrace, hrest]; simp [Outcome.followedBy, Outcome.literal]⟩
  | @tag c e d ps hread h ih =>
    obtain ⟨v, hv, -⟩ := h.ahead.exists_read
    obtain ⟨w, hw, hsplit, hspells⟩ := Tag.read_reads hread
    obtain ⟨r, hless⟩ := rest_of_read hread
    obtain rfl : u = w ++ v := by
      rw [hsplit, hv, ← List.append_assoc] at hu
      exact List.append_cancel_right hu.symm
    obtain ⟨texts, hgathers, hpieces⟩ := ih hv (fun hmem => hat (List.mem_append_right w hmem))
      (hb.imp_right fun h y hy => h y (List.mem_append_right w hy))
    have hps := hspells.1 fun hmem => hat (List.mem_append_left v hmem)
    refine ⟨.text w c.offset :: texts, hgathers.cons w c.offset, fun n hn => ?_⟩
    obtain ⟨n, rfl⟩ := Nat.exists_eq_succ_of_ne_zero (Nat.ne_of_gt (Nat.zero_lt_of_lt hn))
    have hshorter : e.rest.length < n := by
      have hpos := List.length_pos_iff.mpr hw
      rw [hsplit, List.length_append] at hn
      omega
    obtain ⟨m, hm, hrest⟩ := hpieces n hshorter
    exact ⟨m, hm, by rw [pieces_tag hless hread, hps, hrest]; simp [Outcome.followedBy]⟩

/-- From the place, outside of tags, the reader gets to a tag that ends only where
so much is left. -/
def Overrun (c : Cursor) (u : List Char) (left : Nat) : Prop :=
  ∃ v f ps e, Outside c f ∧ c.rest = v ++ f.rest ∧ v <+: u ∧ Tag.read? f = some (ps, e) ∧
    e.rest.length < left

theorem Overrun.text {x : Char} {left : Nat} (hc : c.rest = x :: r) (hx : x ≠ '@')
    (htag : x = '<' → Tag.read? c = none)
    (h : Overrun (c.forward 1) u left) : Overrun c (x :: u) left := by
  obtain ⟨v, f, ps, e, hout, hv, hbefore, hread⟩ := h
  refine ⟨x :: v, f, ps, e, .text hc hx htag hout, ?_,
    List.cons_prefix_cons.mpr ⟨rfl, hbefore⟩, hread⟩
  rw [List.cons_append, ← hv, rest_forward_one hc, hc]

theorem Overrun.tag {w : List Char} {left : Nat} (hread : Tag.read? c = some (ps, e))
    (hw : c.rest = w ++ e.rest) (h : Overrun e u left) : Overrun c (w ++ u) left := by
  obtain ⟨v, f, ps', e', hout, hv, hbefore, hread'⟩ := h
  refine ⟨w ++ v, f, ps', e', .tag hread hout, ?_,
    (List.prefix_append_right_inj w).mpr hbefore, hread'⟩
  rw [List.append_assoc, ← hv, hw]

theorem outside_or_overrun (hu : c.rest = u ++ r) (hat : '@' ∉ u) :
    Outside c (c.past u) ∨ Overrun c u r.length := by
  induction hlength : u.length using Nat.strongRecOn generalizing c u with
  | ind k ih =>
    subst hlength
    cases u with
    | nil => exact .inl (.here c)
    | cons x u =>
      have hx : x ≠ '@' := fun hx => hat (by simp [hx])
      have hrest : c.rest = x :: (u ++ r) := hu
      cases hread : Tag.read? c with
      | none =>
        have hforward : (c.forward 1).rest = u ++ r := rest_forward_one hrest
        rcases ih u.length (by simp) hforward (fun hmem => hat (List.mem_cons_of_mem x hmem))
          rfl with hout | hover
        · exact .inl (.text hrest hx (fun _ => hread) (past_cons c x u ▸ hout))
        · exact .inr (hover.text hrest hx fun _ => hread)
      | some p =>
        obtain ⟨ps, e⟩ := p
        obtain ⟨w, hw, hsplit, -⟩ := Tag.read_reads hread
        by_cases hover : e.rest.length < r.length
        · exact .inr ⟨[], c, ps, e, .here c, rfl, List.nil_prefix, hread, hover⟩
        · obtain ⟨v, hv, hbehind⟩ : ∃ v, x :: u = w ++ v ∧ e.rest = v ++ r := by
            rcases List.append_eq_append_iff.mp (hsplit.symm.trans hu) with
              ⟨v, hv, hbehind⟩ | ⟨v, rfl, hbehind⟩
            · exact ⟨v, hv, hbehind⟩
            · have hv : v.length = 0 := by
                rw [hbehind, List.length_append] at hover
                omega
              obtain rfl := List.eq_nil_of_length_eq_zero hv
              exact ⟨[], by simp, by simpa using hbehind.symm⟩
          have hless : v.length < (x :: u).length := by
            have hpos := List.length_pos_iff.mpr hw
            rw [hv, List.length_append]
            omega
          have hpast : e.past v = c.past (x :: u) := by
            rw [(Tag.beyond_read hread).ahead.eq_past hsplit, hv, past_append]
          rcases ih v.length hless hbehind (fun hmem => hat (hv ▸ List.mem_append_right w hmem))
            rfl with hout | hover
          · exact .inl (.tag hread (hpast ▸ hout))
          · rw [hv]
            exact .inr (hover.tag hread hsplit)

theorem pieces_end_text {d : Cursor} (hat : '@' ∉ d.rest) {n : Nat} (hn : d.rest.length < n) :
    ∃ texts, Gathers d.rest texts ∧ ∃ e, pieces t .topLevel n 0 d = ⟨texts, [], e⟩ := by
  have hout : Outside d (d.past d.rest) := by
    rcases outside_or_overrun (r := []) (List.append_nil d.rest).symm hat with hout | hover
    · exact hout
    · obtain ⟨_, _, _, _, -, -, -, -, hless⟩ := hover
      exact absurd hless (Nat.not_lt_zero _)
  have hend : (d.past d.rest).rest = [] := by simp [past]
  obtain ⟨texts, hgathers, hpieces⟩ :=
    pieces_outside (t := t) hout (by rw [hend, List.append_nil]) hat (.inl rfl)
  obtain ⟨m, hm, hread⟩ := hpieces n hn
  obtain ⟨m, rfl⟩ := Nat.exists_eq_succ_of_ne_zero (Nat.ne_of_gt (Nat.zero_lt_of_lt hm))
  refine ⟨texts, hgathers, d.past d.rest, ?_⟩
  rw [hread, pieces_nil hend]
  simp [Outcome.followedBy]

theorem Overrun.shows (h : Overrun c u ('@' :: r).length) (hu : c.rest = u ++ '@' :: r)
    (hat : '@' ∉ u) :
    ∃ v f ps e, Outside c f ∧
      c.rest = v ++ f.rest ∧ '@' ∉ v ∧ Tag.read? f = some (ps, e) ∧ Shows ps := by
  obtain ⟨v, f, ps, e, hout, hv, hbefore, hread, hless⟩ := h
  obtain ⟨w, -, hw, hspells⟩ := Tag.read_reads hread
  have hvat : '@' ∉ v := fun hmem => hat (hbefore.subset hmem)
  refine ⟨v, f, ps, e, hout, hv, hvat, hread, hspells.2 ?_⟩
  rw [hw, ← List.append_assoc] at hv
  rcases List.append_eq_append_iff.mp (hu.symm.trans hv) with ⟨z, hz, hrest⟩ | ⟨z, -, hrest⟩
  · cases z with
    | nil =>
      rw [List.nil_append] at hrest
      rw [hrest] at hless
      exact absurd hless (Nat.lt_irrefl _)
    | cons y z =>
      obtain ⟨rfl, -⟩ := List.cons.inj hrest
      have hmem : '@' ∈ v ++ w := by simp [hz]
      exact (List.mem_append.mp hmem).resolve_left hvat
  · rw [hrest, List.length_append] at hless
    omega

end

end Templating.Markup
