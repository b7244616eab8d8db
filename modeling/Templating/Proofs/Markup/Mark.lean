import Templating.Proofs.Markup.Comment
import Templating.Proofs.Markup.Tag

/-! Tags up to a mark. Where the automaton does not get past the mark, whatever would close the tag
behind it, no tag is read over the mark, whatever follows it. -/
namespace Templating.Markup
open Text (Cursor isBlank)
open Text.Cursor

/-- What closes a tag behind any place at which an expression may stand in it. -/
def closers : List Sym := ['"', '>', '\'', '>'].map .char

def marked (v : List Char) : List Sym := v.map .char ++ .hole :: closers

section
variable {v w r : List Char} {s : List Sym} {as : List Atom} {f : Char → Bool} {p q : Place}

theorem marked_inj (h : marked v = marked w) : v = w := by
  have hmap : v.map Sym.char = w.map Sym.char := List.append_cancel_right h
  exact List.map_injective_iff.mpr (fun _ _ h => Sym.char.inj h) hmap

theorem hole_mem_marked (v : List Char) : Sym.hole ∈ marked v := by simp [marked]

theorem clean_marked (hv : ∀ c ∈ v, c ≠ '@' ∧ c ≠ '/') : Clean (marked v) := by
  intro y hy
  rcases List.mem_append.mp hy with hy | hy
  · obtain ⟨c, hc, rfl⟩ := List.mem_map.mp hy
    simpa using hv c hc
  rcases List.mem_cons.mp hy with rfl | hy
  · simp
  · have hclosers : ∀ y ∈ closers, y ≠ .char '@' ∧ y ≠ .char '/' := by decide
    exact hclosers y hy

theorem dropWhile_marked (h : v.dropWhile f = [] → f '@' = false) :
    (marked v).dropWhile (passes f) = marked (v.dropWhile f) := by
  induction v with
  | nil =>
    have hf : passes f .hole = false := h rfl
    simp [marked, hf]
  | cons c v ih =>
    cases hc : f c with
    | false => simp [marked, passes, hc]
    | true =>
      have hrest := ih (by simpa [hc] using h)
      simpa [marked, passes, hc] using hrest

theorem dropWhile_mark (h : v.dropWhile f = [] → f '@' = false) (r : List Char) :
    (v ++ '@' :: r).dropWhile f = v.dropWhile f ++ '@' :: r := by
  induction v with
  | nil => simp [h rfl]
  | cons c v ih =>
    cases hc : f c with
    | false => simp [hc]
    | true => simpa [hc] using ih (by simpa [hc] using h)

theorem rest_skip_mark {c : Cursor} (hc : c.rest = v ++ '@' :: r)
    (h : v.dropWhile f = [] → f '@' = false) :
    (c.skip f).rest = v.dropWhile f ++ '@' :: r := by
  rw [rest_skip, hc, dropWhile_mark h]

/-- What is read fails where the automaton does, and is read where the automaton gets to an end
before the mark. -/
def Heeds (r : List Char) (o : Option (List Piece × Cursor)) (way : Option (List Atom × List Sym)) :
    Prop :=
  (way = none → o = none) ∧ ∀ as w, way = some (as, marked w) → ∃ ps e, o = some (ps, e) ∧
    e.rest = w ++ '@' :: r

theorem Heeds.lead {o : Option (List Piece × Cursor)} {way : Option (List Atom × List Sym)}
    (h : Heeds r o way) (as : List Atom) :
    Heeds r o (lead as way) := by
  cases way with
  | none => exact h
  | some pair =>
    obtain ⟨bs, s⟩ := pair
    refine ⟨nofun, fun _ w heq => ?_⟩
    obtain rfl : s = marked w := (Prod.mk.inj (Option.some.inj heq)).2
    exact h.2 bs w rfl

theorem heeds_none : Heeds r none none := ⟨fun _ => rfl, nofun⟩

theorem heeds_past (o : Option (List Piece × Cursor)) (hs : .hole ∉ s) :
    Heeds r o (some (as, s)) := by
  refine ⟨nofun, fun _ w heq => ?_⟩
  obtain rfl : s = marked w := (Prod.mk.inj (Option.some.inj heq)).2
  exact absurd (hole_mem_marked w) hs

theorem heeds_read {o : Option (List Piece × Cursor)} {ps : List Piece} {e : Cursor}
    (h : o = some (ps, e)) (he : e.rest = w ++ '@' :: r) : Heeds r o (some (as, marked w)) := by
  refine ⟨nofun, fun _ w' heq => ⟨ps, e, h, ?_⟩⟩
  obtain rfl := marked_inj (Prod.mk.inj (Option.some.inj heq)).2
  exact he

end

/-- Text that may stand before a mark: without other marks, and without slashes. -/
abbrev Unmarked (v : List Char) : Prop := ∀ x ∈ v, x ≠ '@' ∧ x ≠ '/'

def AttributesHeed (r : List Char) (n : Nat) : Prop :=
  ∀ (v : List Char) (c : Cursor) (markup : List Char) (offset : Nat), Unmarked v →
    c.rest = v ++ '@' :: r → c.rest.length < n →
    Heeds r (Tag.attributes n markup offset c) (cross [] .between (marked v))

/-! Values -/

section
variable {v r : List Char} {n : Nat} {c : Cursor} {f : Char → Bool}

theorem Unmarked.dropWhile (hv : Unmarked v) (f : Char → Bool) : Unmarked (v.dropWhile f) :=
  fun x hx =>
  hv x ((List.dropWhile_sublist f).subset hx)

theorem value_text {quote : Char} {u : List Char} (hu : ∀ x ∈ u, x ≠ quote ∧ x ≠ '@')
    (d : Tag.Draft) (hc : c.rest = u ++ quote :: v) (hn : c.rest.length < n) :
    Tag.value quote n d c = some ({ d with pending := d.pending ++ u }, c.past u) := by
  induction u generalizing c d n with
  | nil =>
    obtain ⟨n, rfl⟩ := Nat.exists_eq_succ_of_ne_zero (Nat.ne_of_gt (Nat.zero_lt_of_lt hn))
    have hrest : c.rest = quote :: v := hc
    simp only [Tag.value, hrest, beq_self_eq_true, if_true, List.append_nil]
    rfl
  | cons x u ih =>
    obtain ⟨n, rfl⟩ := Nat.exists_eq_succ_of_ne_zero (Nat.ne_of_gt (Nat.zero_lt_of_lt hn))
    have hrest : c.rest = x :: (u ++ quote :: v) := hc
    have hforward : (c.forward 1).rest = u ++ quote :: v := rest_forward_one hrest
    have hless : (c.forward 1).rest.length < n := by
      rw [hrest, List.length_cons] at hn
      rw [hforward]
      omega
    obtain ⟨hquote, hat⟩ := hu x List.mem_cons_self
    have hvalue :=
      ih (fun y hy => hu y (List.mem_cons_of_mem x hy)) { d with pending := d.pending ++ [x] }
      hforward hless
    rw [← past_cons] at hvalue
    simpa [Tag.value, hrest, hquote, hat] using hvalue

theorem closing_marked {k : Char} {u : List Char} (hu : k ∉ u) :
    ∃ as, closing [] k (marked (u ++ k :: v)) = some (as, marked v) := by
  induction u with
  | nil => exact ⟨[], by simp [marked, closing]⟩
  | cons x u ih =>
    obtain ⟨as, has⟩ := ih fun hmem => hu (List.mem_cons_of_mem x hmem)
    have hx : Sym.char x ≠ .char k := by
      intro h
      exact hu (by simp [Sym.char.inj h])
    refine ⟨(Place.quoted k).emit [] (.char x) ++ as, ?_⟩
    have hmarked : marked (x :: u ++ k :: v) = .char x :: marked (u ++ k :: v) := rfl
    rw [hmarked, closing, if_neg hx, has]
    rfl

theorem dropWhile_marked_past (h : v.dropWhile f = []) (hf : f '@' = true) :
    (marked v).dropWhile (passes f) = closers.dropWhile (passes f) := by
  induction v with
  | nil =>
    have hhole : passes f .hole = true := hf
    simp [marked, hhole]
  | cons c v ih =>
    cases hc : f c with
    | false => simp [hc] at h
    | true =>
      have hrest := ih (by simpa [hc] using h)
      simpa [marked, passes, hc] using hrest

theorem quoted_heeds (ih : AttributesHeed r n) {k : Char} (hk : k = '"' ∨ k = '\'')
    (hv : Unmarked v)
    (hc : (Tag.valueAt c).rest = k :: (v ++ '@' :: r)) (hn : (Tag.valueAt c).rest.length ≤ n)
    (markup : List Char) (offset : Nat) :
    Heeds r (Tag.attributeValue n markup offset c) (cross [] (.quoted k) (marked v)) := by
  by_cases hmem : k ∈ v
  · obtain ⟨u, w, rfl, hu⟩ := List.eq_append_cons_of_mem hmem
    obtain ⟨as, has⟩ := closing_marked (v := w) hu
    have hbegun : ((Tag.valueAt c).forward 1).rest = u ++ k :: (w ++ '@' :: r) := by
      simp [rest_forward, hc]
    have hplain : ∀ x ∈ u, x ≠ k ∧ x ≠ '@' :=
      fun x hx => ⟨fun h => hu (h ▸ hx), (hv x (by simp [hx])).1⟩
    have hvalue : Tag.quotedValue k c = some _ := value_text hplain _ hbegun (Nat.lt_succ_self _)
    have hrest : ((((Tag.valueAt c).forward 1).past u).forward 1).rest = w ++ '@' :: r := by
      rw [rest_forward, past, rest_forward_of_append hbegun]
      rfl
    have hless : ((((Tag.valueAt c).forward 1).past u).forward 1).rest.length < n := by
      rw [hc] at hn
      rw [hrest]
      simp only [List.length_cons, List.length_append] at hn ⊢
      omega
    rw [cross_quoted, has, Option.bind_some, Tag.attributeValue_literal hc hk hvalue rfl]
    exact (ih w _ _ _ (fun x hx => hv x (by simp [hx])) hrest hless).lead _
  · have hstay : ∀ y ∈ v.map Sym.char, (Place.quoted k).advance y = .go (.quoted k) := by
      intro y hy
      obtain ⟨x, hx, rfl⟩ := List.mem_map.mp hy
      have hne : x ≠ k := fun h => hmem (h ▸ hx)
      simp [Place.advance, hne]
    rw [marked, cross_stay hstay]
    refine Heeds.lead ?_ _
    rcases hk with rfl | rfl
    · exact heeds_past _ (s := ['\'', '>'].map .char) (by decide)
    · exact heeds_past _ (s := []) (by decide)

theorem marked_cons (k : Char) (v : List Char) : marked (k :: v) = .char k :: marked v := rfl

theorem attributeValue_heeds (ih : AttributesHeed r n) (hv : Unmarked v)
    (hb : ∀ x ∈ v.head?, isBlank x = false)
    (hc : (Tag.valueAt c).rest = v ++ '@' :: r) (hn : (Tag.valueAt c).rest.length < n)
    (markup : List Char) (offset : Nat) :
    Heeds r (Tag.attributeValue n markup offset c) (cross [] .afterEquals (marked v)) := by
  cases v with
  | nil => exact heeds_past _ (s := ['\'', '>'].map .char) (by decide)
  | cons k v =>
    by_cases hk : k = '"' ∨ k = '\''
    · have hgo : Place.afterEquals.advance (.char k) = .go (.quoted k) := by
        rcases hk with rfl | rfl <;> rfl
      rw [marked_cons, cross_go hgo]
      exact (quoted_heeds ih hk (fun x hx => hv x (List.mem_cons_of_mem k hx)) hc hn.le markup
        offset).lead _
    · have hblank : ∀ y ∈ (marked (k :: v)).head?, passes isBlank y = false := by
        rintro _ ⟨⟩
        exact hb k rfl
      have hquote : ∀ y ∈ (marked (k :: v)).head?, y ≠ .char '"' ∧ y ≠ .char '\'' := by
        rintro _ ⟨⟩
        simpa using hk
      rw [cross_unquoted hblank hquote]
      refine Heeds.lead ?_ _
      by_cases hall : (k :: v).dropWhile Tag.unquotes = []
      · rw [dropWhile_marked_past hall (by decide)]
        exact heeds_past _ (s := ['\'', '>'].map .char) (by decide)
      · have hstop : (k :: v).dropWhile Tag.unquotes = [] → Tag.unquotes '@' = false :=
          fun h => absurd h hall
        have hrest : ((Tag.valueAt c).skip Tag.unquotes).rest = (k :: v).dropWhile Tag.unquotes ++
            '@' :: r := by
          rw [rest_skip, hc, dropWhile_mark hstop]
        have hle : ((Tag.valueAt c).skip Tag.unquotes).rest.length ≤
            (Tag.valueAt c).rest.length := by
          rw [rest_skip]
          exact (List.dropWhile_sublist _).length_le
        rw [dropWhile_marked hstop, Tag.attributeValue_unquoted hc (not_or.mp hk)]
        exact ih _ _ _ _ (hv.dropWhile _) hrest (by omega)

/-! Attributes -/

section
variable {w : List Char} (hw : Unmarked w) (hname : (Tag.nameEnd c).rest = w ++ '@' :: r)
include hname

theorem rest_equalsAt_mark : (Tag.equalsAt c).rest = w.dropWhile isBlank ++ '@' :: r :=
  rest_skip_mark hname fun _ => by decide

include hw

theorem equals_heeds (ih : AttributesHeed r n) (hn : (Tag.nameEnd c).rest.length < n)
    {u : List Char} (hu : w.dropWhile isBlank = '=' :: u) (markup : List Char) (offset : Nat) :
    Heeds r (Tag.attributeValue n markup offset c) (cross [] .attributeName (marked w)) := by
  have hblank : ∀ w : List Char, w.dropWhile isBlank = [] → isBlank '@' = false :=
    fun _ _ => by decide
  have hequals := rest_equalsAt_mark hname
  rw [hu, List.cons_append] at hequals
  have hvalue : (Tag.valueAt c).rest = u.dropWhile isBlank ++ '@' :: r :=
    rest_skip_mark (rest_forward_one hequals) (hblank u)
  have hway : (marked w).dropWhile (passes isBlank) = .char '=' :: marked u := by
    rw [dropWhile_marked (hblank w), hu, marked_cons]
  have hafter : Unmarked u := by
    have hdrop := hw.dropWhile isBlank
    rw [hu] at hdrop
    exact fun x hx => hdrop x (List.mem_cons_of_mem _ hx)
  have hless : (Tag.valueAt c).rest.length < n := by
    have hbefore := (List.dropWhile_sublist (l := w) isBlank).length_le
    have hbehind := (List.dropWhile_sublist (l := u) isBlank).length_le
    rw [hname] at hn
    rw [hvalue]
    rw [hu] at hbefore
    simp only [List.length_cons, List.length_append] at hbefore hn ⊢
    omega
  have hfirst : ∀ x ∈ (u.dropWhile isBlank).head?, isBlank x = false := by
    intro x hx
    have hstop := List.head?_dropWhile_not isBlank u
    rwa [hx] at hstop
  rw [cross_equals hway, cross_blanks (.inr (.inr rfl)), dropWhile_marked (hblank u)]
  exact ((attributeValue_heeds ih (hafter.dropWhile _) hfirst hvalue hless markup offset).lead
    _).lead _

end

theorem attribute_heeds (ih : AttributesHeed r n) {k : Char} (hk : Tag.beginsName k)
    (hv : Unmarked (k :: v))
    (hc : (Tag.nameAt c).rest = k :: (v ++ '@' :: r)) (hn : (Tag.nameAt c).rest.length ≤ n)
    (markup : List Char) (offset : Nat) :
    Heeds r (Tag.attributes (n + 1) markup offset c) (cross [] .between (marked (k :: v))) := by
  have hends : (k :: v).dropWhile (!Tag.endsName ·) = [] → (!Tag.endsName '@') = false :=
    fun _ => by decide
  have hname : (Tag.nameEnd c).rest = (k :: v).dropWhile (!Tag.endsName ·) ++ '@' :: r :=
    rest_skip_mark hc hends
  have hshort : ((k :: v).dropWhile (!Tag.endsName ·)).length ≤ v.length := by
    rw [List.dropWhile_cons_of_pos (by simp [Tag.not_endsName hk])]
    exact (List.dropWhile_sublist _).length_le
  have hlength : (Tag.nameEnd c).rest.length < n := by
    rw [hc] at hn
    rw [hname]
    simp only [List.length_cons, List.length_append] at hn ⊢
    omega
  have hclean : Unmarked ((k :: v).dropWhile (!Tag.endsName ·)) := hv.dropWhile _
  have hstops := head_dropWhile (passes (!Tag.endsName ·)) (marked (k :: v))
  rw [dropWhile_marked hends] at hstops
  rw [marked_cons, cross_name hk, ← marked_cons, dropWhile_marked hends, Tag.attributes_name hc hk]
  refine Heeds.lead ?_ _
  generalize (k :: v).dropWhile (!Tag.endsName ·) = w at hname hshort hstops hclean
  rw [rest_equalsAt_mark hname]
  cases hdrop : w.dropWhile isBlank with
  | nil =>
    have hnone : ((marked w).dropWhile (passes isBlank)).head? ≠ some (.char '=') := by
      rw [dropWhile_marked fun _ => by decide, hdrop]
      simp [marked]
    rw [if_neg (by simp), cross_noEquals (clean_marked hclean) hstops hnone]
    exact ih _ _ _ _ hclean hname hlength
  | cons x u =>
    by_cases hsign : x = '='
    · subst hsign
      rw [if_pos (by rfl)]
      exact equals_heeds hclean hname ih hlength hdrop markup offset
    · have hnone : ((marked w).dropWhile (passes isBlank)).head? ≠ some (.char '=') := by
        rw [dropWhile_marked fun _ => by decide, hdrop]
        simpa [marked_cons] using hsign
      rw [if_neg (by simpa using hsign), cross_noEquals (clean_marked hclean) hstops hnone]
      exact ih _ _ _ _ hclean hname hlength

theorem attributes_heed (r : List Char) (n : Nat) : AttributesHeed r n := by
  induction n with
  | zero => exact fun v c markup offset hv hc hn => absurd hn (Nat.not_lt_zero _)
  | succ n ih =>
    intro v c markup offset hv hc hn
    have hblank : v.dropWhile isBlank = [] → isBlank '@' = false := fun _ => by decide
    have hat : (Tag.nameAt c).rest = v.dropWhile isBlank ++ '@' :: r := rest_skip_mark hc hblank
    have hlen : (Tag.nameAt c).rest.length ≤ n := by
      have hle := (List.dropWhile_sublist (l := c.rest) isBlank).length_le
      rw [Tag.nameAt, rest_skip]
      omega
    have hfirst := List.head?_dropWhile_not isBlank v
    have hclean := hv.dropWhile isBlank
    rw [cross_blanks (.inl rfl), dropWhile_marked hblank]
    refine Heeds.lead ?_ _
    cases hdrop : v.dropWhile isBlank with
    | nil =>
      rw [hdrop] at hat
      rw [Tag.attributes_refuse hat (by decide)]
      exact heeds_none
    | cons k w =>
      rw [hdrop] at hat hfirst hclean
      have hb : isBlank k = false := hfirst
      obtain ⟨hmark, hslash⟩ := hclean k List.mem_cons_self
      rw [marked_cons]
      by_cases hgt : k = '>'
      · subst hgt
        rw [cross_close (by rfl)]
        refine heeds_read (Tag.attributes_close hat) ?_
        rw [rest_forward, hat]
        rfl
      · cases hk : ['@', '"', '\'', '=', '<', '\x7b', '\x7d'].contains k with
        | true =>
          have hfail : Place.between.advance (.char k) = .fail := by
            have hgt : (k == '>') = false := by simpa using hgt
            simp only [Place.advance, Place.begin, hb, hgt, hk, Bool.false_eq_true, if_false,
              if_true]
          rw [cross_fail hfail, Tag.attributes_refuse hat hk]
          exact heeds_none
        | false =>
          have hbegins : Tag.beginsName k := by simpa [Tag.beginsName, hb, hgt, hslash] using hk
          exact attribute_heeds ih hbegins hclean hat hlen markup offset

theorem read_heeds (hv : Unmarked v) (hc : c.rest = '<' :: (v ++ '@' :: r)) :
    Heeds r (Tag.read? c) (cross [] .opening (marked v)) := by
  cases v with
  | nil =>
    have hnone : Tag.read? c = none := by
      have hat : '@'.isAlpha = false := by decide
      simp [Tag.read?, hc, hat]
    rw [hnone]
    exact heeds_none
  | cons k v =>
    have hrest : c.rest = '<' :: k :: (v ++ '@' :: r) := hc
    cases hk : k.isAlpha with
    | false =>
      have hnone : Tag.read? c = none := by simp [Tag.read?, hrest, hk]
      have hfail : Place.opening.advance (.char k) = .fail := by simp [Place.advance, hk]
      rw [hnone, marked_cons, cross_fail hfail]
      exact heeds_none
    | true =>
      have hbegin : Place.opening.advance (.char k) = .go .tagName := by simp [Place.advance, hk]
      have hclean : Unmarked v := fun x hx => hv x (List.mem_cons_of_mem k hx)
      rw [marked_cons, cross_go hbegin, cross_tagName (clean_marked hclean)]
      refine Heeds.lead (Heeds.lead ?_ _) _
      by_cases hall : v.dropWhile (!Tag.endsTagName ·) = []
      · rw [dropWhile_marked_past hall (by decide)]
        exact heeds_past _ (s := ['\'', '>'].map .char) (by decide)
      · have hpass : (!Tag.endsTagName k) = true := by
          have hplain : Code.plain k := by simp [Code.plain, Char.isAlphanum, hk]
          have hgt : k ≠ '>' := Code.plain_ne hplain (by decide)
          simp [Tag.endsTagName, Code.not_blank_of_plain hplain, hgt, (hv k List.mem_cons_self).2]
        have hdrop : (k :: v).dropWhile (!Tag.endsTagName ·) = v.dropWhile (!Tag.endsTagName ·) :=
          List.dropWhile_cons_of_pos (p := (!Tag.endsTagName ·)) hpass
        have hforward : (c.forward 1).rest = (k :: v) ++ '@' :: r := rest_forward_one hrest
        have hskip := rest_skip_mark (f := (!Tag.endsTagName ·)) hforward fun h =>
          absurd (hdrop ▸ h) hall
        have hless : ((c.forward 1).skip (!Tag.endsTagName ·)).rest.length < c.rest.length + 1 := by
          have hle :=
            (List.dropWhile_sublist (l := (c.forward 1).rest) (!Tag.endsTagName ·)).length_le
          rw [hforward] at hle
          rw [rest_skip, hforward, hrest]
          simp only [List.length_cons, List.length_append] at hle ⊢
          omega
        have hread : Tag.read? c = Tag.attributes (c.rest.length + 1)
            ('<' :: (c.forward 1).rest.takeWhile (!Tag.endsTagName ·)) c.offset
            ((c.forward 1).skip (!Tag.endsTagName ·)) := by
          simp only [Tag.read?, hrest, hk, if_true]
          rfl
        rw [hdrop] at hskip
        rw [hread, dropWhile_marked fun h => absurd h hall]
        exact attributes_heed r _ _ _ _ _ (hclean.dropWhile _) hskip hless

end

/-! The place of a mark -/

section
variable {a v r : List Char} {c : Cursor} {p : Place}

theorem exists_of_behind (h : Place.behind (some p) v (.hole :: closers) = none) {as : List Atom}
    {s : List Sym} (hway : cross [] p (marked v) = some (as, s)) :
    ∃ u w, v = u ++ w ∧ s = marked w ∧ w.length < v.length ∧
      Place.behind none w (.hole :: closers) = none := by
  induction v generalizing p as with
  | nil => cases h
  | cons x v ih =>
    rw [marked_cons] at hway
    cases hx : p.advance (.char x) with
    | fail =>
      rw [cross_fail hx] at hway
      cases hway
    | close =>
      rw [cross_close hx] at hway
      obtain ⟨-, rfl⟩ := Prod.mk.inj (Option.some.inj hway)
      rw [Place.behind, hx] at h
      exact ⟨[x], v, rfl, rfl, Nat.lt_succ_self _, h⟩
    | go q =>
      rw [cross_go hx] at hway
      obtain ⟨⟨bs, s'⟩, hrest, heq⟩ := Option.map_eq_some_iff.mp hway
      obtain ⟨-, rfl⟩ := Prod.mk.inj heq
      rw [Place.behind, hx] at h
      obtain ⟨u, w, rfl, hw, hless, hbehind⟩ := ih h hrest
      exact ⟨x :: u, w, rfl, hw, Nat.lt_succ_of_lt hless, hbehind⟩

theorem outside_of_behind (ha : Unmarked a) (hc : c.rest = a ++ '@' :: r)
    (h : Place.behind none a (.hole :: closers) = none) :
    Outside c (c.past a) := by
  induction hlength : a.length using Nat.strongRecOn generalizing c a with
  | ind k ih =>
    subst hlength
    cases a with
    | nil => exact .here c
    | cons x v =>
      have hrest : c.rest = x :: (v ++ '@' :: r) := hc
      have hv : Unmarked v := fun y hy => ha y (List.mem_cons_of_mem x hy)
      have hat : x ≠ '@' := (ha x List.mem_cons_self).1
      -- one character on, if no tag begins here
      have htext : (x = '<' → Tag.read? c = none) → Place.behind none v (.hole :: closers) = none →
          Outside c (c.past (x :: v)) := by
        intro htag hbehind
        have hforward : (c.forward 1).rest = v ++ '@' :: r := rest_forward_one hrest
        have hout := ih v.length (Nat.lt_succ_self _) hv hforward hbehind rfl
        exact .text hrest hat htag (past_cons c x v ▸ hout)
      rw [Place.behind] at h
      by_cases hless : x = '<'
      · subst hless
        have hheeds := read_heeds hv hrest
        have hcloses : (cross [] .opening (marked v)).isSome =
            Place.opening.closes (v.map .char ++ .hole :: closers) :=
          isSome_cross .opening (marked v)
        cases hway : cross [] .opening (marked v) with
        | none =>
          rw [hway] at hcloses
          rw [← hcloses, if_neg (by simp)] at h
          exact htext (fun _ => hheeds.1 hway) h
        | some pair =>
          obtain ⟨as, s⟩ := pair
          rw [hway] at hcloses
          rw [← hcloses, if_pos (by simp)] at h
          obtain ⟨u, w, rfl, rfl, hshort, hbehind⟩ := exists_of_behind h hway
          obtain ⟨ps, e, hread, he⟩ := hheeds.2 as w hway
          have hend : e = c.past ('<' :: u) :=
            (Tag.beyond_read hread).ahead.eq_past (by rw [hrest, he]; simp)
          have hw : Unmarked w := fun y hy => hv y (List.mem_append_right u hy)
          have hout := ih w.length (Nat.lt_succ_of_lt hshort) hw he hbehind rfl
          have hpast : c.past ('<' :: (u ++ w)) = e.past w := by
            rw [hend, ← past_append, List.cons_append]
          exact .tag hread (hpast ▸ hout)
      · rw [if_neg (by simp [hless])] at h
        exact htext (fun heq => absurd heq hless) h

/-- Behind a tag is outside of tags, in a value is not. -/
example : Place.behind none ['<', 'b', '>'] (.hole :: closers) = none ∧
    Place.behind none ['<', 'a', ' ', 'b', '=', '"'] (.hole :: closers) = some (.quoted '"') :=
      ⟨rfl, rfl⟩

end

end Templating.Markup
