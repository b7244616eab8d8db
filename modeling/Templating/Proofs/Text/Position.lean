import Templating.Proofs.Text.Listing
import Templating.Proofs.Text.Split

/-! Lines and columns keep the order of the offsets of a text, as far as they can be counted. A line
feed leads to the first column of the next line, and all other characters lead further along their
line, tabs to the next stop. The line of a position is the one that it is on. -/
namespace Templating
open Text (Cuts byteSize)

namespace Place
variable {p q r : Place} {a b cs : List Char}

/-- The place is on an earlier line, or further to the left on the same one. -/
def Before (p q : Place) : Prop := p.line < q.line ∨ p.line = q.line ∧ p.column < q.column

theorem Before.trans (h : p.Before q) (h' : q.Before r) : p.Before r := by
  unfold Before at *
  omega

/-- The second column is the first tab stop behind the other, where tab stops are the columns of the
form 4k + 1. -/
def NextStop (m n : Nat) : Prop := m < n ∧ n % 4 = 1 ∧ ∀ k, m < k → k % 4 = 1 → n ≤ k

/-- How a character leads from one place to the next. -/
def Leads (c : Char) (p q : Place) : Prop :=
  if c = '\n' then q.line = p.line + 1 ∧ q.column = 1
  else q.line = p.line ∧ if c = '\t' then NextStop p.column q.column else q.column = p.column + 1

def past (p : Place) (cs : List Char) : Place := cs.foldl after p

theorem past_append (p : Place) (a b : List Char) : p.past (a ++ b) = (p.past a).past b :=
  List.foldl_append

/-! One character -/

theorem nextStop_after {m : Nat} (hm : 1 ≤ m) : NextStop m (1 + ((m - 1) / 4 + 1) * 4) :=
  ⟨by omega, by omega, fun k _ _ => by omega⟩

theorem leads_after (hp : 1 ≤ p.column) (c : Char) : Leads c p (p.after c) := by
  unfold Leads after
  by_cases hfeed : c = '\n'
  · simp [hfeed]
  by_cases htab : c = '\t'
  · simpa [htab] using nextStop_after hp
  · simp [hfeed, htab]

theorem column_after (p : Place) (c : Char) : 1 ≤ (p.after c).column := by
  unfold after
  split
  · exact Nat.le_refl 1
  split
  · exact Nat.le_add_right 1 _
  · exact Nat.le_add_left 1 _

theorem before_after (p : Place) (c : Char) : p.Before (p.after c) := by
  unfold Before after
  split
  · exact .inl (Nat.lt_succ_self _)
  split
  · exact .inr ⟨rfl, by dsimp only; omega⟩
  · exact .inr ⟨rfl, Nat.lt_succ_self _⟩

theorem line_after (p : Place) (c : Char) : (p.after c).line = p.line + [c].count '\n' := by
  unfold after
  by_cases hfeed : c = '\n'
  · simp [hfeed]
  · by_cases htab : c = '\t' <;> simp [hfeed, htab]

/-! A run of them -/

theorem column_past (hp : 1 ≤ p.column) (cs : List Char) : 1 ≤ (p.past cs).column := by
  induction cs generalizing p with
  | nil => exact hp
  | cons c cs ih => exact ih (column_after p c)

theorem line_past (p : Place) (cs : List Char) : (p.past cs).line = p.line + cs.count '\n' := by
  induction cs generalizing p with
  | nil => rfl
  | cons c cs ih =>
    have hcount : ([c] ++ cs).count '\n' = [c].count '\n' + cs.count '\n' := List.count_append
    rw [← List.singleton_append, hcount, ← Nat.add_assoc, ← line_after]
    exact ih (p.after c)

theorem before_past (p : Place) {cs : List Char} (h : cs ≠ []) : p.Before (p.past cs) := by
  induction cs generalizing p with
  | nil => exact absurd rfl h
  | cons c cs ih =>
    have hone : p.Before (p.after c) := before_after p c
    cases cs with
    | nil => exact hone
    | cons d cs => exact hone.trans (ih (p.after c) (List.cons_ne_nil d cs))

theorem advance?_append {n : Nat} (h : byteSize a = n ∨ b = [] ∧ byteSize a ≤ n) (p : Place) :
    p.advance? n (a ++ b) = some (p.past a) := by
  induction a generalizing p n with
  | nil =>
    rcases h with rfl | ⟨rfl, -⟩
    · cases b <;> rfl
    · cases n <;> rfl
  | cons c a ih =>
    have hpos := c.utf8Size_pos
    simp only [byteSize] at h
    obtain ⟨n, rfl⟩ : ∃ k, n = k + 1 := ⟨n - 1, by omega⟩
    rw [List.cons_append, advance?, if_neg (by omega)]
    exact ih (h.imp (by omega) fun h => ⟨h.1, by omega⟩) (p.after c)

theorem advance?_le (hp : 1 ≤ p.column) {n : Nat} (h : p.advance? n cs = some q) :
    q.line ≤ p.line + cs.length ∧ q.column ≤ p.column + 4 * cs.length := by
  induction cs generalizing p n with
  | nil =>
    obtain rfl : p = q := by cases n <;> exact Option.some.inj h
    exact ⟨Nat.le_refl _, Nat.le_refl _⟩
  | cons c cs ih =>
    have hone : (p.after c).line ≤ p.line + 1 ∧ (p.after c).column ≤ p.column + 4 := by
      unfold after
      split
      · exact ⟨Nat.le_refl _, Nat.le_add_left ..⟩
      split
      · exact ⟨Nat.le_succ _, by dsimp only; omega⟩
      · exact ⟨Nat.le_succ _, by dsimp only; omega⟩
    cases n with
    | zero =>
      obtain rfl : p = q := Option.some.inj h
      exact ⟨Nat.le_add_right .., Nat.le_add_right ..⟩
    | succ n =>
      rw [advance?] at h
      split at h
      · cases h
      obtain ⟨hline, hcolumn⟩ := ih (column_after p c) h
      rw [List.length_cons]
      omega

end Place

/-! Positions in a source -/

def Position.place (p : Position) : Place := ⟨p.line, p.column⟩

/-- The line and the column of the place at an offset are numbers of 32 bits. -/
def Source.Counted (s : Source) (i : Nat) : Prop :=
  ∀ p, s.place? i = some p → p.line < UInt32.size ∧ p.column < UInt32.size

theorem Place.exists_position? {p : Place} (hline : 1 ≤ p.line)
    (hp : p.line < UInt32.size ∧ p.column < UInt32.size) :
    ∃ a, p.position? = some a ∧ a.place = p := by
  have hnumber : p.lineNumber = p.line := by
    rw [lineNumber, Nat.mod_eq_of_lt (by omega)]
    omega
  rw [← hnumber] at hp
  obtain ⟨a, ha⟩ : ∃ a, p.position? = some a := ⟨_, dif_pos hp⟩
  obtain ⟨hline, hcolumn⟩ := of_position? ha
  exact ⟨a, ha, by rw [Position.place, hline, hcolumn, hnumber]⟩

namespace Source
variable {s : Source} {a b : List Char} {i j : Nat}

theorem place?_byteSize (h : s.text.toList = a ++ b) :
    s.place? (byteSize a) = some (Place.past ⟨1, 1⟩ a) := by
  rw [place?, h]
  exact Place.advance?_append (.inl rfl) _

theorem place?_of_size_le (h : s.size ≤ i) :
    s.place? i = some (Place.past ⟨1, 1⟩ s.text.toList) := by
  rw [size_eq] at h
  have hall := Place.advance?_append (b := []) (.inr ⟨rfl, h⟩) ⟨1, 1⟩
  rwa [List.append_nil] at hall

theorem exists_position? (h : s.text.toList = a ++ b) (hcounted : s.Counted (byteSize a)) :
    ∃ p, s.position? (byteSize a) = some p ∧ p.place = Place.past ⟨1, 1⟩ a := by
  have hplace := place?_byteSize h
  have hline : 1 ≤ (Place.past ⟨1, 1⟩ a).line := by
    rw [Place.line_past]
    exact Nat.le_add_right 1 _
  obtain ⟨p, hp, hpast⟩ := Place.exists_position? hline (hcounted _ hplace)
  exact ⟨p, by rw [position?, hplace, Option.bind_some, hp], hpast⟩

theorem before_of_lt (hi : Cuts s.text.toList i) (hj : Cuts s.text.toList j) (h : i < j)
    (hi' : s.Counted i) (hj' : s.Counted j) :
    ∃ p q, s.position? i = some p ∧ s.position? j = some q ∧ p.place.Before q.place := by
  obtain ⟨a, a', ha, rfl⟩ := hi
  obtain ⟨b, b', hb, rfl⟩ := hj
  obtain ⟨c, rfl⟩ : a <+: b :=
    Text.prefix_of_byteSize_le ⟨a', ha.symm⟩ ⟨b', hb.symm⟩ (Nat.le_of_lt h)
  obtain ⟨p, hp, hpast⟩ := exists_position? ha hi'
  obtain ⟨q, hq, hqast⟩ := exists_position? hb hj'
  refine ⟨p, q, hp, hq, ?_⟩
  rw [hpast, hqast, Place.past_append]
  refine Place.before_past _ fun hc => ?_
  rw [hc, List.append_nil] at h
  exact Nat.lt_irrefl _ h

theorem length_le_size (s : Source) : s.text.toList.length ≤ s.size := by
  have hle : ∀ cs : List Char, cs.length ≤ byteSize cs := by
    intro cs
    induction cs with
    | nil => exact Nat.le_refl 0
    | cons c cs ih =>
      have hpos := c.utf8Size_pos
      simp only [List.length_cons, byteSize]
      omega
  rw [size_eq]
  exact hle _

theorem place_le {p : Place} (h : s.place? i = some p) :
    p.line ≤ 1 + s.size ∧ p.column ≤ 1 + 4 * s.size := by
  obtain ⟨hline, hcolumn⟩ := Place.advance?_le (Nat.le_refl 1) h
  have hlength := s.length_le_size
  exact ⟨hline.trans (by dsimp only; omega), hcolumn.trans (by dsimp only; omega)⟩

theorem counted_of_size_lt (h : 4 * s.size < UInt32.size) (i : Nat) : s.Counted i := by
  intro p hp
  obtain ⟨hline, hcolumn⟩ := place_le hp
  simp only [UInt32.size] at h ⊢
  omega

end Source

theorem Location.not_wide_of_size_lt {l : Location} (h : 4 * l.source.size < UInt16.size) :
    ¬ l.Wide := by
  rintro ⟨p, q, hp, hq, hwide⟩
  obtain ⟨hpline, hpcolumn⟩ := Source.place_le hp
  obtain ⟨hqline, hqcolumn⟩ := Source.place_le hq
  unfold Place.Lost Place.lineNumber at hwide
  simp only [UInt16.size, UInt32.size] at h hwide
  omega

/-! The line of a position -/

namespace Text

/-- The line in which a text is cut in two, without the returns and the feed that end it. -/
def LineAt (a b t : List Char) : Prop :=
  ∃ u l m v, a = u ++ l ∧ b = m ++ v ∧ (∀ x ∈ u.getLast?, x = '\n') ∧ '\n' ∉ l ++ m ∧
    (∀ x ∈ v.head?, x = '\n') ∧
    ∃ returns, l ++ m = t ++ returns ∧ (∀ x ∈ returns, x = '\r') ∧ t.getLast? ≠ some '\r'

theorem exists_lineStart (a : List Char) : ∃ u l, a = u ++ l ∧ (∀ x ∈ u.getLast?, x = '\n') ∧
    '\n' ∉ l := by
  obtain ⟨l, ha, hl, hu⟩ := exists_dropEndWhile (· != '\n') a
  exact ⟨_, l, ha, fun x hx => by simpa using hu x hx, fun h => by simpa using hl _ h⟩

theorem exists_lineEnd (b : List Char) :
    ∃ m v, b = m ++ v ∧ '\n' ∉ m ∧ ∀ x ∈ v.head?, x = '\n' := by
  refine ⟨b.takeWhile (· != '\n'), b.dropWhile (· != '\n'), List.takeWhile_append_dropWhile.symm,
    fun h => ?_, fun x hx => ?_⟩
  · simpa using List.all_eq_true.mp List.all_takeWhile _ h
  · simpa using head?_dropWhile (· != '\n') b x hx

/-- The pieces between the feeds are the lines, and before a line there are as
many feeds as lines. -/
theorem exists_lineAt (a b : List Char) :
    ∃ l t, (splitAt (· == '\n') (a ++ b))[a.count '\n']? = some l ∧
    t = dropEndWhile (fun c => c == '\n' || c == '\r') l ∧ LineAt a b t := by
  obtain ⟨u, l, rfl, hu, hl⟩ := exists_lineStart a
  obtain ⟨m, v, rfl, hm, hv⟩ := exists_lineEnd b
  have hclear : '\n' ∉ l ++ m := by simp [hl, hm]
  have hcount : (u ++ l).count '\n' = u.countP (· == '\n') := by
    rw [List.count_append, List.count_eq_zero_of_not_mem hl]
    rfl
  obtain ⟨returns, hline, hreturns, hlast⟩ :=
    exists_dropEndWhile (fun c => c == '\n' || c == '\r') (l ++ m)
  refine ⟨l ++ m, _, ?_, rfl, u, l, m, v, rfl, rfl, hu, hclear, hv, returns, hline, fun x hx =>
    ?_, fun hreturn => ?_⟩
  · have hpiece :=
      getElem?_splitAt (p := (· == '\n')) (u := u) (s := l ++ m) (v := v)
      (fun x hx => by simp [hu x hx])
      (fun x hx => beq_false_of_ne fun h => hclear (h ▸ hx)) (fun x hx => by simp [hv x hx])
    rw [hcount]
    simpa using hpiece
  · have hfeed : x ≠ '\n' := fun h => hclear (by rw [hline, ← h]; exact List.mem_append_right _ hx)
    simpa [hfeed] using hreturns x hx
  · simpa using hlast _ hreturn

end Text

theorem Source.exists_line? {s : Source} {a b : List Char} (h : s.text.toList = a ++ b) :
    ∃ t, s.line? (1 + a.count '\n') = some (.ofList t) ∧ Text.LineAt a b t := by
  obtain ⟨l, t, hl, rfl, ht⟩ := Text.exists_lineAt a b
  refine ⟨_, ?_, ht⟩
  rw [Nat.add_comm, line?, h, hl]
  rfl

/-- Lines and columns of the places in a text, as far as they can be counted, which they all can in
a text of less than a gibibyte. The text begins at the first column of the first line, and each
character leads to the next place. The line is one more than the feeds before, it is the text of
that line that is read under its number, and a place further on has a greater position. Behind the
end of the text is its end. -/
theorem positions_ordered (s : Source) : (4 * s.size < UInt32.size → ∀ i, s.Counted i) ∧
    (∃ p, s.position? 0 = some p ∧ p.place = ⟨1, 1⟩) ∧
    (∀ a b, s.text.toList = a ++ b → s.Counted (byteSize a) →
      ∃ p, s.position? (byteSize a) = some p ∧
      p.line = 1 + a.count '\n' ∧ 1 ≤ p.column ∧
      (∀ c b', b = c :: b' → s.Counted (byteSize (a ++ [c])) →
        ∃ q, s.position? (byteSize (a ++ [c])) = some q ∧ Place.Leads c p.place q.place) ∧
      ∃ t, s.line? p.line = some (.ofList t) ∧ Text.LineAt a b t) ∧
    (∀ i j, Cuts s.text.toList i → Cuts s.text.toList j → i < j → s.Counted i → s.Counted j →
      ∃ p q, s.position? i = some p ∧ s.position? j = some q ∧ p.place.Before q.place) ∧
    ∀ i, s.size ≤ i → s.position? i = s.position? s.size := by
  have hfirst : s.place? 0 = some ⟨1, 1⟩ := Source.place?_byteSize (a := []) rfl
  refine ⟨Source.counted_of_size_lt,
    ⟨⟨1, 1, by decide, by decide⟩, by rw [Source.position?, hfirst]; rfl, rfl⟩,
    fun a b h hcounted => ?placed, fun i j => Source.before_of_lt, fun i h => ?behind⟩
  case placed =>
    have hcolumn : 1 ≤ (Place.past ⟨1, 1⟩ a).column := Place.column_past (Nat.le_refl 1) a
    obtain ⟨p, hp, hpast⟩ := Source.exists_position? h hcounted
    have hline : p.line = 1 + a.count '\n' := (congrArg (·.line) hpast).trans (Place.line_past _ a)
    refine ⟨p, hp, hline, hcolumn.trans_eq (congrArg (·.column) hpast).symm, ?_, ?_⟩
    · rintro c b' rfl hnext
      have hsplit : s.text.toList = (a ++ [c]) ++ b' := by
        rw [h, List.append_assoc, List.singleton_append]
      obtain ⟨q, hq, hqast⟩ := Source.exists_position? hsplit hnext
      refine ⟨q, hq, ?_⟩
      rw [hpast, hqast, Place.past_append]
      exact Place.leads_after hcolumn c
    · rw [hline]
      exact Source.exists_line? h
  case behind =>
    rw [Source.position?, Source.position?, Source.place?_of_size_le h,
      Source.place?_of_size_le (Nat.le_refl _)]

def accented : Source := ⟨"page", "a\né\tb\r\r\n"⟩

theorem positions_ordered_accented :
    (∃ p q, accented.position? 2 = some p ∧ accented.position? 5 = some q ∧ p.place.Before q.place ∧
      q.place = ⟨2, 5⟩) ∧
      ∃ t, accented.line? 2 = some (.ofList t) ∧
        Text.LineAt ['a', '\n', 'é', '\t'] ['b', '\r', '\r', '\n'] t := by
  obtain ⟨hcounted, -, hplaced, hordered, -⟩ := positions_ordered accented
  have hsmall : 4 * accented.size < UInt32.size := by decide
  obtain ⟨p, hp, -, -, -, t, ht, hline⟩ :=
    hplaced ['a', '\n', 'é', '\t'] ['b', '\r', '\r', '\n'] rfl (hcounted hsmall _)
  have hfive : (accented.position? 5).map Position.place = some ⟨2, 5⟩ := rfl
  have hpfive : p.place = ⟨2, 5⟩ := Option.some.inj (((congrArg _ hp).symm).trans hfive)
  have hptwo : p.line = 2 := congrArg (·.line) hpfive
  obtain ⟨q, r, hq, hr, hbefore⟩ :=
    hordered 2 5 ⟨['a', '\n'], _, rfl, rfl⟩ ⟨['a', '\n', 'é', '\t'], _, rfl, rfl⟩ (by decide)
      (hcounted hsmall _) (hcounted hsmall _)
  obtain rfl : p = r := Option.some.inj (hp.symm.trans hr)
  exact ⟨⟨q, p, hq, hr, hbefore, hpfive⟩, t, hptwo ▸ ht, hline⟩

end Templating
