import Templating.Proofs.Text.Ahead
import Templating.Text.Name

/-! Reading a text by the offsets of its bytes. A slice that does not begin and end at places in the
text is refused, and a loop may need more turns than it is given; what is read otherwise is the
value that an attempt settles to. -/
namespace Templating.Offset
open Text (Cursor cutAt? byteSize isBlank)
open Text.Cursor

inductive Halt where
  /-- A slice with an end that is no place in the text, or with its ends the wrong way round. -/
  | cut
  /-- More turns of a loop than there are. -/
  | turns
  /-- A tag with a slash that does not end it, if that is heeded. -/
  | slash
  deriving DecidableEq, Repr

abbrev Attempt := Except Halt

/-! Slices -/

def onward (i : Nat) (text : List Char) : Attempt (List Char) :=
  match cutAt? i text with
  | some (_, behind) => .ok behind
  | none => .error .cut

def upTo (i : Nat) (text : List Char) : Attempt (List Char) :=
  match cutAt? i text with
  | some (before, _) => .ok before
  | none => .error .cut

def between (i j : Nat) (text : List Char) : Attempt (List Char) :=
  if j < i then .error .cut else upTo j text >>= onward i

def skipWhile (p : Char → Bool) (text : List Char) (i : Nat) : Attempt Nat := do
  let rest ← onward i text
  return i + byteSize (rest.takeWhile p)

theorem pure_eq {α : Type} (a : α) : (pure a : Attempt α) = .ok a := rfl

theorem bind_ok {α β : Type} (a : α) (f : α → Attempt β) : ((.ok a : Attempt α) >>= f) = f a := rfl

section
variable {text u v : List Char} {c : Cursor}

theorem onward_at (hc : c.text = text) : onward c.offset text = .ok c.rest := by
  rw [onward, ← hc, c.cutAt?_offset]

theorem upTo_at (hc : c.text = text) : upTo c.offset text = .ok c.before.reverse := by
  rw [upTo, ← hc, c.cutAt?_offset]

theorem exists_of_onward {i : Nat} (h : onward i text = .ok v) :
    ∃ c : Cursor, c.text = text ∧ c.offset = i ∧ c.rest = v := by
  unfold onward at h
  split at h
  next a b hcut =>
    obtain rfl := Except.ok.inj h
    obtain ⟨c, htext, hoffset, -, hrest⟩ := exists_of_cutAt? hcut
    exact ⟨c, htext, hoffset, hrest⟩
  · cases h

theorem between_at (hc : c.text = text) (h : c.rest = u ++ v) :
    between c.offset (c.past u).offset text = .ok u := by
  have hpast : (c.past u).text = text := by rw [past, text_forward, hc]
  have hle := (ahead_past c u).offset_le
  have hbefore : (c.past u).before.reverse = c.before.reverse ++ u := by
    rw [past, before_forward, h, List.take_left, List.reverse_append, List.reverse_reverse]
  have hstart : onward c.offset (c.before.reverse ++ u) = .ok u := by
    have hcut := Text.cutAt?_byteSize c.before.reverse u
    rw [Text.byteSize_reverse, ← c.offset_eq] at hcut
    rw [onward, hcut]
  rw [between, if_neg (Nat.not_lt.mpr hle), upTo_at hpast, hbefore]
  exact hstart

theorem between_ahead {d : Cursor} (hc : c.text = text) (hd : Ahead c d)
    (hu : c.rest = u ++ d.rest) :
    between c.offset d.offset text = .ok u := by
  obtain ⟨k, rfl⟩ := hd
  have htake : u = c.rest.take k := by
    rw [rest_forward] at hu
    exact List.append_cancel_right (hu.symm.trans (List.take_append_drop k c.rest).symm)
  rw [← past_take c k, ← htake]
  exact between_at hc hu

theorem skipWhile_at (hc : c.text = text) (p : Char → Bool) :
    skipWhile p text c.offset = .ok (c.skip p).offset := by
  rw [skipWhile, onward_at hc, offset_skip]
  rfl

theorem offset_one {x : Char} {r : List Char} (h : c.rest = x :: r) (hx : x.utf8Size = 1) :
    c.offset + 1 = (c.forward 1).offset := by
  rw [offset_forward_one h, hx]

theorem offset_two {x y : Char} {r : List Char} (h : c.rest = x :: y :: r) (hx : x.utf8Size = 1)
    (hy : y.utf8Size = 1) :
    c.offset + 2 = (c.forward 2).offset := by
  have hnext : (c.forward 1).rest = y :: r := by simp [h]
  rw [← forward_forward 1 1, ← offset_one hnext hy, ← offset_one h hx]

theorem byteSize_ascii (hu : ∀ x ∈ u, x.utf8Size = 1) : byteSize u = u.length := by
  induction u with
  | nil => rfl
  | cons x u ih =>
    rw [byteSize, hu x List.mem_cons_self, ih fun y hy => hu y (List.mem_cons_of_mem x hy),
      List.length_cons, Nat.add_comm]

theorem offset_past_ascii (h : c.rest = u ++ v) (hu : ∀ x ∈ u, x.utf8Size = 1) :
    c.offset + u.length = (c.past u).offset := by
  rw [past, offset_forward h, byteSize_ascii hu]

end

/-! Loops -/

/-- A turn of a loop: its last, or one after which it goes on from another state. -/
inductive Turn (σ ρ : Type) where
  | last (r : ρ)
  | next (s : σ)

def loop {σ ρ : Type} (turn : σ → Attempt (Turn σ ρ)) : Nat → σ → Attempt ρ
  | 0, _ => .error .turns
  | k + 1, s => do
    match ← turn s with
    | .last r => return r
    | .next s => loop turn k s

/-- The attempt gives the value unless turns are lacking, which they are not if there is enough of
something, or a slash is heeded. -/
structure Settles {α : Type} (heed enough : Prop) (a : Attempt α) (v : α) : Prop where
  value : a = .ok v ∨ a = .error .turns ∨ heed ∧ a = .error .slash
  returns : enough → a ≠ .error .turns

section
variable {α β : Type} {heed enough : Prop} {a : Attempt α} {v : α}

theorem settles_ok (h : a = .ok v) : Settles heed enough a v := by
  subst h
  exact ⟨.inl rfl, fun _ h => by cases h⟩

theorem settles_slash (v : α) (hheed : heed) : Settles heed enough (.error .slash) v :=
  ⟨.inr (.inr ⟨hheed, rfl⟩), fun _ h => by cases h⟩

theorem Settles.weaken {heed' enough' : Prop} (h : Settles heed' enough' a v) (hheed : heed' → heed)
    (henough : enough → enough') :
    Settles heed enough a v :=
  ⟨h.value.imp_right (Or.imp_right (And.imp_left hheed)), fun he => h.returns (henough he)⟩

theorem Settles.bind {f : α → Attempt β} {w : β} (h : Settles heed enough a v)
    (hf : Settles heed enough (f v) w) :
    Settles heed enough (a >>= f) w := by
  obtain ⟨hvalue, hreturns⟩ := h
  rcases hvalue with rfl | rfl | ⟨hheed, rfl⟩
  · exact hf
  · exact ⟨.inr (.inl rfl), fun he => absurd rfl (hreturns he)⟩
  · exact settles_slash w hheed

theorem Settles.eq_of_ok (h : Settles heed enough a v) {w : α} (hw : a = .ok w) : w = v := by
  rcases h.value with hv | hv | ⟨-, hv⟩
  · exact Except.ok.inj (hw.symm.trans hv)
  · cases hw.symm.trans hv
  · cases hw.symm.trans hv

end

/-- A loop comes to its result if each turn ends it or brings it closer, and no turn goes wrong; or
it never ends, which is then not promised. -/
theorem loop_settles {σ ρ : Type} {turn : σ → Attempt (Turn σ ρ)} {heed : Prop} (enough : Prop)
    (comes : Nat → σ → ρ → Prop)
    (hturn : ∀ m s r, comes m s r → (∃ u, Settles heed enough (turn s) u ∧
      (u = .last r ∨ ∃ s' m', u = .next s' ∧ m' < m ∧ comes m' s' r)) ∨ ¬ enough ∧ ∀ k,
        loop turn k s = .error .turns)
    (k m : Nat) (s : σ) (r : ρ) (h : comes m s r) :
    Settles heed (enough ∧ m < k) (loop turn k s) r := by
  induction k generalizing m s with
  | zero => exact ⟨.inr (.inl rfl), fun he => absurd he.2 (Nat.not_lt_zero m)⟩
  | succ k ih =>
    rcases hturn m s r h with ⟨u, hu, hend⟩ | ⟨hnot, hever⟩
    · refine Settles.bind (hu.weaken id And.left) ?_
      rcases hend with rfl | ⟨s', m', rfl, hless, hcomes⟩
      · exact settles_ok rfl
      · exact (ih m' s' hcomes).weaken id (And.imp_right fun hk => by omega)
    · exact ⟨.inr (.inl (hever (k + 1))), fun he => absurd he.1 hnot⟩

/-- A turn at a place in the text settles, to the end of the loop with the result, or to another
turn further on. -/
def Advances {σ ρ : Type} (heed enough : Prop) (a : Attempt (Turn σ ρ)) (c : Cursor) (r : ρ)
    (again : Cursor → σ → Prop) : Prop :=
  ∃ u, Settles heed enough a u ∧ (u = .last r ∨ ∃ s d, u = .next s ∧ Beyond c d ∧ again d s)

section
variable {σ ρ : Type} {heed enough : Prop} {c : Cursor} {r : ρ} {again : Cursor → σ → Prop}

theorem advances_last {a : Attempt (Turn σ ρ)} (h : Settles heed enough a (.last r)) :
    Advances heed enough a c r again :=
  ⟨_, h, .inl rfl⟩

theorem advances_next {a : Attempt (Turn σ ρ)} {s : σ} {d : Cursor}
    (h : Settles heed enough a (.next s)) (hd : Beyond c d)
    (hagain : again d s) : Advances heed enough a c r again := ⟨_, h, .inr ⟨s, d, rfl, hd, hagain⟩⟩

theorem Advances.bind {α : Type} {a : Attempt α} {v : α} {f : α → Attempt (Turn σ ρ)}
    (h : Settles heed enough a v)
    (hf : Advances heed enough (f v) c r again) : Advances heed enough (a >>= f) c r again := by
  obtain ⟨u, hu, hend⟩ := hf
  exact ⟨u, h.bind hu, hend⟩

theorem Advances.weaken {heed' enough' : Prop} {a : Attempt (Turn σ ρ)}
    (h : Advances heed' enough' a c r again)
    (hheed : heed' → heed) (henough : enough → enough') : Advances heed enough a c r again := by
  obtain ⟨u, hu, hend⟩ := h
  exact ⟨u, hu.weaken hheed henough, hend⟩

theorem Advances.beyond {a : Attempt (Turn σ ρ)} {s : σ} (h : Advances heed enough a c r again)
    (ha : a = .ok (.next s)) :
    ∃ d, Beyond c d ∧ again d s := by
  obtain ⟨u, hu, hend⟩ := h
  have heq := hu.eq_of_ok ha
  rcases hend with rfl | ⟨s', d, rfl, hd, hagain⟩
  · cases heq
  · cases heq
    exact ⟨d, hd, hagain⟩

theorem Advances.eq_last {a : Attempt (Turn σ ρ)} {r' : ρ} (h : Advances heed enough a c r again)
    (ha : a = .ok (.last r')) :
    r' = r := by
  obtain ⟨u, hu, hend⟩ := h
  have heq := hu.eq_of_ok ha
  rcases hend with rfl | ⟨s, d, rfl, -, -⟩ <;> cases heq
  rfl

end

/-- A loop whose turns go on in the text comes to its result with one turn for each character that
is left, and one more. -/
theorem loop_advances {σ ρ : Type} {turn : σ → Attempt (Turn σ ρ)} {heed : Prop} (enough : Prop)
    (comes : Cursor → σ → ρ → Prop)
    (hturn : ∀ c s r, comes c s r → Advances heed enough (turn s) c r (fun d s' => comes d s' r) ∨
      ¬ enough ∧ ∀ k, loop turn k s = .error .turns)
    {k : Nat} {c : Cursor} {s : σ} {r : ρ} (h : comes c s r) :
    Settles heed (enough ∧ c.rest.length < k) (loop turn k s) r := by
  refine loop_settles enough (fun m s r => ∃ c, c.rest.length = m ∧ comes c s r) ?_ k c.rest.length
    s r ⟨c, rfl, h⟩
  rintro m s r ⟨c, rfl, hcomes⟩
  refine (hturn c s r hcomes).imp_left ?_
  rintro ⟨u, hu, hend⟩
  exact ⟨u, hu, hend.imp_right fun ⟨s', d, hs, hd, hagain⟩ =>
    ⟨s', d.rest.length, hs, hd.shorter, d, rfl, hagain⟩⟩

theorem loop_steps {σ ρ : Type} {turn : σ → Attempt (Turn σ ρ)} {heed : Prop} (enough : Prop)
    (goes : Nat → Cursor → σ → ρ → Prop) {l : Nat} (hturn : ∀ m c s r, c.rest.length ≤ m →
      c.rest.length ≤ l → goes (m + 1) c s r →
      Advances heed enough (turn s) c r (fun d s' => goes m d s' r) ∨ ¬ enough ∧ ∀ k,
        loop turn k s = .error .turns)
    {k m : Nat} {c : Cursor} {s : σ} {r : ρ} (h : goes m c s r) (hm : c.rest.length < m)
    (hl : c.rest.length ≤ l) :
    Settles heed (enough ∧ c.rest.length < k) (loop turn k s) r := by
  refine loop_advances enough (fun c s r => c.rest.length ≤ l ∧ ∃ m, c.rest.length < m ∧
    goes m c s r) ?_ ⟨hl, m, hm, h⟩
  rintro c s r ⟨hl, m, hm, hgoes⟩
  obtain ⟨m, rfl⟩ : ∃ m', m = m' + 1 := ⟨m - 1, by omega⟩
  refine (hturn m c s r (Nat.le_of_lt_succ hm) hl hgoes).imp_left ?_
  rintro ⟨u, hu, hend⟩
  refine ⟨u, hu, hend.imp_right ?_⟩
  rintro ⟨s', d, hs, hd, hagain⟩
  have hshorter := hd.shorter
  exact ⟨s', d, hs, hd, by omega, m, by omega, hagain⟩

end Templating.Offset
