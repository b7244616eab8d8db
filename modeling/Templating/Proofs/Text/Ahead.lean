import Templating.Proofs.Text.Cursor

/-! Cursors that move on in one text, and the offsets at which a text can be cut: they are those of
the cursors in it. -/
namespace Templating.Text

/-- The offset is between two characters of the text or at one of its ends. -/
def Cuts (text : List Char) (i : Nat) : Prop := ∃ a b, text = a ++ b ∧ i = byteSize a

theorem Cuts.le {text : List Char} {i : Nat} (h : Cuts text i) : i ≤ byteSize text := by
  obtain ⟨a, b, rfl, rfl⟩ := h
  simp

theorem cutAt?_byteSize (a b : List Char) : cutAt? (byteSize a) (a ++ b) = some (a, b) := by
  induction a with
  | nil => cases b <;> rfl
  | cons c a ih =>
    have hpos : 0 < c.utf8Size := c.utf8Size_pos
    obtain ⟨n, hn⟩ : ∃ n, byteSize (c :: a) = n + 1 :=
      ⟨byteSize (c :: a) - 1, by simp only [byteSize]; omega⟩
    have hfits : ¬ n + 1 < c.utf8Size := by
      rw [← hn]
      simp only [byteSize]
      omega
    have hrest : n + 1 - c.utf8Size = byteSize a := by
      rw [← hn]
      simp only [byteSize]
      omega
    rw [hn, List.cons_append, cutAt?, if_neg hfits, hrest, ih]
    rfl

theorem byteSize_pos {cs : List Char} (h : cs ≠ []) : 0 < byteSize cs := by
  cases cs with
  | nil => exact absurd rfl h
  | cons c cs =>
    have hpos := c.utf8Size_pos
    simp only [byteSize]
    omega

theorem prefix_of_byteSize_le {text u w : List Char} (hu : u <+: text) (hw : w <+: text)
    (h : byteSize u ≤ byteSize w) :
    u <+: w := by
  rcases List.prefix_or_prefix_of_prefix hu hw with hfront | ⟨r, rfl⟩
  · exact hfront
  · cases r with
    | nil => exact ⟨[], by simp⟩
    | cons x r =>
      have hpos := byteSize_pos (List.cons_ne_nil x r)
      rw [byteSize_append] at h
      omega

theorem append_inj_of_byteSize {a b a' b' : List Char} (h : a ++ b = a' ++ b')
    (hsize : byteSize a = byteSize a') :
    a = a' ∧ b = b' := by
  have hle := prefix_of_byteSize_le ⟨b, rfl⟩ ⟨b', h.symm⟩ (Nat.le_of_eq hsize)
  have hge := prefix_of_byteSize_le ⟨b', h.symm⟩ ⟨b, rfl⟩ (Nat.le_of_eq hsize.symm)
  obtain rfl := hle.eq_of_length_le hge.length_le
  exact ⟨rfl, List.append_cancel_left h⟩

namespace Cursor
variable {c d e : Cursor} {u v : List Char}

theorem size_eq (c : Cursor) : c.size = byteSize c.text := by
  simp [size, text, c.offset_eq]

theorem cutAt?_offset (c : Cursor) : cutAt? c.offset c.text = some (c.before.reverse, c.rest) := by
  have h := cutAt?_byteSize c.before.reverse c.rest
  rwa [byteSize_reverse, ← c.offset_eq] at h

theorem cuts_offset (c : Cursor) : Cuts c.text c.offset :=
  ⟨c.before.reverse, c.rest, rfl, by simp [c.offset_eq]⟩

theorem exists_of_cutAt? {cs a b : List Char} {i : Nat} (h : cutAt? i cs = some (a, b)) :
    ∃ c : Cursor, c.text = cs ∧ c.offset = i ∧ c.before = a.reverse ∧ c.rest = b := by
  obtain ⟨htext, hsize⟩ := append_of_cutAt? h
  exact ⟨⟨a.reverse, b, i, by simp [hsize]⟩, by simp [text, htext], rfl, rfl, rfl⟩

theorem offset_forward (h : c.rest = u ++ v) :
    (c.forward u.length).offset = c.offset + byteSize u := by
  rw [(c.forward u.length).offset_eq, before_forward, c.offset_eq, h, List.take_left,
    byteSize_append, byteSize_reverse,
    Nat.add_comm]

theorem rest_forward_one {x : Char} {r : List Char} (h : c.rest = x :: r) :
    (c.forward 1).rest = r := by
  rw [rest_forward, h]
  rfl

theorem offset_forward_one {x : Char} {r : List Char} (h : c.rest = x :: r) :
    (c.forward 1).offset = c.offset + x.utf8Size := by
  have hforward := offset_forward (u := [x]) (v := r) h
  simpa [byteSize] using hforward

theorem offset_skip (p : Char → Bool) (c : Cursor) :
    (c.skip p).offset = c.offset + byteSize (c.rest.takeWhile p) :=
  offset_forward List.takeWhile_append_dropWhile.symm

theorem past_take (c : Cursor) (k : Nat) : c.past (c.rest.take k) = c.forward k := by
  refine ext ?_ ?_ <;> simp [past, before_forward]

theorem past_append (c : Cursor) (u v : List Char) : c.past (u ++ v) = (c.past u).past v := by
  rw [past, past, past, forward_forward, List.length_append]

theorem past_cons (c : Cursor) (x : Char) (u : List Char) :
    c.past (x :: u) = (c.forward 1).past u := by
  rw [past, past, forward_forward, List.length_cons, Nat.add_comm]

theorem offset_toEnd (c : Cursor) : c.toEnd.offset = c.size := by
  have h := offset_forward (c := c) (u := c.rest) (v := []) (by simp)
  exact h

/-! Moving on -/

/-- The second cursor is where the first is, or further on in the same text. -/
def Ahead (c d : Cursor) : Prop := ∃ k, d = c.forward k

theorem ahead_refl (c : Cursor) : Ahead c c := ⟨0, rfl⟩

theorem ahead_forward (c : Cursor) (k : Nat) : Ahead c (c.forward k) := ⟨k, rfl⟩

theorem ahead_past (c : Cursor) (cs : List Char) : Ahead c (c.past cs) := ⟨_, rfl⟩

theorem ahead_skip (c : Cursor) (p : Char → Bool) : Ahead c (c.skip p) := ⟨_, rfl⟩

theorem ahead_toEnd (c : Cursor) : Ahead c c.toEnd := ⟨_, rfl⟩

theorem Ahead.trans (h : Ahead c d) (h' : Ahead d e) : Ahead c e := by
  obtain ⟨k, rfl⟩ := h
  obtain ⟨l, rfl⟩ := h'
  exact ⟨k + l, forward_forward k l c⟩

section
variable (h : Ahead c d)
include h

theorem Ahead.text_eq : d.text = c.text := by
  obtain ⟨k, rfl⟩ := h
  exact text_forward k c

theorem Ahead.size_eq : d.size = c.size := by rw [Cursor.size_eq, Cursor.size_eq, h.text_eq]

theorem Ahead.exists_read : ∃ u, c.rest = u ++ d.rest ∧ d.offset = c.offset + byteSize u := by
  obtain ⟨k, rfl⟩ := h
  refine ⟨c.rest.take k, by simp, ?_⟩
  rw [offset_eq, before_forward, byteSize_append, byteSize_reverse, c.offset_eq, Nat.add_comm]

theorem Ahead.offset_le : c.offset ≤ d.offset := by
  obtain ⟨u, -, hoffset⟩ := h.exists_read
  omega

theorem Ahead.length_le : d.rest.length ≤ c.rest.length := by
  obtain ⟨u, hrest, -⟩ := h.exists_read
  rw [hrest, List.length_append]
  omega

theorem Ahead.le_byteSize : d.offset ≤ byteSize c.text := by
  rw [← h.text_eq]
  exact d.cuts_offset.le

theorem Ahead.eq_past (hu : c.rest = u ++ d.rest) : d = c.past u := by
  obtain ⟨k, rfl⟩ := h
  have hfront : c.rest.take k ++ (c.forward k).rest = c.rest := by
    rw [rest_forward, List.take_append_drop]
  rw [← List.append_cancel_right (hfront.trans hu), past_take]

theorem Ahead.offset_eq (hu : c.rest = u ++ d.rest) : d.offset = c.offset + byteSize u := by
  rw [h.eq_past hu]
  exact offset_forward hu

theorem take_ahead : c.rest = c.rest.take (c.rest.length - d.rest.length) ++ d.rest := by
  obtain ⟨u, hu, -⟩ := h.exists_read
  have hlength : c.rest.length - d.rest.length = u.length := by
    rw [hu, List.length_append]
    omega
  rw [hlength]
  conv_rhs => rw [hu, List.take_left]
  exact hu

end

/-- The second cursor is further on in the same text. -/
structure Beyond (c d : Cursor) : Prop where
  ahead : Ahead c d
  shorter : d.rest.length < c.rest.length

theorem beyond_forward (h : c.rest ≠ []) (k : Nat) : Beyond c (c.forward (k + 1)) := by
  refine ⟨ahead_forward c _, ?_⟩
  have hpos := List.length_pos_of_ne_nil h
  rw [rest_forward, List.length_drop]
  omega

theorem beyond_past (h : c.rest ≠ []) {cs : List Char} (hcs : cs ≠ []) : Beyond c (c.past cs) := by
  obtain ⟨k, hk⟩ : ∃ k, cs.length = k + 1 :=
    ⟨cs.length - 1, by have := List.length_pos_of_ne_nil hcs; omega⟩
  rw [past, hk]
  exact beyond_forward h k

theorem beyond_skip {p : Char → Bool} {x : Char} {r : List Char} (h : c.rest = x :: r)
    (hx : p x = true) :
    Beyond c (c.skip p) :=
  beyond_past (by simp [h]) (by simp [h, hx])

theorem Beyond.trans (h : Beyond c d) (h' : Ahead d e) : Beyond c e :=
  ⟨h.ahead.trans h', Nat.lt_of_le_of_lt h'.length_le h.shorter⟩

theorem Ahead.beyond (h : Ahead c d) (h' : Beyond d e) : Beyond c e :=
  ⟨h.trans h'.ahead, Nat.lt_of_lt_of_le h'.shorter h.length_le⟩

theorem Beyond.offset_lt (h : Beyond c d) : c.offset < d.offset := by
  obtain ⟨u, hrest, hoffset⟩ := h.ahead.exists_read
  have hu : u ≠ [] := by
    rintro rfl
    have hshorter := h.shorter
    simp [hrest] at hshorter
  have hpos := byteSize_pos hu
  omega

end Cursor

end Templating.Text
