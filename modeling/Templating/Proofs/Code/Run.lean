import Templating.Proofs.Code.Scan

/-! A scan as a run through states: what a piece of text does to the state, whatever is open around
it and whatever stands before and behind it. -/
namespace Templating.Code

/-- What a scan is inside of, and the delimiters that are open. The number counts characters still
to pass over. -/
structure State where
  skip : Nat := 0
  mode : Mode := .code
  closers : List Char := []
  deriving DecidableEq

namespace State

def next? (s : State) (prev? : Option Char) (c : Char) (rest : List Char) : Option State :=
  match s.skip with
  | k + 1 => some { s with skip := k }
  | 0 =>
    match move (.closer ')') s.mode s.closers prev? c rest with
    | .go k mode closers => some ⟨k, mode, closers⟩
    | _ => none

/-- The state after a text, between a character and another text. -/
def run (prev? : Option Char) (after : List Char) (s : State) : List Char → Option State
  | [] => some s
  | c :: cs => (s.next? prev? c (cs ++ after)).bind fun t => t.run (some c) after cs

theorem run_append (p : Option Char) (after a b : List Char) (s : State) :
    s.run p after (a ++ b) = (s.run p (b ++ after) a).bind fun t =>
      t.run (a.getLast?.or p) after b := by
  induction a generalizing p s with
  | nil => rfl
  | cons c a ih =>
    simp only [List.cons_append, run, List.append_assoc]
    cases s.next? p c (a ++ (b ++ after)) with
    | none => rfl
    | some t =>
      show t.run (some c) after (a ++ b) = _
      rw [ih]
      have hlast : a.getLast?.or (some c) = (c :: a).getLast?.or p := by
        cases a <;> simp [List.getLast?_cons]
      rw [hlast]
      rfl

end State

/-! What stands behind a text -/

def special (c : Char) : Bool := ['\\', '\'', '"', '#', '/', '*', 'r', 'b'].contains c

theorem ne_of_not_special {c d : Char} (h : special c = false) (hd : special d = true) : c ≠ d := by
  rintro rfl
  rw [h] at hd
  cases hd

/-- The text begins with nothing that a character before it would look for. -/
def Mild (cs : List Char) : Prop := ∀ c, cs.head? = some c → special c = false

theorem mild_nil : Mild [] := fun c h => by cases h

theorem mild_cons {c : Char} {cs : List Char} : Mild (c :: cs) ↔ special c = false :=
  ⟨fun h => h c rfl, fun h d hd => by cases hd; exact h⟩

/-- An apostrophe looks two characters ahead. One that is followed by `a` and then `b`
finds none in `b`. -/
def Quiet (c : Char) (a b : List Char) : Prop := c = '\'' → a = [] → b.tail.head? ≠ some '\''

theorem Mild.rawGuards? {b : List Char} (h : Mild b) (a : List Char) :
    rawGuards? (a ++ b) = rawGuards? a := by
  induction a with
  | nil =>
    cases b with
    | nil => rfl
    | cons d b =>
      have hd := mild_cons.mp h
      have hguard : d ≠ '#' := ne_of_not_special hd (by decide)
      have hquote : d ≠ '"' := ne_of_not_special hd (by decide)
      simp [Code.rawGuards?, hguard, hquote]
  | cons c a ih =>
    by_cases hc : c = '#'
    · subst hc
      simp only [Code.rawGuards?] at ih
      simp only [Code.rawGuards?, List.cons_append, List.takeWhile_cons]
      simp only [beq_self_eq_true, if_true, List.length_cons, List.drop_succ_cons]
      split at ih <;> split at ih <;> simp_all
    · simp [Code.rawGuards?, hc]

theorem startsChar_eq (cs : List Char) :
    startsChar cs = (cs.head? == some '\\' || cs.tail.head? == some '\'') := by
  unfold startsChar
  split
  · rfl
  · simp
  next hescape hquoted =>
    match cs with
    | [] => rfl
    | [c] =>
      have hc : c ≠ '\\' := fun hc => hescape [] (by rw [hc])
      simp [hc]
    | c :: d :: cs =>
      have hc : c ≠ '\\' := fun hc => hescape (d :: cs) (by rw [hc])
      have hd : d ≠ '\'' := fun hd => hquoted c cs (by rw [hd])
      simp [hc, hd]

theorem Mild.startsChar {a b : List Char} (h : Mild b) (hq : Quiet '\'' a b) :
    startsChar (a ++ b) = startsChar a := by
  rw [startsChar_eq, startsChar_eq]
  match a with
  | [] =>
    have hquiet : b.tail.head? ≠ some '\'' := hq rfl rfl
    have hmild : b.head? ≠ some '\\' := fun hb => by cases h _ hb
    simpa [hmild] using hquiet
  | [x] =>
    have hmild : b.head? ≠ some '\'' := fun hb => by cases h _ hb
    simp [hmild]
  | x :: y :: a => rfl

theorem codeMove_slash {x : Char} {closers : List Char} (h : (closers.isEmpty && '/' == x) = false)
    (p : Option Char) (n : List Char) :
    codeMove (.closer x) closers p '/' n =
      if n.head? = some '/' then .go 1 .lineComment closers
      else if n.head? = some '*' then .go 1 (.blockComment 1) closers else .go 0 .code closers := by
  have hopen : closerOf? '/' = none := rfl
  have hclose : isCloser '/' = false := rfl
  simp only [codeMove, isStop, h, hopen, hclose, Bool.false_eq_true, if_false]
  cases n with
  | nil => rfl
  | cons d n => split <;> simp_all

theorem codeMove_bytes {x : Char} {closers : List Char} (h : (closers.isEmpty && 'b' == x) = false)
    (p : Option Char) (n : List Char) :
    codeMove (.closer x) closers p 'b' n =
      if n.head? = some 'r' then
        (if p.any Text.continuesName then none else rawGuards? n.tail).elim (.go 0 .code closers)
          fun k => .go (k + 2) (.raw k) closers
      else .go 0 .code closers := by
  have hopen : closerOf? 'b' = none := rfl
  have hclose : isCloser 'b' = false := rfl
  simp only [codeMove, isStop, h, hopen, hclose, Bool.false_eq_true, if_false]
  cases n with
  | nil => rfl
  | cons d n =>
    split
    next r heq =>
      obtain ⟨rfl, rfl⟩ := List.cons.inj heq
      simp only [List.head?_cons, List.tail_cons, if_true]
      split <;> simp_all
    next hne =>
      have hd : d ≠ 'r' := by
        rintro rfl
        exact hne n rfl
      simp [hd]

/-- Only five characters of code look at what follows them. -/
theorem codeMove_congr {x c : Char} {next next' : List Char} (closers : List Char) (p : Option Char)
    (hslash : c = '/' → ∀ d, d = '/' ∨ d = '*' → (next.head? = some d ↔ next'.head? = some d))
    (hquote : c = '\'' → startsChar next = startsChar next') (hraw : c = 'r' →
      rawGuards? next = rawGuards? next')
    (hbytes : c = 'b' → (next.head? = some 'r' ↔ next'.head? = some 'r') ∧
      (next.head? = some 'r' → rawGuards? next.tail = rawGuards? next'.tail)) :
    codeMove (.closer x) closers p c next = codeMove (.closer x) closers p c next' := by
  by_cases hstop : (closers.isEmpty && c == x) = true
  · simp only [codeMove, isStop, hstop, if_true]
  by_cases hc : c = '/'
  · subst hc
    rw [codeMove_slash (by simpa using hstop), codeMove_slash (by simpa using hstop)]
    simp only [hslash rfl '/' (.inl rfl), hslash rfl '*' (.inr rfl)]
  by_cases hb : c = 'b'
  · subst hb
    obtain ⟨hhead, htail⟩ := hbytes rfl
    rw [codeMove_bytes (by simpa using hstop), codeMove_bytes (by simpa using hstop)]
    by_cases h : next.head? = some 'r'
    · simp only [h, hhead.mp h, htail h]
    · have h' : ¬ next'.head? = some 'r' := fun h' => h (hhead.mpr h')
      simp only [h, h', if_false]
  unfold codeMove
  simp only [isStop, hstop, Bool.false_eq_true, if_false]
  cases closerOf? c with
  | some d => rfl
  | none =>
    by_cases hclose : isCloser c = true
    · simp only [hclose, if_true]
    simp only [hclose, Bool.false_eq_true, if_false]
    split
    next => exact absurd rfl hc
    next => rfl
    next => rw [hquote rfl]
    next => rw [hraw rfl]
    next => exact absurd rfl hb
    next => rfl

theorem Mild.head? {d : Char} {b : List Char} (h : Mild b) (hd : special d = true) (a : List Char) :
    (a ++ b).head? = some d ↔ a.head? = some d := by
  cases a with
  | nil =>
    have hb : b.head? ≠ some d := fun hb => by
      rw [h d hb] at hd
      cases hd
    simp [hb]
  | cons e a => rfl

theorem Mild.codeMove {x c : Char} {a b : List Char} (h : Mild b) (hq : Quiet c a b)
    (closers : List Char) (p : Option Char) :
    codeMove (.closer x) closers p c (a ++ b) = codeMove (.closer x) closers p c a := by
  refine codeMove_congr closers p ?slash ?quote (fun _ => h.rawGuards? a) ?bytes
  case slash =>
    rintro - d (rfl | rfl)
    · exact h.head? (by decide) a
    · exact h.head? (by decide) a
  case quote =>
    rintro rfl
    exact h.startsChar hq
  case bytes =>
    refine fun _ => ⟨h.head? (by decide) a, fun hhead => ?_⟩
    cases a with
    | nil => cases h _ hhead
    | cons e a => exact h.rawGuards? a

theorem Mild.isPrefixOf {b : List Char} (h : Mild b) (n : Nat) (a : List Char) :
    (List.replicate n '#').isPrefixOf (a ++ b) = (List.replicate n '#').isPrefixOf a := by
  induction a generalizing n with
  | nil =>
    cases n with
    | zero => rfl
    | succ n =>
      cases b with
      | nil => rfl
      | cons d b =>
        have hd : d ≠ '#' := ne_of_not_special (mild_cons.mp h) (by decide)
        simp [List.replicate_succ, List.isPrefixOf, hd.symm]
  | cons c a ih =>
    cases n with
    | zero => rfl
    | succ n => simp [List.replicate_succ, List.isPrefixOf, ih]

theorem Mild.move {x c : Char} {a b : List Char} (h : Mild b) (hq : Quiet c a b) (mode : Mode)
    (closers : List Char) (p : Option Char) :
    move (.closer x) mode closers p c (a ++ b) = move (.closer x) mode closers p c a := by
  cases mode with
  | code => exact h.codeMove hq closers p
  | raw n => simp only [Code.move, h.isPrefixOf n a]
  | blockComment d =>
    have hhead : ∀ d, special d = true → ((a ++ b).head? == some d) = (a.head? == some d) :=
      fun d hd => by
      rw [Bool.eq_iff_iff, beq_iff_eq, beq_iff_eq]
      exact h.head? hd a
    simp only [Code.move, hhead '/' (by decide), hhead '*' (by decide)]
  | _ => rfl

theorem Mild.next? {c : Char} {a b : List Char} (h : Mild b) (hq : Quiet c a b) (s : State)
    (p : Option Char) :
    s.next? p c (a ++ b) = s.next? p c a := by
  unfold State.next?
  rw [h.move hq]

theorem Mild.run {a b : List Char} (h : Mild b)
    (hq : b.tail.head? = some '\'' → a.getLast? ≠ some '\'') (s : State)
    (p : Option Char) : s.run p b a = s.run p [] a := by
  induction a generalizing s p with
  | nil => rfl
  | cons c a ih =>
    have hquiet : Quiet c a b := by
      rintro rfl rfl hb
      exact hq hb rfl
    simp only [State.run, List.append_nil, h.next? hquiet]
    cases hnext : s.next? p c a with
    | none => rfl
    | some t =>
      refine ih (fun hb => ?_) t (some c)
      cases a with
      | nil => simp
      | cons d a => simpa [List.getLast?_cons_cons] using hq hb

theorem Mild.run_code {a b closers : List Char} (h : Mild b) {s : State} {p : Option Char}
    (hrun : s.run p b a = some ⟨0, .code, closers⟩) : s.run p [] a = some ⟨0, .code, closers⟩ := by
  induction a generalizing s p with
  | nil => exact hrun
  | cons c a ih =>
    obtain ⟨t, hnext, hrest⟩ := Option.bind_eq_some_iff.mp hrun
    by_cases hquiet : Quiet c a b
    · rw [h.next? hquiet] at hnext
      simp only [State.run, List.append_nil, hnext]
      exact ih hrest
    · obtain ⟨rfl, rfl, hb⟩ : c = '\'' ∧ a = [] ∧ b.tail.head? = some '\'' := by
        simpa [Quiet] using hquiet
      obtain rfl := Option.some.inj hrest
      have hstarts : Code.startsChar b = true := by simp [startsChar_eq, hb]
      obtain ⟨k, mode, pending⟩ := s
      cases k with
      | succ k => exact hnext
      | zero =>
        cases mode with
        | code =>
          -- it would have begun a character here
          have hmove : Code.move (.closer ')') .code pending p '\'' b = .go 0 .char pending := by
            simp [Code.move, Code.codeMove, isStop, closerOf?, isCloser, hstarts]
          simp [State.next?, hmove] at hnext
        | _ => exact hnext

/-! What stands before a text -/

theorem codeMove_prev {x : Char} {p q : Option Char} {c : Char}
    (h : Text.continuesName c = true → p.any Text.continuesName = q.any Text.continuesName)
    (closers next : List Char) :
    codeMove (.closer x) closers p c next = codeMove (.closer x) closers q c next := by
  by_cases hc : Text.continuesName c = true
  · simp only [codeMove, h hc]
  · have hr : c ≠ 'r' := by
      rintro rfl
      exact hc (by decide)
    have hb : c ≠ 'b' := by
      rintro rfl
      exact hc (by decide)
    unfold codeMove
    split
    · rfl
    split
    · rfl
    split
    · rfl
    split
    · rfl
    · rfl
    · rfl
    · exact absurd rfl hr
    · exact absurd rfl hb
    · rfl

/-- Only a name makes a difference to a name. -/
theorem State.run_prev {p q : Option Char} {a : List Char}
    (h : ∀ c, a.head? = some c → Text.continuesName c = true →
      p.any Text.continuesName = q.any Text.continuesName)
    (after : List Char) (s : State) : s.run p after a = s.run q after a := by
  cases a with
  | nil => rfl
  | cons c a =>
    have hnext : s.next? p c (a ++ after) = s.next? q c (a ++ after) := by
      unfold State.next?
      cases s.mode with
      | code => simp only [move, codeMove_prev (h c rfl)]
      | _ => rfl
    simp only [State.run, hnext]

/-! What is open around a text -/

theorem move_lift {x : Char} {mode mode' : Mode} {closers closers' : List Char} {p : Option Char}
    {c : Char} {next : List Char}
    {k : Nat} (h : move (.closer x) mode closers p c next = .go k mode' closers')
    (outer : List Char) :
    move (.closer x) mode (closers ++ outer) p c next = .go k mode' (closers' ++ outer) := by
  cases mode with
  | code =>
    simp only [move, codeMove] at h ⊢
    split at h
    · cases h
    next hstop =>
      have hstop' : ¬ ((closers ++ outer).isEmpty && isStop (.closer x) c next) = true := by
        intro hs
        rw [Bool.and_eq_true, List.isEmpty_iff, List.append_eq_nil_iff] at hs
        exact hstop (by simp [hs.1.1, hs.2])
      rw [if_neg hstop']
      split at h
      · cases h
        rfl
      split at h
      next hclose =>
        rw [if_pos hclose]
        split at h
        · cases h
        next e rest =>
          split at h
          next he =>
            cases h
            exact if_pos he
          · cases h
      next hclose =>
        rw [if_neg hclose]
        split at h
        all_goals first | (split at h) | skip
        all_goals first | (split at h) | skip
        all_goals
          cases h
          simp_all
  | raw n =>
    simp only [move] at h ⊢
    split at h <;> rename_i hend <;> cases h <;>
      simp only [hend, if_true, Bool.false_eq_true, if_false]
  | blockComment d =>
    simp only [move] at h ⊢
    split at h
    next hend =>
      cases h
      exact if_pos hend
    next hend =>
      rw [if_neg hend]
      split at h <;> rename_i hstart <;> cases h <;>
        simp only [hstart, if_true, Bool.false_eq_true, if_false]
  | _ =>
    cases h
    rfl

theorem State.run_lift {p : Option Char} {after a : List Char} {k k' : Nat} {mode mode' : Mode}
    {closers closers' : List Char}
    (h : State.run p after ⟨k, mode, closers⟩ a = some ⟨k', mode', closers'⟩) (outer : List Char) :
    State.run p after ⟨k, mode, closers ++ outer⟩ a = some ⟨k', mode', closers' ++ outer⟩ := by
  induction a generalizing p k mode closers with
  | nil =>
    cases h
    rfl
  | cons c a ih =>
    obtain ⟨⟨k₁, mode₁, closers₁⟩, hnext, hrun⟩ := Option.bind_eq_some_iff.mp h
    have hnext' : State.next? ⟨k, mode, closers ++ outer⟩ p c (a ++ after) =
        some ⟨k₁, mode₁, closers₁ ++ outer⟩ := by
      cases k with
      | succ k =>
        cases hnext
        rfl
      | zero =>
        simp only [State.next?] at hnext ⊢
        split at hnext
        next k₂ mode₂ closers₂ hmove =>
          cases hnext
          rw [move_lift hmove]
        · cases hnext
    simp only [State.run, hnext']
    exact ih hrun

/-! Characters to pass over -/

theorem length_of_rawGuards? {n : Nat} {cs : List Char} (h : rawGuards? cs = some n) :
    n + 1 ≤ cs.length := by
  simp only [rawGuards?] at h
  split at h
  next hhead =>
    cases h
    cases hdrop : cs.drop (cs.takeWhile (· == '#')).length with
    | nil =>
      rw [hdrop] at hhead
      cases hhead
    | cons d r =>
      have hlen := congrArg List.length hdrop
      simp at hlen
      omega
  · cases h

theorem skip_le_of_codeMove {x : Char} {mode' : Mode} {closers closers' : List Char}
    {p : Option Char} {c : Char} {next : List Char} {k : Nat}
    (h : codeMove (.closer x) closers p c next = .go k mode' closers') : k ≤ next.length := by
  unfold codeMove at h
  split at h
  · cases h
  split at h
  · cases h
    exact Nat.zero_le _
  split at h
  · split at h
    · cases h
    · split at h <;> cases h
      exact Nat.zero_le _
  split at h
  · split at h <;> cases h <;> simp
  · cases h
    exact Nat.zero_le _
  · cases h
    exact Nat.zero_le _
  · split at h
    next n hguards =>
      cases h
      split at hguards
      · cases hguards
      · exact length_of_rawGuards? hguards
    · cases h
      exact Nat.zero_le _
  · split at h
    next r =>
      split at h
      next n hguards =>
        cases h
        split at hguards
        · cases hguards
        · have hlen := length_of_rawGuards? hguards
          simp
          omega
      · cases h
        exact Nat.zero_le _
    · cases h
      exact Nat.zero_le _
  · cases h
    exact Nat.zero_le _

theorem skip_le_of_move {x : Char} {mode mode' : Mode} {closers closers' : List Char}
    {p : Option Char} {c : Char} {next : List Char} {k : Nat}
    (h : move (.closer x) mode closers p c next = .go k mode' closers') : k ≤ next.length := by
  cases mode with
  | code => exact skip_le_of_codeMove h
  | raw n =>
    simp only [move] at h
    split at h
    next hend =>
      cases h
      rw [Bool.and_eq_true, List.isPrefixOf_iff_prefix] at hend
      simpa using hend.2.length_le
    · cases h
      exact Nat.zero_le _
  | blockComment d =>
    have hpos : ∀ {d : Char}, (next.head? == some d) = true → 1 ≤ next.length := fun hd => by
      cases next with
      | nil => cases hd
      | cons e r => simp
    simp only [move] at h
    split at h
    next hend =>
      cases h
      rw [Bool.and_eq_true] at hend
      exact hpos hend.2
    · split at h
      next hstart =>
        cases h
        rw [Bool.and_eq_true] at hstart
        exact hpos hstart.2
      · cases h
        exact Nat.zero_le _
  | _ =>
    cases h
    exact Nat.zero_le _

theorem State.skip_of_run {s t : State} {p : Option Char} {a : List Char}
    (h : s.run p [] a = some t) (hs : s.skip ≤ a.length) :
    t.skip = 0 := by
  induction a generalizing s p with
  | nil =>
    cases h
    simpa using hs
  | cons c a ih =>
    obtain ⟨u, hnext, hrun⟩ := Option.bind_eq_some_iff.mp h
    refine ih hrun ?_
    unfold State.next? at hnext
    split at hnext
    next k hk =>
      cases hnext
      simp only [List.length_cons] at hs
      show k ≤ a.length
      omega
    · split at hnext
      next k mode closers hmove =>
        cases hnext
        simpa using skip_le_of_move hmove
      · cases hnext

end Templating.Code
