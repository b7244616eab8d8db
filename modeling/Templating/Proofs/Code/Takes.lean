import Templating.Proofs.Code.Run
import Templating.Proofs.Text.Blank

/-! Texts that take a scan from one standing to another, and how they are put together. A text is
balanced if it takes code with nothing open to code with nothing open. -/
namespace Templating.Code

/-- What a scan is inside of, and what is open, between two characters of which the first does not
bear on the second. -/
abbrev Standing := Mode × List Char

/-- The text, scanned on its own, takes the first standing to the second. -/
def Takes (s : Standing) (a : List Char) (t : Standing) : Prop :=
  State.run none [] ⟨0, s.1, s.2⟩ a = some ⟨0, t.1, t.2⟩

instance (s : Standing) (a : List Char) (t : Standing) : Decidable (Takes s a t) :=
  inferInstanceAs (Decidable (_ = _))

/-- Scanned from its first character on, the text closes what it opens, and nothing else, and ends
in code. -/
def Balanced (a : List Char) : Prop := Takes (.code, []) a (.code, [])

instance (a : List Char) : Decidable (Balanced a) := inferInstanceAs (Decidable (Takes ..))

theorem scan_of_balanced {a : List Char} (h : Balanced a) :
    scan (.closer ')') none a = .error (a, .unexpectedEnd (.closer ')')) := by
  have hscan : ∀ {s : State} {p : Option Char} {a : List Char}, s.run p [] a = some ⟨0, .code, []⟩ →
      scanFrom (.closer ')') s.skip s.mode s.closers p a =
        .error (a, .unexpectedEnd (.closer ')')) := by
    intro s p a hrun
    induction a generalizing s p with
    | nil =>
      obtain rfl := Option.some.inj hrun
      rfl
    | cons c a ih =>
      obtain ⟨t, hnext, hrest⟩ := Option.bind_eq_some_iff.mp hrun
      rw [List.append_nil] at hnext
      have htail := ih hrest
      unfold State.next? at hnext
      split at hnext
      next k hk =>
        obtain rfl := Option.some.inj hnext
        rw [hk]
        simp only [scanFrom, htail, scanFrom.prepend]
      next hk =>
        split at hnext
        next k mode closers hmove =>
          obtain rfl := Option.some.inj hnext
          rw [hk]
          simp only [scanFrom, hmove, htail, scanFrom.prepend]
        · cases hnext
  exact hscan h

/-- Neither of two texts looks at the other. -/
structure Apart (a b : List Char) : Prop where
  look : ∀ (s : State) (p : Option Char), s.run p b a = s.run p [] a
  name : ∀ c, b.head? = some c → Text.continuesName c = true →
    a.getLast?.any Text.continuesName = false

theorem Apart.nil (a : List Char) : Apart a [] := ⟨fun _ _ => rfl, fun _ h _ => by cases h⟩

section
variable {s t u : Standing} {a b : List Char}

theorem takes_nil (s : Standing) : Takes s [] s := rfl

theorem Takes.append (h : Takes s a t) (hab : Apart a b) (h' : Takes t b u) :
    Takes s (a ++ b) u := by
  unfold Takes at h h' ⊢
  rw [State.run_append, List.append_nil, hab.look, h]
  rw [← h']
  refine State.run_prev (fun c hc hname => ?_) [] _
  simpa using hab.name c hc hname

theorem Takes.inside {mode mode' : Mode} {closers closers' : List Char}
    (h : Takes (mode, closers) a (mode', closers'))
    (outer : List Char) : Takes (mode, closers ++ outer) a (mode', closers' ++ outer) :=
  State.run_lift h outer

theorem Balanced.takes (h : Balanced a) (closers : List Char) :
    Takes (.code, closers) a (.code, closers) :=
  Takes.inside h closers

end

/-! Characters that say nothing -/

/-- A character that no scan looks for. After it a name may begin anew. -/
def calm (c : Char) : Bool := !special c && !Text.continuesName c

theorem move_of_not_special {c : Char} (hc : special c = false) (mode : Mode) (closers : List Char)
    (p : Option Char) (next next' : List Char) :
    move (.closer ')') mode closers p c next = move (.closer ')') mode closers p c next' := by
  have hne : ∀ d, special d = true → c ≠ d := fun d => ne_of_not_special hc
  cases mode with
  | code =>
    exact codeMove_congr closers p (fun h => absurd h (hne '/' (by decide))) (fun h =>
      absurd h (hne '\'' (by decide)))
      (fun h => absurd h (hne 'r' (by decide))) (fun h => absurd h (hne 'b' (by decide)))
  | raw n => simp [move, hne '"' (by decide)]
  | blockComment d => simp [move, hne '*' (by decide), hne '/' (by decide)]
  | _ => rfl

theorem Apart.of_calm {a b : List Char} {c : Char} (hc : calm c = true)
    (hq : b.head? = some '\'' → a.getLast? ≠ some '\'') :
    Apart (a ++ [c]) b := by
  simp only [calm, Bool.and_eq_true, Bool.not_eq_true'] at hc
  refine ⟨fun s p => ?_, fun d _ _ => by simp [hc.2]⟩
  have hfirst : s.run p (c :: b) a = s.run p [] a := (mild_cons.mpr hc.1).run hq s p
  have hfirst' : s.run p [c] a = s.run p [] a := (mild_cons.mpr hc.1).run (by simp) s p
  rw [State.run_append, State.run_append]
  show ((s.run p (c :: b) a).bind fun t => t.run _ b [c]) = (s.run p [c] a).bind fun t =>
    t.run _ [] [c]
  rw [hfirst, hfirst']
  congr 1
  funext t
  have hnext : ∀ q, t.next? q c b = t.next? q c [] := by
    intro q
    unfold State.next?
    rw [move_of_not_special hc.1 t.mode t.closers q b []]
  simp only [State.run, List.nil_append, hnext]

theorem Apart.of_mild {a b : List Char} (hb : Mild b)
    (hq : b.tail.head? = some '\'' → a.getLast? ≠ some '\'')
    (hname : ∀ c, b.head? = some c → Text.continuesName c = false) : Apart a b := by
  refine ⟨fun s p => hb.run hq s p, fun c hc hc' => ?_⟩
  rw [hname c hc] at hc'
  cases hc'

theorem Apart.of_pair {a b : List Char} {c d : Char} (hc : calm c = true) (hd : d ≠ '\'') :
    Apart a (c :: d :: b) := by
  simp only [calm, Bool.and_eq_true, Bool.not_eq_true'] at hc
  refine .of_mild (mild_cons.mpr hc.1) (fun h => absurd (Option.some.inj h) hd) fun e he => ?_
  obtain rfl := Option.some.inj he
  exact hc.2

theorem Apart.of_last {a : List Char} {c : Char} (hc : calm c = true) : Apart a [c] := by
  simp only [calm, Bool.and_eq_true, Bool.not_eq_true'] at hc
  refine .of_mild (mild_cons.mpr hc.1) (fun h => by cases h) fun e he => ?_
  obtain rfl := Option.some.inj he
  exact hc.2

theorem Apart.of_single {a b : List Char} {c : Char} (hc : calm c = true)
    (ha : a.getLast? ≠ some '\'') : Apart a (c :: b) := by
  simp only [calm, Bool.and_eq_true, Bool.not_eq_true'] at hc
  refine .of_mild (mild_cons.mpr hc.1) (fun _ => ha) fun e he => ?_
  obtain rfl := Option.some.inj he
  exact hc.2

/-! Blanks -/

theorem calm_of_isBlank {c : Char} (h : Text.isBlank c = true) : calm c = true := by
  have hspecial : special c = false := by
    cases hc : special c with
    | false => rfl
    | true =>
      have hmem : c ∈ ['\\', '\'', '"', '#', '/', '*', 'r', 'b'] := List.contains_iff_mem.mp hc
      simp only [List.mem_cons, List.not_mem_nil, or_false] at hmem
      rcases hmem with rfl | rfl | rfl | rfl | rfl | rfl | rfl | rfl <;> cases h
  simp [calm, hspecial, Text.not_continuesName_of_isBlank h]

/-- What a blank makes of a mode. -/
def Mode.past (c : Char) : Mode → Mode
  | .stringEscape => .string
  | .charEscape => .char
  | .lineComment => if c == '\n' then .code else .lineComment
  | mode => mode

theorem next?_blank {c : Char} (hc : Text.isBlank c = true) (mode : Mode) (closers : List Char)
    (p : Option Char) (next : List Char) :
    State.next? ⟨0, mode, closers⟩ p c next = some ⟨0, mode.past c, closers⟩ := by
  have hne : ∀ d, Text.isBlank d = false → c ≠ d := by
    rintro d hd rfl
    rw [hc] at hd
    cases hd
  have h1 := hne '(' (by decide)
  have h2 := hne ')' (by decide)
  have h3 := hne '[' (by decide)
  have h4 := hne ']' (by decide)
  have h5 := hne '\x7b' (by decide)
  have h6 := hne '\x7d' (by decide)
  have h7 := hne '"' (by decide)
  have h8 := hne '\'' (by decide)
  have h9 := hne '\\' (by decide)
  have h10 := hne '/' (by decide)
  have h11 := hne '*' (by decide)
  have hr := hne 'r' (by decide)
  have hb := hne 'b' (by decide)
  cases mode with
  | code =>
    have hmove : codeMove (.closer ')') closers p c next = .go 0 .code closers := by
      have hopen : closerOf? c = none := by
        unfold closerOf?
        split <;> first | rfl | contradiction
      have hclose : isCloser c = false := by simp [isCloser, h2, h4, h6]
      simp only [codeMove, isStop, hopen, hclose, Bool.false_eq_true, if_false]
      rw [if_neg (by simp [h2])]
    simp only [State.next?, move, hmove, Mode.past]
  | raw n => simp [State.next?, move, h7, Mode.past]
  | blockComment d => simp [State.next?, move, h10, h11, Mode.past]
  | string => simp [State.next?, move, h7, h9, Mode.past]
  | char => simp [State.next?, move, h8, h9, Mode.past]
  | lineComment => simp [State.next?, move, Mode.past]
  | _ => rfl

def Mode.Rests (mode : Mode) : Prop := ∀ c, mode.past c = mode

theorem run_blanks {b : List Char} (hb : ∀ c ∈ b, Text.isBlank c = true) (mode : Mode)
    (closers : List Char) (p : Option Char) (after : List Char) :
    State.run p after ⟨0, mode, closers⟩ b =
    some ⟨0, b.foldl (fun m c => m.past c) mode, closers⟩ := by
  induction b generalizing mode p with
  | nil => rfl
  | cons c b ih =>
    simp only [State.run, next?_blank (hb c List.mem_cons_self)]
    exact ih (fun d hd => hb d (List.mem_cons_of_mem c hd)) _ _

theorem Mode.Rests.foldl {mode : Mode} (h : mode.Rests) (b : List Char) :
    b.foldl (fun m c => m.past c) mode = mode := by
  induction b with
  | nil => rfl
  | cons c b ih => rw [List.foldl_cons, h c, ih]

/-- What a line end makes of a mode, after any blanks. -/
def Mode.settled (mode : Mode) : Mode := mode.past '\n'

theorem Mode.settled_past (mode : Mode) (c : Char) : (mode.past c).settled = mode.settled := by
  cases mode with
  | lineComment =>
    simp only [past]
    split <;> rfl
  | _ => rfl

theorem Mode.rests_settled (mode : Mode) : mode.settled.Rests := by
  intro c
  cases mode <;> rfl

theorem run_blank_line {b : List Char} (hb : ∀ c ∈ b, Text.isBlank c = true) (mode : Mode)
    (closers : List Char) (p : Option Char) (after : List Char) :
    State.run p after ⟨0, mode, closers⟩ (b ++ ['\n']) = some ⟨0, mode.settled, closers⟩ := by
  have hall : ∀ c ∈ b ++ ['\n'], Text.isBlank c = true := by
    intro c hc
    rcases List.mem_append.mp hc with hc | hc
    · exact hb c hc
    · obtain rfl := List.mem_singleton.mp hc
      decide
  rw [run_blanks hall]
  have hfold : ∀ (b : List Char) (mode : Mode),
      (b ++ ['\n']).foldl (fun m c => m.past c) mode = mode.settled := by
    intro b
    induction b with
    | nil => exact fun _ => rfl
    | cons c b ih =>
      intro mode
      rw [List.cons_append, List.foldl_cons, ih, mode.settled_past]
  rw [hfold]

theorem run_lead {b : List Char} (hb : ∀ c ∈ b, Text.isBlank c = true) {mode : Mode}
    (hmode : mode.Rests) (closers : List Char)
    {p : Option Char} (hp : p.any Text.continuesName = false) (after a : List Char) :
    State.run p after ⟨0, mode, closers⟩ (b ++ a) = State.run none after ⟨0, mode, closers⟩ a := by
  rw [State.run_append, run_blanks hb, hmode.foldl b]
  refine State.run_prev (fun c _ _ => ?_) after _
  have hlast : (b.getLast?.or p).any Text.continuesName = false := by
    cases hb' : b.getLast? with
    | none => simpa using hp
    | some d =>
      have hd := calm_of_isBlank (hb d (List.mem_of_getLast? hb'))
      simp only [calm, Bool.and_eq_true, Bool.not_eq_true'] at hd
      simp [hd.2]
  rw [hlast]
  rfl

end Templating.Code
