import Mathlib.Data.List.Infix
import Templating.Proofs.Code.Extent
import Templating.Proofs.Code.Grain
import Templating.Proofs.Code.Pairing

/-! Scanning over a text as a whole: over the inside of a token up to its end, and over each grain
of a row. -/
namespace Templating.Code
open Markup.Implicit (after)

/-- Scanning goes over `u`, from one state to another, between a character and a text. -/
def Crosses (stop : Stop) (s t : Mode × List Char) (p : Option Char) (u rest : List Char) : Prop :=
  scanFrom stop 0 s.1 s.2 p (u ++ rest) = after u (scanFrom stop 0 t.1 t.2 (u.getLast?.or p) rest)

/-- Scanning gets to the end of the text without leaving what it is inside of. -/
def Lost (stop : Stop) (mode : Mode) (closers cs : List Char) (e : ScanError) : Prop :=
  ∀ p, scanFrom stop 0 mode closers p cs = .error (cs, e)

section
variable {stop : Stop} {s t t' : Mode × List Char} {mode mode' : Mode}
  {closers closers' : List Char} {c : Char} {p : Option Char}
  {u v rest : List Char}

theorem getLast?_cons_or (c : Char) (u : List Char) (p : Option Char) :
    (c :: u).getLast?.or p = u.getLast?.or (some c) :=
  getLast?_append_or [c] u p

theorem Crosses.nil (s : Mode × List Char) (p : Option Char) (rest : List Char) :
    Crosses stop s s p [] rest := (after_nil _).symm

theorem Crosses.append (hu : Crosses stop s t p u (v ++ rest))
    (hv : Crosses stop t t' (u.getLast?.or p) v rest) :
    Crosses stop s t' p (u ++ v) rest := by
  unfold Crosses at *
  rw [List.append_assoc, hu, hv, after_after, getLast?_append_or]

theorem Crosses.of_move (h : move stop mode closers p c (u ++ rest) = .go u.length mode' closers') :
    Crosses stop (mode, closers) (mode', closers') p (c :: u) rest := by
  have hpass : ∀ (u : List Char) (p : Option Char),
    scanFrom stop u.length mode' closers' p (u ++ rest) =
      after u (scanFrom stop 0 mode' closers' (u.getLast?.or p) rest) := by
    intro u
    induction u with
    | nil => exact fun p => (after_nil _).symm
    | cons x u ih =>
      intro p
      rw [List.length_cons, List.cons_append, scanFrom_cons, ih, after_after, getLast?_cons_or]
      rfl
  show scanFrom stop 0 mode closers p (c :: (u ++ rest)) = _
  rw [scanFrom]
  simp only [h]
  rw [prepend_eq, hpass, after_after, getLast?_cons_or]
  rfl

theorem Crosses.cons (h : move stop mode closers p c (u ++ rest) = .go 0 mode' closers')
    (hu : Crosses stop (mode', closers') t (some c) u rest) :
    Crosses stop (mode, closers) t p (c :: u) rest :=
  Crosses.append (u := [c]) (Crosses.of_move (u := []) h) hu

theorem Lost.nil (mode : Mode) (closers : List Char) :
    Lost stop mode closers [] (mode.atEnd stop) := fun _ => rfl

theorem Lost.of_crosses {e : ScanError}
    (hu : ∀ p, Crosses stop (mode, closers) (mode', closers') p u rest)
    (hrest : Lost stop mode' closers' rest e) : Lost stop mode closers (u ++ rest) e := by
  intro p
  rw [hu p, hrest, after]

theorem Lost.cons {e : ScanError} (h : ∀ p, move stop mode closers p c rest = .go 0 mode' closers')
    (hrest : Lost stop mode' closers' rest e) : Lost stop mode closers (c :: rest) e :=
  Lost.of_crosses (u := [c]) (fun p => Crosses.of_move (u := []) (h p)) hrest

/-! Texts with escapes -/

section
variable {mark : Char} {inside : Mode} (escape : Mode) (hmark : mark ≠ '\\')
  (hinside : ∀ p c v, move stop inside closers p c v =
    .go 0 (if c == mark then .code else if c == '\\' then escape else inside) closers)
  (hescape : ∀ p c v, move stop escape closers p c v = .go 0 inside closers)
include hmark hinside hescape

theorem crosses_unescaped (h : UpToUnescaped mark u) (p : Option Char) (rest : List Char) :
    Crosses stop (inside, closers) (.code, closers) p u rest := by
  induction h generalizing p with
  | mark =>
    apply Crosses.of_move (u := [])
    simp [hinside]
  | @escaped c u hu ih =>
    have hbackslash : move stop inside closers p '\\' (c :: (u ++ rest)) =
        .go 0 escape closers := by simp [hinside, hmark.symm]
    exact Crosses.cons hbackslash (Crosses.cons (hescape ..) (ih _))
  | @other c u hc hbackslash hu ih =>
    refine Crosses.cons ?_ (ih _)
    simp [hinside, hc, hbackslash]

theorem unescaped_or_lost {e : ScanError} (hin : inside.atEnd stop = e)
    (hesc : escape.atEnd stop = e) :
    ∀ cs : List Char, (∃ u v, cs = u ++ v ∧ UpToUnescaped mark u) ∨ Lost stop inside closers cs e
  | [] => .inr (hin ▸ Lost.nil inside closers)
  | c :: cs => by
    by_cases hc : c = mark
    · subst hc
      exact .inl ⟨[c], cs, rfl, .mark⟩
    by_cases hbackslash : c = '\\'
    · subst hbackslash
      have hmove : ∀ p, move stop inside closers p '\\' cs = .go 0 escape closers := fun p => by
        simp [hinside, hmark.symm]
      cases cs with
      | nil => exact .inr (Lost.cons hmove (hesc ▸ Lost.nil escape closers))
      | cons d cs =>
        rcases unescaped_or_lost hin hesc cs with ⟨u, v, rfl, hu⟩ | hlost
        · exact .inl ⟨'\\' :: d :: u, v, rfl, .escaped d hu⟩
        · exact .inr (Lost.cons hmove (Lost.cons (fun p => hescape p d cs) hlost))
    · rcases unescaped_or_lost hin hesc cs with ⟨u, v, rfl, hu⟩ | hlost
      · exact .inl ⟨c :: u, v, rfl, .other hc hbackslash hu⟩
      · refine .inr (Lost.cons (fun p => ?_) hlost)
        simp [hinside, hc, hbackslash]

end

/-! Texts up to a mark -/

theorem UpTo.length_le {mark : List Char} (h : UpTo mark u) : mark.length ≤ u.length := by
  induction h with
  | mark => exact Nat.le_refl _
  | other _ _ ih => exact Nat.le_succ_of_le ih

theorem exists_upTo {mark cs : List Char} (h : mark <:+: cs) :
    ∃ u v, cs = u ++ v ∧ UpTo mark u := by
  induction cs with
  | nil => exact ⟨mark, [], by simpa using h.eq_of_length_le (Nat.zero_le _), .mark⟩
  | cons c cs ih =>
    by_cases hfront : mark <+: c :: cs
    · obtain ⟨v, hv⟩ := hfront
      exact ⟨mark, v, hv.symm, .mark⟩
    · obtain ⟨u, v, rfl, hu⟩ := ih ((List.infix_cons_iff.mp h).resolve_left hfront)
      exact ⟨c :: u, v, rfl,
        .other (fun hu => hfront (hu.trans (List.prefix_append (c :: u) v))) hu⟩

theorem not_prefix_append (mark : List Char) (hlength : mark.length ≤ u.length) (h : ¬ mark <+: u)
    (rest : List Char) :
    ¬ mark <+: u ++ rest :=
  fun hmark => h (List.prefix_of_prefix_length_le hmark (List.prefix_append u rest) hlength)

section
variable {mark : List Char} {inside : Mode}
  (hinside : ∀ p c v, move stop inside closers p c v =
    if mark <+: c :: v then .go (mark.length - 1) .code closers else .go 0 inside closers)
include hinside

theorem crosses_upTo (hmark : mark ≠ []) (h : UpTo mark u) (p : Option Char) (rest : List Char) :
    Crosses stop (inside, closers) (.code, closers) p u rest := by
  induction h generalizing p with
  | mark =>
    obtain ⟨c, mark, rfl⟩ := List.exists_cons_of_ne_nil hmark
    have hfront : c :: mark <+: c :: (mark ++ rest) := List.prefix_append (c :: mark) rest
    apply Crosses.of_move
    rw [hinside, if_pos hfront]
    rfl
  | @other c u hc hu ih =>
    refine Crosses.cons ?_ (ih _)
    have hbehind := not_prefix_append mark (u := c :: u) (Nat.le_succ_of_le hu.length_le) hc rest
    rw [hinside]
    exact if_neg hbehind

theorem lost_of_not_infix {cs : List Char} (h : ¬ mark <:+: cs) :
    Lost stop inside closers cs (inside.atEnd stop) := by
  induction cs with
  | nil => exact Lost.nil inside closers
  | cons c cs ih =>
    obtain ⟨hfront, hcs⟩ := not_or.mp (mt List.infix_cons_iff.mpr h)
    refine Lost.cons (fun p => ?_) (ih hcs)
    rw [hinside, if_neg hfront]

end

/-! Comments within comments -/

theorem UpToClosing.length_le (h : UpToClosing u) : 2 ≤ u.length := by
  induction h with
  | closing => exact Nat.le_refl 2
  | nested _ _ _ _ => simp
  | other _ _ _ ih => exact Nat.le_succ_of_le ih

def outside (depth : Nat) : Mode := if depth = 0 then .code else .blockComment depth

theorem move_closing (d : Nat) (closers : List Char) (p : Option Char) (v : List Char) :
    move stop (.blockComment (d + 1)) closers p '*' ('/' :: v) = .go 1 (outside d) closers := by
  cases d <;> rfl

theorem move_opening (d : Nat) (closers : List Char) (p : Option Char) (v : List Char) :
    move stop (.blockComment d) closers p '/' ('*' :: v) = .go 1 (.blockComment (d + 1)) closers :=
      rfl

theorem pair_prefix_iff {a b c : Char} {v : List Char} :
    [a, b] <+: c :: v ↔ c = a ∧ v.head? = some b := by
  cases v <;> simp [List.cons_prefix_cons, eq_comm]

theorem move_comment {d : Nat} {v : List Char} (hclosing : ¬ ['*', '/'] <+: c :: v)
    (hopening : ¬ ['/', '*'] <+: c :: v) (closers : List Char) (p : Option Char) :
    move stop (.blockComment d) closers p c v = .go 0 (.blockComment d) closers := by
  rw [pair_prefix_iff] at hclosing hopening
  simp [move, hclosing, hopening]

theorem crosses_comment (h : UpToClosing u) (d : Nat) (closers : List Char) (p : Option Char)
    (rest : List Char) :
    Crosses stop (.blockComment (d + 1), closers) (outside d, closers) p u rest := by
  induction h generalizing d p rest with
  | closing => exact Crosses.of_move (u := ['/']) (move_closing d closers p rest)
  | @nested u v hu hv ihu ihv =>
    have hlead : Crosses stop (.blockComment (d + 1), closers) (.blockComment (d + 2), closers) p
        ['/', '*'] (u ++ v ++ rest) :=
      Crosses.of_move (u := ['*']) (move_opening (d + 1) closers p (u ++ v ++ rest))
    have hinner := Crosses.append (ihu (d + 1) (some '*') (v ++ rest)) (ihv d _ rest)
    exact Crosses.append hlead hinner
  | @other c u hclosing hopening hu ih =>
    refine Crosses.cons ?_ (ih d _ rest)
    have hbehind : ∀ a b : Char, ¬ [a, b] <+: c :: u → ¬ [a, b] <+: c :: (u ++ rest) :=
      fun a b h => not_prefix_append [a, b] (u := c :: u) (Nat.le_succ_of_le hu.length_le) h rest
    exact move_comment (hbehind _ _ hclosing) (hbehind _ _ hopening) closers p

theorem closing_or_lost (stop : Stop) (closers cs : List Char) :
    (∃ u v, cs = u ++ v ∧ UpToClosing u) ∨
    ∀ d, Lost stop (.blockComment (d + 1)) closers cs .unterminatedComment := by
  induction hlength : cs.length using Nat.strongRecOn generalizing cs with
  | ind n ih =>
    subst hlength
    cases cs with
    | nil => exact .inr fun d => Lost.nil _ closers
    | cons c cs =>
      by_cases hclosing : ['*', '/'] <+: c :: cs
      · obtain ⟨v, hv⟩ := hclosing
        exact .inl ⟨['*', '/'], v, hv.symm, .closing⟩
      by_cases hopening : ['/', '*'] <+: c :: cs
      · obtain ⟨behind, hbehind⟩ := hopening
        obtain ⟨rfl, rfl⟩ := List.cons.inj hbehind
        have hlead : ∀ d p,
            Crosses stop (.blockComment (d + 1), closers) (.blockComment (d + 2), closers) p
            ['/', '*'] behind :=
          fun d p => Crosses.of_move (u := ['*']) (move_opening (d + 1) closers p behind)
        have hshorter : behind.length < ('/' :: '*' :: behind).length := by
          simp only [List.length_cons]
          omega
        rcases ih behind.length hshorter behind rfl with ⟨u, v, rfl, hu⟩ | hlost
        · have hless : v.length < ('/' :: '*' :: (u ++ v)).length := by
            simp only [List.length_cons, List.length_append]
            omega
          rcases ih v.length hless v rfl with ⟨w, more, rfl, hw⟩ | hlost
          · exact .inl ⟨'/' :: '*' :: (u ++ w), more, by simp, .nested hu hw⟩
          · refine .inr fun d => Lost.of_crosses (u := ['/', '*']) (hlead d) ?_
            exact Lost.of_crosses (fun p => crosses_comment hu (d + 1) closers p v) (hlost d)
        · exact .inr fun d => Lost.of_crosses (u := ['/', '*']) (hlead d) (hlost (d + 1))
      · rcases ih cs.length (by simp) cs rfl with ⟨u, v, rfl, hu⟩ | hlost
        · have hfront := List.prefix_append (c :: u) v
          exact .inl ⟨c :: u, v, rfl,
            .other (fun h => hclosing (h.trans hfront)) (fun h => hopening (h.trans hfront)) hu⟩
        · exact .inr fun d =>
            Lost.cons (fun p => move_comment hclosing hopening closers p) (hlost d)

end

/-! Tokens -/

/-- The scan is outside of every delimiter and sees its boundary. -/
def Halts (stop : Stop) (closers cs : List Char) : Prop := closers = [] ∧ stop.text <+: cs

theorem isStop_iff (stop : Stop) (c : Char) (v : List Char) :
    isStop stop c v = true ↔ stop.text <+: c :: v := by
  have hsingle : ∀ x, [x] <+: c :: v ↔ c = x := fun x => by
    rw [List.cons_prefix_cons]
    exact ⟨fun h => h.1.symm, fun h => ⟨h.symm, List.nil_prefix⟩⟩
  cases stop with
  | closer x => exact beq_iff_eq.trans (hsingle x).symm
  | openBrace => exact beq_iff_eq.trans (hsingle _).symm
  | fatArrow =>
    rw [Stop.text, pair_prefix_iff, isStop, Bool.and_eq_true, beq_iff_eq, beq_iff_eq]

theorem not_halts_iff {stop : Stop} {closers : List Char} {c : Char} {v : List Char} :
    ¬ Halts stop closers (c :: v) ↔ (closers.isEmpty && isStop stop c v) = false := by
  rw [Halts, ← isStop_iff, ← List.isEmpty_iff, ← Bool.and_eq_true, Bool.not_eq_true]

theorem characterBegins_iff (cs : List Char) : CharacterBegins cs ↔ startsChar cs = true := by
  constructor
  · intro h
    rcases h with ⟨r, rfl⟩ | ⟨c, r, rfl⟩
    · rfl
    · simp [startsChar_eq]
  · intro h
    unfold startsChar at h
    split at h
    next r => exact .inl ⟨r, rfl⟩
    next c r _ => exact .inr ⟨c, r, rfl⟩
    · cases h

theorem rawGuards?_guards (n : Nat) (behind : List Char) :
    rawGuards? (List.replicate n '#' ++ ['"'] ++ behind) = some n := by
  have htake : (List.replicate n '#' ++ ['"'] ++ behind).takeWhile (· == '#') =
      List.replicate n '#' := by
    induction n with
    | zero => rfl
    | succ n ih =>
      rw [List.replicate_succ]
      exact congrArg (List.cons '#') ih
  rw [rawGuards?, htake, List.length_replicate, List.append_assoc,
    List.drop_left' List.length_replicate]
  rfl

section
variable {stop : Stop} {closers : List Char} {p : Option Char} {k : Cover}
  {lead behind body rest : List Char} {c : Char}

theorem Cover.Opens.exists_cons (h : k.Opens p lead behind) : ∃ c r, lead = c :: r := by
  cases h with
  | raw _ _ hletters => rcases hletters with rfl | rfl <;> exact ⟨_, _, rfl⟩
  | _ => exact ⟨_, _, rfl⟩

theorem Cover.Opens.exists_move (h : k.Opens p lead behind)
    (hhalt : ¬ Halts stop closers (lead ++ behind)) :
    ∃ c u, lead = c :: u ∧ move stop .code closers p c (u ++ behind) =
      .go u.length k.mode closers := by
  cases h with
  | string behind =>
    have hstop : (closers.isEmpty && isStop stop '"' behind) = false := not_halts_iff.mp hhalt
    refine ⟨'"', [], rfl, ?_⟩
    simp only [List.nil_append, move, codeMove, hstop, Bool.false_eq_true, if_false]
    rfl
  | @raw letters n behind hletters hp =>
    have hguards := rawGuards?_guards n behind
    rcases hletters with rfl | rfl
    · have hstop : (closers.isEmpty && isStop stop 'r' (List.replicate n '#' ++ ['"'] ++ behind)) =
          false := not_halts_iff.mp hhalt
      refine ⟨'r', List.replicate n '#' ++ ['"'], rfl, ?_⟩
      simp only [move, codeMove, hstop, hp, hguards, Bool.false_eq_true, if_false,
        List.length_append, List.length_replicate]
      rfl
    · have hstop :
          (closers.isEmpty && isStop stop 'b' ('r' :: (List.replicate n '#' ++ ['"'] ++ behind))) =
          false :=
        not_halts_iff.mp hhalt
      refine ⟨'b', 'r' :: (List.replicate n '#' ++ ['"']), rfl, ?_⟩
      simp only [List.cons_append, move, codeMove, hstop, hp, hguards, Bool.false_eq_true, if_false,
        List.length_cons,
        List.length_append, List.length_replicate]
      rfl
  | character hbegins =>
    have hstop : (closers.isEmpty && isStop stop '\'' behind) = false := not_halts_iff.mp hhalt
    have hstarts := (characterBegins_iff behind).mp hbegins
    refine ⟨'\'', [], rfl, ?_⟩
    simp only [List.nil_append, move, codeMove, hstop, hstarts, Bool.false_eq_true, if_false,
      if_true]
    rfl
  | line behind =>
    have hstop : (closers.isEmpty && isStop stop '/' ('/' :: behind)) = false :=
      not_halts_iff.mp hhalt
    refine ⟨'/', ['/'], rfl, ?_⟩
    simp only [List.cons_append, List.nil_append, move, codeMove, hstop, Bool.false_eq_true,
      if_false]
    rfl
  | block behind =>
    have hstop : (closers.isEmpty && isStop stop '/' ('*' :: behind)) = false :=
      not_halts_iff.mp hhalt
    refine ⟨'/', ['*'], rfl, ?_⟩
    simp only [List.cons_append, List.nil_append, move, codeMove, hstop, Bool.false_eq_true,
      if_false]
    rfl

theorem Cover.Opens.crosses (h : k.Opens p lead behind)
    (hhalt : ¬ Halts stop closers (lead ++ behind)) :
    Crosses stop (.code, closers) (k.mode, closers) p lead behind := by
  obtain ⟨c, u, rfl, hmove⟩ := h.exists_move hhalt
  exact Crosses.of_move hmove

theorem move_raw (n : Nat) (p : Option Char) (c : Char) (v : List Char) :
    move stop (.raw n) closers p c v =
    if '"' :: List.replicate n '#' <+: c :: v then
      .go (('"' :: List.replicate n '#').length - 1) .code closers
    else .go 0 (.raw n) closers := by
  have hguards : (c == '"' && (List.replicate n '#').isPrefixOf v) = true ↔
      '"' :: List.replicate n '#' <+: c :: v := by
    rw [Bool.and_eq_true, beq_iff_eq, List.isPrefixOf_iff_prefix, List.cons_prefix_cons, eq_comm]
  simp only [move, hguards, List.length_cons, List.length_replicate, Nat.add_sub_cancel]

theorem move_line (p : Option Char) (c : Char) (v : List Char) :
    move stop .lineComment closers p c v =
    if ['\n'] <+: c :: v then .go (['\n'].length - 1) .code closers else
      .go 0 .lineComment closers := by
  have hfeed : ['\n'] <+: c :: v ↔ c = '\n' := by
    rw [List.cons_prefix_cons]
    exact ⟨fun h => h.1.symm, fun h => ⟨h.symm, List.nil_prefix⟩⟩
  by_cases hc : c = '\n'
  · rw [if_pos (hfeed.mpr hc), hc]
    rfl
  · rw [if_neg (mt hfeed.mp hc)]
    simp [move, hc]

theorem Cover.Body.crosses (h : k.Body body rest) (closers : List Char) (p : Option Char) :
    Crosses stop (k.mode, closers) (.code, closers) p body rest := by
  cases k with
  | string =>
    exact crosses_unescaped .stringEscape (by decide) (fun _ _ _ => rfl) (fun _ _ _ => rfl) h p rest
  | raw n => exact crosses_upTo (fun p c v => move_raw n p c v) (List.cons_ne_nil _ _) h p rest
  | character =>
    exact crosses_unescaped .charEscape (by decide) (fun _ _ _ => rfl) (fun _ _ _ => rfl) h p rest
  | line =>
    rcases h with hfeed | ⟨hfeed, rfl⟩
    · exact crosses_upTo (fun p c v => move_line p c v) (List.cons_ne_nil _ _) hfeed p rest
    · have hlost : Lost stop .lineComment closers body (.unexpectedEnd stop) :=
        lost_of_not_infix (fun p c v => move_line p c v)
          (mt (List.singleton_infix_iff _ _).mp hfeed)
      unfold Crosses
      rw [List.append_nil]
      refine (hlost p).trans ?_
      rw [scanFrom, after, List.append_nil]
      rfl
  | block => exact crosses_comment h 0 closers p rest

theorem Cover.Endless.lost (h : k.Endless behind) (closers : List Char) :
    Lost stop k.mode closers behind k.fault := by
  have hno : ¬ ∃ u v, behind = u ++ v ∧ k.Body u v :=
    fun ⟨u, v, hsplit, hbody⟩ => h u v hsplit hbody
  cases k with
  | string =>
    exact (unescaped_or_lost .stringEscape (by decide) (fun _ _ _ => rfl) (fun _ _ _ => rfl) rfl rfl
      behind).resolve_left hno
  | raw n =>
    exact lost_of_not_infix (fun p c v => move_raw n p c v) fun hmark => hno (exists_upTo hmark)
  | character =>
    exact (unescaped_or_lost .charEscape (by decide) (fun _ _ _ => rfl) (fun _ _ _ => rfl) rfl rfl
      behind).resolve_left hno
  | line =>
    by_cases hfeed : ['\n'] <:+: behind
    · obtain ⟨u, v, hsplit, hu⟩ := exists_upTo hfeed
      exact absurd (.inl hu) (h u v hsplit)
    · exact absurd (.inr ⟨mt (List.singleton_infix_iff _ _).mpr hfeed, rfl⟩)
        (h behind [] (List.append_nil behind).symm)
  | block => exact (closing_or_lost stop closers behind).resolve_left hno 0

end

/-! Grains -/

section
variable {stop : Stop} {closers closers' : List Char} {p : Option Char} {rest : List Char}
  {c : Char}

theorem crosses_delimiter (hc : Delimits c) (hhalt : ¬ Halts stop closers (c :: rest))
    (hafter : afterDelimiter closers c = some closers') :
    Crosses stop (.code, closers) (.code, closers') p [c] rest := by
  have hmove : codeMove stop closers p c rest = .go 0 .code closers' := by
    unfold codeMove
    rw [not_halts_iff.mp hhalt, if_neg Bool.false_ne_true]
    unfold afterDelimiter at hafter
    cases hopen : closerOf? c with
    | some x =>
      rw [hopen] at hafter
      rw [← Option.some.inj hafter]
    | none =>
      have hclose : isCloser c = true := by
        refine hc.resolve_left ?_
        rintro ⟨x, hx⟩
        rw [hopen] at hx
        cases hx
      rw [hopen] at hafter
      dsimp only at hafter ⊢
      rw [if_pos hclose]
      cases closers with
      | nil => cases hafter
      | cons e closers =>
        by_cases he : e = c
        · rw [← Option.some.inj ((if_pos he).symm.trans hafter)]
          exact if_pos (beq_iff_eq.mpr he)
        · cases (if_neg he).symm.trans hafter
  exact Crosses.of_move (u := []) hmove

theorem crosses_plain (hc : ¬ Delimits c)
    (hplain : ∀ k lead behind, c :: rest = lead ++ behind → ¬ Cover.Opens p k lead behind)
    (hhalt : ¬ Halts stop closers (c :: rest)) :
    Crosses stop (.code, closers) (.code, closers) p [c] rest := by
  have hstop := not_halts_iff.mp hhalt
  obtain ⟨hopen, hclose⟩ := not_or.mp hc
  have hopen : closerOf? c = none := Option.eq_none_iff_forall_ne_some.mpr fun x hx => hopen ⟨x, hx⟩
  have hraw : ∀ {letters r : List Char} {n : Nat}, (letters = ['r'] ∨ letters = ['b', 'r']) →
    c :: rest = letters ++ r →
      (if p.any Text.continuesName then none else rawGuards? r) ≠ some n := by
    intro letters r n hletters hsplit hguards
    split at hguards
    · cases hguards
    next hp =>
      obtain ⟨v, rfl⟩ := exists_of_rawGuards? hguards
      refine hplain (.raw n) (letters ++ (List.replicate n '#' ++ ['"'])) v ?_
        (.raw n v hletters (by simpa using hp))
      rw [hsplit, List.append_assoc letters]
  refine Crosses.of_move (u := []) ?_
  simp only [List.nil_append, move, codeMove, hstop, hopen, hclose, Bool.false_eq_true, if_false]
  split
  · split
    next r => exact absurd (.line r) (hplain .line ['/', '/'] r rfl)
    next r => exact absurd (.block r) (hplain .block ['/', '*'] r rfl)
    · rfl
  · exact absurd (.string rest) (hplain .string ['"'] rest rfl)
  · have hlifetime : startsChar rest = false := by
      rw [← Bool.not_eq_true, ← characterBegins_iff]
      exact fun hbegins => hplain .character ['\''] rest rfl (.character hbegins)
    simp only [hlifetime, Bool.false_eq_true, if_false]
    rfl
  · split
    next n hguards => exact absurd hguards (hraw (.inl rfl) rfl)
    · rfl
  · split
    next r =>
      split
      next n hguards => exact absurd hguards (hraw (.inr rfl) rfl)
      · rfl
    · rfl
  · rfl

theorem Grain.Stands.crosses {g : Grain} (h : g.Stands p rest)
    (hhalt : ¬ Halts stop closers (g.text ++ rest))
    (hafter : closersAfter closers g.delimiters = some closers') :
    Crosses stop (.code, closers) (.code, closers') p g.text rest := by
  cases g with
  | covered k lead body =>
    obtain rfl : closers = closers' := Option.some.inj hafter
    obtain ⟨hopens, hbody⟩ := h
    rw [Grain.text, List.append_assoc] at hhalt
    exact (hopens.crosses hhalt).append (hbody.crosses closers _)
  | delimiter c =>
    rw [Grain.delimiters, closersAfter_cons] at hafter
    obtain ⟨m, hm, hafter⟩ := Option.bind_eq_some_iff.mp hafter
    obtain rfl := Option.some.inj hafter
    exact crosses_delimiter h hhalt hm
  | plain c =>
    obtain rfl : closers = closers' := Option.some.inj hafter
    exact crosses_plain h.1 h.2 hhalt

/-- Between the grains of a row, and before its first, the boundary is not seen
outside of every delimiter. -/
def Unhalted (stop : Stop) (closers : List Char) (gs : List Grain) (rest : List Char) : Prop :=
  ∀ a g b, gs = a ++ g :: b → ∀ m, closersAfter closers (a.flatMap Grain.delimiters) = some m →
    ¬ Halts stop m ((g :: b).flatMap Grain.text ++ rest)

theorem Row.crosses {gs : List Grain} (h : Row p gs rest) (hhalt : Unhalted stop closers gs rest)
    (hafter : closersAfter closers (gs.flatMap Grain.delimiters) = some closers') :
    Crosses stop (.code, closers) (.code, closers') p (gs.flatMap Grain.text) rest := by
  induction gs generalizing p closers with
  | nil =>
    obtain rfl := Option.some.inj hafter
    exact Crosses.nil _ p rest
  | cons g gs ih =>
    obtain ⟨hg, hgs⟩ := h
    rw [List.flatMap_cons, closersAfter_append] at hafter
    obtain ⟨m, hm, hafter⟩ := Option.bind_eq_some_iff.mp hafter
    have hfirst := hhalt [] g gs rfl closers rfl
    rw [List.flatMap_cons, List.append_assoc] at hfirst
    have hmore : Unhalted stop m gs rest := by
      intro a f b hsplit n hn
      refine hhalt (g :: a) f b (by rw [hsplit, List.cons_append]) n ?_
      rw [List.flatMap_cons, closersAfter_append, hm, Option.bind_some, hn]
    exact (hg.crosses hfirst hm).append (ih hgs hmore hafter)

end

end Templating.Code
