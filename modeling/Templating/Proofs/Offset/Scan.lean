import Templating.Proofs.Code.Extent
import Templating.Proofs.Offset.Slice

/-! Scanning code by byte offsets: a loop that stands at an offset, knows what it is inside of and
which delimiters are open, and looks at the rest of the text anew in each turn. It tells what the
scan of the characters tells. -/
namespace Templating.Offset
open Code (Mode Move ScanError Stop after_after after_nil closerOf? codeMove exists_of_rawGuards?
  isCloser move prepend_eq
  rawGuards? scanFrom scanFrom_cons startsChar)
open Markup.Implicit (Reading after)
open Text (Cursor byteSize continuesName)
open Text.Cursor

/-- Where code ends and where its boundary does, or where it cannot be scanned and why. -/
abbrev Told := Except (Nat × ScanError) (Nat × Nat)

structure Scanning where
  offset : Nat
  mode : Mode
  closers : List Char

def Scanning.on (s : Scanning) (step : Nat) (mode : Mode) : Turn Scanning Told :=
  .next ⟨s.offset + step, mode, s.closers⟩

def followsWord (text : List Char) (i : Nat) : Attempt Bool := do
  let before ← upTo i text
  return before.getLast?.any continuesName

/-- The guards of a raw string and the bytes up to its first quote, if one begins here. -/
def rawStart (rest : List Char) (first : Char) : Attempt (Option (Nat × Nat)) :=
  let lead := if first == 'b' then ['b', 'r'] else ['r']
  if lead.isPrefixOf rest then do
    let behind := rest.drop lead.length
    let guards := (behind.takeWhile (· == '#')).length
    let quote ← onward guards behind
    return if quote.head? == some '"' then
      some (guards, byteSize rest - byteSize behind + guards + 1) else none
  else return none

def plainTurn (text : List Char) (s : Scanning) (c : Char) (rest : List Char) :
    Attempt (Turn Scanning Told) :=
  let ahead := (rest.drop 1).head?
  if c == '/' && ahead == some '/' then return s.on 2 .lineComment
  else if c == '/' && ahead == some '*' then return s.on 2 (.blockComment 1)
  else if c == 'r' || c == 'b' then do
    if ← followsWord text s.offset then return s.on c.utf8Size .code
    else match ← rawStart rest c with
      | some (guards, length) => return s.on length (.raw guards)
      | none => return s.on c.utf8Size .code
  else if c == '"' then return s.on c.utf8Size .string
  else if c == '\'' && startsChar (rest.drop 1) then return s.on c.utf8Size .char
  else return s.on c.utf8Size .code

def codeTurn (text : List Char) (stop : Stop) (s : Scanning) (c : Char) (rest : List Char) :
    Attempt (Turn Scanning Told) :=
  if s.closers.isEmpty && stop == .closer c then return .last (.ok (s.offset, s.offset + 1))
  else if s.closers.isEmpty && c == '\x7b' && stop == .openBrace then
    return .last (.ok (s.offset, s.offset + 1))
  else if s.closers.isEmpty && c == '=' && stop == .fatArrow && (rest.drop 1).head? == some '>' then
    return .last (.ok (s.offset, s.offset + 2))
  else match closerOf? c with
    | some closer => return .next ⟨s.offset + c.utf8Size, .code, closer :: s.closers⟩
    | none =>
      if isCloser c then
        match s.closers with
        | [] => return .last (.error (s.offset, .unopened c))
        | e :: closers =>
          if e == c then return .next ⟨s.offset + c.utf8Size, .code, closers⟩
          else return .last (.error (s.offset, .mismatched e c))
      else plainTurn text s c rest

def scanTurn (text : List Char) (stop : Stop) (s : Scanning) : Attempt (Turn Scanning Told) := do
  let rest ← onward s.offset text
  match rest with
  | [] =>
    match s.mode with
    | .code => return .last (.error (s.offset, .unexpectedEnd stop))
    -- the one step of no length: behind a comment at the end, the end is looked at once more
    | .lineComment => return s.on 0 .code
    | .blockComment _ => return .last (.error (s.offset, .unterminatedComment))
    | _ => return .last (.error (s.offset, .unterminatedString))
  | c :: _ =>
    let ahead := (rest.drop 1).head?
    match s.mode with
    | .code => codeTurn text stop s c rest
    | .string =>
      return s.on c.utf8Size (if c == '"' then .code else if c ==
        '\\' then .stringEscape else .string)
    | .stringEscape => return s.on c.utf8Size .string
    | .raw guards =>
      if c == '"' then do
        let behind ← onward 1 rest
        return if ((behind.take guards).filter (· == '#')).length == guards then
          s.on (1 + guards) .code else s.on 1 (.raw guards)
      else return s.on c.utf8Size (.raw guards)
    | .char =>
      return s.on c.utf8Size (if c == '\'' then .code else if c == '\\' then .charEscape else .char)
    | .charEscape => return s.on c.utf8Size .char
    | .lineComment => return s.on c.utf8Size (if c == '\n' then .code else .lineComment)
    | .blockComment depth =>
      if c == '*' && ahead == some '/' then
        return s.on 2 (if depth == 1 then .code else .blockComment (depth - 1))
      else if c == '/' && ahead == some '*' then return s.on 2 (.blockComment (depth + 1))
      else return s.on c.utf8Size (.blockComment depth)

def scan (n : Nat) (text : List Char) (i : Nat) (stop : Stop) : Attempt Told :=
  loop (scanTurn text stop) n ⟨i, .code, []⟩

/-! What a turn does is what the move with the character at the cursor does -/

/-- What the characters tell, by offsets. -/
def told (c : Cursor) (stop : Stop) : Reading → Told
  | .ok code => .ok ((c.past code).offset, (c.past (code ++ stop.text)).offset)
  | .error (read, e) => .error ((c.past read).offset, e)

def turnOf (c : Cursor) (stop : Stop) : Move → Turn Scanning Told
  | .stop => .last (.ok (c.offset, (c.past stop.text).offset))
  | .fail e => .last (.error (c.offset, e))
  | .go skip mode closers => .next ⟨(c.forward (skip + 1)).offset, mode, closers⟩

/-- The boundaries that are looked for take one byte for each character. -/
def Bytewise (stop : Stop) : Prop := ∀ x ∈ stop.text, x.utf8Size = 1

section
variable {text rest : List Char} {c : Cursor} {stop : Stop} {x : Char}

theorem rawStart_eq (lead behind : List Char) {first : Char}
    (hlead : lead = if first == 'b' then ['b', 'r'] else ['r']) :
    rawStart (lead ++ behind) first =
      .ok ((rawGuards? behind).map fun n => (n, lead.length + n + 1)) := by
  have hguards : ∀ cs : List Char, byteSize (cs.takeWhile (· == '#')) =
      (cs.takeWhile (· == '#')).length := by
    intro cs
    induction cs with
    | nil => rfl
    | cons y cs ih =>
      rw [List.takeWhile_cons]
      split
      next hy =>
        obtain rfl : y = '#' := by simpa using hy
        rw [byteSize, ih, List.length_cons, Nat.add_comm]
        rfl
      · rfl
  have hquote : onward (behind.takeWhile (· == '#')).length behind =
      .ok (behind.drop (behind.takeWhile (· == '#')).length) := by
    have hcut := Text.cutAt?_byteSize (behind.takeWhile (· == '#')) (behind.dropWhile (· == '#'))
    rw [List.takeWhile_append_dropWhile, hguards] at hcut
    rw [onward, hcut, Text.drop_length_takeWhile]
  have hbytes : byteSize (lead ++ behind) - byteSize behind = lead.length := by
    have hsize : byteSize lead = lead.length := by
      rw [hlead]
      split <;> rfl
    rw [Text.byteSize_append, hsize]
    omega
  unfold rawStart
  rw [← hlead]
  simp only [List.isPrefixOf_iff_prefix, List.prefix_append, if_true, List.drop_left, hquote,
    bind_ok, hbytes, rawGuards?]
  split <;> rfl

theorem rawStart_none {first : Char} (h : ¬ (if first == 'b' then ['b', 'r'] else ['r']) <+: rest) :
    rawStart rest first = .ok none := by
  have hnot : (if first == 'b' then ['b', 'r'] else ['r']).isPrefixOf rest = false := by
    rw [← Bool.not_eq_true, List.isPrefixOf_iff_prefix]
    exact h
  simp only [rawStart, hnot, Bool.false_eq_true, if_false]
  rfl

theorem guarded_eq (n : Nat) (cs : List Char) :
    (((cs.take n).filter (· == '#')).length == n) = (List.replicate n '#').isPrefixOf cs := by
  induction n generalizing cs with
  | zero => rfl
  | succ n ih =>
    cases cs with
    | nil => rfl
    | cons y cs =>
      rw [List.take_succ_cons, List.replicate_succ, List.isPrefixOf]
      by_cases hy : y = '#'
      · subst hy
        simpa using ih cs
      · have hless := List.length_filter_le (· == '#') (cs.take n)
        rw [List.length_take] at hless
        have hfew : (((cs.take n).filter (· == '#')).length == n + 1) = false :=
          beq_false_of_ne (by omega)
        have hother : ('#' == y) = false := beq_false_of_ne (Ne.symm hy)
        rw [List.filter_cons_of_neg (by simpa using hy), hfew, hother, Bool.false_and]

theorem followsWord_at (hc : c.text = text) :
    followsWord text c.offset = .ok (c.before.head?.any continuesName) := by
  rw [followsWord, upTo_at hc, bind_ok, List.getLast?_reverse]
  rfl

section
variable {next closers : List Char} (h : c.rest = x :: next)
include h

theorem on_one (stop : Stop) (closers : List Char) (mode mode' : Mode) :
    Scanning.on ⟨c.offset, mode, closers⟩ x.utf8Size mode' =
      turnOf c stop (.go 0 mode' closers) := by
  rw [Scanning.on, turnOf, offset_forward_one h]

theorem on_two (stop : Stop) (closers : List Char) {y : Char} {r : List Char}
    (hnext : next = y :: r) (hx : x.utf8Size = 1) (hy : y.utf8Size = 1) (mode mode' : Mode) :
    Scanning.on ⟨c.offset, mode, closers⟩ 2 mode' = turnOf c stop (.go 1 mode' closers) := by
  rw [Scanning.on, turnOf, offset_two (h.trans (congrArg _ hnext)) hx hy]

theorem on_raw {u v : List Char} {n : Nat} (hu : x :: next = u ++ v)
    (hascii : ∀ y ∈ u, y.utf8Size = 1) (hn : u.length = n + 1)
    (mode mode' : Mode) :
    Scanning.on ⟨c.offset, mode, closers⟩ (n + 1) mode' = turnOf c stop (.go n mode' closers) := by
  rw [Scanning.on, turnOf, ← hn, offset_past_ascii (h.trans hu) hascii]
  rfl

theorem on_lead (lead : List Char) {behind : List Char} {n : Nat}
    (hlead : ∀ y ∈ lead, y.utf8Size = 1)
    (hsplit : x :: next = lead ++ behind) (hn : rawGuards? behind = some n) :
    Scanning.on ⟨c.offset, .code, closers⟩ (lead.length + n + 1) (.raw n) =
      turnOf c stop (.go (n + lead.length) (.raw n) closers) := by
  obtain ⟨v, rfl⟩ := exists_of_rawGuards? hn
  have hascii : ∀ y ∈ lead ++ (List.replicate n '#' ++ ['"']), y.utf8Size = 1 := by
    intro y hy
    rcases List.mem_append.mp hy with hy | hy
    · exact hlead y hy
    rcases List.mem_append.mp hy with hy | hy
    · rw [(List.mem_replicate.mp hy).2]
      rfl
    · rw [List.mem_singleton.mp hy]
      rfl
  rw [Nat.add_comm lead.length n]
  exact on_raw h (hsplit.trans (List.append_assoc _ _ _).symm) hascii (by simp; omega) _ _

theorem plainTurn_letter (stop : Stop) (hc : c.text = text) (hx : x = 'r' ∨ x = 'b') :
    plainTurn text ⟨c.offset, .code, closers⟩ x (x :: next) =
      if c.before.head?.any continuesName then .ok (turnOf c stop (.go 0 .code closers))
      else rawStart (x :: next) x >>= fun
        | some (guards, length) => .ok (Scanning.on ⟨c.offset, .code, closers⟩ length (.raw guards))
        | none => .ok (turnOf c stop (.go 0 .code closers)) := by
  have hmarks : (x == '/') = false ∧ (x == 'r' || x == 'b') = true := by
    rcases hx with rfl | rfl <;> decide
  unfold plainTurn
  simp only [hmarks, Bool.false_and, Bool.false_eq_true, if_false, if_true, followsWord_at hc,
    bind_ok, ← on_one h stop closers .code]
  split <;> rfl

theorem plainTurn_lead (hc : c.text = text) (hx : x = 'r' ∨ x = 'b') (lead : List Char)
    {behind : List Char}
    (hlead : lead = if x == 'b' then ['b', 'r'] else ['r']) (hsplit : x :: next = lead ++ behind) :
    plainTurn text ⟨c.offset, .code, closers⟩ x (x :: next) = .ok (turnOf c stop
      (match if c.before.head?.any continuesName then none else rawGuards? behind with
      | some n => .go (n + lead.length) (.raw n) closers
      | none => .go 0 .code closers)) := by
  have hascii : ∀ y ∈ lead, y.utf8Size = 1 := by
    rw [hlead]
    split <;> decide
  rw [plainTurn_letter h stop hc hx, hsplit, rawStart_eq lead behind hlead, bind_ok]
  cases c.before.head?.any continuesName with
  | true => rfl
  | false =>
    rw [if_neg (by simp), if_neg (by simp)]
    cases hn : rawGuards? behind with
    | none => rfl
    | some n => exact congrArg Except.ok (on_lead h lead hascii hsplit hn)

theorem plainTurn_eq (hc : c.text = text)
    (hplain : (closers.isEmpty && Code.isStop stop x next) = false)
    (hopen : closerOf? x = none) (hclose : isCloser x = false) :
    plainTurn text ⟨c.offset, .code, closers⟩ x (x :: next) =
      .ok (turnOf c stop (codeMove stop closers c.before.head? x next)) := by
  have hone := fun mode => on_one h stop closers .code mode
  unfold codeMove
  simp only [hplain, hopen, hclose, Bool.false_eq_true, if_false]
  by_cases hr : x = 'r'
  · subst hr
    exact plainTurn_lead h hc (.inl rfl) ['r'] rfl rfl
  by_cases hb : x = 'b'
  · subst hb
    by_cases hraw : ∃ r, next = 'r' :: r
    · obtain ⟨r, rfl⟩ := hraw
      exact plainTurn_lead h hc (.inr rfl) ['b', 'r'] rfl rfl
    have hnone : rawStart ('b' :: next) 'b' = .ok none := by
      refine rawStart_none fun hfront => hraw ?_
      obtain ⟨v, hv⟩ := hfront
      exact ⟨v, (List.cons.inj hv).2.symm⟩
    rw [plainTurn_letter h stop hc (.inr rfl), hnone, bind_ok]
    cases next with
    | nil => simp
    | cons y r =>
      have hy : y ≠ 'r' := fun hy => hraw ⟨r, by rw [hy]⟩
      simp [hy]
  unfold plainTurn
  simp only [List.drop_succ_cons, List.drop_zero]
  by_cases hslash : x = '/'
  · subst hslash
    cases next with
    | nil => simpa [pure_eq] using hone .code
    | cons y r =>
      by_cases hy : y = '/'
      · subst hy
        simpa [pure_eq] using on_two h stop closers rfl rfl rfl .code .lineComment
      by_cases hy' : y = '*'
      · subst hy'
        simpa [pure_eq] using on_two h stop closers rfl rfl rfl .code (.blockComment 1)
      · simpa [pure_eq, hy, hy'] using hone .code
  by_cases hquote : x = '"'
  · subst hquote
    simpa [pure_eq] using hone .string
  by_cases hapostrophe : x = '\''
  · subst hapostrophe
    cases hchar : startsChar next with
    | true => simpa [pure_eq, hchar] using hone .char
    | false => simpa [pure_eq, hchar] using hone .code
  · simpa [pure_eq, hslash, hr, hb, hquote, hapostrophe] using hone .code

theorem codeTurn_stop (hstop : Bytewise stop) (hempty : closers.isEmpty = true)
    (hends : Code.isStop stop x next = true) :
    codeTurn text stop ⟨c.offset, .code, closers⟩ x (x :: next) = .ok (turnOf c stop .stop) := by
  rw [turnOf]
  cases stop with
  | closer y =>
    obtain rfl : x = y := by simpa [Code.isStop] using hends
    rw [codeTurn, if_pos (by simp [hempty]), offset_one h (hstop x (List.mem_singleton_self x))]
    rfl
  | openBrace =>
    obtain rfl : x = '\x7b' := by simpa [Code.isStop] using hends
    rw [codeTurn, if_neg (by simp), if_pos (by simp [hempty]), offset_one h rfl]
    rfl
  | fatArrow =>
    obtain ⟨rfl, r, rfl⟩ : x = '=' ∧ ∃ r, next = '>' :: r := by
      simpa [Code.isStop, List.head?_eq_some_iff] using hends
    rw [codeTurn, if_neg (by simp), if_neg (by simp), if_pos (by simp [hempty]),
      offset_two h rfl rfl]
    rfl

omit h in
theorem not_stops (hends : (closers.isEmpty && Code.isStop stop x next) = false) :
    ¬ (closers.isEmpty && stop == .closer x) = true ∧
      ¬ (closers.isEmpty && x == '\x7b' && stop == .openBrace) = true ∧
      ¬ (closers.isEmpty && x == '=' && stop == .fatArrow && next.head? == some '>') = true := by
  cases closers with
  | cons y closers => simp
  | nil =>
    have hnot : Code.isStop stop x next = false := by simpa using hends
    cases stop with
    | closer y =>
      have hne : ¬ y = x := fun heq => by simp [Code.isStop, heq] at hnot
      simp [hne]
    | openBrace =>
      have hne : ¬ x = '\x7b' := by simpa [Code.isStop] using hnot
      simp [hne]
    | fatArrow => simpa [Code.isStop] using hnot

theorem codeTurn_eq (hc : c.text = text) (hstop : Bytewise stop) (closers : List Char) :
    codeTurn text stop ⟨c.offset, .code, closers⟩ x (x :: next) =
      .ok (turnOf c stop (codeMove stop closers c.before.head? x next)) := by
  cases hends : closers.isEmpty && Code.isStop stop x next with
  | true =>
    obtain ⟨hempty, hends'⟩ := Bool.and_eq_true_iff.mp hends
    simp only [codeMove, hends, if_true]
    exact codeTurn_stop h hstop hempty hends'
  | false =>
    obtain ⟨hcloser, hbrace, harrow⟩ := not_stops hends
    unfold codeTurn
    simp only [hcloser, hbrace, harrow, List.drop_succ_cons, List.drop_zero, Bool.false_eq_true,
      if_false]
    cases hopen : closerOf? x with
    | some closer =>
      simp only [codeMove, hends, hopen, Bool.false_eq_true, if_false]
      rw [turnOf, offset_forward_one h]
      rfl
    | none =>
      cases hclose : isCloser x with
      | false =>
        simp only [Bool.false_eq_true, if_false]
        exact plainTurn_eq h hc hends hopen hclose
      | true =>
        simp only [codeMove, hends, hopen, hclose, Bool.false_eq_true, if_false, if_true]
        cases closers with
        | nil => rfl
        | cons y closers =>
          dsimp only
          split
          · rw [turnOf, offset_forward_one h]
            rfl
          · rfl

theorem scanTurn_move (hc : c.text = text) (hstop : Bytewise stop) (mode : Mode)
    (closers : List Char) :
    scanTurn text stop ⟨c.offset, mode, closers⟩ =
      .ok (turnOf c stop (move stop mode closers c.before.head? x next)) := by
  have hone := fun mode mode' => congrArg (Except.ok (ε := Halt)) (on_one h stop closers mode mode')
  unfold scanTurn
  simp only [onward_at hc, bind_ok, h, List.drop_succ_cons, List.drop_zero, pure_eq]
  cases mode with
  | code => exact codeTurn_eq h hc hstop closers
  | raw n =>
    have hquote : onward 1 ('"' :: next) = .ok next := by
      rw [onward, show Text.cutAt? 1 ('"' :: next) =
        some (['"'], next) from Text.cutAt?_byteSize ['"'] next]
    dsimp only [move]
    by_cases hx : x = '"'
    · subst hx
      simp only [beq_self_eq_true, Bool.true_and, if_true, hquote, bind_ok, guarded_eq]
      split
      next hguards =>
        obtain ⟨v, hv⟩ := List.isPrefixOf_iff_prefix.mp hguards
        refine congrArg Except.ok
          ((Nat.add_comm 1 n).symm ▸ on_raw (v := v) h (u := '"' :: List.replicate n '#') ?_ ?_
            (by simp) _ _)
        · rw [← hv, List.cons_append]
        · intro y hy
          rcases List.mem_cons.mp hy with rfl | hy
          · rfl
          · rw [(List.mem_replicate.mp hy).2]
            rfl
      · exact hone _ _
    · simpa [hx] using hone _ _
  | blockComment d =>
    have htwo :=
      fun {y : Char} {r : List Char} (hnext : next = y :: r) (hx : x.utf8Size = 1)
        (hy : y.utf8Size = 1) mode' =>
      congrArg (Except.ok (ε := Halt)) (on_two h stop closers hnext hx hy (.blockComment d) mode')
    dsimp only [move]
    split
    next hstar =>
      obtain ⟨rfl, r, hnext⟩ : x = '*' ∧ ∃ r, next = '/' :: r := by
        simpa [List.head?_eq_some_iff] using hstar
      exact htwo hnext rfl rfl _
    split
    next hslash =>
      obtain ⟨rfl, r, hnext⟩ : x = '/' ∧ ∃ r, next = '*' :: r := by
        simpa [List.head?_eq_some_iff] using hslash
      exact htwo hnext rfl rfl _
    · exact hone _ _
  | _ => exact hone _ _

end

theorem scanTurn_nil (hc : c.text = text) (h : c.rest = []) (mode : Mode) (closers : List Char) :
    scanTurn text stop ⟨c.offset, mode, closers⟩ =
      .ok (if mode = .lineComment then .next ⟨c.offset, .code, closers⟩ else .last
        (.error (c.offset, mode.atEnd stop))) := by
  unfold scanTurn
  simp only [onward_at hc, bind_ok, h]
  cases mode <;> rfl

theorem told_after (c : Cursor) (stop : Stop) (u : List Char) (r : Reading) :
    told c stop (after u r) = told (c.past u) stop r := by
  cases r with
  | ok code => rw [after, told, told, List.append_assoc, past_append, past_append]
  | error f => rw [after, told, told, past_append]

theorem scanFrom_skip (k : Nat) (mode : Mode) (closers : List Char) (c : Cursor) :
    scanFrom stop k mode closers c.before.head? c.rest =
      after (c.rest.take k)
        (scanFrom stop 0 mode closers (c.forward k).before.head? (c.forward k).rest) := by
  induction k generalizing c with
  | zero => exact (after_nil _).symm
  | succ k ih =>
    obtain ⟨b, r, o, ho⟩ := c
    cases r with
    | nil => rfl
    | cons x r =>
      have hrest := ih ⟨x :: b, r, o + x.utf8Size, by simp [byteSize, ho, Nat.add_comm]⟩
      exact (scanFrom_cons k mode closers _ x r).trans
        ((congrArg (after [x]) hrest).trans (after_after _ _ _))

theorem two_of_move {mode : Mode} {closers closers' next : List Char} {p : Option Char} {skip : Nat}
    (h : move stop mode closers p x next = .go skip .lineComment closers') :
    mode = .lineComment ∨ skip = 1 ∧ next ≠ [] := by
  cases mode with
  | lineComment => exact .inl rfl
  | code =>
    simp only [move, codeMove] at h
    repeat' split at h
    all_goals cases h
    exact .inr ⟨rfl, List.cons_ne_nil _ _⟩
  | _ =>
    simp only [move] at h
    repeat' split at h
    all_goals cases h

/-- What a scan has left to do: the characters, and at their end a comment to leave. -/
def left (mode : Mode) (c : Cursor) : Nat := c.rest.length + if mode = .lineComment then 1 else 0

theorem left_of_move {d : Cursor} {mode mode' : Mode} {closers closers' : List Char}
    {p : Option Char} {skip : Nat} (hrest : d.rest = x :: rest)
    (hmove : move stop mode closers p x rest = .go skip mode' closers') :
    left mode' (d.forward (skip + 1)) < left mode d := by
  have hlength : (d.forward (skip + 1)).rest.length = rest.length - skip := by
    rw [rest_forward, hrest, List.drop_succ_cons, List.length_drop]
  have htwo : mode' = .lineComment → mode = .lineComment ∨ skip = 1 ∧ 0 < rest.length := by
    rintro rfl
    exact (two_of_move hmove).imp_right (And.imp_right List.length_pos_of_ne_nil)
  rw [left, left, hlength, hrest, List.length_cons]
  split
  next hmode' =>
    rcases htwo hmode' with hmode | ⟨rfl, hpos⟩
    · rw [if_pos hmode]
      omega
    · omega
  · omega

theorem told_move {d : Cursor} (hrest : d.rest = x :: rest) (skip : Nat) (mode : Mode)
    (closers : List Char) :
    told d stop (scanFrom.prepend x (scanFrom stop skip mode closers (some x) rest)) =
      told (d.forward (skip + 1)) stop
      (scanFrom stop 0 mode closers (d.forward (skip + 1)).before.head?
        (d.forward (skip + 1)).rest) := by
  have hskip := @scanFrom_skip stop skip mode closers (d.forward 1)
  have hhead : (d.forward 1).before.head? = some x := by simp [before_forward, hrest]
  have hnext : (d.forward 1).rest = rest := by simp [hrest]
  rw [hhead, hnext, forward_forward, Nat.add_comm 1 skip] at hskip
  have hpast : (d.past [x]).past (rest.take skip) = d.forward (skip + 1) := by
    rw [← hnext]
    exact (past_take (d.forward 1) skip).trans (by rw [forward_forward, Nat.add_comm])
  rw [prepend_eq, hskip, told_after, told_after, hpast]

theorem scan_settles (n : Nat) (hc : c.text = text) (hstop : Bytewise stop) :
    Settles False (c.rest.length < n) (scan n text c.offset stop)
      (told c stop (Code.scan stop c.before.head? c.rest)) := by
  refine (loop_settles True (fun m s r => ∃ d mode closers, s = ⟨d.offset, mode, closers⟩ ∧
    d.text = text ∧
    m = left mode d ∧ r = told d stop (scanFrom stop 0 mode closers d.before.head? d.rest)) ?_ n
      (left .code c) _ _
    ⟨c, .code, [], rfl, hc, rfl, rfl⟩).weaken id fun hn => ⟨trivial, hn⟩
  rintro m s r ⟨d, mode, closers, rfl, hd, rfl, rfl⟩
  refine .inl ?_
  cases hrest : d.rest with
  | nil =>
    refine ⟨_, settles_ok (scanTurn_nil hd hrest mode closers), ?_⟩
    by_cases hmode : mode = .lineComment
    · subst hmode
      exact .inr ⟨_, left .code d, rfl,
        by simp [left], d, .code, closers, rfl, hd, rfl, by rw [hrest]; rfl⟩
    · refine .inl ?_
      rw [if_neg hmode]
      rfl
  | cons x next =>
    refine ⟨_, settles_ok (scanTurn_move hrest hd hstop mode closers), ?_⟩
    rw [scanFrom]
    cases hmove : move stop mode closers d.before.head? x next with
    | stop => exact .inl rfl
    | fail e => exact .inl rfl
    | go skip mode' closers' =>
      exact .inr ⟨_, left mode' (d.forward (skip + 1)), rfl, left_of_move hrest hmove,
        d.forward (skip + 1), mode', closers', rfl,
        by rw [text_forward, hd], rfl, told_move hrest skip mode' closers'⟩

end

end Templating.Offset
