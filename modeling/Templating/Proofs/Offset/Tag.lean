import Templating.Markup.Tag
import Templating.Proofs.Markup.Advance
import Templating.Proofs.Offset.Implicit

/-! Tags by byte offsets. A slash in a tag that does not end it keeps the loop over the attributes
where it is, turn after turn: a run that heeds such slashes stops there, one that does not never
comes to an end. -/
namespace Templating.Offset
open Code (ScanError Stop)
open Markup (Piece)
open Text (Cursor byteSize isBlank)
open Text.Cursor

section
variable (n : Nat) (text : List Char)

/-! Quoted values -/

def followsAlphanumeric (i : Nat) : Attempt Bool := do
  let before ← upTo i text
  return before.getLast?.any Text.isAlphanumeric

structure Valuing where
  draft : Markup.Tag.Draft
  offset : Nat

def Valuing.char (s : Valuing) (c : Char) (step : Nat) : Turn Valuing (Option Valuing) :=
  .next ⟨{ s.draft with pending := s.draft.pending ++ [c] }, s.offset + step⟩

def Valuing.expression (s : Valuing) (code : List Char) (stop : Nat) :
    Turn Valuing (Option Valuing) :=
  .next ⟨s.draft.expression (.ofList code) s.offset stop, stop⟩

def Valuing.delimited (s : Valuing) : Attempt (Turn Valuing (Option Valuing)) := do
  match ← scan n text (s.offset + 2) (.closer ')') with
  | .ok (stop, after) =>
    let code ← between (s.offset + 2) stop text
    return s.expression (Text.trim code) after
  | .error _ => return .last none

def Valuing.bare (s : Valuing) : Attempt (Turn Valuing (Option Valuing)) := do
  match ← implicitEnd n text (s.offset + 1) with
  | .ok stop =>
    let code ← between (s.offset + 1) stop text
    return s.expression code stop
  | .error _ => return .last none

def valueTurn (quote : Char) (s : Valuing) : Attempt (Turn Valuing (Option Valuing)) := do
  let rest ← onward s.offset text
  match rest with
  | [] => return .last none
  | c :: _ =>
    if c == quote then return .last (some s)
    else if c != '@' then return s.char c c.utf8Size
    else do
      let behind ← onward (s.offset + 1) text
      match behind with
      | [] => return s.char '@' 1
      | next :: _ =>
        if next == '@' then return s.char '@' 2
        else if ← (if Text.isAlphanumeric next then followsAlphanumeric text s.offset else pure
          false) then
          return s.char '@' 1
        else if next == '(' then s.delimited n text
        else if Text.startsName next then s.bare n text
        else return s.char '@' 1

/-! Tags -/

structure Tagging where
  pieces : List Piece
  markup : List Char
  markupAt : Nat
  offset : Nat

def Tagging.markTo (s : Tagging) (i : Nat) : Attempt Tagging := do
  let cs ← between s.offset i text
  return { s with markup := s.markup ++ cs, offset := i }

def Tagging.quoted (s : Tagging) (name : List Char) (valueAt : Nat) (quote : Char) :
    Attempt (Turn Tagging (Option (List Piece × Nat))) := do
  match ← loop (valueTurn n text quote) n ⟨{ pendingAt := valueAt + 1 }, valueAt + 1⟩ with
  | none => return .last none
  | some ⟨d, i⟩ =>
    let stop := i + quote.utf8Size
    let lead ← between s.offset (valueAt + 1) text
    if d.parts.isEmpty then
      return .next { s with markup := s.markup ++ lead ++ d.pending ++ [quote], offset := stop }
    else
      let a : Markup.Attribute :=
        ⟨.ofList name, .ofList lead, quote.toString, d.parts ++ d.literal i⟩
      let node : Piece := .node (.attribute a) ⟨s.offset, stop⟩ false
      return .next ⟨s.pieces ++ Markup.Tag.text s.markup s.markupAt ++ [node], [], stop, stop⟩

def Tagging.attribute (s : Tagging) (i : Nat) :
    Attempt (Turn Tagging (Option (List Piece × Nat))) := do
  let nameEnd ← skipWhile (!Markup.Tag.endsName ·) text i
  let name ← between i nameEnd text
  let equals ← skipWhile isBlank text nameEnd
  let sign ← onward equals text
  if ['='].isPrefixOf sign then do
    let valueAt ← skipWhile isBlank text (equals + 1)
    let value ← onward valueAt text
    match value with
    | [] => return .last none
    | quote :: _ =>
      if quote == '"' || quote == '\'' then s.quoted n text name valueAt quote
      else do
        let stop ← skipWhile (fun c => !(isBlank c || c == '>')) text valueAt
        return .next (← s.markTo text stop)
  else return .next (← s.markTo text nameEnd)

def tagTurn (heed : Bool) (s : Tagging) : Attempt (Turn Tagging (Option (List Piece × Nat))) := do
  let i ← skipWhile isBlank text s.offset
  let rest ← onward i text
  if ['>'].isPrefixOf rest || ['/', '>'].isPrefixOf rest then do
    let s ← s.markTo text (i + if ['>'].isPrefixOf rest then 1 else 2)
    return .last (some (s.pieces ++ Markup.Tag.text s.markup s.markupAt, s.offset))
  else match rest with
    | [] => return .last none
    | c :: _ =>
      if ['@', '"', '\'', '=', '<', '\x7b', '\x7d'].contains c then return .last none
      else if heed && c == '/' then .error .slash
      else s.attribute n text i

def tag (heed : Bool) (i : Nat) : Attempt (Option (List Piece × Nat)) := do
  let rest ← onward (i + 1) text
  if rest.head?.any Char.isAlpha then do
    let nameEnd ← skipWhile (!Markup.Tag.endsTagName ·) text (i + 1)
    let name ← between i nameEnd text
    loop (tagTurn n text heed) n ⟨[], name, i, nameEnd⟩
  else return none

end

/-! What these tell is what is read at a cursor -/

section
variable {n : Nat} {text : List Char} {c : Cursor}

def valued : Option (Markup.Tag.Draft × Cursor) → Option Valuing :=
  Option.map fun p => ⟨p.1, p.2.offset⟩

theorem followsAlphanumeric_at (hc : c.text = text) :
    followsAlphanumeric text c.offset = .ok (c.before.head?.any Text.isAlphanumeric) := by
  rw [followsAlphanumeric, upTo_at hc, bind_ok, List.getLast?_reverse]
  rfl

def ValueGoesOn (text : List Char) (quote : Char) (k : Nat) (r : Option Valuing) (d : Cursor)
    (s : Valuing) : Prop :=
  s.offset = d.offset ∧ d.text = text ∧ r = valued (Markup.Tag.value quote k s.draft d)

section
variable {enough : Prop} {quote x : Char} {next : List Char} {k : Nat} {r : Option Valuing}
  {draft : Markup.Tag.Draft}
  (hc : c.text = text)
include hc

theorem char_advances (m : Nat) {y : Char} {step : Nat} (h : c.rest ≠ [])
    (hstep : c.offset + step = (c.forward (m + 1)).offset)
    (hr : valued (Markup.Tag.value quote k { draft with pending := draft.pending ++ [y] }
      (c.forward (m + 1))) = r) :
    Advances False enough (.ok (Valuing.char ⟨draft, c.offset⟩ y step)) c r
      (ValueGoesOn text quote k r) := by
  exact advances_next (s := ⟨{ draft with pending := draft.pending ++ [y] }, c.offset + step⟩)
    (settles_ok rfl)
    (beyond_forward h m) ⟨hstep, (text_forward _ c).trans hc, hr.symm⟩

theorem expression_advances (m : Nat) {code : List Char} {stop : Nat} (h : c.rest ≠ [])
    (hstop : stop = (c.forward (m + 1)).offset)
    (hr : valued (Markup.Tag.value quote k
      (draft.expression (.ofList code) c.offset (c.forward (m + 1)).offset)
      (c.forward (m + 1))) = r) :
    Advances False enough (.ok (Valuing.expression ⟨draft, c.offset⟩ code stop)) c r
      (ValueGoesOn text quote k r) := by
  subst hstop
  exact advances_next (settles_ok rfl) (beyond_forward h m) ⟨rfl, (text_forward _ c).trans hc,
    hr.symm⟩

theorem delimited_advances (henough : enough → c.rest.length ≤ n) {behind : List Char}
    (hrest : c.rest = '@' :: '(' :: behind)
    (hinside : Markup.insideWord c '(' = false)
      (hr : valued (Markup.Tag.value quote (k + 1) draft c) = r)
    (hquote : ('@' == quote) = false) :
    Advances False enough (Valuing.delimited n text ⟨draft, c.offset⟩) c r
      (ValueGoesOn text quote k r) := by
  have htwo : c.offset + 2 = (c.past ['@', '(']).offset := offset_two hrest rfl rfl
  have hscan := scan_enclosed ['@', '('] hc hrest (by simp) (by decide) henough (x := ')') rfl
  refine Advances.bind hscan ?_
  cases hcode : Code.scan (.closer ')') ['@', '('].getLast? behind with
  | error f =>
    have htransition : Markup.Tag.transition c ('(' :: behind) = .bad := by
      simp_all [Markup.Tag.transition]
    have hnone : r = valued none := by
      rw [← hr, Markup.Tag.value, hrest]
      simp [hquote, htransition]
    rw [hnone]
    exact advances_last (settles_ok rfl)
  | ok code =>
    have htransition :
        Markup.Tag.transition c ('(' :: behind) =
        .expression (.ofList (Text.trim code)) (code.length + 2) := by
      simp_all [Markup.Tag.transition]
    obtain ⟨rest, hbehind⟩ := Code.prefix_of_scan hcode
    have hcall : (c.past ['@', '(']).rest = code ++ (Stop.text (.closer ')') ++ rest) :=
      (rest_forward_of_append (show c.rest = ['@', '('] ++ behind from hrest)).trans hbehind
    have hbetween := between_at (c := c.past ['@', '(']) ((text_forward _ c).trans hc) hcall
    rw [← htwo] at hbetween
    refine Advances.bind (settles_ok hbetween)
      (expression_advances hc (code.length + 2) (by simp [hrest]) ?_ ?_)
    · have hlength :
          (['@', '('] ++ (code ++ Stop.text (.closer ')'))).length = code.length + 2 + 1 := by
        simp only [List.length_append, List.length_cons, List.length_nil, Stop.text]
        omega
      rw [← past_append, past, hlength]
    · rw [← hr, Markup.Tag.value, hrest]
      simp [hquote, htransition]

theorem bare_advances (henough : enough → c.rest.length ≤ n) {y : Char} {behind : List Char}
    (hrest : c.rest = '@' :: y :: behind)
    (hinside : Markup.insideWord c y = false) (hy : y ≠ '@') (hparen : y ≠ '(')
      (hname : Text.startsName y = true)
    (hr : valued (Markup.Tag.value quote (k + 1) draft c) = r) (hquote : ('@' == quote) = false) :
    Advances False enough (Valuing.bare n text ⟨draft, c.offset⟩) c r
      (ValueGoesOn text quote k r) := by
  have hnext : (c.forward 1).rest = y :: behind := by simp [hrest]
  have hforward : (c.forward 1).text = text := (text_forward 1 c).trans hc
  have hone : c.offset + 1 = (c.forward 1).offset := offset_one hrest rfl
  have hend := implicitEnd_settles (n := n) hforward
  rw [hnext, ← hone] at hend
  refine Advances.bind (hend.weaken id fun h => ?_) ?_
  · have hle := henough h
    rw [hrest, List.length_cons] at hle
    exact hle
  cases hcode : Markup.Implicit.read (y :: behind) with
  | error f =>
    have htransition : Markup.Tag.transition c (y :: behind) = .bad := by
      simp_all [Markup.Tag.transition]
    have hnone : r = valued none := by
      rw [← hr, Markup.Tag.value, hrest]
      simp [hquote, htransition]
    rw [hnone]
    exact advances_last (settles_ok rfl)
  | ok code =>
    have htransition :
        Markup.Tag.transition c (y :: behind) = .expression (.ofList code) code.length := by
      simp_all [Markup.Tag.transition]
    have hfront := Markup.Implicit.atFront_read (y :: behind)
    rw [hcode] at hfront
    obtain ⟨rest, hbehind⟩ := hfront
    have hbetween := between_at hforward (hnext.trans hbehind.symm)
    rw [← hone] at hbetween
    refine Advances.bind (settles_ok hbetween)
      (expression_advances hc code.length (by simp [hrest]) ?_ ?_)
    · rw [past, forward_forward, Nat.add_comm]
    · rw [← hr, Markup.Tag.value, hrest]
      simp [hquote, htransition]

theorem valueTurn_advances (henough : enough → c.rest.length ≤ n) (quote : Char) (k : Nat)
    (draft : Markup.Tag.Draft) :
    Advances False enough (valueTurn n text quote ⟨draft, c.offset⟩) c
      (valued (Markup.Tag.value quote (k + 1) draft c))
      (ValueGoesOn text quote k (valued (Markup.Tag.value quote (k + 1) draft c))) := by
  generalize hr : valued (Markup.Tag.value quote (k + 1) draft c) = r
  have hvalue := hr
  unfold Markup.Tag.value at hvalue
  rw [valueTurn, onward_at hc, bind_ok]
  cases hrest : c.rest with
  | nil =>
    rw [hrest] at hvalue
    exact advances_last (settles_ok (by rw [← hvalue]; rfl))
  | cons x next =>
    have hne : c.rest ≠ [] := by simp [hrest]
    rw [hrest] at hvalue
    dsimp only at hvalue ⊢
    split at hvalue
    next hquote =>
      rw [if_pos hquote, ← hvalue]
      exact advances_last (settles_ok rfl)
    next hquote =>
      rw [if_neg hquote]
      split at hvalue
      next hat =>
        rw [if_pos hat]
        exact char_advances hc 0 hne (offset_forward_one hrest).symm hvalue
      next hat =>
        rw [if_neg hat]
        obtain rfl : x = '@' := by simpa using hat
        have hnext : (c.forward 1).rest = next := by simp [hrest]
        have hone : c.offset + 1 = (c.forward 1).offset := offset_one hrest rfl
        rw [hone, onward_at ((text_forward 1 c).trans hc), hnext, bind_ok]
        cases next with
        | nil => exact char_advances hc 0 hne hone hvalue
        | cons y behind =>
          by_cases hy : y = '@'
          · subst hy
            exact char_advances hc 1 hne (offset_two hrest rfl rfl) hvalue
          have hword :
            (if Text.isAlphanumeric y then followsAlphanumeric text c.offset else pure false) =
              .ok (Markup.insideWord c y) := by
            rw [Markup.insideWord, followsAlphanumeric_at hc]
            cases Text.isAlphanumeric y <;> rfl
          dsimp only
          rw [if_neg (by simpa using hy), hword, bind_ok]
          cases hinside : Markup.insideWord c y with
          | true =>
            have htransition : Markup.Tag.transition c (y :: behind) = .literal := by
              simp [Markup.Tag.transition, hinside]
            rw [htransition] at hvalue
            exact char_advances hc 0 hne hone hvalue
          | false =>
            rw [if_neg (by simp)]
            split
            next hparen =>
              obtain rfl : y = '(' := by simpa using hparen
              exact delimited_advances hc henough hrest hinside hr (by simpa using hquote)
            next hparen =>
              split
              next hname =>
                exact bare_advances hc henough hrest hinside hy (by simpa using hparen) hname hr
                  (by simpa using hquote)
              next hname =>
                have htransition : Markup.Tag.transition c (y :: behind) = .literal := by
                  simp_all [Markup.Tag.transition]
                rw [htransition] at hvalue
                exact char_advances hc 0 hne hone hvalue

end

/-! Tags -/

def tagged (ps : List Piece) : Option (List Piece × Cursor) → Option (List Piece × Nat) :=
  Option.map fun p => (ps ++ p.1, p.2.offset)

def TagGoesOn (text : List Char) (k : Nat) (r : Option (List Piece × Nat)) (d : Cursor)
    (s : Tagging) : Prop :=
  s.offset = d.offset ∧ d.text = text ∧
    r = tagged s.pieces (Markup.Tag.attributes k s.markup s.markupAt d)

section
variable {enough : Prop} {d : Cursor} {u : List Char} {s : Tagging} (hc : c.text = text)
include hc

theorem markTo_ahead (hs : s.offset = c.offset) (hd : Ahead c d) (hu : c.rest = u ++ d.rest) :
    s.markTo text d.offset = .ok { s with markup := s.markup ++ u, offset := d.offset } := by
  rw [Tagging.markTo, hs, between_ahead hc hd hu]
  rfl

end

theorem value_settles (hc : c.text = text) (quote : Char) (draft : Markup.Tag.Draft) :
    Settles False (c.rest.length < n) (loop (valueTurn n text quote) n ⟨draft, c.offset⟩)
      (valued (Markup.Tag.value quote (c.rest.length + 1) draft c)) := by
  refine (loop_steps (c.rest.length ≤ n) (fun k d s r => ValueGoesOn text quote k r d s) ?_
    ⟨rfl, hc, rfl⟩ (Nat.lt_succ_self _) (Nat.le_refl _)).weaken id fun h => ⟨Nat.le_of_lt h, h⟩
  rintro k d ⟨draft, i⟩ r - hle ⟨rfl, hd, rfl⟩
  exact .inl (valueTurn_advances hd hle.trans quote k draft)

section
variable {enough : Prop} {r : Option (List Piece × Nat)} {s : Tagging} {k : Nat}

theorem markTo_advances (hc : c.text = text) (hs : s.offset = c.offset) {d : Cursor} {u : List Char}
    (hd : Beyond c d) (hu : c.rest = u ++ d.rest)
    (hr : tagged s.pieces (Markup.Tag.attributes k (s.markup ++ u) s.markupAt d) = r) :
    Advances False enough (do return .next (← s.markTo text d.offset)) c r (TagGoesOn text k r) :=
  Advances.bind (settles_ok (markTo_ahead hc hs hd.ahead hu))
    (advances_next (settles_ok rfl) hd ⟨rfl, hd.ahead.text_eq.trans hc, hr.symm⟩)

section
variable {v : Cursor} {quote : Char} {rest lead name : List Char} (hv : v.text = text)
  (hrest : v.rest = quote :: rest)
  (hquote : quote.utf8Size = 1) (henough : enough → v.rest.length ≤ n)
include hv hrest hquote henough

theorem quoted_settles :
    Settles False enough
    (loop (valueTurn n text quote) n ⟨{ pendingAt := v.offset + 1 }, v.offset + 1⟩)
    (valued (Markup.Tag.value quote ((v.forward 1).rest.length + 1)
      { pendingAt := (v.forward 1).offset } (v.forward 1))) := by
  have hvalue :=
    value_settles (n := n) ((text_forward 1 v).trans hv) quote { pendingAt := (v.forward 1).offset }
  rw [← offset_one hrest hquote] at hvalue
  rw [← offset_one hrest hquote]
  refine hvalue.weaken id fun h => ?_
  have hle := henough h
  have hshorter : (v.forward 1).rest.length < v.rest.length :=
    (beyond_forward (by simp [hrest]) 0).shorter
  omega

theorem quoted_fails {again : Cursor → Tagging → Prop}
    (hvalue : Markup.Tag.value quote ((v.forward 1).rest.length + 1)
    { pendingAt := (v.forward 1).offset } (v.forward 1) = none) :
    Advances False enough (s.quoted n text name v.offset quote) c none again := by
  have hsettles := quoted_settles hv hrest hquote henough
  rw [hvalue] at hsettles
  exact Advances.bind hsettles (advances_last (settles_ok rfl))

theorem quoted_advances (hc : c.text = text) (hs : s.offset = c.offset) (hcv : Ahead c v)
    (hlead : c.rest = lead ++ v.rest) {d : Markup.Tag.Draft} {e : Cursor}
      (hvalue : Markup.Tag.value quote ((v.forward 1).rest.length + 1)
      { pendingAt := (v.forward 1).offset } (v.forward 1) = some (d, e))
    (hr : tagged s.pieces (if d.parts.isEmpty then
        Markup.Tag.attributes k (s.markup ++ lead ++ [quote] ++ d.pending ++ [quote]) s.markupAt
          (e.forward 1)
      else (Markup.Tag.attributes k [] (e.forward 1).offset (e.forward 1)).map fun p =>
        (Markup.Tag.text s.markup s.markupAt ++
          .node (.attribute ⟨.ofList name, .ofList (lead ++ [quote]), quote.toString,
          d.parts ++ d.literal e.offset⟩) ⟨c.offset, (e.forward 1).offset⟩ false :: p.1, p.2)) =
            r) :
    Advances False enough (s.quoted n text name v.offset quote) c r (TagGoesOn text k r) := by
  have hsettles := quoted_settles hv hrest hquote henough
  obtain ⟨hve, rest', herest⟩ := Markup.Tag.ahead_value hvalue
  have hbeyond : Beyond c (e.forward 1) :=
    ((hcv.trans (ahead_forward v 1)).trans hve).beyond (beyond_forward (by simp [herest]) 0)
  have hstop : e.offset + quote.utf8Size = (e.forward 1).offset := (offset_forward_one herest).symm
  have hfirst : between c.offset (v.offset + 1) text = .ok (lead ++ [quote]) := by
    rw [offset_one hrest hquote]
    refine between_ahead hc (hcv.trans (ahead_forward v 1)) ?_
    rw [hlead, hrest, rest_forward, hrest]
    simp
  rw [hvalue] at hsettles
  refine Advances.bind hsettles ?_
  show Advances _ _ (between s.offset (v.offset + 1) text >>= _) _ _ _
  rw [hs, hfirst, bind_ok]
  dsimp only
  split
  next hparts =>
    refine advances_next (settles_ok rfl) hbeyond ⟨hstop, hbeyond.ahead.text_eq.trans hc, ?_⟩
    rw [← hr, if_pos hparts, ← List.append_assoc s.markup]
  next hparts =>
    refine advances_next (settles_ok rfl) hbeyond ⟨hstop, hbeyond.ahead.text_eq.trans hc, ?_⟩
    rw [← hr, if_neg hparts, tagged, tagged, Option.map_map, hstop]
    exact congrArg (fun f => Option.map f _) (funext fun p => by simp)

end

theorem named_of_attribute {x : Char} {rest : List Char} (hrest : (c.skip isBlank).rest = x :: rest)
    (hclose : ¬ ['>'].isPrefixOf (x :: rest))
    (hx : ¬ ['@', '"', '\'', '=', '<', '\x7b', '\x7d'].contains x) (hslash : x ≠ '/') :
    Markup.Tag.endsName x = false := by
  have hblank := Text.any_head?_dropWhile isBlank c.rest
  rw [← rest_skip, hrest] at hblank
  have hgreater : x ≠ '>' := by
    rintro rfl
    exact hclose (by simp)
  have hx' := hx
  simp only [List.contains_cons, List.contains_nil, Bool.or_eq_true, beq_iff_eq, not_or] at hx'
  simp_all [Markup.Tag.endsName]

theorem attribute_advances (hc : c.text = text) (henough : enough → c.rest.length ≤ n)
    (hs : s.offset = c.offset)
    (hr : tagged s.pieces (Markup.Tag.attributes (k + 1) s.markup s.markupAt c) = r) {x : Char}
      {rest : List Char}
    (hrest : (c.skip isBlank).rest = x :: rest)
      (hcloses : ¬ (['>'].isPrefixOf (x :: rest) || ['/', '>'].isPrefixOf (x :: rest)))
    (hx : ¬ ['@', '"', '\'', '=', '<', '\x7b', '\x7d'].contains x) (hslash : x ≠ '/') :
    Advances False enough (s.attribute n text (c.skip isBlank).offset) c r
      (TagGoesOn text k r) := by
  have hends := named_of_attribute hrest (fun h => hcloses (by simp [h])) hx hslash
  have hblanks := ahead_skip c isBlank
  have hname : Beyond (c.skip isBlank) ((c.skip isBlank).skip (!Markup.Tag.endsName ·)) :=
    beyond_skip hrest (by simp [hends])
  have hafter : Beyond c ((c.skip isBlank).skip (!Markup.Tag.endsName ·)) := hblanks.beyond hname
  have hequals := hafter.trans (ahead_skip _ isBlank)
  have hat := hblanks.text_eq.trans hc
  have hread := (takeWhile_append_rest_skip (!Markup.Tag.endsName ·) (c.skip isBlank)).symm
  rw [Tagging.attribute, skipWhile_at hat, bind_ok, between_ahead hat hname.ahead hread, bind_ok,
    skipWhile_at (hafter.ahead.text_eq.trans hc), bind_ok,
      onward_at (hequals.ahead.text_eq.trans hc), bind_ok]
  have hskip : ∀ (p : Char → Bool) (d : Cursor), d.past (d.rest.takeWhile p) = d.skip p :=
    fun _ _ => rfl
  unfold Markup.Tag.attributes at hr
  simp only [hskip] at hr
  -- the places behind the name and before the sign of equality
  generalize ha : (c.skip isBlank).skip (!Markup.Tag.endsName ·) = a at *
  generalize he : a.skip isBlank = e at *
  split at hr
  next h => cases hrest.symm.trans h
  next h =>
    obtain ⟨rfl, rfl⟩ := List.cons.inj (hrest.symm.trans h)
    exact absurd (by simp) hcloses
  next h =>
    obtain ⟨rfl, rfl⟩ := List.cons.inj (hrest.symm.trans h)
    exact absurd (by simp) hcloses
  next h =>
    obtain ⟨rfl, rfl⟩ := List.cons.inj (hrest.symm.trans h)
    rw [if_neg hx] at hr
    split at hr
    next hempty =>
      rw [h] at hempty
      simp [hends] at hempty
    split at hr
    next r' hsign =>
      have hvalue := (hequals.trans (ahead_forward e 1)).trans (ahead_skip _ isBlank)
      have hlead := take_ahead hvalue.ahead
      rw [if_pos (by rw [hsign]; rfl), offset_one hsign rfl,
        skipWhile_at ((text_forward 1 e).trans (hequals.ahead.text_eq.trans hc)), bind_ok]
      generalize hv : (e.forward 1).skip isBlank = v at *
      have hvtext := hvalue.ahead.text_eq.trans hc
      split at hr
      next hend =>
        rw [onward_at hvtext, bind_ok, hend, ← hr]
        exact advances_last (settles_ok rfl)
      next quote rest' hquote =>
        rw [onward_at hvtext, bind_ok, hquote]
        dsimp only
        split at hr
        next hmarks =>
          have hsize : quote.utf8Size = 1 := by
            simp only [Bool.or_eq_true, beq_iff_eq] at hmarks
            rcases hmarks with rfl | rfl <;> rfl
          have hn := fun h => hvalue.ahead.length_le.trans (henough h)
          rw [if_pos hmarks]
          split at hr
          next hnone =>
            rw [← hr]
            exact quoted_fails hvtext hquote hsize hn hnone
          next d i hsome =>
            exact quoted_advances hvtext hquote hsize hn hc hs hvalue.ahead hlead hsome hr
        next hmarks =>
          rw [if_neg hmarks, skipWhile_at hvtext, bind_ok]
          refine markTo_advances hc hs (hvalue.trans (ahead_skip v _)) ?_
            ((congrArg _ (by rw [← List.append_assoc])).trans hr)
          rw [List.append_assoc, takeWhile_append_rest_skip]
          exact hlead
    next hsign =>
      have hnone : ¬ ['='].isPrefixOf e.rest := by
        intro hfront
        obtain ⟨w, hw⟩ := List.isPrefixOf_iff_prefix.mp hfront
        exact hsign w hw.symm
      rw [if_neg hnone]
      refine markTo_advances hc hs hafter ?_ ((congrArg _ (by rw [← List.append_assoc])).trans hr)
      rw [List.append_assoc, ← hread, takeWhile_append_rest_skip]

def AtSlash (c : Cursor) : Prop :=
  ∃ rest, (c.skip isBlank).rest = '/' :: rest ∧ ∀ r, rest ≠ '>' :: r

theorem closes_slash {rest : List Char} (h : ∀ r, rest ≠ '>' :: r) :
    ¬ (['>'].isPrefixOf ('/' :: rest) || ['/', '>'].isPrefixOf ('/' :: rest)) := by
  intro hfront
  simp only [List.isPrefixOf, Bool.or_eq_true] at hfront
  cases rest with
  | nil => simp at hfront
  | cons y rest =>
    have hy : y ≠ '>' := by
      rintro rfl
      exact h rest rfl
    simp [Ne.symm hy] at hfront

theorem tagTurn_slash (hc : c.text = text) (hs : s.offset = c.offset) (hslash : AtSlash c) :
    ∃ s', tagTurn n text false s = .ok (.next s') ∧ s'.offset = (c.skip isBlank).offset := by
  obtain ⟨rest, hrest, hopen⟩ := hslash
  have hat := (ahead_skip c isBlank).text_eq.trans hc
  have hstay : ∀ p : Char → Bool, p '/' = false → (c.skip isBlank).skip p = c.skip isBlank := by
    intro p hp
    refine skip_eq_forward (u := []) hrest (by simp) fun y hy => ?_
    obtain rfl : '/' = y := by simpa using hy
    simp [hp]
  have hname : (c.skip isBlank).skip (!Markup.Tag.endsName ·) = c.skip isBlank :=
    hstay _ (by decide)
  have hblank : (c.skip isBlank).skip isBlank = c.skip isBlank := hstay _ (by decide)
  refine ⟨{ s with
    markup := s.markup ++ c.rest.takeWhile isBlank, offset := (c.skip isBlank).offset }, ?_, rfl⟩
  rw [tagTurn, hs, skipWhile_at hc, bind_ok, onward_at hat, bind_ok, hrest,
    if_neg (closes_slash hopen)]
  dsimp only
  rw [if_neg (by decide), if_neg (by decide), Tagging.attribute, skipWhile_at hat, bind_ok, hname,
    between_ahead (u := []) hat (ahead_refl _) rfl, bind_ok, skipWhile_at hat, bind_ok, hblank,
      onward_at hat, bind_ok, hrest,
    if_neg (by simp), markTo_ahead hc hs (ahead_skip c isBlank)
      (takeWhile_append_rest_skip isBlank c).symm]
  rfl

theorem loop_slash (hc : c.text = text) (hs : s.offset = c.offset) (hslash : AtSlash c) (k : Nat) :
    loop (tagTurn n text false) k s = .error .turns := by
  induction k generalizing c s with
  | zero => rfl
  | succ k ih =>
    obtain ⟨s', hturn, hs'⟩ := tagTurn_slash (n := n) hc hs hslash
    obtain ⟨rest, hrest, hopen⟩ := hslash
    have hstay : (c.skip isBlank).skip isBlank = c.skip isBlank := by
      refine skip_eq_forward (u := []) hrest (by simp) fun y hy => ?_
      obtain rfl : '/' = y := by simpa using hy
      decide
    rw [loop, hturn, bind_ok]
    exact ih ((ahead_skip c isBlank).text_eq.trans hc) hs' ⟨rest, by rw [hstay, hrest], hopen⟩

theorem closes_advances {heed : Prop} {again : Cursor → Tagging → Prop} (mark : List Char)
    (hc : c.text = text) (hs : s.offset = c.offset) {rest : List Char} {step : Nat}
      (hrest : (c.skip isBlank).rest = mark ++ rest)
    (hascii : ∀ x ∈ mark, x.utf8Size = 1) (hstep : step = mark.length)
    (hr : tagged s.pieces
      (some (Markup.Tag.text (s.markup ++ c.rest.takeWhile isBlank ++ mark) s.markupAt,
      (c.skip isBlank).forward mark.length)) = r) :
    Advances heed enough (do
      let s ← s.markTo text ((c.skip isBlank).offset + step)
      return .last (some (s.pieces ++ Markup.Tag.text s.markup s.markupAt, s.offset))) c r
        again := by
  have hahead : Ahead c ((c.skip isBlank).past mark) :=
    (ahead_skip c isBlank).trans (ahead_past _ _)
  have hu : c.rest = (c.rest.takeWhile isBlank ++ mark) ++ ((c.skip isBlank).past mark).rest := by
    rw [past, rest_forward_of_append hrest, List.append_assoc, ← hrest, takeWhile_append_rest_skip]
  rw [hstep, offset_past_ascii hrest hascii, markTo_ahead hc hs hahead hu, ← hr]
  exact advances_last (settles_ok (by rw [bind_ok, ← List.append_assoc]; rfl))

theorem tagTurn_advances (heed : Bool) (hc : c.text = text) (hs : s.offset = c.offset) (k : Nat) :
    Advances (heed = true) (heed = true ∧ c.rest.length ≤ n) (tagTurn n text heed s) c
      (tagged s.pieces (Markup.Tag.attributes (k + 1) s.markup s.markupAt c))
      (TagGoesOn text k (tagged s.pieces (Markup.Tag.attributes (k + 1) s.markup s.markupAt c))) ∨
    heed = false ∧ AtSlash c := by
  generalize hr : tagged s.pieces (Markup.Tag.attributes (k + 1) s.markup s.markupAt c) = r
  have hread := hr
  unfold Markup.Tag.attributes at hread
  have hskip : ∀ (p : Char → Bool) (d : Cursor), d.past (d.rest.takeWhile p) = d.skip p :=
    fun _ _ => rfl
  simp only [hskip] at hread
  rw [tagTurn, hs, skipWhile_at hc, bind_ok, onward_at ((ahead_skip c isBlank).text_eq.trans hc),
    bind_ok]
  split at hread
  next hrest =>
    rw [hrest, ← hread]
    exact .inl (advances_last (settles_ok rfl))
  next rest hrest =>
    rw [hrest]
    exact .inl (closes_advances ['>'] hc hs hrest (by decide) rfl hread)
  next rest hrest =>
    rw [hrest]
    exact .inl (closes_advances ['/', '>'] hc hs hrest (by decide) rfl hread)
  next x rest hgreater hend hrest =>
    have hcloses : ¬ (['>'].isPrefixOf (x :: rest) || ['/', '>'].isPrefixOf (x :: rest)) := by
      by_cases hx : x = '/'
      · subst hx
        exact closes_slash fun r h => hend r rfl h
      · have hx' : x ≠ '>' := fun h => hgreater h
        simp [List.isPrefixOf, Ne.symm hx, Ne.symm hx']
    rw [hrest, if_neg hcloses]
    split at hread
    next hbad =>
      rw [← hread]
      refine .inl (advances_last (settles_ok ?_))
      dsimp only
      rw [if_pos hbad]
      rfl
    next hbad =>
      dsimp only
      rw [if_neg hbad]
      by_cases hx : x = '/'
      · subst hx
        cases heed with
        | false => exact .inr ⟨rfl, rest, hrest, fun r h => hend r rfl h⟩
        | true => exact .inl ⟨.last r, settles_slash _ rfl, .inl rfl⟩
      · have hother : ¬ (heed && x == '/') := by simp [hx]
        rw [if_neg hother]
        exact .inl ((attribute_advances hc And.right hs hr hrest hcloses hbad hx).weaken
          False.elim id)

theorem attributes_settle {heed : Bool} (hc : c.text = text) (markup : List Char) (markupAt m : Nat)
    (hm : c.rest.length < m) :
    Settles (heed = true) (heed = true ∧ c.rest.length < n)
      (loop (tagTurn n text heed) n ⟨[], markup, markupAt, c.offset⟩)
      (tagged [] (Markup.Tag.attributes m markup markupAt c)) := by
  refine (loop_steps (heed = true ∧ c.rest.length ≤ n) (fun k d s r => TagGoesOn text k r d s) ?_
    ⟨rfl, hc, rfl⟩ hm (Nat.le_refl _)).weaken id fun h => ⟨⟨h.1, Nat.le_of_lt h.2⟩, h.2⟩
  rintro k d s r - hle ⟨hs, hd, rfl⟩
  rcases tagTurn_advances (n := n) heed hd hs k with hturn | ⟨hheed, hslash⟩
  · exact .inl (hturn.weaken id fun h => ⟨h.1, hle.trans h.2⟩)
  · subst hheed
    exact .inr ⟨fun h => (by cases h.1), loop_slash hd hs hslash⟩

theorem tag_settles {heed : Bool} (hc : c.text = text) {rest : List Char}
    (hrest : c.rest = '<' :: rest) :
    Settles (heed = true) (heed = true ∧ c.rest.length ≤ n) (tag n text heed c.offset)
      (tagged [] (Markup.Tag.read? c)) := by
  have hone : c.offset + 1 = (c.forward 1).offset := offset_one hrest rfl
  have hforward : (c.forward 1).text = text := (text_forward 1 c).trans hc
  have hnext : (c.forward 1).rest = rest := by simp [hrest]
  rw [tag, hone, onward_at hforward, hnext, bind_ok]
  generalize ht : Markup.Tag.read? c = t
  unfold Markup.Tag.read? at ht
  split at ht
  next x rest' h =>
    obtain rfl : rest = x :: rest' := (List.cons.inj (hrest.symm.trans h)).2
    rw [List.head?_cons, Option.any_some, ← ht]
    split
    next halpha =>
      have hname := ahead_skip (c.forward 1) (!Markup.Tag.endsTagName ·)
      have hshort : ((c.forward 1).skip (!Markup.Tag.endsTagName ·)).rest.length < c.rest.length :=
        ((beyond_forward (by simp [hrest]) 0).trans hname).shorter
      have hread : c.rest = ('<' :: (c.forward 1).rest.takeWhile (!Markup.Tag.endsTagName ·)) ++
          ((c.forward 1).skip (!Markup.Tag.endsTagName ·)).rest := by
        rw [List.cons_append, takeWhile_append_rest_skip, hnext, hrest]
      rw [skipWhile_at hforward, bind_ok, between_ahead hc ((ahead_forward c 1).trans hname) hread,
        bind_ok]
      exact (attributes_settle (hname.text_eq.trans hforward) _ _ _ (by omega)).weaken id fun h =>
        ⟨h.1, by omega⟩
    · exact settles_ok rfl
  next h =>
    rw [← ht]
    cases rest with
    | nil => exact settles_ok rfl
    | cons x rest' => exact absurd hrest (h x rest')

end

end

end Templating.Offset
