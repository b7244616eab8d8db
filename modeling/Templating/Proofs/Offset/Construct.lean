import Templating.Markup.Reading
import Templating.Proofs.Offset.Region

/-! What an at sign begins and what is read at once, by byte offsets: code, comments, expressions,
and the head of a directive. -/
namespace Templating.Offset
open Code (ScanError Stop)
open Markup (DirectiveBody DirectiveToken Node Outcome Piece Scope fault)
open Text (Cursor byteSize isBlank leadingName)
open Text.Cursor

/-- What was read, the faults on the way, and the offset reached. -/
structure Passage (α : Type) where
  val : α
  faults : List Fault
  offset : Nat

section
variable (n : Nat) (text : List Char)

/-- The fault of code that cannot be scanned, and the offset at which reading goes on. -/
def recover (f : Nat × ScanError) : Fault × Nat :=
  let resume := match f.2 with
    | .mismatched .. | .unopened _ => f.1 + 1
    | _ => byteSize text
  (fault f.2.message f.1 (max (min (f.1 + 1) (byteSize text)) f.1), resume)

def codeAt (i : Nat) (stop : Stop) : Attempt (Except (Fault × Nat) (List Char × Nat × Nat)) := do
  match ← scan n text i stop with
  | .ok (here, after) =>
    let code ← between i here text
    return .ok (code, here, after)
  | .error f => return .error (recover text f)

def isLineStart (i : Nat) : Attempt Bool := do
  let before ← upTo i text
  return (before.reverse.takeWhile (· != '\n')).all fun c => c == ' ' || c == '\t'

def skipLineEnd (i : Nat) : Attempt Nat := do
  let rest ← onward i text
  let length := byteSize (rest.takeWhile (· != '\n'))
  let line ← if (rest.dropWhile (· != '\n')).isEmpty then pure rest else upTo (length + 1) rest
  return if Text.allBlank line then i + byteSize line else i

/-! What is read at once -/

def literalAt (cs : List Char) (i after : Nat) : Passage (List Piece) := ⟨[.text cs i], [], after⟩

def comment (i : Nat) : Attempt (Passage (List Piece)) := do
  let body ← onward (i + 2) text
  match Markup.commentText? body with
  | some cs =>
    let stop := i + 2 + byteSize cs + 2
    return ⟨[.node .comment ⟨i, stop⟩ false], [], stop⟩
  | none =>
    let stop := byteSize text
    return ⟨[.node .comment ⟨i, stop⟩ false],
      [fault "unterminated comment, expected `*@`" i stop], stop⟩

def explicit (i : Nat) : Attempt (Passage (List Piece)) := do
  match ← codeAt n text (i + 2) (.closer ')') with
  | .ok (code, _, after) =>
    return ⟨[.node (.expression (.ofList (Text.trim code))) ⟨i, after⟩ false], [], after⟩
  | .error (f, resume) => return ⟨[], [f], resume⟩

def codeBlock (i : Nat) : Attempt (Passage (List Piece)) := do
  let alone ← isLineStart text i
  match ← codeAt n text (i + 2) (.closer '\x7d') with
  | .ok (code, _, after) =>
    let resume ← if alone then skipLineEnd text after else pure after
    return ⟨[.node (.code (.ofList code)) ⟨i, after⟩ alone], [], resume⟩
  | .error (f, resume) => return ⟨[], [f], resume⟩

def implicit (i : Nat) : Attempt (Passage (List Piece)) := do
  match ← implicitEnd n text (i + 1) with
  | .ok stop =>
    let code ← between (i + 1) stop text
    return ⟨[.node (.expression (.ofList code)) ⟨i, stop⟩ false], [], stop⟩
  | .error f =>
    let (f, resume) := recover text f
    return ⟨[], [f], resume⟩

def stray (i : Nat) : Passage (List Piece) :=
  let f := fault "expected an expression, a code block or a directive after `@`" i (i + 1)
  ⟨[.text ['@'] i], [{ f with severity := .warning }], i + 1⟩

def closeBody (mark i : Nat) : Attempt (Bool × List Fault × Nat) := do
  let rest ← onward i text
  if ['\x7d'].isPrefixOf rest then return (true, [], i + 1)
  else return (false, [fault "unterminated block, expected `\x7d`" mark (byteSize text)],
    byteSize text)

/-! Directives -/

/-- The region of a directive: from the end of its keyword to the end of its line, or to the first
brace on it. -/
def directiveRegion (mark : Nat) (d : Directive) : Attempt Span := do
  let keywordEnd := mark + 1 + byteSize d.keyword.toList
  let rest ← onward keywordEnd text
  let lineEnd := keywordEnd + byteSize (rest.takeWhile (· != '\n'))
  if d.kind == .line then return ⟨keywordEnd, lineEnd⟩
  else do
    let line ← between keywordEnd lineEnd text
    return ⟨keywordEnd, keywordEnd + byteSize (line.takeWhile (· != '\x7b'))⟩

def directivePiece (scope : Scope) (mark : Nat) (d : Directive)
    (tokens : List (Located DirectiveToken)) (faults : List Fault)
    (body? : Option (DirectiveBody (Located Node))) (stop : Nat) : Attempt (Piece × Nat) := do
  let alone ← isLineStart text mark
  let nested :=
    if scope == .nested then [{ problem := .nestedDirective d.keyword, span := ⟨mark, stop⟩ }] else
    []
  let resume ← if alone || d.kind == .line then skipLineEnd text stop else pure stop
  return (.node (.directive ⟨d.keyword, tokens, body?, faults ++ nested⟩) ⟨mark, stop⟩ alone,
    resume)

end

/-! What these tell is what is read at a cursor -/

def passed {α : Type} (o : Outcome α) : Passage α := ⟨o.val, o.faults, o.cursor.offset⟩

def coded (c : Cursor) : Except (Fault × Cursor) (List Char × Cursor) →
    Except (Fault × Nat) (List Char × Nat × Nat)
  | .ok (code, after) => .ok (code, (c.past code).offset, after.offset)
  | .error (f, resume) => .error (f, resume.offset)

section
variable {n : Nat} {text : List Char} {c : Cursor} {enough : Prop} (hc : c.text = text)

theorem bytewise_openBrace : Bytewise .openBrace := by
  show ∀ x ∈ ['\x7b'], x.utf8Size = 1
  decide

theorem bytewise_fatArrow : Bytewise .fatArrow := by
  show ∀ x ∈ ['=', '>'], x.utf8Size = 1
  decide

theorem byteSize_closer {x : Char} (h : Code.isCloser x = true) : x.utf8Size = 1 := by
  have hcases : x = ')' ∨ x = ']' ∨ x = '\x7d' := by simpa [Code.isCloser, or_assoc] using h
  rcases hcases with rfl | rfl | rfl <;> rfl

theorem prefix_of_commentText {cs body : List Char} (h : Markup.commentText? cs = some body) :
    body ++ ['*', '@'] <+: cs := by
  induction cs generalizing body with
  | nil => cases h
  | cons x cs ih =>
    unfold Markup.commentText? at h
    split at h
    · cases h
    next heq =>
      obtain rfl := Option.some.inj h
      rw [heq]
      exact ⟨_, rfl⟩
    next heq =>
      obtain ⟨rfl, rfl⟩ := List.cons.inj heq
      obtain ⟨body', hbody, rfl⟩ := Option.map_eq_some_iff.mp h
      exact (List.prefix_cons_inj x).mpr (ih hbody)

theorem stray_at {rest : List Char} (hrest : c.rest = '@' :: rest) :
    stray c.offset = passed (Markup.stray c) := by
  dsimp only [stray, Markup.stray, passed]
  rw [← offset_one hrest rfl]

theorem keywordEnd_at {d : Directive} {rest : List Char}
    (hkey : c.rest = ('@' :: d.keyword.toList) ++ rest) :
    c.offset + 1 + byteSize d.keyword.toList = (c.forward (d.keyword.length + 1)).offset := by
  have hoffset := offset_forward hkey
  rw [List.length_cons, String.length_toList, byteSize] at hoffset
  rw [hoffset, Nat.add_assoc]
  rfl

include hc

theorem size_at : c.size = byteSize text := by rw [c.size_eq, hc]

theorem recover_at {read : List Char} {e : ScanError} (h : Code.Halted c.rest read e) :
    recover text ((c.past read).offset, e) =
      ((Markup.recover c read e).1, (Markup.recover c read e).2.offset) := by
  obtain ⟨rest, hrest, he⟩ := h
  have hbad : (c.past read).rest = rest := rest_forward_of_append hrest
  have hsize : byteSize text = (c.past read).toEnd.offset := by
    rw [offset_toEnd, (ahead_past c read).size_eq, size_at hc]
  have hcloser : ∀ {f : Char}, Code.isCloser f = true ∧ (∃ after, rest = f :: after) →
      (c.past read).offset + 1 = ((c.past read).forward 1).offset := by
    rintro f ⟨hf, after, rfl⟩
    exact offset_one hbad (byteSize_closer hf)
  unfold recover Markup.recover
  rw [size_at hc]
  cases e with
  | mismatched x f => exact congrArg (Prod.mk _) (hcloser he)
  | unopened f => exact congrArg (Prod.mk _) (hcloser he)
  | unexpectedEnd stop => exact congrArg (Prod.mk _) hsize
  | unterminatedString => exact congrArg (Prod.mk _) hsize
  | unterminatedComment => exact congrArg (Prod.mk _) hsize

theorem codeAt_settles {stop : Stop} (hstop : Bytewise stop) :
    Settles False (c.rest.length < n) (codeAt n text c.offset stop)
      (coded c (Markup.codeAt stop c)) := by
  have hscan := scan_settles n hc hstop
  unfold codeAt Markup.codeAt
  refine Settles.bind hscan ?_
  cases hcode : Code.scan stop c.before.head? c.rest with
  | error f =>
    obtain ⟨read, e⟩ := f
    have hrecover := recover_at hc (Code.halted_of_scan hcode)
    exact settles_ok (congrArg (fun r => Except.ok (Except.error r)) hrecover)
  | ok code =>
    obtain ⟨rest, hrest⟩ := Code.prefix_of_scan hcode
    refine settles_ok ?_
    show (between c.offset (c.past code).offset text >>= _) = _
    rw [between_at hc hrest, bind_ok, past, past, List.length_append]
    rfl

theorem isLineStart_at : isLineStart text c.offset = .ok c.atLineStart := by
  rw [isLineStart, upTo_at hc, bind_ok, List.reverse_reverse]
  rfl

theorem skipLineEnd_at : skipLineEnd text c.offset = .ok (Markup.skipLineEnd c).offset := by
  rw [skipLineEnd, onward_at hc, bind_ok, Markup.skipLineEnd]
  have hsplit := (List.takeWhile_append_dropWhile (p := (· != '\n')) (l := c.rest)).symm
  have hpast := past_take c ((c.rest.takeWhile (· != '\n')).length + 1)
  dsimp only
  cases hend : c.rest.dropWhile (· != '\n') with
  | nil =>
    have hline : c.rest.takeWhile (· != '\n') = c.rest := by
      rw [hend, List.append_nil] at hsplit
      exact hsplit.symm
    rw [hline, List.take_of_length_le (Nat.le_succ _)] at hpast
    rw [hline, if_pos List.isEmpty_nil, pure_eq, bind_ok, ← hpast, past]
    split
    · rw [offset_forward (v := []) (List.append_nil _).symm]
      rfl
    · rfl
  | cons x rest =>
    -- a line feed is as blank as the text before it
    obtain rfl : x = '\n' := by
      have hnot := List.head?_dropWhile_not (· != '\n') c.rest
      rw [hend] at hnot
      simpa using hnot
    have hall : c.rest = (c.rest.takeWhile (· != '\n') ++ ['\n']) ++ rest := by
      rw [List.append_assoc, List.singleton_append, ← hend]
      exact hsplit
    have hsize : byteSize (c.rest.takeWhile (· != '\n')) + 1 =
        byteSize (c.rest.takeWhile (· != '\n') ++ ['\n']) := by
      rw [Text.byteSize_append]
      rfl
    have hblank : Text.allBlank (c.rest.takeWhile (· != '\n') ++ ['\n']) =
        Text.allBlank (c.rest.takeWhile (· != '\n')) := by
      rw [Text.allBlank, Text.allBlank, List.all_append]
      exact Bool.and_true _
    rw [if_neg (by simp), hsize, upTo_front ⟨rest, hall.symm⟩, bind_ok, hblank]
    split
    · have hoffset := offset_forward hall
      rw [List.length_append] at hoffset
      rw [← hoffset]
      rfl
    · rfl

theorem closeBody_at {mark : Cursor} (hmark : mark.text = text) :
    closeBody text mark.offset c.offset =
      .ok ((Markup.closeBody mark c).1, (Markup.closeBody mark c).2.1,
        (Markup.closeBody mark c).2.2.offset) := by
  rw [closeBody, onward_at hc, bind_ok, ← size_at hmark]
  generalize hb : Markup.closeBody mark c = b
  unfold Markup.closeBody at hb
  split at hb
  next rest hrest =>
    rw [hrest, ← hb, ← offset_one hrest rfl]
    rfl
  next hbrace =>
    have hsize : mark.size = c.toEnd.offset := by rw [offset_toEnd, size_at hc, size_at hmark]
    rw [if_neg (not_isPrefixOf hbrace), ← hb, ← hsize]
    rfl

section
variable {rest : List Char}

theorem comment_at (hrest : c.rest = '@' :: '*' :: rest) :
    comment text c.offset = .ok (passed (Markup.comment c)) := by
  have htwo := offset_two hrest rfl rfl
  have hsize := (size_at hc).symm
  rw [comment, htwo, onward_at ((text_forward 2 c).trans hc), bind_ok, Markup.comment, hsize]
  dsimp only
  cases hcomment : Markup.commentText? (c.forward 2).rest with
  | none =>
    have hend : (c.forward 2).toEnd.offset = c.size := by
      rw [offset_toEnd, (ahead_forward c 2).size_eq]
    dsimp only [passed]
    rw [hend]
    rfl
  | some cs =>
    obtain ⟨v, hv⟩ := prefix_of_commentText hcomment
    have hstop := offset_forward hv.symm
    rw [List.length_append, Text.byteSize_append] at hstop
    dsimp only [passed]
    rw [show cs.length + 2 = cs.length + ['*', '@'].length from rfl, hstop]
    rfl

theorem explicit_settles (hrest : c.rest = '@' :: '(' :: rest)
    (henough : enough → c.rest.length < n) :
    Settles False enough (explicit n text c.offset) (passed (Markup.explicit c)) := by
  have hcode :=
    codeAt_settles (n := n) ((text_forward 2 c).trans hc) (bytewise_closer (x := ')') rfl)
  rw [← offset_two hrest rfl rfl] at hcode
  rw [explicit, Markup.explicit]
  refine Settles.bind (hcode.weaken id fun h =>
    (ahead_forward c 2).length_le.trans_lt (henough h)) ?_
  cases Markup.codeAt (.closer ')') (c.forward 2) with
  | error f => exact settles_ok rfl
  | ok found => exact settles_ok rfl

theorem codeBlock_settles (hrest : c.rest = '@' :: '\x7b' :: rest)
    (henough : enough → c.rest.length < n) :
    Settles False enough (codeBlock n text c.offset) (passed (Markup.codeBlock c)) := by
  have hcode :=
    codeAt_settles (n := n) ((text_forward 2 c).trans hc) (bytewise_closer (x := '\x7d') rfl)
  rw [← offset_two hrest rfl rfl] at hcode
  rw [codeBlock, isLineStart_at hc, bind_ok, Markup.codeBlock]
  refine Settles.bind (hcode.weaken id fun h =>
    (ahead_forward c 2).length_le.trans_lt (henough h)) ?_
  cases hblock : Markup.codeAt (.closer '\x7d') (c.forward 2) with
  | error f => exact settles_ok rfl
  | ok found =>
    obtain ⟨code, after⟩ := found
    have hafter := ((ahead_forward c 2).trans (Markup.beyond_codeAt hblock).ahead).text_eq.trans hc
    refine settles_ok ?_
    dsimp only [coded, passed]
    cases c.atLineStart with
    | false => rfl
    | true =>
      rw [if_pos rfl, if_pos rfl, skipLineEnd_at hafter]
      rfl

theorem implicit_settles (hrest : c.rest = '@' :: rest) (henough : enough → c.rest.length < n) :
    Settles False enough (implicit n text c.offset) (passed (Markup.implicit c)) := by
  have hone := offset_one hrest rfl
  have hforward := (text_forward 1 c).trans hc
  rw [implicit, Markup.implicit, hone]
  refine Settles.bind ((implicitEnd_settles hforward).weaken id fun h =>
    (ahead_forward c 1).length_le.trans_lt (henough h)) ?_
  have hfront := Markup.Implicit.atFront_read (c.forward 1).rest
  cases hread : Markup.Implicit.read (c.forward 1).rest with
  | error f =>
    obtain ⟨read, e⟩ := f
    rw [hread] at hfront
    refine settles_ok ?_
    dsimp only [ended]
    rw [recover_at hforward hfront]
    rfl
  | ok code =>
    rw [hread] at hfront
    obtain ⟨v, hv⟩ := hfront
    refine settles_ok ?_
    dsimp only [ended]
    rw [between_at hforward hv.symm]
    rfl

end

/-! Directives -/

section
variable {d : Directive} {rest : List Char}

theorem directiveRegion_at (hkey : c.rest = ('@' :: d.keyword.toList) ++ rest) :
    directiveRegion text c.offset d =
      .ok ⟨(c.forward (d.keyword.length + 1)).offset, (Markup.announcement d c).stop.offset⟩ := by
  have hafter := (text_forward (d.keyword.length + 1) c).trans hc
  have hline :=
    (List.takeWhile_append_dropWhile (p := (· != '\n'))
      (l := (c.forward (d.keyword.length + 1)).rest)).symm
  have hend := offset_forward hline
  rw [directiveRegion, keywordEnd_at hkey, onward_at hafter, bind_ok, Markup.announcement]
  dsimp only
  split
  · rw [past, hend]
    rfl
  · have hbetween := between_at hafter hline
    rw [past, hend] at hbetween
    have hopen := (List.takeWhile_append_dropWhile (p := (· != '\x7b'))
      (l := (c.forward (d.keyword.length + 1)).rest.takeWhile (· != '\n'))).symm
    rw [hbetween, bind_ok, past,
      offset_forward ((hline.trans (congrArg (· ++ _) hopen)).trans (List.append_assoc _ _ _))]
    rfl

theorem announcement_region (d : Directive) : ∃ cs,
    InRegion text ⟨(c.forward (d.keyword.length + 1)).offset, (Markup.announcement d c).stop.offset⟩
      (c.forward (d.keyword.length + 1)) cs ∧
    Markup.Region.tokensFrom d ⟨(c.forward (d.keyword.length + 1)).offset,
      (Markup.announcement d c).stop.offset⟩ d.tokens
      (c.forward (d.keyword.length + 1)).offset cs =
        ((Markup.announcement d c).tokens, (Markup.announcement d c).faults) := by
  have hafter := (text_forward (d.keyword.length + 1) c).trans hc
  have hfront :
    (if d.kind == .line then (c.forward (d.keyword.length + 1)).rest.takeWhile (· != '\n')
      else ((c.forward (d.keyword.length + 1)).rest.takeWhile (· != '\n')).takeWhile
        (· != '\x7b')) <+:
        (c.forward (d.keyword.length + 1)).rest := by
    split
    · exact List.takeWhile_prefix _
    · exact (List.takeWhile_prefix _).trans (List.takeWhile_prefix _)
  unfold Markup.announcement
  dsimp only
  generalize (if d.kind == .line then (c.forward (d.keyword.length + 1)).rest.takeWhile (· != '\n')
      else ((c.forward (d.keyword.length + 1)).rest.takeWhile (· != '\n')).takeWhile
        (· != '\x7b')) = region at hfront ⊢
  obtain ⟨v, hv⟩ := hfront
  refine ⟨region, ⟨hafter, ⟨v, hv.symm⟩, rfl⟩, ?_⟩
  rw [Markup.Region.tokens, past, offset_forward hv.symm]

theorem announcement_settles (d : Directive) :
    Settles False (c.rest.length < n)
      (tokens n text d ⟨(c.forward (d.keyword.length + 1)).offset,
        (Markup.announcement d c).stop.offset⟩)
      ((Markup.announcement d c).tokens, (Markup.announcement d c).faults) := by
  obtain ⟨cs, hin, hread⟩ := announcement_region hc d
  have htokens := tokens_settle (n := n) (d := d) hin rfl
  rw [hread] at htokens
  exact htokens.weaken id (ahead_forward c _).length_le.trans_lt

theorem directivePiece_at (scope : Scope) (d : Directive) (tokens : List (Located DirectiveToken))
    (faults : List Fault)
    (body? : Option (DirectiveBody (Located Node))) {stop : Cursor} (hstop : stop.text = text) :
    directivePiece text scope c.offset d tokens faults body? stop.offset =
      .ok ((Markup.directivePiece d scope c tokens faults body? stop).1,
        (Markup.directivePiece d scope c tokens faults body? stop).2.offset) := by
  rw [directivePiece, isLineStart_at hc, bind_ok, Markup.directivePiece]
  dsimp only
  split
  next h =>
    rw [skipLineEnd_at hstop]
    rfl
  · rfl

end

end

end Templating.Offset
