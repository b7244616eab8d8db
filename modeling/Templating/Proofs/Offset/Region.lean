import Templating.Markup.Region
import Templating.Proofs.Markup.Located
import Templating.Proofs.Offset.Tag

/-! The tokens of a directive by byte offsets: a loop over the tokens that the directive takes, in
the text between the end of its keyword and the end of its region. -/
namespace Templating.Offset
open Markup (DirectiveToken)
open Markup.Region (malformed slice stringBody tokensFrom value)
open Text (Cursor byteSize isBlank leadingName trimEnd)
open Text.Cursor

def closeAt : Bool → List Char → Option Nat
  | _, [] => none
  | escaped, c :: cs =>
    if c == '"' && !escaped then some 0 else
      (closeAt (c == '\\' && !escaped) cs).map (c.utf8Size + ·)

section
variable (n : Nat)

/-- The length of the token of a kind at the front of a text, nothing if there is no such token, or
why there is none. -/
def tokenLength (k : TokenKind) (rest : List Char) : Attempt (Except String (Option Nat)) :=
  if rest.isEmpty then return .ok none else
  match k with
  | .text => return .ok (some (byteSize rest))
  | .type =>
    return if Code.isType rest then .ok (some (byteSize rest)) else
      .error s!"`{String.ofList rest}` is not a valid type"
  | .constraint =>
    return .ok (if Text.startsWithWord ['w', 'h', 'e', 'r', 'e'] rest then some
      (byteSize rest) else none)
  | .member =>
    let length := byteSize (leadingName rest)
    return if length == 0 then .error s!"expected an identifier, found `{String.ofList rest}`" else
      .ok (some length)
  | .namespacePath => do
    let length := byteSize (rest.takeWhile fun c => Text.continuesName c || c == '.' || c == ':')
    let run ← upTo length rest
    let valid := !run.isEmpty && (Naming.segments (.ofList run)).all fun s =>
      s != "" && (leadingName s.toList).length == s.length
    return if valid then .ok (some length) else
      .error s!"`{String.ofList run}` is not a valid namespace"
  | .string =>
    if ['"'].isPrefixOf rest then do
      let behind ← onward 1 rest
      match closeAt false behind with
      | some length => return .ok (some (length + 2))
      | none => return .error "unterminated string literal"
    else return .error "expected a string literal"
  | .boolean => do
    let word ← upTo (byteSize (leadingName rest)) rest
    if word == "true".toList then return .ok (some 4)
    else if word == "false".toList then return .ok (some 5)
    else return .error "expected `true` or `false`"
  | .attribute =>
    if ['#', '['].isPrefixOf rest then do
      match ← scan n rest 2 (.closer ']') with
      | .ok (_, stop) => return .ok (some stop)
      | .error (_, e) => return .error e.message
    else return .error "expected an attribute `#[...]`"

def tokenValue (k : TokenKind) (raw : List Char) : Attempt String :=
  match k with
  | .string => do return .ofList (← between 1 (byteSize raw - 1) raw)
  | _ => return value k raw

structure Tokenizing where
  specs : List TokenSpec
  tokens : List (Located DirectiveToken)
  offset : Nat

abbrev Tokenized := List (Located DirectiveToken) × List Fault

variable (text : List Char) (d : Directive) (region : Span)

def Tokenizing.finish (s : Tokenizing) (faults : List Fault) :
    Attempt (Turn Tokenizing Tokenized) := do
  let rest ← between (min s.offset region.stop) region.stop text
  let leftover := Text.trim rest
  if faults.isEmpty && !leftover.isEmpty then
    return .last (s.tokens,
      [malformed d s!"unexpected `{String.ofList leftover}`" s.offset region.stop])
  else return .last (s.tokens, faults)

def tokensTurn (s : Tokenizing) : Attempt (Turn Tokenizing Tokenized) :=
  match s.specs with
  | [] => s.finish text d region []
  | spec :: specs => do
    let before ← upTo region.stop text
    let i ← skipWhile isBlank before s.offset
    let rest ← between i region.stop text
    let here : Tokenizing := ⟨specs, s.tokens, i⟩
    match ← tokenLength n spec.kind (trimEnd rest) with
    | .ok (some length) =>
      let raw ← upTo length (trimEnd rest)
      let token ← tokenValue spec.kind raw
      return .next ⟨specs, s.tokens ++ [⟨⟨spec.kind, token⟩, i, i + length⟩], i + length⟩
    | .ok none =>
      if spec.optional then return .next here
      else
        here.finish text d region
          [malformed d s!"expected {spec.kind.describe}" region.start region.stop]
    | .error reason => here.finish text d region [malformed d reason i region.stop]

def tokens : Attempt Tokenized :=
  loop (tokensTurn n text d region) (d.tokens.length + 1) ⟨d.tokens, [], region.start⟩

end

/-! What these tell is what is read -/

def lengthOf : Except String (Option (List Char)) → Except String (Option Nat) :=
  Except.map (Option.map byteSize)

theorem closeAt_eq (escaped : Bool) (cs : List Char) :
    closeAt escaped cs = (stringBody escaped cs).map byteSize := by
  induction cs generalizing escaped with
  | nil => rfl
  | cons c cs ih =>
    rw [closeAt, stringBody]
    split
    · rfl
    · rw [ih, Option.map_map, Option.map_map]
      rfl

section
variable {n : Nat} {k : TokenKind} {rest raw : List Char}

theorem upTo_front (h : raw <+: rest) : upTo (byteSize raw) rest = .ok raw := by
  obtain ⟨v, rfl⟩ := h
  rw [upTo, Text.cutAt?_byteSize]

theorem not_isPrefixOf {mark : List Char} (h : ∀ v, rest = mark ++ v → False) :
    ¬ mark.isPrefixOf rest := by
  intro hfront
  obtain ⟨v, hv⟩ := List.isPrefixOf_iff_prefix.mp hfront
  exact h v hv.symm

theorem tokenLength_string (r : List Char) :
    tokenLength n .string ('"' :: r) = .ok (lengthOf (slice .string ('"' :: r))) := by
  have hbehind : onward 1 ('"' :: r) = .ok r := by
    rw [onward, show Text.cutAt? 1 ('"' :: r) = some (['"'], r) from Text.cutAt?_byteSize ['"'] r]
  simp only [tokenLength, slice, List.isEmpty_cons, Bool.false_eq_true, if_false]
  rw [if_pos (by simp [List.isPrefixOf]), hbehind, bind_ok, closeAt_eq]
  cases stringBody false r with
  | none => rfl
  | some body =>
    have hlength : byteSize ('"' :: body ++ ['"']) = byteSize body + 2 := by
      rw [Text.byteSize_append, byteSize, Nat.add_comm (Char.utf8Size '"')]
      rfl
    exact congrArg (fun length => Except.ok (Except.ok (some length))) hlength.symm

theorem tokenLength_attribute (r : List Char) : Settles False (('#' :: '[' :: r).length < n)
    (tokenLength n .attribute ('#' :: '[' :: r))
      (lengthOf (slice .attribute ('#' :: '[' :: r))) := by
  have hscan : Settles False (('#' :: '[' :: r).length < n)
    (scan n ('#' :: '[' :: r) 2 (.closer ']'))
      (told ((Cursor.start ('#' :: '[' :: r)).past ['#', '[']) (.closer ']')
        (Code.scan (.closer ']') (some '[') r)) :=
    scan_enclosed ['#', '['] (c := .start ('#' :: '[' :: r)) rfl rfl (by simp) (by decide)
      Nat.le_of_lt rfl
  simp only [tokenLength, slice, List.isEmpty_cons, Bool.false_eq_true, if_false]
  rw [if_pos (by simp [List.isPrefixOf])]
  refine Settles.bind hscan ?_
  cases hcode : Code.scan (.closer ']') (some '[') r with
  | error f => exact settles_ok rfl
  | ok code =>
    obtain ⟨v, hv⟩ := Code.prefix_of_scan hcode
    have hall : (Cursor.start ('#' :: '[' :: r)).rest = ('#' :: '[' :: code ++ [']']) ++ v := by
      simp [start, hv, Code.Stop.text]
    have hoffset := offset_forward hall
    rw [show (Cursor.start ('#' :: '[' :: r)).offset = 0 from rfl, Nat.zero_add] at hoffset
    have hpast : ((Cursor.start ('#' :: '[' :: r)).past ['#', '[']).past (code ++ [']']) =
        (Cursor.start ('#' :: '[' :: r)).past ('#' :: '[' :: code ++ [']']) :=
          (past_append _ _ _).symm
    refine settles_ok ?_
    show Except.ok (Except.ok
      (some (((Cursor.start ('#' :: '[' :: r)).past ['#', '[']).past (code ++ [']'])).offset)) = _
    rw [hpast, past, hoffset]
    rfl

theorem tokenLength_boolean :
    tokenLength n .boolean rest = .ok (lengthOf (slice .boolean rest)) := by
  rw [tokenLength, slice]
  split
  · rfl
  dsimp only
  rw [upTo_front (Markup.Implicit.prefix_leadingName rest), bind_ok]
  by_cases htrue : leadingName rest = "true".toList
  · rw [htrue]
    rfl
  by_cases hfalse : leadingName rest = "false".toList
  · rw [hfalse]
    rfl
  · rw [if_neg (by simpa using htrue), if_neg (by simpa using hfalse),
      if_neg (by simpa using ⟨htrue, hfalse⟩)]
    rfl

theorem tokenLength_settles :
    Settles False (rest.length < n) (tokenLength n k rest) (lengthOf (slice k rest)) := by
  have hlength := tokenLength.eq_def n k rest
  generalize hs : slice k rest = s
  have hslice := hs
  unfold slice at hslice
  split at hslice
  next hempty =>
    rw [hlength, if_pos hempty, ← hslice]
    exact settles_ok rfl
  next hempty =>
    rw [if_neg hempty] at hlength
    cases k with
    | text =>
      rw [hlength, ← hslice]
      exact settles_ok rfl
    | type | constraint =>
      rw [hlength, ← hslice]
      refine settles_ok ?_
      dsimp only
      split <;> rfl
    | member =>
      rw [hlength, ← hslice]
      refine settles_ok ?_
      dsimp only
      cases hname : leadingName rest with
      | nil => rfl
      | cons x w =>
        have hpos := Text.byteSize_pos (List.cons_ne_nil x w)
        rw [if_neg (by simpa using Nat.ne_of_gt hpos)]
        rfl
    | namespacePath =>
      dsimp only at hlength hslice
      rw [hlength, upTo_front (List.takeWhile_prefix _), bind_ok, ← hslice]
      refine settles_ok ?_
      split <;> rfl
    | string =>
      dsimp only at hlength hslice
      split at hslice
      next r => exact hs ▸ settles_ok (tokenLength_string r)
      next hquote =>
        rw [hlength, if_neg (not_isPrefixOf hquote), ← hslice]
        exact settles_ok rfl
    | boolean => exact hs ▸ settles_ok tokenLength_boolean
    | _ =>
      dsimp only at hlength hslice
      split at hslice
      next r => exact hs ▸ tokenLength_attribute r
      next hmark =>
        rw [hlength, if_neg (not_isPrefixOf hmark), ← hslice]
        exact settles_ok rfl

theorem tokenValue_eq (h : slice k rest = .ok (some raw)) :
    tokenValue k raw = .ok (value k raw) := by
  cases k with
  | string =>
    unfold slice at h
    split at h
    · cases h
    dsimp only at h
    split at h
    · split at h
      next r body hbody =>
        obtain rfl := Option.some.inj (Except.ok.inj h)
        have hrest : ((Cursor.start ('"' :: body ++ ['"'])).forward 1).rest = body ++ ['"'] := rfl
        have hstop : (((Cursor.start ('"' :: body ++ ['"'])).forward 1).past body).offset =
            byteSize ('"' :: body ++ ['"']) - 1 := by
          rw [past, offset_forward hrest, Text.byteSize_append, byteSize]
          show 1 + byteSize body = 1 + byteSize body + 1 - 1
          omega
        have hbetween :
            between 1 (byteSize ('"' :: body ++ ['"']) - 1) ('"' :: body ++ ['"']) = .ok body := by
          rw [← hstop]
          exact between_at rfl hrest
        have hvalue : value .string ('"' :: body ++ ['"']) = .ofList body := by
          rw [value, List.cons_append, List.drop_succ_cons, List.drop_zero, List.dropLast_concat]
        rw [hvalue, tokenValue, hbetween]
        rfl
      · cases h
    · cases h
  | _ => rfl

end

/-! The loop over the tokens -/

/-- The cursor stands in a region of the text, of which the given characters are left. -/
structure InRegion (text : List Char) (region : Span) (c : Cursor) (cs : List Char) : Prop where
  text_eq : c.text = text
  exists_rest : ∃ v, c.rest = cs ++ v
  stop_eq : (c.past cs).offset = region.stop

section
variable {n : Nat} {text cs : List Char} {d : Directive} {region : Span} {c : Cursor}
  {s : Tokenizing} (h : InRegion text region c cs)
include h

theorem InRegion.after {u w : List Char} (hcs : cs = u ++ w) :
    InRegion text region (c.past u) w := by
  obtain ⟨v, hrest⟩ := h.exists_rest
  refine ⟨(text_forward _ c).trans h.text_eq, ⟨v, ?_⟩, ?_⟩
  · rw [past, rest_forward_of_append (v := w ++ v)]
    rw [hrest, hcs, List.append_assoc]
  · rw [← past_append, ← hcs, h.stop_eq]

theorem InRegion.offset_eq {u w : List Char} (hcs : cs = u ++ w) :
    c.offset + byteSize u = (c.past u).offset := by
  obtain ⟨v, hrest⟩ := h.exists_rest
  refine (offset_forward (v := w ++ v) ?_).symm
  rw [hrest, hcs, List.append_assoc]

theorem InRegion.trimEnd_le : (trimEnd cs).length ≤ c.rest.length := by
  obtain ⟨v, hrest⟩ := h.exists_rest
  obtain ⟨blanks, hblanks, -⟩ := Text.exists_trimEnd cs
  have htrim := congrArg List.length hblanks
  rw [List.length_append] at htrim
  rw [hrest, List.length_append]
  omega

theorem InRegion.between_eq : between c.offset region.stop text = .ok cs := by
  obtain ⟨v, hrest⟩ := h.exists_rest
  rw [← h.stop_eq]
  exact between_at h.text_eq hrest

theorem InRegion.skip_eq : ∃ before, upTo region.stop text = .ok before ∧
    skipWhile isBlank before c.offset = .ok (c.past (cs.takeWhile isBlank)).offset := by
  obtain ⟨v, hrest⟩ := h.exists_rest
  have hsplit : c.rest = cs.takeWhile isBlank ++ (cs.dropWhile isBlank ++ v) := by
    rw [← List.append_assoc, List.takeWhile_append_dropWhile, hrest]
  refine ⟨c.before.reverse ++ cs, ?_, ?_⟩
  · rw [← h.stop_eq, upTo_at (c := c.past cs) ((text_forward _ c).trans h.text_eq), past,
      before_forward, hrest, List.take_left,
      List.reverse_append, List.reverse_reverse]
  · have hclipped := skipWhile_at (c := ⟨c.before, cs, c.offset, c.offset_eq⟩) rfl isBlank
    rw [offset_skip] at hclipped
    rw [past, offset_forward hsplit]
    exact hclipped

theorem finish_eq (hs : s.offset = c.offset) (faults : List Fault) :
    s.finish text d region faults = .ok (.last (s.tokens,
      if faults.isEmpty && !(Text.trim cs).isEmpty then
        [malformed d s!"unexpected `{String.ofList (Text.trim cs)}`" c.offset region.stop] else
          faults)) := by
  have hle : c.offset ≤ region.stop := by
    rw [← h.stop_eq]
    exact (ahead_past c cs).offset_le
  rw [Tokenizing.finish, hs, Nat.min_eq_left hle, h.between_eq, bind_ok]
  dsimp only
  split <;> rfl

end

def TokensGoOn (text : List Char) (d : Directive) (region : Span) (l : Nat) (r : Tokenized)
    (c : Cursor) (s : Tokenizing) : Prop :=
  s.offset = c.offset ∧ c.rest.length ≤ l ∧ ∃ cs, InRegion text region c cs ∧
    r = (s.tokens ++ (tokensFrom d region s.specs c.offset cs).1,
      (tokensFrom d region s.specs c.offset cs).2)

section
variable {n l : Nat} {text : List Char} {d : Directive} {region : Span} {c : Cursor}
  {s : Tokenizing} {r : Tokenized}

theorem tokensTurn_goes (h : TokensGoOn text d region l r c s) :
    ∃ u, Settles False (l < n) (tokensTurn n text d region s) u ∧
      (u = .last r ∨ ∃ s' c', u = .next s' ∧
      s'.specs.length < s.specs.length ∧ Ahead c c' ∧ TokensGoOn text d region l r c' s') := by
  obtain ⟨hs, hl, cs, hin, rfl⟩ := h
  obtain ⟨specs, tokens, i⟩ := s
  obtain rfl : i = c.offset := hs
  cases specs with
  | nil =>
    refine ⟨_, settles_ok (finish_eq hin rfl []), .inl ?_⟩
    dsimp only [tokensFrom]
    cases htrim : Text.trim cs with
    | nil => simp
    | cons x rest => simp
  | cons spec specs =>
    obtain ⟨before, hbefore, hskip⟩ := hin.skip_eq
    have hsplit := (List.takeWhile_append_dropWhile (p := isBlank) (l := cs)).symm
    have hahead : Ahead c (c.past (cs.takeWhile isBlank)) := ahead_past c _
    have hin' := hin.after hsplit
    rw [tokensTurn, tokensFrom]
    dsimp only
    rw [hbefore, bind_ok, hskip, bind_ok, hin'.between_eq, bind_ok, hin.offset_eq hsplit]
    generalize c.past (cs.takeWhile isBlank) = e at hahead hin' ⊢
    generalize cs.dropWhile isBlank = cs at hin' ⊢
    have hlength : Settles False (l < n) (tokenLength n spec.kind (trimEnd cs)) _ :=
      tokenLength_settles.weaken id (hin'.trimEnd_le.trans (hahead.length_le.trans hl)).trans_lt
    cases hslice : slice spec.kind (trimEnd cs) with
    | error reason =>
      rw [hslice] at hlength
      refine ⟨_, hlength.bind (settles_ok (finish_eq hin' rfl _)), .inl ?_⟩
      simp
    | ok found =>
      rw [hslice] at hlength
      cases found with
      | none =>
        dsimp only
        split
        · exact ⟨_, hlength.bind (settles_ok rfl), .inr ⟨⟨specs, tokens, e.offset⟩, _, rfl,
            Nat.lt_succ_self _, hahead, rfl, hahead.length_le.trans hl, _, hin', rfl⟩⟩
        · refine ⟨_, hlength.bind (settles_ok (finish_eq hin' rfl _)), .inl ?_⟩
          simp
      | some raw =>
        have hfront := Markup.Region.prefix_of_slice hslice
        obtain ⟨blanks, hblanks, -⟩ := Text.exists_trimEnd cs
        have hraw := (List.prefix_iff_eq_append.mp (hfront.trans ⟨blanks, hblanks.symm⟩)).symm
        have hoffset := hin'.offset_eq hraw
        have hahead' : Ahead c (e.past raw) := hahead.trans (ahead_past _ _)
        refine ⟨.next ⟨specs,
          tokens ++ [⟨⟨spec.kind, value spec.kind raw⟩, e.offset, (e.past raw).offset⟩],
          (e.past raw).offset⟩,
          hlength.bind (settles_ok ?_),
          .inr ⟨_, _, rfl, Nat.lt_succ_self _, hahead', rfl, hahead'.length_le.trans hl, _,
            hin'.after hraw, ?_⟩⟩
        · show (upTo (byteSize raw) (trimEnd cs) >>= _) = _
          rw [upTo_front hfront, bind_ok, tokenValue_eq hslice, bind_ok, hoffset]
          rfl
        · simp [hoffset]

theorem tokens_settle {cs : List Char} (h : InRegion text region c cs)
    (hstart : region.start = c.offset) :
    Settles False (c.rest.length < n) (tokens n text d region)
      (tokensFrom d region d.tokens c.offset cs) := by
  refine (loop_settles (c.rest.length < n) (fun m s r => s.specs.length = m ∧
    ∃ c', TokensGoOn text d region c.rest.length r c' s) ?_ (d.tokens.length + 1)
      d.tokens.length _ _
    ⟨rfl, c, hstart, Nat.le_refl _, cs, h, rfl⟩).weaken id fun hn => ⟨hn, Nat.lt_succ_self _⟩
  rintro m s r ⟨rfl, c', hgoes⟩
  obtain ⟨u, hu, hend⟩ := tokensTurn_goes (n := n) hgoes
  refine .inl ⟨u, hu, hend.imp_right ?_⟩
  rintro ⟨s', c'', hs', hless, -, hagain⟩
  exact ⟨s', s'.specs.length, hs', hless, rfl, c'', hagain⟩

end

end Templating.Offset
