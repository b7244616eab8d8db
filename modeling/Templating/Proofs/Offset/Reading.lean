import Templating.Proofs.Offset.Construct

/-! Reading a template by the offsets of its bytes, as a loop over the nodes of a body that runs
such a loop for each body in it. What is told in the end is what is read. -/
namespace Templating.Offset
open Code (Stop)
open Markup (Announced Clause DirectiveBody Node Nodes Outcome Piece Run Scope Tree arms branches
  directive fault gather pieces)
open Text (Cursor byteSize isBlank leadingName)
open Text.Cursor

section
variable (n : Nat) (text : List Char) (body : Nat → Attempt (Passage Nodes))

/-! Control flow -/

structure Clausing where
  clauses : List (Clause (Located Node))
  faults : List Fault
  offset : Nat

abbrev Claused := Passage (Option (List (Clause (Located Node))))

/-- The clauses so far with one more, whose body begins at an offset; whether it is closed, and the
offset after it. -/
def Clausing.clause (s : Clausing) (mark : Nat) (head : List Char) (i : Nat) :
    Attempt (Bool × Clausing) := do
  let b ← body i
  let (closed, faults, after) ← closeBody text mark b.offset
  return (closed, ⟨s.clauses ++ [⟨.ofList (Text.trim head), b.val⟩],
    s.faults ++ (b.faults ++ faults), after⟩)

def Clausing.ended (s : Clausing) : Turn Clausing Claused :=
  .last ⟨some s.clauses, s.faults, s.offset⟩

def Clausing.failed (s : Clausing) (f : Fault) (resume : Nat) : Turn Clausing Claused :=
  .last ⟨none, s.faults ++ [f], resume⟩

/-- A branch from its header on. -/
def controlTurn (mark : Nat) (chained : Bool) (s : Clausing) : Attempt (Turn Clausing Claused) := do
  match ← codeAt n text s.offset .openBrace with
  | .error (f, resume) => return s.failed f resume
  | .ok (header, _, begun) =>
    let (closed, s) ← s.clause text body mark header begun
    if !closed || !chained then return s.ended
    else do
      let rest ← onward s.offset text
      let trimmed := Text.trimStart rest
      if Text.startsWithWord ['e', 'l', 's', 'e'] trimmed then
        return .next { s with offset := s.offset + (byteSize rest - byteSize trimmed) }
      else return s.ended

/-- The clauses so far, after an arm without a body. -/
def Clausing.unbodied (s : Clausing) (afterArrow bodyAt : Nat) :
    Attempt (Turn Clausing Claused) := do
  let f :=
    fault "`match` arms in templates must have a `\x7b ... \x7d` body" afterArrow (bodyAt + 1)
  match ← scan n text bodyAt (.closer '\x7d') with
  | .ok (_, after) => return Clausing.ended ⟨s.clauses, s.faults ++ [f], after⟩
  | .error _ => return Clausing.ended ⟨s.clauses, s.faults ++ [f], byteSize text⟩

/-- The clauses so far with an arm whose pattern begins at an offset. -/
def Clausing.arm (s : Clausing) (mark i : Nat) : Attempt (Turn Clausing Claused) := do
  match ← codeAt n text i .fatArrow with
  | .error (f, resume) => return s.failed f resume
  | .ok (pattern, _, afterArrow) =>
    let bodyAt ← skipWhile isBlank text afterArrow
    let opening ← onward bodyAt text
    if ['\x7b'].isPrefixOf opening then do
      let (closed, s) ← s.clause text body mark pattern (bodyAt + 1)
      return if closed then .next s else s.ended
    else s.unbodied n text afterArrow bodyAt

/-- An arm from what is before its pattern on. -/
def armTurn (mark : Nat) (s : Clausing) : Attempt (Turn Clausing Claused) := do
  let i ← skipWhile (fun x => isBlank x || x == ',') text s.offset
  let rest ← onward i text
  match rest with
  | [] =>
    let f := fault "unterminated `match`, expected `\x7d`" mark (byteSize text)
    return Clausing.ended ⟨s.clauses, s.faults ++ [f], byteSize text⟩
  | c :: _ =>
    if c == '\x7d' then return Clausing.ended { s with offset := i + 1 } else
      s.arm n text body mark i

def control (mark : Nat) (chained : Bool) : Attempt (Passage (List Piece)) := do
  let b ← loop (controlTurn n text body mark chained) n ⟨[], [], mark + 1⟩
  return ⟨b.val.toList.map fun bs => .node (.control bs) ⟨mark, b.offset⟩ false, b.faults, b.offset⟩

def choice (mark : Nat) : Attempt (Passage (List Piece)) := do
  match ← codeAt n text (mark + 6) .openBrace with
  | .error (f, resume) => return ⟨[], [f], resume⟩
  | .ok (scrutinee, _, begun) =>
    let a ← loop (armTurn n text body mark) n ⟨[], [], begun⟩
    let scrutinee := String.ofList (Text.trim scrutinee)
    return ⟨a.val.toList.map fun as => .node (.choice scrutinee as) ⟨mark, a.offset⟩ false,
      a.faults, a.offset⟩

def directiveAt (scope : Scope) (mark : Nat) (d : Directive) : Attempt (Passage (List Piece)) := do
  let region ← directiveRegion text mark d
  let (tokens, faults) ← tokens n text d region
  let finish (more : List Fault) (body? : Option (DirectiveBody (Located Node))) (stop : Nat)
    (outer : List Fault) :
      Attempt (Passage (List Piece)) := do
    let (p, resume) ← directivePiece text scope mark d tokens (faults ++ more) body? stop
    return ⟨[p], outer, resume⟩
  if d.kind == .line then finish [] none region.stop []
  else do
    let opening ← skipWhile isBlank text region.stop
    let rest ← onward opening text
    if ['\x7b'].isPrefixOf rest then
      if d.kind == .codeBlock then do
        match ← codeAt n text (opening + 1) (.closer '\x7d') with
        | .ok (code, here, after) =>
          finish [] (some (.code ⟨.ofList code, opening + 1, here⟩)) after []
        | .error (f, resume) => finish [] none resume [f]
      else do
        let b ← body (opening + 1)
        let (_, fs, after) ← closeBody text mark b.offset
        finish [] (some (.markup b.val)) after (b.faults ++ fs)
    else finish [Markup.Region.malformed d "expected `\x7b`" mark opening] none region.stop []

/-! Nodes -/

variable (t : DirectiveTable)

/-- What a name behind an at sign begins. -/
def word (scope : Scope) (mark : Nat) : Attempt (Passage (List Piece)) := do
  let rest ← onward (mark + 1) text
  let wordEnd := mark + 1 + byteSize (leadingName rest)
  let behind ← onward wordEnd text
  let keyword := String.ofList (← between (mark + 1) wordEnd text)
  if keyword == "if" then control n text body mark true
  else if keyword == "for" || keyword == "while" then control n text body mark false
  else if keyword == "match" then choice n text body mark
  else match t.get? keyword with
    | some d =>
      if Markup.boundary d behind then directiveAt n text body scope mark d else
        implicit n text mark
    | none => implicit n text mark

def transition (scope : Scope) (mark : Nat) : Attempt (Passage (List Piece)) := do
  let rest ← onward (mark + 1) text
  match rest with
  | [] => return stray mark
  | c :: _ =>
    if c == '@' then return literalAt ['@'] mark (mark + 2)
    else if ← (if Text.isAlphanumeric c then followsAlphanumeric text mark else pure false) then
      return literalAt ['@'] mark (mark + 1)
    else if c == '*' then comment text mark
    else if c == '(' then explicit n text mark
    else if c == '\x7b' then codeBlock n text mark
    else if Text.startsName c then word n text body t scope mark
    else return stray mark

/-- The markup in the making cut behind its last character that is no space and no tab. -/
def truncate (r : Run) : Attempt Run := do
  let cs ← upTo (byteSize r.trimPads.chars.reverse) r.chars.reverse
  return { r with chars := cs.reverse }

/-- The nodes that pieces make, with the markup before them. -/
def joinFrom : Run → List Piece → Attempt Nodes
  | r, [] => return r.nodes
  | r, .text cs offset :: ps => joinFrom (r.add cs offset) ps
  | r, .node m span alone :: ps => do
    let r ← if alone then truncate r else pure r
    let rest ← joinFrom {} ps
    return r.nodes ++ ⟨m, span⟩ :: rest

structure Noding where
  pieces : List Piece
  faults : List Fault
  depth : Nat
  offset : Nat

/-- The nodes so far with what was passed. -/
def Noding.pass (s : Noding) (p : Passage (List Piece)) (depth : Nat) :
    Turn Noding (Passage Nodes) :=
  .next ⟨s.pieces ++ p.val, s.faults ++ p.faults, depth, p.offset⟩

def Noding.ended (s : Noding) : Attempt (Turn Noding (Passage Nodes)) := do
  let ns ← joinFrom {} s.pieces
  return .last ⟨ns, s.faults, s.offset⟩

def nodesTurn (heed : Bool) (scope : Scope) (s : Noding) :
    Attempt (Turn Noding (Passage Nodes)) := do
  let rest ← onward s.offset text
  match rest with
  | [] => s.ended
  | c :: _ =>
    if c == '@' then return s.pass (← transition n text body t scope s.offset) s.depth
    else if c == '<' then do
      match ← tag n text heed s.offset with
      | some (ps, stop) => return s.pass ⟨ps, [], stop⟩ s.depth
      | none => return s.pass (literalAt ['<'] s.offset (s.offset + 1)) s.depth
    else if scope == .nested && c == '\x7b' then
      return s.pass (literalAt ['\x7b'] s.offset (s.offset + 1)) (s.depth + 1)
    else if scope == .nested && c == '\x7d' then
      if s.depth == 0 then s.ended
      else return s.pass (literalAt ['\x7d'] s.offset (s.offset + 1)) (s.depth - 1)
    else do
      let cs ← between s.offset (s.offset + c.utf8Size) text
      return s.pass (literalAt cs s.offset (s.offset + c.utf8Size)) s.depth

end

section
variable (heed : Bool) (n : Nat)

/-- The nodes from an offset on, with bodies in bodies up to a depth. -/
def nodes (text : List Char) (t : DirectiveTable) : Nat → Scope → Nat → Attempt (Passage Nodes)
  | 0, _, _ => .error .turns
  | k + 1, scope, i =>
    loop (nodesTurn n text (nodes text t k .nested) t heed scope) n ⟨[], [], 0, i⟩

/-- Reads a template with as many turns in each loop, and as many bodies in each other. -/
def parse (s : Source) (t : DirectiveTable) : Attempt Tree := do
  let p ← nodes heed n s.text.toList t n .topLevel 0
  return ⟨s, p.val, p.faults⟩

end

/-! What is told is what is read -/

/-- The nodes that pieces make, with the offset of the place reached. -/
def gathered (o : Outcome (List Piece)) : Passage Nodes := ⟨gather o.val, o.faults, o.cursor.offset⟩

/-- A body is told as it is read, if there is enough for it. -/
def BodySettles (heed : Prop) (n k : Nat) (text : List Char) (t : DirectiveTable)
    (body : Nat → Attempt (Passage Nodes)) : Prop :=
  ∀ (c : Cursor) (m : Nat), c.text = text → c.rest.length < m →
    Settles heed (heed ∧ c.rest.length < n ∧ c.rest.length < k) (body c.offset)
      (gathered (pieces t .nested m 0 c))

/-- Clauses so far, and those that are read from the cursor on. -/
def claused (s : Clausing) (o : Outcome (Option (List (Clause (Located Node))))) : Claused :=
  ⟨o.val.map (s.clauses ++ ·), s.faults ++ o.faults, o.cursor.offset⟩

section
variable {heed : Prop} {n : Nat} {text : List Char} {c : Cursor} {s : Clausing}

theorem unbodied_settles {enough : Prop} (hc : c.text = text) (henough : enough → c.rest.length < n)
    (i : Nat) {after : Cursor}
    (hok : ∀ code d, Markup.codeAt (.closer '\x7d') c = .ok (code, d) → after = d)
    (herror : ∀ f, Markup.codeAt (.closer '\x7d') c = .error f → after = c.toEnd) :
    Settles heed enough (s.unbodied n text i c.offset) (.last (claused s ⟨some [],
      [fault "`match` arms in templates must have a `\x7b ... \x7d` body" i (c.offset + 1)],
        after⟩)) := by
  refine Settles.bind
    ((scan_settles n hc (bytewise_closer (x := '\x7d') rfl)).weaken False.elim henough)
    (settles_ok ?_)
  unfold Markup.codeAt at hok herror
  cases hcode : Code.scan (.closer '\x7d') c.before.head? c.rest with
  | error f =>
    rw [hcode] at herror
    rw [herror _ rfl, told, ← size_at hc, ← offset_toEnd]
    simp [claused, Clausing.ended, pure_eq]
  | ok code =>
    rw [hcode] at hok
    rw [hok _ _ rfl, told, past, past, List.length_append]
    simp [claused, Clausing.ended, pure_eq]

end

theorem offset_trimmed (c : Cursor) :
    c.offset + (byteSize c.rest - byteSize (c.skip isBlank).rest) = (c.skip isBlank).offset := by
  have hsize := congrArg byteSize (takeWhile_append_rest_skip isBlank c)
  rw [Text.byteSize_append] at hsize
  rw [offset_skip]
  omega

section
variable {heed : Prop} {n k m : Nat} {text : List Char} {t : DirectiveTable}
  {body : Nat → Attempt (Passage Nodes)}
  (hbody : BodySettles heed n k text t body) {mark c : Cursor} {s : Clausing} {r : Claused}
include hbody

theorem clause_settles (hmark : mark.text = text) (hc : c.text = text) (hm : c.rest.length < m)
    (head : List Char) :
    Settles heed (heed ∧ c.rest.length < n ∧ c.rest.length < k)
      (s.clause text body mark.offset head c.offset)
      ((Markup.closeBody mark (pieces t .nested m 0 c).cursor).1,
        ⟨s.clauses ++ [⟨.ofList (Text.trim head), gather (pieces t .nested m 0 c).val⟩],
          s.faults ++ ((pieces t .nested m 0 c).faults ++
            (Markup.closeBody mark (pieces t .nested m 0 c).cursor).2.1),
          (Markup.closeBody mark (pieces t .nested m 0 c).cursor).2.2.offset⟩) := by
  have hend := ((Markup.stepsAhead t m).pieces .nested 0 c).text_eq.trans hc
  refine Settles.bind (hbody c m hc hm) (settles_ok ?_)
  dsimp only [gathered]
  rw [closeBody_at hend hmark]
  rfl

theorem clause_settles_behind (hmark : mark.text = text) (hc : c.text = text) {begun : Cursor}
    (hbegun : Beyond c begun) (hm : c.rest.length ≤ m) (head : List Char) :
    ∃ closed faults after, Markup.closeBody mark (pieces t .nested m 0 begun).cursor =
      (closed, faults, after) ∧ Beyond c after ∧
      Settles heed (heed ∧ c.rest.length < n ∧ c.rest.length ≤ k)
        (s.clause text body mark.offset head begun.offset)
        (closed, ⟨s.clauses ++
          [⟨.ofList (Text.trim head), gather (pieces t .nested m 0 begun).val⟩],
          s.faults ++ ((pieces t .nested m 0 begun).faults ++ faults), after.offset⟩) := by
  have hshorter := hbegun.shorter
  have hend := (Markup.stepsAhead t m).pieces .nested 0 begun
  have hclause :=
    clause_settles hbody (s := s) hmark (hbegun.ahead.text_eq.trans hc) (m := m) (by omega) head
  exact ⟨_, _, _, rfl, hbegun.trans (hend.trans (Markup.ahead_closeBody mark _)),
    hclause.weaken id fun h => ⟨h.1, by omega, by omega⟩⟩

theorem controlTurn_advances (hmark : mark.text = text) (hc : c.text = text)
    (hs : s.offset = c.offset) (hm : c.rest.length ≤ m)
    (chained : Bool) (hr : claused s (branches t (m + 1) mark chained c) = r) :
    Advances heed (heed ∧ c.rest.length < n ∧ c.rest.length ≤ k)
      (controlTurn n text body mark.offset chained s) c r fun d s' =>
      s'.offset = d.offset ∧ d.text = text ∧ r = claused s' (branches t m mark chained d) := by
  have hcode : Settles heed (heed ∧ c.rest.length < n ∧ c.rest.length ≤ k)
      (codeAt n text c.offset .openBrace) _ :=
    (codeAt_settles hc bytewise_openBrace).weaken False.elim fun h => h.2.1
  rw [controlTurn, hs]
  rw [branches] at hr
  refine Advances.bind hcode ?_
  cases hheader : Markup.codeAt .openBrace c with
  | error f =>
    obtain ⟨f, resume⟩ := f
    rw [hheader] at hr
    rw [← hr]
    exact advances_last (settles_ok rfl)
  | ok found =>
    obtain ⟨header, begun⟩ := found
    rw [hheader] at hr
    obtain ⟨closed, fs, after, hclosing, hbeyond, hclause⟩ :=
      clause_settles_behind hbody (s := s) hmark hc (Markup.beyond_codeAt hheader) hm header
    refine Advances.bind hclause ?_
    dsimp only at hr
    rw [hclosing] at hr
    generalize pieces t .nested m 0 begun = b at hr ⊢
    have hnext := hbeyond.trans (ahead_skip after isBlank)
    dsimp only at hr ⊢
    cases closed with
    | false =>
      rw [← hr]
      exact advances_last (settles_ok rfl)
    | true =>
      cases chained with
      | false =>
        rw [← hr]
        exact advances_last (settles_ok rfl)
      | true =>
        rw [if_neg (by decide), onward_at (hbeyond.ahead.text_eq.trans hc), bind_ok]
        have htrim : Text.trimStart after.rest = (after.skip isBlank).rest :=
          (rest_skip isBlank after).symm
        rw [htrim]
        split at hr
        next helse =>
          rw [if_pos (by simpa using helse), offset_trimmed after]
          refine advances_next (settles_ok rfl) hnext ⟨rfl, hnext.ahead.text_eq.trans hc, ?_⟩
          simp only [← hr, claused, Option.map_map, List.append_assoc]
          congr 2
        next helse =>
          rw [if_neg (by simpa using helse), ← hr]
          exact advances_last (settles_ok rfl)

theorem arm_advances (hmark : mark.text = text) (hc : c.text = text) (hm : c.rest.length ≤ m)
    {p : Cursor} (hp : (c.skip fun x => isBlank x || x == ',') = p) {x : Char} {rest : List Char}
      (hrest : p.rest = x :: rest) (hx : x ≠ '\x7d')
    (hr : claused s (arms t (m + 1) mark c) = r) :
    Advances heed (heed ∧ c.rest.length < n ∧ c.rest.length ≤ k)
      (s.arm n text body mark.offset p.offset) c r fun d s' =>
      s'.offset = d.offset ∧ d.text = text ∧ r = claused s' (arms t m mark d) := by
  have hpattern : Ahead c p := hp ▸ ahead_skip c _
  have hptext := hpattern.text_eq.trans hc
  have hcode : Settles heed (heed ∧ c.rest.length < n ∧ c.rest.length ≤ k)
      (codeAt n text p.offset .fatArrow) _ :=
    (codeAt_settles hptext bytewise_fatArrow).weaken False.elim fun h =>
      hpattern.length_le.trans_lt h.2.1
  rw [arms, hp] at hr
  dsimp only at hr
  split at hr
  next hend => exact absurd (hrest.symm.trans hend) (List.cons_ne_nil _ _)
  next hbrace => exact absurd (List.cons.inj (hrest.symm.trans hbrace)).1 hx
  rw [Clausing.arm]
  refine Advances.bind hcode ?_
  cases hread : Markup.codeAt .fatArrow p with
  | error f =>
    obtain ⟨f, resume⟩ := f
    rw [hread] at hr
    rw [← hr]
    exact advances_last (settles_ok rfl)
  | ok found =>
    obtain ⟨pattern, afterArrow⟩ := found
    rw [hread] at hr
    have harrow := hpattern.beyond (Markup.beyond_codeAt hread)
    have hopen := harrow.trans (ahead_skip afterArrow isBlank)
    have hotext := hopen.ahead.text_eq.trans hc
    dsimp only [coded] at hr ⊢
    rw [skipWhile_at (harrow.ahead.text_eq.trans hc), bind_ok, onward_at hotext, bind_ok]
    generalize afterArrow.skip isBlank = b at *
    split at hr
    next behind hbrace =>
      obtain ⟨closed, fs, after, hclosing, hbeyond, hclause⟩ :=
        clause_settles_behind hbody (s := s) hmark hc (hopen.trans (ahead_forward b 1)) hm pattern
      rw [hbrace, if_pos (by simp [List.isPrefixOf]), offset_one hbrace rfl]
      refine Advances.bind hclause ?_
      rw [hclosing] at hr
      generalize pieces t .nested m 0 (b.forward 1) = o at hr ⊢
      dsimp only at hr ⊢
      cases closed with
      | false =>
        rw [← hr]
        exact advances_last (settles_ok rfl)
      | true =>
        refine advances_next (settles_ok rfl) hbeyond ⟨rfl, hbeyond.ahead.text_eq.trans hc, ?_⟩
        simp only [← hr, claused, Option.map_map, List.append_assoc, if_true]
        congr 2
    next hbrace =>
      rw [if_neg (not_isPrefixOf hbrace), ← hr]
      refine advances_last
        (unbodied_settles hotext (fun h => hopen.ahead.length_le.trans_lt h.2.1)
          afterArrow.offset ?_ ?_)
      · intro code d h
        rw [h]
      · intro f h
        rw [h]

theorem armTurn_advances (hmark : mark.text = text) (hc : c.text = text) (hs : s.offset = c.offset)
    (hm : c.rest.length ≤ m) (hr : claused s (arms t (m + 1) mark c) = r) :
    Advances heed (heed ∧ c.rest.length < n ∧ c.rest.length ≤ k) (armTurn n text body mark.offset s)
      c r fun d s' =>
      s'.offset = d.offset ∧ d.text = text ∧ r = claused s' (arms t m mark d) := by
  have hptext := (ahead_skip c fun x => isBlank x || x == ',').text_eq.trans hc
  rw [armTurn, hs, skipWhile_at hc, bind_ok, onward_at hptext, bind_ok, ← size_at hmark]
  generalize hp : (c.skip fun x => isBlank x || x == ',') = p at *
  cases hrest : p.rest with
  | nil =>
    have hsize : p.offset = mark.size := by
      rw [size_at hmark, ← size_at hptext, size, hrest]
      rfl
    simp only [arms, hp, hrest] at hr
    rw [← hr, ← hsize]
    exact advances_last (settles_ok (by simp [claused, Clausing.ended, pure_eq]))
  | cons x rest =>
    dsimp only
    by_cases hx : x = '\x7d'
    · subst hx
      simp only [arms, hp, hrest] at hr
      rw [← hr, if_pos (beq_self_eq_true _), offset_one hrest rfl]
      exact advances_last (settles_ok (by simp [claused, Clausing.ended, pure_eq]))
    · rw [if_neg (by simpa using hx)]
      exact arm_advances hbody hmark hc hm hp hrest hx hr

omit hbody in
theorem claused_nil (i : Nat) (o : Outcome (Option (List (Clause (Located Node))))) :
    claused ⟨[], [], i⟩ o = passed o := by
  obtain ⟨val, faults, cursor⟩ := o
  cases val <;> rfl

theorem branches_settle (hmark : mark.text = text) (hc : c.text = text) (chained : Bool)
    (hm : c.rest.length < m) :
    Settles heed (heed ∧ c.rest.length < n ∧ c.rest.length ≤ k)
      (loop (controlTurn n text body mark.offset chained) n ⟨[], [], c.offset⟩)
        (passed (branches t m mark chained c)) := by
  rw [← claused_nil c.offset]
  refine (loop_steps (heed ∧ c.rest.length < n ∧ c.rest.length ≤ k) (fun m d s r =>
    s.offset = d.offset ∧
    d.text = text ∧ r = claused s (branches t m mark chained d)) ?_ ⟨rfl, hc, rfl⟩ hm
      (Nat.le_refl _)).weaken id fun h => ⟨h, h.2.1⟩
  rintro m d s r hm hle ⟨hs, hd, rfl⟩
  exact .inl ((controlTurn_advances hbody hmark hd hs hm chained rfl).weaken id fun h =>
    ⟨h.1, by omega, by omega⟩)

theorem arms_settle (hmark : mark.text = text) (hc : c.text = text) (hm : c.rest.length < m) :
    Settles heed (heed ∧ c.rest.length < n ∧ c.rest.length ≤ k)
      (loop (armTurn n text body mark.offset) n ⟨[], [], c.offset⟩) (passed (arms t m mark c)) := by
  rw [← claused_nil c.offset]
  refine (loop_steps (heed ∧ c.rest.length < n ∧ c.rest.length ≤ k) (fun m d s r =>
    s.offset = d.offset ∧
    d.text = text ∧ r = claused s (arms t m mark d)) ?_ ⟨rfl, hc, rfl⟩ hm (Nat.le_refl _)).weaken id
      fun h => ⟨h, h.2.1⟩
  rintro m d s r hm hle ⟨hs, hd, rfl⟩
  exact .inl ((armTurn_advances hbody hmark hd hs hm rfl).weaken id fun h =>
    ⟨h.1, by omega, by omega⟩)

theorem directiveAt_settles (hc : c.text = text) (scope : Scope) {d : Directive} {rest : List Char}
    (hkey : c.rest = ('@' :: d.keyword.toList) ++ rest) (hm : c.rest.length ≤ m) :
    Settles heed (heed ∧ c.rest.length < n ∧ c.rest.length ≤ k)
      (directiveAt n text body scope c.offset d)
      (passed (directive t m scope c d)) := by
  obtain ⟨m, rfl⟩ : ∃ m', m = m' + 1 :=
    ⟨m - 1, by rw [hkey, List.cons_append, List.length_cons] at hm; omega⟩
  have hsign : c.rest = '@' :: (d.keyword.toList ++ rest) := hkey
  have hstop := Markup.beyond_announcement hsign d
  have hstext := hstop.ahead.text_eq.trans hc
  have hopen := hstop.trans (ahead_skip _ isBlank)
  have hotext := hopen.ahead.text_eq.trans hc
  generalize hr : directive t (m + 1) scope c d = r
  rw [directive] at hr
  rw [directiveAt, directiveRegion_at hc hkey, bind_ok]
  refine Settles.bind ((announcement_settles (n := n) hc d).weaken False.elim fun h => h.2.1) ?_
  have hfinish :=
    fun (more : List Fault) (body? : Option (DirectiveBody (Located Node))) {stop : Cursor}
      (hs : stop.text = text) =>
    directivePiece_at hc scope d (Markup.announcement d c).tokens
      ((Markup.announcement d c).faults ++ more) body? hs
  generalize Markup.announcement d c = a at *
  dsimp only at hr ⊢
  split at hr
  next hline =>
    rw [if_pos hline, hfinish _ _ hstext, ← hr]
    exact settles_ok rfl
  next hline =>
    rw [if_neg hline, skipWhile_at hstext, bind_ok, onward_at hotext, bind_ok]
    generalize a.stop.skip isBlank = o at *
    split at hr
    next behind hbrace =>
      have hbegun : Beyond c (o.forward 1) := hopen.trans (ahead_forward o 1)
      have hbtext := hbegun.ahead.text_eq.trans hc
      rw [hbrace, if_pos (by simp [List.isPrefixOf]), offset_one hbrace rfl]
      split at hr
      next hcode =>
        rw [if_pos hcode]
        have hread : Settles heed (heed ∧ c.rest.length < n ∧ c.rest.length ≤ k)
            (codeAt n text (o.forward 1).offset _) _ :=
          (codeAt_settles hbtext (bytewise_closer (x := '\x7d') rfl)).weaken False.elim fun h =>
            hbegun.ahead.length_le.trans_lt h.2.1
        refine Settles.bind hread ?_
        cases hcoded : Markup.codeAt (.closer '\x7d') (o.forward 1) with
        | error f =>
          obtain ⟨f, resume⟩ := f
          have hresume := hbegun.ahead.trans (Markup.ahead_codeAt_error hcoded)
          rw [hcoded] at hr
          dsimp only [coded]
          rw [hfinish _ _ (hresume.text_eq.trans hc), ← hr]
          exact settles_ok rfl
        | ok found =>
          obtain ⟨code, after⟩ := found
          have hafter := hbegun.ahead.trans (Markup.beyond_codeAt hcoded).ahead
          rw [hcoded] at hr
          dsimp only [coded]
          rw [hfinish _ _ (hafter.text_eq.trans hc), ← hr]
          exact settles_ok rfl
      next hcode =>
        rw [if_neg hcode]
        have hone : (o.forward 1).rest.length + 1 = o.rest.length := by simp [hbrace]
        have hshorter := hopen.shorter
        refine Settles.bind ((hbody (o.forward 1) m hbtext (by omega)).weaken id fun h =>
          ⟨h.1, by omega, by omega⟩) ?_
        have hend := (Markup.stepsAhead t m).pieces .nested 0 (o.forward 1)
        generalize pieces t .nested m 0 (o.forward 1) = b at hr hend ⊢
        have hafter := hbegun.ahead.trans (hend.trans (Markup.ahead_closeBody c b.cursor))
        dsimp only [gathered]
        rw [closeBody_at ((hbegun.ahead.trans hend).text_eq.trans hc) hc, bind_ok]
        dsimp only
        rw [hfinish _ _ (hafter.text_eq.trans hc), ← hr]
        exact settles_ok rfl
    next hbrace =>
      rw [if_neg (not_isPrefixOf hbrace), hfinish _ _ hstext, ← hr]
      exact settles_ok rfl

end

/-! Nodes -/

section
variable {heed : Prop} {n k m : Nat} {text : List Char} {t : DirectiveTable}
  {body : Nat → Attempt (Passage Nodes)}
  (hbody : BodySettles heed n k text t body) {c : Cursor}
include hbody

theorem control_settles (hc : c.text = text) (scope : Scope) {rest : List Char}
    (hrest : c.rest = '@' :: rest) (hm : c.rest.length ≤ m) {chained : Bool}
    (hannounced : Markup.announced t c = .control chained) :
    Settles heed (heed ∧ c.rest.length < n ∧ c.rest.length ≤ k)
      (control n text body c.offset chained)
      (passed (Markup.construct t scope m c)) := by
  have hshorter : (c.forward 1).rest.length < c.rest.length := (Markup.beyond_sign hrest 0).shorter
  have hbranches :=
    branches_settle hbody (m := m) hc ((text_forward 1 c).trans hc) chained (by omega)
  rw [control, offset_one hrest rfl, Markup.construct, hannounced]
  exact Settles.bind (hbranches.weaken id fun h => ⟨h.1, by omega, by omega⟩) (settles_ok rfl)

theorem choice_settles (hc : c.text = text) (scope : Scope) {rest : List Char}
    (hrest : c.rest = ('@' :: "match".toList) ++ rest)
    (hm : c.rest.length ≤ m) (hannounced : Markup.announced t c = .choice) :
    Settles heed (heed ∧ c.rest.length < n ∧ c.rest.length ≤ k) (choice n text body c.offset)
      (passed (Markup.construct t scope m c)) := by
  have hsix : c.offset + 6 = (c.forward 6).offset := offset_past_ascii hrest (by decide)
  have hahead := ahead_forward c 6
  have hcode : Settles heed (heed ∧ c.rest.length < n ∧ c.rest.length ≤ k)
      (codeAt n text (c.forward 6).offset .openBrace) _ :=
    (codeAt_settles (hahead.text_eq.trans hc) bytewise_openBrace).weaken False.elim fun h =>
      hahead.length_le.trans_lt h.2.1
  rw [choice, hsix, Markup.construct, hannounced]
  refine Settles.bind hcode ?_
  cases hread : Markup.codeAt .openBrace (c.forward 6) with
  | error f => exact settles_ok rfl
  | ok found =>
    obtain ⟨scrutinee, begun⟩ := found
    have hbegun := hahead.beyond (Markup.beyond_codeAt hread)
    have hshorter := hbegun.shorter
    have harms := arms_settle hbody (m := m) hc (hbegun.ahead.text_eq.trans hc) (by omega)
    exact Settles.bind (harms.weaken id fun h => ⟨h.1, by omega, by omega⟩) (settles_ok rfl)

theorem word_settles (hc : c.text = text) (scope : Scope) {x : Char} {rest : List Char}
    (hrest : c.rest = '@' :: x :: rest)
    (hm : c.rest.length ≤ m) (hinside : Markup.insideWord c x = false)
    (hname : Text.startsName x = true) :
    Settles heed (heed ∧ c.rest.length < n ∧ c.rest.length ≤ k) (word n text body t scope c.offset)
      (passed (Markup.construct t scope m c)) := by
  have hone := offset_one hrest rfl
  have hftext := (text_forward 1 c).trans hc
  have hnext : (c.forward 1).rest = x :: rest := by simp [hrest]
  have hfront :=
    (List.prefix_iff_eq_append.mp (Markup.Implicit.prefix_leadingName (x :: rest))).symm
  have hword := hnext.trans hfront
  have hsign : c.rest = ('@' :: leadingName (x :: rest)) ++
      (x :: rest).drop (leadingName (x :: rest)).length := by
    rw [hrest, List.cons_append, ← hfront]
  have himplicit : Settles heed (heed ∧ c.rest.length < n ∧ c.rest.length ≤ k)
      (implicit n text c.offset) _ :=
    (implicit_settles hc hrest fun h => h.2.1).weaken False.elim id
  have hother : x ≠ '@' ∧ (x == '*') = false ∧ (x == '(') = false ∧ (x == '\x7b') = false := by
    refine ⟨?_, beq_false_of_ne ?_, beq_false_of_ne ?_, beq_false_of_ne ?_⟩ <;> rintro rfl <;>
      revert hname <;> decide
  obtain ⟨hat, hstar, hparen, hbrace⟩ := hother
  have hannounced := Markup.announced.eq_def t c
  rw [hrest, List.drop_succ_cons, List.drop_zero] at hannounced
  simp only [hinside, hname, hstar, hparen, hbrace, Bool.false_eq_true, if_false, if_true]
    at hannounced
  rw [word, hone, onward_at hftext, hnext, bind_ok, ← offset_forward hword]
  dsimp only
  rw [onward_at ((text_forward _ (c.forward 1)).trans hftext), bind_ok, ← past,
    between_at hftext hword, bind_ok, past,
    rest_forward_of_append hword]
  generalize hkeyword : String.ofList (leadingName (x :: rest)) = keyword at hannounced ⊢
  have hletters : leadingName (x :: rest) = keyword.toList := by
    rw [← hkeyword, String.toList_ofList]
  split at hannounced
  next h =>
    rw [if_pos h]
    exact control_settles hbody hc scope hrest hm hannounced
  next h =>
    rw [if_neg h]
    split at hannounced
    next h =>
      rw [if_pos h]
      exact control_settles hbody hc scope hrest hm hannounced
    next h =>
      rw [if_neg h]
      split at hannounced
      next h =>
        rw [if_pos h]
        rw [hletters, eq_of_beq h] at hsign
        exact choice_settles hbody hc scope hsign hm hannounced
      next h =>
        rw [if_neg h]
        cases hd : t.get? keyword with
        | some d =>
          rw [hd] at hannounced
          dsimp only at hannounced ⊢
          split at hannounced
          next hboundary =>
            rw [if_pos hboundary, Markup.construct, hannounced]
            have hkey : d.keyword = keyword := by simpa using List.find?_some hd
            rw [hletters, ← hkey] at hsign
            exact directiveAt_settles hbody hc scope hsign hm
          next hboundary =>
            rw [if_neg hboundary, Markup.construct, hannounced]
            exact himplicit
        | none =>
          rw [hd] at hannounced
          rw [Markup.construct, hannounced]
          exact himplicit

theorem transition_settles (hc : c.text = text) (scope : Scope) {rest : List Char}
    (hrest : c.rest = '@' :: rest) (hm : c.rest.length ≤ m) :
    Settles heed (heed ∧ c.rest.length < n ∧ c.rest.length ≤ k)
      (transition n text body t scope c.offset)
      (passed (Markup.construct t scope m c)) := by
  have hone := offset_one hrest rfl
  have hnext : (c.forward 1).rest = rest := by simp [hrest]
  have hsimple : ∀ {o : Outcome (List Piece)}, Markup.announced t c = .simple o →
      Markup.construct t scope m c = o := by
    intro o ho
    rw [Markup.construct, ho]
  have hstray := stray_at hrest
  rw [transition, hone, onward_at ((text_forward 1 c).trans hc), hnext, bind_ok]
  cases rest with
  | nil =>
    rw [hsimple (o := Markup.stray c) (by simp [Markup.announced, hrest]), ← hstray]
    exact settles_ok rfl
  | cons x rest =>
    dsimp only
    by_cases hx : x = '@'
    · subst hx
      rw [if_pos (beq_self_eq_true _),
        hsimple (o := .literal ['@'] c (c.forward 2)) (by simp [Markup.announced, hrest]),
        offset_two hrest rfl rfl]
      exact settles_ok rfl
    have hword : (if Text.isAlphanumeric x then followsAlphanumeric text c.offset else pure false) =
        .ok (Markup.insideWord c x) := by
      rw [Markup.insideWord, followsAlphanumeric_at hc]
      cases Text.isAlphanumeric x <;> rfl
    rw [if_neg (by simpa using hx), hword, bind_ok]
    cases hinside : Markup.insideWord c x with
    | true =>
      rw [if_pos rfl, hsimple (o := .literal ['@'] c (c.forward 1))
        (by simp [Markup.announced, hrest, hinside])]
      exact settles_ok rfl
    | false =>
      rw [if_neg (by simp)]
      split
      next hstar =>
        obtain rfl : x = '*' := by simpa using hstar
        rw [hsimple (o := Markup.comment c) (by simp [Markup.announced, hrest, hinside])]
        exact settles_ok (comment_at hc hrest)
      split
      next hparen =>
        obtain rfl : x = '(' := by simpa using hparen
        rw [hsimple (o := Markup.explicit c) (by simp [Markup.announced, hrest, hinside])]
        exact (explicit_settles hc hrest fun h => h.2.1).weaken False.elim id
      split
      next hbrace =>
        obtain rfl : x = '\x7b' := by simpa using hbrace
        rw [hsimple (o := Markup.codeBlock c) (by simp [Markup.announced, hrest, hinside])]
        exact (codeBlock_settles hc hrest fun h => h.2.1).weaken False.elim id
      split
      next hname => exact word_settles hbody hc scope hrest hm hinside hname
      next hname =>
        rw [hsimple (o := Markup.stray c) (by simp_all [Markup.announced]), ← hstray]
        exact settles_ok rfl

end

theorem joinFrom_eq (r : Run) (ps : List Piece) : joinFrom r ps = .ok (Markup.gatherFrom r ps) := by
  induction ps generalizing r with
  | nil => rfl
  | cons p ps ih =>
    cases p with
    | text cs offset => exact ih (r.add cs offset)
    | node m span alone =>
      rw [joinFrom, ih {}, Markup.gatherFrom]
      cases alone with
      | false => rfl
      | true =>
        have hfront : r.trimPads.chars.reverse <+: r.chars.reverse :=
          List.reverse_prefix.mpr (List.dropWhile_suffix Text.isPad)
        have htruncate : truncate r = .ok r.trimPads := by
          rw [truncate, upTo_front hfront, bind_ok, List.reverse_reverse]
          rfl
        rw [if_pos rfl, if_pos rfl, htruncate]
        rfl

/-- Nodes so far, and those that are read from the cursor on. -/
def noded (s : Noding) (o : Outcome (List Piece)) : Passage Nodes :=
  ⟨gather (s.pieces ++ o.val), s.faults ++ o.faults, o.cursor.offset⟩

/-- The next turn over nodes reads on in the same scope that is read from the cursor on. -/
def NodesGoOn (text : List Char) (t : DirectiveTable) (scope : Scope) (m : Nat) (r : Passage Nodes)
    (d : Cursor) (s : Noding) : Prop :=
  s.offset = d.offset ∧ d.text = text ∧ r = noded s (pieces t scope m s.depth d)

section
variable {heed : Bool} {n k m : Nat} {text : List Char} {t : DirectiveTable} {scope : Scope}
  {body : Nat → Attempt (Passage Nodes)} {c : Cursor} {s : Noding} {r : Passage Nodes}
    (hc : c.text = text)
include hc

theorem pass_advances {heed enough : Prop} {o : Outcome (List Piece)} {p : Passage (List Piece)}
    (depth : Nat) (ho : Beyond c o.cursor) (hp : p = passed o)
    (hr : noded s (o.followedBy (pieces t scope m depth o.cursor)) = r) :
    Advances heed enough (.ok (s.pass p depth)) c r (NodesGoOn text t scope m r) := by
  subst hp
  refine advances_next (settles_ok rfl) ho ⟨rfl, ho.ahead.text_eq.trans hc, ?_⟩
  rw [← hr]
  simp only [noded, Outcome.followedBy, passed, List.append_assoc]

theorem literal_advances {heed enough : Prop} {x : Char} {rest : List Char}
    (hrest : c.rest = x :: rest) (depth : Nat)
    (cs : List Char) {i : Nat} (hi : i = (c.forward 1).offset)
    (hr : noded s ((Outcome.literal cs c (c.forward 1)).followedBy
      (pieces t scope m depth (c.forward 1))) = r) :
    Advances heed enough (.ok (s.pass (literalAt cs c.offset i) depth)) c r
      (NodesGoOn text t scope m r) := by
  have hne : c.rest ≠ [] := by simp [hrest]
  exact pass_advances hc (o := .literal cs c (c.forward 1)) depth (beyond_forward hne 0)
    (by rw [hi]; rfl) hr

omit hc in
theorem ended_at (hs : s.offset = c.offset) : s.ended = .ok (.last (noded s ⟨[], [], c⟩)) := by
  rw [Noding.ended, joinFrom_eq, bind_ok, noded, List.append_nil, List.append_nil, ← hs]
  rfl

section
variable {enough : Prop} (hs : s.offset = c.offset) {rest : List Char}
include hs

theorem nodesTurn_sign (henough : enough → heed = true ∧ c.rest.length < n ∧ c.rest.length ≤ k)
    (hbody : BodySettles (heed = true) n k text t body) (hm : c.rest.length ≤ m)
      (hrest : c.rest = '@' :: rest)
    (hr : noded s (pieces t scope (m + 1) s.depth c) = r) :
    Advances (heed = true) enough (nodesTurn n text body t heed scope s) c r
      (NodesGoOn text t scope m r) := by
  obtain ⟨m, rfl⟩ : ∃ m', m = m' + 1 := ⟨m - 1, by rw [hrest, List.length_cons] at hm; omega⟩
  rw [Markup.pieces_signed hrest] at hr
  rw [nodesTurn, hs, onward_at hc, bind_ok, hrest]
  dsimp only
  rw [if_pos (beq_self_eq_true _)]
  exact Advances.bind ((transition_settles hbody hc scope hrest hm).weaken id henough)
    (pass_advances hc s.depth (Markup.beyond_construct t scope m hrest) rfl hr)

theorem nodesTurn_tag (henough : enough → heed = true ∧ c.rest.length < n)
    (hrest : c.rest = '<' :: rest) (hr : noded s (pieces t scope (m + 1) s.depth c) = r) :
    Advances (heed = true) enough (nodesTurn n text body t heed scope s) c r
      (NodesGoOn text t scope m r) := by
  rw [nodesTurn, hs, onward_at hc, bind_ok, hrest]
  dsimp only
  rw [if_neg (by decide), if_pos (beq_self_eq_true _)]
  refine Advances.bind ((tag_settles hc hrest).weaken id fun h =>
    ⟨(henough h).1, Nat.le_of_lt (henough h).2⟩) ?_
  rw [pieces, hrest] at hr
  dsimp only at hr
  cases hread : Markup.Tag.read? c with
  | none =>
    rw [hread] at hr
    exact literal_advances hc hrest s.depth ['<'] (offset_one hrest rfl) hr
  | some found =>
    obtain ⟨ps, after⟩ := found
    rw [hread] at hr
    exact pass_advances hc (o := ⟨ps, [], after⟩) s.depth (Markup.Tag.beyond_read hread) rfl hr

theorem nodesTurn_other {x : Char} (hrest : c.rest = x :: rest) (hat : x ≠ '@') (htag : x ≠ '<')
    (hr : noded s (pieces t scope (m + 1) s.depth c) = r) :
    Advances (heed = true) enough (nodesTurn n text body t heed scope s) c r
      (NodesGoOn text t scope m r) := by
  rw [nodesTurn, hs, onward_at hc, bind_ok, hrest]
  dsimp only
  rw [if_neg (by simpa using hat), if_neg (by simpa using htag)]
  have hbetween : between c.offset (c.offset + x.utf8Size) text = .ok [x] := by
    rw [← offset_forward_one hrest]
    exact between_ahead hc (ahead_forward c 1) (by simp [hrest])
  rw [pieces] at hr
  split at hr
  next h => cases hrest.symm.trans h
  next h => exact absurd (List.cons.inj (hrest.symm.trans h)).1 hat
  next h => exact absurd (List.cons.inj (hrest.symm.trans h)).1 htag
  next y rest' _ _ h =>
    obtain ⟨rfl, rfl⟩ := List.cons.inj (hrest.symm.trans h)
    dsimp only at hr
    cases scope with
    | topLevel =>
      rw [if_neg (by simp), if_neg (by simp), hbetween, bind_ok]
      exact literal_advances hc hrest s.depth [x] (offset_forward_one hrest).symm hr
    | nested =>
      dsimp only at hr
      by_cases hopen : x = '\x7b'
      · subst hopen
        rw [if_pos (beq_self_eq_true _)] at hr
        rw [if_pos (by simp)]
        exact literal_advances hc hrest (s.depth + 1) ['\x7b'] (offset_one hrest rfl) hr
      rw [if_neg (by simpa using hopen)] at hr
      rw [if_neg (by simpa using hopen)]
      by_cases hclose : x = '\x7d'
      · subst hclose
        rw [if_pos (beq_self_eq_true _)] at hr
        rw [if_pos (by simp)]
        split at hr
        next hdepth =>
          rw [if_pos hdepth, ← hr]
          exact advances_last (settles_ok (ended_at hs))
        next hdepth =>
          rw [if_neg hdepth]
          exact literal_advances hc hrest (s.depth - 1) ['\x7d'] (offset_one hrest rfl) hr
      · rw [if_neg (by simpa using hclose)] at hr
        rw [if_neg (by simpa using hclose), hbetween, bind_ok]
        exact literal_advances hc hrest s.depth [x] (offset_forward_one hrest).symm hr

end

theorem nodesTurn_advances (enough : Prop)
    (henough : enough → heed = true ∧ c.rest.length < n ∧ c.rest.length ≤ k)
    (hbody : BodySettles (heed = true) n k text t body) (hs : s.offset = c.offset)
      (hm : c.rest.length ≤ m)
    (hr : noded s (pieces t scope (m + 1) s.depth c) = r) :
    Advances (heed = true) enough (nodesTurn n text body t heed scope s) c r
      (NodesGoOn text t scope m r) := by
  cases hrest : c.rest with
  | nil =>
    rw [pieces, hrest] at hr
    rw [nodesTurn, hs, onward_at hc, bind_ok, hrest, ← hr]
    exact advances_last (settles_ok (ended_at hs))
  | cons x rest =>
    by_cases hat : x = '@'
    · subst hat
      exact nodesTurn_sign hc hs henough hbody hm hrest hr
    by_cases htag : x = '<'
    · subst htag
      exact nodesTurn_tag hc hs (fun h => ⟨(henough h).1, (henough h).2.1⟩) hrest hr
    · exact nodesTurn_other hc hs hrest hat htag hr

end

theorem nodes_settle (heed : Bool) {n : Nat} {text : List Char} {t : DirectiveTable} (k : Nat)
    (scope : Scope) {c : Cursor} {m : Nat} (hc : c.text = text) (hm : c.rest.length < m) :
    Settles (heed = true) (heed = true ∧ c.rest.length < n ∧ c.rest.length < k)
      (nodes heed n text t k scope c.offset)
      (gathered (pieces t scope m 0 c)) := by
  induction k generalizing scope c m with
  | zero => exact ⟨.inr (.inl rfl), fun h => absurd h.2.2 (Nat.not_lt_zero _)⟩
  | succ k ih =>
    have hbody : BodySettles (heed = true) n k text t (nodes heed n text t k .nested) :=
      fun c m hc hm => ih .nested hc hm
    have hgathered : gathered (pieces t scope m 0 c) =
        noded ⟨[], [], 0, c.offset⟩ (pieces t scope m 0 c) := rfl
    rw [nodes, hgathered]
    refine (loop_steps (heed = true ∧ c.rest.length < n ∧ c.rest.length ≤ k) (fun m d s r =>
      NodesGoOn text t scope m r d s) ?_ ⟨rfl, hc, rfl⟩ hm (Nat.le_refl _)).weaken id fun h =>
        ⟨⟨h.1, h.2.1, Nat.le_of_lt_succ h.2.2⟩, h.2.1⟩
    rintro m d s r hm hle ⟨hs, hd, rfl⟩
    exact .inl (nodesTurn_advances hd _ (fun h => ⟨h.1, hle.trans_lt h.2.1, hle.trans h.2.2⟩) hbody
      hs hm rfl)

theorem parse_settles (heed : Bool) (n : Nat) (s : Source) (t : DirectiveTable) :
    Settles (heed = true) (heed = true ∧ s.text.toList.length < n) (parse heed n s t)
      (Tree.parse s t) := by
  refine Settles.bind
    ((nodes_settle heed (n := n) (t := t) n .topLevel (c := .start s.text.toList) rfl
    (Nat.lt_succ_self _)).weaken id fun h => ⟨h.1, h.2, h.2⟩) (settles_ok rfl)

end Templating.Offset
