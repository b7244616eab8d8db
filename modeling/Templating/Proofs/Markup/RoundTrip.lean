import Templating.Proofs.Code.Scan
import Templating.Proofs.Markup.Printer
import Templating.Proofs.Markup.Reading

/-! Reading undoes printing. Each kind of tree is read back in one step from in front of whatever
follows it, and trees in a row by induction on the trees; the fuel of the reader only has to exceed
the text that is left. -/
namespace Templating.Markup
open Text (Cursor isBlank isAlphanumeric continuesName trim leadingName startsWithWord)
variable {t : DirectiveTable} {scope : Scope} {c : Cursor} {n depth : Nat} {s r v : List Char}

theorem codeAt_eq {stop : Code.Stop} {code : List Char} (hc : c.rest = code ++ v)
    (hp : ¬ c.before.head?.any continuesName) (h : EndsAt stop code v) :
    codeAt stop c = .ok (code, c.forward (code.length + stop.text.length)) := by
  have hn : c.before.head?.any continuesName = (none : Option Char).any continuesName := by
    simpa using hp
  have hs : Code.scan stop c.before.head? c.rest = .ok code := by
    rw [hc, Code.scan_congr hn]; exact h
  simp only [codeAt, hs]

theorem explicit_eq {code : List Char} (hc : c.rest = '@' :: '(' :: code ++ ')' :: r)
    (ht : trim code = code)
    (h : EndsAt (.closer ')') code (')' :: r)) :
    ∃ span, explicit c =
      ⟨[.node (.expression (.ofList code)) span false], [], c.forward (code.length + 3)⟩ := by
  have hr : (c.forward 2).rest = code ++ ')' :: r := by simp [hc]
  have hb : (c.forward 2).before.head? = some '(' :=
    Cursor.head?_before_forward (u := ['@', '(']) (by simpa using hc) (by simp)
  have hs := codeAt_eq hr (by rw [hb]; decide) h
  refine ⟨⟨c.offset, (c.forward (code.length + 3)).offset⟩, ?_⟩
  simp only [explicit, hs, ht, Cursor.forward_forward, Code.Stop.text, List.length_singleton]
  rw [show 2 + (code.length + 1) = code.length + 3 by omega]

theorem commentText?_append (h : ¬ ['*', '@'] <:+: s) :
    commentText? (s ++ '*' :: '@' :: r) = some s := by
  induction s with
  | nil => simp [commentText?]
  | cons x s ih =>
    have hs : ¬ ['*', '@'] <:+: s := fun hi => h (hi.trans (List.suffix_cons x s).isInfix)
    have hx : ∀ u, x :: s ≠ '*' :: '@' :: u := by
      rintro u hu
      exact h (hu ▸ ⟨[], u, rfl⟩)
    rw [List.cons_append, commentText?]
    · simp [ih hs]
    · rintro u rfl hu
      cases s with
      | nil => simp at hu
      | cons y s =>
        obtain ⟨rfl, -⟩ : y = '@' ∧ _ := by simpa using hu
        exact hx s rfl

theorem comment_eq (hc : c.rest = '@' :: '*' :: s ++ '*' :: '@' :: r) (h : ¬ ['*', '@'] <:+: s) :
    ∃ span, comment c = ⟨[.node .comment span false], [], c.forward (s.length + 4)⟩ := by
  have hr : (c.forward 2).rest = s ++ '*' :: '@' :: r := by simp [hc]
  refine ⟨⟨c.offset, (c.forward (s.length + 4)).offset⟩, ?_⟩
  simp only [comment, hr, commentText?_append h, Cursor.forward_forward]
  rw [show 2 + (s.length + 2) = s.length + 4 by omega]

/-! Text -/

/-- Text that leaves no brace open in a body, with so many open before it. -/
def Settles : Scope → Nat → List Char → Prop
  | .topLevel, depth, _ => depth = 0
  | .nested, depth, s => balanced depth s

theorem Settles.nil (h : Settles scope depth []) : depth = 0 := by
  cases scope with
  | topLevel => exact h
  | nested => simpa [Settles, balanced] using h

theorem pieces_text_cons {x : Char} (hx : x ≠ '<') (hs : Settles scope depth (x :: s))
    (hc : c.rest = escape (x :: s) ++ v) :
    ∃ depth' k offset, Settles scope depth' s ∧ (escape (x :: s)).length = k + (escape s).length ∧
      (c.forward k).rest = escape s ++ v ∧
      ∀ n, pieces t scope (n + 1) depth c =
        Outcome.followedBy ⟨[.text [x] offset], [], c.forward k⟩
          (pieces t scope n depth' (c.forward k)) := by
  by_cases ha : x = '@'
  · subst ha
    have hr : c.rest = '@' :: '@' :: (escape s ++ v) := by simpa [escape] using hc
    refine ⟨depth, 2, c.offset, ?_, by simp [escape]; omega, by simp [hr], fun n => ?_⟩
    · cases scope <;> simpa [Settles, balanced] using hs
    · exact pieces_simple hr (announced_escape hr)
  · have hr : c.rest = x :: (escape s ++ v) := by simpa [escape, ha] using hc
    have hl : (escape (x :: s)).length = 1 + (escape s).length := by simp [escape, ha]; omega
    have hf : (c.forward 1).rest = escape s ++ v := by simp [hr]
    cases scope with
    | topLevel =>
      exact ⟨depth, 1, c.offset, hs, hl, hf, fun n => pieces_literal hr ha hx (.inl rfl)⟩
    | nested =>
      by_cases ho : x = '\x7b'
      · subst ho
        exact ⟨depth + 1, 1, c.offset,
          by simpa [Settles, balanced] using hs, hl, hf, fun n => pieces_open hr⟩
      · by_cases hd : x = '\x7d'
        · subst hd
          obtain ⟨h0, hs⟩ : depth ≠ 0 ∧ balanced (depth - 1) s := by
            simpa [Settles, balanced] using hs
          obtain ⟨m, rfl⟩ := Nat.exists_eq_succ_of_ne_zero h0
          exact ⟨m, 1, c.offset, hs, hl, hf, fun n => pieces_close hr⟩
        · refine ⟨depth, 1, c.offset,
            by simpa [Settles, balanced, ho, hd] using hs, hl, hf, fun n => ?_⟩
          exact pieces_literal hr ha hx (.inr ⟨ho, hd⟩)

theorem pieces_text (hl : '<' ∉ s) (hs : Settles scope depth s) (hc : c.rest = escape s ++ v) :
    ∃ texts, Gathers s texts ∧ ∀ n, pieces t scope (n + s.length) depth c =
      Outcome.followedBy ⟨texts, [], c.forward (escape s).length⟩
        (pieces t scope n 0 (c.forward (escape s).length)) := by
  induction s generalizing depth c with
  | nil =>
    refine ⟨[], gathers_nil, fun n => ?_⟩
    simp [escape, hs.nil, Outcome.followedBy, Cursor.forward]
  | cons x s ih =>
    obtain ⟨hx, hl⟩ : '<' ≠ x ∧ '<' ∉ s := by simpa using hl
    obtain ⟨depth', k, offset, hs', hk, hr, hp⟩ := pieces_text_cons (t := t) hx.symm hs hc
    obtain ⟨texts, hg, ht⟩ := ih hl hs' hr
    refine ⟨.text [x] offset :: texts, hg.cons [x] offset, fun n => ?_⟩
    rw [List.length_cons, ← Nat.add_assoc, hp, ht, Cursor.forward_forward, ← hk]
    simp [Outcome.followedBy]

/-! What is printed, seen from its ends -/

theorem getLast?_escape (s : List Char) : (escape s).getLast? = s.getLast? := by
  induction s with
  | nil => rfl
  | cons x s ih =>
    by_cases hx : x = '@'
    · subst hx
      simp [escape, List.getLast?_cons, ih]
    · simp [escape, hx, List.getLast?_cons, ih]

theorem length_le_escape (s : List Char) : s.length ≤ (escape s).length := by
  induction s with
  | nil => simp
  | cons x s ih =>
    simp only [escape]
    split <;> simp only [List.length_cons] <;> omega

theorem printClauses_cons (link lead : List Char) (b : Clause Core) (cs : List (Clause Core)) :
    printClauses link lead (b :: cs) = lead ++ printClauses link [] (b :: cs) := by
  obtain ⟨head, body⟩ := b
  simp [printClauses]

theorem length_printClauses_cons (link lead : List Char) (head : String) (body : List Core)
    (cs : List (Clause Core)) :
    (printClauses link lead (⟨head, body⟩ :: cs)).length =
      lead.length + head.toList.length + link.length + (printAll body).length +
        (printClauses link [' '] cs).length + 2 := by
  simp [printClauses]
  omega

theorem getLast?_printClauses (link : List Char) {cs : List (Clause Core)} (h : cs ≠ [])
    (lead : List Char) :
    (printClauses link lead cs).getLast? = some '\x7d' := by
  induction cs generalizing lead with
  | nil => exact absurd rfl h
  | cons b cs ih =>
    obtain ⟨head, body⟩ := b
    rw [printClauses, List.getLast?_append, List.getLast?_cons]
    cases cs with
    | nil => rfl
    | cons b cs => rw [ih (List.cons_ne_nil b cs)]; rfl

def Core.isText : Core → Bool
  | .text _ => true
  | _ => false

/-- What is printed of anything but text ends in no letter or digit, and so no keyword after it is
inside a word. -/
theorem Core.getLast?_print {x : Core} (h : x.isText = false) (hp : x.Printable scope v) :
    ¬ x.print.getLast?.any isAlphanumeric := by
  have hd : isAlphanumeric '\x7d' = false := by decide
  cases x with
  | text s => simp [isText] at h
  | expression code =>
    have : isAlphanumeric ')' = false := by decide
    simp [print, List.getLast?_cons, this]
  | comment s =>
    have : isAlphanumeric '@' = false := by decide
    simp [print, List.getLast?_cons, this]
  | control branches =>
    have hb : branches ≠ [] := by rintro rfl; simp [Printable, Headed] at hp
    simp [print, List.getLast?_cons, getLast?_printClauses _ hb, hd]
  | choice scrutinee arms => simp [print, List.getLast?_cons, hd]

/-! Trees -/

/-- What may stand after trees: nothing, or the brace that ends their body. -/
def Ends : Scope → List Char → Prop
  | .topLevel, after => after = []
  | .nested, after => after.head? = some '\x7d'

/-- No letter or digit stands right before a keyword at the cursor. -/
def Enters (c : Cursor) : List Core → Prop
  | .control _ :: _ | .choice _ _ :: _ => ¬ c.before.head?.any isAlphanumeric
  | _ => True

/-- Reading gave pieces that agree with the trees, no fault, and went up to a place. -/
structure Reads (ts : List Core) (o : Outcome (List Piece)) (stop : Cursor) : Prop where
  agree : AllAgree ts (gather o.val)
  separate : (∀ x ∈ ts.head?, x.isText = false) → Separate o.val
  faults : o.faults = []
  cursor : o.cursor = stop

theorem reads_nil (c : Cursor) : Reads [] ⟨[], [], c⟩ c :=
  ⟨trivial, fun _ => separate_nil, rfl, rfl⟩

theorem Reads.node {x : Core} {ts : List Core} {o : Outcome (List Piece)} {stop : Cursor}
    (h : Reads ts o stop) {node : Node} (hx : x.Agrees node) (span : Span) (d : Cursor) :
    Reads (x :: ts) (Outcome.followedBy ⟨[.node node span false], [], d⟩ o) stop where
  agree := by
    have hg : gather (.node node span false :: o.val) = ⟨node, span⟩ :: gather o.val := rfl
    simpa only [Outcome.followedBy, List.singleton_append, hg, AllAgree] using And.intro hx h.agree
  separate _ := separate_node node span o.val
  faults := h.faults
  cursor := h.cursor

theorem Reads.text {s : String} {ts : List Core} {o : Outcome (List Piece)} {stop : Cursor}
    (h : Reads ts o stop)
    (hs : s.toList ≠ []) (hts : ∀ x ∈ ts.head?, x.isText = false) {texts : List Piece}
      (hg : Gathers s.toList texts)
    (d : Cursor) : Reads (.text s :: ts) (Outcome.followedBy ⟨texts, [], d⟩ o) stop where
  agree := by
    obtain ⟨span, hspan⟩ := hg.gather_append hs (h.separate hts)
    have hm : (Core.text s).Agrees (.markup (.ofList s.toList)) := String.ofList_toList
    simpa only [Outcome.followedBy, hspan, AllAgree] using And.intro hm h.agree
  separate h := by simpa [Core.isText] using h _ rfl
  faults := h.faults
  cursor := h.cursor

theorem Apart.isText {s : String} {ts : List Core} (h : Apart (.text s) ts) :
    ∀ x ∈ ts.head?, x.isText = false := by
  cases ts with
  | nil => simp
  | cons x ts => cases x <;> simp_all [Apart, Core.isText]

theorem Apart.enters {s : String} {ts : List Core} (h : Apart (.text s) ts)
    (hc : c.before.head? = s.toList.getLast?) : Enters c ts := by
  cases ts with
  | nil => trivial
  | cons x ts => cases x <;> simp_all [Apart, Enters]

theorem enters_of_not_any (h : ¬ c.before.head?.any isAlphanumeric) (ts : List Core) :
    Enters c ts := by
  cases ts with
  | nil => trivial
  | cons x ts => cases x <;> simp [Enters] <;> simpa using h

/-- The branches go on as their heads and the text after them say. -/
def Continues (chained : Bool) (after : List Char) (others : List (Clause Core)) : Prop :=
  if chained then (∀ b ∈ others, startsWithWord chainWord b.head.toList) ∧ ¬ chains after else
    others = []

theorem Headed.continues {head : String} {body : List Core} {others : List (Clause Core)}
    {after : List Char}
    (h : Headed after (⟨head, body⟩ :: others)) (hc : c.rest = '@' :: (head.toList ++ ' ' :: r))
    (ha : ¬ c.before.head?.any isAlphanumeric) :
    ∃ chained, announced t c = .control chained ∧ Continues chained after others := by
  have hw : leadingName (head.toList ++ ' ' :: r) = leadingName head.toList :=
    Text.leadingName_append (by decide) _ _
  rcases h with ⟨hi, ho, hn⟩ | ⟨hf | hl, ho⟩
  · refine ⟨true, announced_if hc ha (hw.trans hi), ?_⟩
    rw [Continues, if_pos rfl]
    exact ⟨ho, hn⟩
  · exact ⟨false, announced_for hc ha (hw.trans hf), ho⟩
  · exact ⟨false, announced_while hc ha (hw.trans hl), ho⟩

/- What is to be shown of the readers of trees, branches and arms, for each fuel. -/
def ReadsTrees (t : DirectiveTable) (n : Nat) : Prop :=
  ∀ (scope : Scope) (ts : List Core) (after : List Char) (c : Cursor),
    AllPrintable scope after ts → Ends scope after → Enters c ts → c.rest = printAll ts ++ after →
      c.rest.length < n →
    Reads ts (pieces t scope n 0 c) (c.forward (printAll ts).length)

def ReadsBranches (t : DirectiveTable) (n : Nat) : Prop :=
  ∀ (b : Clause Core) (others : List (Clause Core)) (after : List Char) (chained : Bool)
    (mark c : Cursor),
    ClausesPrintable .openBrace ofBranch after (b :: others) → Continues chained after others →
    ¬ c.before.head?.any continuesName → c.rest = printClauses ofBranch [] (b :: others) ++ after →
    c.rest.length < n →
    ∃ cs, ClausesAgree (b :: others) cs ∧
      branches t n mark chained c =
        ⟨some cs, [], c.forward (printClauses ofBranch [] (b :: others)).length⟩

def ReadsArms (t : DirectiveTable) (n : Nat) : Prop :=
  ∀ (as : List (Clause Core)) (lead after : List Char) (mark c : Cursor),
    ClausesPrintable .fatArrow ofArm ('\x7d' :: after) as → (∀ a ∈ as, beginsArm a.head.toList) →
    (lead = [] ∨ lead = [' ']) → ¬ c.before.head?.any continuesName →
    c.rest = printClauses ofArm lead as ++ '\x7d' :: after → c.rest.length < n →
    ∃ cs, ClausesAgree as cs ∧
      arms t n mark c = ⟨some cs, [], c.forward ((printClauses ofArm lead as).length + 1)⟩

theorem ReadsTrees.body (h : ReadsTrees t n) {ts : List Core}
    (hp : AllPrintable .nested ('\x7d' :: r) ts)
    (hc : c.rest = s ++ '\x7b' :: (printAll ts ++ '\x7d' :: r)) (hn : c.rest.length < n + 1)
    (mark : Cursor) :
    let o := pieces t .nested n 0 (c.forward (s.length + 1))
    AllAgree ts (gather o.val) ∧ o.faults = [] ∧
      closeBody mark o.cursor = (true, [], c.forward (s.length + (printAll ts).length + 2)) ∧
      (c.forward (s.length + (printAll ts).length + 2)).rest = r ∧
      (c.forward (s.length + (printAll ts).length + 2)).before.head? = some '\x7d' := by
  have hopen : c.rest = (s ++ ['\x7b']) ++ (printAll ts ++ '\x7d' :: r) := by simp [hc]
  have hlen : (s ++ ['\x7b']).length = s.length + 1 := by simp
  have hbegun := hlen ▸ Cursor.rest_forward_of_append hopen
  have hbrace : (c.forward (s.length + 1)).before.head? = some '\x7b' := by
    rw [← hlen, Cursor.head?_before_forward hopen (by simp)]
    exact List.getLast?_concat
  have hl : (c.forward (s.length + 1)).rest.length < n := by
    rw [hopen] at hn
    rw [hbegun]
    simp at hn ⊢
    omega
  have hr := h .nested ts _ _ hp rfl (enters_of_not_any (by rw [hbrace]; decide) ts) hbegun hl
  have hend : c.rest = (s ++ ['\x7b'] ++ printAll ts ++ ['\x7d']) ++ r := by simp [hc]
  have hsize : (s ++ ['\x7b'] ++ printAll ts ++ ['\x7d']).length =
      s.length + (printAll ts).length + 2 := by
    simp only [List.length_append, List.length_singleton]
    omega
  refine ⟨hr.agree, hr.faults, ?_, hsize ▸ Cursor.rest_forward_of_append hend, ?_⟩
  · rw [hr.cursor, closeBody_eq (Cursor.rest_forward_of_append hbegun), Cursor.forward_forward,
      Cursor.forward_forward,
      show s.length + 1 + ((printAll ts).length + 1) = s.length + (printAll ts).length + 2 by omega]
  · rw [← hsize, Cursor.head?_before_forward hend (by simp)]
    exact List.getLast?_concat

theorem scrutinee_eq
    (hc : c.rest = ['@', 'm', 'a', 't', 'c', 'h'] ++ ' ' :: s ++ ' ' :: '\x7b' :: r)
    (h : EndsAt .openBrace (s ++ [' ']) ('\x7b' :: r)) :
    codeAt .openBrace (c.forward 6) = .ok (' ' :: (s ++ [' ']), c.forward (s.length + 9)) ∧
      (c.forward (s.length + 9)).rest = r ∧
        (c.forward (s.length + 9)).before.head? = some '\x7b' := by
  have hf : (c.forward 6).rest = ' ' :: (s ++ [' '] ++ '\x7b' :: r) := by simp [hc]
  have hscan := Code.scan_space (p := (c.forward 6).before.head?) h (by simp [Code.isStop])
  have hopen : c.rest = (['@', 'm', 'a', 't', 'c', 'h'] ++ ' ' :: s ++ [' ']) ++ ['\x7b'] ++ r := by
    simp [hc]
  have hlen : ((['@', 'm', 'a', 't', 'c', 'h'] ++ ' ' :: s ++ [' ']) ++ ['\x7b']).length =
      s.length + 9 := by
    simp
  refine ⟨?_, ?_, ?_⟩
  · simp only [codeAt, hf, hscan, Cursor.forward_forward, Code.Stop.text, List.length_cons,
      List.length_append,
      List.length_nil]
    rw [show 6 + (s.length + (0 + 1) + 1 + (0 + 1)) = s.length + 9 by omega]
  · rw [← hlen]
    exact Cursor.rest_forward_of_append hopen
  · rw [← hlen, Cursor.head?_before_forward hopen (by simp)]
    exact List.getLast?_concat

theorem pieces_item (hb : ReadsBranches t n) (ha : ReadsArms t n) {x : Core} (hx : x.isText = false)
    (hp : x.Printable scope v) (he : Enters c [x]) (hc : c.rest = x.print ++ v)
    (hn : c.rest.length < n + 1) :
    ∃ node span, x.Agrees node ∧ pieces t scope (n + 1) 0 c =
      Outcome.followedBy ⟨[.node node span false], [], c.forward x.print.length⟩
        (pieces t scope n 0 (c.forward x.print.length)) := by
  cases x with
  | text s => simp [Core.isText] at hx
  | expression code =>
    have hr : c.rest = '@' :: '(' :: code.toList ++ ')' :: v := by simpa [Core.print] using hc
    obtain ⟨span, hs⟩ := explicit_eq hr hp.1 hp.2
    refine ⟨.expression (.ofList code.toList), span, String.ofList_toList, ?_⟩
    rw [pieces_simple hr (announced_explicit hr), hs]
    simp [Core.print]
  | comment s =>
    have hr : c.rest = '@' :: '*' :: s.toList ++ '*' :: '@' :: v := by simpa [Core.print] using hc
    obtain ⟨span, hs⟩ := comment_eq hr hp
    refine ⟨.comment, span, trivial, ?_⟩
    rw [pieces_simple hr (announced_comment hr), hs]
    simp [Core.print]
  | control branches =>
    cases branches with
    | nil => exact absurd hp.1 (by simp [Headed])
    | cons b others =>
      have hr : c.rest = '@' :: (printClauses ofBranch [] (b :: others) ++ v) := by
        simpa [Core.print] using hc
      obtain ⟨chained, hann, hch⟩ := hp.1.continues (t := t) (by simpa [printClauses] using hr) he
      have hf : (c.forward 1).rest = printClauses ofBranch [] (b :: others) ++ v := by simp [hr]
      have hbf : (c.forward 1).before.head? = some '@' :=
        Cursor.head?_before_forward (u := ['@']) hr (by simp)
      have hl : (c.forward 1).rest.length < n := by rw [hr] at hn; rw [hf]; simpa using hn
      obtain ⟨cs, hcs, hbr⟩ :=
        hb b others v chained c (c.forward 1) hp.2 hch (by rw [hbf]; decide) hf hl
      have hlen : 1 + (printClauses ofBranch [] (b :: others)).length =
          (Core.control (b :: others)).print.length := by
        simp [Core.print, Nat.add_comm]
      have hread : pieces t scope (n + 1) 0 c = _ := pieces_control hr hann hbr
      rw [Cursor.forward_forward, hlen] at hread
      exact ⟨.control cs, _, hcs, hread⟩
  | choice scrutinee arms =>
    obtain ⟨ht, hs, hbegin, hclauses⟩ := hp
    have hr : c.rest = ['@', 'm', 'a', 't', 'c', 'h'] ++ ' ' :: scrutinee.toList ++
        ' ' :: '\x7b' :: (printClauses ofArm [] arms ++ '\x7d' :: v) := by
          simpa [Core.print] using hc
    obtain ⟨hscan, hd, hbd⟩ := scrutinee_eq hr (by simpa using hs)
    have hl : (c.forward (scrutinee.toList.length + 9)).rest.length < n := by
      rw [hr] at hn
      rw [hd]
      simp at hn ⊢
      omega
    obtain ⟨cs, hcs, har⟩ := ha arms [] v c _ hclauses hbegin (.inl rfl) (by rw [hbd]; decide) hd hl
    have hann : announced t c = .choice :=
      announced_match (by simpa using hr) he
        (Text.leadingName_append (x := ' ') (by decide) ['m', 'a', 't', 'c', 'h'] _)
    have htrim : String.ofList (trim (' ' :: (scrutinee.toList ++ [' ']))) = scrutinee := by
      rw [Text.trim_blank_cons (by decide), Text.trim_append_blank (by decide), ht,
        String.ofList_toList]
    have hlen : scrutinee.toList.length + 9 + ((printClauses ofArm [] arms).length + 1) =
        (Core.choice scrutinee arms).print.length := by
      simp [Core.print]
      omega
    have hread : pieces t scope (n + 1) 0 c = _ := pieces_choice (by simpa using hr) hann hscan har
    rw [Cursor.forward_forward, hlen, htrim] at hread
    exact ⟨.choice scrutinee cs, _, ⟨rfl, hcs⟩, hread⟩

theorem branches_eq (ht : ReadsTrees t n) {head : String} {body : List Core}
    (htrim : trim head.toList = head.toList)
    (hs : EndsAt .openBrace (head.toList ++ [' ']) ('\x7b' :: (printAll body ++ '\x7d' :: r)))
    (hp : AllPrintable .nested ('\x7d' :: r) body) (hb : ¬ c.before.head?.any continuesName)
    (hc : c.rest = (head.toList ++ [' ']) ++ '\x7b' :: (printAll body ++ '\x7d' :: r))
      (hn : c.rest.length < n + 1)
    (mark : Cursor) (chained : Bool) :
    ∃ nodes, AllAgree body nodes ∧ ∃ d,
      d = c.forward (head.toList.length + (printAll body).length + 3) ∧ d.rest = r ∧
      branches t (n + 1) mark chained c =
        if chained && startsWithWord chainWord (d.skip isBlank).rest then
          let more := branches t n mark chained (d.skip isBlank)
          ⟨more.val.map (⟨head, nodes⟩ :: ·), more.faults, more.cursor⟩
        else ⟨some [⟨head, nodes⟩], [], d⟩ := by
  have hcode := codeAt_eq hc hb hs
  obtain ⟨hagree, hfaults, hclose, hrest, -⟩ := ht.body hp hc hn mark
  have hsize : (head.toList ++ [' ']).length + (printAll body).length + 2 =
      head.toList.length + (printAll body).length + 3 := by
    simp
    omega
  have hhead : String.ofList (trim (head.toList ++ [' '])) = head := by
    rw [Text.trim_append_blank (by decide), htrim, String.ofList_toList]
  refine ⟨_, hagree, _, rfl, hsize ▸ hrest, ?_⟩
  simp only [branches, hcode, Code.Stop.text, List.length_singleton, hclose, hsize, hfaults, hhead,
    Bool.true_and,
    List.nil_append]
  rfl

theorem startsWithWord_chainWord (h : startsWithWord chainWord s) : ∃ r, s = 'e' :: r := by
  obtain ⟨⟨r, rfl⟩, -⟩ : chainWord <+: s ∧ _ := by simpa [startsWithWord] using h
  exact ⟨_, rfl⟩

theorem readsBranches_succ (ht : ReadsTrees t n) (hb : ReadsBranches t n) :
    ReadsBranches t (n + 1) := by
  rintro ⟨head, body⟩ others after chained mark c ⟨htrim, hs, hbody, hothers⟩ hch hp hc hn
  obtain ⟨nodes, hagree, d, hd, hr, hread⟩ :=
    branches_eq (r := printClauses ofBranch [' '] others ++ after) ht htrim
    (by simpa [ofBranch] using hs) hbody hp (by simpa [printClauses, ofBranch] using hc) hn
      mark chained
  cases others with
  | nil =>
    have hstop : (chained && startsWithWord chainWord (d.skip isBlank).rest) = false := by
      rw [Cursor.rest_skip, hr]
      cases chained with
      | false => rfl
      | true => simpa [Continues, chains, printClauses, Text.trimStart] using hch
    refine ⟨[⟨head, nodes⟩], ⟨rfl, hagree, trivial⟩, ?_⟩
    rw [hread, hstop, if_neg Bool.false_ne_true, hd]
    congr 2
    rw [length_printClauses_cons]
    simp [printClauses, ofBranch]
    omega
  | cons b others =>
    cases chained with
    | false => exact absurd hch (List.cons_ne_nil b others)
    | true =>
      obtain ⟨hwords, hafter⟩ := hch
      have hword := hwords b (List.mem_cons_self ..)
      have hnext : d.rest = [' '] ++ (printClauses ofBranch [] (b :: others) ++ after) := by
        rw [hr, printClauses_cons, List.append_assoc]
      have hgoes : startsWithWord chainWord (printClauses ofBranch [] (b :: others) ++ after) := by
        have h := Text.startsWithWord_append (x := ' ') (by decide) hword
        simpa [printClauses] using h _
      obtain ⟨w, hw⟩ := startsWithWord_chainWord hgoes
      have hskip : d.skip isBlank = d.forward 1 :=
        Cursor.skip_eq_forward hnext (by simp; decide) (by rw [hw]; simp; decide)
      have hf : (d.forward 1).rest = printClauses ofBranch [] (b :: others) ++ after :=
        Cursor.rest_forward_of_append hnext
      have hbf : (d.forward 1).before.head? = some ' ' :=
        Cursor.head?_before_forward hnext (by simp)
      have hl : (d.forward 1).rest.length < n := by
        have hle : d.rest.length ≤ c.rest.length := by
          rw [hd, Cursor.rest_forward, List.length_drop]; omega
        have hlen := congrArg List.length hnext
        rw [List.length_append, ← hf, List.length_singleton] at hlen
        omega
      obtain ⟨cs, hcs, hmore⟩ := hb b others after true mark (d.forward 1) hothers
        ⟨fun b' hb' => hwords b' (List.mem_cons_of_mem b hb'), hafter⟩ (by rw [hbf]; decide) hf hl
      refine ⟨⟨head, nodes⟩ :: cs, ⟨rfl, hagree, hcs⟩, ?_⟩
      rw [hread, hskip, hf, hgoes, Bool.and_true, if_pos rfl, hmore, hd]
      simp only [Option.map_some, Cursor.forward_forward]
      congr 2
      rw [length_printClauses_cons ofBranch [] head body (b :: others),
        printClauses_cons ofBranch [' ']]
      simp [ofBranch]
      omega

theorem skip_arm (ht : trim s = s) (hb : beginsArm s) (hlead : r = [] ∨ r = [' '])
    (hc : c.rest = r ++ (s ++ v)) :
    c.skip (fun x => isBlank x || x == ',') = c.forward r.length ∧
      ∃ x w, s = x :: w ∧ x ≠ '\x7d' := by
  cases s with
  | nil => simp [beginsArm] at hb
  | cons x w =>
    obtain ⟨hcomma, hbrace⟩ : x ≠ ',' ∧ x ≠ '\x7d' := by simpa [beginsArm] using hb
    have hx : ¬ isBlank x := Text.not_blank_of_trim_eq ht
    refine ⟨Cursor.skip_eq_forward hc ?_ (by simpa [hcomma] using hx), x, w, rfl, hbrace⟩
    rcases hlead with rfl | rfl <;> simp
    decide

theorem arms_eq (ht : ReadsTrees t n) {head : String} {body : List Core}
    (htrim : trim head.toList = head.toList) (hne : ∃ x w, head.toList = x :: w ∧ x ≠ '\x7d')
    (hs : EndsAt .fatArrow (head.toList ++ [' '])
      (['=', '>', ' ', '\x7b'] ++ (printAll body ++ '\x7d' :: r)))
    (hp : AllPrintable .nested ('\x7d' :: r) body) {e : Cursor}
    (he : c.skip (fun x => isBlank x || x == ',') = e)
    (hb : ¬ e.before.head?.any continuesName)
    (hc : e.rest = (head.toList ++ [' ', '=', '>', ' ']) ++ '\x7b' ::
      (printAll body ++ '\x7d' :: r))
    (hn : e.rest.length < n + 1) (mark : Cursor) :
    ∃ nodes, AllAgree body nodes ∧ ∃ d,
      d = e.forward (head.toList.length + (printAll body).length + 6) ∧ d.rest = r ∧
      d.before.head? = some '\x7d' ∧ arms t (n + 1) mark c =
        let more := arms t n mark d
        ⟨more.val.map (⟨head, nodes⟩ :: ·), more.faults, more.cursor⟩ := by
  have hcode : codeAt .fatArrow e =
      .ok (head.toList ++ [' '], e.forward (head.toList.length + 3)) := by
    simpa [Code.Stop.text] using codeAt_eq (by simp [hc]) hb hs
  have hstop : (e.forward (head.toList.length + 3)).rest =
      [' '] ++ '\x7b' :: (printAll body ++ '\x7d' :: r) := by
    have hsplit : e.rest = (head.toList ++ [' ', '=', '>']) ++
        ([' '] ++ '\x7b' :: (printAll body ++ '\x7d' :: r)) := by
      simp [hc]
    simpa using Cursor.rest_forward_of_append hsplit
  have hskip : (e.forward (head.toList.length + 3)).skip isBlank =
      e.forward (head.toList.length + 4) := by
    rw [Cursor.skip_eq_forward hstop (by simp; decide) (by simp; decide), Cursor.forward_forward]
    rfl
  have hopen : (e.forward (head.toList.length + 4)).rest =
      '\x7b' :: (printAll body ++ '\x7d' :: r) := by
    simpa using Cursor.rest_forward_of_append hc
  obtain ⟨hagree, hfaults, hclose, hrest, hlast⟩ := ht.body hp hc hn mark
  have hsize : (head.toList ++ [' ', '=', '>', ' ']).length + (printAll body).length + 2 =
      head.toList.length + (printAll body).length + 6 := by
    simp
    omega
  have hbegun : (head.toList ++ [' ', '=', '>', ' ']).length + 1 = head.toList.length + 5 := by simp
  rw [hbegun] at hagree hfaults hclose
  rw [hsize] at hclose hrest hlast
  have hhead : String.ofList (trim (head.toList ++ [' '])) = head := by
    rw [Text.trim_append_blank (by decide), htrim, String.ofList_toList]
  refine ⟨_, hagree, _, rfl, hrest, hlast, ?_⟩
  obtain ⟨x, w, hx, hbrace⟩ := hne
  simp only [arms, he]
  split
  · next h => rw [hc] at h; simp at h
  · next h => rw [hc, hx] at h; simp at h; exact absurd h.1 hbrace
  · simp only [hcode, hskip, hopen, Cursor.forward_forward, hclose, hfaults, hhead,
      List.nil_append, if_pos]

theorem readsArms_succ (ht : ReadsTrees t n) (ha : ReadsArms t n) : ReadsArms t (n + 1) := by
  intro as lead after mark c hp hbegin hlead hb hc hn
  cases as with
  | nil =>
    have hskip : c.skip (fun x => isBlank x || x == ',') = c := by
      rw [Cursor.skip_eq_forward (u := []) hc (by simp) (by simp; decide)]
      simp [Cursor.forward]
    have hr : c.rest = '\x7d' :: after := hc
    refine ⟨[], trivial, ?_⟩
    simp [arms, hskip, hr, printClauses]
  | cons a as =>
    obtain ⟨head, body⟩ := a
    obtain ⟨htrim, hs, hbody, has⟩ := hp
    have hpattern : c.rest = lead ++ (head.toList ++ ([' ', '=', '>', ' '] ++ '\x7b' ::
        (printAll body ++ '\x7d' :: (printClauses ofArm [' '] as ++ '\x7d' :: after)))) := by
      simpa [printClauses, ofArm] using hc
    obtain ⟨hskip, hne⟩ := skip_arm htrim (hbegin _ (List.mem_cons_self ..)) hlead hpattern
    have he : (c.forward lead.length).rest = _ := Cursor.rest_forward_of_append hpattern
    have hbe : ¬ (c.forward lead.length).before.head?.any continuesName := by
      rcases hlead with rfl | rfl
      · simpa [Cursor.forward] using hb
      · rw [Cursor.head?_before_forward hpattern (by simp)]
        decide
    have hle : (c.forward lead.length).rest.length < n + 1 := by
      rw [Cursor.rest_forward, List.length_drop]
      omega
    obtain ⟨nodes, hagree, d, hd, hr, hbd, hread⟩ :=
      arms_eq (r := printClauses ofArm [' '] as ++ '\x7d' :: after) ht htrim
      hne (by simpa [ofArm] using hs) (by simpa using hbody) hskip hbe (by simpa using he) hle mark
    have hl : d.rest.length < n := by
      rw [he] at hle
      rw [hr]
      simp at hle ⊢
      omega
    obtain ⟨cs, hcs, hmore⟩ :=
      ha as [' '] after mark d has (fun a ha => hbegin a (List.mem_cons_of_mem _ ha))
        (.inr rfl) (by rw [hbd]; decide) hr hl
    refine ⟨⟨head, nodes⟩ :: cs, ⟨rfl, hagree, hcs⟩, ?_⟩
    rw [hread, hmore, hd]
    simp only [Option.map_some, Cursor.forward_forward]
    congr 2
    rw [length_printClauses_cons]
    simp [ofArm]
    omega

theorem readsTrees_nil {after : List Char} (he : Ends scope after) (hc : c.rest = after) :
    Reads [] (pieces t scope (n + 1) 0 c) c := by
  cases scope with
  | topLevel =>
    rw [pieces_nil (hc.trans he)]
    exact reads_nil c
  | nested =>
    obtain ⟨r, rfl⟩ : ∃ r, after = '\x7d' :: r := List.head?_eq_some_iff.mp he
    rw [pieces_end hc]
    exact reads_nil c

theorem readsTrees_text (ht : ∀ m < n + 1, ReadsTrees t m) {s : String} {ts : List Core}
    {after : List Char} (hp : AllPrintable scope after (.text s :: ts)) (he : Ends scope after)
    (hc : c.rest = escape s.toList ++ (printAll ts ++ after)) (hn : c.rest.length < n + 1) :
    Reads (.text s :: ts) (pieces t scope (n + 1) 0 c)
      ((c.forward (escape s.toList).length).forward (printAll ts).length) := by
  obtain ⟨⟨hs, hl, hb⟩, hap, hts⟩ := hp
  have hset : Settles scope 0 s.toList := by cases scope <;> simp_all [Settles]
  obtain ⟨texts, hg, hread⟩ := pieces_text (t := t) hl hset hc
  have hrest := Cursor.rest_forward_of_append hc
  have hle := length_le_escape s.toList
  have hpos := List.length_pos_iff.mpr hs
  have hlast : (c.forward (escape s.toList).length).before.head? = s.toList.getLast? := by
    rw [Cursor.head?_before_forward hc (List.length_pos_iff.mp (by omega)), getLast?_escape]
  rw [hc, List.length_append] at hn
  have hreads :=
    ht (n + 1 - s.toList.length) (by omega) scope ts after _ hts he (hap.enters hlast) hrest
      (by rw [hrest]; omega)
  rw [show n + 1 = (n + 1 - s.toList.length) + s.toList.length by omega, hread]
  exact hreads.text hs hap.isText hg _

theorem readsTrees_item (ht : ReadsTrees t n) (hb : ReadsBranches t n) (ha : ReadsArms t n)
    {x : Core} {ts : List Core}
    {after : List Char} (hx : x.isText = false) (hp : AllPrintable scope after (x :: ts))
      (he : Ends scope after)
    (hen : Enters c [x]) (hc : c.rest = x.print ++ (printAll ts ++ after))
    (hn : c.rest.length < n + 1) :
    Reads (x :: ts) (pieces t scope (n + 1) 0 c)
      ((c.forward x.print.length).forward (printAll ts).length) := by
  obtain ⟨hprint, -, hts⟩ := hp
  obtain ⟨node, span, hagree, hread⟩ := pieces_item hb ha hx hprint hen hc hn
  have hrest := Cursor.rest_forward_of_append hc
  have hne : x.print ≠ [] := by cases x <;> simp_all [Core.print, Core.isText]
  have hlast : ¬ (c.forward x.print.length).before.head?.any isAlphanumeric := by
    rw [Cursor.head?_before_forward hc hne]
    exact Core.getLast?_print hx hprint
  have hl : (c.forward x.print.length).rest.length < n := by
    have hpos := List.length_pos_iff.mpr hne
    rw [hc, List.length_append] at hn
    rw [hrest]
    omega
  have hreads := ht scope ts after _ hts he (enters_of_not_any hlast ts) hrest hl
  rw [hread]
  exact hreads.node hagree span _

theorem readsTrees_of_lt (ht : ∀ m < n, ReadsTrees t m) (hb : ∀ m < n, ReadsBranches t m)
    (ha : ∀ m < n, ReadsArms t m) :
    ReadsTrees t n := by
  intro scope ts after c hp he hen hc hn
  obtain ⟨n, rfl⟩ := Nat.exists_eq_succ_of_ne_zero (Nat.ne_of_gt (Nat.zero_lt_of_lt hn))
  have hlt := n.lt_succ_self
  cases ts with
  | nil => exact readsTrees_nil he hc
  | cons x ts =>
    rw [printAll, List.append_assoc] at hc
    rw [printAll, List.length_append, ← Cursor.forward_forward]
    cases hx : x.isText with
    | true =>
      obtain ⟨s, rfl⟩ : ∃ s, x = .text s := by cases x <;> simp_all [Core.isText]
      exact readsTrees_text ht hp he hc hn
    | false =>
      have henter : Enters c [x] := by cases x <;> simp_all [Enters]
      exact readsTrees_item (ht n hlt) (hb n hlt) (ha n hlt) hx hp he henter hc hn

theorem reads (t : DirectiveTable) (n : Nat) :
    ReadsTrees t n ∧ ReadsBranches t n ∧ ReadsArms t n := by
  induction n using Nat.strong_induction_on with
  | _ n ih =>
    refine ⟨readsTrees_of_lt (fun m hm => (ih m hm).1) (fun m hm => (ih m hm).2.1) fun m hm =>
      (ih m hm).2.2, ?_, ?_⟩
    · cases n with
      | zero => exact fun _ _ _ _ _ _ _ _ _ _ hn => absurd hn (Nat.not_lt_zero _)
      | succ n => exact readsBranches_succ (ih n n.lt_succ_self).1 (ih n n.lt_succ_self).2.1
    · cases n with
      | zero => exact fun _ _ _ _ _ _ _ _ _ _ hn => absurd hn (Nat.not_lt_zero _)
      | succ n => exact readsArms_succ (ih n n.lt_succ_self).1 (ih n n.lt_succ_self).2.2

mutual

theorem Core.Agrees.faults_eq : ∀ {x : Core} {node : Node}, x.Agrees node → node.faults = []
  | .text _, .markup _, _ => rfl
  | .expression _, .expression _, _ => rfl
  | .comment _, .comment, _ => rfl
  | .control _, .control _, h => ClausesAgree.faults_eq h
  | .choice _ _, .choice _ _, h => ClausesAgree.faults_eq h.2

theorem AllAgree.faults_eq : ∀ {ts : List Core} {nodes : Nodes}, AllAgree ts nodes →
    nodeFaults nodes = []
  | [], [], _ => rfl
  | _ :: _, ⟨_, _⟩ :: _, h => by rw [nodeFaults, h.1.faults_eq, h.2.faults_eq, List.nil_append]

theorem ClausesAgree.faults_eq : ∀ {bs : List (Clause Core)} {cs : List (Clause (Located Node))},
    ClausesAgree bs cs → clauseFaults cs = []
  | [], [], _ => rfl
  | ⟨_, _⟩ :: _, ⟨_, _⟩ :: _, h => by
    rw [clauseFaults, h.2.1.faults_eq, h.2.2.faults_eq, List.nil_append]

end

/-- Printed trees are read back as they were, with any table of directives,
and nothing is reported. -/
theorem parse_printAll (name : String) (t : DirectiveTable) (ts : List Core)
    (h : AllPrintable .topLevel [] ts) :
    AllAgree ts (Tree.parse ⟨name, .ofList (printAll ts)⟩ t).nodes ∧
      (Tree.parse ⟨name, .ofList (printAll ts)⟩ t).allDiagnostics = [] := by
  have hr := (reads t ((printAll ts).length + 1)).1 .topLevel ts [] (.start (printAll ts)) h rfl
    (enters_of_not_any (by simp [Cursor.start]) ts) (by simp [Cursor.start])
      (by simp [Cursor.start])
  refine ⟨by simpa [Tree.parse] using hr.agree, ?_⟩
  simp [Tree.allDiagnostics, Tree.parse, hr.faults, hr.agree.faults_eq]

/-- A page on which each kind of tree stands inside another one. -/
def nestedPage : List Core := [
  .text "mail a@b \x7b ",
  .control [
    ⟨"if a(\"\x7b\")", [.text "\x7bx\x7d ", .control [⟨"for y in z", [.expression "y + ')' as u8",
      .choice "y" [⟨"Some(_) if y > 1", [.comment " * @ "]⟩, ⟨"_", []⟩]]⟩]]⟩,
    ⟨"else if b", []⟩,
    ⟨"else", [.text "@"]⟩],
  .text " elsewhere @",
  .control [⟨"while let Some(q) = it.next()", [.expression ""]⟩]]

set_option maxRecDepth 8000 in
theorem nestedPage_printable : AllPrintable .topLevel [] nestedPage := by
  simp only [nestedPage, AllPrintable, Core.Printable, ClausesPrintable, Headed, Apart, EndsAt,
    and_true, true_and]
  repeat' (first | decide | constructor)

theorem parse_printAll_nestedPage :
    AllAgree nestedPage (Tree.parse ⟨"page", .ofList (printAll nestedPage)⟩ .standard).nodes ∧
      (Tree.parse ⟨"page", .ofList (printAll nestedPage)⟩ .standard).allDiagnostics = [] :=
  parse_printAll "page" .standard nestedPage nestedPage_printable

end Templating.Markup
