import Mathlib.Data.Option.Basic
import Templating.Code.Lexeme
import Templating.Proofs.Code.Balanced
import Templating.Proofs.Text.Cursor

/-! Where a text is read as tokens none of which is a literal in quotes, the scanner takes the same
comments for comments and the same delimiters for delimiters. Such a text is balanced, or it ends
inside a comment. -/
namespace Templating.Code
open Lexeme

def Token.quoted : Token → Bool
  | .literal t => !t.toList.head?.any Char.isDigit
  | _ => false

/-- From any character before it, the scan of the first text comes to the scan of the second one. -/
def Leads (s : State) (cs : List Char) (t : State) (r : List Char) : Prop :=
  ∀ p, ∃ q, s.run p [] cs = t.run q [] r

section
variable {s t u : State} {c : Char} {cs r r' : List Char}

theorem leads_refl (s : State) (cs : List Char) : Leads s cs s cs := fun p => ⟨p, rfl⟩

theorem Leads.trans (h : Leads s cs t r) (h' : Leads t r u r') : Leads s cs u r' := by
  intro p
  obtain ⟨q, hq⟩ := h p
  obtain ⟨q', hq'⟩ := h' q
  exact ⟨q', hq.trans hq'⟩

theorem leads_next (h : ∀ p, s.next? p c cs = some t) : Leads s (c :: cs) t cs := by
  intro p
  refine ⟨some c, ?_⟩
  rw [State.run, List.append_nil, h p]
  rfl

end

/-! Characters that leave code as it is -/

/-- Characters that open, close, quote or escape something, or begin a comment. -/
def signs : List Char := ['(', ')', '[', ']', '\x7b', '\x7d', '"', '\'', '\\', '/']

def inert (c : Char) : Bool := !signs.contains c

theorem inert_of {p : Char → Bool} (hp : ∀ d ∈ signs, p d = false) {c : Char} (h : p c = true) :
    inert c = true := by
  cases hc : inert c with
  | true => rfl
  | false =>
    rw [inert, Bool.not_eq_false', List.contains_iff_mem] at hc
    rw [hp c hc] at h
    cases h

theorem ne_of_inert {c d : Char} (h : inert c = true) (hd : inert d = false) : c ≠ d := by
  rintro rfl
  rw [h] at hd
  cases hd

theorem next?_inert {c : Char} (hc : inert c = true) (closers : List Char) (p : Option Char)
    {next : List Char} (hraw : c = 'r' → rawGuards? next = none)
    (hbytes : c = 'b' → ∀ r, next = 'r' :: r → rawGuards? r = none) :
    State.next? ⟨0, .code, closers⟩ p c next = some ⟨0, .code, closers⟩ := by
  have hne : ∀ d, inert d = false → c ≠ d := fun d => ne_of_inert hc
  have h1 := hne '(' (by decide)
  have h2 := hne ')' (by decide)
  have h3 := hne '[' (by decide)
  have h4 := hne ']' (by decide)
  have h5 := hne '\x7b' (by decide)
  have h6 := hne '\x7d' (by decide)
  have h7 := hne '"' (by decide)
  have h8 := hne '\'' (by decide)
  have h9 := hne '/' (by decide)
  have hopen : closerOf? c = none := by
    unfold closerOf?
    split <;> first | rfl | contradiction
  have hclose : isCloser c = false := by simp [isCloser, h2, h4, h6]
  have hmove : codeMove (.closer ')') closers p c next = .go 0 .code closers := by
    simp only [codeMove, isStop, hopen, hclose, Bool.false_eq_true, if_false]
    rw [if_neg (by simp [h2])]
    split
    all_goals try first | exact absurd rfl h7 | exact absurd rfl h8 | exact absurd rfl h9
    · rw [hraw rfl, ite_self]
    · split
      next r => rw [hbytes rfl r rfl, ite_self]
      · rfl
    · rfl
  simp only [State.next?, move, hmove]

theorem rawGuards?_cons {c : Char} (hc : c ≠ '"') {cs : List Char} (h : rawGuards? cs = none) :
    rawGuards? (c :: cs) = none := by
  by_cases hguard : c = '#'
  · subst hguard
    simpa [rawGuards?] using h
  · simp [rawGuards?, hguard, hc]

/-- Inert characters leave code as it is, unless they would begin a raw string. -/
theorem leads_inert {a r : List Char} (ha : ∀ c ∈ a, inert c = true) (hr : rawGuards? r = none)
    (hhead : r.head? ≠ some 'r')
    (closers : List Char) : Leads ⟨0, .code, closers⟩ (a ++ r) ⟨0, .code, closers⟩ r := by
  have hraw : ∀ {a : List Char}, (∀ c ∈ a, inert c = true) → rawGuards? (a ++ r) = none := by
    intro a ha
    induction a with
    | nil => exact hr
    | cons c a ih =>
      exact rawGuards?_cons (ne_of_inert (ha c List.mem_cons_self) (by decide)) (ih fun d hd =>
        ha d (List.mem_cons_of_mem c hd))
  induction a with
  | nil => exact leads_refl _ _
  | cons c a ih =>
    have ha' : ∀ d ∈ a, inert d = true := fun d hd => ha d (List.mem_cons_of_mem c hd)
    refine (leads_next fun p => ?_).trans (ih ha')
    refine next?_inert (ha c List.mem_cons_self) closers p (fun _ => hraw ha') fun _ r' hr' => ?_
    cases a with
    | nil =>
      obtain rfl : r = 'r' :: r' := hr'
      exact absurd rfl hhead
    | cons d a =>
      obtain ⟨rfl, rfl⟩ := List.cons.inj hr'
      exact hraw fun e he => ha' e (List.mem_cons_of_mem _ he)

/-! Words and numbers -/

def Passes (cs r : List Char) : Prop := ∃ a, cs = a ++ r ∧ ∀ c ∈ a, inert c = true

section
variable {c : Char} {cs r r' w : List Char}

theorem passes_refl (cs : List Char) : Passes cs cs := ⟨[], rfl, fun _ h => by cases h⟩

theorem Passes.cons (hc : inert c = true) (h : Passes cs r) : Passes (c :: cs) r := by
  obtain ⟨a, rfl, ha⟩ := h
  exact ⟨c :: a, rfl, List.forall_mem_cons.mpr ⟨hc, ha⟩⟩

theorem Passes.trans (h : Passes cs r) (h' : Passes r r') : Passes cs r' := by
  obtain ⟨a, rfl, ha⟩ := h
  obtain ⟨b, rfl, hb⟩ := h'
  refine ⟨a ++ b, by simp, fun c hc => ?_⟩
  rcases List.mem_append.mp hc with hc | hc
  · exact ha c hc
  · exact hb c hc

theorem passes_dropWhile {p : Char → Bool} (hp : ∀ c, p c = true → inert c = true)
    (cs : List Char) :
    Passes cs (cs.dropWhile p) :=
  ⟨cs.takeWhile p, List.takeWhile_append_dropWhile.symm, fun c hc =>
    hp c (List.all_eq_true.mp List.all_takeWhile c hc)⟩

theorem inert_of_continuesWord (h : continuesWord c = true) : inert c = true :=
  inert_of (by decide) h

theorem passes_plainWord (h : plainWord cs = some (w, r)) :
    cs = w ++ r ∧ w ≠ [] ∧ (∀ c ∈ w, inert c = true) ∧ r.head?.any continuesWord = false := by
  cases cs with
  | nil => cases h
  | cons c cs =>
    rw [plainWord] at h
    split at h
    next hc =>
      cases h
      refine ⟨by simp, List.cons_ne_nil _ _, List.forall_mem_cons.mpr ⟨inert_of (by decide) hc,
        fun d hd => ?_⟩, ?_⟩
      · exact inert_of_continuesWord (List.all_eq_true.mp List.all_takeWhile d hd)
      · exact Text.any_head?_dropWhile continuesWord cs
    · cases h

theorem passes_word (h : word cs = some (w, r)) :
    cs = w ++ r ∧ w ≠ [] ∧ (∀ c ∈ w, inert c = true) ∧ r.head?.any continuesWord = false := by
  unfold word at h
  split at h
  · split at h
    next w' r' hw =>
      split at h
      · cases h
      · cases h
        obtain ⟨rfl, -, hinert, hend⟩ := passes_plainWord hw
        refine ⟨rfl, List.cons_ne_nil _ _, ?_, hend⟩
        exact List.forall_mem_cons.mpr ⟨by decide, List.forall_mem_cons.mpr ⟨by decide, hinert⟩⟩
    · cases h
  · exact passes_plainWord h

theorem passes_suffix (cs : List Char) : Passes cs (suffix cs) := by
  unfold suffix
  split
  next w r hw =>
    obtain ⟨hcs, -, hinert, -⟩ := passes_plainWord hw
    exact ⟨w, hcs, hinert⟩
  · exact passes_refl cs

theorem passes_numberEnd (h : numberEnd cs = some r) :
    Passes cs r ∧ r.head?.any continuesWord = false := by
  unfold numberEnd at h
  dsimp only at h
  split at h
  · cases h
  next hend =>
    cases h
    exact ⟨passes_suffix cs, by simpa using hend⟩

theorem passes_digitsIn {base : Nat} {empty : Bool} (h : digitsIn base empty cs = some r) :
    Passes cs r := by
  have hdigit : ∀ c : Char, c.isDigit = true → inert c = true := fun c => inert_of (by decide)
  have hhex : ∀ c : Char, isHex c = true → inert c = true := fun c => inert_of (by decide)
  induction cs generalizing empty with
  | nil =>
    unfold digitsIn at h
    split at h
    · cases h
    · cases h
      exact passes_refl []
  | cons c cs ih =>
    unfold digitsIn at h
    split at h
    next hc =>
      split at h
      · exact (ih h).cons (hdigit c hc)
      · cases h
    split at h
    next hc =>
      rw [Bool.and_eq_true] at hc
      exact (ih h).cons (hhex c hc.1)
    split at h
    next hc =>
      obtain rfl := eq_of_beq hc
      split at h
      · cases h
      · exact (ih h).cons (by decide)
    split at h
    · cases h
    · cases h
      exact passes_refl _

theorem passes_integer (h : integer cs = some r) : Passes cs r := by
  unfold integer at h
  split at h
  · exact ((passes_digitsIn h).cons (by decide)).cons (by decide)
  · exact ((passes_digitsIn h).cons (by decide)).cons (by decide)
  · exact ((passes_digitsIn h).cons (by decide)).cons (by decide)
  · exact passes_digitsIn h

theorem passes_floatDigits (h : floatDigits cs = some r) : Passes cs r := by
  have hnumeral : ∀ c : Char, (c.isDigit || c == '_') = true → inert c = true :=
    fun c => inert_of (p := fun c => c.isDigit || c == '_') (by decide)
  have hline : ∀ c : Char, (c == '_') = true → inert c = true :=
    fun c => inert_of (p := (· == '_')) (by decide)
  cases cs with
  | nil => cases h
  | cons d cs =>
    unfold floatDigits at h
    dsimp only at h
    split at h
    · cases h
    split at h
    · cases h
    next pointed after hpoint =>
      have hafter : Passes (d :: cs) after := by
        refine (passes_dropWhile hnumeral _).trans ?_
        split at hpoint
        next r' hdot =>
          split at hpoint
          · cases hpoint
          · cases hpoint
            rw [hdot]
            exact (passes_dropWhile hnumeral r').cons (by decide)
        · cases hpoint
          exact passes_refl _
      have hplain : ∀ {pointed : Bool}, (if pointed = true then some after else none) = some r →
          Passes (d :: cs) r := by
        intro pointed h
        split at h
        · cases h
          exact hafter
        · cases h
      split at h
      next e r' =>
        split at h
        next he =>
          split at h
          · cases h
          next digits hdigits =>
            have hmark : Passes (e :: r') digits := by
              refine Passes.cons ?_ ((passes_dropWhile hline r').trans ?_)
              · rcases Bool.or_eq_true_iff.mp he with he | he
                · obtain rfl := eq_of_beq he
                  decide
                · obtain rfl := eq_of_beq he
                  decide
              · split at hdigits
                next r'' hsign =>
                  cases hdigits
                  rw [hsign]
                  exact (passes_refl _).cons (by decide)
                next r'' hsign =>
                  cases hdigits
                  rw [hsign]
                  exact (passes_refl _).cons (by decide)
                · cases hdigits
                  exact passes_refl _
            split at h
            · cases h
              exact (hafter.trans hmark).trans (passes_dropWhile hnumeral digits)
            · exact hplain h
        · exact hplain h
      · exact hplain h

theorem passes_number (h : number cs = some r) :
    Passes cs r ∧ r.head?.any continuesWord = false := by
  have hend : ∀ {read : Rest}, (∀ r, read = some r → Passes cs r) → read.bind numberEnd = some r →
      Passes cs r ∧ r.head?.any continuesWord = false := by
    intro read hread h
    obtain ⟨r', hr', hr⟩ := Option.bind_eq_some_iff.mp h
    obtain ⟨hpasses, hlast⟩ := passes_numberEnd hr
    exact ⟨(hread r' hr').trans hpasses, hlast⟩
  unfold number at h
  rcases (Option.orElse_eq_some _ _ _).mp h with h | ⟨-, h⟩
  · exact hend (fun _ => passes_floatDigits) h
  · exact hend (fun _ => passes_integer) h

end

/-! Quotes -/

theorem quoted_leaf {t : Token} {cs r : List Char} (h : leaf ('"' :: cs) = some (t, r)) :
    t.quoted = true := by
  unfold leaf at h
  split at h
  next r' hliteral =>
    obtain ⟨rfl, -⟩ := Prod.mk.inj (Option.some.inj h)
    rw [Token.quoted, String.toList_ofList]
    cases ('"' :: cs).length - r'.length with
    | zero => rfl
    | succ n => rfl
  next hnumber =>
    have hmark : startsMark ('"' :: cs) = false := rfl
    have hword : word ('"' :: cs) = none := rfl
    have hliteral : startsLiteral ('"' :: cs) = false := rfl
    simp [hmark, hword, hliteral] at h

theorem tokensFrom_cons (n : Nat) (pending : List Delimiter) (c : Char) (cs : List Char) :
    tokensFrom (n + 1) pending (c :: cs) =
      if isSpace c then tokensFrom n pending cs
      else match comment (c :: cs) with
        | some r => tokensFrom n pending r
        | none =>
          match docComment (c :: cs) with
          | some (text, inner, r) =>
            if hasLoneReturn text then none else
              (tokensFrom n pending r).map (docTokens text inner ++ ·)
          | none =>
            match Delimiter.ofOpener? c, Delimiter.ofCloser? c with
            | some d, _ => (tokensFrom n (d :: pending) cs).map (.opening d :: ·)
            | none, some d =>
              match pending with
              | e :: outer => if e == d then (tokensFrom n outer cs).map (.closing d :: ·) else none
              | [] => none
            | none, none =>
              match leaf (c :: cs) with
              | some (t, r) => (tokensFrom n pending r).map (t :: ·)
              | none => none := by
  cases pending <;> rfl

theorem tokensFrom_leaf {n : Nat} {pending : List Delimiter} {c : Char} {cs : List Char}
    (hspace : isSpace c = false)
    (hcomment : comment (c :: cs) = none) (hdoc : docComment (c :: cs) = none)
      (hopen : Delimiter.ofOpener? c = none)
    (hclose : Delimiter.ofCloser? c = none) :
    tokensFrom (n + 1) pending (c :: cs) =
      match leaf (c :: cs) with
      | some (t, r) => (tokensFrom n pending r).map (t :: ·)
      | none => none := by
  rw [tokensFrom_cons, hspace, hcomment, hdoc, hopen, hclose]
  rfl

/-- What is read first of a text that is made of tokens: the tokens it gives, the delimiters that
are open behind it and the text that is left. -/
inductive Begins : List Delimiter → List Char → List Token → List Delimiter → List Char → Prop
  | space {pending c cs} (hc : isSpace c = true) : Begins pending (c :: cs) [] pending cs
  | comment {pending c cs r} (hc : isSpace c = false) (h : comment (c :: cs) = some r) :
      Begins pending (c :: cs) [] pending r
  | doc {pending c cs text inner r} (hc : isSpace c = false)
      (h : docComment (c :: cs) = some (text, inner, r)) :
      Begins pending (c :: cs) (docTokens text inner) pending r
  | opening {pending c cs d} (hc : isSpace c = false) (h : Delimiter.ofOpener? c = some d) :
      Begins pending (c :: cs) [.opening d] (d :: pending) cs
  | closing {pending c cs d} (hc : isSpace c = false) (h : Delimiter.ofCloser? c = some d) :
      Begins (d :: pending) (c :: cs) [.closing d] pending cs
  | leaf {pending c cs t r} (hc : isSpace c = false) (hcomment : Lexeme.comment (c :: cs) = none)
      (hdoc : docComment (c :: cs) = none)
      (h : leaf (c :: cs) = some (t, r)) : Begins pending (c :: cs) [t] pending r

theorem exists_begins {n : Nat} {pending : List Delimiter} {c : Char} {cs : List Char}
    {ts : List Token} (h : tokensFrom (n + 1) pending (c :: cs) = some ts) :
    ∃ read pending' r left, Begins pending (c :: cs) read pending' r ∧ tokensFrom n pending' r =
      some left ∧ ts = read ++ left := by
  rw [tokensFrom_cons] at h
  split at h
  next hspace => exact ⟨[], _, _, ts, .space hspace, h, rfl⟩
  next hspace =>
    have hc : isSpace c = false := by simpa using hspace
    split at h
    next r hcomment => exact ⟨[], _, _, ts, .comment hc hcomment, h, rfl⟩
    next hcomment =>
      split at h
      next text inner r hdoc =>
        split at h
        · cases h
        · obtain ⟨left, hleft, rfl⟩ := Option.map_eq_some_iff.mp h
          exact ⟨_, _, _, left, .doc hc hdoc, hleft, rfl⟩
      next hdoc =>
        split at h
        next d hopen =>
          obtain ⟨left, hleft, rfl⟩ := Option.map_eq_some_iff.mp h
          exact ⟨_, _, _, left, .opening hc hopen, hleft, rfl⟩
        next d hopen hclose =>
          split at h
          next e outer =>
            split at h
            next hed =>
              obtain rfl := eq_of_beq hed
              obtain ⟨left, hleft, rfl⟩ := Option.map_eq_some_iff.mp h
              exact ⟨_, _, _, left, .closing hc hclose, hleft, rfl⟩
            · cases h
          · cases h
        next hopen hclose =>
          split at h
          next t r hleaf =>
            obtain ⟨left, hleft, rfl⟩ := Option.map_eq_some_iff.mp h
            exact ⟨_, _, _, left, .leaf hc hcomment hdoc hleaf, hleft, rfl⟩
          · cases h

theorem quoted_of_guards {n k : Nat} {pending : List Delimiter} {cs : List Char} {ts : List Token}
    (h : tokensFrom n pending (List.replicate k '#' ++ '"' :: cs) = some ts) :
    ∃ t ∈ ts, t.quoted = true := by
  induction k generalizing n ts with
  | zero =>
    cases n with
    | zero => cases pending <;> cases h
    | succ n =>
      rw [List.replicate_zero, List.nil_append, tokensFrom_leaf (by decide) rfl rfl rfl rfl] at h
      split at h
      next t r hleaf =>
        obtain ⟨ts', -, rfl⟩ := Option.map_eq_some_iff.mp h
        exact ⟨t, List.mem_cons_self, quoted_leaf hleaf⟩
      · cases h
  | succ k ih =>
    cases n with
    | zero => cases pending <;> cases h
    | succ n =>
      rw [List.replicate_succ, List.cons_append, tokensFrom_leaf (by decide) rfl rfl rfl rfl] at h
      obtain ⟨ts', hts', rfl⟩ := Option.map_eq_some_iff.mp h
      obtain ⟨t, ht, hquoted⟩ := ih hts'
      exact ⟨t, List.mem_cons_of_mem _ ht, hquoted⟩

/-- No token is a literal in quotes. -/
def Unquoted (ts : List Token) : Prop := ∀ t ∈ ts, t.quoted = false

instance (ts : List Token) : Decidable (Unquoted ts) :=
  inferInstanceAs (Decidable (∀ t ∈ ts, t.quoted = false))

theorem rawGuards?_of_tokens {n : Nat} {pending : List Delimiter} {cs : List Char} {ts : List Token}
    (h : tokensFrom n pending cs = some ts) (hts : Unquoted ts) : rawGuards? cs = none := by
  cases hguards : rawGuards? cs with
  | none => rfl
  | some k =>
    have hcs : ∃ r, cs = List.replicate k '#' ++ '"' :: r := by
      simp only [rawGuards?] at hguards
      split at hguards
      next hquote =>
        obtain rfl := Option.some.inj hguards
        have hhashes : cs.takeWhile (· == '#') =
            List.replicate (cs.takeWhile (· == '#')).length '#' :=
          List.eq_replicate_of_mem fun c hc =>
            eq_of_beq (List.all_eq_true.mp List.all_takeWhile c hc)
        rw [Text.drop_length_takeWhile] at hquote
        cases hdrop : cs.dropWhile (· == '#') with
        | nil =>
          rw [hdrop] at hquote
          cases hquote
        | cons c r =>
          rw [hdrop] at hquote
          obtain rfl : c = '"' := by simpa using hquote
          refine ⟨r, ?_⟩
          rw [← hhashes, ← hdrop, List.takeWhile_append_dropWhile]
      · cases hguards
    obtain ⟨r, rfl⟩ := hcs
    obtain ⟨t, ht, hquoted⟩ := quoted_of_guards h
    rw [hts t ht] at hquoted
    cases hquoted

/-! Comments -/

section
variable {closers : List Char}

theorem leads_two {mode mode' : Mode} {c d : Char} {cs : List Char}
    (h : ∀ p, State.next? ⟨0, mode, closers⟩ p c (d :: cs) = some ⟨1, mode', closers⟩) :
    Leads ⟨0, mode, closers⟩ (c :: d :: cs) ⟨0, mode', closers⟩ cs :=
  (leads_next h).trans (leads_next fun _ => rfl)

theorem leads_lineText (cs : List Char) :
    Leads ⟨0, .lineComment, closers⟩ cs ⟨0, .lineComment, closers⟩ (lineText cs).2 := by
  have hstep : ∀ {c : Char} {cs : List Char}, c ≠ '\n' →
      Leads ⟨0, .lineComment, closers⟩ (c :: cs) ⟨0, .lineComment, closers⟩ cs := fun hc =>
    leads_next fun _ => by simp [State.next?, move, hc]
  fun_induction lineText cs with
  | case1 => exact leads_refl _ _
  | case2 cs => exact leads_refl _ _
  | case3 cs => exact hstep (by decide)
  | case4 c cs hline _ a b hab ih =>
    rw [hab] at ih
    exact (hstep hline).trans ih

theorem leads_blockText {d : Nat} {cs a r : List Char} (h : blockText d cs = some (a, r)) :
    Leads ⟨0, .blockComment (d + 1), closers⟩ cs ⟨0, .code, closers⟩ r := by
  fun_induction blockText d cs generalizing a with
  | case1 => cases h
  | case2 d cs ih =>
    obtain ⟨⟨b, r'⟩, hb, heq⟩ := Option.map_eq_some_iff.mp h
    obtain ⟨-, rfl⟩ := Prod.mk.inj heq
    exact (leads_two fun _ => rfl).trans (ih hb)
  | case3 d cs hd =>
    obtain ⟨-, rfl⟩ := Prod.mk.inj (Option.some.inj h)
    obtain rfl := eq_of_beq hd
    exact leads_two fun _ => rfl
  | case4 d cs hd ih =>
    obtain ⟨⟨b, r'⟩, hb, heq⟩ := Option.map_eq_some_iff.mp h
    obtain ⟨-, rfl⟩ := Prod.mk.inj heq
    cases d with
    | zero => exact absurd rfl hd
    | succ d => exact (leads_two fun _ => rfl).trans (ih hb)
  | case5 d c cs hopen hclose ih =>
    obtain ⟨⟨b, r'⟩, hb, heq⟩ := Option.map_eq_some_iff.mp h
    obtain ⟨-, rfl⟩ := Prod.mk.inj heq
    refine (leads_next fun _ => ?_).trans (ih hb)
    have hends : (c == '*' && cs.head? == some '/') = false := by
      cases cs with
      | nil => simp
      | cons e cs =>
        have hne := hclose cs
        simpa using fun hc he => hne hc (by rw [he])
    have hbegins : (c == '/' && cs.head? == some '*') = false := by
      cases cs with
      | nil => simp
      | cons e cs =>
        have hne := hopen cs
        simpa using fun hc he => hne hc (by rw [he])
    simp [State.next?, move, hends, hbegins]

theorem leads_comment {cs r : List Char} (h : comment cs = some r) :
    ∃ mode, (mode = .code ∨ mode = .lineComment ∧ ∀ c ∈ r.head?, c = '\n') ∧
      Leads ⟨0, .code, closers⟩ cs ⟨0, mode, closers⟩ r := by
  have hend : ∀ cs : List Char, ∀ c ∈ (lineText cs).2.head?, c = '\n' := by
    intro cs
    fun_induction lineText cs with
    | case1 => exact fun _ h => by cases h
    | case2 => exact fun _ h => (Option.some.inj h).symm
    | case3 => exact fun _ h => (Option.some.inj h).symm
    | case4 c cs _ _ a b hab ih => rwa [hab] at ih
  unfold comment at h
  split at h
  next cs =>
    split at h
    · cases h
    · cases h
      refine ⟨.lineComment, .inr ⟨rfl, hend cs⟩, (leads_two fun _ => ?_).trans (leads_lineText cs)⟩
      simp [State.next?, move, codeMove, isStop, closerOf?, isCloser]
  next cs =>
    split at h
    · cases h
    · obtain ⟨⟨a, r'⟩, ha, rfl⟩ := Option.map_eq_some_iff.mp h
      refine ⟨.code, .inl rfl, (leads_two fun _ => ?_).trans (leads_blockText ha)⟩
      simp [State.next?, move, codeMove, isStop, closerOf?, isCloser]
  · cases h

end

/-! Tokens -/

theorem word_leads {w r closers : List Char} (hw : ∀ c ∈ w, inert c = true)
    (hr : r.head?.any continuesWord = false)
    (hraw : rawGuards? r = none) : Leads ⟨0, .code, closers⟩ (w ++ r) ⟨0, .code, closers⟩ r := by
  refine leads_inert hw hraw (fun hhead => ?_) closers
  rw [hhead] at hr
  cases hr

theorem literal_digit {c : Char} (hc : c.isDigit = true) (cs : List Char) :
    literal (c :: cs) = number (c :: cs) := by
  unfold literal
  split
  all_goals first | rfl | skip
  all_goals next heq => cases heq; cases hc

theorem leads_literal {cs r closers : List Char} (h : literal cs = some r)
    (hdigit : (Token.literal (.ofList (cs.take (cs.length - r.length)))).quoted = false)
    (hraw : rawGuards? r = none) :
    Leads ⟨0, .code, closers⟩ cs ⟨0, .code, closers⟩ r := by
  rw [Token.quoted, String.toList_ofList, Bool.not_eq_false'] at hdigit
  cases cs with
  | nil => simp at hdigit
  | cons c cs =>
    have hc : c.isDigit = true := by
      cases hlength : (c :: cs).length - r.length with
      | zero =>
        rw [hlength] at hdigit
        cases hdigit
      | succ n =>
        rw [hlength] at hdigit
        exact hdigit
    rw [literal_digit hc] at h
    obtain ⟨⟨a, hcs, ha⟩, hend⟩ := passes_number h
    rw [hcs]
    exact word_leads ha hend hraw

theorem leads_lifetime {w cs r closers : List Char} (hword : word cs = some (w, r))
    (hr : r.head? ≠ some '\'') (hraw : rawGuards? r = none) :
    Leads ⟨0, .code, closers⟩ ('\'' :: cs) ⟨0, .code, closers⟩ r := by
  obtain ⟨rfl, hne, hinert, hend⟩ := passes_word hword
  have hstarts : startsChar (w ++ r) = false := by
    rw [startsChar_eq]
    match w, hne with
    | [c], _ =>
      have hc := ne_of_inert (hinert c List.mem_cons_self) (d := '\\') (by decide)
      simpa [hc] using hr
    | c :: d :: w, _ =>
      have hc := ne_of_inert (hinert c List.mem_cons_self) (d := '\\') (by decide)
      have hd :=
        ne_of_inert (hinert d (List.mem_cons_of_mem c List.mem_cons_self)) (d := '\'') (by decide)
      simp [hc, hd]
  refine (leads_next fun _ => ?_).trans (word_leads hinert hend hraw)
  simp [State.next?, move, codeMove, isStop, closerOf?, isCloser, hstarts]

theorem leads_mark {c : Char} {cs closers : List Char} (hc : isMark c = true) (hquote : c ≠ '\'')
    (hcomment : startsComment (c :: cs) = false) :
    Leads ⟨0, .code, closers⟩ (c :: cs) ⟨0, .code, closers⟩ cs := by
  by_cases hslash : c = '/'
  · subst hslash
    refine leads_next fun p => ?_
    have hmove : codeMove (.closer ')') closers p '/' cs = .go 0 .code closers := by
      have hstop : ('/' == ')') = false := by decide
      have hopen : closerOf? '/' = none := rfl
      have hclose : isCloser '/' = false := rfl
      simp only [codeMove, isStop, hstop, hopen, hclose, Bool.and_false, Bool.false_eq_true,
        if_false]
      split
      · simp [startsComment] at hcomment
      · simp [startsComment] at hcomment
      · rfl
    simp only [State.next?, move, hmove]
  · have hinert : inert c = true :=
      inert_of (p := fun c => isMark c && c != '\'' && c != '/') (by decide)
        (by simp [hc, hquote, hslash])
    have hr : c ≠ 'r' := by
      rintro rfl
      cases hc
    have hb : c ≠ 'b' := by
      rintro rfl
      cases hc
    exact leads_next fun p => next?_inert hinert closers p (fun h => absurd h hr) fun h =>
      absurd h hb

theorem leads_leaf {t : Token} {cs r : List Char} {closers : List Char} (h : leaf cs = some (t, r))
    (ht : t.quoted = false) (hcomment : startsComment cs = false) (hraw : rawGuards? r = none) :
    Leads ⟨0, .code, closers⟩ cs ⟨0, .code, closers⟩ r := by
  unfold leaf at h
  split at h
  next r' hliteral =>
    obtain ⟨rfl, rfl⟩ := Prod.mk.inj (Option.some.inj h)
    exact leads_literal hliteral ht hraw
  · split at h
    next cs =>
      split at h
      next w after hword =>
        split at h
        · cases h
        next hafter =>
          obtain ⟨-, rfl⟩ := Prod.mk.inj (Option.some.inj h)
          refine leads_lifetime hword (fun hhead => hafter ?_) hraw
          simp [hhead]
      · cases h
    next c cs hquote _ =>
      split at h
      next hmark =>
        obtain ⟨-, rfl⟩ := Prod.mk.inj (Option.some.inj h)
        have hc : isMark c = true := by simpa [startsMark, hcomment] using hmark
        exact leads_mark hc hquote hcomment
      split at h
      · cases h
      · obtain ⟨⟨w, r'⟩, hword, heq⟩ := Option.map_eq_some_iff.mp h
        obtain ⟨-, rfl⟩ := Prod.mk.inj heq
        obtain ⟨hcs, -, hinert, hend⟩ := passes_word hword
        rw [hcs]
        exact word_leads hinert hend hraw
    · cases h

/-! Texts -/

def Delimiter.mark : Delimiter → Char
  | .paren => ')'
  | .bracket => ']'
  | .brace => '\x7d'

section
variable {c : Char} {d : Delimiter}

theorem leads_opener (h : Delimiter.ofOpener? c = some d) (cs closers : List Char) :
    Leads ⟨0, .code, closers⟩ (c :: cs) ⟨0, .code, d.mark :: closers⟩ cs := by
  unfold Delimiter.ofOpener? at h
  split at h
  all_goals cases h
  all_goals
    exact leads_next fun _ => by
      simp [State.next?, move, codeMove, isStop, closerOf?, Delimiter.mark]

theorem leads_closer (h : Delimiter.ofCloser? c = some d) (cs closers : List Char) :
    Leads ⟨0, .code, d.mark :: closers⟩ (c :: cs) ⟨0, .code, closers⟩ cs := by
  unfold Delimiter.ofCloser? at h
  split at h
  all_goals cases h
  all_goals
    exact leads_next fun _ => by
      simp [State.next?, move, codeMove, closerOf?, isCloser, Delimiter.mark]

end

theorem leads_space {c : Char} (hc : isSpace c = true) (cs closers : List Char) :
    Leads ⟨0, .code, closers⟩ (c :: cs) ⟨0, .code, closers⟩ cs := by
  have hinert : inert c = true := inert_of (by decide) hc
  have hr : c ≠ 'r' := by
    rintro rfl
    cases hc
  have hb : c ≠ 'b' := by
    rintro rfl
    cases hc
  exact leads_next fun p => next?_inert hinert closers p (fun h => absurd h hr) fun h => absurd h hb

theorem startsComment_of_leaf {cs r : List Char} {t : Token} (hcomment : comment cs = none)
    (hdoc : docComment cs = none) (hleaf : leaf cs = some (t, r)) : startsComment cs = false := by
  cases h : startsComment cs with
  | false => rfl
  | true =>
    simp only [startsComment, Bool.or_eq_true, List.isPrefixOf_iff_prefix] at h
    rcases h with ⟨r', rfl⟩ | ⟨r', rfl⟩
    · exact absurd hdoc (by simpa [comment] using hcomment)
    · have hliteral : literal ('/' :: '*' :: r') = none := rfl
      have hmark : startsMark ('/' :: '*' :: r') = false := rfl
      have hstarts : startsLiteral ('/' :: '*' :: r') = false := rfl
      have hword : word ('/' :: '*' :: r') = none := rfl
      simp [leaf, hliteral, hmark, hstarts, hword] at hleaf

theorem quoted_docTokens (text : List Char) (inner : Bool) :
    ∃ t ∈ docTokens text inner, t.quoted = true := by
  refine ⟨.literal (Text.quoted (.ofList text)), by simp [docTokens], ?_⟩
  rw [Token.quoted, Text.quoted, String.toList_ofList]
  rfl

theorem leads_end {n : Nat} {pending : List Delimiter} {ts : List Token} {mode : Mode}
    (h : tokensFrom n pending [] = some ts) (hmode : mode = .code ∨ mode = .lineComment) :
    ∃ mode', (mode' = .code ∨ mode' = .lineComment) ∧
      Leads ⟨0, mode, pending.map Delimiter.mark⟩ [] ⟨0, mode', []⟩ [] := by
  cases pending with
  | nil => exact ⟨mode, hmode, leads_refl _ _⟩
  | cons d pending => cases n <;> cases h

theorem leads_tokens {n : Nat} {pending : List Delimiter} {cs : List Char} {ts : List Token}
    (h : tokensFrom n pending cs = some ts) (hts : Unquoted ts) {mode : Mode}
    (hmode : mode = .code ∨ mode = .lineComment ∧ ∀ c ∈ cs.head?, c = '\n') :
    ∃ mode', (mode' = .code ∨ mode' = .lineComment) ∧
      Leads ⟨0, mode, pending.map Delimiter.mark⟩ cs ⟨0, mode', []⟩ [] := by
  induction n generalizing pending cs ts mode with
  | zero =>
    cases cs with
    | nil => exact leads_end h (hmode.imp_right And.left)
    | cons c cs => cases pending <;> cases h
  | succ n ih =>
    cases cs with
    | nil => exact leads_end h (hmode.imp_right And.left)
    | cons c cs =>
      obtain ⟨read, pending', r, left, hbegins, hleft, rfl⟩ := exists_begins h
      have hrest : Unquoted left := fun t ht => hts t (List.mem_append_right _ ht)
      -- behind a comment to the line end stands white space
      have hcode : isSpace c = false → mode = .code := by
        intro hspace
        rcases hmode with hcode | ⟨-, hline⟩
        · exact hcode
        · obtain rfl := hline c rfl
          cases hspace
      have hfrom : Leads ⟨0, mode, pending.map Delimiter.mark⟩ (c :: cs)
        ⟨0, .code, pending'.map Delimiter.mark⟩ r →
          ∃ mode', (mode' = .code ∨ mode' = .lineComment) ∧
            Leads ⟨0, mode, pending.map Delimiter.mark⟩ (c :: cs) ⟨0, mode', []⟩ [] := by
        intro hleads
        obtain ⟨mode', hmode', hend⟩ := ih hleft hrest (.inl rfl)
        exact ⟨mode', hmode', hleads.trans hend⟩
      cases hbegins with
      | space hspace =>
        refine hfrom ?_
        rcases hmode with rfl | ⟨rfl, hline⟩
        · exact leads_space hspace _ _
        · obtain rfl := hline c rfl
          exact leads_next fun _ => rfl
      | comment hspace hcomment =>
        obtain rfl := hcode hspace
        obtain ⟨mode, hmode, hleads⟩ := @leads_comment (pending.map Delimiter.mark) _ _ hcomment
        obtain ⟨mode', hmode', hend⟩ := ih hleft hrest hmode
        exact ⟨mode', hmode', hleads.trans hend⟩
      | @doc _ _ _ text inner =>
        obtain ⟨t, ht, hquoted⟩ := quoted_docTokens text inner
        rw [hts t (List.mem_append_left _ ht)] at hquoted
        cases hquoted
      | opening hspace hopen =>
        obtain rfl := hcode hspace
        exact hfrom (leads_opener hopen _ _)
      | closing hspace hclose =>
        obtain rfl := hcode hspace
        exact hfrom (leads_closer hclose _ _)
      | leaf hspace hcomment hdoc hleaf =>
        obtain rfl := hcode hspace
        exact hfrom (leads_leaf hleaf (hts _ List.mem_cons_self)
          (startsComment_of_leaf hcomment hdoc hleaf)
          (rawGuards?_of_tokens hleft hrest))

theorem pasted_of_tokens {cs : List Char} {ts : List Token} (h : tokens? cs = some ts)
    (hts : Unquoted ts) : Pasted cs := by
  have hmark : Leads ⟨0, .code, []⟩ cs ⟨0, .code, []⟩
      (if cs.head? == some '\ufeff' then cs.tail else cs) := by
    split
    next hhead =>
      obtain ⟨r, rfl⟩ := List.head?_eq_some_iff.mp (eq_of_beq hhead)
      exact leads_next fun p =>
        next?_inert (by decide) [] p (fun h => absurd h (by decide)) fun h => absurd h (by decide)
    · exact leads_refl _ _
  obtain ⟨mode, hmode, hrest⟩ := @leads_tokens _ [] _ _ h hts _ (.inl rfl)
  obtain ⟨q, hrun⟩ := hmark.trans hrest none
  rcases hmode with rfl | rfl
  · exact .inl hrun
  · exact .inr hrun

end Templating.Code
