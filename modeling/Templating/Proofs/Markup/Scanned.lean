import Templating.Proofs.Code.Balanced
import Templating.Proofs.Markup.Derivation

/-! Whatever code a template is read to hold was scanned: it is balanced where it stood, and once
trimmed it can only come to end inside a comment. -/
namespace Templating.Markup
open Code (Balanced Pasted Wordy Takes calm balanced_of_scan)
open Text (Cursor isBlank leadingName)

/-! Implicit expressions -/

theorem wordy_leadingName (cs : List Char) : Wordy (leadingName cs) := by
  intro c hc
  cases cs with
  | nil => cases hc
  | cons x cs =>
    rw [leadingName] at hc
    split at hc
    next hx =>
      rcases List.mem_cons.mp hc with rfl | hc
      · exact Text.continuesName_of_startsName hx
      · exact List.all_eq_true.mp List.all_takeWhile c hc
    · cases hc

namespace Implicit

/-- What may follow a name. -/
structure Suffix (x : List Char) : Prop where
  balanced : Balanced x
  first : ∀ c ∈ x.head?, c ∈ [':', '.', '(', '[', '!']

theorem suffix_nil : Suffix [] := ⟨by decide, fun _ h => by cases h⟩

section
variable {x : List Char} (h : Suffix x)
include h

theorem Suffix.first_calm : ∀ c ∈ x.head?, calm c = true := by
  intro c hc
  have hall : ∀ c ∈ [':', '.', '(', '[', '!'], calm c = true := by decide
  exact hall c (h.first c hc)

theorem Suffix.apart {a : List Char} (ha : a.getLast? ≠ some '\'') : Code.Apart a x := by
  cases x with
  | nil => exact .nil a
  | cons c x => exact .of_single (h.first_calm c rfl) ha

end

theorem suffix_named {lead w x : List Char} (hl : lead = [':', ':'] ∨ lead = ['.']) (hw : Wordy w)
    (h : Suffix x) :
    Suffix (lead ++ w ++ x) := by
  have hlead : Balanced (lead ++ w) := by
    rcases hl with rfl | rfl
    · exact Balanced.append (by decide) (.of_calm (a := [':']) (by decide) (by simp)) hw.balanced
    · exact Balanced.append (by decide) (.of_calm (a := []) (by decide) (by simp)) hw.balanced
  have hlast : (lead ++ w).getLast? ≠ some '\'' := by
    rw [List.getLast?_append]
    cases hw' : w.getLast? with
    | none => rcases hl with rfl | rfl <;> decide
    | some c =>
      have hc := hw.getLast?_ne
      rwa [hw'] at hc
  refine ⟨hlead.append (h.apart hlast) h.balanced, fun c hc => ?_⟩
  rcases hl with rfl | rfl <;> (obtain rfl := Option.some.inj hc; decide)

section
variable {lead code x : List Char} {closer : Char}
  (hopen : Takes (.code, []) lead (.code, [closer]))
  (hclose : Takes (.code, [closer]) [closer] (.code, [])) (hcalm : calm closer = true)
    (hlead : ∀ b, Code.Apart lead b)
include hopen hclose hcalm hlead

theorem balanced_enclosed (hcode : Balanced code) (h : Suffix x) :
    Balanced (lead ++ (code ++ ([closer] ++ x))) := by
  have hquote : closer ≠ '\'' := by
    rintro rfl
    cases hcalm
  have hbehind : Code.Apart code ([closer] ++ x) := by
    cases x with
    | nil => exact .of_last hcalm
    | cons d x =>
      refine .of_pair hcalm fun hd => ?_
      have hfirst := h.first d rfl
      rw [hd] at hfirst
      exact absurd hfirst (by decide)
  have htail := hclose.append (h.apart (a := [closer]) (by simpa using hquote)) h.balanced
  exact hopen.append (hlead _) ((hcode.takes [closer]).append hbehind htail)

end

theorem of_after {lead : List Char} {r : Reading} {code : List Char} (h : after lead r = .ok code) :
    ∃ rest, r = .ok rest ∧ code = lead ++ rest := by
  cases r with
  | ok rest => exact ⟨rest, rfl, (Except.ok.inj h).symm⟩
  | error e => cases h

theorem suffix_of_suffixes {n : Nat} {cs code : List Char} (h : suffixes n cs = .ok code) :
    Suffix code := by
  induction n generalizing cs code with
  | zero =>
    obtain rfl := Except.ok.inj h
    exact suffix_nil
  | succ n ih =>
    have hnamed : ∀ {lead rest w : List Char}, lead = [':', ':'] ∨ lead = ['.'] →
      leadingName rest = w →
        after (lead ++ w) (suffixes n (rest.drop w.length)) = .ok code → Suffix code := by
      rintro lead rest w hl rfl h
      obtain ⟨x, hx, rfl⟩ := of_after h
      exact suffix_named hl (wordy_leadingName rest) (ih hx)
    have henclosed : ∀ {lead rest inner : List Char} {closer : Char},
      Takes (.code, []) lead (.code, [closer]) →
        Takes (.code, [closer]) [closer] (.code, []) → calm closer = true →
          (∀ b, Code.Apart lead b) →
        (∀ c ∈ lead.head?, c ∈ [':', '.', '(', '[', '!']) →
          lead.getLast?.any Text.continuesName = false →
        Code.scan (.closer closer) lead.getLast? rest = .ok inner →
        after (lead ++ inner ++ [closer]) (suffixes n (rest.drop (inner.length + 1))) = .ok code →
          Suffix code := by
      intro lead rest inner closer hopen hclose hcalm hlead hfirst hlast hscan h
      obtain ⟨x, hx, rfl⟩ := of_after h
      have hstop : (Code.Stop.closer closer).Mild := by
        intro c hc
        obtain rfl := Option.some.inj hc
        simp only [calm, Bool.and_eq_true, Bool.not_eq_true'] at hcalm
        exact hcalm.1
      have hinner := (balanced_of_scan hstop hscan fun _ _ _ => hlast).1
      have hall := balanced_enclosed hopen hclose hcalm hlead hinner (ih hx)
      refine ⟨by simpa using hall, fun c hc => ?_⟩
      cases lead with
      | nil => exact absurd hopen (by simp [Takes, Code.State.run])
      | cons d lead => exact hfirst c hc
    unfold suffixes at h
    dsimp only at h
    split at h
    · split at h
      · obtain rfl := Except.ok.inj h
        exact suffix_nil
      · exact hnamed (.inl rfl) rfl h
    · split at h
      · obtain rfl := Except.ok.inj h
        exact suffix_nil
      · exact hnamed (.inr rfl) rfl h
    · split at h
      next inner hscan =>
        exact henclosed (by decide) (by decide) (by decide) (fun b =>
          .of_calm (a := []) (by decide) (by simp)) (by decide)
          (by decide) hscan h
      · cases h
    · split at h
      next inner hscan =>
        exact henclosed (by decide) (by decide) (by decide) (fun b =>
          .of_calm (a := []) (by decide) (by simp)) (by decide)
          (by decide) hscan h
      · cases h
    · split at h
      next inner hscan =>
        exact henclosed (by decide) (by decide) (by decide) (fun b =>
          .of_calm (a := ['!']) (by decide) (by simp)) (by decide)
          (by decide) hscan h
      · cases h
    · obtain rfl := Except.ok.inj h
      exact suffix_nil

theorem balanced_read {cs code : List Char} (h : read cs = .ok code) : Balanced code := by
  obtain ⟨x, hx, rfl⟩ := of_after h
  have hname := wordy_leadingName cs
  have hsuffix := suffix_of_suffixes hx
  exact hname.balanced.append (hsuffix.apart hname.getLast?_ne) hsuffix.balanced

end Implicit

/-! Attributes -/

def Part.Scanned (q : Part) : Prop := ∀ code, q.content = .expression code → Pasted code.toList

namespace Tag

theorem pasted_of_transition {c : Cursor} {next : List Char} {code : String} {n : Nat}
    (h : transition c next = .expression code n) : Pasted code.toList := by
  unfold transition at h
  split at h
  · cases h
  next x r =>
    split at h
    · cases h
    split at h
    · split at h
      next inner hscan =>
        cases h
        rw [String.toList_ofList]
        exact (balanced_of_scan (by decide) hscan fun _ _ _ => by decide).1.trim
      · cases h
    split at h
    · split at h
      next inner hread =>
        cases h
        rw [String.toList_ofList]
        exact .inl (Implicit.balanced_read hread)
      · cases h
    · cases h
  · cases h

def AllScanned (ps : List (Located Part)) : Prop := ∀ p ∈ ps, p.val.Scanned

theorem allScanned_append {ps qs : List (Located Part)} (h : AllScanned ps) (h' : AllScanned qs) :
    AllScanned (ps ++ qs) := by
  intro p hp
  rcases List.mem_append.mp hp with hp | hp
  · exact h p hp
  · exact h' p hp

theorem allScanned_literal (d : Draft) (stop : Nat) : AllScanned (d.literal stop) := by
  intro p hp
  unfold Draft.literal at hp
  split at hp
  · cases hp
  · obtain rfl := List.mem_singleton.mp hp
    exact fun code hcode => by cases hcode

theorem allScanned_expression {d : Draft} (h : AllScanned d.parts) {code : String}
    (hcode : Pasted code.toList)
    (start stop : Nat) : AllScanned (d.expression code start stop).parts := by
  have hone : ∀ (lead : String) (span : Span), AllScanned [⟨⟨lead, .expression code⟩, span⟩] := by
    intro lead span p hp
    obtain rfl := List.mem_singleton.mp hp
    intro code' hcode'
    cases hcode'
    exact hcode
  unfold Draft.expression
  split
  · exact allScanned_append h (hone _ _)
  · exact allScanned_append (allScanned_append h (allScanned_literal d start)) (hone _ _)

theorem Valued.scanned {quote : Char} {d d' : Draft} {c e : Cursor} (h : Valued quote d c d' e)
    (hd : AllScanned d.parts) :
    AllScanned d'.parts := by
  induction h with
  | close => exact hd
  | char _ _ _ _ ih | escape _ _ _ ih | sign _ _ _ _ ih => exact ih hd
  | expression _ _ hcode _ ih =>
    exact ih (allScanned_expression hd (pasted_of_transition hcode) _ _)

end Tag

/-! Trees -/

/-- A name is made of the characters of names, and a type can be read. -/
structure DirectiveToken.Read (t : DirectiveToken) : Prop where
  name : t.kind = .member → Wordy t.text.toList
  type : t.kind = .type → Code.isType t.text.toList = true

def TokensRead (tokens : List (Located DirectiveToken)) : Prop := ∀ t ∈ tokens, t.val.Read

mutual

/-- All code in the node was scanned, and control flow has a branch. -/
def Node.Scanned : Node → Prop
  | .expression code => Pasted code.toList
  | .code code => Balanced code.toList
  | .control branches => branches ≠ [] ∧ ClausesScanned branches
  | .choice scrutinee arms => Pasted scrutinee.toList ∧ ClausesScanned arms
  | .attribute a => Tag.AllScanned a.parts
  | .directive ⟨_, tokens, none, _⟩ => TokensRead tokens
  | .directive ⟨_, tokens, some (.code c), _⟩ => TokensRead tokens ∧ Balanced c.val.toList
  | .directive ⟨_, tokens, some (.markup nodes), _⟩ => TokensRead tokens ∧ NodesScanned nodes
  | _ => True

def NodesScanned : Nodes → Prop
  | [] => True
  | ⟨n, _⟩ :: ns => n.Scanned ∧ NodesScanned ns

def ClausesScanned : List (Clause (Located Node)) → Prop
  | [] => True
  | ⟨head, body⟩ :: cs => Pasted head.toList ∧ NodesScanned body ∧ ClausesScanned cs

end

theorem nodesScanned_iff {ns : Nodes} : NodesScanned ns ↔ ∀ n ∈ ns, n.val.Scanned := by
  induction ns with
  | nil => simp [NodesScanned]
  | cons n ns ih => simp [NodesScanned, ih]

def Piece.Scanned : Piece → Prop
  | .text _ _ => True
  | .node n _ _ => n.Scanned

def PiecesScanned (ps : List Piece) : Prop := ∀ p ∈ ps, p.Scanned

section
variable {ps qs : List Piece}

theorem PiecesScanned.append (h : PiecesScanned ps) (h' : PiecesScanned qs) :
    PiecesScanned (ps ++ qs) := by
  intro p hp
  rcases List.mem_append.mp hp with hp | hp
  · exact h p hp
  · exact h' p hp

theorem piecesScanned_nil : PiecesScanned [] := fun _ h => by cases h

theorem piecesScanned_one {p : Piece} (h : p.Scanned) : PiecesScanned [p] := by
  intro q hq
  obtain rfl := List.mem_singleton.mp hq
  exact h

theorem PiecesScanned.gather (h : PiecesScanned ps) : NodesScanned (gather ps) := by
  have hrun : ∀ (r : Run), NodesScanned r.nodes := by
    intro r
    unfold Run.nodes
    split
    · trivial
    · exact ⟨trivial, trivial⟩
  have hfrom : ∀ (ps : List Piece) (r : Run), PiecesScanned ps →
      NodesScanned (gatherFrom r ps) := by
    intro ps
    induction ps with
    | nil => exact fun r _ => hrun r
    | cons p ps ih =>
      intro r hps
      have hrest : PiecesScanned ps := fun q hq => hps q (List.mem_cons_of_mem p hq)
      cases p with
      | text cs offset => exact ih _ hrest
      | node n span alone =>
        have hn : n.Scanned := hps _ List.mem_cons_self
        rw [gatherFrom, nodesScanned_iff]
        intro m hm
        rcases List.mem_append.mp hm with hm | hm
        · exact nodesScanned_iff.mp (hrun _) m hm
        · rcases List.mem_cons.mp hm with rfl | hm
          · exact hn
          · exact nodesScanned_iff.mp (ih {} hrest) m hm
  exact hfrom ps {} h

end

/-! Tags -/

namespace Tag

theorem piecesScanned_text (cs : List Char) (offset : Nat) : PiecesScanned (text cs offset) := by
  unfold text
  split
  · exact piecesScanned_nil
  · exact piecesScanned_one trivial

theorem scanned_attribute {a : Attribute} (h : AllScanned a.parts) (span : Span) (alone : Bool) :
    (Piece.node (.attribute a) span alone).Scanned := by
  rw [Piece.Scanned, Node.Scanned]
  exact h

theorem Attributed.scanned {markup : List Char} {offset : Nat} {c e : Cursor} {ps : List Piece}
    (h : Attributed markup offset c ps e) : PiecesScanned ps := by
  induction h with
  | close => exact piecesScanned_text _ _
  | plain _ _ _ ih | literal _ _ _ _ _ _ ih => exact ih
  | parts _ _ _ hvalue _ _ ih =>
    have hparts := hvalue.scanned fun _ hp => by cases hp
    exact (piecesScanned_text _ _).append
      ((piecesScanned_one (scanned_attribute (allScanned_append hparts (allScanned_literal _ _)) _
        _)).append ih)

theorem piecesScanned_read {c c' : Cursor} {ps : List Piece} (h : read? c = some (ps, c')) :
    PiecesScanned ps := by
  obtain ⟨name, d, -, -, hread⟩ := attributed_of_read h
  exact hread.scanned

end Tag

/-! Tokens of directives -/

namespace Region

theorem wordy_of_slice {cs s : List Char} (h : slice .member cs = .ok (some s)) : Wordy s := by
  unfold slice at h
  split at h
  · cases h
  · dsimp only at h
    have hname := wordy_leadingName cs
    split at h
    · cases h
    · cases h
      exact hname

theorem isType_of_slice {cs s : List Char} (h : slice .type cs = .ok (some s)) :
    s = cs ∧ Code.isType cs = true := by
  unfold slice at h
  split at h
  · cases h
  · dsimp only at h
    split at h
    next htype =>
      cases h
      exact ⟨rfl, htype⟩
    · cases h

theorem read_of_slice {k : TokenKind} {cs s : List Char}
    (h : slice k (Text.trim cs) = .ok (some s)) :
    DirectiveToken.Read ⟨k, value k s⟩ := by
  refine ⟨fun hk => ?_, fun hk => ?_⟩
  · obtain rfl : k = .member := hk
    have hvalue : value .member s = .ofList (Text.trim s) := rfl
    rw [hvalue, String.toList_ofList]
    obtain ⟨a, b, htrim, -, -⟩ := Text.exists_trim s
    refine fun c hc => wordy_of_slice h c ?_
    rw [htrim]
    exact List.mem_append_right _ (List.mem_append_left _ hc)
  · obtain rfl : k = .type := hk
    have hvalue : value .type s = .ofList (Text.trim s) := rfl
    obtain ⟨rfl, htype⟩ := isType_of_slice h
    rwa [hvalue, String.toList_ofList, Text.trim_trim]

theorem tokensRead_nil : TokensRead [] := fun _ h => by cases h

theorem tokensRead_tokensFrom (d : Directive) (region : Span) (specs : List TokenSpec)
    (offset : Nat) (cs : List Char) :
    TokensRead (tokensFrom d region specs offset cs).1 := by
  induction specs generalizing offset cs with
  | nil =>
    unfold tokensFrom
    split <;> exact tokensRead_nil
  | cons spec specs ih =>
    unfold tokensFrom
    dsimp only
    split
    next s hslice =>
      intro t ht
      rcases List.mem_cons.mp ht with rfl | ht
      · exact read_of_slice hslice
      · exact ih _ _ t ht
    · split
      · exact ih _ _
      · exact tokensRead_nil
    · exact tokensRead_nil

end Region

end Templating.Markup
