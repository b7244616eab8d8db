import Templating.Proofs.Code.Boundary
import Templating.Proofs.Code.Unique
import Templating.Proofs.Unit.Relaid

/-! Embedded code keeps its tokens as it is laid out afresh: each stands where it stood, with white
space before it where there was some, and each literal is laid out like the code around it. -/
namespace Templating.Unit
open Code
open Text (isBlank allBlank)

section
variable {n m k : Nat} {a b u v w cs behind after : List Char} {c : Char}

/-! What stands ahead -/

theorem laidOut_cons (hc : isBlank c = false) (n m : Nat) (cs : List Char) :
    laidOut n m (c :: cs) = c :: relaid n m 0 [] cs := by
  rw [laidOut, relaid_solid hc, respaced, if_pos rfl, List.nil_append]

theorem relaid_append_of_solid (hw : ∀ c ∈ w, isBlank c = false) (n m : Nat) (u : List Char) :
    relaid n m 0 [] (w ++ u) = w ++ relaid n m 0 [] u := by
  induction w with
  | nil => rfl
  | cons c w ih =>
    rw [List.cons_append, ← laidOut, laidOut_cons (hw c List.mem_cons_self), ih fun e he =>
      hw e (List.mem_cons_of_mem c he)]
    rfl

theorem prefix_of_relaid (hw : ∀ c ∈ w, isBlank c = false)
    (h : w <+: relaid n m 0 [] u ++ '\n' :: after) : w <+: u := by
  induction w generalizing u with
  | nil => exact List.nil_prefix
  | cons c w ih =>
    have hc := hw c List.mem_cons_self
    have hnot : ∀ {x : List Char} {e : Char}, isBlank e = true → ¬ c :: w <+: e :: x :=
      fun he hpre =>
      ne_of_blank he hc (List.cons_prefix_cons.mp hpre).1.symm
    cases hall : allBlank u with
    | true =>
      rw [relaid_allBlank (List.all_eq_true.mp hall)] at h
      exact absurd h (hnot (by decide))
    | false =>
      obtain ⟨b, e, r, rfl, hb, he⟩ := Text.exists_first hall
      obtain ⟨d, hd, hread, hfront⟩ := exists_front hb he n m 0 r
      rw [hfront] at h
      cases d with
      | cons x d => exact absurd h (hnot (hd x List.mem_cons_self))
      | nil =>
        obtain ⟨-, rfl⟩ : '\n' ∉ b ∧ b = [] := by simpa [eq_comm] using hread
        rw [List.nil_append, laidOut_cons he, List.cons_append] at h
        obtain ⟨rfl, htail⟩ := List.cons_prefix_cons.mp h
        exact List.cons_prefix_cons.mpr
          ⟨rfl, ih (fun x hx => hw x (List.mem_cons_of_mem c hx)) htail⟩

theorem characterBegins_of_relaid (hafter : after.head? ≠ some '\'')
    (hq : n = 0 → ¬ quotedEnd <:+: '\'' :: (relaid n m 0 [] u ++ ['\n']))
      (h : CharacterBegins (relaid n m 0 [] u ++ '\n' :: after))
    (behind : List Char) : CharacterBegins (u ++ behind) := by
  rcases h with ⟨r, hr⟩ | ⟨x, r, hr⟩
  · obtain ⟨t, rfl⟩ := prefix_of_relaid (w := ['\\']) (by decide) ⟨r, hr.symm⟩
    exact .inl ⟨t ++ behind, rfl⟩
  · cases hall : allBlank u with
    | true =>
      rw [relaid_allBlank (List.all_eq_true.mp hall)] at hr
      obtain ⟨-, rfl⟩ := List.cons.inj hr
      exact absurd rfl hafter
    | false =>
      obtain ⟨b, e, t, rfl, hb, he⟩ := Text.exists_first hall
      obtain ⟨d, hd, hread, hfront⟩ := exists_front hb he n m 0 t
      rw [hfront, laidOut_cons he] at hr
      -- the apostrophe is the first character that is not a blank, or it follows that
      rcases d with _ | ⟨y, _ | ⟨z, d⟩⟩
      · obtain ⟨-, rfl⟩ : '\n' ∉ b ∧ b = [] := by simpa [eq_comm] using hread
        obtain ⟨rfl, htail⟩ := List.cons.inj hr
        obtain ⟨t, rfl⟩ := prefix_of_relaid (w := ['\'']) (by decide) ⟨r, htail.symm⟩
        exact .inr ⟨e, t ++ behind, rfl⟩
      · obtain ⟨rfl, htail⟩ := List.cons.inj hr
        obtain ⟨rfl, -⟩ := List.cons.inj htail
        rcases hread with ⟨-, -, rfl⟩ | ⟨-, s, hs, hn⟩
        · exact .inr ⟨y, t ++ behind, rfl⟩
        · obtain ⟨rfl, rfl⟩ := List.cons.inj hs
          rw [hfront, laidOut_cons he] at hq
          exact absurd ⟨[], relaid n m 0 [] t ++ ['\n'], by simp [quotedEnd]⟩ (hq (hn rfl))
      · obtain ⟨-, htail⟩ := List.cons.inj hr
        obtain ⟨rfl, -⟩ := List.cons.inj htail
        cases hd '\'' (by simp)

theorem characterBegins_relaid (hu : u ≠ []) (hbehind : behind.head? ≠ some '\'')
    (hfeed : ¬ ['\n', '\''] <+: u)
    (h : CharacterBegins (u ++ behind)) (n m : Nat) (after : List Char) :
    CharacterBegins (relaid n m 0 [] u ++ after) := by
  rcases h with ⟨r, hr⟩ | ⟨x, r, hr⟩
  · obtain ⟨e, t, rfl⟩ := List.exists_cons_of_ne_nil hu
    obtain ⟨rfl, -⟩ := List.cons.inj hr
    rw [← laidOut, laidOut_cons (by decide)]
    exact .inl ⟨_, rfl⟩
  · rcases u with _ | ⟨e, _ | ⟨f, t⟩⟩
    · exact absurd rfl hu
    · obtain ⟨-, rfl⟩ := List.cons.inj hr
      exact absurd rfl hbehind
    · obtain ⟨rfl, htail⟩ := List.cons.inj hr
      obtain ⟨rfl, -⟩ := List.cons.inj htail
      have hquote : isBlank '\'' = false := by decide
      cases he : isBlank e with
      | true =>
        have hne : '\n' ∉ [e] := by
          rintro hmem
          obtain rfl := List.mem_singleton.mp hmem
          exact hfeed ⟨t, rfl⟩
        have hall : ∀ c ∈ [e], isBlank c = true := by simpa using he
        rw [show e :: '\'' :: t = [e] ++ '\'' :: t from rfl, relaid_blanks hall hne,
          relaid_solid hquote, respaced, if_pos rfl]
        exact .inr ⟨e, _, rfl⟩
      | false =>
        rw [← laidOut, laidOut_cons he, ← laidOut, laidOut_cons hquote]
        exact .inr ⟨e, _, rfl⟩

/-! One grain -/

section
variable {p q : Option Char} {k : Cover} {lead body rest : List Char}
  (hpq : p.any Text.continuesName = q.any Text.continuesName)

include hpq in
theorem opens_relaid (h : k.Opens p lead (u ++ behind)) (hu : u ≠ [])
    (hbehind : behind.head? ≠ some '\'')
    (hfeed : k = .character → ¬ ['\n', '\''] <+: u) (n m : Nat) (after : List Char) :
    k.Opens q lead (relaid n m 0 [] u ++ after) := by
  cases h with
  | string => exact .string _
  | raw n _ hletters hp => exact .raw n _ hletters (hpq ▸ hp)
  | character hbegins =>
    exact .character (characterBegins_relaid hu hbehind (hfeed rfl) hbegins n m after)
  | line => exact .line _
  | block => exact .block _

include hpq in
theorem opens_of_relaid (h : k.Opens q lead rest)
    (hsplit : c :: (relaid n m 0 [] u ++ '\n' :: after) = lead ++ rest)
    (hafter : after.head? ≠ some '\'')
    (hq : n = 0 → ¬ quotedEnd <:+: c :: (relaid n m 0 [] u ++ ['\n'])) (behind : List Char) :
    ∃ rest, c :: (u ++ behind) = lead ++ rest ∧ k.Opens p lead rest := by
  obtain ⟨e, w, hlead⟩ := h.exists_cons
  have hw : ∀ x ∈ w, isBlank x = false := fun x hx => h.solid x (hlead ▸ List.mem_cons_of_mem e hx)
  rw [hlead] at hsplit ⊢
  obtain ⟨rfl, htail⟩ := List.cons.inj hsplit
  obtain ⟨t, rfl⟩ := prefix_of_relaid hw ⟨rest, htail.symm⟩
  refine ⟨t ++ behind, by simp, ?_⟩
  rw [← hlead]
  cases h with
  | string => exact .string _
  | raw n _ hletters hq => exact .raw n _ hletters (hpq ▸ hq)
  | character hbegins =>
    obtain ⟨rfl, rfl⟩ := List.cons.inj hlead
    exact .character (characterBegins_of_relaid hafter hq (htail ▸ hbegins) behind)
  | line => exact .line _
  | block => exact .block _

end

/-- A text and what it is laid out as, from its first character on that is not a blank. There is
white space in front of both or of none, unless there is white space before them. -/
inductive Faces (n m : Nat) (gap : Bool) : List Char → List Char → Prop
  | blank {u e : List Char} (hu : ∀ c ∈ u, isBlank c = true) (he : ∀ c ∈ e, isBlank c = true) :
      Faces n m gap u e
  | text {b d cs : List Char} {c : Char} (hb : ∀ c ∈ b, isBlank c = true)
      (hd : ∀ c ∈ d, isBlank c = true) (hc : isBlank c = false)
      (hgap : gap = false → (b = [] ↔ d = [])) :
      Faces n m gap (b ++ c :: cs) (d ++ (laidOut n m (c :: cs) ++ ['\n']))

theorem faces_relaid (n m : Nat) (u : List Char) :
    Faces n m false u (relaid n m 0 [] u ++ ['\n']) := by
  cases hall : allBlank u with
  | true =>
    rw [relaid_allBlank (List.all_eq_true.mp hall)]
    exact .blank (List.all_eq_true.mp hall) (by decide)
  | false =>
    obtain ⟨b, c, cs, rfl, hb, hc⟩ := Text.exists_first hall
    obtain ⟨d, hd, hread, hfront⟩ := exists_front hb hc n m 0 cs
    rw [hfront, List.append_assoc]
    refine .text hb hd hc fun _ => ?_
    rcases hread with ⟨-, -, rfl⟩ | ⟨hfeed, t, rfl, -⟩
    · exact Iff.rfl
    · simpa using List.ne_nil_of_mem (hfeed.resolve_left (by simp))

theorem faces_feed (n m : Nat) (u : List Char) : ∃ e, relaid n m 1 [] u ++ ['\n'] = '\n' :: e ∧
    Faces n m true u e := by
  cases hall : allBlank u with
  | true =>
    rw [relaid_allBlank (List.all_eq_true.mp hall)]
    exact ⟨[], rfl, .blank (List.all_eq_true.mp hall) (by decide)⟩
  | false =>
    obtain ⟨b, c, cs, rfl, hb, hc⟩ := Text.exists_first hall
    obtain ⟨d, hd, hread, hfront⟩ := exists_front hb hc n m 1 cs
    obtain ⟨t, rfl, -⟩ : ∃ t, d = '\n' :: t ∧ (t = [] → n = 0) := by simpa using hread
    rw [hfront, List.append_assoc]
    exact ⟨_, rfl, .text hb (fun x hx => hd x (List.mem_cons_of_mem _ hx)) hc fun h => by cases h⟩

/-- Marks with the literals among them laid out afresh. -/
def marksLaidOut (n m : Nat) (ms : List (Bool × Mark)) : List (Bool × Mark) :=
  ms.map fun x => (x.1, x.2.onLiteral (laidOut n m))

theorem marksLaidOut_append (n m : Nat) (ms ns : List (Bool × Mark)) :
    marksLaidOut n m (ms ++ ns) = marksLaidOut n m ms ++ marksLaidOut n m ns := List.map_append

theorem marksLaidOut_shown {mark : Char → Mark}
    (hmark : ∀ c, (mark c).onLiteral (laidOut n m) = mark c) (gap : Bool) (u : List Char) :
    marksLaidOut n m (outlineFrom gap (u.map (Mark.shown mark))) =
      outlineFrom gap (u.map (Mark.shown mark)) := by
  induction u generalizing gap with
  | nil => rfl
  | cons c u ih =>
    rw [List.map_cons]
    cases hc : isBlank c with
    | true => rw [Mark.shown_blank hc, outlineFrom, ih]
    | false =>
      have htail := ih false
      rw [marksLaidOut] at htail ⊢
      rw [Mark.shown_solid hc, outlineFrom, List.map_cons, hmark, htail]

/-- A grain and what it is laid out as, between what is behind the one and behind the other. -/
structure Counterpart (n m : Nat) (gap gap' : Bool) (g g' : Grain) : Prop where
  outline : outlineFrom gap g'.marks = marksLaidOut n m (outlineFrom gap g.marks)
  before : gapAfter gap g.marks = gap'
  behind : gapAfter gap g'.marks = gap'

section
variable {p q : Option Char} {k : Cover} {lead body e : List Char} {g g' : Grain} {gs : List Grain}
  {gap gap' : Bool}

theorem counterpart_literal (hk : k.isLiteral = true) (hlead : ∀ c ∈ lead, isBlank c = false)
    (gap : Bool) (body : List Char) :
    Counterpart n m gap false (.covered k lead body) (.covered k lead (laidOut n m body)) := by
  have htext : laidOut n m (lead ++ body) = lead ++ laidOut n m body :=
    relaid_append_of_solid hlead n m body
  constructor
  all_goals simp [Grain.marks, hk, outlineFrom, gapAfter, marksLaidOut, Mark.onLiteral, htext]

theorem counterpart_block (hlead : ∀ c ∈ lead, isBlank c = false) (hc : isBlank c = false)
    (gap : Bool) (u : List Char) :
    Counterpart n m gap false (.covered .block lead (u ++ [c]))
      (.covered .block lead (laidOut n m (u ++ [c]))) := by
  have htext : laidOut n m (lead ++ (u ++ [c])) = lead ++ laidOut n m (u ++ [c]) :=
    relaid_append_of_solid hlead n m _
  obtain ⟨v, hv⟩ := exists_relaid_concat (n := n) (m := m) hc 0 [] u
  have hmarks : ∀ body, (Grain.covered .block lead body).marks =
      (lead ++ body).map (Mark.shown .remark) := fun _ => rfl
  constructor
  case outline =>
    have hspace :=
      spacious_outline .remark gap []
      (outlineFrom gap ((lead ++ (u ++ [c])).map (Mark.shown .remark)))
    simp only [List.append_nil, ← List.append_assoc] at hspace
    rw [hmarks, hmarks, marksLaidOut_shown fun _ => rfl, ← htext, ← List.append_assoc]
    exact spacious_laidOut hspace hc rfl
  case before => rw [hmarks, ← List.append_assoc, gapAfter_shown .remark hc]
  case behind => rw [hmarks, laidOut, hv, ← List.append_assoc, gapAfter_shown .remark hc]

/-- White space at the end of a line is not laid out, but what comes behind it
comes behind white space. -/
theorem counterpart_line (hb : ∀ c ∈ b, isBlank c = true) (gap : Bool) (lead w : List Char) :
    Counterpart n m gap true (.covered .line lead (w ++ b ++ ['\n']))
      (.covered .line lead (w ++ ['\n'])) := by
  have hmarks : ∀ body, (Grain.covered .line lead body).marks =
      (lead ++ body).map (Mark.shown .remark) := fun _ => rfl
  have hgap : ∀ {d : List Char}, (∀ c ∈ d, isBlank c = true) → Gap (d ++ ['\n']) := fun hd =>
    ⟨by simp, by simpa [or_imp, forall_and] using ⟨hd, rfl⟩⟩
  have hfirst := hgap hb
  have hsecond : Gap ['\n'] := hgap (d := []) (by simp)
  constructor
  all_goals simp only [hmarks, List.append_assoc]
  all_goals rw [← List.append_assoc]
  case outline =>
    rw [← List.append_assoc, outlineFrom_append_gap .remark hfirst.blank,
      outlineFrom_append_gap .remark hsecond.blank,
      marksLaidOut_shown fun _ => rfl]
  case before => exact gapAfter_append_gap .remark hfirst gap _
  case behind => exact gapAfter_append_gap .remark hsecond gap _

theorem not_feed_of_upToUnescaped (h : UpToUnescaped '\'' body) (hne : '\'' :: body ≠ quotedEnd) :
    ¬ ['\n', '\''] <+: body ++ u := by
  intro hpre
  cases h with
  | mark => cases (List.cons_prefix_cons.mp hpre).1
  | escaped => cases (List.cons_prefix_cons.mp hpre).1
  | other _ _ hu =>
    obtain ⟨rfl, htail⟩ := List.cons_prefix_cons.mp hpre
    cases hu with
    | mark => exact hne rfl
    | escaped => cases (List.cons_prefix_cons.mp htail).1
    | other hquote => exact hquote (List.cons_prefix_cons.mp htail).1.symm

/-- How a grain `g` in front of `u` is laid out: as `g'`, in front of `e`. -/
structure Step (n m : Nat) (p q : Option Char) (gap : Bool) (g : Grain) (u after : List Char)
    (g' : Grain) (e : List Char) (gap' : Bool) : Prop where
  stands : g'.Stands q (e ++ after)
  text : laidOut n m (g.text ++ u) ++ ['\n'] = g'.text ++ e
  faces : Faces n m gap' u e
  counterpart : Counterpart n m gap gap' g g'
  name : (g.text.getLast?.or p).any Text.continuesName =
    (g'.text.getLast?.or q).any Text.continuesName
  unnamed : gap' = true → (g.text.getLast?.or p).any Text.continuesName = false

theorem step_char (hc : isBlank c = false) (htext : g.text = [c])
    (hmarks : g.marks = [Mark.shown .code c])
    (hstands : g.Stands q (relaid n m 0 [] u ++ ['\n'] ++ after)) (p : Option Char) (gap : Bool) :
    Step n m p q gap g u after g (relaid n m 0 [] u ++ ['\n']) false := by
  constructor
  case stands => exact hstands
  case text => rw [htext, List.singleton_append, laidOut_cons hc, List.cons_append]; rfl
  case faces => exact faces_relaid n m u
  case counterpart =>
    have hgap : gapAfter gap g.marks = false := hmarks ▸ gapAfter_shown .code hc gap []
    exact ⟨hmarks ▸ (marksLaidOut_shown (fun _ => rfl) gap [c]).symm, hgap, hgap⟩
  case name => rw [htext]; rfl
  case unnamed => exact fun h => by cases h

theorem exists_step_line (h : (Grain.covered .line lead body).Stands p (u ++ behind))
    (hbehind : behind ≠ []) (n m : Nat) (q : Option Char) (gap : Bool) (after : List Char) :
    ∃ g' e, Step n m p q gap (.covered .line lead body) u after g' e true := by
  obtain ⟨hopens, hbody⟩ := h
  have hfeed : UpTo ['\n'] body :=
    hbody.resolve_right fun h => hbehind (List.append_eq_nil_iff.mp h.2).2
  obtain ⟨w, rfl, hw⟩ := hfeed.exists_feed
  obtain ⟨w, b, rfl, hb, z, y, hz, hy⟩ : ∃ w' b, w = w' ++ b ∧ (∀ c ∈ b, isBlank c = true) ∧
      ∃ z y, lead ++ w' = z ++ [y] ∧ isBlank y = false := by
    cases hall : allBlank w with
    | true =>
      obtain ⟨x, r, rfl⟩ := hopens.exists_cons
      obtain ⟨z, y, hz⟩ : ∃ z y, x :: r = z ++ [y] :=
        ⟨_, _, (List.dropLast_concat_getLast (by simp)).symm⟩
      exact ⟨[], w, rfl, List.all_eq_true.mp hall, z, y,
        by simpa using hz, hopens.solid y (by simp [hz])⟩
    | false =>
      obtain ⟨z, y, b, rfl, hy, hb⟩ := Text.exists_last hall
      exact ⟨z ++ [y], b, by simp, hb, lead ++ z, y, by simp, hy⟩
  obtain ⟨e, he, hfaces⟩ := faces_feed n m u
  have hline : '\n' ∉ z ++ [y] := by
    rw [← hz]
    simp only [List.mem_append, not_or] at hw ⊢
    refine ⟨fun hmem => ?_, hw.1⟩
    cases hopens.solid _ hmem
  refine ⟨.covered .line lead (w ++ ['\n']), e, ?_⟩
  constructor
  case stands =>
    have hw' : '\n' ∉ w := fun h => hw (List.mem_append_left b h)
    cases hopens
    exact ⟨.line _, .inl (upTo_feed hw')⟩
  case text =>
    have hfront : lead ++ (w ++ b ++ ['\n']) ++ u = z ++ y :: (b ++ '\n' :: u) := by
      rw [← List.append_assoc, ← List.append_assoc lead, hz]
      simp
    have hb' : '\n' ∉ b := fun h => hw (List.mem_append_right w h)
    rw [Grain.text, Grain.text, hfront, laidOut, relaid_append hy, relaid_line hy hline,
      relaid_blanks hb hb', relaid_feed,
      List.append_assoc, he, List.nil_append, ← List.append_assoc lead, hz]
    simp
  case faces => exact hfaces
  case counterpart => exact counterpart_line hb gap lead w
  case name => simp [Grain.text, ← List.append_assoc]
  case unnamed =>
    intro
    have hfeed : Text.continuesName '\n' = false := Text.not_continuesName_of_isBlank rfl
    simp [Grain.text, ← List.append_assoc, hfeed]

theorem exists_step_covered (h : (Grain.covered k lead body).Stands p (u ++ behind))
    (hk : k ≠ .line)
    (hpq : p.any Text.continuesName = q.any Text.continuesName) (hbehind : behind.head? ≠ some '\'')
    (hliteral : lead ++ body ≠ quotedEnd) (n m : Nat) (gap : Bool) (after : List Char) :
    ∃ g' e, Step n m p q gap (.covered k lead body) u after g' e false := by
  obtain ⟨hopens, hbody⟩ := h
  obtain ⟨w, x, rfl, hx⟩ := hbody.ends hk
  have hrest : relaid n m 0 [] ((w ++ [x]) ++ u) = laidOut n m (w ++ [x]) ++ relaid n m 0 [] u := by
    rw [List.append_assoc, List.singleton_append, relaid_append hx]
    rfl
  obtain ⟨v, hv⟩ := exists_relaid_concat (n := n) (m := m) hx 0 [] w
  refine ⟨.covered k lead (laidOut n m (w ++ [x])), relaid n m 0 [] u ++ ['\n'], ?_⟩
  constructor
  case stands =>
    constructor
    · rw [← List.append_assoc] at hopens
      have hfeed : k = .character → ¬ ['\n', '\''] <+: (w ++ [x]) ++ u := by
        rintro rfl
        cases hopens with
        | character => exact not_feed_of_upToUnescaped hbody hliteral
      have hahead := opens_relaid hpq hopens (by simp) hbehind hfeed n m (['\n'] ++ after)
      rw [hrest] at hahead
      simpa using hahead
    · exact spacious_laidOut (spacious_body hk _) hx (hbody.before hk _)
  case text =>
    rw [Grain.text, Grain.text, laidOut, List.append_assoc lead,
      relaid_append_of_solid hopens.solid, hrest]
    simp
  case faces => exact faces_relaid n m u
  case counterpart =>
    cases hliteral' : k.isLiteral with
    | true => exact counterpart_literal hliteral' hopens.solid gap _
    | false =>
      obtain rfl : k = .block := by
        cases k with
        | block => rfl
        | line => exact absurd rfl hk
        | _ => cases hliteral'
      exact counterpart_block hopens.solid hx gap w
  case name => simp [Grain.text, laidOut, hv, ← List.append_assoc]
  case unnamed => exact fun h => by cases h

theorem exists_step (h : g.Stands p (u ++ behind)) (hc : isBlank c = false)
    (htext : g.text ++ u = c :: v)
    (hpq : p.any Text.continuesName = q.any Text.continuesName) (hbehind : behind ≠ [] ∧
      behind.head? ≠ some '\'')
    (hafter : after.head? ≠ some '\'') (hq : n = 0 →
      ¬ quotedEnd <:+: laidOut n m (g.text ++ u) ++ ['\n'])
    (hliteral : g.text ≠ quotedEnd) (gap : Bool) :
    ∃ g' e gap', Step n m p q gap g u after g' e gap' := by
  cases g with
  | delimiter d =>
    obtain ⟨rfl, -⟩ := List.cons.inj htext
    exact ⟨_, _, false, step_char hc rfl rfl h p gap⟩
  | plain d =>
    obtain ⟨rfl, -⟩ := List.cons.inj htext
    have hline : laidOut n m (d :: u) ++ ['\n'] = d :: (relaid n m 0 [] u ++ ['\n']) := by
      rw [laidOut_cons hc, List.cons_append]
    have hstands : (Grain.plain d).Stands q (relaid n m 0 [] u ++ ['\n'] ++ after) := by
      refine ⟨h.1, fun k lead rest hsplit hopens => ?_⟩
      rw [List.append_assoc, List.singleton_append] at hsplit
      obtain ⟨rest', hsplit', hopens'⟩ :=
        opens_of_relaid hpq hopens hsplit hafter (hline ▸ hq) behind
      exact h.2 k lead rest' hsplit' hopens'
    exact ⟨_, _, false, step_char hc rfl rfl hstands p gap⟩
  | covered k lead body =>
    by_cases hk : k = .line
    · subst hk
      obtain ⟨g', e, hstep⟩ := exists_step_line h hbehind.1 n m q gap after
      exact ⟨g', e, true, hstep⟩
    · obtain ⟨g', e, hstep⟩ := exists_step_covered h hk hpq hbehind.2 hliteral n m gap after
      exact ⟨g', e, false, hstep⟩

/-! A row of grains -/

/-- A text is a row of grains with the marks of another row, but that the literals
are laid out afresh. -/
def Retold (n m : Nat) (gap : Bool) (q : Option Char) (gs : List Grain)
    (e after : List Char) : Prop :=
  ∃ hs, Row q hs after ∧ hs.flatMap Grain.text = e ∧
    outlineFrom gap (hs.flatMap Grain.marks) =
      marksLaidOut n m (outlineFrom gap (gs.flatMap Grain.marks))

theorem Retold.cons (h : Retold n m gap' (g'.text.getLast?.or q) gs e after)
    (hg : g'.Stands q (e ++ after))
    (hc : Counterpart n m gap gap' g g') : Retold n m gap q (g :: gs) (g'.text ++ e) after := by
  obtain ⟨hs, hrow, rfl, hmarks⟩ := h
  refine ⟨g' :: hs, ⟨hg, hrow⟩, List.flatMap_cons, ?_⟩
  rw [List.flatMap_cons, List.flatMap_cons, outlineFrom_append, outlineFrom_append,
    marksLaidOut_append, hc.outline, hc.before,
    hc.behind, hmarks]

theorem Retold.blanks (h : Retold n m (gap || !b.isEmpty) (a.getLast?.or q) gs e after)
    (hb : ∀ c ∈ b, isBlank c = true)
    (ha : ∀ c ∈ a, isBlank c = true) (hgap : (gap || !b.isEmpty) = (gap || !a.isEmpty)) :
    Retold n m gap q (b.map .plain ++ gs) (a ++ e) after := by
  obtain ⟨hs, hrow, rfl, hmarks⟩ := h
  refine ⟨a.map .plain ++ hs, Row.append.mpr ⟨row_blanks ha q _, ?_⟩, ?_, ?_⟩
  · rwa [text_blanks]
  · rw [List.flatMap_append, text_blanks]
  · rw [List.flatMap_append, List.flatMap_append, marks_blanks, marks_blanks,
      outlineFrom_blanks .code ha,
      outlineFrom_blanks .code hb, ← hgap, hmarks]

theorem any_of_blanks (hb : ∀ c ∈ b, isBlank c = true) (p : Option Char) :
    (b.getLast?.or p).any Text.continuesName = (b.isEmpty && p.any Text.continuesName) := by
  cases hlast : b.getLast? with
  | none =>
    obtain rfl := List.getLast?_eq_none_iff.mp hlast
    rfl
  | some c =>
    have hmem := List.mem_of_getLast? hlast
    have hc := Text.not_continuesName_of_isBlank (hb c hmem)
    simp [hc, List.ne_nil_of_mem hmem]

theorem gap_eq (hgap : gap = false → (b = [] ↔ a = [])) :
    (gap || !b.isEmpty) = (gap || !a.isEmpty) := by
  cases gap with
  | true => rfl
  | false =>
    have hempty : b.isEmpty = a.isEmpty := Bool.eq_iff_iff.mpr (by simpa using hgap rfl)
    rw [hempty]

theorem name_eq (hb : ∀ c ∈ b, isBlank c = true) (ha : ∀ c ∈ a, isBlank c = true)
    (hgap : gap = false → (b = [] ↔ a = []))
    (hpq : p.any Text.continuesName = q.any Text.continuesName)
    (hname : gap = true → p.any Text.continuesName = false) :
    (b.getLast?.or p).any Text.continuesName = (a.getLast?.or q).any Text.continuesName := by
  rw [any_of_blanks hb, any_of_blanks ha]
  cases gap with
  | true => rw [← hpq, hname rfl, Bool.and_false, Bool.and_false]
  | false =>
    have hempty : b.isEmpty = a.isEmpty := by simpa using gap_eq hgap
    rw [hempty, hpq]

theorem retold_of_blank (hrow : Row p gs behind) (htext : gs.flatMap Grain.text = b)
    (hb : ∀ c ∈ b, isBlank c = true)
    (he : ∀ c ∈ e, isBlank c = true) : Retold n m gap q gs e after := by
  obtain ⟨gs, rfl, hnil⟩ := hrow.exists_blanks (y := []) hb (by simpa using htext)
  obtain ⟨-, hrest⟩ := Row.append.mp hrow
  have hnone : ∀ {b : List Char}, (∀ c ∈ b, isBlank c = true) →
      outlineFrom gap ((b.map Grain.plain).flatMap Grain.marks) = [] := by
    intro b hb
    have hblanks := outlineFrom_blanks .code hb gap []
    rwa [List.append_nil, ← marks_blanks] at hblanks
  cases gs with
  | nil =>
    exact ⟨e.map .plain, row_blanks he q after, text_blanks e,
      by rw [hnone he, List.append_nil, hnone hb]; rfl⟩
  | cons g gs => exact absurd (List.append_eq_nil_iff.mp hnil).1 (Grain.text_ne_nil hrest.1)

/-- Grain by grain, a row of grains is laid out as another. -/
theorem exists_retold (hbehind : behind ≠ [] ∧ behind.head? ≠ some '\'')
    (hafter : after.head? ≠ some '\'')
    (hrow : Row p gs behind) (hliteral : ∀ g ∈ gs, g.text ≠ quotedEnd)
      (hfaces : Faces n m gap (gs.flatMap Grain.text) e)
    (hq : n = 0 → ¬ quotedEnd <:+: e) (hpq : p.any Text.continuesName = q.any Text.continuesName)
    (hname : gap = true → p.any Text.continuesName = false) : Retold n m gap q gs e after := by
  induction hlength : gs.length using Nat.strongRecOn generalizing gs p q gap e with
  | ind size ih =>
    generalize htext : gs.flatMap Grain.text = s at hfaces
    cases hfaces with
    | blank hs he => exact retold_of_blank hrow htext hs he
    | @text b d cs c hb hd hc hgap =>
      obtain ⟨gs, rfl, hsolid⟩ := hrow.exists_blanks hb htext
      obtain ⟨-, hrest⟩ := Row.append.mp hrow
      cases gs with
      | nil => cases hsolid
      | cons g gs =>
        rw [text_blanks] at hrest
        have hq' : n = 0 → ¬ quotedEnd <:+:
            laidOut n m (g.text ++ gs.flatMap Grain.text) ++ ['\n'] := by
          intro hn hpart
          rw [← List.flatMap_cons, hsolid] at hpart
          exact hq hn (hpart.trans ⟨d, [], by simp⟩)
        have hne : g.text ≠ quotedEnd := hliteral g (by simp)
        obtain ⟨g', e, gap', hstep⟩ :=
          exists_step hrest.1 hc hsolid (name_eq hb hd hgap hpq hname) hbehind hafter hq' hne
            (gap || !b.isEmpty)
        have hless : gs.length < size := by
          rw [List.length_append, List.length_cons] at hlength
          omega
        have hq'' : n = 0 → ¬ quotedEnd <:+: e := fun hn hpart =>
          hq' hn (hpart.trans ⟨g'.text, [], by rw [hstep.text, List.append_nil]⟩)
        have hretold :=
          ih gs.length hless hrest.2 (fun x hx => hliteral x (by simp [hx])) hstep.faces hq''
          hstep.name hstep.unnamed rfl
        rw [← hsolid, List.flatMap_cons, hstep.text]
        exact (hretold.cons hstep.stands hstep.counterpart).blanks hb hd (gap_eq hgap)

/-! Literals that are laid out as they were -/

theorem mem_marks_literal : some (.literal u) ∈ g.marks ↔ g.literal? = some u := by
  have hshown : ∀ (mark : Char → Mark) (v : List Char), (∀ c, mark c ≠ .literal u) →
      some (.literal u) ∉ v.map (Mark.shown mark) := by
    intro mark v hmark hmem
    obtain ⟨c, -, hc⟩ := List.mem_map.mp hmem
    unfold Mark.shown at hc
    split at hc
    · cases hc
    · exact hmark c (Option.some.inj hc)
  cases g with
  | covered k lead body =>
    cases hk : k.isLiteral with
    | true => simp [Grain.marks, Grain.literal?, hk, eq_comm]
    | false =>
      simpa [Grain.marks, Grain.literal?, hk]
        using hshown .remark (lead ++ body) (fun _ h => by cases h)
  | delimiter c =>
    simpa [Grain.marks, Grain.literal?] using hshown .code [c] (fun _ h => by cases h)
  | plain c => simpa [Grain.marks, Grain.literal?] using hshown .code [c] (fun _ h => by cases h)

theorem marksLaidOut_eq_self_iff (n m : Nat) (gap : Bool) (ms : List (Option Mark)) :
    marksLaidOut n m (outlineFrom gap ms) = outlineFrom gap ms ↔ ∀ u, some (.literal u) ∈ ms →
      laidOut n m u = u := by
  induction ms generalizing gap with
  | nil => simp [outlineFrom, marksLaidOut]
  | cons x ms ih =>
    cases x with
    | none => simpa [outlineFrom] using ih true
    | some x =>
      have htail := ih false
      rw [marksLaidOut] at htail ⊢
      rw [outlineFrom, List.map_cons, List.cons.injEq, htail]
      cases x with
      | literal v => simp [Mark.onLiteral, or_imp, forall_and]
      | code c | remark c => simp [Mark.onLiteral]

theorem laidOut_of_not_feed (h : g.Stands p behind) (hliteral : g.literal? = some u)
    (hfeed : '\n' ∉ u) (n m : Nat) :
    laidOut n m u = u := by
  cases g with
  | covered k lead body =>
    have hk : k.isLiteral = true ∧ lead ++ body = u := by simpa [Grain.literal?] using hliteral
    obtain ⟨hk, rfl⟩ := hk
    have hne : k ≠ .line := by
      rintro rfl
      cases hk
    obtain ⟨v, c, rfl, hc⟩ := h.2.ends hne
    rw [← List.append_assoc] at hfeed ⊢
    rw [laidOut, relaid_line hc hfeed, List.nil_append]
  | delimiter c | plain c => cases hliteral

/-! Code blocks -/

theorem exists_row_of_scan {text code : List Char} {stop : Stop} (h : scan stop p text = .ok code) :
    ∃ gs rest, text = code ++ (stop.text ++ rest) ∧ Row p gs (stop.text ++ rest) ∧
      gs.flatMap Grain.text = code := by
  obtain ⟨r, hr⟩ := exists_finds stop p text
  have hok : r = .ok code := hr.scan.symm.trans h
  cases hr with
  | @boundary gs rest hlead =>
    obtain rfl := Except.ok.inj hok
    exact ⟨gs, rest, rfl, hlead.row, rfl⟩
  | _ => cases hok

end

/-- The code of a block is emitted, at any depth, as the same tokens with white space between the
same ones, but for the literals, which are laid out like the code around them. So its tokens are
kept if and only if each literal is laid out as it is, and they are if no literal goes
over a line end. -/
theorem emitted_tokens {text code : List Char}
    (hscan : scan (.closer '\x7d') (some '\x7b') text = .ok code) (n : Nat)
    {after : List Char} (hafter : after.head? ≠ some '\'') :
    let m := sharedMargin (Text.dropBlankEnds (Text.lines code))
    let emitted := (Lines.render (Lines.nest^[n] (codeLines (.ofList code)))).toList
    (∃ gs rest, text = code ++ '\x7d' :: rest ∧ Row (some '\x7b') gs ('\x7d' :: rest) ∧
      gs.flatMap Grain.text = code) ∧
    ∀ gs rest, Row (some '\x7b') gs ('\x7d' :: rest) → gs.flatMap Grain.text = code →
      (∀ g ∈ gs, g.text ≠ quotedEnd) →
      (n = 0 → ¬ quotedEnd <:+: emitted) →
        (∃ hs, Row (some '\n') hs after ∧ hs.flatMap Grain.text = emitted) ∧
        ∀ hs, Row (some '\n') hs after → hs.flatMap Grain.text = emitted →
          outline hs = marksLaidOut n m (outline gs) ∧
          (outline hs = outline gs ↔ ∀ g ∈ gs, ∀ u, g.literal? = some u → laidOut n m u = u) ∧
          ((∀ g ∈ gs, ∀ u, g.literal? = some u → '\n' ∉ u) → outline hs = outline gs) := by
  intro m emitted
  refine ⟨exists_row_of_scan hscan, fun gs rest hrow htext hquoted hq => ?_⟩
  have hemitted : emitted = drawn n m (Text.dropBlankEnds (Text.lines code)) := by
    simp only [emitted, drawn, m, codeLines_eq, String.toList_ofList]
  have hfaces : Faces n m true (gs.flatMap Grain.text) emitted := by
    rw [htext, hemitted]
    cases hall : allBlank code with
    | true =>
      rw [drawn_of_allBlank hall]
      exact .blank (List.all_eq_true.mp hall) (by simp)
    | false =>
      obtain ⟨b, c, cs, rfl, hb, hc⟩ := Text.exists_first hall
      have hmargin : ∀ l ∈ Text.lines (b ++ c :: cs), allBlank l = false → m ≤ margin l :=
        fun l => sharedMargin_dropBlankEnds_le
      obtain ⟨d, hd, hdrawn⟩ := exists_drawn (n := n) hmargin hb hc
      rw [hdrawn]
      exact .text hb hd hc fun h => by cases h
  have hclose : '\x7d' :: rest ≠ [] ∧ ('\x7d' :: rest).head? ≠ some '\'' :=
    ⟨List.cons_ne_nil _ _, by simp⟩
  obtain ⟨hs, hrow', htext', houtline⟩ :=
    exists_retold hclose hafter hrow hquoted hfaces hq (q := some '\n') (by decide)
      (fun _ => by decide)
  have hiff : outline hs = outline gs ↔ ∀ g ∈ gs, ∀ u, g.literal? = some u → laidOut n m u = u := by
    rw [outline, houtline, outline, marksLaidOut_eq_self_iff]
    simp only [List.mem_flatMap, mem_marks_literal]
    constructor
    · exact fun h g hg u hu => h u ⟨g, hg, hu⟩
    · rintro h u ⟨g, hg, hu⟩
      exact h g hg u hu
  refine ⟨⟨hs, hrow', htext'⟩, fun hs' hrow'' htext'' => ?_⟩
  obtain rfl := hrow'.unique hrow'' (htext'.trans htext''.symm)
  refine ⟨houtline, hiff, fun hfeed => hiff.mpr fun g hg u hu => ?_⟩
  obtain ⟨p, behind, hg'⟩ := hrow.stands hg
  exact laidOut_of_not_feed hg' hu (hfeed g hg u hu) n m

/-- A string on two lines. -/
def twoLines : List Char := ['"', 'a', '\n', ' ', ' ', 'b', '"']

theorem emitted_tokens_two_lines :
    let emitted := (Lines.render (Lines.nest^[4] (codeLines (.ofList twoLines)))).toList
    scan (.closer '\x7d') (some '\x7b') (twoLines ++ ['\x7d']) = .ok twoLines ∧
      ([] : List Char).head? ≠ some '\'' ∧
    ∃ gs hs, Row (some '\x7b') gs ['\x7d'] ∧ gs.flatMap Grain.text = twoLines ∧
      (∀ g ∈ gs, g.text ≠ quotedEnd) ∧
      (4 = 0 → ¬ quotedEnd <:+: emitted) ∧ Row (some '\n') hs [] ∧ hs.flatMap Grain.text = emitted ∧
        outline hs ≠ outline gs := by
  intro emitted
  have hscan : scan (.closer '\x7d') (some '\x7b') (twoLines ++ ['\x7d']) = .ok twoLines := by
    decide
  have hafter : ([] : List Char).head? ≠ some '\'' := by decide
  let string : Grain := .covered .string ['"'] twoLines.tail
  have hbody : UpToUnescaped '"' twoLines.tail := by
    have hother : ∀ {c : Char} {u : List Char}, c ∈ ['a', '\n', ' ', 'b'] → UpToUnescaped '"' u →
        UpToUnescaped '"' (c :: u) := by
      intro c u hc
      have hne : ∀ c ∈ ['a', '\n', ' ', 'b'], c ≠ '"' ∧ c ≠ '\\' := by decide
      exact .other (hne c hc).1 (hne c hc).2
    exact hother (by simp)
      (hother (by simp) (hother (by simp) (hother (by simp) (hother (by simp) .mark))))
  have hrow : Row (some '\x7b') [string] ['\x7d'] := ⟨⟨.string _, hbody⟩, trivial⟩
  have hquoted : ∀ g ∈ [string], g.text ≠ quotedEnd := by
    intro g hg
    obtain rfl := List.mem_singleton.mp hg
    decide
  have hdepth : 4 = 0 → ¬ quotedEnd <:+: emitted := fun h => by cases h
  obtain ⟨⟨hs, hrow', htext⟩, htokens⟩ :=
    (emitted_tokens hscan 4 hafter).2 [string] [] hrow rfl hquoted hdepth
  obtain ⟨-, hiff, -⟩ := htokens hs hrow' htext
  have hchanged : laidOut 4 (sharedMargin (Text.dropBlankEnds (Text.lines twoLines))) twoLines ≠
      twoLines := by decide
  exact ⟨hscan, hafter, [string], hs, hrow, rfl, hquoted, hdepth, hrow', htext,
    fun h => hchanged (hiff.mp h string List.mem_cons_self twoLines rfl)⟩

end
end Templating.Unit
