import Templating.Proofs.Render.Trace
import Templating.Proofs.Text.Blank

/-! Where the output of a writer comes from. Each operation contributes pieces of its own, which
stand in the output in turn; in HTML the characters that mean something come
from pieces taken verbatim. -/
namespace Templating.Render
variable {τ ε : Type}

/-- A piece of output: text that is taken as it is, or the text of a value. -/
inductive Segment where
  | verbatim (s : String)
  | dynamic (s : String)
  deriving DecidableEq, Repr

def escaped (c : Char) : List Char :=
  match entity? c with
  | some e => e.toList
  | none => [c]

namespace Segment

def ofText (fixed : Bool) (s : String) : Segment := if fixed then verbatim s else dynamic s

def isVerbatim : Segment → Bool
  | verbatim _ => true
  | dynamic _ => false

def chars : ContentKind → Segment → List Char
  | _, verbatim s => s.toList
  | .text, dynamic s => s.toList
  | .html, dynamic s => s.toList.flatMap escaped

def marked (k : ContentKind) (x : Segment) : List (Char × Bool) := (x.chars k).map (·, x.isVerbatim)

end Segment

/-- The pieces that a value contributes where it is written, and what the writing comes to. Text may
be fixed. -/
inductive Shown (nested : Nested τ ε) (token : Token) (fixed : Bool) :
    Value τ → List Segment → Except RenderError Unit → Prop
  | null : Shown nested token fixed .null [] (.ok ())
  | boolean (b : Bool) :
      Shown nested token fixed (.boolean b) [.dynamic (if b then "true" else "false")] (.ok ())
  | text (s : String) : Shown nested token fixed (.text s) [.ofText fixed s] (.ok ())
  | encoded (e : Encoded) : Shown nested token fixed (.encoded e) [.verbatim e.text] (.ok ())
  | template {t s w w'} (h : (nested t token).Gives w (.ok s) w') :
      Shown nested token fixed (.template t) [.verbatim s] (.ok ())
  | failure {t e w w'} (h : (nested t token).Gives w (.error e) w') :
      Shown nested token fixed (.template t) [] (.error e)
  | display (chunks : List String) (fails : Bool) :
      Shown nested token fixed (.display ⟨chunks, fails⟩) [.dynamic (String.join chunks)]
        (if fails then .error .sink else .ok ())

/-- The same for a part of an attribute, of which the lead comes first. -/
inductive Led (nested : Nested τ ε) (token : Token) (lead : String) (fixed : Bool) :
    Value τ → List Segment → Except RenderError Unit → Prop
  | null : Led nested token lead fixed .null [] (.ok ())
  | value {v xs r} (hv : v.isNull = false) (h : Shown nested token fixed v xs r) :
      Led nested token lead fixed v (.verbatim lead :: xs) r

/-- The pieces that an operation contributes, with the attribute that is open before it and the one
that is open after it. -/
inductive Contributes (nested : Nested τ ε) (token : Token) :
    Option OpenAttribute → (writing τ ε).Done → List Segment → Option OpenAttribute → Prop
  | literal (a? : Option OpenAttribute) (s : String) :
      Contributes nested token a? ⟨.literal s, ()⟩ [.verbatim s] a?
  | write (a? : Option OpenAttribute) {v xs r} (h : Shown nested token false v xs r) :
      Contributes nested token a? ⟨.write v, r⟩ xs a?
  | beginOne (name opening closing : String) :
      Contributes nested token none ⟨.beginAttribute name opening closing 1, .ok ()⟩ []
        (some { name, opening, closing, count := 1 })
  | beginMany {count : Nat} (hcount : count ≠ 1) (name opening closing : String) :
      Contributes nested token none ⟨.beginAttribute name opening closing count, .ok ()⟩
        [.verbatim opening]
        (some { name, opening, closing, count })
  | beginInside (a : OpenAttribute) (name opening closing : String) (count : Nat) :
      Contributes nested token (some a) ⟨.beginAttribute name opening closing count,
        .error (.attributeState .nested)⟩ [] (some a)
  | partOutside (lead : String) (v : Value τ) (fixed : Bool) :
      Contributes nested token none ⟨.part lead v fixed,
        .error (.attributeState .partOutside)⟩ [] none
  | partSuppressed {a : OpenAttribute} (ha : a.suppressed = true) (lead : String) (v : Value τ)
      (fixed : Bool) :
      Contributes nested token (some a) ⟨.part lead v fixed, .ok ()⟩ [] (some a)
  | partOfMany {a : OpenAttribute} (ha : a.suppressed = false) (hcount : a.count ≠ 1)
      {lead v fixed xs r}
      (h : Led nested token lead fixed v xs r) :
      Contributes nested token (some a) ⟨.part lead v fixed, r⟩ xs (some a)
  | partVanishes {a : OpenAttribute} (ha : a.suppressed = false) (hcount : a.count = 1)
      {v : Value τ}
      (hv : v = .null ∨ v = .boolean false) (fixed : Bool) :
      Contributes nested token (some a) ⟨.part "" v fixed, .ok ()⟩ []
        (some { a with suppressed := true })
  | partTrue {a : OpenAttribute} (ha : a.suppressed = false) (hcount : a.count = 1) (fixed : Bool) :
      Contributes nested token (some a) ⟨.part "" (.boolean true) fixed, .ok ()⟩
        [.verbatim a.opening, .verbatim "", .ofText fixed a.name] (some a)
  | partOnly {a : OpenAttribute} (ha : a.suppressed = false) (hcount : a.count = 1)
      {lead v fixed xs r}
      (hv : lead ≠ "" ∨ v ≠ .null ∧ ∀ b, v ≠ .boolean b) (h : Led nested token lead fixed v xs r) :
      Contributes nested token (some a) ⟨.part lead v fixed, r⟩ (.verbatim a.opening :: xs) (some a)
  | endWritten {a : OpenAttribute} (ha : a.suppressed = false) :
      Contributes nested token (some a) ⟨.endAttribute, .ok ()⟩ [.verbatim a.closing] none
  | endSuppressed {a : OpenAttribute} (ha : a.suppressed = true) :
      Contributes nested token (some a) ⟨.endAttribute, .ok ()⟩ [] none
  | endOutside : Contributes nested token none
      ⟨.endAttribute, .error (.attributeState .notStarted)⟩ [] none
  | output (a? : Option OpenAttribute) (s : String) : Contributes nested token a? ⟨.output, s⟩ [] a?
  | kind (a? : Option OpenAttribute) (k : ContentKind) :
      Contributes nested token a? ⟨.kind, k⟩ [] a?
  | cancel (a? : Option OpenAttribute) : Contributes nested token a? ⟨.cancel, ()⟩ [] a?
  | check (a? : Option OpenAttribute) (r : Except RenderError Unit) :
      Contributes nested token a? ⟨.check, r⟩ [] a?
  | suspend (a? : Option OpenAttribute) : Contributes nested token a? ⟨.suspend, ()⟩ [] a?
  | report (a? : Option OpenAttribute) (e : ε) : Contributes nested token a? ⟨.report e, ()⟩ [] a?

/-- The pieces of operations in a row. -/
inductive Contributions (nested : Nested τ ε) (token : Token) :
    Option OpenAttribute → List (writing τ ε).Done → List Segment → Option OpenAttribute → Prop
  | nil (a? : Option OpenAttribute) : Contributions nested token a? [] [] a?
  | cons {a? b? c? d ds xs ys} (h : Contributes nested token a? d xs b?)
      (hs : Contributions nested token b? ds ys c?) :
      Contributions nested token a? (d :: ds) (xs ++ ys) c?

/-! Encoded text -/

theorem toList_encodeChar (out : String) (c : Char) :
    (encodeChar out c).toList = out.toList ++ escaped c := by
  unfold encodeChar escaped
  cases entity? c with
  | some e => simp
  | none => simp

theorem toList_encodeOnto (out s : String) :
    (encodeOnto out s).toList = out.toList ++ s.toList.flatMap escaped := by
  have hfold : ∀ (cs : List Char) (out : String), (cs.foldl encodeChar out).toList =
      out.toList ++ cs.flatMap escaped := by
    intro cs
    induction cs with
    | nil => simp
    | cons c cs ih =>
      intro out
      rw [List.foldl_cons, ih, toList_encodeChar, List.flatMap_cons, List.append_assoc]
  exact hfold s.toList out

theorem toList_encodeChunks (out : String) (chunks : List String) :
    (encodeChunks out chunks).toList = out.toList ++ (String.join chunks).toList.flatMap
      escaped := by
  unfold encodeChunks
  induction chunks generalizing out with
  | nil => simp
  | cons s chunks ih =>
    rw [List.foldl_cons, ih, toList_encodeOnto, String.join_cons, String.toList_append,
      List.flatMap_append, List.append_assoc]

/-! One operation -/

namespace Writer

/-- The second writer is the first with these pieces behind its output. -/
structure Adds (x y : Writer) (xs : List Segment) : Prop where
  output : y.output.toList = x.output.toList ++ xs.flatMap (Segment.chars x.kind)
  attribute? : y.attribute? = x.attribute?
  akin : x.Akin y

variable {x y z : Writer} {xs ys : List Segment}

theorem Adds.refl (x : Writer) : x.Adds x [] := ⟨by simp, rfl, .refl x⟩

theorem Adds.append (h : x.Adds y xs) (h' : y.Adds z ys) : x.Adds z (xs ++ ys) where
  output := by rw [h'.output, h.output, h.akin.kind, List.flatMap_append, List.append_assoc]
  attribute? := h'.attribute?.trans h.attribute?
  akin := h.akin.trans h'.akin

theorem adds_literal (x : Writer) (s : String) : x.Adds (x.literal s) [.verbatim s] where
  output := by simp [literal, Segment.chars]
  attribute? := rfl
  akin := akin_literal x s

theorem adds_pieces (x : Writer) (chunks : List String) :
    x.Adds (x.pieces chunks) [.dynamic (String.join chunks)] where
  output := by
    cases h : x.kind with
    | html => simp [pieces, h, Segment.chars, toList_encodeChunks]
    | text => simp [pieces, h, Segment.chars, literal]
  attribute? := pieces_attribute? x chunks
  akin := akin_pieces x chunks

theorem adds_boolean (x : Writer) (b : Bool) :
    x.Adds (x.literal (if b then "true" else "false"))
      [.dynamic (if b then "true" else "false")] where
  output := by cases b <;> cases h : x.kind <;> simp [literal, Segment.chars, h] <;> decide
  attribute? := rfl
  akin := akin_literal x _

variable {nested : Nested τ ε} {r : Except RenderError Unit} {w w' : World τ ε}

theorem eq_of_gives_done {r' : Except RenderError Unit} {y' : Writer}
    (h : (complete nested (.done r' y')).Gives w (r, y) w') : r' = r ∧ y' = y := by
  obtain ⟨hy, -⟩ := gives_pure.mp h
  simpa using hy

theorem shown_write {v : Value τ} (h : (complete nested (x.write v)).Gives w (r, y) w')
    (fixed : Bool) (hv : ∀ s, v = .text s → fixed = false) :
    ∃ xs, Shown nested x.token fixed v xs r ∧ x.Adds y xs := by
  cases v with
  | null =>
    obtain ⟨rfl, rfl⟩ := eq_of_gives_done h
    exact ⟨_, .null, .refl x⟩
  | boolean b =>
    obtain ⟨rfl, rfl⟩ := eq_of_gives_done h
    exact ⟨_, .boolean b, adds_boolean x b⟩
  | text s =>
    obtain ⟨rfl, rfl⟩ := eq_of_gives_done h
    obtain rfl := hv s rfl
    have hs := adds_pieces x [s]
    exact ⟨_, .text s, by simpa [Segment.ofText] using hs⟩
  | encoded e =>
    obtain ⟨rfl, rfl⟩ := eq_of_gives_done h
    exact ⟨_, .encoded e, adds_literal x e.text⟩
  | display d =>
    obtain ⟨rfl, rfl⟩ := eq_of_gives_done h
    exact ⟨_, .display d.chunks d.fails, adds_pieces x d.chunks⟩
  | template t =>
    obtain ⟨s, w₁, ht, hs⟩ := gives_bind.mp h
    cases s with
    | ok s =>
      obtain ⟨hy, -⟩ := gives_pure.mp hs
      obtain ⟨rfl, rfl⟩ : Except.ok () = r ∧ x.literal s = y := by simpa using hy
      exact ⟨_, .template ht, adds_literal x s⟩
    | error e =>
      obtain ⟨hy, -⟩ := gives_pure.mp hs
      obtain ⟨rfl, rfl⟩ : Except.error e = r ∧ x = y := by simpa using hy
      exact ⟨_, .failure ht, .refl x⟩

theorem led_followPart {v : Value τ} {lead : String} {fixed : Bool}
    (h : (complete nested (x.followPart lead fixed v)).Gives w (r, y) w') :
    ∃ xs, Led nested x.token lead fixed v xs r ∧ x.Adds y xs := by
  have hwrite : ∀ {v : Value τ}, v.isNull = false → (∀ s, v = .text s → fixed = false) →
      (complete nested ((x.literal lead).write v)).Gives w (r, y) w' →
      ∃ xs, Led nested x.token lead fixed v xs r ∧ x.Adds y xs := by
    intro v hnull hv h
    obtain ⟨xs, hxs, hadds⟩ := shown_write h fixed hv
    exact ⟨_, .value hnull hxs, (adds_literal x lead).append hadds⟩
  cases v with
  | null =>
    obtain ⟨rfl, rfl⟩ := eq_of_gives_done h
    exact ⟨_, .null, .refl x⟩
  | text s =>
    cases fixed with
    | true =>
      obtain ⟨rfl, rfl⟩ := eq_of_gives_done h
      exact ⟨_, .value rfl (.text s), (adds_literal x lead).append (adds_literal _ s)⟩
    | false => exact hwrite rfl (fun _ _ => rfl) h
  | boolean b => exact hwrite rfl (fun _ h => by cases h) h
  | encoded e => exact hwrite rfl (fun _ h => by cases h) h
  | template t => exact hwrite rfl (fun _ h => by cases h) h
  | display d => exact hwrite rfl (fun _ h => by cases h) h

theorem led_opened {v : Value τ} {lead : String} {fixed : Bool} {a : OpenAttribute}
    (hx : x.attribute? = some a)
    (h : (complete nested ((x.literal a.opening).followPart lead fixed v)).Gives w (r, y) w') :
    ∃ xs, Led nested x.token lead fixed v xs r ∧ y.attribute? = some a ∧
      y.output.toList = x.output.toList ++ (.verbatim a.opening :: xs).flatMap
        (Segment.chars x.kind) := by
  obtain ⟨xs, hxs, hadds⟩ := led_followPart h
  exact ⟨xs, hxs, hadds.attribute?.trans hx, ((adds_literal x a.opening).append hadds).output⟩

theorem contributes_only {v : Value τ} {fixed : Bool} {a : OpenAttribute}
    (hx : x.attribute? = some a) (hsuppressed : a.suppressed = false) (hcount : a.count = 1)
    (h : (complete nested (x.part "" v fixed)).Gives w (r, y) w') :
    ∃ xs, Contributes nested x.token (some a) ⟨.part "" v fixed, r⟩ xs y.attribute? ∧
      y.output.toList = x.output.toList ++ xs.flatMap (Segment.chars x.kind) := by
  rw [part, hx] at h
  dsimp only at h
  rw [if_neg (by simp [hsuppressed]), if_neg (by simp [hcount]), if_neg (by simp)] at h
  cases v with
  | null =>
    obtain ⟨rfl, rfl⟩ := eq_of_gives_done h
    exact ⟨[], .partVanishes hsuppressed hcount (.inl rfl) fixed, by simp⟩
  | boolean b =>
    cases b with
    | false =>
      obtain ⟨rfl, rfl⟩ := eq_of_gives_done h
      exact ⟨[], .partVanishes hsuppressed hcount (.inr rfl) fixed, by simp⟩
    | true =>
      obtain ⟨xs, hxs, hy, hout⟩ := led_opened hx h
      cases hxs with
      | value _ hs =>
        cases hs with
        | text =>
          rw [hy]
          exact ⟨_, .partTrue hsuppressed hcount fixed, hout⟩
  | text s | encoded e | template t | display d =>
    obtain ⟨xs, hxs, hy, hout⟩ := led_opened hx h
    rw [hy]
    exact ⟨_, .partOnly hsuppressed hcount (.inr (by simp)) hxs, hout⟩

theorem contributes_part {v : Value τ} {lead : String} {fixed : Bool}
    (h : (complete nested (x.part lead v fixed)).Gives w (r, y) w') :
    ∃ xs, Contributes nested x.token x.attribute? ⟨.part lead v fixed, r⟩ xs y.attribute? ∧
      y.output.toList = x.output.toList ++ xs.flatMap (Segment.chars x.kind) := by
  have hpart := h
  rw [part] at h
  cases hx : x.attribute? with
  | none =>
    rw [hx] at h
    obtain ⟨rfl, rfl⟩ := eq_of_gives_done h
    rw [hx]
    exact ⟨[], .partOutside lead v fixed, by simp⟩
  | some a =>
    rw [hx] at h
    dsimp only at h
    cases hsuppressed : a.suppressed with
    | true =>
      rw [if_pos hsuppressed] at h
      obtain ⟨rfl, rfl⟩ := eq_of_gives_done h
      rw [hx]
      exact ⟨[], .partSuppressed hsuppressed lead v fixed, by simp⟩
    | false =>
      rw [if_neg (by simp [hsuppressed])] at h
      by_cases hcount : a.count = 1
      · rw [if_neg (by simp [hcount])] at h
        by_cases hlead : lead = ""
        · subst hlead
          exact contributes_only hx hsuppressed hcount hpart
        · rw [if_pos (by simpa using hlead)] at h
          obtain ⟨xs, hxs, hy, hout⟩ := led_opened hx h
          rw [hy]
          exact ⟨_, .partOnly hsuppressed hcount (.inl hlead) hxs, hout⟩
      · rw [if_pos (by simpa using hcount)] at h
        obtain ⟨xs, hxs, hadds⟩ := led_followPart h
        rw [hadds.attribute?, hx]
        exact ⟨xs, .partOfMany hsuppressed hcount hxs, hadds.output⟩

theorem contributes_beginAttribute (nested : Nested τ ε) (x : Writer)
    (name opening closing : String) (count : Nat) :
    ∃ xs, Contributes nested x.token x.attribute?
        ⟨.beginAttribute name opening closing count,
          (x.beginAttribute name opening closing count).1⟩ xs
        (x.beginAttribute name opening closing count).2.attribute? ∧
      (x.beginAttribute name opening closing count).2.output.toList =
        x.output.toList ++ xs.flatMap (Segment.chars x.kind) := by
  cases hx : x.attribute? with
  | some a =>
    simp only [beginAttribute, hx]
    exact ⟨[], .beginInside a name opening closing count, by simp⟩
  | none =>
    simp only [beginAttribute, hx]
    by_cases hcount : count = 1
    · subst hcount
      exact ⟨[], .beginOne name opening closing, by simp⟩
    · refine ⟨_, .beginMany hcount name opening closing, ?_⟩
      simp [hcount, literal, Segment.chars]

theorem contributes_endAttribute (nested : Nested τ ε) (x : Writer) :
    ∃ xs, Contributes nested x.token x.attribute? ⟨.endAttribute, x.endAttribute.1⟩ xs
      x.endAttribute.2.attribute? ∧
      x.endAttribute.2.output.toList = x.output.toList ++ xs.flatMap (Segment.chars x.kind) := by
  cases hx : x.attribute? with
  | none =>
    simp only [endAttribute, hx]
    exact ⟨[], .endOutside, by simp⟩
  | some a =>
    simp only [endAttribute, hx]
    cases ha : a.suppressed with
    | true => exact ⟨[], .endSuppressed ha, by simp⟩
    | false => exact ⟨_, .endWritten ha, by simp [literal, Segment.chars]⟩

theorem contributes_perform {op : WriterOp τ ε} {r : op.Reply}
    (h : (x.perform nested op).Gives w (r, y) w') :
    ∃ xs, Contributes nested x.token x.attribute? ⟨op, r⟩ xs y.attribute? ∧
      y.output.toList = x.output.toList ++ xs.flatMap (Segment.chars x.kind) := by
  -- operations that leave the writer alone
  have hquiet : ∀ {d : (writing τ ε).Done} {z : Writer},
    Contributes nested x.token x.attribute? d [] x.attribute? → x = z →
      ∃ xs, Contributes nested x.token x.attribute? d xs z.attribute? ∧
        z.output.toList = x.output.toList ++ xs.flatMap (Segment.chars x.kind) := by
    rintro d z hd rfl
    exact ⟨[], hd, by simp⟩
  cases op with
  | literal s =>
    obtain ⟨hy, -⟩ := gives_pure.mp h
    obtain rfl : x.literal s = y := (Prod.mk.inj hy).2
    exact ⟨_, .literal _ s, (adds_literal x s).output⟩
  | write v =>
    obtain ⟨xs, hxs, hadds⟩ := shown_write h false fun _ _ => rfl
    rw [hadds.attribute?]
    exact ⟨xs, .write _ hxs, hadds.output⟩
  | beginAttribute name opening closing count =>
    obtain ⟨hy, -⟩ := gives_pure.mp h
    have hbegin := contributes_beginAttribute nested x name opening closing count
    rwa [hy] at hbegin
  | part lead v fixed => exact contributes_part h
  | endAttribute =>
    obtain ⟨hy, -⟩ := gives_pure.mp h
    have hend := contributes_endAttribute nested x
    rwa [hy] at hend
  | output =>
    obtain ⟨hy, -⟩ := gives_pure.mp h
    exact hquiet (.output _ r) (Prod.mk.inj hy).2
  | kind =>
    obtain ⟨hy, -⟩ := gives_pure.mp h
    exact hquiet (.kind _ r) (Prod.mk.inj hy).2
  | cancel =>
    obtain ⟨_, _, -, hp⟩ := gives_bind.mp h
    exact hquiet (.cancel _) (Prod.mk.inj (gives_pure.mp hp).1).2
  | check =>
    obtain ⟨_, _, -, hp⟩ := gives_bind.mp h
    exact hquiet (.check _ r) (Prod.mk.inj (gives_pure.mp hp).1).2
  | suspend =>
    obtain ⟨_, _, -, hp⟩ := gives_bind.mp h
    exact hquiet (.suspend _) (Prod.mk.inj (gives_pure.mp hp).1).2
  | report e =>
    obtain ⟨_, _, -, hp⟩ := gives_bind.mp h
    exact hquiet (.report _ e) (Prod.mk.inj (gives_pure.mp hp).1).2

end Writer

/-! Runs -/

section
variable {nested : Nested τ ε} {α : Type}

theorem contributions_of_performs {p p' : Program (writing τ ε) α} {x x' : Writer}
    {w w' : World τ ε}
    {ds : List (writing τ ε).Done} (h : Performs (Writer.perform nested) p x w ds p' x' w') :
    x.Akin x' ∧ ∃ xs, Contributions nested x.token x.attribute? ds xs x'.attribute? ∧
      x'.output.toList = x.output.toList ++ xs.flatMap (Segment.chars x.kind) := by
  induction h with
  | none p x w => exact ⟨.refl x, [], .nil _, by simp⟩
  | perform hop _ ih =>
    have hakin := Writer.akin_perform hop
    obtain ⟨xs, hxs, hout⟩ := Writer.contributes_perform hop
    obtain ⟨hrest, ys, hys, hout'⟩ := ih
    rw [hakin.token] at hys
    rw [hakin.kind, hout] at hout'
    exact ⟨hakin.trans hrest, xs ++ ys, .cons hxs hys,
      by rw [hout', List.flatMap_append, List.append_assoc]⟩

theorem contributions_onePart {token : Token} {name opening closing lead : String} {v : Value τ}
    {fixed : Bool}
    {r₁ r₂ r₃ : Except RenderError Unit} {xs : List Segment} {a? : Option OpenAttribute}
    (h : Contributions nested token none
      [⟨.beginAttribute name opening closing 1, r₁⟩, ⟨.part lead v fixed, r₂⟩, ⟨.endAttribute, r₃⟩]
        xs a?) :
    (xs = [] ∧ lead = "" ∧ (v = .null ∨ v = .boolean false)) ∨
      ∃ ys, xs = .verbatim opening :: (ys ++ [.verbatim closing]) ∧
        ¬ (lead = "" ∧ (v = .null ∨ v = .boolean false)) := by
  obtain ⟨_⟩ | ⟨hbegin, hrest⟩ := h
  obtain ⟨_⟩ | ⟨hpart, hlast⟩ := hrest
  obtain ⟨_⟩ | ⟨hend, hnil⟩ := hlast
  cases hnil
  cases hbegin with
  | beginMany hcount => exact absurd rfl hcount
  | beginOne =>
    cases hpart with
    | partSuppressed ha => cases ha
    | partOfMany _ hcount => exact absurd rfl hcount
    | partVanishes _ _ hv =>
      cases hend with
      | endWritten ha => cases ha
      | endSuppressed => exact .inl ⟨rfl, rfl, hv⟩
    | partTrue =>
      cases hend with
      | endWritten => exact .inr ⟨[_, _], rfl, by simp⟩
      | endSuppressed ha => cases ha
    | partOnly _ _ hv _ =>
      cases hend with
      | endWritten =>
        refine .inr ⟨_, by simp; rfl, ?_⟩
        rintro ⟨hlead, hvoid⟩
        rcases hv with hv | ⟨hnull, hboolean⟩
        · exact hv hlead
        · rcases hvoid with hvoid | hvoid
          · exact hnull hvoid
          · exact hboolean false hvoid
      | endSuppressed ha => cases ha

end

/-! Characters that mean something -/

def entities : List String := ["&amp;", "&lt;", "&gt;", "&quot;", "&#x27;"]

/-- Output in which a character that means something was taken as it is, or is the first of an
entity none of which was. -/
structure Safe (out : List (Char × Bool)) : Prop where
  marks : ∀ c ∈ ['<', '>', '"', '\''], (c, false) ∉ out
  ampersand : ∀ {before after}, out = before ++ ('&', false) :: after →
    ∃ e ∈ entities, e.toList.map (·, false) <+: ('&', false) :: after

theorem entity?_eq_none {c : Char} (hc : c ∉ ['<', '>', '"', '\'', '&']) : entity? c = none := by
  simp only [List.mem_cons, List.not_mem_nil, or_false, not_or] at hc
  obtain ⟨hlt, hgt, hquote, happos, hamp⟩ := hc
  unfold entity?
  split <;> first | contradiction | rfl

theorem escaped_cases (c : Char) : (escaped c = [c] ∧ c ∉ ['<', '>', '"', '\'', '&']) ∨
    ∃ e ∈ entities, escaped c = e.toList := by
  by_cases hc : c ∈ ['<', '>', '"', '\'', '&']
  · right
    simp only [List.mem_cons, List.not_mem_nil, or_false] at hc
    rcases hc with rfl | rfl | rfl | rfl | rfl
    · exact ⟨"&lt;", by decide, rfl⟩
    · exact ⟨"&gt;", by decide, rfl⟩
    · exact ⟨"&quot;", by decide, rfl⟩
    · exact ⟨"&#x27;", by decide, rfl⟩
    · exact ⟨"&amp;", by decide, rfl⟩
  · exact .inl ⟨by rw [escaped, entity?_eq_none hc], hc⟩

theorem safe_nil : Safe [] := ⟨fun _ _ h => (List.not_mem_nil h).elim, fun h => by simp at h⟩

section
variable {out : List (Char × Bool)}

theorem Safe.cons (h : Safe out) {c : Char} {b : Bool}
    (hc : b = false → c ∉ ['<', '>', '"', '\'', '&']) :
    Safe ((c, b) :: out) where
  marks d hd hmem := by
    rcases List.mem_cons.mp hmem with heq | hmem
    · obtain ⟨rfl, hb⟩ := Prod.mk.inj heq
      exact hc hb.symm (List.mem_append_left ['&'] hd)
    · exact h.marks d hd hmem
  ampersand {before after} heq := by
    cases before with
    | nil =>
      obtain ⟨hfirst, -⟩ := List.cons.inj heq
      obtain ⟨rfl, hb⟩ := Prod.mk.inj hfirst
      exact absurd (by decide) (hc hb)
    | cons d before => exact h.ampersand (List.cons.inj heq).2

theorem Safe.entity (h : Safe out) {e : String} (he : e ∈ entities) :
    Safe (e.toList.map (·, false) ++ out) where
  marks d hd hmem := by
    have hmarks : ∀ e ∈ entities, ∀ d ∈ ['<', '>', '"', '\''], d ∉ e.toList := by decide
    rcases List.mem_append.mp hmem with hmem | hmem
    · obtain ⟨d', hd', heq⟩ := List.mem_map.mp hmem
      obtain ⟨rfl, -⟩ := Prod.mk.inj heq
      exact hmarks e he _ hd hd'
    · exact h.marks d hd hmem
  ampersand {before after} heq := by
    have htail : ∀ e ∈ entities, '&' ∉ e.toList.tail := by decide
    rcases List.append_eq_append_iff.mp heq with ⟨rest, hbefore, hout⟩ | ⟨rest, hentity, hafter⟩
    · exact h.ampersand hout
    · cases rest with
      | nil =>
        have hout : out = [] ++ ('&', false) :: after := hafter.symm
        exact h.ampersand hout
      | cons d rest =>
        obtain ⟨rfl, rfl⟩ := List.cons.inj hafter
        -- an entity has an ampersand at its front only
        cases before with
        | nil =>
          refine ⟨e, he, ?_⟩
          rw [hentity]
          exact ⟨out, rfl⟩
        | cons d before =>
          have hmem : ('&', false) ∈ (e.toList.map (·, false)).tail := by
            rw [hentity]
            exact List.mem_append_right before List.mem_cons_self
          rw [← List.map_tail] at hmem
          obtain ⟨c, hc, hamp⟩ := List.mem_map.mp hmem
          obtain ⟨rfl, -⟩ := Prod.mk.inj hamp
          exact absurd hc (htail e he)

end

theorem safe_segments (xs : List Segment) : Safe (xs.flatMap (Segment.marked .html)) := by
  have hverbatim : ∀ (cs : List Char) {out : List (Char × Bool)}, Safe out →
      Safe (cs.map (·, true) ++ out) := by
    intro cs out h
    induction cs with
    | nil => exact h
    | cons c cs ih => exact ih.cons fun hb => by cases hb
  have hdynamic : ∀ (cs : List Char) {out : List (Char × Bool)}, Safe out →
      Safe ((cs.flatMap escaped).map (·, false) ++ out) := by
    intro cs out h
    induction cs with
    | nil => exact h
    | cons c cs ih =>
      rw [List.flatMap_cons, List.map_append, List.append_assoc]
      rcases escaped_cases c with ⟨hc, hmarks⟩ | ⟨e, he, hc⟩
      · rw [hc]
        exact ih.cons fun _ => hmarks
      · rw [hc]
        exact ih.entity he
  induction xs with
  | nil => exact safe_nil
  | cons x xs ih =>
    rw [List.flatMap_cons]
    cases x with
    | verbatim s => exact hverbatim s.toList ih
    | dynamic s => exact hdynamic s.toList ih

theorem map_fst_marked (k : ContentKind) (xs : List Segment) :
    (xs.flatMap (Segment.marked k)).map (·.1) = xs.flatMap (Segment.chars k) := by
  have hone : ∀ x : Segment, (x.marked k).map (·.1) = x.chars k := fun x => by
    simp [Segment.marked, Function.comp_def]
  rw [List.map_flatMap]
  simp only [hone]

/-- The output of a run is what its operations contribute, in turn: fixed text, safe text and nested
output as they are, all other text encoded once where the content is HTML. An attribute of one part
is written with both its texts or not at all. In HTML every character that means something was then
taken as it is, or begins an entity. -/
theorem output_provenance {nested : Nested τ ε} {α : Type} {p p' : Program (writing τ ε) α}
    {x x' : Writer} {w w' : World τ ε} {ds : List (writing τ ε).Done}
    (h : Performs (Writer.perform nested) p x w ds p' x' w') :
    ∃ xs, Contributions nested x.token x.attribute? ds xs x'.attribute? ∧
      x'.output.toList = x.output.toList ++ xs.flatMap (Segment.chars x.kind) ∧
      (∀ name opening closing lead v fixed r₁ r₂ r₃ ys a?, Contributions nested x.token none
        [⟨.beginAttribute name opening closing 1, r₁⟩, ⟨.part lead v fixed, r₂⟩,
          ⟨.endAttribute, r₃⟩] ys a? →
        (ys = [] ↔ lead = "" ∧ (v = .null ∨ v = .boolean false)) ∧
          (ys = [] ∨ ∃ zs, ys = .verbatim opening :: (zs ++ [.verbatim closing]))) ∧
      (xs.flatMap (Segment.marked x.kind)).map (·.1) = xs.flatMap (Segment.chars x.kind) ∧
      (x.kind = .html → Safe (xs.flatMap (Segment.marked x.kind))) := by
  obtain ⟨-, xs, hxs, hout⟩ := contributions_of_performs h
  refine ⟨xs, hxs, hout, ?_, map_fst_marked x.kind xs, fun hkind => ?_⟩
  · intro name opening closing lead v fixed r₁ r₂ r₃ ys a? hys
    rcases contributions_onePart hys with ⟨rfl, hvoid⟩ | ⟨zs, rfl, hwritten⟩
    · exact ⟨⟨fun _ => hvoid, fun _ => rfl⟩, .inl rfl⟩
    · exact ⟨⟨fun hnil => absurd hnil (List.cons_ne_nil _ _), fun hvoid => absurd hvoid hwritten⟩,
        .inr ⟨zs, rfl⟩⟩
  · rw [hkind]
    exact safe_segments xs

def inSequence (ops : List (WriterOp τ ε)) : Program (writing τ ε) Unit :=
  ops.foldr (fun op p => .perform op fun _ => p) (.done ())

def bold : Nested Unit Unit := fun _ _ => pure "<b>x</b>"

theorem output_provenance_mixed : ∃ ds, Performs (Writer.perform bold)
      (inSequence [.literal "<p", .beginAttribute "a" " a=\"" "\"" 1,
        .part "" (.boolean true) false, .endAttribute,
        .literal ">", .write (.display ⟨["<", "&"], true⟩), .write (.template ())])
      { kind := .html, token := ⟨0⟩ } {} ds (.done ())
      { kind := .html, token := ⟨0⟩, output := "<p a=\"a\">&lt;&amp;<b>x</b>" } {} ∧
    ∃ xs, Contributions bold ⟨0⟩ none ds xs none ∧
      "<p a=\"a\">&lt;&amp;<b>x</b>".toList = xs.flatMap (Segment.chars .html) ∧
      Safe (xs.flatMap (Segment.marked .html)) := by
  have h : ∃ ds, Performs (Writer.perform bold)
      (inSequence [.literal "<p", .beginAttribute "a" " a=\"" "\"" 1,
        .part "" (.boolean true) false, .endAttribute,
        .literal ">", .write (.display ⟨["<", "&"], true⟩), .write (.template ())])
      { kind := .html, token := ⟨0⟩ } {} ds (.done ())
      { kind := .html, token := ⟨0⟩, output := "<p a=\"a\">&lt;&amp;<b>x</b>" } {} := by
    refine ⟨_, .perform (by rfl)
      (.perform (by rfl) (.perform (by rfl) (.perform (by rfl) (.perform (by rfl)
      (.perform (by rfl) (.perform (by rfl) (.none _ _ _)))))))⟩
  obtain ⟨ds, hds⟩ := h
  obtain ⟨xs, hxs, hout, -, -, hsafe⟩ := output_provenance hds
  exact ⟨ds, hds, xs, hxs, hout, hsafe rfl⟩

end Templating.Render
