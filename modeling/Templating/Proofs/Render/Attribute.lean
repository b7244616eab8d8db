import Templating.Proofs.Render.Encoded
import Templating.Proofs.Render.Writer
import Templating.Render.Script

/-! What a whole attribute writes. Each part appends the text of its value behind its lead, if the
value is not nothing; the attribute's own texts stand around the parts, unless its only part leaves
it out. -/
namespace Templating.Render
variable {τ ε : Type} {nested : Nested τ ε}

/-- A part of an attribute. Fixed text is never encoded. -/
structure AttributePart (τ : Type) where
  lead : String
  value : Value τ
  fixed : Bool := false

def ContentKind.shown : ContentKind → String → String
  | .html, s => encode s
  | .text, s => s

/-- The text of a value that is written without an error, from one world to the next. A template is
rendered on the way. -/
inductive Value.Shows (nested : Nested τ ε) (kind : ContentKind) (token : Token) (fixed : Bool) :
    Value τ → String → World τ ε → World τ ε → Prop
  | null (w) : Shows nested kind token fixed .null "" w w
  | boolean (b w) : Shows nested kind token fixed (.boolean b) (if b then "true" else "false") w w
  | text (s w) : Shows nested kind token fixed (.text s) (if fixed then s else kind.shown s) w w
  | encoded (e w) : Shows nested kind token fixed (.encoded e) e.text w w
  | template {t s w w'} (h : (nested t token).Gives w (.ok s) w') :
      Shows nested kind token fixed (.template t) s w w'
  | display (chunks w) :
      Shows nested kind token fixed (.display ⟨chunks, false⟩) (kind.shown (String.join chunks)) w w

/-- The texts of the parts, one after the other. -/
inductive AttributePart.Show (nested : Nested τ ε) (kind : ContentKind) (token : Token) :
    List (AttributePart τ) → List String → World τ ε → World τ ε → Prop
  | nil (w) : Show nested kind token [] [] w w
  | cons {p ps s ss w w' w''} (h : p.value.Shows nested kind token p.fixed s w w')
      (hs : Show nested kind token ps ss w' w'') :
      Show nested kind token (p :: ps) ((if p.value.isNull then "" else p.lead ++ s) :: ss) w w''

def attributeText (kind : ContentKind) (name opening closing : String) :
    List (AttributePart τ) → List String → String
  | [⟨"", .null, _⟩], _ => ""
  | [⟨"", .boolean false, _⟩], _ => ""
  | [⟨"", .boolean true, fixed⟩], _ =>
    opening ++ (if fixed then name else kind.shown name) ++ closing
  | _, texts => opening ++ String.join texts ++ closing

def writePart (p : AttributePart τ) : Program (writing τ ε) (Except RenderError Unit) :=
  .perform (.part p.lead p.value p.fixed) .done

def writeParts (parts : List (AttributePart τ)) :
    List (Program (writing τ ε) (Except RenderError Unit)) :=
  parts.map writePart ++ [.perform .endAttribute .done]

/-- Begins an attribute for as many parts as there are, writes them and ends it, as
long as nothing fails. -/
def writeAttribute (name opening closing : String) (parts : List (AttributePart τ)) :
    Program (writing τ ε) (Except RenderError Unit) :=
  Script.inTurn (.perform (.beginAttribute name opening closing parts.length) .done ::
    writeParts parts)

theorem gives_inTurn {S : Signature} {σ : Type}
    {handle : (op : S.Op) → σ → Run τ ε (S.Reply op × σ)}
    {p : Program S (Except RenderError Unit)} {ps : List (Program S (Except RenderError Unit))}
      {s s' s'' : σ}
    {r : Except RenderError Unit} {w w' w'' : World τ ε}
      (hp : (p.run handle s).Gives w (.ok (), s') w')
    (hps : ((Script.inTurn ps).run handle s').Gives w' (r, s'') w'') :
    ((Script.inTurn (p :: ps)).run handle s).Gives w (r, s'') w'' :=
  gives_run_bind hp hps

namespace Writer
variable {x : Writer} {w w' : World τ ε}

/-! One part -/

@[simp] theorem literal_kind (x : Writer) (s : String) : (x.literal s).kind = x.kind := rfl

theorem literal_literal (x : Writer) (s t : String) :
    (x.literal s).literal t = x.literal (s ++ t) := by
  simp [literal, String.append_assoc]

theorem literal_empty (x : Writer) : x.literal "" = x := by simp [literal]

theorem pieces_eq (x : Writer) (chunks : List String) :
    x.pieces chunks = x.literal (x.kind.shown (String.join chunks)) := by
  cases h : x.kind with
  | html => simp [pieces, h, literal, ContentKind.shown, encodeChunks_eq]
  | text => simp [pieces, h, ContentKind.shown]

theorem gives_write {v : Value τ} {s : String} {fixed : Bool}
    (h : v.Shows nested x.kind x.token fixed s w w')
    (hv : ∀ t, v = .text t → fixed = false) :
    (complete nested (x.write v)).Gives w (.ok (), x.literal s) w' := by
  cases h with
  | null => exact gives_pure.mpr ⟨by rw [literal_empty], rfl⟩
  | boolean b => exact gives_pure.mpr ⟨rfl, rfl⟩
  | text t =>
    obtain rfl := hv t rfl
    refine gives_pure.mpr ⟨?_, rfl⟩
    rw [pieces_eq, String.join_cons, String.join_nil, String.append_empty]
    rfl
  | encoded e => exact gives_pure.mpr ⟨rfl, rfl⟩
  | template ht => exact ht.bind (gives_pure.mpr ⟨rfl, rfl⟩)
  | display chunks => exact gives_pure.mpr ⟨by rw [pieces_eq]; rfl, rfl⟩

theorem gives_followPart {v : Value τ} {s : String} {fixed : Bool} (lead : String)
    (h : v.Shows nested x.kind x.token fixed s w w') :
    (complete nested (x.followPart lead fixed v)).Gives w
      (.ok (), x.literal (if v.isNull then "" else lead ++ s)) w' := by
  have hlead : (∀ t, v = .text t → fixed = false) →
      (complete nested ((x.literal lead).write v)).Gives w (.ok (), x.literal (lead ++ s)) w' := by
    intro hv
    have hwrite := gives_write (x := x.literal lead) h hv
    rwa [literal_literal] at hwrite
  cases v with
  | null =>
    cases h
    exact gives_pure.mpr ⟨by simp [Value.isNull, literal_empty], rfl⟩
  | text t =>
    cases fixed with
    | true =>
      cases h
      exact gives_pure.mpr ⟨by rw [literal_literal]; rfl, rfl⟩
    | false => exact hlead fun _ _ => rfl
  | boolean b => exact hlead fun _ h => by cases h
  | encoded e => exact hlead fun _ h => by cases h
  | template t => exact hlead fun _ h => by cases h
  | display d => exact hlead fun _ h => by cases h

theorem endAttribute_eq (x : Writer) {a : OpenAttribute} (ha : x.attribute? = some a) :
    x.endAttribute = (.ok (),
      { x.literal (if a.suppressed then "" else a.closing) with attribute? := none }) := by
  cases hs : a.suppressed <;> simp [endAttribute, ha, hs, literal]

/-- A part of several, or the only one behind a lead, has no say in whether
the attribute is written. -/
theorem gives_part_of_count {a : OpenAttribute} {p : AttributePart τ} {s : String}
    (ha : x.attribute? = some a) (hs : a.suppressed = false) (hcount : a.count ≠ 1)
    (h : p.value.Shows nested x.kind x.token p.fixed s w w') :
    (complete nested (x.part p.lead p.value p.fixed)).Gives w
      (.ok (), x.literal (if p.value.isNull then "" else p.lead ++ s)) w' := by
  have hpart : x.part p.lead p.value p.fixed = x.followPart p.lead p.fixed p.value := by
    simp [part, ha, hs, hcount]
  rw [hpart]
  exact gives_followPart p.lead h

theorem gives_only_part {a : OpenAttribute} {p : AttributePart τ} {s : String}
    (ha : x.attribute? = some a) (hs : a.suppressed = false) (hcount : a.count = 1)
    (h : p.value.Shows nested x.kind x.token p.fixed s w w') :
    ∃ y, (complete nested (x.part p.lead p.value p.fixed)).Gives w (.ok (), y) w' ∧
      y.endAttribute = (.ok (), { x.literal (attributeText x.kind a.name a.opening a.closing [p]
        [if p.value.isNull then "" else p.lead ++ s]) with attribute? := none }) := by
  obtain ⟨lead, v, fixed⟩ := p
  have hopened : ∀ {u : Value τ} {t : String}, u.Shows nested x.kind x.token fixed t w w' →
      ∃ y,
        (complete nested ((x.literal a.opening).followPart lead fixed u)).Gives w (.ok (), y) w' ∧
        y.endAttribute = (.ok (),
          { x.literal (a.opening ++ (if u.isNull then "" else lead ++ t) ++ a.closing) with
          attribute? := none }) := by
    intro u t hu
    refine ⟨_, gives_followPart (x := x.literal a.opening) lead hu, ?_⟩
    rw [literal_literal, endAttribute_eq (x.literal _) ha, literal_literal, hs]
    rfl
  have hleft :
      (complete nested
        (.done (.ok ()) { x with attribute? := some { a with suppressed := true } })).Gives w
        (.ok (), { x with attribute? := some { a with suppressed := true } }) w :=
    gives_pure.mpr ⟨rfl, rfl⟩
  have hnothing : { x with attribute? := some { a with suppressed := true } }.endAttribute =
      (.ok (), { x.literal "" with attribute? := none }) :=
        endAttribute_eq { x with attribute? := _ } rfl
  by_cases hlead : lead = ""
  · subst hlead
    cases v with
    | null =>
      cases h
      refine ⟨_, ?_, hnothing⟩
      simpa [part, ha, hs, hcount] using hleft
    | boolean b =>
      cases h
      cases b with
      | false =>
        refine ⟨_, ?_, hnothing⟩
        simpa [part, ha, hs, hcount] using hleft
      | true =>
        obtain ⟨y, hy, hend⟩ := hopened (.text a.name w)
        refine ⟨y, by simpa [part, ha, hs, hcount] using hy, ?_⟩
        rw [hend]
        simp [attributeText, Value.isNull]
    | text t | encoded e | template t | display d =>
      obtain ⟨y, hy, hend⟩ := hopened h
      refine ⟨y, by simpa [part, ha, hs, hcount] using hy, ?_⟩
      rw [hend]
      simp [attributeText, Value.isNull]
  · obtain ⟨y, hy, hend⟩ := hopened h
    refine ⟨y, by simpa [part, ha, hs, hcount, hlead] using hy, ?_⟩
    rw [hend]
    simp [attributeText, hlead]

/-! All parts -/

theorem gives_end {a : OpenAttribute} (ha : x.attribute? = some a) :
    ((Script.inTurn (writeParts [])).run (Writer.perform nested) x).Gives w
      (.ok (), { x.literal (if a.suppressed then "" else a.closing) with attribute? := none })
        w := by
  refine gives_inTurn (gives_run_perform ?_) (gives_pure.mpr ⟨rfl, rfl⟩)
  exact gives_pure.mpr ⟨endAttribute_eq x ha, rfl⟩

theorem gives_parts {a : OpenAttribute} {parts : List (AttributePart τ)} {texts : List String}
    (ha : x.attribute? = some a) (hs : a.suppressed = false) (hcount : a.count ≠ 1)
    (h : AttributePart.Show nested x.kind x.token parts texts w w') :
    ((Script.inTurn (writeParts parts)).run (Writer.perform nested) x).Gives w
      (.ok (), { x.literal (String.join texts ++ a.closing) with attribute? := none }) w' := by
  induction parts generalizing x texts w with
  | nil =>
    cases h
    rw [show String.join [] ++ a.closing = if a.suppressed then "" else a.closing by simp [hs]]
    exact gives_end ha
  | cons p ps ih =>
    cases h with
    | @cons _ _ s _ _ _ _ hp hps =>
      have hrest := ih (x := x.literal (if p.value.isNull then "" else p.lead ++ s)) ha hps
      rw [literal_literal, ← String.append_assoc, ← String.join_cons] at hrest
      exact gives_inTurn (gives_run_perform (gives_part_of_count ha hs hcount hp)) hrest

end Writer

/-- An attribute that is begun for as many parts as follow, on a writer that writes none, appends
its text and leaves the writer as it was otherwise. If its values are written without an error,
nothing else fails. -/
theorem attribute_output {x : Writer} (hx : x.attribute? = none) (name opening closing : String)
    {parts : List (AttributePart τ)} {texts : List String} {w w' : World τ ε}
    (h : AttributePart.Show nested x.kind x.token parts texts w w') :
    ((writeAttribute name opening closing parts).run (Writer.perform nested) x).Gives w
      (.ok (), x.literal (attributeText x.kind name opening closing parts texts)) w' := by
  obtain ⟨kind, token, output, _⟩ := x
  obtain rfl : _ = none := hx
  by_cases hcount : parts.length = 1
  · obtain ⟨p, rfl⟩ := List.length_eq_one_iff.mp hcount
    cases h with
    | cons hp hnil =>
      cases hnil
      let a : OpenAttribute := { name, opening, closing, count := 1 }
      obtain ⟨y, hpart, hend⟩ :=
        Writer.gives_only_part (x := ⟨kind, token, output, some a⟩) (a := a) rfl rfl rfl hp
      have hbegin : Writer.beginAttribute ⟨kind, token, output, none⟩ name opening closing 1 =
          (.ok (), ⟨kind, token, output, some a⟩) := rfl
      refine gives_inTurn (gives_run_perform (gives_pure.mpr ⟨hbegin, rfl⟩)) ?_
      refine gives_inTurn (gives_run_perform hpart) ?_
      refine gives_inTurn (gives_run_perform (gives_pure.mpr ⟨hend, rfl⟩))
        (gives_pure.mpr ⟨rfl, rfl⟩)
  · let a : OpenAttribute := { name, opening, closing, count := parts.length }
    let y : Writer := ⟨kind, token, output ++ opening, some a⟩
    have hbegin : Writer.beginAttribute ⟨kind, token, output, none⟩ name opening closing
        parts.length = (.ok (), y) := by
      simp [Writer.beginAttribute, hcount, Writer.literal, y, a]
    have htext : attributeText kind name opening closing parts texts =
        opening ++ (String.join texts ++ closing) := by
      unfold attributeText
      split
      · exact absurd rfl hcount
      · exact absurd rfl hcount
      · exact absurd rfl hcount
      · rw [String.append_assoc]
    have hparts := Writer.gives_parts (x := y) (a := a) rfl rfl hcount h
    refine gives_inTurn (gives_run_perform (gives_pure.mpr ⟨hbegin, rfl⟩)) ?_
    rw [htext]
    simpa [Writer.literal, y, String.append_assoc] using hparts

def mixedParts : List (AttributePart Unit) :=
  [⟨"", .text "a<b", false⟩, ⟨" ", .null, false⟩, ⟨" & ", .template (), false⟩,
    ⟨" ", .boolean false, true⟩,
    ⟨"<", .text "<", true⟩, ⟨"", .display ⟨["\"", "'"], false⟩, true⟩]

theorem attribute_output_mixed :
    let x : Writer := { kind := .html, token := ⟨0⟩, output := "<p" }
    let texts := ["a&lt;b", "", " & <b>x</b>", " false", "<<", "&quot;&#x27;"]
    x.attribute? = none ∧ AttributePart.Show bold x.kind x.token mixedParts texts {} {} ∧
    ((writeAttribute "title" " title=[" "]" mixedParts).run (Writer.perform bold) x).Gives {}
      (.ok (), { x with output := "<p title=[a&lt;b & <b>x</b> false<<&quot;&#x27;]" }) {} := by
  intro x texts
  have hbold : (bold () x.token).Gives ({} : World Unit Unit) (.ok "<b>x</b>") {} := rfl
  have h : AttributePart.Show bold x.kind x.token mixedParts texts {} {} := by
    refine .cons (s := "a&lt;b") (.text "a<b" {}) ?_
    refine .cons (s := "") (.null {}) ?_
    refine .cons (p := ⟨" & ", .template (), false⟩) (.template hbold) ?_
    refine .cons (s := "false") (.boolean false {}) ?_
    refine .cons (s := "<") (.text "<" {}) ?_
    exact .cons (s := "&quot;&#x27;") (.display ["\"", "'"] {}) (.nil {})
  exact ⟨rfl, h, attribute_output rfl "title" " title=[" "]" h⟩

end Templating.Render
