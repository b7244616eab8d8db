import Templating.Proofs.Code.Boundary
import Templating.Proofs.Code.Extent
import Templating.Proofs.Code.Outline
import Templating.Proofs.Markup.Located
import Templating.Proofs.Markup.Ranges
import Templating.Proofs.Text.Path

/-! The tokens behind a directive's keyword. Each kind of token prescribes a slice of the text in
front of it, and a region is read as far as it is a row of such slices with blanks between them. -/
namespace Templating.Markup.Region
open Code (Finds UpToUnescaped)
open Naming (Path joins joins_of_path not_joins_of_isBlank path_iff)
open Text (Cursor WholeName allBlank byteSize continuesName isBlank leadingName startsWithWord
  trimEnd)

/-- What is left of a text without the blanks at its end. -/
structure Remains (s behind : List Char) : Prop where
  first : ∃ c u, s = c :: u ∧ isBlank c = false
  last : ∃ u c, s = u ++ [c] ∧ isBlank c = false
  blank : ∀ c ∈ behind, isBlank c = true

/-- The slice that a kind of token prescribes in front of a text. -/
def Prescribed : TokenKind → List Char → List Char → Prop
  | .text, s, behind => Remains s behind
  | .type, s, behind => Remains s behind ∧ Code.isType s = true
  | .constraint, s, behind => Remains s behind ∧ startsWithWord ['w', 'h', 'e', 'r', 'e'] s = true
  | .member, s, behind => WholeName s behind
  | .namespacePath, s, behind => Path s ∧ ∀ c ∈ behind.head?, joins c = false
  | .string, s, _ => ∃ u, s = '"' :: u ∧ UpToUnescaped '"' u
  | .boolean, s, behind => WholeName s behind ∧ (s = "true".toList ∨ s = "false".toList)
  | .attribute, s, behind =>
    ∃ code, s = '#' :: '[' :: code ++ [']'] ∧
      Finds (.closer ']') (some '[') (code ++ ']' :: behind) (.ok code)

/-- What stands for a token of the grammar. -/
inductive Slot where
  | token (blanks slice : List Char)
  | skipped (blanks : List Char)

def Slot.text : Slot → List Char
  | token blanks slice => blanks ++ slice
  | skipped blanks => blanks

def Absent (k : TokenKind) (behind : List Char) : Prop :=
  behind = [] ∨ k = .constraint ∧ startsWithWord ['w', 'h', 'e', 'r', 'e'] behind = false

/-- The slot may stand for the token in front of a text. -/
inductive Fits (spec : TokenSpec) : Slot → List Char → Prop
  | token {blanks slice behind : List Char} (hblanks : ∀ c ∈ blanks, isBlank c = true)
      (hslice : Prescribed spec.kind slice behind) : Fits spec (.token blanks slice) behind
  | skipped {blanks behind : List Char} (hoptional : spec.optional = true) (hblanks : ∀ c ∈ blanks,
      isBlank c = true)
      (hfirst : ∀ c ∈ behind.head?, isBlank c = false) (habsent : Absent spec.kind behind) :
      Fits spec (.skipped blanks) behind

/-- Slots for the tokens of a grammar, one behind the other. -/
def Laid : List TokenSpec → List Slot → List Char → Prop
  | [], [], _ => True
  | spec :: specs, slot :: slots, left =>
    Fits spec slot (slots.flatMap Slot.text ++ left) ∧ Laid specs slots left
  | _, _, _ => False

def located : Nat → List TokenSpec → List Slot → List (Located DirectiveToken)
  | i, spec :: specs, .token blanks slice :: slots =>
    let start := i + byteSize blanks
    let stop := start + byteSize slice
    ⟨⟨spec.kind, value spec.kind slice⟩, start, stop⟩ :: located stop specs slots
  | i, _ :: specs, .skipped blanks :: slots => located (i + byteSize blanks) specs slots
  | _, _, _ => []

/-- The first of these tokens cannot be read, or none is left to read and there
is more than blanks. -/
def Stuck : List TokenSpec → List Char → Prop
  | [], left => allBlank left = false
  | spec :: _, left => ∀ slot behind, left = slot.text ++ behind → ¬ Fits spec slot behind

/-- What is kept and what is reported of a region. -/
structure Settled (d : Directive) (i : Nat) (region : List Char)
    (ts : List (Located DirectiveToken)) (fs : List Fault) : Prop where
  accepted : ∀ slots left, region = slots.flatMap Slot.text ++ left → Laid d.tokens slots left →
    allBlank left = true → fs = []
  kept : fs = [] → ∃ slots left, region = slots.flatMap Slot.text ++ left ∧
    Laid d.tokens slots left ∧ allBlank left = true ∧
    ts = located i d.tokens slots
  apart : Between i (i + byteSize region) (ts.map (·.span))
  covered : fs = [] → ∀ u c v, region = u ++ c :: v → isBlank c = false →
    ∃ t ∈ ts, t.span.start ≤ i + byteSize u ∧ i + byteSize u + c.utf8Size ≤ t.span.stop
  refused : fs ≠ [] → (∃ reason start stop, fs = [malformed d reason start stop]) ∧
    ∃ before after slots left, d.tokens = before ++ after ∧ region = slots.flatMap Slot.text ++
      left ∧ Laid before slots left ∧
      Stuck after left ∧ ts = located i before slots

/-! Slices -/

section
variable {k : TokenKind} {s u v b r cs body : List Char}

theorem exists_of_upToUnescaped (h : UpToUnescaped '"' u) :
    ∃ body, u = body ++ ['"'] ∧ ∀ v, stringBody false (body ++ '"' :: v) = some body := by
  induction h with
  | mark => exact ⟨[], rfl, fun _ => rfl⟩
  | escaped c hu ih =>
    obtain ⟨body, rfl, hbody⟩ := ih
    exact ⟨'\\' :: c :: body, rfl, fun v => by simp [stringBody, hbody]⟩
  | @other c u hmark hescape hu ih =>
    obtain ⟨body, rfl, hbody⟩ := ih
    exact ⟨c :: body, rfl,
      fun v => by simp [stringBody, hmark, beq_eq_false_iff_ne.mpr hescape, hbody]⟩

theorem exists_of_stringBody {escaped : Bool} (h : stringBody escaped cs = some body) :
    ∃ v, cs = body ++ '"' :: v ∧
      if escaped then UpToUnescaped '"' ('\\' :: body ++ ['"']) else
        UpToUnescaped '"' (body ++ ['"']) := by
  induction cs generalizing escaped body with
  | nil => cases h
  | cons c cs ih =>
    rw [stringBody] at h
    split at h
    next hquote =>
      obtain rfl := Option.some.inj h
      simp only [Bool.and_eq_true, beq_iff_eq, Bool.not_eq_true'] at hquote
      obtain ⟨rfl, rfl⟩ := hquote
      exact ⟨cs, rfl, .mark⟩
    next hquote =>
      obtain ⟨body', hbody, rfl⟩ := Option.map_eq_some_iff.mp h
      obtain ⟨v, rfl, hend⟩ := ih hbody
      refine ⟨v, rfl, ?_⟩
      cases escaped with
      | true =>
        rw [Bool.not_true, Bool.and_false] at hend
        exact .escaped c hend
      | false =>
        by_cases hescape : c = '\\'
        · subst hescape
          exact hend
        · rw [beq_eq_false_iff_ne.mpr hescape] at hend
          exact .other (by simpa using hquote) hescape hend

theorem Remains.whole (h : Remains cs []) (hs : Remains s v) (hcs : cs = s ++ v) : v = [] := by
  obtain ⟨u, c, rfl, hc⟩ := h.last
  cases v using List.reverseRecOn with
  | nil => rfl
  | append_singleton v d =>
    rw [← List.append_assoc] at hcs
    obtain ⟨-, hd⟩ := List.append_inj' hcs rfl
    obtain rfl := List.singleton_injective hd
    rw [hs.blank c (by simp)] at hc
    cases hc

theorem leadingName_iff : leadingName cs = s ∧ s ≠ [] ↔ ∃ v, cs = s ++ v ∧ WholeName s v := by
  constructor
  · rintro ⟨rfl, hs⟩
    exact ⟨_, (List.prefix_iff_eq_append.mp (Implicit.prefix_leadingName cs)).symm,
      Text.wholeName_leadingName hs⟩
  · rintro ⟨v, rfl, hs⟩
    exact ⟨hs.leadingName, hs.ne_nil⟩

theorem Remains.whole_iff (h : Remains cs []) : cs = s ↔ ∃ v, cs = s ++ v ∧ Remains s v := by
  constructor
  · rintro rfl
    exact ⟨[], (List.append_nil cs).symm, h⟩
  · rintro ⟨v, hcs, hs⟩
    obtain rfl := h.whole hs hcs
    simpa using hcs

theorem checked_iff {c : Prop} [Decidable c] {P : List Char → Prop} {x : List Char}
    {other : Except String (Option (List Char))} (hc : c ↔ P x) (hother : other ≠ .ok (some s)) :
    (if c then .ok (some x) else other) = .ok (some s) ↔ x = s ∧ P s := by
  by_cases h : c
  · rw [if_pos h]
    constructor
    · intro hs
      obtain rfl := Option.some.inj (Except.ok.inj hs)
      exact ⟨rfl, hc.mp h⟩
    · rintro ⟨rfl, -⟩
      rfl
  · rw [if_neg h]
    constructor
    · exact fun hs => absurd hs hother
    · rintro ⟨rfl, hP⟩
      exact absurd (hc.mpr hP) h

theorem slice_string_iff : slice .string cs = .ok (some s) ↔ ∃ v, cs = s ++ v ∧
    Prescribed .string s v := by
  unfold slice
  split
  next hnil =>
    refine iff_of_false nofun ?_
    rintro ⟨v, rfl, u, rfl, -⟩
    cases hnil
  · dsimp only
    split
    next r _ =>
      constructor
      · intro hs
        split at hs
        next body hbody =>
          obtain rfl := Option.some.inj (Except.ok.inj hs)
          obtain ⟨v, rfl, hend⟩ := exists_of_stringBody hbody
          exact ⟨v, by simp, _, rfl, hend⟩
        · cases hs
      · rintro ⟨v, hv, u, rfl, hu⟩
        obtain ⟨body, rfl, hbody⟩ := exists_of_upToUnescaped hu
        obtain rfl : r = body ++ '"' :: v := by simpa using hv
        rw [hbody]
        rfl
    next hquote =>
      refine iff_of_false nofun ?_
      rintro ⟨v, rfl, u, rfl, -⟩
      exact absurd rfl (hquote (u ++ v))

theorem slice_attribute_iff : slice .attribute cs = .ok (some s) ↔ ∃ v, cs = s ++ v ∧
    Prescribed .attribute s v := by
  unfold slice
  split
  next hnil =>
    refine iff_of_false nofun ?_
    rintro ⟨v, rfl, code, rfl, -⟩
    cases hnil
  · dsimp only
    split
    next r _ =>
      constructor
      · intro hs
        split at hs
        next code hscan =>
          obtain rfl := Option.some.inj (Except.ok.inj hs)
          obtain ⟨v, hv⟩ := Code.prefix_of_scan hscan
          obtain rfl : r = code ++ ']' :: v := hv
          exact ⟨v, by simp, code, rfl, (Code.scan_iff_finds ..).mp hscan⟩
        · cases hs
      · rintro ⟨v, hv, code, rfl, hcode⟩
        obtain rfl : r = code ++ ']' :: v := by simpa using hv
        rw [hcode.scan]
    next hmark =>
      refine iff_of_false nofun ?_
      rintro ⟨v, rfl, code, rfl, -⟩
      exact absurd rfl (hmark (code ++ [']'] ++ v))

theorem slice_iff (h : Remains cs []) : slice k cs = .ok (some s) ↔ ∃ v, cs = s ++ v ∧
    Prescribed k s v := by
  have hne : ¬ cs.isEmpty = true := by
    obtain ⟨c, u, rfl, -⟩ := h.first
    simp
  have hstring : slice .string cs = .ok (some s) ↔ _ := slice_string_iff
  have hattribute : slice .attribute cs = .ok (some s) ↔ _ := slice_attribute_iff
  -- what is true of the slice alone, besides where it ends
  have hmore : ∀ {P : Prop} {Q : List Char → Prop}, (∃ v, cs = s ++ v ∧ Q v ∧ P) ↔
      (∃ v, cs = s ++ v ∧ Q v) ∧ P := by
    intro P Q
    simp only [← and_assoc, exists_and_right]
  unfold slice at hstring hattribute ⊢
  rw [if_neg hne] at hstring hattribute ⊢
  cases k with
  | text => simpa [Prescribed] using h.whole_iff
  | type =>
    simp only [Prescribed, hmore, ← h.whole_iff]
    exact checked_iff (P := fun s => Code.isType s = true) Iff.rfl nofun
  | constraint =>
    simp only [Prescribed, hmore, ← h.whole_iff, apply_ite]
    exact checked_iff (P := fun s => startsWithWord ['w', 'h', 'e', 'r', 'e'] s = true)
      Iff.rfl nofun
  | member =>
    simp only [Prescribed, ← leadingName_iff]
    cases hname : leadingName cs with
    | nil => simp
    | cons c w => simpa using fun heq => heq ▸ List.cons_ne_nil c w
  | namespacePath =>
    have hrun : (∃ v, cs = s ++ v ∧ Path s ∧ ∀ c ∈ v.head?, joins c = false) ↔
        cs.takeWhile joins = s ∧ Path s := by
      rw [Text.takeWhile_iff]
      constructor
      · rintro ⟨v, hv, hpath, hend⟩
        exact ⟨⟨v, hv, joins_of_path hpath, hend⟩, hpath⟩
      · rintro ⟨⟨v, hv, -, hend⟩, hpath⟩
        exact ⟨v, hv, hpath, hend⟩
    simp only [Prescribed, hrun]
    exact checked_iff path_iff nofun
  | string => exact hstring
  | boolean =>
    simp only [Prescribed, hmore, ← leadingName_iff]
    have hword : (leadingName cs == "true".toList || leadingName cs == "false".toList) = true ↔
        leadingName cs ≠ [] ∧
          (leadingName cs = "true".toList ∨ leadingName cs = "false".toList) := by
      rw [Bool.or_eq_true, beq_iff_eq, beq_iff_eq, iff_and_self]
      rintro (h | h) <;> simp [h]
    rw [and_assoc]
    exact checked_iff (P := fun s => s ≠ [] ∧ (s = "true".toList ∨ s = "false".toList)) hword nofun
  | _ => exact hattribute

theorem absent_iff : slice k cs = .ok none ↔ Absent k cs := by
  cases cs with
  | nil => exact iff_of_true rfl (.inl rfl)
  | cons c cs =>
    rw [Absent, or_iff_right (List.cons_ne_nil c cs)]
    cases k with
    | constraint =>
      simp only [slice, List.isEmpty_cons, Bool.false_eq_true, if_false]
      split
      next hword => simp [hword]
      next hword => simp [hword]
    | _ =>
      refine iff_of_false (fun h => ?_) fun h => nomatch h.1
      simp only [slice, List.isEmpty_cons, Bool.false_eq_true, if_false] at h
      repeat' split at h
      all_goals cases h

/-! Blanks behind a slice -/

theorem startsWithWord_iff {word : List Char} :
    startsWithWord word cs = true ↔
      ∃ v, cs = word ++ v ∧ ∀ c ∈ v.head?, continuesName c = false := by
  rw [startsWithWord, Bool.and_eq_true, List.isPrefixOf_iff_prefix, Bool.not_eq_true',
    Option.any_eq_false]
  constructor
  · rintro ⟨⟨v, rfl⟩, hend⟩
    rw [List.drop_left] at hend
    exact ⟨v, rfl, fun c hc => by simpa using hend c hc⟩
  · rintro ⟨v, rfl, hend⟩
    rw [List.drop_left]
    exact ⟨⟨v, rfl⟩, fun c hc => by simpa using hend c hc⟩

section
variable (hb : ∀ c ∈ b, isBlank c = true)
include hb

theorem head?_blanks_iff {p : Char → Bool} (hp : ∀ c, isBlank c = true → p c = false) :
    (∀ c ∈ (v ++ b).head?, p c = false) ↔ ∀ c ∈ v.head?, p c = false := by
  cases v with
  | nil =>
    exact iff_of_true (fun c hc => hp c (hb c (List.mem_of_mem_head? hc))) fun c hc => nomatch hc
  | cons d v => exact Iff.rfl

theorem remains_blanks_iff : Remains s (v ++ b) ↔ Remains s v :=
  ⟨fun h => ⟨h.first, h.last, fun c hc => h.blank c (List.mem_append_left b hc)⟩,
    fun h => ⟨h.first, h.last, fun c hc => (List.mem_append.mp hc).elim (h.blank c) (hb c)⟩⟩

theorem wholeName_blanks_iff : WholeName s (v ++ b) ↔ WholeName s v :=
  ⟨fun h => ⟨h.name, (head?_blanks_iff hb fun _ => Text.not_continuesName_of_isBlank).mp h.stops⟩,
    fun h => ⟨h.name, (head?_blanks_iff hb fun _ => Text.not_continuesName_of_isBlank).mpr h.stops⟩⟩

theorem prescribed_blanks_iff : Prescribed k s (v ++ b) ↔ Prescribed k s v := by
  cases k with
  | text => exact remains_blanks_iff hb
  | type => exact and_congr_left' (remains_blanks_iff hb)
  | constraint => exact and_congr_left' (remains_blanks_iff hb)
  | member => exact wholeName_blanks_iff hb
  | namespacePath => exact and_congr_right' (head?_blanks_iff hb fun _ => not_joins_of_isBlank)
  | string => exact Iff.rfl
  | boolean => exact and_congr_left' (wholeName_blanks_iff hb)
  | _ =>
    refine exists_congr fun code => and_congr_right' ?_
    rw [← Code.scan_iff_finds, ← Code.scan_iff_finds, ← List.cons_append, ← List.append_assoc]
    exact Code.scan_blanks_iff hb rfl

theorem startsWithWord_blanks {word : List Char} (hword : ∀ c ∈ word, isBlank c = false) :
    startsWithWord word (cs ++ b) = startsWithWord word cs := by
  rw [Bool.eq_iff_iff, startsWithWord_iff, startsWithWord_iff]
  constructor
  · rintro ⟨v, hv, hend⟩
    rcases List.append_eq_append_iff.mp hv with ⟨t, rfl, rfl⟩ | ⟨t, rfl, rfl⟩
    · -- the word would go on into the blanks
      cases t with
      | nil => exact ⟨[], by simp, nofun⟩
      | cons c t =>
        have hblank := hb c (by simp)
        rw [hword c (by simp)] at hblank
        cases hblank
    · exact ⟨t, rfl, (head?_blanks_iff hb fun _ => Text.not_continuesName_of_isBlank).mp hend⟩
  · rintro ⟨v, rfl, hend⟩
    exact ⟨v ++ b, List.append_assoc ..,
      (head?_blanks_iff hb fun _ => Text.not_continuesName_of_isBlank).mpr hend⟩

end

/-! The slice in front of a text that no blanks begin -/

theorem remains_of_joins (h : ∀ c ∈ s, joins c = true) (hne : s ≠ []) : Remains s [] := by
  have hsolid : ∀ c ∈ s, isBlank c = false := fun c hc => by
    cases hblank : isBlank c with
    | false => rfl
    | true => exact absurd (h c hc) (by simp [not_joins_of_isBlank hblank])
  refine ⟨⟨s.head hne, s.tail, (List.cons_head_tail hne).symm, hsolid _ (List.head_mem hne)⟩,
    ⟨s.dropLast, s.getLast hne, (List.dropLast_concat_getLast hne).symm,
      hsolid _ (List.getLast_mem hne)⟩, List.forall_mem_nil _⟩

theorem Prescribed.bounded (h : Prescribed k s v) : Remains s [] := by
  have hname : WholeName s v → Remains s [] :=
    fun h => remains_of_joins (fun c hc => by simp [joins, h.continues c hc]) h.ne_nil
  cases k with
  | text => exact ⟨h.first, h.last, List.forall_mem_nil _⟩
  | type | constraint => exact ⟨h.1.first, h.1.last, List.forall_mem_nil _⟩
  | member => exact hname h
  | namespacePath =>
    refine remains_of_joins (joins_of_path h.1) ?_
    cases h.1 with
    | name hw => exact hw.ne_nil
    | join hw => simp [hw.ne_nil]
  | string =>
    obtain ⟨u, rfl, hu⟩ := h
    obtain ⟨body, rfl⟩ := hu.ends
    exact ⟨⟨'"', _, rfl, rfl⟩, ⟨'"' :: body, '"', rfl, rfl⟩, List.forall_mem_nil _⟩
  | boolean => exact hname h.1
  | _ =>
    obtain ⟨code, rfl, -⟩ := h
    exact ⟨⟨'#', _, rfl, rfl⟩, ⟨_, ']', rfl, rfl⟩, List.forall_mem_nil _⟩

theorem remains_one {c : Char} (hc : isBlank c = false) : Remains [c] [] :=
  ⟨⟨c, [], rfl, hc⟩, ⟨[], c, rfl, hc⟩, List.forall_mem_nil _⟩

theorem exists_trimEnd_append (h : Remains s []) (rest : List Char) :
    ∃ v b, rest = v ++ b ∧ (∀ c ∈ b, isBlank c = true) ∧ trimEnd (s ++ rest) = s ++ v ∧
      Remains (s ++ v) [] := by
  obtain ⟨u, c, rfl, hc⟩ := h.last
  obtain ⟨x, w, hxw, hx⟩ := h.first
  cases hall : allBlank rest with
  | true =>
    have hblank := List.all_eq_true.mp hall
    refine ⟨[], rest, rfl, hblank, ?_, by simpa using h⟩
    rw [List.append_assoc, List.singleton_append, Text.trimEnd_append hc hblank, List.append_nil]
  | false =>
    obtain ⟨t, e, b, rfl, he, hb⟩ := Text.exists_last hall
    have hend : u ++ [c] ++ (t ++ [e]) = u ++ [c] ++ t ++ [e] := (List.append_assoc ..).symm
    refine ⟨t ++ [e], b, by simp, hb, ?_, ⟨x, w ++ (t ++ [e]), by rw [hxw]; rfl, hx⟩,
      ⟨_, e, hend, he⟩, List.forall_mem_nil _⟩
    rw [← List.append_assoc, Text.trimEnd_append he hb, List.append_assoc]

section
variable {rest : List Char} (hfirst : ∀ c ∈ rest.head?, isBlank c = false)
include hfirst

theorem slice_trimEnd_iff : slice k (trimEnd rest) = .ok (some s) ↔ ∃ v, rest = s ++ v ∧
    Prescribed k s v := by
  cases rest with
  | nil =>
    refine iff_of_false nofun ?_
    rintro ⟨v, hv, hs⟩
    obtain ⟨c, u, rfl, -⟩ := hs.bounded.first
    cases hv
  | cons c rest =>
    obtain ⟨t, b, rfl, hb, htrim, hremains⟩ :=
      exists_trimEnd_append (remains_one (hfirst c rfl)) rest
    rw [← List.singleton_append, htrim, slice_iff hremains]
    constructor
    · rintro ⟨v, hv, hs⟩
      exact ⟨v ++ b,
        by rw [← List.append_assoc, hv, List.append_assoc], (prescribed_blanks_iff hb).mpr hs⟩
    · rintro ⟨v, hv, hs⟩
      obtain ⟨v', b', rfl, hb', htrim', -⟩ := exists_trimEnd_append hs.bounded v
      refine ⟨v', ?_, (prescribed_blanks_iff hb').mp hs⟩
      rw [← htrim, ← htrim', hv]

theorem absent_trimEnd_iff : slice k (trimEnd rest) = .ok none ↔ Absent k rest := by
  cases rest with
  | nil => exact absent_iff
  | cons c rest =>
    obtain ⟨t, b, rfl, hb, htrim, hremains⟩ :=
      exists_trimEnd_append (remains_one (hfirst c rfl)) rest
    rw [← List.singleton_append, htrim, absent_iff, Absent, Absent, ← List.append_assoc,
      startsWithWord_blanks hb (by decide)]
    simp

end

end

/-! One slot after the other -/

section
variable {d : Directive} {region : Span} {spec : TokenSpec} {specs before after : List TokenSpec}
  {slot : Slot}
  {slots : List Slot} {blanks s behind left cs u v : List Char} {i : Nat}

theorem takeWhile_blanks (hblanks : ∀ c ∈ blanks, isBlank c = true)
    (hfirst : ∀ c ∈ behind.head?, isBlank c = false) :
    (blanks ++ behind).takeWhile isBlank = blanks ∧
      (blanks ++ behind).dropWhile isBlank = behind := by
  have htake : (blanks ++ behind).takeWhile isBlank = blanks :=
    Text.takeWhile_iff.mpr ⟨behind, rfl, hblanks, hfirst⟩
  refine ⟨htake, ?_⟩
  rw [← Text.drop_length_takeWhile, htake, List.drop_left]

theorem Remains.head? (h : Remains s []) (behind : List Char) :
    ∀ c ∈ (s ++ behind).head?, isBlank c = false := by
  obtain ⟨c, u, rfl, hc⟩ := h.first
  rintro _ ⟨⟩
  exact hc

theorem tokensFrom_token (h : Fits spec (.token blanks s) behind) :
    tokensFrom d region (spec :: specs) i (blanks ++ s ++ behind) =
      (⟨⟨spec.kind, value spec.kind s⟩, i + byteSize blanks, i + byteSize blanks + byteSize s⟩ ::
          (tokensFrom d region specs (i + byteSize blanks + byteSize s) behind).1,
        (tokensFrom d region specs (i + byteSize blanks + byteSize s) behind).2) := by
  cases h with
  | token hblanks hslice =>
    have hfirst := hslice.bounded.head? behind
    obtain ⟨htake, hdrop⟩ := takeWhile_blanks hblanks hfirst
    rw [List.append_assoc, tokensFrom, htake, hdrop,
      (slice_trimEnd_iff hfirst).mpr ⟨behind, rfl, hslice⟩]
    dsimp only
    rw [List.drop_left]

theorem tokensFrom_skipped (h : Fits spec (.skipped blanks) behind) :
    tokensFrom d region (spec :: specs) i (blanks ++ behind) =
      tokensFrom d region specs (i + byteSize blanks) behind := by
  cases h with
  | skipped hoptional hblanks hfirst habsent =>
    obtain ⟨htake, hdrop⟩ := takeWhile_blanks hblanks hfirst
    rw [tokensFrom, htake, hdrop, (absent_trimEnd_iff hfirst).mpr habsent]
    dsimp only
    rw [if_pos hoptional]

theorem tokensFrom_stuck (d : Directive) (region : Span) (i : Nat) (h : Stuck after left) :
    ∃ reason start stop, tokensFrom d region after i left =
      ([], [malformed d reason start stop]) := by
  cases after with
  | nil =>
    rw [tokensFrom]
    split
    next htrim =>
      obtain ⟨a, b, hleft, ha, hb⟩ := Text.exists_trim left
      have hall : allBlank left = true := by
        rw [hleft, htrim]
        exact List.all_eq_true.mpr fun c hc => (List.mem_append.mp hc).elim (ha c) (hb c)
      rw [show allBlank left = false from h] at hall
      cases hall
    · exact ⟨_, _, _, rfl⟩
  | cons spec specs =>
    have hsplit := List.takeWhile_append_dropWhile (p := isBlank) (l := left)
    have hblanks : ∀ c ∈ left.takeWhile isBlank, isBlank c = true :=
      fun c hc => Text.blank_of_mem_takeWhile hc
    have hfirst := Text.head?_dropWhile isBlank left
    rw [tokensFrom]
    dsimp only
    split
    next s hslice =>
      obtain ⟨v, hv, hs⟩ := (slice_trimEnd_iff hfirst).mp hslice
      have htext : left = (Slot.token (left.takeWhile isBlank) s).text ++ v := by
        rw [Slot.text, List.append_assoc, ← hv, hsplit]
      exact absurd (.token hblanks hs) (h _ v htext)
    next hslice =>
      split
      next hoptional =>
        have habsent := (absent_trimEnd_iff hfirst).mp hslice
        exact absurd (.skipped hoptional hblanks hfirst habsent)
          (h (.skipped (left.takeWhile isBlank)) _ hsplit.symm)
      · exact ⟨_, _, _, rfl⟩
    · exact ⟨_, _, _, rfl⟩

theorem tokensFrom_blank (h : allBlank left = true) : tokensFrom d region [] i left = ([], []) := by
  have htrim : Text.trim left = [] := Text.trim_append_blank h []
  rw [tokensFrom, htrim]

theorem tokensFrom_laid (d : Directive) (region : Span) (after : List TokenSpec) (i : Nat)
    (h : Laid before slots left) :
    tokensFrom d region (before ++ after) i (slots.flatMap Slot.text ++ left) =
      (located i before slots ++
        (tokensFrom d region after (i + byteSize (slots.flatMap Slot.text)) left).1,
        (tokensFrom d region after (i + byteSize (slots.flatMap Slot.text)) left).2) := by
  induction before generalizing slots i with
  | nil =>
    cases slots with
    | nil => rfl
    | cons slot slots => exact h.elim
  | cons spec before ih =>
    cases slots with
    | nil => exact h.elim
    | cons slot slots =>
      obtain ⟨hfits, hlaid⟩ := h
      rw [List.cons_append, List.flatMap_cons, List.append_assoc]
      cases slot with
      | token blanks s =>
        rw [Slot.text, tokensFrom_token hfits, ih _ hlaid, located, Text.byteSize_append,
          Text.byteSize_append, ← Nat.add_assoc,
          ← Nat.add_assoc]
        rfl
      | skipped blanks =>
        rw [Slot.text, tokensFrom_skipped hfits, ih _ hlaid, located, Text.byteSize_append,
          ← Nat.add_assoc]

theorem exists_laid (specs : List TokenSpec) (cs : List Char) :
    ∃ before after slots left, specs = before ++ after ∧
    cs = slots.flatMap Slot.text ++ left ∧ Laid before slots left ∧
      (after = [] ∧ allBlank left = true ∨ Stuck after left) := by
  induction specs generalizing cs with
  | nil =>
    refine ⟨[], [], [], cs, rfl, rfl, trivial, ?_⟩
    cases hall : allBlank cs with
    | true => exact .inl ⟨rfl, rfl⟩
    | false => exact .inr hall
  | cons spec specs ih =>
    by_cases hfits : ∃ slot behind, cs = slot.text ++ behind ∧ Fits spec slot behind
    · obtain ⟨slot, behind, rfl, hfits⟩ := hfits
      obtain ⟨before, after, slots, left, rfl, rfl, hlaid, hend⟩ := ih behind
      exact ⟨spec :: before, after, slot :: slots, left, rfl, (List.append_assoc ..).symm,
        ⟨hfits, hlaid⟩, hend⟩
    · refine ⟨[], spec :: specs, [], cs, rfl, rfl, trivial, .inr ?_⟩
      exact fun slot behind hcs hslot => hfits ⟨slot, behind, hcs, hslot⟩

theorem exists_located (h : Laid before slots left) (hleft : allBlank left = true) {c : Char}
    (hcs : slots.flatMap Slot.text ++ left = u ++ c :: v) (hc : isBlank c = false) :
    ∃ t ∈ located i before slots, t.span.start ≤ i + byteSize u ∧
      i + byteSize u + c.utf8Size ≤ t.span.stop := by
  induction before generalizing slots i u with
  | nil =>
    cases slots with
    | nil =>
      have hmem : c ∈ left := by
        rw [← List.nil_append left, show [] ++ left = u ++ c :: v from hcs]
        simp
      rw [List.all_eq_true.mp hleft c hmem] at hc
      cases hc
    | cons slot slots => exact h.elim
  | cons spec before ih =>
    cases slots with
    | nil => exact h.elim
    | cons slot slots =>
      obtain ⟨hfits, hlaid⟩ := h
      rw [List.flatMap_cons, List.append_assoc] at hcs
      cases hfits with
      | @skipped blanks _ _ hblanks =>
        obtain ⟨u', rfl, hrest⟩ := Text.exists_of_blanks_append hblanks hc hcs
        obtain ⟨t, ht, hstart, hstop⟩ := ih (i := i + byteSize blanks) hlaid hrest
        rw [Text.byteSize_append, ← Nat.add_assoc]
        exact ⟨t, ht, hstart, hstop⟩
      | @token blanks s _ hblanks =>
        rw [Slot.text, List.append_assoc] at hcs
        obtain ⟨u', rfl, hrest⟩ := Text.exists_of_blanks_append hblanks hc hcs
        rw [Text.byteSize_append, ← Nat.add_assoc, located]
        -- the character stands behind the slice, or in it
        have hbehind : ∀ w : List Char, u' = s ++ w →
          slots.flatMap Slot.text ++ left = w ++ c :: v →
            ∃ t ∈ located (i + byteSize blanks + byteSize s) before slots, t.span.start ≤
              i + byteSize blanks + byteSize u' ∧
              i + byteSize blanks + byteSize u' + c.utf8Size ≤ t.span.stop := by
          rintro w rfl hw
          rw [Text.byteSize_append, ← Nat.add_assoc (i + byteSize blanks)]
          exact ih hlaid hw
        rcases List.append_eq_append_iff.mp hrest with ⟨w, hu, hw⟩ | ⟨w, hs, hw⟩
        · obtain ⟨t, ht, hspan⟩ := hbehind w hu hw
          exact ⟨t, List.mem_cons_of_mem _ ht, hspan⟩
        cases w with
        | nil =>
          obtain ⟨t, ht, hspan⟩ := hbehind [] (by simpa using hs.symm) (by simpa using hw.symm)
          exact ⟨t, List.mem_cons_of_mem _ ht, hspan⟩
        | cons e w =>
          obtain ⟨rfl, -⟩ := List.cons.inj hw
          refine ⟨_, List.mem_cons_self, Nat.le_add_right _ _, ?_⟩
          simp only [hs, Text.byteSize_append, byteSize]
          omega

end

theorem settled_tokens (d : Directive) (i : Nat) (region : List Char) :
    Settled d i region (tokens d i region).1 (tokens d i region).2 := by
  have hread : ∀ {before after slots left},
      d.tokens = before ++ after → region = slots.flatMap Slot.text ++ left →
        Laid before slots left →
        let stop := i + byteSize (slots.flatMap Slot.text)
        tokens d i region =
          (located i before slots ++ (tokensFrom d ⟨i, i + byteSize region⟩ after stop left).1,
          (tokensFrom d ⟨i, i + byteSize region⟩ after stop left).2) := by
    intro before after slots left hspecs hregion hlaid
    have h := tokensFrom_laid d ⟨i, i + byteSize region⟩ after i hlaid
    rwa [← hspecs, ← hregion] at h
  obtain ⟨before, after, slots, left, hspecs, hregion, hlaid, hend⟩ := exists_laid d.tokens region
  have hkept : (tokens d i region).2 = [] → ∃ slots left, region = slots.flatMap Slot.text ++ left ∧
      Laid d.tokens slots left ∧ allBlank left = true ∧
        (tokens d i region).1 = located i d.tokens slots := by
    intro hsound
    rw [hread hspecs hregion hlaid] at hsound ⊢
    rcases hend with ⟨rfl, hleft⟩ | hstuck
    · rw [List.append_nil] at hspecs
      rw [tokensFrom_blank hleft, List.append_nil, hspecs]
      exact ⟨slots, left, hregion, hlaid, hleft, rfl⟩
    · obtain ⟨reason, start, stop, htold⟩ := tokensFrom_stuck d ⟨i, i + byteSize region⟩
        (i + byteSize (slots.flatMap Slot.text)) hstuck
      rw [htold] at hsound
      cases hsound
  constructor
  case accepted =>
    intro slots left hregion hlaid hleft
    rw [hread (List.append_nil _).symm hregion hlaid, tokensFrom_blank hleft]
  case kept => exact hkept
  case apart => exact between_tokensFrom ..
  case covered =>
    intro hsound u c v hcs hc
    obtain ⟨slots, left, hregion, hlaid, hleft, hts⟩ := hkept hsound
    rw [hts]
    exact exists_located hlaid hleft (hregion.symm.trans hcs) hc
  case refused =>
    intro hfaulty
    rcases hend with ⟨rfl, hleft⟩ | hstuck
    · rw [hread hspecs hregion hlaid, tokensFrom_blank hleft] at hfaulty
      exact absurd rfl hfaulty
    · obtain ⟨reason, start, stop, htold⟩ := tokensFrom_stuck d ⟨i, i + byteSize region⟩
        (i + byteSize (slots.flatMap Slot.text)) hstuck
      rw [hread hspecs hregion hlaid, htold, List.append_nil]
      exact ⟨⟨reason, start, stop, rfl⟩, before, after, slots, left, hspecs, hregion, hlaid,
        hstuck, rfl⟩

/-! The node -/

def bounds (k : DirectiveKind) (c : Char) : Bool := c == '\n' || (k != .line && c == '\x7b')

/-- The text between a directive's keyword and its body, or the end of the line. -/
structure Reaches (k : DirectiveKind) (region more : List Char) : Prop where
  inside : ∀ c ∈ region, bounds k c = false
  ends : ∀ c ∈ more.head?, bounds k c = true

section
variable {d : Directive} {scope : Scope} {mark : Cursor}

theorem exists_announcement (d : Directive) (mark : Cursor) : ∃ region more,
    (mark.forward (d.keyword.length + 1)).rest = region ++ more ∧ Reaches d.kind region more ∧
      Settled d (mark.forward (d.keyword.length + 1)).offset region (announcement d mark).tokens
        (announcement d mark).faults := by
  have hregion :
    (if d.kind == .line then (mark.forward (d.keyword.length + 1)).rest.takeWhile (· != '\n')
      else ((mark.forward (d.keyword.length + 1)).rest.takeWhile (· != '\n')).takeWhile
        (· != '\x7b')) =
      (mark.forward (d.keyword.length + 1)).rest.takeWhile fun c => !bounds d.kind c := by
    split
    next hkind =>
      obtain hkind := eq_of_beq hkind
      refine congrArg (List.takeWhile · _) (funext fun c => ?_)
      simp [bounds, hkind, bne]
    next hkind =>
      rw [List.takeWhile_takeWhile]
      refine congrArg (List.takeWhile · _) (funext fun c => ?_)
      rw [Bool.eq_iff_iff]
      simp_all [bounds, and_comm]
  obtain ⟨more, hmore, hinside, hends⟩ := Text.takeWhile_iff.mp hregion.symm
  refine ⟨_, more, hmore, ⟨fun c hc => ?_, fun c hc => ?_⟩, settled_tokens d _ _⟩
  · simpa using hinside c hc
  · simpa using hends c hc

theorem exists_directivePiece (t : DirectiveTable) (n : Nat) (scope : Scope) (mark : Cursor)
    (d : Directive) :
    ∃ faults body? stop, (directive t (n + 1) scope mark d).val =
        [(directivePiece d scope mark (announcement d mark).tokens
          ((announcement d mark).faults ++ faults) body? stop).1] ∧
      ∀ f ∈ faults, f.problem = .malformedDirective d.keyword "expected `\x7b`" := by
  generalize hturn : directive t (n + 1) scope mark d = o
  cases directive_turn hturn with
  | line => exact ⟨[], none, _, rfl, List.forall_mem_nil _⟩
  | code => exact ⟨[], some _, _, rfl, List.forall_mem_nil _⟩
  | codeless => exact ⟨[], none, _, rfl, List.forall_mem_nil _⟩
  | markup => exact ⟨[], some _, _, rfl, List.forall_mem_nil _⟩
  | bare =>
    refine ⟨_, none, _, rfl, fun f hf => ?_⟩
    rw [List.mem_singleton.mp hf]
    rfl

/-- A directive's node has the tokens of its region and what is wrong with that. All else that it
reports is that its body is missing, or that it stands in one. -/
theorem directive_settled (t : DirectiveTable) (n : Nat) (scope : Scope) (mark : Cursor)
    (d : Directive) :
    ∃ region more ts fs besides body? span alone,
      (mark.forward (d.keyword.length + 1)).rest = region ++ more ∧ Reaches d.kind region more ∧
      (directive t (n + 1) scope mark d).val =
        [.node (.directive ⟨d.keyword, ts, body?, fs ++ besides⟩) span alone] ∧
      (∀ f ∈ besides, f.problem = .malformedDirective d.keyword "expected `\x7b`" ∨
        f.problem = .nestedDirective d.keyword) ∧
      Settled d (mark.forward (d.keyword.length + 1)).offset region ts fs := by
  obtain ⟨region, more, hrest, hreaches, hsettled⟩ := exists_announcement d mark
  obtain ⟨faults, body?, stop, hval, hfaults⟩ := exists_directivePiece t n scope mark d
  let span : Span := ⟨mark.offset, stop.offset⟩
  let nested : List Fault :=
    if scope == .nested then [{ problem := .nestedDirective d.keyword, span }] else []
  refine ⟨region, more, _, _, faults ++ nested, body?, span, mark.atLineStart, hrest, hreaches, ?_,
    ?_, hsettled⟩
  · rw [hval, directivePiece, List.append_assoc]
  · intro f hf
    rcases List.mem_append.mp hf with hf | hf
    · exact .inl (hfaults f hf)
    · right
      simp only [nested] at hf
      split at hf
      · rw [List.mem_singleton.mp hf]
      · cases hf

end

end Templating.Markup.Region
