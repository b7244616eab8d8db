import Templating.Proofs.Code.Name
import Templating.Proofs.Code.TypePath

/-!
The text of names. Where no comment stands before the first arguments of a path, its names and
colons stand in the text one behind the other, with nothing but
spaces between them. -/

namespace Templating.Code

open Lexeme

/-! Characters of words -/

theorem not_continuesWord_of_isSpace {c : Char} (h : isSpace c = true) :
    continuesWord c = false := by
  have hblanks : Text.disjoint Text.Word.later.toList = true := by decide +kernel
  have hmark : ∀ n, 0x80 ≤ n → beside Text.Word.later.toList n = true → c.toNat = n →
      continuesWord c = false := by
    rintro _ hfar hbeside rfl
    have hletter : c.isAlpha = false :=
      Bool.eq_false_iff.mpr fun h => absurd (toNat_of_isAlpha h).2 (by omega)
    have hdigit : c.isDigit = false :=
      Bool.eq_false_iff.mpr fun h => absurd (toNat_of_isDigit h) (by omega)
    have hscore : c ≠ '_' := by
      rintro rfl
      exact absurd hfar (by decide)
    simp [continuesWord, Char.isAlphanum, hletter, hdigit, hscore, not_holds_of_beside hbeside]
  simp only [isSpace, Bool.or_eq_true, beq_iff_eq] at h
  rcases h with (h | h) | h
  · have hname := Text.not_continuesName_of_isBlank h
    have hlater := Text.not_holds_of_disjoint hblanks h
    simp only [Text.continuesName, Text.isAlphanumeric, Text.isAlphabetic, Text.isNumeric,
      Bool.or_eq_false_iff] at hname
    simp [continuesWord, Char.isAlphanum, hname, hlater]
  · exact hmark _ (by decide) (by decide +kernel) h
  · exact hmark _ (by decide) (by decide +kernel) h

/-- Text of a word: not empty, without spaces, colons and marks that open arguments. -/
structure Undivided (w : List Char) : Prop where
  ne_nil : w ≠ []
  solid : ∀ c ∈ w, isSpace c = false
  colon : ':' ∉ w
  angle : '<' ∉ w

theorem undivided_of_all {w : List Char} (hne : w ≠ [])
    (h : ∀ c ∈ w, continuesWord c = true ∨ c = '#') : Undivided w where
  ne_nil := hne
  solid c hc := by
    rcases h c hc with h | rfl
    · exact Bool.eq_false_iff.mpr fun hspace => by simp [not_continuesWord_of_isSpace hspace] at h
    · decide
  colon hc := absurd (h ':' hc) (by decide)
  angle hc := absurd (h '<' hc) (by decide)

section
variable {c d : Char} {cs r w : List Char} {j : Bool}

theorem plainWord_all (h : plainWord cs = some (w, r)) :
    cs = w ++ r ∧ w ≠ [] ∧ ∀ c ∈ w, continuesWord c = true := by
  cases cs with
  | nil => cases h
  | cons c cs =>
    rw [plainWord] at h
    split at h
    next hc =>
      cases h
      refine ⟨by simp, List.cons_ne_nil _ _,
        List.forall_mem_cons.mpr ⟨continuesWord_of_startsWord hc, fun d hd => ?_⟩⟩
      exact List.all_eq_true.mp List.all_takeWhile d hd
    · cases h

theorem undivided_of_word (h : word cs = some (w, r)) : cs = w ++ r ∧ Undivided w := by
  unfold word at h
  split at h
  · split at h
    next w' r' hw =>
      split at h
      · cases h
      · cases h
        obtain ⟨rfl, -, hall⟩ := plainWord_all hw
        refine ⟨rfl, undivided_of_all (List.cons_ne_nil _ _) fun c hc => ?_⟩
        rcases List.mem_cons.mp hc with rfl | hc
        · exact .inl (by decide)
        rcases List.mem_cons.mp hc with rfl | hc
        · exact .inr rfl
        · exact .inl (hall c hc)
    · cases h
  · obtain ⟨hcs, hne, hall⟩ := plainWord_all h
    exact ⟨hcs, undivided_of_all hne fun c hc => .inl (hall c hc)⟩

theorem leaf_mark (h : leaf cs = some (.mark d j, r)) : cs = d :: r ∧ j = startsMark r := by
  unfold leaf at h
  split at h
  · cases h
  · split at h
    · split at h
      · split at h <;> cases h
      · cases h
    · split at h
      · cases h
        exact ⟨rfl, rfl⟩
      · split at h
        · cases h
        · obtain ⟨_, -, heq⟩ := Option.map_eq_some_iff.mp h
          cases heq
    · cases h

theorem leaf_word {w : String} (h : leaf cs = some (.word w, r)) :
    word cs = some (w.toList, r) := by
  unfold leaf at h
  split at h
  · cases h
  · split at h
    · split at h
      · split at h <;> cases h
      · cases h
    · split at h
      · cases h
      · split at h
        · cases h
        · obtain ⟨⟨w', r'⟩, hword, heq⟩ := Option.map_eq_some_iff.mp h
          cases heq
          rw [hword, String.toList_ofList]
    · cases h

end

/-! Text of tokens -/

/-- The text of words and colons, with spaces between them. No space stands behind a colon that is
joined to what follows. -/
inductive Spells : List Token → List Char → Prop
  | nil : Spells [] []
  | space {ts : List Token} {c : Char} {cs : List Char} (hc : isSpace c = true) (h : Spells ts cs) :
      Spells ts (c :: cs)
  | colon {ts : List Token} {cs : List Char} (j : Bool) (hj : j = true → ∀ c ∈ cs.head?,
      isSpace c = false)
      (h : Spells ts cs) : Spells (.mark ':' j :: ts) (':' :: cs)
  | word {ts : List Token} {cs : List Char} (w : String) (hw : Undivided w.toList)
      (h : Spells ts cs) :
      Spells (.word w :: ts) (w.toList ++ cs)

/-- The text before the first mark that opens arguments. -/
def beforeAngle (cs : List Char) : List Char := cs.takeWhile (· != '<')

theorem beforeAngle_cons {c : Char} (h : c ≠ '<') (cs : List Char) :
    beforeAngle (c :: cs) = c :: beforeAngle cs :=
  List.takeWhile_cons_of_pos (by simpa using h)

theorem beforeAngle_append {w : List Char} (h : '<' ∉ w) (cs : List Char) :
    beforeAngle (w ++ cs) = w ++ beforeAngle cs :=
  List.takeWhile_append_of_pos fun c hc => by simpa using ne_of_mem_of_not_mem hc h

theorem not_space_of_startsMark {cs : List Char} (h : startsMark cs = true) :
    ∀ c ∈ cs.head?, isSpace c = false := by
  have hmarks : ∀ d ∈ "~!@#$%^&*-=+|;:,<.>/?'".toList, isSpace d = false := by decide
  intro c hc
  rw [startsMark, Bool.and_eq_true, Option.mem_def.mp hc] at h
  exact hmarks c (List.contains_iff_mem.mp h.2)

theorem head?_of_front {as bs : List Char} (h : as <+: bs) {d : Char} (hd : d ∈ as.head?) :
    d ∈ bs.head? := by
  obtain ⟨r, rfl⟩ := h
  obtain ⟨as, rfl⟩ := List.head?_eq_some_iff.mp hd
  rfl

theorem first_of_names {t : Token} {ts ns us : List Token} (h : t :: ts = ns ++ us)
    (hns : ∀ t ∈ ns, t.ofNames = true) (hus : ∀ t ∈ us.head?, t.opensArguments = true) :
    (∃ ms, ns = t :: ms ∧ ts = ms ++ us ∧ t.ofNames = true) ∨
      ns = [] ∧ t.opensArguments = true := by
  rcases List.cons_eq_append_iff.mp h with ⟨rfl, rfl⟩ | ⟨ms, rfl, rfl⟩
  · exact .inr ⟨rfl, hus t rfl⟩
  · exact .inl ⟨ms, rfl, rfl, hns t List.mem_cons_self⟩

theorem slash_of_comment {c : Char} {cs r : List Char} (h : comment (c :: cs) = some r) :
    c = '/' := by
  unfold comment at h
  split at h
  next hcs => exact (List.cons.inj hcs).1
  next hcs => exact (List.cons.inj hcs).1
  next => cases h

theorem slash_of_docComment {c : Char} {cs : List Char} {x : List Char × Bool × List Char}
    (h : docComment (c :: cs) = some x) :
    c = '/' := by
  unfold docComment at h
  split at h
  next hcs => exact (List.cons.inj hcs).1
  next hcs => exact (List.cons.inj hcs).1
  next hcs => exact (List.cons.inj hcs).1
  next hcs => exact (List.cons.inj hcs).1
  next => cases h

theorem names_of_angle {n : Nat} {cs : List Char} {ns us : List Token}
    (h : tokensFrom (n + 1) [] ('<' :: cs) = some (ns ++ us))
    (hns : ∀ t ∈ ns, t.ofNames = true) (hus : ∀ t ∈ us.head?, t.opensArguments = true) :
    ns = [] := by
  have hleaf : leaf ('<' :: cs) = some (.mark '<' (startsMark cs), cs) := rfl
  rw [tokensFrom_leaf (by decide) rfl rfl rfl rfl, hleaf] at h
  obtain ⟨ts, -, hts⟩ := Option.map_eq_some_iff.mp h
  rcases first_of_names hts hns hus with ⟨-, -, -, hno⟩ | ⟨hnone, -⟩
  · cases hno
  · exact hnone

theorem spells_of_tokensFrom {n : Nat} {cs : List Char} {ns us : List Token}
    (h : tokensFrom n [] cs = some (ns ++ us))
    (hns : ∀ t ∈ ns, t.ofNames = true) (hus : ∀ t ∈ us.head?, t.opensArguments = true)
    (hslash : '/' ∉ beforeAngle cs) :
    Spells ns (beforeAngle cs) := by
  induction n generalizing cs ns with
  | zero =>
    cases cs with
    | nil =>
      obtain ⟨rfl, -⟩ := List.append_eq_nil_iff.mp (Option.some.inj h).symm
      exact .nil
    | cons c cs => cases h
  | succ n ih =>
    cases cs with
    | nil =>
      obtain ⟨rfl, -⟩ := List.append_eq_nil_iff.mp (Option.some.inj h).symm
      exact .nil
    | cons c cs =>
      by_cases hangle : c = '<'
      · subst hangle
        obtain rfl := names_of_angle h hns hus
        exact .nil
      rw [beforeAngle_cons hangle] at hslash ⊢
      have hc : c ≠ '/' := (List.ne_of_not_mem_cons hslash).symm
      have hbehind : '/' ∉ beforeAngle cs := List.not_mem_of_not_mem_cons hslash
      obtain ⟨read, pending, r, left, hbegins, hleft, hread⟩ := exists_begins h
      cases hbegins with
      | space hspace =>
        obtain rfl : ns ++ us = left := hread
        exact .space hspace (ih hleft hns hbehind)
      | comment _ hcomment => exact absurd (slash_of_comment hcomment) hc
      | doc _ hdoc => exact absurd (slash_of_docComment hdoc) hc
      | opening => rcases first_of_names hread.symm hns hus with ⟨-, -, -, hno⟩ | ⟨-, hno⟩ <;>
        cases hno
      | @leaf _ _ _ t _ _ _ _ hleaf =>
        rcases first_of_names hread.symm hns hus with ⟨ms, rfl, rfl, hname⟩ | ⟨rfl, ht⟩
        case inr =>
          cases t with
          | mark d j =>
            obtain rfl := eq_of_beq ht
            exact absurd (List.cons.inj (leaf_mark hleaf).1).1 hangle
          | _ => cases ht
        case inl =>
          have hms : ∀ t ∈ ms, t.ofNames = true := fun t ht => hns t (List.mem_cons_of_mem _ ht)
          cases t with
          | mark d j =>
            obtain rfl := eq_of_beq hname
            obtain ⟨hcs, rfl⟩ := leaf_mark hleaf
            obtain ⟨rfl, rfl⟩ := List.cons.inj hcs
            refine .colon _ (fun hj d hd => not_space_of_startsMark hj d ?_) (ih hleft hms hbehind)
            exact head?_of_front (List.takeWhile_prefix _) hd
          | word w =>
            obtain ⟨hcs, hw⟩ := undivided_of_word (leaf_word hleaf)
            have hbefore : c :: beforeAngle cs = w.toList ++ beforeAngle r := by
              rw [← beforeAngle_cons hangle, hcs, beforeAngle_append hw.angle]
            rw [hbefore] at hslash ⊢
            exact .word w hw (ih hleft hms fun hmem => hslash (List.mem_append_right _ hmem))
          | _ => cases hname

/-! What stands where in the text -/

def Spaces (cs : List Char) : Prop := ∀ c ∈ cs, isSpace c = true

theorem Spaces.not_mem {cs : List Char} (h : Spaces cs) {c : Char} (hc : isSpace c = false) :
    c ∉ cs := by
  intro hmem
  rw [h c hmem] at hc
  cases hc

theorem Spells.spaces {cs : List Char} (h : Spells [] cs) : Spaces cs := by
  generalize hts : [] = ts at h
  induction h with
  | nil => exact fun _ h => absurd h List.not_mem_nil
  | space hc _ ih => exact List.forall_mem_cons.mpr ⟨hc, ih hts⟩
  | colon | word => cases hts

theorem Spells.append {ts us : List Token} {cs : List Char} (h : Spells (ts ++ us) cs) :
    ∃ a b, cs = a ++ b ∧ Spells ts a ∧ Spells us b := by
  generalize hvs : ts ++ us = vs at h
  induction h generalizing ts with
  | nil =>
    obtain ⟨rfl, rfl⟩ := List.append_eq_nil_iff.mp hvs
    exact ⟨[], [], rfl, .nil, .nil⟩
  | @space _ c _ hc _ ih =>
    obtain ⟨a, b, rfl, ha, hb⟩ := ih hvs
    exact ⟨c :: a, b, rfl, .space hc ha, hb⟩
  | @colon vs cs j hj h ih =>
    rcases List.append_eq_cons_iff.mp hvs with ⟨rfl, rfl⟩ | ⟨ts, rfl, rfl⟩
    · exact ⟨[], ':' :: cs, rfl, .nil, .colon j hj h⟩
    · obtain ⟨a, b, rfl, ha, hb⟩ := ih rfl
      exact ⟨':' :: a, b, rfl,
        .colon j (fun h c hc => hj h c (head?_of_front (List.prefix_append a b) hc)) ha, hb⟩
  | @word vs cs w hw h ih =>
    rcases List.append_eq_cons_iff.mp hvs with ⟨rfl, rfl⟩ | ⟨ts, rfl, rfl⟩
    · exact ⟨[], w.toList ++ cs, rfl, .nil, .word w hw h⟩
    · obtain ⟨a, b, rfl, ha, hb⟩ := ih rfl
      exact ⟨w.toList ++ a, b, by simp, .word w hw ha, hb⟩

theorem Spells.of_word {w : String} {ts : List Token} {cs : List Char}
    (h : Spells (.word w :: ts) cs) :
    ∃ gap b, cs = gap ++ (w.toList ++ b) ∧ Spaces gap ∧ Undivided w.toList ∧ Spells ts b := by
  generalize hus : Token.word w :: ts = us at h
  induction h with
  | nil | colon => cases hus
  | @space _ c _ hc _ ih =>
    obtain ⟨gap, b, rfl, hgap, hw, hb⟩ := ih hus
    exact ⟨c :: gap, b, rfl, List.forall_mem_cons.mpr ⟨hc, hgap⟩, hw, hb⟩
  | word w hw h =>
    obtain ⟨hword, rfl⟩ := List.cons.inj hus
    obtain rfl := Token.word.inj hword
    exact ⟨[], _, rfl, fun _ h => absurd h List.not_mem_nil, hw, h⟩

theorem Spells.of_colon {j : Bool} {ts : List Token} {cs : List Char}
    (h : Spells (.mark ':' j :: ts) cs) :
    ∃ gap b, cs = gap ++ ':' :: b ∧ Spaces gap ∧ (j = true → ∀ c ∈ b.head?, isSpace c = false) ∧
      Spells ts b := by
  generalize hus : Token.mark ':' j :: ts = us at h
  induction h with
  | nil | word => cases hus
  | @space _ c _ hc _ ih =>
    obtain ⟨gap, b, rfl, hgap, hj, hb⟩ := ih hus
    exact ⟨c :: gap, b, rfl, List.forall_mem_cons.mpr ⟨hc, hgap⟩, hj, hb⟩
  | colon j hj h =>
    obtain ⟨hmark, rfl⟩ := List.cons.inj hus
    obtain ⟨-, rfl⟩ := Token.mark.inj hmark
    exact ⟨[], _, rfl, fun _ h => absurd h List.not_mem_nil, hj, h⟩

theorem Spells.of_colons {j : Bool} {cs : List Char} (h : Spells [.mark ':' true, .mark ':' j] cs) :
    ∃ lead gap, cs = lead ++ ':' :: ':' :: gap ∧ Spaces gap := by
  obtain ⟨lead, b, rfl, -, hjoint, hb⟩ := h.of_colon
  obtain ⟨gap, r, rfl, hgap, -, hr⟩ := hb.of_colon
  cases gap with
  | nil => exact ⟨lead, r, rfl, hr.spaces⟩
  | cons c gap =>
    have hno := hjoint rfl c rfl
    rw [hgap c List.mem_cons_self] at hno
    cases hno

theorem Spells.of_names {ns : List Token} {v : String} {cs : List Char} (hns : Names ns v)
    (h : Spells ns cs) :
    ∃ lead gap tail, cs = lead ++ (gap ++ (v.toList ++ tail)) ∧
      (lead = [] ∨ [':', ':'] <:+ lead) ∧ Spaces gap ∧
      Undivided v.toList ∧ Spaces tail := by
  obtain ⟨us, rfl, hus⟩ := hns.exists_last
  obtain ⟨a, b, rfl, ha, hb⟩ := h.append
  obtain ⟨gap, tail, rfl, hgap, hv, htail⟩ := hb.of_word
  rcases hus with rfl | ⟨vs, j, rfl⟩
  · have hspaces : Spaces (a ++ gap) := List.forall_mem_append.mpr ⟨ha.spaces, hgap⟩
    exact ⟨[], a ++ gap, tail, by simp, .inl rfl, hspaces, hv, htail.spaces⟩
  · obtain ⟨a, c, rfl, -, hc⟩ := ha.append
    obtain ⟨lead, gap', rfl, hgap'⟩ := hc.of_colons
    have hspaces : Spaces (gap' ++ gap) := List.forall_mem_append.mpr ⟨hgap', hgap⟩
    refine ⟨a ++ lead ++ [':', ':'], gap' ++ gap, tail, by simp, .inr ?_, hspaces, hv, htail.spaces⟩
    exact List.suffix_append _ _

end Templating.Code
