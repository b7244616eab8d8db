import Templating.Naming
import Templating.Proofs.Code.Extent
import Templating.Proofs.Text.Cursor
import Templating.Proofs.Text.Split

/-! Paths: names with marks between them, as the segments of a namespace have them. -/
namespace Templating.Naming
open Markup.Implicit (prefix_leadingName)
open Text (WholeName continuesName isBlank leadingName wholeName_leadingName)

/-- Names with a dot or a pair of colons between every two. -/
inductive Path : List Char → Prop
  | name {w : List Char} (hw : WholeName w []) : Path w
  | join {w mark v : List Char} (hw : WholeName w []) (hmark : mark = ['.'] ∨ mark = [':', ':'])
      (hv : Path v) :
      Path (w ++ (mark ++ v))

def joins (c : Char) : Bool := continuesName c || c == '.' || c == ':'

section
variable {w v run s : List Char}

theorem wholeName_nil_iff : WholeName w [] ↔ w ≠ [] ∧ (leadingName w).length = w.length := by
  constructor
  · intro h
    have hname := h.leadingName
    rw [List.append_nil] at hname
    exact ⟨h.ne_nil, by rw [hname]⟩
  · rintro ⟨hne, hlength⟩
    have hname : leadingName w = w := (prefix_leadingName w).eq_of_length hlength
    have hwhole : WholeName (leadingName w) (w.drop (leadingName w).length) :=
      wholeName_leadingName (by rwa [hname])
    rwa [hname, List.drop_length] at hwhole

def cuts (cs : List Char) : List (List Char) := (splitColons cs).flatMap (Text.splitAt (· == '.'))

theorem segments_eq (cs : List Char) : segments (.ofList cs) = (cuts cs).map String.ofList := by
  rw [segments, String.toList_ofList, cuts, List.map_flatMap]

theorem exists_splitColons (cs : List Char) : ∃ r rs, splitColons cs = r :: rs := by
  fun_cases splitColons cs
  all_goals exact ⟨_, _, rfl⟩

theorem splitColons_cons {c : Char} {r v : List Char} {rs : List (List Char)}
    (hc : c = ':' → v.head? ≠ some ':')
    (hv : splitColons v = r :: rs) : splitColons (c :: v) = (c :: r) :: rs := by
  rw [splitColons]
  · rw [hv]
  · rintro w rfl rfl
    exact hc rfl rfl

theorem cuts_colons (v : List Char) : cuts (':' :: ':' :: v) = [] :: cuts v := by
  simp [cuts, splitColons, Text.splitAt]

theorem cuts_dot (v : List Char) : cuts ('.' :: v) = [] :: cuts v := by
  obtain ⟨r, rs, hv⟩ := exists_splitColons v
  rw [cuts, splitColons_cons (fun h => absurd h (by decide)) hv, cuts, hv]
  simp [Text.splitAt]

theorem cuts_cons {c : Char} {s v : List Char} {ss : List (List Char)}
    (hc : c = ':' → v.head? ≠ some ':') (hdot : c ≠ '.')
    (hv : cuts v = s :: ss) : cuts (c :: v) = (c :: s) :: ss := by
  obtain ⟨r, rs, hr⟩ := exists_splitColons v
  obtain ⟨a, as, ha⟩ := Text.exists_splitAt (· == '.') r
  rw [cuts, hr, List.flatMap_cons, ha, List.cons_append] at hv
  obtain ⟨rfl, rfl⟩ := List.cons.inj hv
  rw [cuts, splitColons_cons hc hr, List.flatMap_cons, Text.splitAt,
    if_neg (by simpa using hdot), ha]
  rfl

theorem exists_cuts (cs : List Char) : ∃ s ss, cuts cs = s :: ss := by
  obtain ⟨r, rs, hr⟩ := exists_splitColons cs
  obtain ⟨a, as, ha⟩ := Text.exists_splitAt (· == '.') r
  exact ⟨a, as ++ rs.flatMap (Text.splitAt (· == '.')),
    by rw [cuts, hr, List.flatMap_cons, ha, List.cons_append]⟩

theorem cuts_append {ss : List (List Char)} (hw : ∀ c ∈ w, continuesName c = true)
    (hv : cuts v = s :: ss) :
    cuts (w ++ v) = (w ++ s) :: ss := by
  induction w with
  | nil => exact hv
  | cons c w ih =>
    obtain ⟨hc, hw⟩ := List.forall_mem_cons.mp hw
    refine cuts_cons ?_ ?_ (ih hw)
    · rintro rfl
      exact absurd hc (by decide)
    · rintro rfl
      exact absurd hc (by decide)

theorem Path.cuts_name (h : Path run) : ∀ s ∈ cuts run, WholeName s [] := by
  induction h with
  | @name w hw =>
    have hcuts : cuts (w ++ []) = [w ++ []] := cuts_append hw.continues rfl
    rw [List.append_nil] at hcuts
    rw [hcuts]
    simpa using hw
  | @join w mark v hw hmark hv ih =>
    have hcuts : cuts (mark ++ v) = [] :: cuts v := by
      rcases hmark with rfl | rfl
      · exact cuts_dot v
      · exact cuts_colons v
    rw [cuts_append hw.continues hcuts, List.append_nil]
    exact List.forall_mem_cons.mpr ⟨hw, ih⟩

theorem path_of_cuts (n : Nat) (w run : List Char) (hn : run.length < n) {ss : List (List Char)}
    (h : cuts run = s :: ss) (hs : WholeName (w ++ s) []) (hss : ∀ x ∈ ss, WholeName x []) :
    Path (w ++ run) := by
  induction n generalizing w run s ss with
  | zero => exact absurd hn (Nat.not_lt_zero _)
  | succ n ih =>
    -- behind a mark the path begins again
    have hmore : ∀ (mark v : List Char), mark = ['.'] ∨ mark = [':', ':'] → run = mark ++ v →
      cuts run = [] :: cuts v →
        Path (w ++ run) := by
      rintro mark v hmark rfl hcuts
      obtain ⟨rfl, rfl⟩ := List.cons.inj (hcuts.symm.trans h)
      rw [List.append_nil] at hs
      obtain ⟨a, as, ha⟩ := exists_cuts v
      rw [ha] at hss
      have hpos : 0 < mark.length := by rcases hmark with rfl | rfl <;> decide
      rw [List.length_append] at hn
      exact .join hs hmark (ih [] v (by omega) ha (hss a List.mem_cons_self) fun x hx =>
        hss x (List.mem_cons_of_mem a hx))
    cases run with
    | nil =>
      obtain ⟨rfl, -⟩ := List.cons.inj h
      exact .name hs
    | cons c v =>
      by_cases hdot : c = '.'
      · subst hdot
        exact hmore ['.'] v (.inl rfl) rfl (cuts_dot v)
      by_cases hcolons : c = ':' ∧ v.head? = some ':'
      · obtain ⟨rfl, hv⟩ := hcolons
        obtain ⟨v, rfl⟩ := List.head?_eq_some_iff.mp hv
        exact hmore [':', ':'] v (.inr rfl) rfl (cuts_colons v)
      obtain ⟨a, as, ha⟩ := exists_cuts v
      rw [cuts_cons (fun hc hv => hcolons ⟨hc, hv⟩) hdot ha] at h
      obtain ⟨rfl, rfl⟩ := List.cons.inj h
      have hpath := ih (w ++ [c]) v (by simpa using hn) ha (by simpa using hs) hss
      simpa using hpath

theorem path_iff : (!run.isEmpty && (segments (.ofList run)).all fun s =>
    s != "" && (leadingName s.toList).length == s.length) = true ↔ Path run := by
  have hname : ∀ s : List Char,
      (String.ofList s != "" && (leadingName (String.ofList s).toList).length ==
        (String.ofList s).length) = true ↔
        WholeName s [] := by
    intro s
    rw [wholeName_nil_iff, Bool.and_eq_true, String.toList_ofList, String.length_ofList, bne_iff_ne,
      beq_iff_eq, Ne,
      String.ofList_eq_empty_iff]
  have hall : ((segments (.ofList run)).all fun s =>
    s != "" && (leadingName s.toList).length == s.length) = true ↔
      ∀ s ∈ cuts run, WholeName s [] := by
    rw [segments_eq, List.all_map, List.all_eq_true]
    exact forall₂_congr fun s _ => hname s
  rw [Bool.and_eq_true, hall]
  constructor
  · rintro ⟨-, h⟩
    obtain ⟨a, as, ha⟩ := exists_cuts run
    rw [ha] at h
    exact path_of_cuts _ [] run (Nat.lt_succ_self _) ha (h a List.mem_cons_self) fun x hx =>
      h x (List.mem_cons_of_mem a hx)
  · intro h
    refine ⟨?_, h.cuts_name⟩
    cases h with
    | name hw => simpa using hw.ne_nil
    | join hw => simp [hw.ne_nil]

theorem not_joins_of_isBlank {c : Char} (hc : isBlank c = true) : joins c = false := by
  have hname := Text.not_continuesName_of_isBlank hc
  have hdot : c ≠ '.' := by
    rintro rfl
    cases hc
  have hcolon : c ≠ ':' := by
    rintro rfl
    cases hc
  simp [joins, hname, hdot, hcolon]

theorem joins_of_path (h : Path s) : ∀ c ∈ s, joins c = true := by
  have hname : ∀ {w : List Char}, WholeName w [] → ∀ c ∈ w, joins c = true := fun hw c hc => by
    simp [joins, hw.continues c hc]
  induction h with
  | name hw => exact hname hw
  | join hw hmark _ ih =>
    intro c hc
    rcases List.mem_append.mp hc with hc | hc
    · exact hname hw c hc
    rcases List.mem_append.mp hc with hc | hc
    · rcases hmark with rfl | rfl <;>
        simp only [List.mem_cons, List.not_mem_nil, or_false, or_self] at hc <;> subst hc <;> rfl
    · exact ih c hc

end

end Templating.Naming
