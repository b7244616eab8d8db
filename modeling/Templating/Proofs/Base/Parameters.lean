import Templating.Proofs.Base.Signature
import Templating.Proofs.Unit.Written

/-!
How constructors that a page takes over hand on their arguments. A parameter is known by the name
that its pattern writes, or by one made from its place; the same names, in the same order, are
declared and passed. They are distinct unless the base writes a name twice, or writes one that is
made for another place.
-/

namespace Templating.Base

open Code (Parameter Function)

/-! Names -/

/-- The name of a parameter whose pattern is more than a name, made from its place. -/
def invented (i : Nat) : String := s!"arg{i}"

def written (ps : List Parameter) : List String := ps.filterMap (·.name?)

def names (ps : List Parameter) : List String := ps.mapIdx fun i p => p.name?.getD (invented i)

theorem invented_injective {i j : Nat} (h : invented i = invented j) : i = j := by
  have hrepr : i.repr = j.repr := (String.append_right_inj "arg").mp h
  have hdigits : Nat.toDigits 10 i = Nat.toDigits 10 j := by
    rw [← Nat.toList_repr, ← Nat.toList_repr, hrepr]
  calc i = Nat.ofDigitChars 10 (Nat.toDigits 10 i) 0 :=
    (Nat.ofDigitChars_toDigits (by decide) (by decide)).symm
    _ = j := by rw [hdigits, Nat.ofDigitChars_toDigits (by decide) (by decide)]

theorem nodup_names_iff (ps : List Parameter) :
    (names ps).Nodup ↔
      (written ps).Nodup ∧ ∀ i (hi : i < ps.length), ps[i].name? = none →
        invented i ∉ written ps := by
  have hnames : (names ps).Nodup ↔ ∀ i j (hi : i < ps.length) (hj : j < ps.length), i < j →
      ps[i].name?.getD (invented i) ≠ ps[j].name?.getD (invented j) := by
    rw [List.Nodup, List.pairwise_iff_getElem, names]
    simp only [List.getElem_mapIdx, List.length_mapIdx]
  have hwritten : (written ps).Nodup ↔ ∀ i j (hi : i < ps.length) (hj : j < ps.length), i < j →
      ∀ x, ps[i].name? = some x → ∀ y, ps[j].name? = some y → x ≠ y := by
    rw [List.Nodup, written, List.pairwise_filterMap, List.pairwise_iff_getElem]
  have hmem : ∀ x, x ∈ written ps ↔ ∃ j, ∃ hj : j < ps.length, ps[j].name? = some x := by
    intro x
    rw [written, List.mem_filterMap]
    constructor
    case mp =>
      rintro ⟨p, hp, hx⟩
      obtain ⟨j, hj, rfl⟩ := List.mem_iff_getElem.mp hp
      exact ⟨j, hj, hx⟩
    case mpr =>
      rintro ⟨j, hj, hx⟩
      exact ⟨ps[j], List.getElem_mem hj, hx⟩
  rw [hnames, hwritten]
  constructor
  case mp =>
    intro h
    refine ⟨?_, ?_⟩
    · intro i j hi hj hlt x hx y hy
      simpa [hx, hy] using h i j hi hj hlt
    · intro i hi hnone hin
      obtain ⟨j, hj, hx⟩ := (hmem _).mp hin
      rcases Nat.lt_trichotomy i j with hlt | rfl | hlt
      · exact h i j hi hj hlt (by simp [hnone, hx])
      · simp [hnone] at hx
      · exact h j i hj hi hlt (by simp [hnone, hx])
  case mpr =>
    rintro ⟨hdistinct, hapart⟩ i j hi hj hlt heq
    cases hx : ps[i].name? with
    | none =>
      cases hy : ps[j].name? with
      | none => exact Nat.ne_of_lt hlt (invented_injective (by simpa [hx, hy] using heq))
      | some y => exact hapart i hi hx ((hmem _).mpr ⟨j, hj, by simpa [hx, hy] using heq.symm⟩)
    | some x =>
      cases hy : ps[j].name? with
      | none => exact hapart j hj hy ((hmem _).mpr ⟨i, hi, by simpa [hx, hy] using heq⟩)
      | some y => exact hdistinct i j hi hj hlt x hx y hy (by simpa [hx, hy] using heq)

/-! Constructors -/

theorem Candidate.names_inputs (c : Candidate) (as : List Code.Pieces) :
    (c.inputs as).map (·.name) = names c.function.parameters := by
  unfold Candidate.inputs constructor names
  rw [List.mapIdx_eq_zipIdx_map, List.map_map, List.map_map]
  rfl

theorem candidate_of_forward {d : Page.Document} {o : Options} {ms : List Page.Member}
    (h : forward d (ambient o) = .ok ms) {m : Page.Member} (hm : m ∈ ms) :
    ∃ base p as, d.definition.base? = some base ∧ (Code.type? base.text).bind (·.path?) = some p ∧
      ∃ c ∈ candidates (items o) p.name, c.fits as = true ∧ m = c.member base.text as := by
  obtain ⟨base, p, t, as, c, hbase, hp, -, ht, -, hc, hm⟩ := exists_of_mem_forward h hm
  obtain ⟨ps, -, rfl⟩ := Option.map_eq_some_iff.mp (Except.ok.inj ht)
  have htaken : m ∈ ((items o).flatMap (constructorsOf p.name)).filterMap
      (forwarded? base.text as) :=
    List.mem_filterMap.mpr ⟨c, hc, hm⟩
  rw [filterMap_constructors] at htaken
  obtain ⟨c, hc, rfl⟩ := List.mem_map.mp htaken
  obtain ⟨hc, hfits⟩ := List.mem_filter.mp hc
  exact ⟨base, p, as, hbase, hp, c, hc, hfits, rfl⟩

/-- A constructor that a page takes over has the parameters of a constructor of its base, in their
order, and calls it with the names that it declares them under; so it stands in the unit. The names
are distinct if and only if the base writes none twice, and none that is made for the place of a
parameter whose pattern is more than a name. -/
theorem forward_parameters {d : Page.Document} {o : Options} {ms : List Page.Member}
    (h : forward d (ambient o) = .ok ms) {m : Page.Member} (hm : m ∈ ms) :
    ∃ base p as, d.definition.base? = some base ∧ (Code.type? base.text).bind (·.path?) = some p ∧
      ∃ c ∈ candidates (items o) p.name, c.fits as = true ∧
        ∃ k, m = .constructor k ∧ k.name = c.function.name ∧ k.base = base.text ∧
          k.parameters.map (·.name) = names c.function.parameters ∧
          k.parameters.map (·.type) =
            c.function.parameters.map (fun q => (substitute (c.given as) q.type).print) ∧
          (∃ default ls, Unit.Written d ms default ls ∧ (Unit.emit d ms).toList = ls.written ∧
            k.docs.map (fun doc => .text 2 ("/// " ++ doc)) ++
              Unit.handing 2 d.definition.modifiers.visibility k <:+: ls) ∧
          ((k.parameters.map (·.name)).Nodup ↔ (written c.function.parameters).Nodup ∧
            ∀ i (hi : i < c.function.parameters.length), c.function.parameters[i].name? = none →
              invented i ∉ written c.function.parameters) := by
  obtain ⟨base, p, as, hbase, hp, c, hc, hfits, rfl⟩ := candidate_of_forward h hm
  have hnames := c.names_inputs as
  obtain ⟨ls, hwritten, htext⟩ := Unit.exists_written d ms
  obtain ⟨lines, hdeclared, hstands⟩ := hwritten.exists_declared hm
  cases hdeclared
  refine ⟨base, p, as, hbase, hp, c, hc, hfits, _, rfl, rfl, rfl, hnames, c.types_inputs as,
    ⟨_, ls, hwritten, htext, hstands⟩, ?_⟩
  rw [← nodup_names_iff, ← hnames]

def crossed : Options where
  embedRuntime := false
  units := [⟨"crossed", "pub struct B; impl B \x7b #[template_constructor] " ++
    "pub fn new(arg1: u8, (a, b): (u8, u8)) -> Self \x7b B \x7d \x7d"⟩]

def crossedPage : Page.Document where
  source := "page.stencil"
  namespaceName := "templates"
  definition := { name := "page", base? := some ⟨"B", ⟨⟨"page.stencil", ""⟩, ⟨0, 0⟩⟩⟩ }

def crossedConstructor : Page.Constructor :=
  ⟨"new", [⟨"arg1", "u8"⟩, ⟨"arg1", "(u8 , u8)"⟩], "B", []⟩

theorem forward_parameters_crossed :
    forward crossedPage (ambient crossed) = .ok [.constructor crossedConstructor] ∧
      (∃ default ls, Unit.Written crossedPage [.constructor crossedConstructor] default ls ∧
        (Unit.emit crossedPage [.constructor crossedConstructor]).toList = ls.written ∧
        Unit.handing 2 "pub(crate)" crossedConstructor <:+: ls) ∧
      ∃ c ∈ candidates (items crossed) "B", names c.function.parameters = ["arg1", "arg1"] ∧
        ¬((written c.function.parameters).Nodup ∧
          ∀ i (hi : i < c.function.parameters.length), c.function.parameters[i].name? = none →
            invented i ∉ written c.function.parameters) := by
  have hforward : forward crossedPage (ambient crossed) = .ok [.constructor crossedConstructor] :=
    ok_of_toOption (by decide +kernel)
  obtain ⟨base, p, as, hbase, hp, c, hc, -, k, hk, -, -, hnames, -, hwritten, hnodup⟩ :=
    forward_parameters hforward List.mem_cons_self
  obtain rfl := Page.Member.constructor.inj hk
  have hname : p.name = "B" := by
    obtain rfl := Option.some.inj hbase
    have hpath : ((Code.type? "B").bind (·.path?)).map (·.name) = some "B" := by decide +kernel
    have hmap := congrArg (Option.map (·.name)) hp
    exact Option.some.inj (hmap.symm.trans hpath)
  rw [hname] at hc
  exact ⟨hforward, hwritten, c, hc, hnames.symm, fun h => absurd (hnodup.mpr h) (by decide)⟩

/-- Names that are made for other places than those of the names that are written stay apart. -/
example : (names [⟨some "arg0", []⟩, ⟨none, []⟩, ⟨none, []⟩]).Nodup := by decide

end Templating.Base
