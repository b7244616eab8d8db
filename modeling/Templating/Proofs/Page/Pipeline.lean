import Mathlib.Data.List.Induction
import Mathlib.Data.List.Nodup
import Templating.Page.Build

/-! Which lists of passes make a pipeline. They are gone through once, with the names of those gone
by; what is accepted are the lists in which names are distinct, every pass comes behind those that
it must follow, and only registered directives are read. Of another list the first pass that cannot
come where it does is told, with the first thing that is wrong with it. -/
namespace Templating

/-! Registered directives -/

namespace DirectiveTable
variable {t : DirectiveTable} {d : Directive} {keyword : String}

def Registered (t : DirectiveTable) (keyword : String) : Prop :=
  ∃ d ∈ t.directives, d.keyword = keyword

theorem isNone_get?_iff (t : DirectiveTable) (keyword : String) : (t.get? keyword).isNone = true ↔
    ¬ t.Registered keyword := by
  simp [get?, Registered]

end DirectiveTable

namespace Page
variable {t : DirectiveTable} {before rest ps : List Pass} {p : Pass} {e : PipelineError}

/-! Sound pipelines -/

def names (ps : List Pass) : List String := ps.map (·.name)

theorem names_append (before ps : List Pass) : names (before ++ ps) = names before ++ names ps :=
  List.map_append

/-- Names are pairwise distinct, whatever a pass must follow is the name of an earlier one, and
every directive that is read is registered. -/
structure SoundPipeline (t : DirectiveTable) (ps : List Pass) : Prop where
  distinct : (names ps).Nodup
  ordered : ∀ before p rest, ps = before ++ p :: rest → ∀ d ∈ p.after, d ∈ names before
  registered : ∀ p ∈ ps, ∀ d ∈ p.reads, t.Registered d

/-- A pass can come behind others. -/
structure Pass.Fits (t : DirectiveTable) (before : List Pass) (p : Pass) : Prop where
  registered : ∀ d ∈ p.reads, t.Registered d
  behind : ∀ d ∈ p.after, d ∈ names before
  fresh : p.name ∉ names before

theorem soundPipeline_concat : SoundPipeline t (ps ++ [p]) ↔ SoundPipeline t ps ∧ p.Fits t ps := by
  have hnames : (names (ps ++ [p])).Nodup ↔ (names ps).Nodup ∧ p.name ∉ names ps := by
    rw [names_append, List.nodup_append_comm]
    simp [names, and_comm]
  constructor
  case mp =>
    intro h
    obtain ⟨hdistinct, hfresh⟩ := hnames.mp h.distinct
    exact ⟨⟨hdistinct, fun before q rest hps => h.ordered before q (rest ++ [p]) (by simp [hps]),
        fun q hq => h.registered q (List.mem_append_left _ hq)⟩,
      ⟨h.registered p (by simp), h.ordered ps p [] rfl, hfresh⟩⟩
  case mpr =>
    rintro ⟨h, hp⟩
    refine ⟨hnames.mpr ⟨h.distinct, hp.fresh⟩, ?_, ?_⟩
    · intro before q rest hps
      -- Either the last pass itself is looked at, or one of those that stood already.
      rcases List.eq_nil_or_concat' rest with rfl | ⟨rest, r, rfl⟩
      · obtain ⟨rfl, hq⟩ := List.append_inj' hps rfl
        obtain rfl : p = q := by simpa using hq
        exact hp.behind
      · rw [← List.cons_append, ← List.append_assoc] at hps
        exact h.ordered before q rest (List.append_inj' hps rfl).1
    · intro q hq
      rcases List.mem_append.mp hq with hq | hq
      · exact h.registered q hq
      · exact List.mem_singleton.mp hq ▸ hp.registered

/-! What is told of a pass -/

def FirstWithout (P : String → Prop) (l : List String) (x : String) : Prop :=
  ¬ P x ∧ ∃ before rest, l = before ++ x :: rest ∧ ∀ y ∈ before, P y

section
variable {P : String → Prop} {lacks : String → Bool} {l : List String} {x : String}

theorem find?_eq_some_iff_first (h : ∀ y, lacks y = true ↔ ¬ P y) :
    l.find? lacks = some x ↔ FirstWithout P l x := by
  simp [List.find?_eq_some_iff_append, FirstWithout, ← Bool.not_eq_true, h]

theorem find?_eq_none_iff_all (h : ∀ y, lacks y = true ↔ ¬ P y) :
    l.find? lacks = none ↔ ∀ y ∈ l, P y := by
  simp [List.find?_eq_none, h]

theorem all_or_first (P : String → Prop) (l : List String) :
    (∀ y ∈ l, P y) ∨ ∃ x, FirstWithout P l x := by
  classical
  have hlacks : ∀ y, decide (¬ P y) = true ↔ ¬ P y := fun y => decide_eq_true_iff
  cases hfind : l.find? fun y => decide (¬ P y) with
  | none => exact .inl ((find?_eq_none_iff_all hlacks).mp hfind)
  | some x => exact .inr ⟨x, (find?_eq_some_iff_first hlacks).mp hfind⟩

end

namespace Pass

/-- What is told of a pass behind others: its first directive that is not registered, else the first
name that it must follow and that is not among theirs, else its own name, which is. -/
inductive Offends (t : DirectiveTable) (before : List Pass) (p : Pass) : PipelineError → Prop
  | unknownDirective {d : String} (first : FirstWithout t.Registered p.reads d) :
    Offends t before p (.unknownDirective p.name d)
  | outOfOrder {d : String} (registered : ∀ d ∈ p.reads, t.Registered d)
    (first : FirstWithout (· ∈ names before) p.after d) : Offends t before p (.outOfOrder p.name d)
  | duplicate (registered : ∀ d ∈ p.reads, t.Registered d) (behind : ∀ d ∈ p.after,
      d ∈ names before)
    (taken : p.name ∈ names before) : Offends t before p (.duplicate p.name)

theorem fits_or_offends (t : DirectiveTable) (before : List Pass) (p : Pass) :
    p.Fits t before ∨ ∃ e, p.Offends t before e := by
  rcases all_or_first t.Registered p.reads with hregistered | ⟨d, hd⟩
  · rcases all_or_first (· ∈ names before) p.after with hbehind | ⟨d, hd⟩
    · by_cases htaken : p.name ∈ names before
      · exact .inr ⟨_, .duplicate hregistered hbehind htaken⟩
      · exact .inl ⟨hregistered, hbehind, htaken⟩
    · exact .inr ⟨_, .outOfOrder hregistered hd⟩
  · exact .inr ⟨_, .unknownDirective hd⟩

/- Names are kept with the last pass first. -/
theorem unseen_iff (y : String) : (!(names before).reverse.contains y) = true ↔
    ¬ y ∈ names before := by
  simp

theorem error?_of_fits (h : p.Fits t before) : p.error? t (names before).reverse = none := by
  have hreads := (find?_eq_none_iff_all t.isNone_get?_iff).mpr h.registered
  have hafter := (find?_eq_none_iff_all unseen_iff).mpr h.behind
  have hfresh : (names before).reverse.contains p.name = false := by simpa using h.fresh
  simp only [error?, hreads, hafter, hfresh, Bool.false_eq_true, if_false]

theorem error?_of_offends (h : p.Offends t before e) :
    p.error? t (names before).reverse = some e := by
  cases h with
  | unknownDirective first =>
    have hreads := (find?_eq_some_iff_first t.isNone_get?_iff).mpr first
    simp only [error?, hreads]
  | outOfOrder registered first =>
    have hreads := (find?_eq_none_iff_all t.isNone_get?_iff).mpr registered
    have hafter := (find?_eq_some_iff_first unseen_iff).mpr first
    simp only [error?, hreads, hafter]
  | duplicate registered behind taken =>
    have hreads := (find?_eq_none_iff_all t.isNone_get?_iff).mpr registered
    have hafter := (find?_eq_none_iff_all unseen_iff).mpr behind
    have htaken : (names before).reverse.contains p.name = true := by simpa using taken
    simp only [error?, hreads, hafter, htaken, if_true]

end Pass

/-! The run over a list -/

theorem validate_append (h : SoundPipeline t before) (rest : List Pass) :
    validate t (before ++ rest) = validateFrom t (names before).reverse rest := by
  induction before using List.reverseRecOn generalizing rest with
  | nil => rfl
  | append_singleton before p ih =>
    obtain ⟨hbefore, hp⟩ := soundPipeline_concat.mp h
    calc
      validate t (before ++ [p] ++ rest) = validateFrom t (names before).reverse (p :: rest) := by
        rw [List.append_assoc]
        exact ih hbefore (p :: rest)
      _ = validateFrom t (p.name :: (names before).reverse) rest := by
        rw [validateFrom, Pass.error?_of_fits hp]
      _ = validateFrom t (names (before ++ [p])).reverse rest := by simp [names]

theorem validate_of_sound (h : SoundPipeline t ps) : validate t ps = .ok () := by
  have hrun := validate_append h []
  rwa [List.append_nil] at hrun

theorem validate_of_offends (h : SoundPipeline t before) (hp : p.Offends t before e)
    (rest : List Pass) :
    validate t (before ++ p :: rest) = .error e := by
  rw [validate_append h, validateFrom, Pass.error?_of_offends hp]

theorem sound_or_offends (t : DirectiveTable) (ps : List Pass) : SoundPipeline t ps ∨
    ∃ before p rest e, ps = before ++ p :: rest ∧ SoundPipeline t before ∧
      p.Offends t before e := by
  -- From the front on: once a pass cannot come where it does, it stays the first such pass whatever
  -- follows.
  induction ps using List.reverseRecOn with
  | nil => exact .inl ⟨List.nodup_nil, by simp, by simp⟩
  | append_singleton ps p ih =>
    rcases ih with hps | ⟨before, q, rest, e, rfl, hbefore, hq⟩
    · rcases p.fits_or_offends t ps with hp | ⟨e, hp⟩
      · exact .inl (soundPipeline_concat.mpr ⟨hps, hp⟩)
      · exact .inr ⟨ps, p, [], e, rfl, hps, hp⟩
    · exact .inr ⟨before, q, rest ++ [p], e, by simp, hbefore, hq⟩

theorem validate_eq_ok_iff : validate t ps = .ok () ↔ SoundPipeline t ps := by
  constructor
  case mp =>
    intro hok
    rcases sound_or_offends t ps with h | ⟨before, p, rest, e, rfl, hbefore, hp⟩
    · exact h
    · rw [validate_of_offends hbefore hp] at hok
      cases hok
  case mpr => exact validate_of_sound

theorem validate_eq_error_iff : validate t ps = .error e ↔
    ∃ before p rest, ps = before ++ p :: rest ∧ SoundPipeline t before ∧ p.Offends t before e := by
  constructor
  case mp =>
    intro herror
    rcases sound_or_offends t ps with h | ⟨before, p, rest, e', rfl, hbefore, hp⟩
    · rw [validate_of_sound h] at herror
      cases herror
    · rw [validate_of_offends hbefore hp] at herror
      cases herror
      exact ⟨before, p, rest, rfl, hbefore, hp⟩
  case mpr =>
    rintro ⟨before, p, rest, rfl, hbefore, hp⟩
    exact validate_of_offends hbefore hp rest

instance : Decidable (SoundPipeline t ps) := decidable_of_iff _ validate_eq_ok_iff

/-- A list of passes is accepted exactly if it is a sound pipeline. Of any other, the first pass is
told that cannot come behind the sound pipeline before it, with the first thing that
is wrong with it. -/
theorem validate_exact (t : DirectiveTable) (ps : List Pass) :
    (validate t ps = .ok () ↔ SoundPipeline t ps) ∧
      ∀ e, validate t ps = .error e ↔
        ∃ before p rest, ps = before ++ p :: rest ∧ SoundPipeline t before ∧ p.Offends t before e :=
  ⟨validate_eq_ok_iff, fun _ => validate_eq_error_iff⟩

example : SoundPipeline .standard pipeline := by decide

example : validate .standard [⟨"body", [], []⟩, ⟨"body", ["section"], ["body", "lowered"]⟩,
    ⟨"lowered", ["layout"], []⟩] =
    .error (.outOfOrder "body" "lowered") := by decide

end Page

end Templating
