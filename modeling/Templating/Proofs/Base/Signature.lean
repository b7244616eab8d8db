import Templating.Proofs.Base.Applicability

/-!
The types of what a page takes over: the types of the base's constructor under one choice of types
for the parameters of its block. Nothing of those parameters is left, and of the parameters of the
base only what the page itself names.
-/

namespace Templating.Base

open Code (Pieces TypeParameter)

namespace Candidate

def choiceIn (c : Candidate) (self : Pieces) (σ : String → Pieces) : Choice :=
  fun n => if n = "Self" then some self else c.choice σ n

/-- A type that names parameters of the block only as whole types, each given by the header, and not
the type of the block. -/
structure Placed (c : Candidate) (as : List Pieces) (t : Pieces) : Prop where
  whole : ∀ q ∈ c.block.generics, q.name ∉ loose t
  bound : ∀ q ∈ c.block.generics, .typeName q.name ∈ t →
    ∃ z ∈ c.header.zip as, c.parameter? z.1 = some q.name
  selfless : ¬Mentions "Self" t

instance (c : Candidate) (as : List Pieces) (t : Pieces) : Decidable (c.Placed as t) :=
  decidable_of_iff (_ ∧ _ ∧ _) ⟨fun h => ⟨h.1, h.2.1, h.2.2⟩, fun h =>
    ⟨h.whole, h.bound, h.selfless⟩⟩

variable {c : Candidate} {as : List Pieces} {t : Pieces}

theorem owns_of_mem_given {z : String × Pieces} (hz : z ∈ c.given as) : c.owns z.1 = true := by
  obtain ⟨y, -, hn, -⟩ := mem_given.mp hz
  exact (parameter?_eq_some hn).2

theorem Placed.instantiate_eq (h : c.Placed as t) (self : Pieces) :
    instantiate (c.choiceIn self (c.settle as)) t = substitute (c.given as) t := by
  refine instantiate_eq_substitute _ _ t ?_ ?_
  case refine_1 =>
    intro n hn
    have hself : n ≠ "Self" := by
      rintro rfl
      exact h.selfless (.inl hn)
    cases howns : c.owns n with
    | true =>
      obtain ⟨q, hq, rfl⟩ := exists_of_owns howns
      obtain ⟨y, -, -, hfind⟩ := find?_given (h.bound q hq hn)
      simp [choiceIn, hself, choice, howns, settle, hfind]
    | false =>
      have hnone : (c.given as).find? (·.1 == n) = none := by
        rw [List.find?_eq_none]
        intro z hz heq
        obtain rfl : z.1 = n := by simpa using heq
        rw [owns_of_mem_given hz] at howns
        cases howns
      simp [choiceIn, hself, choice, howns, hnone]
  case refine_2 =>
    intro w hw
    have hself : w ≠ "Self" := by
      rintro rfl
      exact h.selfless (.inr hw)
    cases howns : c.owns w with
    | true =>
      obtain ⟨q, hq, rfl⟩ := exists_of_owns howns
      exact absurd hw (h.whole q hq)
    | false => simp [choiceIn, hself, choice, howns]

theorem Placed.mentions (h : c.Placed as t) {n : String}
    (hn : Mentions n (substitute (c.given as) t)) :
    (c.owns n = false ∧ n ≠ "Self" ∧ Mentions n t) ∨ ∃ a ∈ as, Mentions n a := by
  have hargument : ∀ z ∈ c.given as, z.2 ∈ as := by
    intro z hz
    obtain ⟨y, hy, -, hyz⟩ := mem_given.mp hz
    exact hyz ▸ (List.of_mem_zip hy).2
  have hself : Mentions n t → n ≠ "Self" := by
    rintro hmentions rfl
    exact h.selfless hmentions
  cases hn with
  | inl hname =>
    rcases typeName_mem_substitute hname with ⟨ht, hfree⟩ | ⟨z, hz, hname⟩
    · left
      refine ⟨?_, hself (.inl ht), .inl ht⟩
      cases howns : c.owns n with
      | false => rfl
      | true =>
        obtain ⟨q, hq, rfl⟩ := exists_of_owns howns
        obtain ⟨y, hy, hp⟩ := h.bound q hq ht
        exact absurd rfl (hfree (q.name, y.2) (mem_given.mpr ⟨y, hy, hp, rfl⟩))
    · exact .inr ⟨z.2, hargument z hz, .inl hname⟩
  | inr hword =>
    rcases mem_loose_of_substitute t hword with ht | ⟨z, hz, hword⟩
    · left
      refine ⟨?_, hself (.inr ht), .inr ht⟩
      cases howns : c.owns n with
      | false => rfl
      | true =>
        obtain ⟨q, hq, rfl⟩ := exists_of_owns howns
        exact absurd ht (h.whole q hq)
    · exact .inr ⟨z.2, hargument z hz, .inr hword⟩

theorem types_inputs (c : Candidate) (as : List Pieces) :
    (c.inputs as).map (·.type) = c.function.parameters.map fun x =>
      (substitute (c.given as) x.type).print := by
  have hparameters :
      (constructor [] c.function).parameters.map (·.2) = c.function.parameters.map (·.type) := by
    unfold constructor
    rw [List.map_map]
    have hfst :=
      congrArg (List.map Code.Parameter.type) (List.zipIdx_map_fst 0 c.function.parameters)
    rw [List.map_map] at hfst
    exact hfst
  have htypes := congrArg (List.map fun t => (substitute (c.given as) t).print) hparameters
  rw [List.map_map, List.map_map] at htypes
  unfold inputs
  rw [List.map_map]
  exact htypes

end Candidate

theorem mem_of_arguments? {qs : List TypeParameter} {as full : List Pieces}
    (h : arguments? qs as = some full) {a : Pieces}
    (ha : a ∈ full) : a ∈ as ∨ ∃ q ∈ qs.drop as.length, a ∈ q.default? := by
  induction qs generalizing as full with
  | nil =>
    obtain rfl : [] = full := by cases as <;> exact Option.some.inj h
    cases ha
  | cons q qs ih =>
    cases as with
    | cons b as =>
      obtain ⟨rest, hrest, rfl⟩ := Option.map_eq_some_iff.mp h
      cases List.mem_cons.mp ha with
      | inl hab => exact .inl (by simp [hab])
      | inr ha => exact (ih hrest ha).imp_left (List.mem_cons_of_mem b)
    | nil =>
      obtain ⟨t, ht, h⟩ := Option.bind_eq_some_iff.mp h
      obtain ⟨rest, hrest, h⟩ := Option.bind_eq_some_iff.mp h
      cases h
      right
      cases List.mem_cons.mp ha with
      | inl hat => exact ⟨q, List.mem_cons_self, hat ▸ ht⟩
      | inr ha =>
        rcases ih hrest ha with hnil | ⟨r, hr, hdefault⟩
        · cases hnil
        · exact ⟨r, List.mem_cons_of_mem q hr, hdefault⟩

theorem Inherited.argument_given {d : Page.Document} {o : Options} (i : Inherited d o)
    (hsettled : i.Settled) {a : Pieces}
    (ha : a ∈ i.arguments) : a ∈ i.path.arguments ∨ ∀ q ∈ i.parameters, ¬Mentions q.name a := by
  rcases mem_of_arguments? (i.arguments?_eq hsettled) ha with hgiven | ⟨q, hq, hdefault⟩
  · exact .inl hgiven
  · exact .inr (hsettled q hq a hdefault)

/-- The parameters of what a page takes over have the types of the base's constructor under one
choice of types for the parameters of its block, all put in at once: a choice that makes the
arguments of the header those of the inherited type. No parameter of the block is left, and no
parameter of the base but in an argument that the page gives. -/
theorem forward_instances {d : Page.Document} {o : Options} (i : Inherited d o)
    (hsettled : i.Settled) :
    forward d (ambient o) =
      .ok (((candidates (items o) i.path.name).filter (·.fits i.arguments)).map
        (·.member i.base.text i.arguments)) ∧
      (∀ c ∈ candidates (items o) i.path.name, c.fits i.arguments = true → c.Regular i.arguments →
        (∀ x ∈ c.function.parameters, c.Placed i.arguments x.type) →
        ∃ σ, (∀ z ∈ c.header.zip i.arguments, (instantiate (c.choice σ) z.1).print = z.2.print) ∧
          (c.inputs i.arguments).map (·.type) =
            c.function.parameters.map (fun x =>
              (instantiate (c.choiceIn i.type.pieces σ) x.type).print) ∧
          ∀ x ∈ c.function.parameters, ∀ n,
            Mentions n (instantiate (c.choiceIn i.type.pieces σ) x.type) →
            (c.owns n = false ∧ n ≠ "Self" ∧ Mentions n x.type) ∨ ∃ a ∈ i.arguments, Mentions n a) ∧
      ∀ a ∈ i.arguments, a ∈ i.path.arguments ∨ ∀ q ∈ i.parameters, ¬Mentions q.name a := by
  refine ⟨i.forward_eq hsettled, ?_, fun a ha => i.argument_given hsettled ha⟩
  intro c _ hfits hregular hplaced
  refine ⟨c.settle i.arguments, fun z hz => hregular.solves hfits hz, ?types, ?names⟩
  case types =>
    rw [c.types_inputs]
    refine List.map_congr_left fun x hx => ?_
    rw [(hplaced x hx).instantiate_eq]
  case names =>
    intro x hx n hn
    rw [(hplaced x hx).instantiate_eq] at hn
    exact (hplaced x hx).mentions hn

def shared : Options where
  embedRuntime := false
  units :=
    [⟨"shared",
      "struct Base<A, B = Vec<u8>>; impl<T, U> Base<T, U> \x7b #[template_constructor] " ++
    "pub fn new(a: Option<&'static T>, b: U, c: m::T) -> Self \x7b\x7d \x7d"⟩]

def sharedPage : Page.Document where
  source := "page.stencil"
  namespaceName := "templates"
  definition := { name := "page", base? := some ⟨"Base<U>", ⟨⟨"page.stencil", ""⟩, ⟨0, 0⟩⟩⟩ }

def bytes : Pieces :=
  .word "Vec" :: Code.Piece.symbol "<" ++ [.typeName "u8"] ++ Code.Piece.symbol ">"

def sharedInherited : Inherited sharedPage shared where
  base := ⟨"Base<U>", ⟨⟨"page.stencil", ""⟩, ⟨0, 0⟩⟩⟩
  type := ⟨.word "Base" :: Code.Piece.symbol "<" ++ [.typeName "U"] ++ Code.Piece.symbol ">",
    some ⟨false, true, "Base", [[.typeName "U"]]⟩, true⟩
  path := ⟨false, true, "Base", [[.typeName "U"]]⟩
  parameters := [⟨"A", none⟩, ⟨"B", some bytes⟩]
  arguments := [[.typeName "U"], bytes]
  base_eq := rfl
  type_eq := by decide +kernel
  path_eq := rfl
  unqualified := rfl
  definition_eq := by decide +kernel
  arguments_eq := by decide +kernel

theorem forward_instances_shared :
    sharedInherited.Settled ∧
      forward sharedPage (ambient shared) = .ok [.constructor ⟨"new",
        [⟨"a", "Option < & 'static U >"⟩, ⟨"b", "Vec < u8 >"⟩, ⟨"c", "m :: T"⟩], "Base<U>", []⟩] ∧
      ∃ c ∈ candidates (items shared) "Base", c.fits sharedInherited.arguments = true ∧
        c.Regular sharedInherited.arguments ∧
        (∀ x ∈ c.function.parameters, c.Placed sharedInherited.arguments x.type) ∧
        ∃ σ, (c.inputs sharedInherited.arguments).map (·.type) =
          c.function.parameters.map (fun x =>
            (instantiate (c.choiceIn sharedInherited.type.pieces σ) x.type).print) := by
  have hsettled : sharedInherited.Settled := by decide +kernel
  obtain ⟨hforward, hinstances, -⟩ := forward_instances sharedInherited hsettled
  obtain ⟨hmembers, c, hc, hfits, hregular, hplaced⟩ :
      ((candidates (items shared) "Base").filter (·.fits sharedInherited.arguments)).map
        (·.member sharedInherited.base.text sharedInherited.arguments) =
          [.constructor ⟨"new",
            [⟨"a", "Option < & 'static U >"⟩, ⟨"b", "Vec < u8 >"⟩, ⟨"c", "m :: T"⟩],
            "Base<U>", []⟩] ∧
      ∃ c ∈ candidates (items shared) "Base", c.fits sharedInherited.arguments = true ∧
        c.Regular sharedInherited.arguments ∧
        ∀ x ∈ c.function.parameters, c.Placed sharedInherited.arguments x.type := by
    decide +kernel
  obtain ⟨σ, -, htypes, -⟩ := hinstances c hc hfits hregular hplaced
  refine ⟨hsettled, ?_, c, hc, hfits, hregular, hplaced, σ, htypes⟩
  rw [hforward]
  exact congrArg Except.ok hmembers

end Templating.Base
