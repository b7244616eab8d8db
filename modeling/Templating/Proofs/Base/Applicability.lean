import Templating.Proofs.Base.Instantiation

/-!
Which constructors a page takes over. What stands in the units is said first, as candidates in the
order of the units; then what is asked of a block for it to apply to the inherited type; then that
the search for constructors finds those candidates whose header fits the arguments of the type,
which is the same for headers without nested, clashing or missing arguments.
-/

namespace Templating.Base

open Code (Pieces Item Block Function TypeParameter)

/-- A function that a page may offer, with the arguments that its block gives the type. -/
structure Candidate where
  block : Block
  header : List Pieces
  function : Function

/-- The arguments that a block gives the named type; nothing for a block of another type
or of a trait. -/
def header? (name : String) (b : Block) : Option (List Pieces) :=
  match b.self.path? with
  | some p => if b.ofTrait || p.qualified || p.name != name then none else some p.arguments
  | none => none

/-- Public, without receiver or parameters of its own, of the type, and marked. -/
def offers (name : String) (f : Function) : Bool :=
  f.exported && !f.receiver && !f.generic && returnsSelf name f &&
    f.attributes.any (·.name == "template_constructor") &&
    f.name != "from_base"

def candidatesOf (name : String) : Item → List Candidate
  | .block b =>
    match header? name b with
    | some hs => (b.functions.filter (offers name)).map (⟨b, hs, ·⟩)
    | none => []
  | _ => []

def candidates (items : List Item) (name : String) : List Candidate :=
  items.flatMap (candidatesOf name)

namespace Candidate

def owns (c : Candidate) (n : String) : Bool := c.block.generics.any (·.name == n)

def parameter? (c : Candidate) : Pieces → Option String
  | [.typeName n] => if c.owns n then some n else none
  | _ => none

def admits (c : Candidate) (z : Pieces × Pieces) : Bool :=
  (c.parameter? z.1).isSome || z.1.print == z.2.print

def fits (c : Candidate) (as : List Pieces) : Bool := (c.header.zip as).all c.admits

def gives? (c : Candidate) (z : Pieces × Pieces) : Option (String × Pieces) :=
  (c.parameter? z.1).map (·, z.2)

/-- What the header gives the block's parameters, the last given first. -/
def given (c : Candidate) (as : List Pieces) : List (String × Pieces) :=
  ((c.header.zip as).filterMap c.gives?).reverse

def inputs (c : Candidate) (as : List Pieces) : List Page.Parameter :=
  (constructor [] c.function).parameters.map fun (n, t) => ⟨n, (substitute (c.given as) t).print⟩

def member (c : Candidate) (base : String) (as : List Pieces) : Page.Member :=
  .constructor ⟨c.function.name, c.inputs as, base, (constructor [] c.function).docs⟩

def choice (c : Candidate) (σ : String → Pieces) : Choice :=
  fun n => if c.owns n then some (σ n) else none

/-- Some types for the block's parameters make the arguments of its header, and the defaults of
those that it leaves out, the arguments of the type. -/
def Applies (c : Candidate) (ps : List TypeParameter) (as : List Pieces) : Prop :=
  ∃ σ full, effective? [] ps (c.header.map (instantiate (c.choice σ))) = some full ∧
    full.map Code.Pieces.print = as.map Code.Pieces.print

/-- A header that names a parameter of its block only as a whole argument, and twice
only for one argument. -/
structure Regular (c : Candidate) (as : List Pieces) : Prop where
  plain : ∀ h ∈ c.header, (c.parameter? h).isSome ∨ ∀ q ∈ c.block.generics, ¬Mentions q.name h
  steady : ∀ x ∈ c.header.zip as, ∀ y ∈ c.header.zip as, (c.parameter? x.1).isSome →
    c.parameter? x.1 = c.parameter? y.1 →
    x.2.print = y.2.print

instance (c : Candidate) (as : List Pieces) : Decidable (c.Regular as) :=
  decidable_of_iff (_ ∧ _) ⟨fun h => ⟨h.1, h.2⟩, fun h => ⟨h.plain, h.steady⟩⟩

/-- The arguments that a header leaves out are defaults, and name no parameter. -/
def Complete (c : Candidate) (ps : List TypeParameter) (as : List Pieces) : Prop :=
  ∀ z ∈ (ps.zip as).drop c.header.length, ∃ d ∈ z.1.default?, (∀ q ∈ ps, ¬Mentions q.name d) ∧
    d.print = z.2.print

instance (c : Candidate) (ps : List TypeParameter) (as : List Pieces) :
    Decidable (c.Complete ps as) :=
  inferInstanceAs (Decidable (∀ z ∈ _, _))

end Candidate

/-- A page whose base is a type of the units, with the arguments that the type is used with. -/
structure Inherited (d : Page.Document) (o : Options) where
  base : Page.Declaration
  type : Code.TypeExpr
  path : Code.PathEnd
  parameters : List TypeParameter
  arguments : List Pieces
  base_eq : d.definition.base? = some base
  type_eq : Code.type? base.text = some type
  path_eq : type.path? = some path
  unqualified : path.qualified = false
  definition_eq : (items o).findSome? (definition? path.name) = some parameters
  arguments_eq : effective? [] parameters path.arguments = some arguments

def Inherited.Settled {d : Page.Document} {o : Options} (i : Inherited d o) : Prop :=
  ∀ q ∈ i.parameters.drop i.path.arguments.length, ∀ t ∈ q.default?, ∀ r ∈ i.parameters,
    ¬Mentions r.name t

instance {d : Page.Document} {o : Options} (i : Inherited d o) : Decidable i.Settled :=
  inferInstanceAs (Decidable (∀ q ∈ _, _))

section Search

variable {name : String}

/-- What the search notes of an argument of a header. -/
def note (b : Block) (h : Pieces) : Binding :=
  match h with
  | [.typeName n] => if b.generics.any (·.name == n) then .parameter n else .concrete h
  | _ => .concrete h

theorem note_of_some {c : Candidate} {h : Pieces} {n : String} (hp : c.parameter? h = some n) :
    note c.block h = .parameter n := by
  unfold Candidate.parameter? Candidate.owns at hp
  unfold note
  split at hp
  next m =>
    split at hp
    next hm =>
      obtain rfl := Option.some.inj hp
      simp [hm]
    next => cases hp
  next => cases hp

theorem note_of_none {c : Candidate} {h : Pieces} (hp : c.parameter? h = none) :
    note c.block h = .concrete h := by
  unfold Candidate.parameter? Candidate.owns at hp
  unfold note
  split at hp <;> simp_all

theorem bind?_notes (c : Candidate) (hs as : List Pieces) :
    bind? (hs.map (note c.block)) as =
      if (hs.zip as).all c.admits then some ((hs.zip as).filterMap c.gives?).reverse else none := by
  induction hs generalizing as with
  | nil => rfl
  | cons h hs ih =>
    cases as with
    | nil =>
      cases hp : c.parameter? h with
      | some n => simp [note_of_some hp, bind?]
      | none => simp [note_of_none hp, bind?]
    | cons a as =>
      have hmap : (h :: hs).map (note c.block) = note c.block h :: hs.map (note c.block) := rfl
      rw [hmap, List.zip_cons_cons, List.all_cons, List.filterMap_cons]
      cases hp : c.parameter? h with
      | some n =>
        have hadmits : c.admits (h, a) = true := by simp [Candidate.admits, hp]
        have hgives : c.gives? (h, a) = some (n, a) := by simp [Candidate.gives?, hp]
        rw [hadmits, hgives, note_of_some hp, bind?, ih, Bool.true_and]
        split <;> simp
      | none =>
        have hadmits : c.admits (h, a) = (h.print == a.print) := by simp [Candidate.admits, hp]
        have hgives : c.gives? (h, a) = none := by simp [Candidate.gives?, hp]
        rw [hadmits, hgives, note_of_none hp, bind?, ih]
        cases h.print == a.print with
        | true => rfl
        | false => rfl

theorem bindings?_eq (b : Block) (hb : b.ofTrait = false) :
    bindings? name b = (header? name b).map (·.map (note b)) := by
  unfold bindings? header?
  cases b.self.path? with
  | none => rfl
  | some p =>
    by_cases hp : p.qualified || p.name != name
    · simp [hb, hp]
    · simp only [hb, hp, Bool.false_or, Bool.false_eq_true, if_false, Option.map_some]
      rfl

theorem forwarded?_constructor (c : Candidate) (base : String) (as : List Pieces)
    (hf : isConstructor name c.function = true) :
    forwarded? base as (constructor (c.header.map (note c.block)) c.function) =
      if offers name c.function && c.fits as then some (c.member base as) else none := by
  have hbind : bind? (constructor (c.header.map (note c.block)) c.function).bindings as =
      if c.fits as then some (c.given as) else none := bind?_notes c c.header as
  have hoffers : offers name c.function = (isConstructor name c.function &&
      (constructor (c.header.map (note c.block)) c.function).marked &&
        (constructor (c.header.map (note c.block)) c.function).name != reserved) := rfl
  rw [hf, Bool.true_and] at hoffers
  unfold forwarded?
  rw [← hoffers, hbind]
  cases offers name c.function with
  | false => rfl
  | true =>
    cases c.fits as with
    | false => rfl
    | true => rfl

theorem forwarded?_functions (b : Block) (hs : List Pieces) (base : String) (as : List Pieces)
    (fs : List Function) :
    ((fs.filter (isConstructor name)).map (constructor (hs.map (note b)))).filterMap
      (forwarded? base as) =
      (((fs.filter (offers name)).map (Candidate.mk b hs ·)).filter (·.fits as)).map
        (·.member base as) := by
  induction fs with
  | nil => rfl
  | cons f fs ih =>
    cases hf : isConstructor name f with
    | false =>
      have hoffers : offers name f = false := by
        have hsplit : offers name f = (isConstructor name f &&
            (f.attributes.any (·.name == "template_constructor")) && f.name != "from_base") := rfl
        rw [hsplit, hf]
        rfl
      rw [List.filter_cons_of_neg (by simp [hf]), List.filter_cons_of_neg (by simp [hoffers]), ih]
    | true =>
      have hfirst : forwarded? base as (constructor (hs.map (note b)) f) =
          if offers name f && (Candidate.mk b hs f).fits as then
            some ((Candidate.mk b hs f).member base as) else none :=
        forwarded?_constructor (Candidate.mk b hs f) base as hf
      rw [List.filter_cons_of_pos hf, List.map_cons, List.filterMap_cons, hfirst, ih]
      cases hoffers : offers name f with
      | false => simp [hoffers]
      | true => cases hfit : (Candidate.mk b hs f).fits as <;> simp [hoffers, hfit]

theorem forwarded?_constructorsOf (base : String) (as : List Pieces) (i : Item) :
    (constructorsOf name i).filterMap (forwarded? base as) =
      ((candidatesOf name i).filter (·.fits as)).map (·.member base as) := by
  cases i with
  | typeDefinition n ps => rfl
  | module items => rfl
  | other => rfl
  | block b =>
    cases htrait : b.ofTrait with
    | true =>
      have hheader : header? name b = none := by
        unfold header?
        cases b.self.path? <;> simp [htrait]
      simp [constructorsOf, candidatesOf, htrait, hheader]
    | false =>
      have hbindings := @bindings?_eq name b htrait
      cases hheader : header? name b with
      | none =>
        rw [hheader] at hbindings
        simp [constructorsOf, candidatesOf, htrait, hheader, hbindings]
      | some hs =>
        rw [hheader] at hbindings
        have hall := @forwarded?_functions name b hs base as b.functions
        simpa [constructorsOf, candidatesOf, htrait, hheader, hbindings] using hall

theorem filterMap_constructors (items : List Item) (base : String) (as : List Pieces) :
    (items.flatMap (constructorsOf name)).filterMap (forwarded? base as) =
      ((candidates items name).filter (·.fits as)).map (·.member base as) := by
  induction items with
  | nil => rfl
  | cons i items ih =>
    have hcons : candidates (i :: items) name = candidatesOf name i ++ candidates items name := rfl
    rw [hcons, List.flatMap_cons, List.filterMap_append, List.filter_append, List.map_append, ih,
      forwarded?_constructorsOf]

end Search

theorem ok_of_toOption {ε α : Type} {x : Except ε α} {a : α} (h : x.toOption = some a) :
    x = .ok a := by
  cases x with
  | error e => cases h
  | ok b => exact congrArg Except.ok (Option.some.inj h)

theorem exists_of_mem_forward {d : Page.Document} {resolve : Resolver} {ms : List Page.Member}
    (h : forward d resolve = .ok ms) {m : Page.Member} (hm : m ∈ ms) :
    ∃ base p t as c, d.definition.base? = some base ∧
      (Code.type? base.text).bind (·.path?) = some p ∧ p.qualified = false ∧
      resolve p.name = .ok (some t) ∧ arguments? t.parameters p.arguments = some as ∧
        c ∈ t.constructors ∧
        forwarded? base.text as c = some m := by
  have hnone : ∀ {ms : List Page.Member},
      (.ok [] : Except Crash (List Page.Member)) = .ok ms → m ∉ ms := by
    intro ms h
    cases h
    exact List.not_mem_nil
  unfold forward at h
  split at h
  · exact absurd hm (hnone h)
  next base hbase =>
    split at h
    · exact absurd hm (hnone h)
    next p hp =>
      split at h
      · exact absurd hm (hnone h)
      next hqualified =>
        cases hr : resolve p.name with
        | error e =>
          rw [hr] at h
          cases h
        | ok t? =>
          rw [hr] at h
          cases t? with
          | none => exact absurd hm (hnone h)
          | some t =>
            cases has : arguments? t.parameters p.arguments with
            | none =>
              simp only [bind, Except.bind, has] at h
              exact absurd hm (hnone h)
            | some as =>
              simp only [bind, Except.bind, has] at h
              obtain rfl := Except.ok.inj h
              obtain ⟨c, hc, hm⟩ := List.mem_filterMap.mp hm
              exact ⟨base, p, t, as, c, hbase, hp, eq_false_of_ne_true hqualified, hr, has, hc, hm⟩

namespace Inherited

variable {d : Page.Document} {o : Options}

theorem arguments?_eq (i : Inherited d o) (hsettled : i.Settled) :
    arguments? i.parameters i.path.arguments = some i.arguments := by
  rw [← i.arguments_eq, effective?_of_closed hsettled]

theorem forward_eq (i : Inherited d o) (hsettled : i.Settled) :
    forward d (ambient o) =
      .ok (((candidates (items o) i.path.name).filter (·.fits i.arguments)).map
      (·.member i.base.text i.arguments)) := by
  have hpath : (Code.type? i.base.text).bind (·.path?) = some i.path := by
    rw [i.type_eq, Option.bind_some, i.path_eq]
  have hfind : ambient o i.path.name =
      .ok (some ⟨i.parameters, (items o).flatMap (constructorsOf i.path.name)⟩) := by
    unfold ambient find?
    rw [i.definition_eq]
    rfl
  unfold forward
  simp only [i.base_eq, hpath, i.unqualified, hfind, bind, Except.bind, i.arguments?_eq hsettled]
  exact congrArg Except.ok (filterMap_constructors (items o) i.base.text i.arguments)

end Inherited

namespace Candidate

variable {c : Candidate} {ps : List TypeParameter} {as : List Pieces}

theorem exists_of_owns {n : String} (h : c.owns n = true) : ∃ q ∈ c.block.generics, q.name = n := by
  obtain ⟨q, hq, hname⟩ := List.any_eq_true.mp h
  exact ⟨q, hq, by simpa using hname⟩

theorem parameter?_eq_some {h : Pieces} {n : String} (hp : c.parameter? h = some n) :
    h = [.typeName n] ∧ c.owns n = true := by
  unfold parameter? at hp
  split at hp
  next m =>
    split at hp
    next hm =>
      obtain rfl := Option.some.inj hp
      exact ⟨rfl, hm⟩
    next => cases hp
  next => cases hp

def settle (c : Candidate) (as : List Pieces) (n : String) : Pieces :=
  (((c.given as).find? (·.1 == n)).map (·.2)).getD []

theorem mem_given {z : String × Pieces} :
    z ∈ c.given as ↔ ∃ y ∈ c.header.zip as, c.parameter? y.1 = some z.1 ∧ y.2 = z.2 := by
  unfold given
  rw [List.mem_reverse, List.mem_filterMap]
  constructor
  case mp =>
    rintro ⟨y, hy, hgives⟩
    obtain ⟨n, hn, rfl⟩ := Option.map_eq_some_iff.mp hgives
    exact ⟨y, hy, hn, rfl⟩
  case mpr =>
    rintro ⟨y, hy, hn, hz⟩
    exact ⟨y, hy, by simp [gives?, hn, hz]⟩

theorem find?_given {n : String} (h : ∃ y ∈ c.header.zip as, c.parameter? y.1 = some n) :
    ∃ y ∈ c.header.zip as, c.parameter? y.1 = some n ∧
      (c.given as).find? (·.1 == n) = some (n, y.2) := by
  obtain ⟨y, hy, hn⟩ := h
  have hmem : (n, y.2) ∈ c.given as := mem_given.mpr ⟨y, hy, hn, rfl⟩
  cases hfind : (c.given as).find? (·.1 == n) with
  | none => exact absurd (List.find?_eq_none.mp hfind _ hmem) (by simp)
  | some z =>
    obtain rfl : z.1 = n := by simpa using List.find?_some hfind
    obtain ⟨x, hx, hxn, hxz⟩ := mem_given.mp (List.mem_of_find?_eq_some hfind)
    exact ⟨x, hx, hxn, by rw [hxz]⟩

theorem Regular.print_settle (hregular : c.Regular as) {z : Pieces × Pieces}
    (hz : z ∈ c.header.zip as) {n : String}
    (hn : c.parameter? z.1 = some n) : (c.settle as n).print = z.2.print := by
  obtain ⟨y, hy, hyn, hfind⟩ := find?_given ⟨z, hz, hn⟩
  have hsettle : c.settle as n = y.2 := by simp [settle, hfind]
  rw [hsettle]
  exact hregular.steady y hy z hz (by simp [hyn]) (hyn.trans hn.symm)

theorem Regular.instantiate_eq (hregular : c.Regular as) {h : Pieces} (hh : h ∈ c.header)
    (hp : c.parameter? h = none) (σ : String → Pieces) : instantiate (c.choice σ) h = h := by
  refine instantiate_of_unmentioned _ h fun n hn => ?_
  cases hregular.plain h hh with
  | inl hsome => simp [hp] at hsome
  | inr hfree =>
    have hn' : ¬c.owns n = true := by
      intro howns
      obtain ⟨q, hq, rfl⟩ := exists_of_owns howns
      exact hfree q hq hn
    simp [choice, hn']

theorem Regular.solves (hregular : c.Regular as) (hfits : c.fits as = true) {z : Pieces × Pieces}
    (hz : z ∈ c.header.zip as) : (instantiate (c.choice (c.settle as)) z.1).print = z.2.print := by
  cases hp : c.parameter? z.1 with
  | some n =>
    obtain ⟨hname, howns⟩ := parameter?_eq_some hp
    have hinst : instantiate (c.choice (c.settle as)) z.1 = c.settle as n := by
      rw [hname, instantiate_typeName]
      simp [choice, howns]
    rw [hinst, hregular.print_settle hz hp]
  | none =>
    have hadmits : c.admits z = true := List.all_eq_true.mp hfits z hz
    rw [hregular.instantiate_eq (List.of_mem_zip hz).1 hp]
    simpa [admits, hp] using hadmits

theorem Complete.closed (hcomplete : c.Complete ps as) (hlength : as.length = ps.length) :
    ∀ q ∈ ps.drop c.header.length, ∀ t ∈ q.default?, ∀ r ∈ ps, ¬Mentions r.name t := by
  intro q hq t ht
  have hfst : ((ps.zip as).drop c.header.length).map Prod.fst = ps.drop c.header.length := by
    rw [List.map_drop, List.map_fst_zip (Nat.le_of_eq hlength.symm)]
  rw [← hfst] at hq
  obtain ⟨z, hz, rfl⟩ := List.mem_map.mp hq
  obtain ⟨t', ht', hfree, -⟩ := hcomplete z hz
  obtain rfl : t' = t := Option.some.inj (ht'.symm.trans ht)
  exact hfree

/-- A block whose header is regular fits exactly if it applies: the types that its parameters stand
for are those that the header gives them. -/
theorem fits_iff_applies (hlength : as.length = ps.length) (hregular : c.Regular as)
    (hcomplete : c.Complete ps as) :
    c.fits as = true ↔ c.Applies ps as := by
  constructor
  case mp =>
    intro hfits
    have hgiven : ∀ z ∈ (c.header.map (instantiate (c.choice (c.settle as)))).zip as,
        z.1.print = z.2.print := by
      intro z hz
      rw [List.zip_map_left] at hz
      obtain ⟨y, hy, rfl⟩ := List.mem_map.mp hz
      exact hregular.solves hfits hy
    obtain ⟨full, hfull, hprint⟩ := print_of_arguments? hlength hgiven fun z hz => by
      obtain ⟨t, ht, -, hprint⟩ := hcomplete z (by simpa using hz)
      exact ⟨t, ht, hprint⟩
    refine ⟨c.settle as, full, ?_, hprint⟩
    rw [effective?_of_closed (by simpa using hcomplete.closed hlength), hfull]
  case mpr =>
    rintro ⟨σ, full, hfull, hprint⟩
    refine List.all_eq_true.mpr fun z hz => ?_
    cases hp : c.parameter? z.1 with
    | some n => simp [admits, hp]
    | none =>
      have hz' : (instantiate (c.choice σ) z.1, z.2) ∈ (c.header.map (instantiate (c.choice σ))).zip
          as := by
        rw [List.zip_map_left]
        exact List.mem_map.mpr ⟨z, hz, rfl⟩
      have hequal := print_of_effective? hfull hprint _ hz'
      rw [hregular.instantiate_eq (List.of_mem_zip hz).1 hp] at hequal
      simp [admits, hp, hequal]

end Candidate

theorem Inherited.length_eq {d : Page.Document} {o : Options} (i : Inherited d o)
    (hsettled : i.Settled) :
    i.arguments.length = i.parameters.length := arguments?_length (i.arguments?_eq hsettled)

/-- A page takes over, in the order of the units, the candidates whose header fits the arguments of
the inherited type. Where no default that is used names a parameter, and the header of a block names
its parameters only as whole arguments, none of them for two arguments, and leaves out no more than
defaults, these are the candidates whose block applies to the type. -/
theorem forward_applicable {d : Page.Document} {o : Options} (i : Inherited d o)
    (hsettled : i.Settled) :
    forward d (ambient o) =
      .ok (((candidates (items o) i.path.name).filter (·.fits i.arguments)).map
        (·.member i.base.text i.arguments)) ∧
      ∀ c ∈ candidates (items o) i.path.name, c.Regular i.arguments →
        c.Complete i.parameters i.arguments →
        (c.fits i.arguments = true ↔ c.Applies i.parameters i.arguments) := by
  refine ⟨i.forward_eq hsettled, ?_⟩
  intro c _ hregular hcomplete
  exact Candidate.fits_iff_applies (i.length_eq hsettled) hregular hcomplete

def pairs : Options where
  embedRuntime := false
  units :=
    [⟨"pairs",
      "struct Pair<A, B = u16>; impl<T> Pair<T> \x7b #[template_constructor] " ++
      "pub fn new(a: &T) -> Self \x7b\x7d \x7d " ++
    "impl<T> Pair<u32, T> \x7b #[template_constructor] pub fn wide(b: T) -> Self \x7b\x7d \x7d"⟩]

def pairPage : Page.Document where
  source := "page.stencil"
  namespaceName := "templates"
  definition := { name := "page", base? := some ⟨"Pair<u8>", ⟨⟨"page.stencil", ""⟩, ⟨0, 0⟩⟩⟩ }

def pairInherited : Inherited pairPage pairs where
  base := ⟨"Pair<u8>", ⟨⟨"page.stencil", ""⟩, ⟨0, 0⟩⟩⟩
  type := ⟨.word "Pair" :: Code.Piece.symbol "<" ++ [.typeName "u8"] ++ Code.Piece.symbol ">",
    some ⟨false, true, "Pair", [[.typeName "u8"]]⟩, true⟩
  path := ⟨false, true, "Pair", [[.typeName "u8"]]⟩
  parameters := [⟨"A", none⟩, ⟨"B", some [.typeName "u16"]⟩]
  arguments := [[.typeName "u8"], [.typeName "u16"]]
  base_eq := rfl
  type_eq := by decide +kernel
  path_eq := rfl
  unqualified := rfl
  definition_eq := by decide +kernel
  arguments_eq := by decide +kernel

theorem forward_applicable_pair :
    pairInherited.Settled ∧
      forward pairPage (ambient pairs) =
        .ok [.constructor ⟨"new", [⟨"a", "& u8"⟩], "Pair<u8>", []⟩] ∧
      (∃ c ∈ candidates (items pairs) "Pair", c.function.name = "new" ∧
        c.Regular pairInherited.arguments ∧
          c.Complete pairInherited.parameters pairInherited.arguments ∧
        c.Applies pairInherited.parameters pairInherited.arguments) ∧
      ∃ c ∈ candidates (items pairs) "Pair", c.function.name = "wide" ∧
        c.Regular pairInherited.arguments ∧
          c.Complete pairInherited.parameters pairInherited.arguments ∧
        ¬c.Applies pairInherited.parameters pairInherited.arguments := by
  have hsettled : pairInherited.Settled := by decide +kernel
  obtain ⟨hforward, happlies⟩ := forward_applicable pairInherited hsettled
  obtain ⟨hmembers, hnew, hwide⟩ :
      ((candidates (items pairs) "Pair").filter (·.fits pairInherited.arguments)).map
        (·.member pairInherited.base.text pairInherited.arguments) =
          [.constructor ⟨"new", [⟨"a", "& u8"⟩], "Pair<u8>", []⟩] ∧
      (∃ c ∈ candidates (items pairs) "Pair", c.function.name = "new" ∧
        c.Regular pairInherited.arguments ∧
        c.Complete pairInherited.parameters pairInherited.arguments ∧
          c.fits pairInherited.arguments = true) ∧
      ∃ c ∈ candidates (items pairs) "Pair", c.function.name = "wide" ∧
        c.Regular pairInherited.arguments ∧
        c.Complete pairInherited.parameters pairInherited.arguments ∧
          c.fits pairInherited.arguments = false := by
    decide +kernel
  refine ⟨hsettled, ?_, ?_, ?_⟩
  · rw [hforward]
    exact congrArg Except.ok hmembers
  · obtain ⟨c, hc, hname, hregular, hcomplete, hfits⟩ := hnew
    exact ⟨c, hc, hname, hregular, hcomplete, (happlies c hc hregular hcomplete).mp hfits⟩
  · obtain ⟨c, hc, hname, hregular, hcomplete, hfits⟩ := hwide
    refine ⟨c, hc, hname, hregular, hcomplete, fun happly => ?_⟩
    have hfits' := (happlies c hc hregular hcomplete).mpr happly
    rw [hfits] at hfits'
    cases hfits'

end Templating.Base
