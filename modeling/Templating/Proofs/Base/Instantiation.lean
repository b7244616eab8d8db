import Templating.Base.Forwarding

/-!
Types under a choice of types for some of their names, said without regard to how constructors are
looked for: all names at once, whether they are the whole of a type or begin a path. From it the
arguments that a type is used with, where a default may name the
parameters before it. -/

namespace Templating.Base

open Code (Piece Pieces TypeParameter)

/-- Types for names; a name that has none stays. -/
abbrev Choice := String → Option Pieces

/-- Whether a word before these pieces names a part of something, as `Item` does in `Item = u8`. -/
def labelled : Pieces → Bool
  | .token (.mark '=' _) :: _ => true
  | .token (.mark ':' false) :: _ => true
  | _ => false

def goesOn : Pieces → Bool
  | .token (.mark ':' true) :: .token (.mark ':' _) :: _ => true
  | _ => false

/-- The words that may stand for a type: no names in the middle of a path, no labels. -/
def loose : Pieces → List String
  | .token (.mark ':' true) :: .token (.mark ':' _) :: .token (.word _) :: ps => loose ps
  | .token (.word w) :: ps => if labelled ps then loose ps else w :: loose ps
  | _ :: ps => loose ps
  | [] => []

def Mentions (n : String) (ps : Pieces) : Prop := .typeName n ∈ ps ∨ n ∈ loose ps

instance (n : String) (ps : Pieces) : Decidable (Mentions n ps) :=
  inferInstanceAs (Decidable (_ ∨ _))

/-- A type in place of a word; a path that begins at it has it in angle brackets. -/
def standIn (after t : Pieces) : Pieces :=
  if goesOn after then Piece.symbol "<" ++ t ++ Piece.symbol ">" else t

def instantiate (σ : Choice) : Pieces → Pieces
  | .token (.mark ':' true) :: .token (.mark ':' j) :: .token (.word w) :: ps =>
    .token (.mark ':' true) :: .token (.mark ':' j) :: .token (.word w) :: instantiate σ ps
  | .token (.word w) :: ps =>
    (if labelled ps then [.token (.word w)] else ((σ w).map (standIn ps)).getD
      [.token (.word w)]) ++ instantiate σ ps
  | .typeName n :: ps => (σ n).getD [.typeName n] ++ instantiate σ ps
  | p :: ps => p :: instantiate σ ps
  | [] => []

/-- The arguments that a type is used with: those given, then the defaults, with the parameters
before them replaced. -/
def effective? (before : List (String × Pieces)) :
    List TypeParameter → List Pieces → Option (List Pieces)
  | [], _ => some []
  | q :: qs, a :: as => (effective? ((q.name, a) :: before) qs as).map (a :: ·)
  | q :: qs, [] => do
    let d ← q.default?
    let a := instantiate (before.lookup ·) d
    (effective? ((q.name, a) :: before) qs []).map (a :: ·)

section Substitution

theorem substitute_token (l : List (String × Pieces)) (t : Code.Token) (ps : Pieces) :
    substitute l (.token t :: ps) = .token t :: substitute l ps := by
  simp [substitute]

theorem substitute_typeName (l : List (String × Pieces)) (n : String) (ps : Pieces) :
    substitute l (.typeName n :: ps) =
      ((l.find? (·.1 == n)).map (·.2)).getD [.typeName n] ++ substitute l ps := by
  simp [substitute]

theorem substitute_nil (ps : Pieces) : substitute [] ps = ps := by
  induction ps with
  | nil => rfl
  | cons p ps ih =>
    cases p with
    | token t => rw [substitute_token, ih]
    | typeName n => simp [substitute_typeName, ih]

theorem instantiate_eq_substitute (σ : Choice) (l : List (String × Pieces)) (ps : Pieces)
    (hwhole : ∀ n, .typeName n ∈ ps → σ n = (l.find? (·.1 == n)).map (·.2))
    (hloose : ∀ w ∈ loose ps, σ w = none) :
    instantiate σ ps = substitute l ps := by
  fun_induction instantiate σ ps with
  | case1 j w ps ih =>
    simp only [substitute_token]
    rw [ih]
    · intro n hn
      exact hwhole n (by simp [hn])
    · intro v hv
      exact hloose v (by simpa [loose] using hv)
  | case2 w ps ih =>
    rw [substitute_token, ih (fun n hn => hwhole n (by simp [hn]))]
    · by_cases hlabel : labelled ps = true
      · simp [hlabel]
      · have hw := hloose w (by simp [loose, hlabel])
        simp [hlabel, hw]
    · intro v hv
      refine hloose v ?_
      by_cases hlabel : labelled ps = true <;> simp [loose, hlabel, hv]
  | case3 n ps ih =>
    rw [substitute_typeName, hwhole n (by simp), ih (fun m hm => hwhole m (by simp [hm]))]
    intro v hv
    exact hloose v (by simpa [loose] using hv)
  | case4 p ps htail hword hname ih =>
    obtain ⟨t, rfl⟩ : ∃ t, p = .token t := by
      cases p with
      | token t => exact ⟨t, rfl⟩
      | typeName n => exact absurd rfl (hname n)
    rw [substitute_token, ih (fun n hn => hwhole n (by simp [hn]))]
    intro v hv
    exact hloose v (by rwa [loose.eq_3 _ _ htail hword])
  | case5 => rfl

theorem instantiate_of_unmentioned (σ : Choice) (ps : Pieces)
    (h : ∀ n, Mentions n ps → σ n = none) :
    instantiate σ ps = ps := by
  rw [instantiate_eq_substitute σ [] ps (fun n hn => h n (.inl hn)) (fun w hw => h w (.inr hw)),
    substitute_nil]

theorem instantiate_typeName (σ : Choice) (n : String) :
    instantiate σ [.typeName n] = (σ n).getD [.typeName n] := by
  simp [instantiate]

theorem labelled_append {ps : Pieces} (qs : Pieces) (h : labelled ps = true) :
    labelled (ps ++ qs) = true := by
  unfold labelled at h ⊢
  split at h <;> simp_all

theorem labelled_substitute {l : List (String × Pieces)} {ps : Pieces} (h : labelled ps = true) :
    labelled (substitute l ps) = true := by
  cases ps with
  | nil => cases h
  | cons p ps =>
    cases p with
    | typeName n => cases h
    | token t =>
      rw [substitute_token]
      unfold labelled at h ⊢
      split at h <;> simp_all

theorem mem_loose_of_cons {w : String} {p : Piece} {ps : Pieces} (h : w ∈ loose (p :: ps)) :
    p = .token (.word w) ∨ w ∈ loose ps := by
  unfold loose at h
  split at h
  next j v rest heq =>
    obtain ⟨rfl, rfl⟩ := List.cons.inj heq
    right
    by_cases hlabel : labelled rest = true <;> simp [loose, hlabel, h]
  next v rest _ heq =>
    obtain ⟨rfl, rfl⟩ := List.cons.inj heq
    split at h
    · exact .inr h
    · cases List.mem_cons.mp h with
      | inl hw => exact .inl (hw ▸ rfl)
      | inr h => exact .inr h
  next rest _ _ heq =>
    obtain ⟨rfl, rfl⟩ := List.cons.inj heq
    exact .inr h
  next heq => cases heq

/-- Putting types side by side frees no word: a path or a label goes on at most. -/
theorem mem_loose_of_append {w : String} (ps qs : Pieces) (h : w ∈ loose (ps ++ qs)) :
    w ∈ loose ps ∨ w ∈ loose qs := by
  fun_induction loose ps with
  | case1 j v ps ih => exact ih (by simpa [loose] using h)
  | case2 v ps hlabel ih =>
    have happ := labelled_append qs hlabel
    exact ih (by simpa [loose, happ] using h)
  | case3 v ps hlabel ih =>
    cases mem_loose_of_cons h with
    | inl hv => exact .inl (by simp_all)
    | inr h => exact (ih h).imp_left (List.mem_cons_of_mem v)
  | case4 p ps htail hword ih =>
    cases mem_loose_of_cons h with
    | inl hp => exact absurd hp (hword w)
    | inr h => exact ih h
  | case5 => exact .inr h

theorem typeName_mem_substitute {l : List (String × Pieces)} {n : String} {ps : Pieces}
    (h : .typeName n ∈ substitute l ps) :
    (.typeName n ∈ ps ∧ ∀ z ∈ l, z.1 ≠ n) ∨ ∃ z ∈ l, .typeName n ∈ z.2 := by
  obtain ⟨p, hp, hn⟩ := List.mem_flatMap.mp h
  cases p with
  | token t => simp at hn
  | typeName m =>
    cases hfind : l.find? (·.1 == m) with
    | none =>
      obtain rfl : n = m := by simpa [hfind] using hn
      exact .inl ⟨hp, by simpa using hfind⟩
    | some z => exact .inr ⟨z, List.mem_of_find?_eq_some hfind, by simpa [hfind] using hn⟩

theorem mem_loose_of_substitute {l : List (String × Pieces)} {w : String} (ps : Pieces)
    (h : w ∈ loose (substitute l ps)) : w ∈ loose ps ∨ ∃ z ∈ l, w ∈ loose z.2 := by
  fun_induction loose ps with
  | case1 j v ps ih => exact ih (by simpa [substitute_token, loose] using h)
  | case2 v ps hlabel ih =>
    have hlabel' := labelled_substitute (l := l) hlabel
    exact ih (by simpa [substitute_token, loose, hlabel'] using h)
  | case3 v ps hlabel ih =>
    rw [substitute_token] at h
    cases mem_loose_of_cons h with
    | inl hv => exact .inl (by simp_all)
    | inr h => exact (ih h).imp_left (List.mem_cons_of_mem v)
  | case4 p ps htail hword ih =>
    cases p with
    | token t =>
      rw [substitute_token] at h
      cases mem_loose_of_cons h with
      | inl hp => exact absurd hp (hword w)
      | inr h => exact ih h
    | typeName n =>
      rw [substitute_typeName] at h
      cases mem_loose_of_append _ _ h with
      | inr h => exact ih h
      | inl h =>
        cases hfind : l.find? (·.1 == n) with
        | none => simp [hfind, loose] at h
        | some z => exact .inr ⟨z, List.mem_of_find?_eq_some hfind, by simpa [hfind] using h⟩
  | case5 => exact .inl h

end Substitution

section Effective

theorem effective?_eq_arguments? {names : List String} (before : List (String × Pieces))
    (qs : List TypeParameter)
    (as : List Pieces) (hbefore : ∀ z ∈ before, z.1 ∈ names) (hqs : ∀ q ∈ qs, q.name ∈ names)
    (hclosed : ∀ q ∈ qs.drop as.length, ∀ d ∈ q.default?, ∀ n ∈ names, ¬Mentions n d) :
    effective? before qs as = arguments? qs as := by
  induction qs generalizing before as with
  | nil => cases as <;> rfl
  | cons q qs ih =>
    have hqs' : ∀ q ∈ qs, q.name ∈ names := fun r hr => hqs r (List.mem_cons_of_mem _ hr)
    have hcons : ∀ a, ∀ z ∈ (q.name, a) :: before, z.1 ∈ names := by
      intro a z hz
      cases List.mem_cons.mp hz with
      | inl h => exact h ▸ hqs q List.mem_cons_self
      | inr h => exact hbefore z h
    cases as with
    | cons a as =>
      rw [effective?, arguments?, ih _ _ (hcons a) hqs' hclosed]
    | nil =>
      cases hd : q.default? with
      | none => simp [effective?, arguments?, hd]
      | some d =>
        have hlookup : instantiate (before.lookup ·) d = d := by
          refine instantiate_of_unmentioned _ d fun n hn => ?_
          rw [List.lookup_eq_none_iff]
          intro z hz
          have hne : z.1 ≠ n := by
            rintro rfl
            exact hclosed q List.mem_cons_self d hd _ (hbefore z hz) hn
          simpa using fun h => hne h.symm
        have hrest := ih ((q.name, d) :: before) [] (hcons d) hqs' fun r hr =>
          hclosed r (List.mem_cons_of_mem _ hr)
        simp only [effective?, arguments?, hd, hlookup, hrest, Option.bind_eq_bind,
          Option.bind_some]
        cases arguments? qs [] <;> rfl

theorem effective?_of_closed {qs : List TypeParameter} {as : List Pieces}
    (hclosed : ∀ q ∈ qs.drop as.length, ∀ t ∈ q.default?, ∀ r ∈ qs, ¬Mentions r.name t) :
    effective? [] qs as = arguments? qs as := by
  refine @effective?_eq_arguments? (qs.map (·.name)) [] qs as ?_ ?_ ?_
  · intro z hz
    cases hz
  · exact fun q hq => List.mem_map_of_mem hq
  · intro q hq t ht n hn
    obtain ⟨r, hr, rfl⟩ := List.mem_map.mp hn
    exact hclosed q hq t ht r hr

theorem arguments?_length {qs : List TypeParameter} {as full : List Pieces}
    (h : arguments? qs as = some full) :
    full.length = qs.length := by
  induction qs generalizing as full with
  | nil =>
    obtain rfl : [] = full := by cases as <;> exact Option.some.inj h
    rfl
  | cons q qs ih =>
    cases as with
    | cons a as =>
      obtain ⟨rest, hrest, rfl⟩ := Option.map_eq_some_iff.mp h
      simp [ih hrest]
    | nil =>
      obtain ⟨d, -, h⟩ := Option.bind_eq_some_iff.mp h
      obtain ⟨rest, hrest, h⟩ := Option.bind_eq_some_iff.mp h
      cases h
      simp [ih hrest]

theorem print_of_arguments? {qs : List TypeParameter} {xs as : List Pieces}
    (hlength : as.length = qs.length) (hgiven : ∀ z ∈ xs.zip as, z.1.print = z.2.print)
    (hmissing : ∀ z ∈ (qs.zip as).drop xs.length, ∃ d ∈ z.1.default?, d.print = z.2.print) :
    ∃ full, arguments? qs xs = some full ∧ full.map Code.Pieces.print =
      as.map Code.Pieces.print := by
  induction qs generalizing xs as with
  | nil =>
    obtain rfl := List.eq_nil_of_length_eq_zero hlength
    exact ⟨[], by cases xs <;> rfl, rfl⟩
  | cons q qs ih =>
    obtain ⟨a, as, rfl⟩ := List.exists_cons_of_length_eq_add_one hlength
    have hlength' : as.length = qs.length := by simpa using hlength
    cases xs with
    | cons x xs =>
      obtain ⟨full, hfull, hprint⟩ := ih hlength' (fun z hz => hgiven z (by simp [hz])) hmissing
      have hx : x.print = a.print := hgiven (x, a) (by simp)
      exact ⟨x :: full, by simp [arguments?, hfull], by simp [hprint, hx]⟩
    | nil =>
      obtain ⟨d, hd, hprint⟩ := hmissing (q, a) (by simp)
      obtain ⟨full, hfull, hrest⟩ :=
        @ih [] as hlength' (by simp) fun z hz => hmissing z (by simpa using .inr hz)
      exact ⟨d :: full, by simp_all [arguments?], by simp [hrest, hprint]⟩

theorem print_of_effective? {before : List (String × Pieces)} {qs : List TypeParameter}
    {xs as full : List Pieces} (h : effective? before qs xs = some full)
    (hprint : full.map Code.Pieces.print = as.map Code.Pieces.print) :
    ∀ z ∈ xs.zip as, z.1.print = z.2.print := by
  induction qs generalizing before xs as full with
  | nil =>
    obtain rfl : [] = full := by cases xs <;> exact Option.some.inj h
    obtain rfl := List.map_eq_nil_iff.mp hprint.symm
    simp
  | cons q qs ih =>
    cases xs with
    | nil => simp
    | cons x xs =>
      obtain ⟨rest, hrest, rfl⟩ := Option.map_eq_some_iff.mp h
      cases as with
      | nil => simp
      | cons a as =>
        obtain ⟨hx, hprint⟩ := List.cons.inj hprint
        intro z hz
        cases List.mem_cons.mp hz with
        | inl h => exact h ▸ hx
        | inr h => exact ih hrest hprint z h

end Effective

end Templating.Base
