import Mathlib.Data.List.Dedup
import Templating.Compiler

/-! The cache of a compiler: whatever was asked for before, a result is what a compiler without a
cache would give, and equal requests share one result until the options change. -/
namespace Templating

def FileOutput.content (x : FileOutput) : FileOutput := { x with serial := 0 }

/-- What a compiler can be asked to do. -/
inductive Call where
  | compile (rs : List Request)
  | compileFile (r : Request)
  | setOptions (o : Options)

/-- No call takes other options than these. -/
def Call.AllKeep (o : Options) (calls : List Call) : Prop := ∀ o', .setOptions o' ∈ calls → o' = o

/-- What is in force after calls, without any cache: the options, where base types are looked for,
and all requests that were compiled since the options last changed. -/
structure Session where
  options : Options
  resolver : Base.Resolver
  compiled : List Request := []

namespace Session

def next (s : Session) : Call → Session
  | .compile rs =>
    if s.options.edition.supported then { s with compiled := s.compiled ++ rs } else s
  | .compileFile r => { s with compiled := s.compiled ++ [r] }
  | .setOptions o => if o = s.options then s else ⟨o, Base.ambient o, []⟩

def after (s : Session) (calls : List Call) : Session := calls.foldl next s

def fresh (s : Session) : Compiler := .withResolver s.options s.resolver

/-- What a request gives on its own. -/
def output (s : Session) (r : Request) : FileOutput := (s.fresh.compileFile r).1

/-- What requests give together: what each gives on its own, one after another. -/
def together (s : Session) (rs : List Request) : CompileOutput :=
  ⟨rs.flatMap fun r => (s.output r).unit?.toList, rs.flatMap fun r => (s.output r).diagnostics⟩

end Session

namespace Compiler

def next (c : Compiler) : Call → Compiler
  | .compile rs => (c.compile rs).2
  | .compileFile r => (c.compileFile r).2
  | .setOptions o => c.setOptions o

def after (c : Compiler) (calls : List Call) : Compiler := calls.foldl next c

/-- The compiler is in a session: what it keeps are the results of exactly the requests compiled in
it, once each, and every result is as good as new. -/
structure In (s : Session) (c : Compiler) : Prop where
  options : c.options = s.options
  resolver : c.resolver = s.resolver
  nodup : (c.cache.map (·.1)).Nodup
  requests : ∀ r, r ∈ c.cache.map (·.1) ↔ r ∈ s.compiled
  content : ∀ e ∈ c.cache, e.2.content = (s.output e.1).content
  made : ∀ e ∈ c.cache, e.2.serial < c.made
  distinct : ∀ e ∈ c.cache, ∀ e' ∈ c.cache, e.2.serial = e'.2.serial → e = e'

variable {s : Session} {c d : Compiler} {r : Request}

/-! One request -/

theorem compute_content (ho : c.options = d.options) (hr : c.resolver = d.resolver) (r : Request) :
    (c.compute r).content = (d.compute r).content := by
  unfold compute
  rw [ho, hr]
  split <;> rfl

theorem compute_serial (c : Compiler) (r : Request) : (c.compute r).serial = c.made := by
  unfold compute
  split <;> rfl


theorem compileFile_cases (c : Compiler) (r : Request) :
    (∃ out, (r, out) ∈ c.cache ∧ c.compileFile r = (out, c)) ∨
      r ∉ c.cache.map (·.1) ∧ c.compileFile r =
        (c.compute r, { c with cache := (r, c.compute r) :: c.cache, made := c.made + 1 }) := by
  unfold compileFile
  split
  next r' out h =>
    obtain rfl : r' = r := by simpa using List.find?_some h
    exact .inl ⟨out, List.mem_of_find?_eq_some h, rfl⟩
  next h =>
    refine .inr ⟨?_, rfl⟩
    rintro hr
    obtain ⟨e, he, rfl⟩ := List.mem_map.mp hr
    simpa using List.find?_eq_none.mp h e he

theorem mem_compileFile {e : Request × FileOutput} (he : e ∈ c.cache) (r : Request) :
    e ∈ (c.compileFile r).2.cache := by
  rcases compileFile_cases c r with ⟨out, -, h⟩ | ⟨-, h⟩
  · rw [h]
    exact he
  · rw [h]
    exact List.mem_cons_of_mem _ he

theorem result_mem_compileFile (c : Compiler) (r : Request) :
    (r, (c.compileFile r).1) ∈ (c.compileFile r).2.cache := by
  rcases compileFile_cases c r with ⟨out, hmem, h⟩ | ⟨-, h⟩
  · rw [h]
    exact hmem
  · rw [h]
    exact List.mem_cons_self

namespace In

theorem start (s : Session) (hs : s.compiled = []) : In s s.fresh := by
  refine ⟨rfl, rfl, ?_, ?_, ?_, ?_, ?_⟩ <;> simp [Session.fresh, withResolver, hs]

theorem compute_content (h : In s c) (r : Request) : (c.compute r).content = (s.output r).content :=
  Compiler.compute_content (d := s.fresh) h.options h.resolver r

theorem insert (h : In s c) (hr : r ∉ c.cache.map (·.1)) :
    In (s.next (.compileFile r))
      { c with cache := (r, c.compute r) :: c.cache, made := c.made + 1 } := by
  have hserial : ∀ e ∈ c.cache, e.2.serial ≠ (c.compute r).serial := by
    intro e he
    rw [compute_serial]
    exact Nat.ne_of_lt (h.made e he)
  refine ⟨h.options, h.resolver, List.nodup_cons.mpr ⟨hr, h.nodup⟩, ?requests, ?content, ?made,
    ?distinct⟩
  case requests =>
    intro r'
    have hr' := h.requests r'
    simp only [Session.next, List.map_cons, List.mem_cons, List.mem_append, List.not_mem_nil,
      or_false]
    rw [hr', or_comm]
  case content =>
    intro e he
    rcases List.mem_cons.mp he with rfl | he
    · exact h.compute_content r
    · exact h.content e he
  case made =>
    intro e he
    rcases List.mem_cons.mp he with rfl | he
    · simp [compute_serial]
    · exact Nat.lt_succ_of_lt (h.made e he)
  case distinct =>
    intro e he e' he' heq
    rcases List.mem_cons.mp he with rfl | he <;> rcases List.mem_cons.mp he' with rfl | he'
    · rfl
    · exact absurd heq.symm (hserial e' he')
    · exact absurd heq (hserial e he)
    · exact h.distinct e he e' he' heq

theorem compileFile (h : In s c) (r : Request) :
    In (s.next (.compileFile r)) (c.compileFile r).2 := by
  rcases compileFile_cases c r with ⟨out, hmem, hc⟩ | ⟨hr, hc⟩
  · rw [hc]
    refine ⟨h.options, h.resolver, h.nodup, ?_, h.content, h.made, h.distinct⟩
    intro r'
    have hkept : r ∈ s.compiled := (h.requests r).mp (List.mem_map.mpr ⟨_, hmem, rfl⟩)
    rw [h.requests r']
    simp only [Session.next, List.mem_append, List.mem_singleton]
    exact ⟨.inl, fun h => h.elim id (fun h => h ▸ hkept)⟩
  · rw [hc]
    exact h.insert hr

theorem content_eq (h : In s c) (r : Request) :
    (c.compileFile r).1.content = (s.output r).content := by
  rcases compileFile_cases c r with ⟨out, hmem, hc⟩ | ⟨-, hc⟩
  · rw [hc]
    exact h.content _ hmem
  · rw [hc]
    exact h.compute_content r

theorem setOptions (h : In s c) (o : Options) : In (s.next (.setOptions o)) (c.setOptions o) := by
  by_cases ho : o = s.options
  · have ho' : o = c.options := ho.trans h.options.symm
    simpa [Session.next, Compiler.setOptions, ho, ← ho'] using h
  · have ho' : o ≠ c.options := fun heq => ho (heq.trans h.options)
    rw [Session.next, if_neg ho, Compiler.setOptions, if_neg ho']
    refine ⟨rfl, rfl, ?_, ?_, ?_, ?_, ?_⟩ <;> simp

end In

/-! Requests in a row, and calls in a row -/

theorem compileAll_cons (c : Compiler) (r : Request) (rs : List Request) : c.compileAll (r :: rs) =
    (⟨(c.compileFile r).1.unit?.toList ++ ((c.compileFile r).2.compileAll rs).1.units,
      (c.compileFile r).1.diagnostics ++ ((c.compileFile r).2.compileAll rs).1.diagnostics⟩,
      ((c.compileFile r).2.compileAll rs).2) := rfl

theorem In.compileAll (h : In s c) (rs : List Request) :
    In { s with compiled := s.compiled ++ rs } (c.compileAll rs).2 ∧
      (c.compileAll rs).1 = s.together rs := by
  induction rs generalizing s c with
  | nil => exact ⟨by simpa [Compiler.compileAll] using h, rfl⟩
  | cons r rs ih =>
    obtain ⟨hin, hout⟩ := ih (h.compileFile r)
    have hcontent := h.content_eq r
    have hunit : (c.compileFile r).1.unit? = (s.output r).unit? := congrArg (·.unit?) hcontent
    have hdiagnostics : (c.compileFile r).1.diagnostics = (s.output r).diagnostics :=
      congrArg (·.diagnostics) hcontent
    rw [compileAll_cons]
    refine ⟨by simpa [Session.next] using hin, ?_⟩
    rw [hout, hunit, hdiagnostics]
    rfl

theorem In.next (h : In s c) (call : Call) : In (s.next call) (c.next call) := by
  cases call with
  | compile rs =>
    by_cases ho : s.options.edition.supported
    · have ho' : c.options.edition.supported := by rw [h.options]; exact ho
      simpa [Session.next, Compiler.next, Compiler.compile, ho, ho'] using (h.compileAll rs).1
    · have ho' : ¬ c.options.edition.supported := by rw [h.options]; exact ho
      simpa [Session.next, Compiler.next, Compiler.compile, ho, ho'] using h
  | compileFile r => exact h.compileFile r
  | setOptions o => exact h.setOptions o

theorem In.after (h : In s c) (calls : List Call) : In (s.after calls) (c.after calls) := by
  induction calls generalizing s c with
  | nil => exact h
  | cons call calls ih => exact ih (h.next call)

theorem In.cached_eq (h : In s c) : c.cached = s.compiled.dedup.length := by
  have hperm : (c.cache.map (·.1)).Perm s.compiled.dedup :=
    (List.perm_ext_iff_of_nodup h.nodup (List.nodup_dedup _)).mpr fun r => by
      rw [h.requests r, List.mem_dedup]
  simpa [cached] using hperm.length_eq

theorem In.compile_eq (h : In s c) (rs : List Request) :
    (c.compile rs).1 = if s.options.edition.supported then s.together rs
      else ⟨[], [{ problem := .editionTooOld s.options.edition }]⟩ := by
  unfold compile
  rw [h.options]
  split
  · exact (h.compileAll rs).2
  · rfl

theorem compile_unsupported (ho : c.options.edition.supported = false) (rs : List Request) :
    (c.compile rs).2 = c := by
  simp [compile, ho]

/-! Which results are one and the same -/

/-- All results that are kept were made when there were at least so many. -/
def Since (n : Nat) (c : Compiler) : Prop := n ≤ c.made ∧ ∀ e ∈ c.cache, n ≤ e.2.serial

theorem Since.compileFile {n : Nat} (h : Since n c) (r : Request) :
    Since n (c.compileFile r).2 := by
  rcases compileFile_cases c r with ⟨out, -, hc⟩ | ⟨-, hc⟩
  · rw [hc]
    exact h
  · rw [hc]
    refine ⟨Nat.le_succ_of_le h.1, ?_⟩
    intro e he
    rcases List.mem_cons.mp he with rfl | he
    · rw [compute_serial]
      exact h.1
    · exact h.2 e he

theorem compileAll_induction {P : Compiler → Prop}
    (hP : ∀ {c : Compiler} (r : Request), P c → P (c.compileFile r).2)
    (rs : List Request) (h : P c) : P (c.compileAll rs).2 := by
  induction rs generalizing c with
  | nil => exact h
  | cons r rs ih => exact ih (hP r h)

theorem compile_induction {P : Compiler → Prop}
    (hP : ∀ {c : Compiler} (r : Request), P c → P (c.compileFile r).2)
    (rs : List Request) (h : P c) : P (c.compile rs).2 := by
  unfold compile
  split
  · exact compileAll_induction hP rs h
  · exact h

theorem Since.after {n : Nat} (h : Since n c) (calls : List Call) : Since n (c.after calls) := by
  induction calls generalizing c with
  | nil => exact h
  | cons call calls ih =>
    refine ih ?_
    cases call with
    | compile rs => exact compile_induction (P := Since n) (fun r h => h.compileFile r) rs h
    | compileFile r => exact h.compileFile r
    | setOptions o =>
      show Since n (c.setOptions o)
      unfold setOptions
      split
      · exact h
      · exact ⟨h.1, by simp⟩

theorem options_next (c : Compiler) {call : Call} (hkeep : Call.AllKeep c.options [call]) :
    (c.next call).options = c.options := by
  have hfile : ∀ {d : Compiler} (r : Request), d.options = c.options →
      (d.compileFile r).2.options = c.options := by
    intro d r h
    rcases compileFile_cases d r with ⟨out, -, hd⟩ | ⟨-, hd⟩ <;> rw [hd] <;> exact h
  cases call with
  | compile rs => exact compile_induction (P := fun d => d.options = c.options) hfile rs rfl
  | compileFile r => exact hfile r rfl
  | setOptions o =>
    have ho : o = c.options := hkeep o List.mem_cons_self
    simp [next, setOptions, ho]

theorem made_le_next (c : Compiler) (call : Call) : c.made ≤ (c.next call).made := by
  have hfile : ∀ {d : Compiler} (r : Request), c.made ≤ d.made →
      c.made ≤ (d.compileFile r).2.made := by
    intro d r h
    rcases compileFile_cases d r with ⟨out, -, hd⟩ | ⟨-, hd⟩ <;> rw [hd]
    · exact h
    · exact Nat.le_succ_of_le h
  cases call with
  | compile rs => exact compile_induction (P := fun d => c.made ≤ d.made) hfile rs (Nat.le_refl _)
  | compileFile r => exact hfile r (Nat.le_refl _)
  | setOptions o =>
    show c.made ≤ (c.setOptions o).made
    unfold setOptions
    split <;> exact Nat.le_refl _

theorem allKeep_cons {o : Options} {call : Call} {calls : List Call} :
    Call.AllKeep o (call :: calls) ↔ Call.AllKeep o [call] ∧ Call.AllKeep o calls := by
  simp [Call.AllKeep, or_imp, forall_and]

theorem mem_after {e : Request × FileOutput} (he : e ∈ c.cache) {calls : List Call}
    (hkeep : Call.AllKeep c.options calls) :
    e ∈ (c.after calls).cache := by
  induction calls generalizing c with
  | nil => exact he
  | cons call calls ih =>
    obtain ⟨hcall, hrest⟩ := allKeep_cons.mp hkeep
    rw [← options_next c hcall] at hrest
    refine ih ?_ hrest
    cases call with
    | compile rs =>
      exact compile_induction (P := fun d => e ∈ d.cache) (fun r h => mem_compileFile h r) rs he
    | compileFile r => exact mem_compileFile he r
    | setOptions o =>
      have ho : o = c.options := hcall o List.mem_cons_self
      simpa [next, setOptions, ho] using he

theorem since_after {calls : List Call} (hchange : ¬ Call.AllKeep c.options calls) :
    Since c.made (c.after calls) := by
  induction calls generalizing c with
  | nil => exact absurd (fun o ho => by cases ho) hchange
  | cons call calls ih =>
    by_cases hcall : Call.AllKeep c.options [call]
    · have hrest : ¬ Call.AllKeep c.options calls := fun h => hchange (allKeep_cons.mpr ⟨hcall, h⟩)
      rw [← options_next c hcall] at hrest
      have hsince := ih hrest
      have hmade := made_le_next c call
      exact ⟨Nat.le_trans hmade hsince.1, fun e he => Nat.le_trans hmade (hsince.2 e he)⟩
    · -- this call changes the options, and the results are forgotten
      have hforget : Since c.made (c.next call) := by
        cases call with
        | compile rs => exact absurd (fun o ho => by simp at ho) hcall
        | compileFile r => exact absurd (fun o ho => by simp at ho) hcall
        | setOptions o =>
          have ho : o ≠ c.options := fun heq => hcall fun o' ho' => by simp_all
          simp [next, setOptions, ho, Since]
      exact hforget.after calls

theorem In.serial_eq_iff (h : In s c) (r : Request) (between : List Call) (r' : Request) :
    (((c.compileFile r).2.after between).compileFile r').1.serial = (c.compileFile r).1.serial ↔
      r' = r ∧ Call.AllKeep s.options between := by
  have hin := h.compileFile r
  have hmem := result_mem_compileFile c r
  have hopt : (c.compileFile r).2.options = s.options := hin.options
  have hlast := (hin.after between).compileFile r'
  have hmem' := result_mem_compileFile ((c.compileFile r).2.after between) r'
  by_cases hkeep : Call.AllKeep s.options between
  · have hkept := mem_compileFile (mem_after hmem (by rw [hopt]; exact hkeep)) r'
    refine ⟨fun heq => ⟨?_, hkeep⟩, fun ⟨hr, _⟩ => ?_⟩
    · exact congrArg (·.1) (hlast.distinct _ hmem' _ hkept heq)
    · subst hr
      have hsame := List.inj_on_of_nodup_map hlast.nodup hmem' hkept rfl
      exact congrArg (·.2.serial) hsame
  · refine ⟨fun heq => ?_, fun ⟨_, hk⟩ => absurd hk hkeep⟩
    have hsince := (since_after (by rw [hopt]; exact hkeep)).compileFile r'
    have hnew : (c.compileFile r).2.made ≤
        (((c.compileFile r).2.after between).compileFile r').1.serial := hsince.2 _ hmem'
    have hold : (c.compileFile r).1.serial < (c.compileFile r).2.made := hin.made _ hmem
    omega

/-- Whatever a compiler was asked for before: a request gives what it gives on its own under the
options and the base types now in force; equal requests share one result until the options change;
there are as many results as there were different requests since; requests together give what they
give one by one; a crash costs the request its unit and leaves one diagnostic over its text; and an
edition that is too old gives no more than that diagnostic. -/
theorem after_coherent (o : Options) (resolve : Base.Resolver) (calls : List Call) :
    let s := Session.after ⟨o, resolve, []⟩ calls
    let c := (withResolver o resolve).after calls
    (∀ r, (c.compileFile r).1.content = (s.output r).content) ∧
    (∀ r between r',
      (((c.compileFile r).2.after between).compileFile r').1.serial = (c.compileFile r).1.serial ↔
      r' = r ∧ Call.AllKeep s.options between) ∧
    c.cached = s.compiled.dedup.length ∧
    (∀ rs, (c.compile rs).1 = if s.options.edition.supported then s.together rs
      else ⟨[], [{ problem := .editionTooOld s.options.edition }]⟩) ∧
    (∀ r crash, generate s.options s.resolver r = .error crash → (c.compileFile r).1.unit? = none ∧
      ∃ d, (c.compileFile r).1.diagnostics = [d] ∧ d.code = "STC9999" ∧
        d.location? = some (.whole ⟨r.file.path, r.text⟩)) ∧
    (s.options.edition.supported = false → ∀ rs, (c.compile rs).2 = c) := by
  intro s c
  have h : In s c := (In.start ⟨o, resolve, []⟩ rfl).after calls
  refine ⟨h.content_eq, h.serial_eq_iff, h.cached_eq, h.compile_eq, ?_, ?_⟩
  · intro r crash hcrash
    have hcontent := h.content_eq r
    have hout : s.output r = s.fresh.compute r := rfl
    have hgen : generate s.fresh.options s.fresh.resolver r = .error crash := hcrash
    have hunit : (c.compileFile r).1.unit? = (s.output r).unit? := congrArg (·.unit?) hcontent
    have hdiagnostics : (c.compileFile r).1.diagnostics = (s.output r).diagnostics :=
      congrArg (·.diagnostics) hcontent
    rw [hunit, hdiagnostics, hout, compute, hgen]
    exact ⟨rfl, _, rfl, rfl, rfl⟩
  · intro ho rs
    exact compile_unsupported (by rw [h.options]; exact ho) rs

end Compiler
end Templating
