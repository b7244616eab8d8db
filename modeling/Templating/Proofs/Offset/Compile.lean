import Templating.Proofs.Compiler.Balance
import Templating.Proofs.Compiler.Cache
import Templating.Proofs.Offset.Slash
import Templating.Proofs.Page.Codes
import Templating.Proofs.Page.Snippets

/-! Compiling by offsets. A file is read by the offsets of its bytes, its name is cut at an offset
and blocks of code are copied by the numbers of their lines; any of these that is refused ends the
compilation with an internal problem. None ever is. -/
namespace Templating.Offset
open Markup (Tree)
open Text (byteSize)

section
variable {α β : Type}

def lineRange (first last : Nat) (ls : List α) : Attempt (List α) :=
  if last < ls.length ∧ first ≤ last + 1 then .ok ((ls.take (last + 1)).drop first) else .error .cut

theorem mapM_eq_ok {f : α → Attempt β} {g : α → β} {l : List α} (h : ∀ a ∈ l, f a = .ok (g a)) :
    l.mapM f = .ok (l.map g) := by
  induction l with
  | nil => rfl
  | cons a l ih =>
    rw [List.mapM_cons, h a List.mem_cons_self, bind_ok, ih fun b hb =>
      h b (List.mem_cons_of_mem a hb)]
    rfl

end

/-! Blocks of code -/

/-- Embedded code laid out afresh, from the first line that is not blank to the last. -/
def copied (code : String) : Attempt Unit.Lines := do
  let ls := Text.lines code.toList
  let first := (ls.takeWhile Text.allBlank).length
  if first == ls.length then return []
  else do
    let kept ← lineRange first (ls.length - 1 - (ls.reverse.takeWhile Text.allBlank).length) ls
    let shared := ((kept.filter (!Text.allBlank ·)).map Unit.margin).min?.getD 0
    return kept.map fun l => if Text.allBlank l then .blank else
      .of (.ofList (Text.trimEnd (Unit.outdent shared l)))

theorem lineRange_blankEnds {ls : List (List Char)}
    (h : (ls.takeWhile Text.allBlank).length ≠ ls.length) :
    lineRange (ls.takeWhile Text.allBlank).length
      (ls.length - 1 - (ls.reverse.takeWhile Text.allBlank).length) ls =
      .ok (Text.dropBlankEnds ls) := by
  have hsplit := List.takeWhile_append_dropWhile (p := Text.allBlank) (l := ls)
  have hlength := congrArg List.length hsplit
  rw [Text.dropBlankEnds]
  generalize ls.takeWhile Text.allBlank = blank at h hsplit hlength ⊢
  cases hkept : ls.dropWhile Text.allBlank with
  | nil =>
    rw [hkept, List.append_nil] at hlength
    exact absurd hlength h
  | cons x rest =>
    have hx : Text.allBlank x = false := by
      have hnot := List.head?_dropWhile_not Text.allBlank ls
      rw [hkept] at hnot
      simpa using hnot
    rw [hkept] at hsplit hlength
    -- the blank lines at the end are behind a line that is not blank
    have hend : ls.reverse.takeWhile Text.allBlank = (x :: rest).reverse.takeWhile Text.allBlank ∧
        ((x :: rest).reverse.takeWhile Text.allBlank).length < (x :: rest).length := by
      have hshort : ((x :: rest).reverse.takeWhile Text.allBlank).length ≠
          (x :: rest).reverse.length := by
        intro hall
        have heq := List.IsPrefix.eq_of_length (List.takeWhile_prefix Text.allBlank) hall
        have hmem : x ∈ (x :: rest).reverse.takeWhile Text.allBlank := by
          rw [heq]
          simp
        have hblank := List.all_eq_true.mp List.all_takeWhile x hmem
        simp [hx] at hblank
      have hle := (List.takeWhile_prefix Text.allBlank (l := (x :: rest).reverse)).length_le
      refine ⟨?_, by rw [List.length_reverse] at hshort hle; omega⟩
      rw [← hsplit, List.reverse_append, List.takeWhile_append, if_neg hshort]
    obtain ⟨hreverse, hless⟩ := hend
    have hdrop := Text.drop_length_takeWhile Text.allBlank (x :: rest).reverse
    rw [hreverse]
    generalize (x :: rest).reverse.takeWhile Text.allBlank = tail at hless hdrop
    rw [List.length_append] at hlength
    have hlast : ls.length - 1 - tail.length + 1 =
        blank.length + ((x :: rest).length - tail.length) := by omega
    rw [lineRange, hlast, if_pos ⟨by omega, by omega⟩, ← hdrop, List.drop_reverse,
      List.reverse_reverse, ← hsplit,
      List.take_length_add_append, List.drop_left]

theorem copied_eq (code : String) : copied code = .ok (Unit.codeLines code) := by
  unfold copied Unit.codeLines
  dsimp only
  generalize Text.lines code.toList = ls
  split
  next h =>
    have hall := List.IsPrefix.eq_of_length (List.takeWhile_prefix Text.allBlank) (eq_of_beq h)
    have hnone : Text.dropBlankEnds ls = [] := by
      have hdrop := Text.drop_length_takeWhile Text.allBlank ls
      rw [hall, List.drop_length] at hdrop
      rw [Text.dropBlankEnds, ← hdrop]
      rfl
    rw [hnone]
    rfl
  next h =>
    rw [lineRange_blankEnds (by simpa using h), bind_ok]
    rfl

/-! Names of files -/

def stem (path : String) : Attempt String := do
  let name := ((Naming.components path).getLast?.getD path).toList
  let dot := byteSize (name.takeWhile (· != '.'))
  if dot == 0 || !name.contains '.' then return .ofList name
  else return .ofList (← upTo dot name)

theorem stem_eq (path : String) : stem path = .ok (Naming.stem path) := by
  unfold stem Naming.stem
  generalize ((Naming.components path).getLast?.getD path).toList = name
  dsimp only
  have hsize : (byteSize (name.takeWhile (· != '.')) == 0) =
      (name.takeWhile (· != '.')).isEmpty := by
    cases hname : name.takeWhile (· != '.') with
    | nil => rfl
    | cons x cs =>
      have hpos := Text.byteSize_pos (List.cons_ne_nil x cs)
      exact beq_false_of_ne (by omega)
  rw [hsize]
  cases hempty : (name.takeWhile (· != '.')).isEmpty with
  | true => rfl
  | false =>
    rw [if_neg (by simp : ¬ (false = true))]
    split
    next hdot =>
      have hall : name.takeWhile (· != '.') = name := by
        rw [List.takeWhile_eq_self_iff]
        intro x hx
        simp only [Bool.false_or, Bool.not_eq_true', List.contains_eq_mem, decide_eq_false_iff_not]
          at hdot
        exact bne_iff_ne.mpr fun heq => hdot (heq ▸ hx)
      rw [hall]
      rfl
    · rw [upTo_front (List.takeWhile_prefix _)]
      rfl

/-! Requests -/

def sources (r : Request) : List Source :=
  r.imports.map (fun i => ⟨i.path, i.text⟩) ++ [⟨r.file.path, r.text⟩]

/-- The blocks of code that a unit copies: of the page's members, of its body and of the members
from its base. -/
def blocks (d : Page.Document) (extra : List Page.Member) : List String :=
  let functions (ms : List Page.Member) := ms.filterMap fun
    | .functions code => some code.text
    | .constructor _ => none
  let body := (Page.bodySnippets d.definition.body).filterMap fun
    | .block code => some code
    | .inline _ => none
  functions d.definition.members ++ body ++ functions extra

section
variable (n : Nat)

def generate (o : Options) (resolve : Base.Resolver) (r : Request) :
    Attempt (Except Base.Crash (CompiledUnit × List Diagnostic)) := do
  let imports ← r.imports.mapM fun i => parse false n ⟨i.path, i.text⟩ .standard
  let tree ← parse false n ⟨r.file.path, r.text⟩ .standard
  match Page.validate .standard Page.pipeline with
  | .error e => return .error ⟨some e.message⟩
  | .ok () => do
    let _ ← stem r.file.path
    let page := Page.build r.file o .standard imports tree
    match Base.forward page resolve with
    | .error crash => return .error crash
    | .ok extra => do
      let _ ← (blocks page extra).mapM copied
      return .ok (⟨page.unitName, Unit.emit page extra⟩, page.diagnostics)

/-- The result of a request, afresh; a refused slice is a crash as any other, with what
is told of it. -/
def compute (told : String) (c : Compiler) (r : Request) : Attempt FileOutput :=
  let failed (reason : String) : FileOutput :=
    ⟨r.file, none, [⟨.internal r.file.path reason, some (.whole ⟨r.file.path, r.text⟩), .error⟩],
      c.made⟩
  match generate n c.options c.resolver r with
  | .ok (.ok (unit, ds)) => .ok ⟨r.file, some unit, ds, c.made⟩
  | .ok (.error crash) => .ok (failed (crash.reason?.getD "unknown panic"))
  | .error .cut => .ok (failed told)
  | .error h => .error h

def compileFile (told : String) (c : Compiler) (r : Request) : Attempt (FileOutput × Compiler) :=
  match c.cache.find? (·.1 == r) with
  | some (_, out) => .ok (out, c)
  | none => do
    let out ← compute n told c r
    return (out, { c with cache := (r, out) :: c.cache, made := c.made + 1 })

end

section
variable {n : Nat} {r : Request}

theorem validate_pipeline : Page.validate .standard Page.pipeline = .ok () := by decide

theorem parse_eq_ok {s : Source} {t : DirectiveTable} (h : parse false n s t ≠ .error .turns) :
    parse false n s t = .ok (Tree.parse s t) := by
  rcases (parse_settles false n s t).value with hv | hv | ⟨hheed, -⟩
  · exact hv
  · exact absurd hv h
  · cases hheed

theorem generate_ok (o : Options) (resolve : Base.Resolver)
    (h : ∀ s ∈ sources r, parse false n s .standard ≠ .error .turns) :
    generate n o resolve r = .ok (Templating.generate o resolve r) := by
  have himports : (r.imports.mapM fun i => parse false n ⟨i.path, i.text⟩ .standard) =
      .ok (r.imports.map fun i => Tree.parse ⟨i.path, i.text⟩ .standard) :=
    mapM_eq_ok fun i hi => parse_eq_ok (h _ (List.mem_append_left _ (List.mem_map_of_mem hi)))
  have htree := parse_eq_ok (h ⟨r.file.path, r.text⟩ (List.mem_append_right _ List.mem_cons_self))
  rw [generate, himports, bind_ok, htree, bind_ok, validate_pipeline, generate_eq, Request.page]
  dsimp only
  rw [stem_eq, bind_ok]
  cases Base.forward _ resolve with
  | error crash => rfl
  | ok extra =>
    dsimp only
    rw [mapM_eq_ok (g := Unit.codeLines) fun code _ => copied_eq code]
    rfl

theorem compileFile_ok (told : String) (c : Compiler)
    (h : ∀ s ∈ sources r, parse false n s .standard ≠ .error .turns) :
    compileFile n told c r = .ok (c.compileFile r) := by
  have hcompute : compute n told c r = .ok (c.compute r) := by
    rw [compute, generate_ok c.options c.resolver h, Compiler.compute]
    cases Templating.generate c.options c.resolver r <;> rfl
  rw [compileFile, Compiler.compileFile, hcompute]
  cases c.cache.find? (·.1 == r) <;> rfl

end

/-! The compiler -/

theorem forward_ambient (d : Page.Document) (o : Options) :
    ∃ ms, Base.forward d (Base.ambient o) = .ok ms := by
  unfold Base.forward
  split
  · exact ⟨_, rfl⟩
  · split
    · exact ⟨_, rfl⟩
    · split
      · exact ⟨_, rfl⟩
      · show ∃ ms, (Except.ok (Base.find? (Base.items o) _) >>= fun t? => _) = .ok ms
        rw [bind, Except.instMonad]
        dsimp only [Except.bind]
        split
        · exact ⟨_, rfl⟩
        · split <;> exact ⟨_, rfl⟩

theorem resolver_after {s : Session} (h : s.resolver = Base.ambient s.options) (calls : List Call) :
    (s.after calls).resolver = Base.ambient (s.after calls).options := by
  induction calls generalizing s with
  | nil => exact h
  | cons call calls ih =>
    refine ih ?_
    cases call with
    | compile rs =>
      rw [Session.next]
      split <;> exact h
    | compileFile r => exact h
    | setOptions o =>
      rw [Session.next]
      split
      · exact h
      · rfl

theorem output_sound {s : Session} (h : s.resolver = Base.ambient s.options) (r : Request) :
    (s.output r).unit?.isSome ∧ Page.Coded (s.output r).diagnostics := by
  have hpage : Page.Coded (r.page s.options).diagnostics := by
    refine Page.coded_build r.file s.options .standard fun f hf => ?_
    rcases List.mem_append.mp hf with hf | hf
    · obtain ⟨i, -, rfl⟩ := List.mem_map.mp hf
      exact ⟨_, _, rfl⟩
    · obtain rfl := List.mem_singleton.mp hf
      exact ⟨_, _, rfl⟩
  obtain ⟨ms, hms⟩ := forward_ambient (r.page s.options) s.options
  have hgenerate := generate_eq s.options s.resolver r
  rw [h, hms] at hgenerate
  have hcompute : s.output r = s.fresh.compute r := rfl
  rw [hcompute, Compiler.compute, show s.fresh.options = s.options from rfl, show s.fresh.resolver =
    Base.ambient s.options from h,
    hgenerate]
  exact ⟨rfl, hpage⟩

/-- No text makes reading refuse a slice, no block of code makes copying refuse its lines, and
whatever a compiler that looks for base types as the options say was asked for before, a request
whose files are read to their ends gives a unit and no internal problem. -/
theorem never_refuses :
    (∀ n s t, parse false n s t = .error .turns ∨ parse false n s t = .ok (Tree.parse s t)) ∧
      (∀ code, copied code = .ok (Unit.codeLines code)) ∧
      ∀ o calls n told r, (∀ s ∈ sources r, parse false n s .standard ≠ .error .turns) →
        let c := (Compiler.new o).after calls
        compileFile n told c r = .ok (c.compileFile r) ∧ (c.compileFile r).1.unit?.isSome ∧
          ∀ d ∈ (c.compileFile r).1.diagnostics, d.problem.code ≠ "STC9999" := by
  refine ⟨fun n s t => ?_, copied_eq, fun o calls n told r hread => ?_⟩
  · by_cases hends : parse false n s t = .error .turns
    · exact .inl hends
    · exact .inr (parse_eq_ok hends)
  · intro c
    have hin : Compiler.In (Session.after ⟨o, Base.ambient o, []⟩ calls) c :=
      (Compiler.In.start ⟨o, Base.ambient o, []⟩ rfl).after calls
    obtain ⟨hunit, hcoded⟩ :=
      output_sound (resolver_after (s := ⟨o, Base.ambient o, []⟩) rfl calls) r
    have hcontent := hin.content_eq r
    have hunit' : (c.compileFile r).1.unit? = _ := congrArg (·.unit?) hcontent
    have hdiagnostics : (c.compileFile r).1.diagnostics = _ := congrArg (·.diagnostics) hcontent
    refine ⟨compileFile_ok told c hread, ?_, fun d hd => ?_⟩
    · rw [hunit']
      exact hunit
    · rw [hdiagnostics] at hd
      intro hcode
      have hmem := hcoded d hd
      rw [hcode] at hmem
      exact absurd hmem (by decide)

def accented : Request :=
  ⟨.ofPath "é.stencil", "é@(é)é@é.é<é é='é@é é'>é@match é \x7b é => é \x7d é",
    [⟨"_é.stencil", "@use é::*\né"⟩]⟩

theorem read_accented : ∀ s ∈ sources accented, parse false 60 s .standard ≠ .error .turns := by
  intro s hs
  have hread : parse false 60 s .standard = .ok (Tree.parse s .standard) := by
    simp only [sources, accented, List.map_cons, List.map_nil, List.cons_append, List.nil_append,
      List.mem_cons, List.not_mem_nil,
      or_false] at hs
    rcases hs with rfl | rfl <;> exact parse_of_not_stalls (not_stalls (by decide) _) (by decide)
  rw [hread]
  exact fun h => by cases h

theorem never_refuses_accented :
    (∀ s ∈ sources accented, parse false 60 s .standard ≠ .error .turns) ∧
      compileFile 60 "" ((Compiler.new {}).after []) accented =
        .ok (((Compiler.new {}).after []).compileFile accented) ∧
      (((Compiler.new {}).after []).compileFile accented).1.unit?.isSome :=
  let h := never_refuses.2.2 {} [] 60 "" accented read_accented
  ⟨read_accented, h.1, h.2.1⟩

end Templating.Offset
