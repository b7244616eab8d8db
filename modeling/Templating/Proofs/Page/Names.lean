import Templating.Proofs.Code.Name
import Templating.Proofs.Page.Containment

/-! Names of a page. Of a path or a hint every segment becomes a name, if its letters and digits are
such as code takes in words. -/
namespace Templating

/-! One name -/

namespace Naming
open Text (startsName continuesName)
open Code (Worded)
open Code.Lexeme (startsWord continuesWord)

/-- A text that is written as a name: what counts as a letter or a digit in it does so in code. -/
def Writable (s : String) : Prop :=
  (∀ c ∈ s.toList.head?, startsName c = true → startsWord c = true) ∧
    ∀ c ∈ s.toList, continuesName c = true → continuesWord c = true

theorem continuesWord_filtered (c : Char) :
    continuesWord (filtered c) = true ↔ (continuesName c = true → continuesWord c = true) := by
  unfold filtered
  split
  next h => simp [h]
  next h => exact ⟨fun _ hc => absurd hc h, fun _ => by decide⟩

theorem led_ne_nil (cs : List Char) : led cs ≠ [] := by
  unfold led
  split
  next h =>
    intro hnil
    rw [hnil] at h
    cases h
  · exact List.cons_ne_nil _ _

theorem filtered_eq {c : Char} (h : startsName c = true) : filtered c = c := by
  rw [filtered, if_pos (Text.continuesName_of_startsName h)]

theorem startsWord_filtered {c : Char} (h : startsName (filtered c) = true) :
    startsWord (filtered c) = true ↔ (startsName c = true → startsWord c = true) := by
  by_cases hc : continuesName c = true
  · have hsame : filtered c = c := by rw [filtered, if_pos hc]
    rw [hsame] at h ⊢
    simp [h]
  · have hmark : filtered c = '_' := by rw [filtered, if_neg hc]
    rw [hmark]
    exact iff_of_true (by decide) fun hstarts =>
      absurd (Text.continuesName_of_startsName hstarts) hc

theorem worded_led (cs : List Char) :
    Worded (led cs) ↔ (∀ c ∈ cs.head?, startsName c = true → startsWord c = true) ∧
    ∀ c ∈ cs, continuesName c = true → continuesWord c = true := by
  have hmark : startsWord '_' = true ∧ continuesWord '_' = true := by decide
  have hall : ∀ cs : List Char, (∀ d ∈ cs.map filtered, continuesWord d = true) ↔
      ∀ c ∈ cs, continuesName c = true → continuesWord c = true := fun cs => by
    simp only [List.forall_mem_map, continuesWord_filtered]
  unfold led Worded
  cases cs with
  | nil => simp [hmark]
  | cons c cs =>
    rw [List.map_cons, List.head?_cons, Option.any_some]
    split
    next hfirst =>
      rw [← List.map_cons, hall, List.map_cons, List.head?_cons, Option.any_some,
        startsWord_filtered hfirst]
      simp
    next hfirst =>
      have hother : startsName c = true → startsWord c = true :=
        fun hc => absurd (by rwa [filtered_eq hc]) hfirst
      rw [List.forall_mem_cons, ← List.map_cons, hall]
      simpa [hmark] using fun _ _ => hother

theorem isName_marked {cs : List Char} (h : cs ≠ []) :
    Code.Reader.isName (.ofList (cs ++ ['_'])) = true := by
  have hreserved : ∀ w ∈ Code.Reader.reserved, w.toList.getLast? = some '_' → w.toList = ['_'] := by
    decide
  rw [Code.Reader.isName, Bool.not_eq_true', Bool.eq_false_iff]
  intro hmem
  have hone := hreserved _ (List.contains_iff_mem.mp hmem) (by simp)
  rw [String.toList_ofList] at hone
  have hlength := congrArg List.length hone
  have hpos := List.length_pos_iff.mpr h
  simp only [List.length_append, List.length_singleton] at hlength
  omega

theorem isName_sanitize (s : String) : Code.isName (sanitize s) = true ↔ Writable s := by
  rw [sanitize_eq]
  have hled := wordy_led s.toList
  split
  next h => exact iff_of_true h ((worded_led s.toList).mp ((Code.isName_iff hled).mp h).1)
  next h =>
    have hmarked : Code.Wordy (led s.toList ++ ['_']) := Page.wordy_append hled (by decide)
    have hworded : Worded (led s.toList ++ ['_']) ↔ Worded (led s.toList) := by
      have hmark : continuesWord '_' = true := by decide
      rw [Worded, Worded, List.head?_append_of_ne_nil _ (led_ne_nil _), List.forall_mem_append]
      simp [hmark]
    rw [Code.isName_iff hmarked, hworded, worded_led]
    exact and_iff_left (isName_marked (led_ne_nil _))

theorem writable_of_ascii {s : String} (h : ∀ c ∈ s.toList, c.toNat < 0x80) : Writable s := by
  have hnear : ∀ {c : Char}, c ∈ s.toList → (decide (0x80 ≤ c.toNat)) = false := fun hc =>
    decide_eq_false (by have := h _ hc; omega)
  constructor
  · intro c hc hstarts
    have hc : c ∈ s.toList := List.mem_of_head? hc
    simp only [startsName, Text.isAlphabetic, hnear hc, Bool.false_and, Bool.or_false,
      Bool.or_eq_true] at hstarts
    simp only [startsWord, Bool.or_eq_true]
    exact .inl hstarts.symm
  · intro c hc hcontinues
    simp only [continuesName, Text.isAlphanumeric, Text.isAlphabetic, Text.isNumeric, hnear hc,
      Bool.false_and, Bool.or_false,
      Bool.or_eq_true] at hcontinues
    simp only [continuesWord, Char.isAlphanum, Bool.or_eq_true]
    exact .inl hcontinues.symm

theorem sanitize_ne_empty (s : String) : sanitize s ≠ "" := by
  intro hempty
  have hnil := congrArg String.toList hempty
  rw [sanitize_eq] at hnil
  split at hnil
  · exact led_ne_nil _ (by simpa using hnil)
  · simp at hnil

end Naming

/-! Names among dots -/

namespace Page
open Markup (Tree)

theorem splitAt_dots {parts : List String} (hne : parts ≠ [])
    (h : ∀ s ∈ parts, Code.Wordy s.toList) :
    (Text.splitAt (· == '.') (Text.join "." parts).toList).map String.ofList = parts :=
  Text.splitAt_join (c := '.') (by rfl) hne fun s hs _ hx =>
    beq_false_of_ne ((h s hs).ne hx (by decide))

def Context.namespaceParts (cx : Context) : List String :=
  (((cx.of "namespace").getLast?.bind (·.use.token? .namespacePath)) <|> cx.file.hint?).elim []
    fun s =>
    (Naming.segments s).filter (· != "")

theorem join_ne_empty {sep s : String} (hs : s ≠ "") (parts : List String) :
    Text.join sep (s :: parts) ≠ "" := by
  intro hempty
  have hnil := congrArg String.toList hempty
  cases parts with
  | nil =>
    rw [Text.join, String.intercalate_singleton] at hempty
    exact hs hempty
  | cons r parts =>
    rw [Text.toList_join_cons, String.toList_empty] at hnil
    exact hs (String.toList_eq_nil_iff.mp (List.append_eq_nil_iff.mp hnil).1)

theorem namespaceOf_eq (cx : Context) : Pass.namespaceOf cx =
    if cx.namespaceParts = [] then defaultNamespace else
      Text.join "." (cx.namespaceParts.map Naming.sanitize) := by
  have hempty : Text.join "." [] = "" := by rw [Text.join, String.intercalate_nil]
  unfold Pass.namespaceOf Context.namespaceParts
  dsimp only
  cases ((cx.of "namespace").getLast?.bind (·.use.token? .namespacePath)) <|> cx.file.hint? with
  | none => rfl
  | some s =>
    rw [Option.map_some, Option.getD_some, Option.elim_some, Naming.normalize]
    cases (Naming.segments s).filter (· != "") with
    | nil => simp [hempty]
    | cons r parts =>
      have hname : Text.join "." (Naming.sanitize r :: parts.map Naming.sanitize) ≠ "" :=
        join_ne_empty (Naming.sanitize_ne_empty r) _
      rw [List.map_cons, if_neg (by simpa using hname), if_neg (List.cons_ne_nil r parts)]

section
variable (file : InputFile) (options : Options) (t : DirectiveTable) (imports : List Tree)
  (tree : Tree)

theorem segments_build : (build file options t imports tree).segments =
    if (context file options t imports tree).namespaceParts = [] then [defaultNamespace]
    else (context file options t imports tree).namespaceParts.map Naming.sanitize := by
  have hname := namespaceName_build file options t imports tree
  rw [namespaceOf_eq] at hname
  rw [Document.segments, hname]
  generalize (context file options t imports tree).namespaceParts = parts
  by_cases hparts : parts = []
  · rw [if_pos hparts, if_pos hparts]
    decide
  · have hwordy : ∀ s ∈ parts.map Naming.sanitize, Code.Wordy s.toList := fun s hs => by
      obtain ⟨q, -, rfl⟩ := List.mem_map.mp hs
      exact wordy_sanitize q
    have hnames : ∀ s ∈ parts.map Naming.sanitize, (s != "") = true := fun s hs => by
      obtain ⟨q, -, rfl⟩ := List.mem_map.mp hs
      simpa using Naming.sanitize_ne_empty q
    rw [if_neg hparts, if_neg hparts, splitAt_dots (by simpa using hparts) hwordy,
      List.filter_eq_self.mpr hnames]

end

end Page

end Templating
