import Mathlib.Data.List.Basic
import Mathlib.Data.List.Induction
import Mathlib.Data.List.Infix
import Templating.Disk.Tree
import Templating.Proofs.Text.Split

/-! Trees of directories and files. What stands in a tree stands in directories up to its root and
under names that lead to it, so that its path, written out, leads to it from anywhere. -/
namespace Templating.Disk

/-- A component of a path that names what it leads to. -/
def Proper (s : String) : Prop := s ≠ "" ∧ s ≠ "." ∧ s ≠ ".." ∧ '/' ∉ s.toList

instance (s : String) : Decidable (Proper s) := inferInstanceAs (Decidable (_ ∧ _))

theorem Proper.clear {s : String} (h : Proper s) : ∀ c ∈ s.toList, (c == '/') = false :=
  fun c hc => by
  have hne : c ≠ '/' := fun heq => h.2.2.2 (heq ▸ hc)
  simpa using hne

namespace Path

theorem beginnings_eq {α : Type} (l : List α) : beginnings l = l.inits := by
  induction l with
  | nil => rfl
  | cons x l ih => rw [beginnings, ih, List.inits_cons]

theorem mem_way {p q : Path} : q ∈ p.way ↔ q.parts <+: p.parts := by
  rw [way, beginnings_eq, ← List.mem_inits, List.mem_map]
  exact ⟨fun ⟨parts, h, hq⟩ => hq ▸ h, fun h => ⟨q.parts, h, rfl⟩⟩

theorem ancestors_child (p : Path) (name : String) :
    (p.child name).ancestors = (p.parts.inits.map mk).reverse := by
  rw [ancestors, way, beginnings_eq, child, List.inits_append]
  simp

theorem isIn_iff {p q : Path} : p.isIn q = true ↔ q.parts <+: p.parts := List.isPrefixOf_iff_prefix

end Path

namespace Tree
variable {t : Tree} {p : Path} {a b names rest : List String}

/-- Where something stands in a tree. -/
def places (t : Tree) : List Path := t.files.map (·.1) ++ t.directories

/-- What stands in a tree stands in a directory and under proper names, and paths
start in a directory. -/
structure Sound (t : Tree) : Prop where
  held : ∀ p ∈ t.places, t.isDirectory p.parent = true
  named : ∀ p ∈ t.places, ∀ s ∈ p.parts, Proper s
  current : t.isDirectory t.current = true

instance (t : Tree) : Decidable t.Sound :=
  decidable_of_iff ((∀ p ∈ t.places, t.isDirectory p.parent = true) ∧
    (∀ p ∈ t.places, ∀ s ∈ p.parts, Proper s) ∧
    t.isDirectory t.current = true) ⟨fun h => ⟨h.1, h.2.1, h.2.2⟩, fun h =>
      ⟨h.held, h.named, h.current⟩⟩

theorem isDirectory_iff : t.isDirectory p = true ↔ t.entry? p = some .directory := beq_iff_eq

theorem isSome_of_isDirectory (h : t.isDirectory p = true) : (t.entry? p).isSome = true := by
  rw [isDirectory_iff.mp h]
  rfl

theorem mem_places (h : (t.entry? p).isSome = true) : p = ⟨[]⟩ ∨ p ∈ t.places := by
  unfold entry? at h
  split at h
  next q text hfind =>
    obtain rfl : q = p := by simpa using List.find?_some hfind
    exact .inr (List.mem_append_left _ (List.mem_map_of_mem (List.mem_of_find?_eq_some hfind)))
  next =>
    split at h
    next hplace =>
      rcases Bool.or_eq_true_iff.mp hplace with hroot | hplace
      · exact .inl (congrArg Path.mk (List.isEmpty_iff.mp hroot))
      · exact .inr (List.mem_append_right _ (by simpa using hplace))
    · cases h

namespace Sound

theorem isDirectory_root (ht : t.Sound) : t.isDirectory ⟨[]⟩ = true := by
  cases hfind : t.files.find? (·.1 == (⟨[]⟩ : Path)) with
  | none => rw [isDirectory_iff, Tree.entry?, hfind]; rfl
  | some e =>
    obtain ⟨q, text⟩ := e
    obtain rfl : q = ⟨[]⟩ := by simpa using List.find?_some hfind
    exact ht.held _ (List.mem_append_left _ (List.mem_map_of_mem (List.mem_of_find?_eq_some hfind)))

theorem isDirectory_parent (ht : t.Sound) (h : (t.entry? p).isSome = true) :
    t.isDirectory p.parent = true := by
  rcases mem_places h with rfl | hp
  · exact ht.isDirectory_root
  · exact ht.held p hp

theorem proper (ht : t.Sound) (h : (t.entry? p).isSome = true) : ∀ s ∈ p.parts, Proper s := by
  rcases mem_places h with rfl | hp
  · exact fun s hs => by cases hs
  · exact ht.named p hp

theorem isDirectory_above (ht : t.Sound) (h : (t.entry? ⟨a ++ b⟩).isSome = true) (hb : b ≠ []) :
    t.isDirectory ⟨a⟩ = true := by
  induction b using List.reverseRecOn with
  | nil => exact absurd rfl hb
  | append_singleton b s ih =>
    have hparent : t.isDirectory ⟨a ++ b⟩ = true := by
      have hheld := ht.isDirectory_parent h
      rwa [Path.parent, ← List.append_assoc, List.dropLast_concat] at hheld
    by_cases hnone : b = []
    · rwa [hnone, List.append_nil] at hparent
    · exact ih (isSome_of_isDirectory hparent) hnone

theorem isDirectory_way (ht : t.Sound) (h : t.isDirectory ⟨a ++ b⟩ = true) :
    t.isDirectory ⟨a⟩ = true := by
  by_cases hb : b = []
  · rwa [hb, List.append_nil] at h
  · exact ht.isDirectory_above (isSome_of_isDirectory h) hb

theorem in_directory (ht : t.Sound) {text : String} (h : t.entry? p = some (.file text)) :
    t.isDirectory p.parent = true ∧ ∃ name, p = p.parent.child name := by
  refine ⟨ht.isDirectory_parent (by rw [h]; rfl), ?_⟩
  obtain ⟨parts⟩ := p
  rcases List.eq_nil_or_concat' parts with rfl | ⟨names, s, rfl⟩
  · rw [isDirectory_iff.mp ht.isDirectory_root] at h
    cases h
  · exact ⟨s, by simp [Path.parent, Path.child]⟩

end Sound

/-! Where paths lead -/

theorem walk_step (hp : t.isDirectory p = true) {s : String} (hs : Proper s) :
    t.walk p (s :: rest) = if (t.entry? (p.child s)).isNone then .error .notFound else
      t.walk (p.child s) rest := by
  obtain ⟨hempty, hhere, hup, -⟩ := hs
  simp [walk, hp, hempty, hhere, hup]

theorem walk_down (ht : t.Sound) (hnames : ∀ s ∈ names, Proper s)
    (h : t.isDirectory ⟨a ++ names⟩ = true) :
    t.walk ⟨a⟩ (names ++ rest) = t.walk ⟨a ++ names⟩ rest := by
  induction names generalizing a with
  | nil => rw [List.nil_append, List.append_nil]
  | cons s names ih =>
    rw [List.append_cons] at h ⊢
    have hchild : t.isDirectory ((⟨a⟩ : Path).child s) = true := ht.isDirectory_way h
    have hstep : t.walk ⟨a⟩ (s :: (names ++ rest)) = _ :=
      walk_step (ht.isDirectory_way hchild) (hnames s List.mem_cons_self)
    rw [isDirectory_iff.mp hchild] at hstep
    exact hstep.trans (ih (fun q hq => hnames q (List.mem_cons_of_mem s hq)) h)

theorem components_text (h : ∀ s ∈ p.parts, Proper s) :
    Naming.components p.text = "" :: if p.parts = [] then [""] else p.parts := by
  have hslash : p.text.toList = [] ++ '/' :: (Text.join "/" p.parts).toList := by simp [Path.text]
  rw [Naming.components, hslash, Text.splitAt_append (by decide) (fun _ hx => by cases hx),
    List.map_cons]
  congr 1
  split
  next hnone => rw [hnone]; rfl
  next hsome =>
    exact Text.splitAt_join (c := '/') (by decide) hsome fun s hs => (h s hs).clear

theorem canonical_text (ht : t.Sound) (hnames : ∀ s ∈ p.parts, Proper s)
    (hp : t.isDirectory p.parent = true) :
    t.canonical p.text = if (t.entry? p).isNone then .error .notFound else .ok p := by
  have hstart : t.start p.text = ⟨[]⟩ := by
    rw [start, if_pos (String.startsWith_string_iff.mpr ⟨(Text.join "/" p.parts).toList,
      by simp [Path.text]⟩)]
  have htext : (p.text == "") = false := by simp [Path.text]
  rw [canonical, htext, hstart, components_text hnames]
  have hroot := ht.isDirectory_root
  have hskip : ∀ rest, t.walk ⟨[]⟩ ("" :: rest) = t.walk ⟨[]⟩ rest := fun rest => by
    simp [walk, hroot]
  obtain ⟨parts⟩ := p
  rcases List.eq_nil_or_concat' parts with rfl | ⟨names, s, rfl⟩
  · simpa [isDirectory_iff.mp hroot, hskip] using walk.eq_1 t ⟨[]⟩
  · rw [Path.parent, List.dropLast_concat] at hp
    have hdown : t.walk ⟨[]⟩ (names ++ [s]) = t.walk ⟨names⟩ [s] :=
      walk_down ht (fun q hq => hnames q (List.mem_append_left _ hq)) hp
    have hlast : t.walk ⟨names⟩ [s] = if (t.entry? ⟨names ++ [s]⟩).isNone then .error .notFound else
        .ok ⟨names ++ [s]⟩ :=
      walk_step hp (hnames s (by simp))
    simpa [hskip] using hdown.trans hlast

theorem read_text (ht : t.Sound) (hnames : ∀ s ∈ p.parts, Proper s)
    (hp : t.isDirectory p.parent = true) :
    (t.read p.text).toOption = match t.entry? p with
      | some (.file text) => some text
      | _ => none := by
  rw [read, canonical_text ht hnames hp]
  cases hentry : t.entry? p with
  | none => rfl
  | some e => cases e <;> simp [Bind.bind, Except.bind, hentry, Except.toOption]

theorem Sound.read_file (ht : t.Sound) {text : String} (h : t.entry? p = some (.file text)) :
    t.read p.text = .ok text := by
  have hread := read_text ht (ht.proper (by rw [h]; rfl)) (ht.in_directory h).1
  rw [h] at hread
  cases hresult : t.read p.text with
  | ok s =>
    rw [hresult] at hread
    exact congrArg Except.ok (Option.some.inj hread)
  | error e =>
    rw [hresult] at hread
    cases hread

end Tree

end Templating.Disk
