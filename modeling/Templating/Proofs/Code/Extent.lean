import Templating.Markup.Implicit
import Templating.Proofs.Code.Balanced
import Templating.Proofs.Text.Cursor

/-! How far a scan gets: what it reads stands at the front of the text, and if it fails, it does so
at a closing delimiter or at the end. -/
namespace Templating.Code
variable {stop : Stop} {mode : Mode} {closers : List Char} {p : Option Char} {e : ScanError}

/-- The text begins with what was read, and after that comes what the error is about: the delimiter
that it names, or nothing at all. -/
def Halted (cs read : List Char) (e : ScanError) : Prop :=
  ∃ rest, cs = read ++ rest ∧
    match e with
    | .mismatched _ f | .unopened f => isCloser f = true ∧ ∃ after, rest = f :: after
    | _ => rest = []

theorem Halted.prepend {cs read : List Char} (h : Halted cs read e) (lead : List Char) :
    Halted (lead ++ cs) (lead ++ read) e := by
  obtain ⟨rest, rfl, hrest⟩ := h
  exact ⟨rest, (List.append_assoc lead read rest).symm, hrest⟩

theorem closer_of_move {c : Char} {next : List Char}
    (h : move stop mode closers p c next = .fail e) :
    isCloser c = true ∧ (e = .unopened c ∨ ∃ x, e = .mismatched x c) := by
  cases mode with
  | code =>
    simp only [move, codeMove] at h
    split at h
    · cases h
    split at h
    · cases h
    split at h
    next hc =>
      cases closers with
      | nil =>
        obtain rfl := Move.fail.inj h
        exact ⟨hc, .inl rfl⟩
      | cons x closers =>
        dsimp only at h
        split at h
        · cases h
        · obtain rfl := Move.fail.inj h
          exact ⟨hc, .inr ⟨x, rfl⟩⟩
    · repeat' split at h
      all_goals cases h
  | raw n =>
    simp only [move] at h
    split at h <;> cases h
  | blockComment d =>
    simp only [move] at h
    split at h
    · cases h
    · split at h <;> cases h
  | _ => cases h

theorem halted_of_scanFrom {k : Nat} {cs read : List Char}
    (h : scanFrom stop k mode closers p cs = .error (read, e)) :
    Halted cs read e := by
  have hprepend : ∀ {c : Char} {r : Except (List Char × ScanError) (List Char)} {read : List Char},
      scanFrom.prepend c r = .error (read, e) → ∃ read', r = .error (read', e) ∧
        read = [c] ++ read' := by
    rintro c (⟨read', e'⟩ | code) read h
    · obtain ⟨rfl, rfl⟩ := Prod.mk.inj (Except.error.inj h)
      exact ⟨read', rfl, rfl⟩
    · cases h
  induction cs generalizing k mode closers p read with
  | nil =>
    have hend : ([], mode.atEnd stop) = (read, e) := by cases k <;> exact Except.error.inj h
    obtain ⟨rfl, rfl⟩ := Prod.mk.inj hend
    exact ⟨[], rfl, by cases mode <;> rfl⟩
  | cons c cs ih =>
    cases k with
    | succ k =>
      obtain ⟨read', hread, rfl⟩ := hprepend h
      exact (ih hread).prepend [c]
    | zero =>
      rw [scanFrom] at h
      split at h
      · cases h
      next e' hmove =>
        obtain ⟨rfl, rfl⟩ := Prod.mk.inj (Except.error.inj h)
        obtain ⟨hc, he⟩ := closer_of_move hmove
        refine ⟨c :: cs, rfl, ?_⟩
        rcases he with rfl | ⟨x, rfl⟩ <;> exact ⟨hc, cs, rfl⟩
      · obtain ⟨read', hread, rfl⟩ := hprepend h
        exact (ih hread).prepend [c]

theorem halted_of_scan {cs read : List Char} (h : scan stop p cs = .error (read, e)) :
    Halted cs read e :=
  halted_of_scanFrom h

theorem prefix_of_scan {cs code : List Char} (h : scan stop p cs = .ok code) :
    ∃ rest, cs = code ++ (stop.text ++ rest) :=
  let ⟨rest, hcs, _⟩ := run_of_scanFrom h
  ⟨rest, hcs⟩

/-! What stands behind the text -/

section
variable {x : Char} {k : Nat} {cs b code : List Char}

theorem ok_of_prepend {c : Char} {r : Except (List Char × ScanError) (List Char)}
    (h : scanFrom.prepend c r = .ok code) :
    ∃ code', r = .ok code' ∧ code = c :: code' := by
  cases r with
  | error f => cases h
  | ok code' => exact ⟨code', rfl, (Except.ok.inj h).symm⟩

theorem scanFrom_append (hb : Mild b) (hq : b.tail.head? = some '\'' → cs.getLast? ≠ some '\'')
    (h : scanFrom (.closer x) k mode closers p cs = .ok code) :
    scanFrom (.closer x) k mode closers p (cs ++ b) = .ok code := by
  induction cs generalizing k mode closers p code with
  | nil => cases k <;> cases h
  | cons c cs ih =>
    have hmore : b.tail.head? = some '\'' → cs.getLast? ≠ some '\'' := by
      intro hb'
      cases cs with
      | nil => simp
      | cons d cs => simpa [List.getLast?_cons_cons] using hq hb'
    cases k with
    | succ k =>
      obtain ⟨code', hcode, rfl⟩ := ok_of_prepend h
      exact congrArg (scanFrom.prepend c) (ih hmore hcode)
    | zero =>
      have hquiet : Quiet c cs b := by
        rintro rfl rfl hb'
        exact hq hb' rfl
      rw [scanFrom] at h
      rw [List.cons_append, scanFrom, hb.move hquiet]
      split at h
      · exact h
      · cases h
      · obtain ⟨code', hcode, rfl⟩ := ok_of_prepend h
        exact congrArg (scanFrom.prepend c) (ih hmore hcode)

theorem scanFrom_of_blanks (hb : ∀ c ∈ b, Text.isBlank c = true) (hx : Text.isBlank x = false)
    (h : scanFrom (.closer x) k mode closers p (cs ++ b) = .ok code) :
    scanFrom (.closer x) k mode closers p cs = .ok code := by
  have hquote : ∀ a : List Char, a.tail.head? = some '\'' → '\'' ∈ a :=
    fun a ha => List.mem_of_mem_tail (List.mem_of_head? ha)
  induction cs generalizing k mode closers p code with
  | nil =>
    obtain ⟨rest, hsplit, -⟩ := run_of_scanFrom h
    have hmem : x ∈ b := by
      rw [← List.nil_append b, hsplit]
      simp [Stop.text]
    rw [hb x hmem] at hx
    cases hx
  | cons c cs ih =>
    cases k with
    | succ k =>
      obtain ⟨code', hcode, rfl⟩ := ok_of_prepend h
      exact congrArg (scanFrom.prepend c) (ih hcode)
    | zero =>
      have hquiet : Quiet c cs b := fun _ _ hb' => absurd (hb _ (hquote b hb')) (by decide)
      rw [List.cons_append, scanFrom, (mild_of_blank hb).move hquiet] at h
      rw [scanFrom]
      split at h
      · exact h
      · cases h
      · obtain ⟨code', hcode, rfl⟩ := ok_of_prepend h
        exact congrArg (scanFrom.prepend c) (ih hcode)

theorem scan_blanks_iff (hb : ∀ c ∈ b, Text.isBlank c = true) (hx : Text.isBlank x = false) :
    scan (.closer x) p (cs ++ b) = .ok code ↔ scan (.closer x) p cs = .ok code := by
  refine ⟨scanFrom_of_blanks hb hx, scanFrom_append (mild_of_blank hb) fun hb' => ?_⟩
  exact absurd (hb _ (List.mem_of_mem_tail (List.mem_of_head? hb'))) (by decide)

end

/-! What a step of a scan leaves before the rest of it -/

open Markup.Implicit (Reading after)

theorem prepend_eq (x : Char) (r : Reading) : scanFrom.prepend x r = after [x] r := by
  cases r <;> rfl

theorem scanFrom_cons (k : Nat) (mode : Mode) (closers : List Char) (p : Option Char) (x : Char)
    (cs : List Char) :
    scanFrom stop (k + 1) mode closers p (x :: cs) =
      after [x] (scanFrom stop k mode closers (some x) cs) := by
  rw [scanFrom, prepend_eq]

theorem after_nil (r : Reading) : after [] r = r := by cases r <;> rfl

theorem after_after (u v : List Char) (r : Reading) : after u (after v r) = after (u ++ v) r := by
  cases r <;> simp [after]

theorem exists_of_rawGuards? {behind : List Char} {n : Nat} (hn : rawGuards? behind = some n) :
    ∃ v, behind = (List.replicate n '#' ++ ['"']) ++ v := by
  simp only [rawGuards?] at hn
  split at hn
  next hquote =>
    obtain rfl := Option.some.inj hn
    obtain ⟨v, hv⟩ := List.head?_eq_some_iff.mp (eq_of_beq hquote)
    refine ⟨v, ?_⟩
    have hall : behind.takeWhile (· == '#') =
        List.replicate (behind.takeWhile (· == '#')).length '#' :=
      List.eq_replicate_iff.mpr
        ⟨rfl, fun y hy => by simpa using List.all_eq_true.mp List.all_takeWhile y hy⟩
    have hsplit := List.takeWhile_append_dropWhile (p := (· == '#')) (l := behind)
    rw [← Text.drop_length_takeWhile, hv] at hsplit
    rw [← hall]
    simpa using hsplit.symm
  · cases hn

end Templating.Code

namespace Templating.Markup.Implicit
open Code (Halted)
open Text (leadingName)

/-- A reading takes the front of a text, and fails where the scan of something enclosed does. -/
def AtFront (cs : List Char) : Reading → Prop
  | .ok code => code <+: cs
  | .error (read, e) => Halted cs read e

theorem AtFront.after {cs : List Char} {r : Reading} (h : AtFront cs r) (lead : List Char) :
    AtFront (lead ++ cs) (after lead r) := by
  cases r with
  | ok code => exact (List.prefix_append_right_inj lead).mpr h
  | error f => exact Halted.prepend h lead

theorem prefix_leadingName (cs : List Char) : leadingName cs <+: cs := by
  cases cs with
  | nil => exact List.prefix_refl []
  | cons x cs =>
    rw [leadingName]
    split
    · exact List.cons_prefix_cons.mpr ⟨rfl, List.takeWhile_prefix _⟩
    · exact List.nil_prefix

theorem atFront_suffixes (n : Nat) (cs : List Char) : AtFront cs (suffixes n cs) := by
  induction n generalizing cs with
  | zero => exact List.nil_prefix
  | succ n ih =>
    have hnamed : ∀ (lead rest : List Char),
        AtFront (lead ++ rest)
          (after (lead ++ leadingName rest)
            (suffixes n (rest.drop (leadingName rest).length))) := by
      intro lead rest
      have hsplit := List.prefix_iff_eq_append.mp (prefix_leadingName rest)
      have h := (ih (rest.drop (leadingName rest).length)).after (lead ++ leadingName rest)
      rwa [List.append_assoc, hsplit] at h
    have henclosed : ∀ (lead : List Char) {rest code : List Char} {closer : Char},
        Code.scan (.closer closer) lead.getLast? rest = .ok code →
          AtFront (lead ++ rest)
            (after (lead ++ code ++ [closer]) (suffixes n (rest.drop (code.length + 1)))) := by
      intro lead rest code closer hscan
      obtain ⟨behind, hrest⟩ := Code.prefix_of_scan hscan
      have hfront : code ++ [closer] <+: rest := ⟨behind, by rw [hrest, List.append_assoc]; rfl⟩
      have hsplit := List.prefix_iff_eq_append.mp hfront
      rw [List.length_append, List.length_singleton] at hsplit
      have h := (ih (rest.drop (code.length + 1))).after (lead ++ (code ++ [closer]))
      rwa [List.append_assoc lead, hsplit, ← List.append_assoc lead] at h
    have hopen : ∀ (lead : List Char) {rest : List Char} {closer : Char}
      {f : List Char × Code.ScanError},
        Code.scan (.closer closer) lead.getLast? rest = .error f →
          AtFront (lead ++ rest) (after lead (.error f)) :=
      fun lead _ _ f hscan => AtFront.after (r := .error f) (Code.halted_of_scan hscan) lead
    unfold suffixes
    dsimp only
    split
    · split
      · exact List.nil_prefix
      · exact hnamed [':', ':'] _
    · split
      · exact List.nil_prefix
      · exact hnamed ['.'] _
    · split
      next hscan => exact henclosed ['('] hscan
      next hscan => exact hopen ['('] hscan
    · split
      next hscan => exact henclosed ['['] hscan
      next hscan => exact hopen ['['] hscan
    · split
      next hscan => exact henclosed ['!', '('] hscan
      next hscan => exact hopen ['!', '('] hscan
    · exact List.nil_prefix

theorem atFront_read (cs : List Char) : AtFront cs (read cs) := by
  have h :=
    (atFront_suffixes (cs.length + 1) (cs.drop (leadingName cs).length)).after (leadingName cs)
  rwa [List.prefix_iff_eq_append.mp (prefix_leadingName cs)] at h

end Templating.Markup.Implicit
