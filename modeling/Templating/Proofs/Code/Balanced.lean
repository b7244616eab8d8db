import Templating.Proofs.Code.Takes

/-! Texts that are balanced: what a scan gives back, names, numbers, quoted texts
and lists of them. -/
namespace Templating.Code

/-! Scanned code -/

theorem move_any_stop {stop : Stop} {mode mode' : Mode} {closers closers' : List Char}
    {p : Option Char} {c : Char}
    {next : List Char} {k : Nat} (h : move stop mode closers p c next = .go k mode' closers') :
    move (.closer ')') mode closers p c next = .go k mode' closers' := by
  cases mode with
  | code =>
    simp only [move, codeMove] at h ⊢
    split at h
    · cases h
    next hstop =>
      have hstop' : ¬ (closers.isEmpty && isStop (.closer ')') c next) = true := by
        intro hs
        rw [Bool.and_eq_true, List.isEmpty_iff] at hs
        obtain ⟨rfl, hc⟩ := hs
        obtain rfl : c = ')' := by simpa [isStop] using hc
        simp [closerOf?, isCloser] at h
      rw [if_neg hstop']
      exact h
  | _ => exact h

theorem stops_in_code {stop : Stop} {mode : Mode} {closers : List Char} {p : Option Char} {c : Char}
    {next : List Char} (h : move stop mode closers p c next = .stop) :
    mode = .code ∧ closers = [] ∧ isStop stop c next = true := by
  cases mode with
  | code =>
    simp only [move, codeMove] at h
    split at h
    next hstop =>
      rw [Bool.and_eq_true, List.isEmpty_iff] at hstop
      exact ⟨rfl, hstop⟩
    · split at h
      · cases h
      split at h
      · split at h
        · cases h
        · split at h <;> cases h
      split at h
      all_goals try cases h
      all_goals split at h
      all_goals try cases h
      split at h <;> cases h
  | raw n =>
    simp only [move] at h
    split at h <;> cases h
  | blockComment d =>
    simp only [move] at h
    split at h
    · cases h
    · split at h <;> cases h
  | _ => cases h

theorem prefix_of_isStop {stop : Stop} {c : Char} {next : List Char}
    (h : isStop stop c next = true) :
    stop.text <+: c :: next := by
  cases stop with
  | closer x =>
    obtain rfl : c = x := by simpa [isStop] using h
    exact ⟨next, rfl⟩
  | openBrace =>
    obtain rfl : c = '{' := by simpa [isStop] using h
    exact ⟨next, rfl⟩
  | fatArrow =>
    obtain ⟨rfl, hnext⟩ : c = '=' ∧ next.head? = some '>' := by simpa [isStop] using h
    cases next with
    | nil => cases hnext
    | cons d next =>
      obtain rfl := Option.some.inj hnext
      exact ⟨next, rfl⟩

/-- Boundaries that nothing before them looks for. -/
def Stop.Mild (stop : Stop) : Prop := ∀ c ∈ stop.text.head?, special c = false

instance (stop : Stop) : Decidable stop.Mild :=
  inferInstanceAs (Decidable (∀ c ∈ stop.text.head?, special c = false))

theorem run_of_scanFrom {stop : Stop} {k : Nat} {mode : Mode} {closers : List Char}
    {p : Option Char} {cs code : List Char} (h : scanFrom stop k mode closers p cs = .ok code) :
    ∃ rest, cs = code ++ (stop.text ++ rest) ∧
      State.run p (stop.text ++ rest) ⟨k, mode, closers⟩ code = some ⟨0, .code, []⟩ := by
  have hprepend : ∀ {c : Char} {r : Except (List Char × ScanError) (List Char)} {code : List Char},
      scanFrom.prepend c r = .ok code → ∃ code', r = .ok code' ∧ code = c :: code' := by
    rintro c (_ | code') code h
    · cases h
    · exact ⟨code', rfl, (Except.ok.inj h).symm⟩
  induction cs generalizing k mode closers p code with
  | nil => cases k <;> cases h
  | cons c cs ih =>
    cases k with
    | succ k =>
      obtain ⟨code', hcode, rfl⟩ := hprepend h
      obtain ⟨rest, rfl, hrun⟩ := ih hcode
      exact ⟨rest, rfl, hrun⟩
    | zero =>
      rw [scanFrom] at h
      split at h
      next hmove =>
        cases h
        obtain ⟨rfl, rfl, hc⟩ := stops_in_code hmove
        obtain ⟨rest, hrest⟩ := prefix_of_isStop hc
        exact ⟨rest, hrest.symm, rfl⟩
      · cases h
      next hmove =>
        obtain ⟨code', hcode, rfl⟩ := hprepend h
        obtain ⟨rest, rfl, hrun⟩ := ih hcode
        refine ⟨rest, rfl, ?_⟩
        simp only [State.run, State.next?, move_any_stop hmove]
        exact hrun

theorem balanced_of_scan {stop : Stop} (hstop : stop.Mild) {p : Option Char} {cs code : List Char}
    (h : scan stop p cs = .ok code)
    (hp : ∀ c, code.head? = some c → Text.continuesName c = true →
      p.any Text.continuesName = false) :
    Balanced code ∧ ∃ rest, cs = code ++ (stop.text ++ rest) := by
  obtain ⟨rest, hcs, hrun⟩ := run_of_scanFrom h
  have hmild : Code.Mild (stop.text ++ rest) := by
    intro c hc
    cases stop <;> exact hstop c hc
  have hrun' := hmild.run_code hrun
  rw [State.run_prev (q := none) fun c hc hname => hp c hc hname] at hrun'
  exact ⟨hrun', rest, hcs⟩

/-! Names and numbers -/

theorem plain_of_continuesName {c : Char} (h : Text.continuesName c = true) : plain c = true := by
  have hblank : Text.isBlank c = false := by
    cases hb : Text.isBlank c with
    | false => rfl
    | true =>
      rw [Text.not_continuesName_of_isBlank hb] at h
      cases h
  simp only [Text.continuesName, Text.isAlphanumeric, Text.isAlphabetic, Text.isNumeric,
    Bool.or_eq_true, Bool.and_eq_true] at h
  rcases h with ((h | ⟨h, -⟩) | h | ⟨h, -⟩) | h <;> simp [plain, hblank, Char.isAlphanum, h]

theorem balanced_of_plain {x : List Char} (h : ∀ c ∈ x, plain c = true) : Balanced x :=
  (balanced_of_scan (by decide) (scan_plain h none []) (by simp)).1

def Wordy (x : List Char) : Prop := ∀ c ∈ x, Text.continuesName c = true

instance (x : List Char) : Decidable (Wordy x) :=
  inferInstanceAs (Decidable (∀ c ∈ x, Text.continuesName c = true))

section
variable {x : List Char} (h : Wordy x)
include h

theorem Wordy.balanced : Balanced x := balanced_of_plain fun c hc => plain_of_continuesName (h c hc)

theorem Wordy.getLast?_ne : x.getLast? ≠ some '\'' := by
  intro hx
  have hc := h _ (List.mem_of_getLast? hx)
  exact absurd hc (by decide)

end

theorem balanced_repr (n : Nat) : Balanced (toString n).toList := by
  refine balanced_of_plain fun c hc => ?_
  change c ∈ n.repr.toList at hc
  rw [Nat.toList_repr] at hc
  have hdigit := Nat.isDigit_of_mem_toDigits (by decide) (by decide) hc
  simp [plain, Char.isAlphanum, hdigit]

/-! Quoted texts -/

theorem run_string {x : List Char} (h : ∀ c ∈ x, c ≠ '"' ∧ c ≠ '\\') (closers : List Char)
    (p : Option Char) (after : List Char) :
    State.run p after ⟨0, .string, closers⟩ x = some ⟨0, .string, closers⟩ := by
  induction x generalizing p with
  | nil => rfl
  | cons c x ih =>
    obtain ⟨hquote, hescape⟩ := h c List.mem_cons_self
    have hx := ih (fun d hd => h d (List.mem_cons_of_mem c hd)) (some c)
    simpa [State.run, State.next?, move, hquote, hescape] using hx

theorem digitChar_ne_mark (n : Nat) : n.digitChar ≠ '"' ∧ n.digitChar ≠ '\\' := by
  have hdigits : ∀ n < 16, n.digitChar ≠ '"' ∧ n.digitChar ≠ '\\' := by decide
  by_cases hn : n < 16
  · exact hdigits n hn
  · rw [Nat.digitChar_eq_star.mpr (by omega)]
    decide

theorem mem_toDigits {n : Nat} {c : Char} (h : c ∈ Nat.toDigits 16 n) :
    ∃ d : Nat, c = d.digitChar := by
  induction n using Nat.strongRecOn with
  | ind n ih =>
    rw [Nat.toDigits_eq_if (by decide)] at h
    split at h
    · exact ⟨n, List.mem_singleton.mp h⟩
    next hn =>
      rcases List.mem_append.mp h with h | h
      · exact ih (n / 16) (by omega) h
      · exact ⟨n % 16, List.mem_singleton.mp h⟩

theorem run_escape (c : Char) (closers : List Char) (p : Option Char) (after : List Char) :
    State.run p after ⟨0, .string, closers⟩ (Text.escape '"' c) = some ⟨0, .string, closers⟩ := by
  unfold Text.escape
  split
  all_goals try rfl
  next hescape =>
    split
    · rfl
    next hquote =>
      split
      · have hhex : ∀ d ∈ ['\x7b'] ++ Nat.toDigits 16 c.toNat ++ ['\x7d'], d ≠ '"' ∧ d ≠ '\\' := by
          intro d hd
          simp only [List.mem_append, List.mem_singleton] at hd
          rcases hd with (rfl | hd) | rfl
          · decide
          · obtain ⟨n, rfl⟩ := mem_toDigits hd
            exact digitChar_ne_mark n
          · decide
        exact run_string hhex closers (some 'u') after
      · refine run_string (fun d hd => ?_) closers p after
        obtain rfl := List.mem_singleton.mp hd
        exact ⟨by simpa using hquote, hescape⟩

theorem balanced_quoted (s : String) : Balanced (Text.quoted s).toList := by
  have hbody : ∀ (cs : List Char) (p : Option Char),
      State.run p ['"'] ⟨0, .string, []⟩ (cs.flatMap (Text.escape '"')) =
        some ⟨0, .string, []⟩ := by
    intro cs
    induction cs with
    | nil => exact fun _ => rfl
    | cons c cs ih =>
      intro p
      rw [List.flatMap_cons, State.run_append, run_escape]
      exact ih _
  show State.run none [] ⟨0, .code, []⟩ (Text.quoted s).toList = _
  rw [Text.quoted, String.toList_ofList]
  show State.run (some '"') [] ⟨0, .string, []⟩ (s.toList.flatMap (Text.escape '"') ++ ['"']) = _
  rw [State.run_append]
  simp only [List.append_nil, hbody]
  rfl

/-! Trimmed code -/

/-- What code that was trimmed may come to: it is balanced, or it ends inside a comment that the
line end would have ended. -/
def Pasted (x : List Char) : Prop := Balanced x ∨ Takes (.code, []) x (.lineComment, [])

theorem foldl_past_eq_code {b : List Char} {mode : Mode}
    (h : b.foldl (fun m c => m.past c) mode = .code) :
    mode = .code ∨ mode = .lineComment := by
  induction b generalizing mode with
  | nil => exact .inl h
  | cons c b ih =>
    have hpast := ih h
    cases mode <;> simp_all [Mode.past]

theorem mild_of_blank {b : List Char} (hb : ∀ c ∈ b, Text.isBlank c = true) : Mild b := by
  intro c hc
  have hcalm := calm_of_isBlank (hb c (List.mem_of_head? hc))
  simp only [calm, Bool.and_eq_true, Bool.not_eq_true'] at hcalm
  exact hcalm.1

theorem Balanced.trim {x : List Char} (h : Balanced x) : Pasted (Text.trim x) := by
  obtain ⟨a, b, hx, ha, hb⟩ := Text.exists_trim x
  unfold Balanced Takes at h
  rw [hx, run_lead ha (fun _ => rfl) [] rfl, State.run_append, List.append_nil] at h
  obtain ⟨⟨k, mode, closers⟩, htrim, hrest⟩ := Option.bind_eq_some_iff.mp h
  rw [(mild_of_blank hb).run] at htrim
  · obtain rfl : k = 0 := State.skip_of_run htrim (Nat.zero_le _)
    rw [run_blanks hb] at hrest
    obtain ⟨hmode, rfl⟩ : _ ∧ closers = [] := by simpa using hrest
    rcases foldl_past_eq_code hmode with rfl | rfl
    · exact .inl htrim
    · exact .inr htrim
  · intro hb'
    have hblank := hb _ (List.mem_of_mem_tail (List.mem_of_head? hb'))
    exact absurd hblank (by decide)

/-! Texts in a row -/

theorem Balanced.append {a b : List Char} (ha : Balanced a) (hab : Apart a b) (hb : Balanced b) :
    Balanced (a ++ b) :=
  Takes.append ha hab hb

end Templating.Code
