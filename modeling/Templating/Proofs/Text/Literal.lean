import Templating.Proofs.Code.Crossing
import Templating.Proofs.Code.Balanced

/-! String literals: how they are read, and that the quoted form of a text is one
that denotes the text. -/
namespace Templating.Text.Literal

/-! Reading -/

def digit? (c : Char) : Option Nat :=
  if '0' ≤ c ∧ c ≤ '9' then some (c.toNat - '0'.toNat)
  else if 'a' ≤ c ∧ c ≤ 'f' then some (c.toNat - 'a'.toNat + 10)
  else if 'A' ≤ c ∧ c ≤ 'F' then some (c.toNat - 'A'.toNat + 10)
  else none

def numberFrom? : Nat → List Char → Option Nat
  | n, [] => some n
  | n, c :: cs => (digit? c).bind fun d => numberFrom? (16 * n + d) cs

def scalar? (n : Nat) : Option Char := if n.isValidChar then some (.ofNat n) else none

/-- A code point in up to six digits, which may stand apart from each other but for the first. -/
def codePoint? (cs : List Char) : Option Char :=
  let digits := cs.filter (· != '_')
  if cs.head? != some '_' && 1 ≤ digits.length && digits.length ≤ 6 then
    (numberFrom? 0 digits).bind scalar? else none

/-- Behind a backslash: the character that is meant, if there is one, and how many characters say
so. At the end of a line that is none; the next line goes on where it is not blank. -/
def escape? : List Char → Option (Option Char × Nat)
  | 'n' :: _ => some (some '\n', 1)
  | 'r' :: _ => some (some '\r', 1)
  | 't' :: _ => some (some '\t', 1)
  | '\\' :: _ => some (some '\\', 1)
  | '0' :: _ => some (some '\x00', 1)
  | '\'' :: _ => some (some '\'', 1)
  | '"' :: _ => some (some '"', 1)
  | 'x' :: high :: low :: _ =>
    match numberFrom? 0 [high, low] with
    | some n => if n < 0x80 then some (some (.ofNat n), 3) else none
    | none => none
  | 'u' :: '\x7b' :: cs =>
    let digits := cs.takeWhile (· != '\x7d')
    if (cs.drop digits.length).isEmpty then none
    else (codePoint? digits).map fun c => (some c, digits.length + 3)
  | '\n' :: cs =>
    some (none, (cs.takeWhile fun c => c == ' ' || c == '\t' || c == '\n' || c == '\r').length + 1)
  | _ => none

/-- What a literal denotes that goes on here, and the text behind it. The first number counts
characters still to pass over. -/
def readFrom : Nat → List Char → Option (List Char × List Char)
  | _, [] => none
  | k + 1, _ :: cs => readFrom k cs
  | 0, '"' :: cs => some ([], cs)
  | 0, '\\' :: cs =>
    (escape? cs).bind fun (c, k) => (readFrom k cs).map fun (text, rest) => (c.toList ++ text, rest)
  | 0, '\r' :: _ => none
  | 0, c :: cs => (readFrom 0 cs).map fun (text, rest) => (c :: text, rest)

def read? : List Char → Option (String × List Char)
  | '"' :: cs => (readFrom 0 cs).map fun (text, rest) => (.ofList text, rest)
  | _ => none

/-! Numbers -/

theorem digit?_digitChar : ∀ d < 16, digit? d.digitChar = some d := by decide

theorem numberFrom?_append (u v : List Char) (n : Nat) :
    numberFrom? n (u ++ v) = (numberFrom? n u).bind fun m => numberFrom? m v := by
  induction u generalizing n with
  | nil => rfl
  | cons c u ih =>
    rw [List.cons_append, numberFrom?, numberFrom?, Option.bind_assoc]
    exact congrArg _ (funext fun d => ih _)

theorem numberFrom?_toDigits (n : Nat) : numberFrom? 0 (Nat.toDigits 16 n) = some n := by
  induction n using Nat.strongRecOn with
  | ind n ih =>
    rw [Nat.toDigits_eq_if (by decide)]
    split
    next hn => simp [numberFrom?, digit?_digitChar n hn]
    next hn =>
      have hlast : digit? (n % 16).digitChar = some (n % 16) :=
        digit?_digitChar _ (Nat.mod_lt n (by decide))
      rw [numberFrom?_append, ih (n / 16) (by omega)]
      simp only [Option.bind_some, numberFrom?, hlast, Nat.div_add_mod]

theorem digitChar_ne {n : Nat} {c : Char} (h : c ∈ Nat.toDigits 16 n) :
    c ≠ '_' ∧ c ≠ '\x7d' ∧ isHidden c = false := by
  have hdigits : ∀ d < 16, d.digitChar ≠ '_' ∧ d.digitChar ≠ '\x7d' ∧
      isHidden d.digitChar = false := by decide
  obtain ⟨d, rfl⟩ := Code.mem_toDigits h
  by_cases hd : d < 16
  · exact hdigits d hd
  · rw [Nat.digitChar_eq_star.mpr (by omega)]
    decide

theorem codePoint?_toDigits (c : Char) : codePoint? (Nat.toDigits 16 c.toNat) = some c := by
  have hvalid : c.toNat.isValidChar := c.valid
  have hplain : (Nat.toDigits 16 c.toNat).filter (· != '_') = Nat.toDigits 16 c.toNat :=
    List.filter_eq_self.mpr fun d hd => by simpa using (digitChar_ne hd).1
  have hhead : (Nat.toDigits 16 c.toNat).head? ≠ some '_' :=
    fun h => (digitChar_ne (List.mem_of_head? h)).1 rfl
  have hpos : 1 ≤ (Nat.toDigits 16 c.toNat).length := List.length_pos_iff.mpr Nat.toDigits_ne_nil
  have hsix : (Nat.toDigits 16 c.toNat).length ≤ 6 := by
    rw [Nat.length_toDigits_le_iff (by decide) (by decide)]
    simp only [Nat.isValidChar] at hvalid
    omega
  have hscalar : scalar? c.toNat = some c := by rw [scalar?, if_pos hvalid, Char.ofNat_toNat]
  simp [codePoint?, hplain, hhead, hpos, hsix, numberFrom?_toDigits, hscalar]

/-! One character -/

theorem escape_cases (c : Char) :
    (∃ d, escape '"' c = ['\\', d] ∧ isHidden d = false ∧ ∀ cs, escape? (d :: cs) =
      some (some c, 1)) ∨
      escape '"' c = numbered c ∨
        (escape '"' c = [c] ∧ c ≠ '"' ∧ c ≠ '\\' ∧ isHidden c = false) := by
  unfold escape
  split
  · exact .inl ⟨'0', rfl, by decide, fun _ => rfl⟩
  · exact .inl ⟨'t', rfl, by decide, fun _ => rfl⟩
  · exact .inl ⟨'r', rfl, by decide, fun _ => rfl⟩
  · exact .inl ⟨'n', rfl, by decide, fun _ => rfl⟩
  · exact .inl ⟨'\\', rfl, by decide, fun _ => rfl⟩
  next hbackslash =>
    by_cases hquote : c = '"'
    · subst hquote
      exact .inl ⟨'"', rfl, by decide, fun _ => rfl⟩
    · rw [if_neg (by simpa using hquote)]
      cases hhidden : isHidden c with
      | true => exact .inr (.inl rfl)
      | false => exact .inr (.inr ⟨rfl, hquote, hbackslash, rfl⟩)

theorem mem_numbered {c d : Char} (h : d ∈ numbered c) :
    d ∈ ['\\', 'u', '\x7b', '\x7d'] ∨ d ∈ Nat.toDigits 16 c.toNat := by
  simp only [numbered, List.mem_append, List.mem_cons, List.not_mem_nil, or_false] at h ⊢
  tauto

theorem not_hidden_escape {c d : Char} (h : d ∈ escape '"' c) : isHidden d = false := by
  have hsigns : ∀ d ∈ ['\\', 'u', '\x7b', '\x7d'], isHidden d = false := by decide
  rcases escape_cases c with ⟨e, hescape, he, -⟩ | hescape | ⟨hescape, -, -, hc⟩ <;>
    rw [hescape] at h
  · rcases List.mem_cons.mp h with rfl | h
    · decide
    · rwa [List.mem_singleton.mp h]
  · rcases mem_numbered h with h | h
    · exact hsigns d h
    · exact (digitChar_ne h).2.2
  · rwa [List.mem_singleton.mp h]

theorem readFrom_append (u cs : List Char) : readFrom u.length (u ++ cs) = readFrom 0 cs := by
  induction u with
  | nil => rfl
  | cons c u ih => exact ih

theorem escape?_numbered (c : Char) (cs : List Char) :
    escape? ((numbered c).tail ++ cs) = some (some c, (numbered c).tail.length) := by
  have hshape : (numbered c).tail ++ cs =
      'u' :: '\x7b' :: (Nat.toDigits 16 c.toNat ++ '\x7d' :: cs) := by simp [numbered]
  have htake : (Nat.toDigits 16 c.toNat ++ '\x7d' :: cs).takeWhile (· != '\x7d') =
      Nat.toDigits 16 c.toNat := by
    rw [List.takeWhile_append_of_pos fun d hd => by simpa using (digitChar_ne hd).2.1]
    simp
  rw [hshape, escape?, htake, List.drop_left, codePoint?_toDigits]
  simp [numbered]

theorem readFrom_escape (c : Char) (cs : List Char) :
    readFrom 0 (escape '"' c ++ cs) = (readFrom 0 cs).map fun (text, rest) =>
      (c :: text, rest) := by
  rcases escape_cases c with
    ⟨d, hescape, -, hd⟩ | hescape | ⟨hescape, hquote, hbackslash, hhidden⟩ <;> rw [hescape]
  · show (escape? (d :: cs)).bind _ = _
    rw [hd cs]
    rfl
  · show (escape? ((numbered c).tail ++ cs)).bind _ = _
    rw [escape?_numbered, Option.bind_some]
    exact congrArg (Option.map _) (readFrom_append (numbered c).tail cs)
  · have hreturn : c ≠ '\r' := by
      rintro rfl
      exact absurd hhidden (by decide)
    show readFrom 0 (c :: cs) = _
    rw [readFrom] <;> assumption

/-! The whole text -/

def inside (s : String) : List Char := s.toList.flatMap (escape '"') ++ ['"']

theorem toList_quoted (s : String) : (quoted s).toList = '"' :: inside s := by
  rw [quoted, String.toList_ofList]
  rfl

theorem readFrom_inside (cs rest : List Char) :
    readFrom 0 (cs.flatMap (escape '"') ++ '"' :: rest) = some (cs, rest) := by
  induction cs with
  | nil => rfl
  | cons c cs ih =>
    rw [List.flatMap_cons, List.append_assoc, readFrom_escape, ih]
    rfl

theorem read?_quoted (s : String) (rest : List Char) :
    read? ((quoted s).toList ++ rest) = some (s, rest) := by
  rw [toList_quoted, inside, List.cons_append, List.append_assoc, read?, List.singleton_append,
    readFrom_inside]
  simp

theorem not_hidden_quoted {s : String} {c : Char} (h : c ∈ (quoted s).toList) :
    isHidden c = false := by
  have hquote : isHidden '"' = false := by decide
  rw [toList_quoted, inside] at h
  rcases List.mem_cons.mp h with rfl | h
  · exact hquote
  rcases List.mem_append.mp h with h | h
  · obtain ⟨d, -, hd⟩ := List.mem_flatMap.mp h
    exact not_hidden_escape hd
  · rwa [List.mem_singleton.mp h]

end Templating.Text.Literal

namespace Templating.Code
open Text (quoted escape numbered)
open Text.Literal

/-! Scanning -/

section
variable {c : Char} {u v w : List Char}

theorem UpToUnescaped.append (h : UpToUnescaped '"' u) (hv : ∀ c ∈ v, c ≠ '"' ∧ c ≠ '\\') :
    UpToUnescaped '"' (v ++ u) := by
  induction v with
  | nil => exact h
  | cons c v ih =>
    obtain ⟨hquote, hbackslash⟩ := hv c List.mem_cons_self
    exact .other hquote hbackslash (ih fun d hd => hv d (List.mem_cons_of_mem c hd))

theorem upToUnescaped_escape (h : UpToUnescaped '"' u) (c : Char) :
    UpToUnescaped '"' (escape '"' c ++ u) := by
  rcases escape_cases c with ⟨d, hescape, -, -⟩ | hescape | ⟨hescape, hquote, hbackslash, -⟩ <;>
    rw [hescape]
  · exact .escaped d h
  · refine .escaped 'u'
      (UpToUnescaped.append (v := '\x7b' :: Nat.toDigits 16 c.toNat ++ ['\x7d']) h fun d hd => ?_)
    simp only [List.cons_append, List.mem_cons, List.mem_append, List.not_mem_nil, or_false] at hd
    rcases hd with rfl | hd | rfl
    · decide
    · obtain ⟨n, rfl⟩ := mem_toDigits hd
      exact digitChar_ne_mark n
    · decide
  · exact .other hquote hbackslash h

theorem upToUnescaped_inside (s : String) : UpToUnescaped '"' (inside s) := by
  unfold inside
  induction s.toList with
  | nil => exact .mark
  | cons c cs ih =>
    rw [List.flatMap_cons, List.append_assoc]
    exact upToUnescaped_escape ih c

theorem UpToUnescaped.crosses_within (h : UpToUnescaped '"' w) (hsplit : w = u ++ v) (hv : v ≠ []) :
    ∃ mode, (mode = .string ∨ mode = .stringEscape) ∧
      ∀ stop closers p rest, Crosses stop (.string, closers) (mode, closers) p u (v ++ rest) := by
  induction h generalizing u with
  | mark =>
    obtain rfl : u = [] := by
      cases u with
      | nil => rfl
      | cons c u => simp_all
    exact ⟨.string, .inl rfl, fun _ _ p rest => Crosses.nil _ p _⟩
  | @escaped c w hw ih =>
    cases u with
    | nil => exact ⟨.string, .inl rfl, fun _ _ p rest => Crosses.nil _ p _⟩
    | cons d u =>
      obtain ⟨rfl, htail⟩ := List.cons.inj hsplit
      have hbackslash : ∀ stop closers p cs, move stop .string closers p '\\' cs =
          .go 0 .stringEscape closers := fun _ _ _ _ => rfl
      cases u with
      | nil =>
        exact ⟨.stringEscape, .inr rfl, fun _ _ p rest => Crosses.of_move (u := []) (hbackslash ..)⟩
      | cons d u =>
        obtain ⟨rfl, hmore⟩ := List.cons.inj htail
        obtain ⟨mode, hmode, hcrosses⟩ := ih hmore
        exact ⟨mode, hmode, fun stop closers p rest =>
          Crosses.cons (hbackslash ..) (Crosses.cons rfl (hcrosses stop closers _ rest))⟩
  | @other c w hquote hbackslash hw ih =>
    cases u with
    | nil => exact ⟨.string, .inl rfl, fun _ _ p rest => Crosses.nil _ p _⟩
    | cons d u =>
      obtain ⟨rfl, htail⟩ := List.cons.inj hsplit
      obtain ⟨mode, hmode, hcrosses⟩ := ih htail
      refine ⟨mode, hmode, fun stop closers p rest =>
        Crosses.cons ?_ (hcrosses stop closers _ rest)⟩
      simp [move, hquote, hbackslash]

end

theorem crosses_quote {stop : Stop} (h : stop ≠ .closer '"') (closers : List Char) (p : Option Char)
    (rest : List Char) :
    Crosses stop (.code, closers) (.string, closers) p ['"'] rest := by
  have hhalt : ¬ Halts stop closers ('"' :: rest) := by
    rintro ⟨-, hstop⟩
    cases stop with
    | closer c =>
      rw [Stop.text, List.cons_prefix_cons] at hstop
      exact h (by rw [hstop.1])
    | openBrace => simp [Stop.text] at hstop
    | fatArrow => simp [Stop.text] at hstop
  exact (Cover.Opens.string rest).crosses hhalt

end Templating.Code
