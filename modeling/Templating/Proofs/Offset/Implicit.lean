import Templating.Proofs.Code.Extent
import Templating.Proofs.Offset.Scan

/-! Expressions that nothing delimits, by byte offsets: a loop over what may follow the name that
they begin with. -/
namespace Templating.Offset
open Code (ScanError Stop)
open Markup.Implicit (Reading after suffixes)
open Text (Cursor byteSize leadingName)
open Text.Cursor

section
variable (n : Nat) (text : List Char)

abbrev Extended := Turn Nat (Except (Nat × ScanError) Nat)

def named (i lead : Nat) (behind : List Char) : Extended :=
  let length := byteSize (leadingName behind)
  if length == 0 then .last (.ok i) else .next (i + (lead + length))

def enclosed (i lead : Nat) (closer : Char) : Attempt Extended := do
  match ← scan n text (i + lead) (.closer closer) with
  | .ok (_, stop) => return .next stop
  | .error f => return .last (.error f)

def implicitTurn (i : Nat) : Attempt Extended := do
  let rest ← onward i text
  match rest with
  | ':' :: ':' :: behind => return named i 2 behind
  | '.' :: behind => return named i 1 behind
  | '(' :: _ => enclosed n text i 1 ')'
  | '[' :: _ => enclosed n text i 1 ']'
  | '!' :: '(' :: _ => enclosed n text i 2 ')'
  | _ => return .last (.ok i)

def implicitEnd (i : Nat) : Attempt (Except (Nat × ScanError) Nat) := do
  let rest ← onward i text
  loop (implicitTurn n text) n (i + byteSize (leadingName rest))

end

/-! What these tell is what is read at a cursor -/

section
variable {n : Nat} {text : List Char} {c : Cursor}

theorem bytewise_closer {x : Char} (hx : x.utf8Size = 1) : Bytewise (.closer x) := by
  intro y hy
  rwa [List.mem_singleton.mp hy]

def ended (c : Cursor) : Reading → Except (Nat × ScanError) Nat
  | .ok code => .ok (c.past code).offset
  | .error (read, e) => .error ((c.past read).offset, e)

theorem ended_after (c : Cursor) (u : List Char) (r : Reading) :
    ended c (after u r) = ended (c.past u) r := by
  cases r with
  | ok code => rw [after, ended, ended, past_append]
  | error f => rw [after, ended, ended, past_append]

section
variable (lead : List Char) {behind : List Char} (hc : c.text = text)
  (hrest : c.rest = lead ++ behind) (hlead : lead ≠ [])
  (hascii : ∀ x ∈ lead, x.utf8Size = 1)

theorem named_ends {enough : Prop} (length : Nat) {r : Reading} {again : Cursor → Nat → Prop}
    (hname : leadingName behind = []) (hr : .ok [] = r) :
    Advances False enough (.ok (named c.offset length behind)) c (ended c r) again := by
  refine advances_last (settles_ok ?_)
  rw [named, hname, ← hr]
  rfl

include hc hrest hlead hascii

theorem named_advances {enough : Prop} (k : Nat) {r : Reading} (hname : leadingName behind ≠ [])
    (hr : after (lead ++ leadingName behind)
      (suffixes k (behind.drop (leadingName behind).length)) = r) :
    Advances False enough (.ok (named c.offset lead.length behind)) c (ended c r) fun d i =>
      i = d.offset ∧ d.text = text ∧ ended c r = ended d (suffixes k d.rest) := by
  have hsplit := List.prefix_iff_eq_append.mp (Markup.Implicit.prefix_leadingName behind)
  have hall : c.rest = (lead ++ leadingName behind) ++ behind.drop (leadingName behind).length := by
    rw [hrest, List.append_assoc, hsplit]
  have hoffset : (c.past (lead ++ leadingName behind)).offset =
      c.offset + (lead.length + byteSize (leadingName behind)) := by
    rw [past, offset_forward hall, Text.byteSize_append, byteSize_ascii hascii]
  have hbeyond : Beyond c (c.past (lead ++ leadingName behind)) :=
    beyond_past (by simp [hrest, hlead]) (by simp [hlead])
  refine advances_next (settles_ok ?_) hbeyond ⟨rfl, by rw [past, text_forward, hc], ?_⟩
  · have hpos := Text.byteSize_pos hname
    rw [named, hoffset, if_neg (by simpa using Nat.ne_of_gt hpos)]
  · rw [← hr, ended_after, past, rest_forward_of_append hall]

theorem scan_enclosed {enough : Prop} (henough : enough → c.rest.length ≤ n) {x : Char}
    (hx : x.utf8Size = 1) :
    Settles False enough (scan n text (c.offset + lead.length) (.closer x))
      (told (c.past lead) (.closer x) (Code.scan (.closer x) lead.getLast? behind)) := by
  have hpast : (c.past lead).text = text := by rw [past, text_forward, hc]
  have hbehind : (c.past lead).rest = behind := rest_forward_of_append hrest
  have hlast : (c.past lead).before.head? = lead.getLast? := head?_before_forward hrest hlead
  have hshorter : (c.past lead).rest.length < c.rest.length :=
    (beyond_past (by simp [hrest, hlead]) hlead).shorter
  have hscan := scan_settles n hpast (bytewise_closer hx)
  rw [hlast, hbehind, ← offset_past_ascii hrest hascii] at hscan
  exact hscan.weaken id fun h => by
    have hle := henough h
    rw [hbehind] at hshorter
    omega

theorem enclosed_advances {enough : Prop} (henough : enough → c.rest.length ≤ n) (k : Nat)
    {closer : Char} (hcloser : closer.utf8Size = 1) {code : List Char} {r : Reading}
    (hscan : Code.scan (.closer closer) lead.getLast? behind = .ok code)
    (hr : after (lead ++ code ++ [closer]) (suffixes k (behind.drop (code.length + 1))) = r) :
    Advances False enough (enclosed n text c.offset lead.length closer) c (ended c r) fun d i =>
      i = d.offset ∧ d.text = text ∧ ended c r = ended d (suffixes k d.rest) := by
  have hcode := scan_enclosed lead hc hrest hlead hascii henough hcloser
  rw [hscan] at hcode
  obtain ⟨rest, hbehind⟩ := Code.prefix_of_scan hscan
  have hall : c.rest = (lead ++ code ++ [closer]) ++ rest := by simp [hrest, hbehind, Stop.text]
  have hdrop : behind.drop (code.length + 1) = rest := by simp [hbehind, Stop.text]
  have hpast : (c.past lead).past (code ++ [closer]) = c.past (lead ++ code ++ [closer]) := by
    rw [List.append_assoc, ← past_append]
  have hbeyond : Beyond c (c.past (lead ++ code ++ [closer])) :=
    beyond_past (by simp [hrest, hlead]) (by simp)
  refine Advances.bind hcode (advances_next (settles_ok rfl) hbeyond ?_)
  refine ⟨congrArg Cursor.offset hpast, by rw [past, text_forward, hc], ?_⟩
  rw [← hr, ended_after, hdrop, past, rest_forward_of_append hall]

theorem enclosed_fails {enough : Prop} (henough : enough → c.rest.length ≤ n) {closer : Char}
    (hcloser : closer.utf8Size = 1)
    {f : List Char × ScanError} {r : Reading} {again : Cursor → Nat → Prop}
    (hscan : Code.scan (.closer closer) lead.getLast? behind = .error f)
    (hr : after lead (.error f) = r) :
    Advances False enough (enclosed n text c.offset lead.length closer) c (ended c r) again := by
  have hcode := scan_enclosed lead hc hrest hlead hascii henough hcloser
  rw [hscan] at hcode
  refine Advances.bind hcode (advances_last (settles_ok ?_))
  rw [← hr, ended_after]
  rfl

end

theorem implicitTurn_advances {enough : Prop} (henough : enough → c.rest.length ≤ n) (k : Nat)
    (hc : c.text = text) :
    Advances False enough (implicitTurn n text c.offset) c (ended c (suffixes (k + 1) c.rest))
      fun d i => i = d.offset ∧ d.text = text ∧
        ended c (suffixes (k + 1) c.rest) = ended d (suffixes k d.rest) := by
  generalize hr : suffixes (k + 1) c.rest = r
  unfold suffixes at hr
  dsimp only at hr
  split at hr
  next behind hrest =>
    rw [implicitTurn, onward_at hc, bind_ok, hrest]
    split at hr
    next hname => exact named_ends 2 hname hr
    next => exact named_advances [':', ':'] hc hrest (by simp) (by decide) k ‹_› hr
  next behind hrest =>
    rw [implicitTurn, onward_at hc, bind_ok, hrest]
    split at hr
    next hname => exact named_ends 1 hname hr
    next => exact named_advances ['.'] hc hrest (by simp) (by decide) k ‹_› hr
  next behind hrest =>
    rw [implicitTurn, onward_at hc, bind_ok, hrest]
    split at hr
    next hscan =>
      exact enclosed_advances ['('] hc hrest (by simp) (by decide) henough k rfl hscan hr
    next hscan =>
      exact enclosed_fails ['('] hc hrest (by simp) (by decide) henough rfl hscan hr
  next behind hrest =>
    rw [implicitTurn, onward_at hc, bind_ok, hrest]
    split at hr
    next hscan =>
      exact enclosed_advances ['['] hc hrest (by simp) (by decide) henough k rfl hscan hr
    next hscan =>
      exact enclosed_fails ['['] hc hrest (by simp) (by decide) henough rfl hscan hr
  next behind hrest =>
    rw [implicitTurn, onward_at hc, bind_ok, hrest]
    split at hr
    next hscan =>
      exact enclosed_advances ['!', '('] hc hrest (by simp) (by decide) henough k rfl hscan hr
    next hscan =>
      exact enclosed_fails ['!', '('] hc hrest (by simp) (by decide) henough rfl hscan hr
  next h2 h1 hp hb hm =>
    rw [implicitTurn, onward_at hc, bind_ok, ← hr]
    split
    next hrest => exact absurd hrest (h2 _)
    next hrest => exact absurd hrest (h1 _)
    next hrest => exact absurd hrest (hp _)
    next hrest => exact absurd hrest (hb _)
    next hrest => exact absurd hrest (hm _)
    · exact advances_last (settles_ok rfl)

theorem implicitEnd_settles (hc : c.text = text) :
    Settles False (c.rest.length < n) (implicitEnd n text c.offset)
      (ended c (Markup.Implicit.read c.rest)) := by
  have hsplit := (List.prefix_iff_eq_append.mp (Markup.Implicit.prefix_leadingName c.rest)).symm
  have hname : Ahead c (c.past (leadingName c.rest)) := ahead_past c _
  have hloop : Settles False (c.rest.length ≤ n ∧ (c.past (leadingName c.rest)).rest.length < n)
      (loop (implicitTurn n text) n (c.past (leadingName c.rest)).offset)
      (ended (c.past (leadingName c.rest))
        (suffixes (c.rest.length + 1) (c.past (leadingName c.rest)).rest)) := by
    refine loop_steps (c.rest.length ≤ n) (fun k d i r => i = d.offset ∧ d.text = text ∧
      r = ended d (suffixes k d.rest)) ?_
      ⟨rfl, hname.text_eq.trans hc, rfl⟩ (Nat.lt_succ_of_le hname.length_le) hname.length_le
    rintro k d i r - hle ⟨rfl, hd, rfl⟩
    exact .inl (implicitTurn_advances hle.trans k hd)
  have hrest : (c.past (leadingName c.rest)).rest = c.rest.drop (leadingName c.rest).length :=
    rest_forward _ c
  rw [implicitEnd, onward_at hc, bind_ok, ← offset_forward hsplit, Markup.Implicit.read,
    ended_after]
  rw [hrest] at hloop
  refine hloop.weaken id fun h => ⟨Nat.le_of_lt h, ?_⟩
  have hle := hname.length_le
  rw [hrest] at hle
  omega

end

end Templating.Offset
