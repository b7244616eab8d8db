import Templating.Proofs.Code.Boundary
import Templating.Proofs.Markup.Reading
import Templating.Proofs.Text.Ahead

/-! Expressions that nothing delimits. A text that begins with a name has one front that is a name
with suffixes and cannot be read on; that is what is read, in markup and in the values of attributes
alike, unless a suffix begins behind it that is never closed. -/
namespace Templating.Markup.Implicit
open Code (Finds ScanError)
open Text (Cursor WholeName byteSize leadingName startsName wholeName_leadingName)
open Text.Cursor

/-- The marks that begin a suffix. Behind one that is not closed stands a name. -/
def marks : List (List Char × Option Char) :=
  [([':', ':'], none), (['.'], none), (['('], some ')'), (['['], some ']'), (['!', '('], some ')')]

/-- A suffix that stands before some text. -/
inductive SuffixBefore : List Char → List Char → Prop
  | named {mark w rest : List Char} (hmark : (mark, none) ∈ marks) (hname : WholeName w rest) :
      SuffixBefore (mark ++ w) rest
  | enclosed {mark code rest : List Char} {closer : Char} (hmark : (mark, some closer) ∈ marks)
      (hcode : Finds (.closer closer) mark.getLast? (code ++ closer :: rest) (.ok code)) :
      SuffixBefore (mark ++ code ++ [closer]) rest

/-- Suffixes in a row before some text. -/
inductive SuffixesBefore : List Char → List Char → Prop
  | nil (rest : List Char) : SuffixesBefore [] rest
  | cons {u v rest : List Char} (hu : SuffixBefore u (v ++ rest)) (hv : SuffixesBefore v rest) :
      SuffixesBefore (u ++ v) rest

def Ends (rest : List Char) : Prop := ∀ u v, rest = u ++ v → ¬ SuffixBefore u v

/-- A name with suffixes, before a text that no further one begins. -/
structure Maximal (code rest : List Char) : Prop where
  suffixed : ∃ w u, code = w ++ u ∧ WholeName w (u ++ rest) ∧ SuffixesBefore u rest
  ends : Ends rest

/-- The text begins with a mark that is to be closed, and the code behind it does
not come to that. -/
inductive Broken : List Char → List Char × ScanError → Prop
  | broken {mark behind told : List Char} {closer : Char} {e : ScanError}
      (hmark : (mark, some closer) ∈ marks)
      (hcode : Finds (.closer closer) mark.getLast? behind (.error (told, e))) :
      Broken (mark ++ behind) (mark ++ told, e)

/-! Marks -/

section
variable {m m' : List Char × Option Char} {a b cs r mark code u u' v v' : List Char} {closer : Char}
  {f : List Char × ScanError}
  {n : Nat}

theorem marks_unique (h : m ∈ marks) (h' : m' ∈ marks) (heq : m.1 ++ a = m'.1 ++ b) :
    m = m' ∧ a = b := by
  simp only [marks, List.mem_cons, List.not_mem_nil, or_false] at h h'
  rcases h with rfl | rfl | rfl | rfl | rfl <;> rcases h' with rfl | rfl | rfl | rfl | rfl <;>
    simp_all

theorem SuffixBefore.of_mark (h : SuffixBefore u v) (hm : m ∈ marks) (heq : u ++ v = m.1 ++ r) :
    (m.2 = none ∧ ∃ w, u = m.1 ++ w ∧ r = w ++ v ∧ WholeName w v) ∨
      ∃ closer code, m.2 = some closer ∧ u = m.1 ++ code ++ [closer] ∧
        Finds (.closer closer) m.1.getLast? r (.ok code) := by
  cases h with
  | @named mark w _ hmark hname =>
    rw [List.append_assoc] at heq
    obtain ⟨rfl, rfl⟩ := marks_unique hmark hm heq
    exact .inl ⟨rfl, w, rfl, rfl, hname⟩
  | @enclosed mark code _ closer hmark hcode =>
    rw [List.append_assoc, List.append_assoc] at heq
    obtain ⟨rfl, rfl⟩ := marks_unique hmark hm heq
    exact .inr ⟨closer, code, rfl, rfl, by simpa using hcode⟩

theorem SuffixBefore.marked (h : SuffixBefore u v) : ∃ m ∈ marks, m.1 <+: u ++ v := by
  cases h with
  | named hmark => exact ⟨_, hmark, by rw [List.append_assoc]; exact List.prefix_append ..⟩
  | enclosed hmark =>
    exact ⟨_, hmark, by rw [List.append_assoc, List.append_assoc]; exact List.prefix_append ..⟩

theorem Broken.of_mark (h : Broken cs f) (hm : m ∈ marks) (heq : cs = m.1 ++ r) :
    ∃ closer told e, m.2 = some closer ∧ f = (m.1 ++ told, e) ∧
      Finds (.closer closer) m.1.getLast? r (.error (told, e)) := by
  cases h with
  | @broken mark behind told closer e hmark hcode =>
    obtain ⟨rfl, rfl⟩ := marks_unique hmark hm heq
    exact ⟨closer, told, e, rfl, rfl, hcode⟩

theorem Broken.marked (h : Broken cs f) : ∃ m ∈ marks, m.1 <+: cs := by
  cases h with
  | broken hmark => exact ⟨_, hmark, List.prefix_append ..⟩

/-! What is read behind a mark -/

theorem suffixes_unmarked (h : ∀ m ∈ marks, ¬ m.1 <+: cs) : suffixes n cs = .ok [] := by
  cases n with
  | zero => rfl
  | succ n =>
    unfold suffixes
    split
    · exact absurd (List.prefix_append _ _) (h ([':', ':'], none) (by decide))
    · exact absurd (List.prefix_append _ _) (h (['.'], none) (by decide))
    · exact absurd (List.prefix_append _ _) (h (['('], some ')') (by decide))
    · exact absurd (List.prefix_append _ _) (h (['['], some ']') (by decide))
    · exact absurd (List.prefix_append _ _) (h (['!', '('], some ')') (by decide))
    · rfl

theorem suffixes_nameless (hm : (mark, none) ∈ marks) (hr : leadingName r = []) :
    suffixes (n + 1) (mark ++ r) = .ok [] := by
  simp only [marks, List.mem_cons, Prod.mk.injEq, reduceCtorEq, and_false, and_true,
    List.not_mem_nil, or_false] at hm
  rcases hm with rfl | rfl <;> simp [suffixes, hr]

theorem suffixes_named (hm : (mark, none) ∈ marks) (hr : leadingName r ≠ []) :
    suffixes (n + 1) (mark ++ r) =
      after (mark ++ leadingName r) (suffixes n (r.drop (leadingName r).length)) := by
  simp only [marks, List.mem_cons, Prod.mk.injEq, reduceCtorEq, and_false, and_true,
    List.not_mem_nil, or_false] at hm
  rcases hm with rfl | rfl <;> simp [suffixes]

theorem suffixes_closed (hm : (mark, some closer) ∈ marks)
    (hr : Code.scan (.closer closer) mark.getLast? r = .ok code) :
    suffixes (n + 1) (mark ++ r) =
      after (mark ++ code ++ [closer]) (suffixes n (r.drop (code.length + 1))) := by
  simp only [marks, List.mem_cons, Prod.mk.injEq, reduceCtorEq, and_false, Option.some.injEq,
    List.not_mem_nil, or_false,
    false_or] at hm
  rcases hm with ⟨rfl, rfl⟩ | ⟨rfl, rfl⟩ | ⟨rfl, rfl⟩ <;> simp_all [suffixes]

theorem suffixes_unclosed (hm : (mark, some closer) ∈ marks)
    (hr : Code.scan (.closer closer) mark.getLast? r = .error f) :
    suffixes (n + 1) (mark ++ r) = .error (mark ++ f.1, f.2) := by
  simp only [marks, List.mem_cons, Prod.mk.injEq, reduceCtorEq, and_false, Option.some.injEq,
    List.not_mem_nil, or_false,
    false_or] at hm
  rcases hm with ⟨rfl, rfl⟩ | ⟨rfl, rfl⟩ | ⟨rfl, rfl⟩ <;> simp_all [suffixes, after]

end

/-- What is told of a text that has an expression and a rest. -/
inductive Tells (code rest : List Char) : Reading → Prop
  | whole (h : ∀ f, ¬ Broken rest f) : Tells code rest (.ok code)
  | broken {told : List Char} {e : ScanError} (h : Broken rest (told, e)) :
      Tells code rest (.error (code ++ told, e))

section
variable {u code rest rest' u' cs : List Char} {r : Reading}

theorem Tells.after (h : Tells code rest r) (lead : List Char) :
    Tells (lead ++ code) rest (after lead r) := by
  cases h with
  | whole h => exact .whole h
  | broken h =>
    rw [Implicit.after, ← List.append_assoc]
    exact .broken h

theorem exists_suffixes (n : Nat) (cs : List Char) (hn : cs.length < n) :
    ∃ u rest, cs = u ++ rest ∧ SuffixesBefore u rest ∧ Ends rest ∧
      Tells u rest (suffixes n cs) := by
  induction n generalizing cs with
  | zero => exact absurd hn (Nat.not_lt_zero _)
  | succ n ih =>
    -- one more suffix, and those that are read behind it
    have hmore : ∀ (v w : List Char), cs = v ++ w → v ≠ [] → SuffixBefore v w →
      suffixes (n + 1) cs = after v (suffixes n w) →
        ∃ u rest, cs = u ++ rest ∧ SuffixesBefore u rest ∧ Ends rest ∧
          Tells u rest (suffixes (n + 1) cs) := by
      rintro v w rfl hv hsuffix hread
      have hpos := List.length_pos_of_ne_nil hv
      rw [List.length_append] at hn
      obtain ⟨u, rest, rfl, hu, hends, htells⟩ := ih w (by omega)
      refine ⟨v ++ u, rest, (List.append_assoc ..).symm, .cons hsuffix hu, hends, ?_⟩
      rw [hread]
      exact htells.after v
    by_cases hmark : ∃ m ∈ marks, m.1 <+: cs
    · obtain ⟨⟨mark, closer?⟩, hm, r, rfl⟩ := hmark
      cases closer? with
      | none =>
        by_cases hname : leadingName r = []
        · refine ⟨[], mark ++ r, rfl, .nil _, fun v w heq hsuffix => ?_, ?_⟩
          · rcases hsuffix.of_mark hm heq.symm with ⟨-, w', -, rfl, hw⟩ | ⟨closer, code, hnone, -⟩
            · rw [hw.leadingName] at hname
              exact hw.ne_nil hname
            · cases hnone
          · rw [suffixes_nameless hm hname]
            refine .whole fun f hbroken => ?_
            obtain ⟨closer, told, e, hnone, -⟩ := hbroken.of_mark hm rfl
            cases hnone
        · have hsplit := List.prefix_iff_eq_append.mp (prefix_leadingName r)
          have hnamed : SuffixBefore (mark ++ leadingName r) _ :=
            .named hm (wholeName_leadingName hname)
          refine hmore (mark ++ leadingName r) _ ?_ (by simp [hname]) hnamed
            (suffixes_named hm hname)
          rw [List.append_assoc, hsplit]
      | some closer =>
        cases hscan : Code.scan (.closer closer) mark.getLast? r with
        | error f =>
          have hfinds := (Code.scan_iff_finds ..).mp hscan
          refine ⟨[], mark ++ r, rfl, .nil _, fun v w heq hsuffix => ?_, ?_⟩
          · rcases hsuffix.of_mark hm heq.symm with ⟨hnone, -⟩ | ⟨closer', code, hcloser, -, hcode⟩
            · cases hnone
            · cases hcloser
              have hok := hcode.scan
              rw [hscan] at hok
              cases hok
          · rw [suffixes_unclosed hm hscan]
            exact .broken (.broken hm hfinds)
        | ok code =>
          obtain ⟨rest, rfl⟩ := Code.prefix_of_scan hscan
          have hfinds := (Code.scan_iff_finds ..).mp hscan
          refine hmore (mark ++ code ++ [closer]) rest (by simp [Code.Stop.text]) (by simp)
            (.enclosed hm hfinds) ?_
          rw [suffixes_closed hm hscan]
          simp [Code.Stop.text]
    · have hnone : ∀ m ∈ marks, ¬ m.1 <+: cs := fun m hm hfront => hmark ⟨m, hm, hfront⟩
      refine ⟨[], cs, rfl, .nil _, fun v w heq hsuffix => ?_, ?_⟩
      · obtain ⟨m, hm, hfront⟩ := hsuffix.marked
        exact hnone m hm (heq ▸ hfront)
      · rw [suffixes_unmarked hnone]
        refine .whole fun f hbroken => ?_
        obtain ⟨m, hm, hfront⟩ := hbroken.marked
        exact hnone m hm hfront

/-! There is one such front -/

theorem SuffixBefore.unique {v v' : List Char} (h : SuffixBefore u v) (h' : SuffixBefore u' v')
    (heq : u ++ v = u' ++ v') : u = u' := by
  cases h' with
  | @named mark w _ hmark hname =>
    rcases h.of_mark hmark (heq.trans (List.append_assoc ..)) with
      ⟨-, w', rfl, hsplit, hw⟩ | ⟨closer, code, hnone, -⟩
    · rw [hw.unique hname hsplit.symm]
    · cases hnone
  | @enclosed mark code _ closer hmark hcode =>
    have heq : u ++ v = mark ++ (code ++ closer :: v') := by simpa using heq
    rcases h.of_mark hmark heq with ⟨hnone, -⟩ | ⟨closer', code', hcloser, rfl, hcode'⟩
    · cases hnone
    · cases hcloser
      have hsame := hcode'.scan.symm.trans hcode.scan
      rw [Except.ok.inj hsame]

theorem SuffixesBefore.unique (h : SuffixesBefore u rest) (hends : Ends rest)
    (h' : SuffixesBefore u' rest')
    (hends' : Ends rest') (heq : u ++ rest = u' ++ rest') : u = u' := by
  induction h generalizing u' with
  | nil rest =>
    cases h' with
    | nil => rfl
    | cons hu hv => exact absurd hu (hends _ _ (by simpa using heq))
  | @cons v w rest hv hw ih =>
    rw [List.append_assoc] at heq
    cases h' with
    | nil => exact absurd hv (hends' _ _ (by simpa using heq.symm))
    | @cons v' w' _ hv' hw' =>
      rw [List.append_assoc] at heq
      obtain rfl := hv.unique hv' heq
      rw [ih hends hw' (List.append_cancel_left heq)]

theorem Maximal.unique {code' : List Char} (h : Maximal code rest) (h' : Maximal code' rest')
    (heq : code ++ rest = code' ++ rest') : code = code' := by
  obtain ⟨⟨w, u, rfl, hw, hu⟩, hends⟩ := h
  obtain ⟨⟨w', u', rfl, hw', hu'⟩, hends'⟩ := h'
  rw [List.append_assoc, List.append_assoc] at heq
  obtain rfl := hw.unique hw' heq
  rw [hu.unique hends hu' hends' (List.append_cancel_left heq)]

theorem exists_maximal {x : Char} (next : List Char) (hx : startsName x = true) :
    ∃ code rest, x :: next = code ++ rest ∧ Maximal code rest ∧
      Tells code rest (read (x :: next)) := by
  have hname : leadingName (x :: next) ≠ [] := by simp [leadingName, hx]
  have hsplit := List.prefix_iff_eq_append.mp (prefix_leadingName (x :: next))
  have hless : ((x :: next).drop (leadingName (x :: next)).length).length <
      (x :: next).length + 1 := by
    rw [List.length_drop]
    omega
  obtain ⟨u, rest, hu, hsuffixes, hends, htells⟩ := exists_suffixes _ _ hless
  have hwhole := wholeName_leadingName hname
  rw [hu] at hwhole hsplit
  exact ⟨leadingName (x :: next) ++ u, rest,
    by rw [List.append_assoc, hsplit], ⟨⟨_, u, rfl, hwhole, hsuffixes⟩, hends⟩,
    htells.after _⟩

theorem Broken.unique {f f' : List Char × ScanError} (h : Broken rest f) (h' : Broken rest f') :
    f = f' := by
  cases h with
  | broken hmark hcode =>
    obtain ⟨closer, told, e, hcloser, rfl, hcode'⟩ := h'.of_mark hmark rfl
    cases hcloser
    obtain ⟨rfl, rfl⟩ := Prod.mk.inj (Except.error.inj (hcode.scan.symm.trans hcode'.scan))
    rfl

theorem Tells.unique {r' : Reading} (h : Tells code rest r) (h' : Tells code rest r') : r = r' := by
  cases h with
  | whole hwhole =>
    cases h' with
    | whole => rfl
    | broken hbroken => exact absurd hbroken (hwhole _)
  | broken hbroken =>
    cases h' with
    | whole hwhole => exact absurd hbroken (hwhole _)
    | broken hbroken' =>
      obtain ⟨rfl, rfl⟩ := Prod.mk.inj (hbroken.unique hbroken')
      rfl

theorem Maximal.read_eq {x : Char} {next : List Char} (h : Maximal code rest)
    (hx : startsName x = true)
    (heq : x :: next = code ++ rest) (hr : Tells code rest r) : read (x :: next) = r := by
  obtain ⟨code', rest', heq', hmaximal, htells⟩ := exists_maximal next hx
  obtain rfl := hmaximal.unique h (heq'.symm.trans heq)
  obtain rfl := List.append_cancel_left (heq'.symm.trans heq)
  exact htells.unique hr

end

/-! Where such an expression is read -/

/-- The word that a text begins with announces something else than an expression. -/
def Keyed (t : DirectiveTable) (cs : List Char) : Prop :=
  String.ofList (leadingName cs) ∈ ["if", "for", "while", "match"] ∨
    ∃ d, t.get? (.ofList (leadingName cs)) = some d ∧
      boundary d (cs.drop (leadingName cs).length) = true

section
variable {t : DirectiveTable} {c : Cursor} {x : Char} {next : List Char} (hx : startsName x = true)
  (hin : insideWord c x = false)
include hx hin

theorem announced_implicit (hrest : c.rest = '@' :: x :: next) (hkey : ¬ Keyed t (x :: next)) :
    announced t c = .simple (implicit c) := by
  obtain ⟨hword, hdirective⟩ := not_or.mp hkey
  refine (announced_word hrest hx hin hword).2 fun d hget => ?_
  exact Bool.eq_false_iff.mpr fun hbound => hdirective ⟨d, hget, hbound⟩

theorem transition_implicit (next : List Char) : Tag.transition c (x :: next) =
    match read (x :: next) with
    | .ok code => .expression (.ofList code) code.length
    | .error _ => .bad := by
  have hat : x ≠ '@' := Text.ne_of_startsName hx (by decide)
  have hparen : (x == '(') = false := beq_false_of_ne (Text.ne_of_startsName hx (by decide))
  unfold Tag.transition
  split
  next hsplit => exact absurd (List.cons.inj hsplit).1 hat
  next hsplit =>
    obtain ⟨rfl, rfl⟩ := List.cons.inj hsplit
    cases read (x :: next) <;> simp only [hin, hparen, hx, Bool.false_eq_true, if_false, if_true]
  next hnil => cases hnil

end

/-- The sign at the cursor begins an expression that takes some text behind it, in markup and in
quoted values. -/
structure Taken (c : Cursor) (code : List Char) : Prop where
  markup : ∀ t scope n depth, ¬ Keyed t (c.rest.drop 1) →
    pieces t scope (n + 1) depth c = Outcome.followedBy
      ⟨[.node (.expression (.ofList code)) ⟨c.offset, c.offset + 1 + byteSize code⟩ false], [],
        (c.forward 1).past code⟩
      (pieces t scope n depth ((c.forward 1).past code))
  value : ∀ quote n d, quote ≠ '@' → Tag.value quote (n + 1) d c =
    Tag.value quote n (d.expression (.ofList code) c.offset (c.offset + 1 + byteSize code))
      ((c.forward 1).past code)

/-- The sign at the cursor begins none, for the reason that is found behind some text. In a quoted
value there is no tag then. -/
structure Refused (c : Cursor) (told : List Char) (e : ScanError) : Prop where
  markup : ∀ t scope n depth, ¬ Keyed t (c.rest.drop 1) →
    ∃ f after, f.problem = .badText e.message ∧
    f.span.start = c.offset + 1 + byteSize told ∧
      pieces t scope (n + 1) depth c =
        Outcome.followedBy ⟨[], [f], after⟩ (pieces t scope n depth after)
  value : ∀ quote n d, quote ≠ '@' → Tag.value quote (n + 1) d c = none

section
variable {c : Cursor} {x : Char} {next code told : List Char} {e : ScanError}
  (hrest : c.rest = '@' :: x :: next)
  (hx : startsName x = true) (hin : insideWord c x = false)
include hrest hx hin

theorem taken_of_read (hread : read (x :: next) = .ok code) : Taken c code := by
  have hbegun : (c.forward 1).rest = x :: next := rest_forward_one hrest
  have hoffset : (c.forward 1).offset = c.offset + 1 := offset_forward_one hrest
  have hfront := atFront_read (x :: next)
  rw [hread] at hfront
  obtain ⟨rest, hsplit⟩ := hfront
  have hend : ((c.forward 1).past code).offset = c.offset + 1 + byteSize code := by
    rw [past, offset_forward (hbegun.trans hsplit.symm), hoffset]
  refine ⟨fun t scope n depth hkey => ?_, fun quote n d hquote => ?_⟩
  · rw [hrest] at hkey
    rw [pieces_simple hrest (announced_implicit hx hin hrest hkey), implicit, hbegun, hread, ← hend]
  · have htransition := transition_implicit hx hin next
    rw [hread] at htransition
    have hpast : c.forward (code.length + 1) = (c.forward 1).past code := by
      rw [past, forward_forward, Nat.add_comm]
    rw [Tag.value, hrest]
    simp only [beq_iff_eq, hquote.symm, if_false, bne_self_eq_false, Bool.false_eq_true,
      htransition, hpast, hend]

theorem refused_of_read (hread : read (x :: next) = .error (told, e)) : Refused c told e := by
  have hbegun : (c.forward 1).rest = x :: next := rest_forward_one hrest
  have hoffset : (c.forward 1).offset = c.offset + 1 := offset_forward_one hrest
  have hfront := atFront_read (x :: next)
  rw [hread] at hfront
  obtain ⟨rest, hsplit, -⟩ := hfront
  have hend : ((c.forward 1).past told).offset = c.offset + 1 + byteSize told := by
    rw [past, offset_forward (hbegun.trans hsplit), hoffset]
  refine ⟨fun t scope n depth hkey => ?_, fun quote n d hquote => ?_⟩
  · rw [hrest] at hkey
    rw [pieces_simple hrest (announced_implicit hx hin hrest hkey), implicit, hbegun, hread]
    exact ⟨_, _, rfl, hend, rfl⟩
  · have htransition := transition_implicit hx hin next
    rw [hread] at htransition
    rw [Tag.value, hrest]
    simp only [beq_iff_eq, hquote.symm, if_false, bne_self_eq_false, Bool.false_eq_true,
      htransition]

/-- Behind a sign that stands before a name there is one text that is a name with suffixes, all as
long as they can be, and cannot be read on. In markup and in quoted values that is the expression,
unless a suffix begins behind it that is not closed. -/
theorem implicit_maximal : ∃ code rest, (x :: next = code ++ rest ∧ Maximal code rest) ∧
    (∀ code' rest', x :: next = code' ++ rest' → Maximal code' rest' → code' = code) ∧
      ((∀ f, ¬ Broken rest f) → Taken c code) ∧ ∀ told e, Broken rest (told, e) →
        Refused c (code ++ told) e := by
  obtain ⟨code, rest, heq, hmaximal, -⟩ := exists_maximal next hx
  refine ⟨code, rest, ⟨heq, hmaximal⟩, fun code' rest' heq' hmaximal' =>
    hmaximal'.unique hmaximal (heq'.symm.trans heq), ?_, ?_⟩
  · exact fun hwhole => taken_of_read hrest hx hin (hmaximal.read_eq hx heq (.whole hwhole))
  · exact fun told e hbroken =>
      refused_of_read hrest hx hin (hmaximal.read_eq hx heq (.broken hbroken))

end

/-- An expression with an index and a call, before dots that are no part of it. -/
theorem implicit_maximal_dots :
    let c := Cursor.start ['@', 'x', '[', '0', ']', '.', 'f', '(', ')', '.', '.']
    c.rest = '@' :: 'x' :: ['[', '0', ']', '.', 'f', '(', ')', '.', '.'] ∧ startsName 'x' = true ∧
    insideWord c 'x' = false ∧
      Maximal ['x', '[', '0', ']', '.', 'f', '(', ')'] ['.', '.'] ∧
        Taken c ['x', '[', '0', ']', '.', 'f', '(', ')'] := by
  intro c
  have hread : read ['x', '[', '0', ']', '.', 'f', '(', ')', '.', '.'] =
      .ok ['x', '[', '0', ']', '.', 'f', '(', ')'] := by
    decide +kernel
  obtain ⟨code, rest, ⟨heq, hmaximal⟩, -, htaken, -⟩ :=
    implicit_maximal (c := c) rfl (by decide) (by decide)
  have hwhole : ∀ f, ¬ Broken rest f := by
    rintro ⟨told, e⟩ hbroken
    rw [hmaximal.read_eq (by decide) heq (.broken hbroken)] at hread
    cases hread
  rw [hmaximal.read_eq (by decide) heq (.whole hwhole)] at hread
  obtain rfl := Except.ok.inj hread
  obtain rfl : ['.', '.'] = rest := by simpa using heq
  exact ⟨rfl, by decide, by decide, hmaximal, htaken hwhole⟩

end Templating.Markup.Implicit
