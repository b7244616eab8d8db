import Templating.Proofs.Page.Names
import Templating.Proofs.Text.Path

/-! The segments of a namespace, whatever stands between them: dots, or colons in pairs, where of
three colons the first two are the pair. Names joined by either mark come apart again. -/
namespace Templating.Naming
open Text (WholeName)
variable {cs v w : List Char} {ss : List (List Char)}

/-- Neither a dot nor a pair of colons is in the text. -/
def Unseparated (w : List Char) : Prop := '.' ∉ w ∧ ¬ [':', ':'] <:+: w

/-- A text and the pieces between its dots and pairs of colons, each pair as early as may be. -/
inductive Separated : List Char → List (List Char) → Prop
  | last {w : List Char} (hw : Unseparated w) : Separated w [w]
  | dot {w v : List Char} {ss : List (List Char)} (hw : Unseparated w) (hv : Separated v ss) :
      Separated (w ++ '.' :: v) (w :: ss)
  | colons {w v : List Char} {ss : List (List Char)} (hw : Unseparated w)
      (hend : w.getLast? ≠ some ':') (hv : Separated v ss) :
      Separated (w ++ ':' :: ':' :: v) (w :: ss)

theorem unseparated_nil : Unseparated [] := ⟨List.not_mem_nil, fun h => by simp at h⟩

theorem unseparated_cons {c : Char} :
    Unseparated (c :: w) ↔ c ≠ '.' ∧ (c = ':' → w.head? ≠ some ':') ∧ Unseparated w := by
  have hpair : [':', ':'] <+: c :: w ↔ c = ':' ∧ w.head? = some ':' := by
    cases w with
    | nil => simp
    | cons d w => simp [List.cons_prefix_cons, eq_comm]
  rw [Unseparated, Unseparated, List.mem_cons, List.infix_cons_iff, hpair, not_or, not_or, not_and,
    ne_comm]
  constructor
  · rintro ⟨⟨hdot, hw⟩, hcolons, hinfix⟩
    exact ⟨hdot, hcolons, hw, hinfix⟩
  · rintro ⟨hdot, hcolons, hw, hinfix⟩
    exact ⟨⟨hdot, hw⟩, hcolons, hinfix⟩

theorem cuts_unseparated (hw : Unseparated w) (hend : w.getLast? = some ':' → v.head? ≠ some ':')
    {s : List Char} (hv : cuts v = s :: ss) : cuts (w ++ v) = (w ++ s) :: ss := by
  induction w with
  | nil => exact hv
  | cons c w ih =>
    obtain ⟨hdot, hcolon, hw⟩ := unseparated_cons.mp hw
    have hrest : cuts (w ++ v) = (w ++ s) :: ss := by
      refine ih hw fun hlast => hend ?_
      rw [List.getLast?_cons, hlast]
      rfl
    refine cuts_cons (fun hc => ?_) hdot hrest
    cases w with
    | nil => exact hend (by rw [hc]; rfl)
    | cons d w => exact hcolon hc

theorem cuts_of_separated (h : Separated cs ss) : cuts cs = ss := by
  induction h with
  | @last w hw =>
    have hcuts := cuts_unseparated (v := []) hw (by simp) rfl
    rwa [List.append_nil] at hcuts
  | @dot w v ss hw hv ih =>
    have hcuts := cuts_unseparated hw (by simp) ((cuts_dot v).trans (congrArg _ ih))
    rwa [List.append_nil] at hcuts
  | @colons w v ss hw hend hv ih =>
    have hcuts :=
      cuts_unseparated hw (fun h => absurd h hend) ((cuts_colons v).trans (congrArg _ ih))
    rwa [List.append_nil] at hcuts

theorem Separated.cons {c : Char} {s : List Char} (h : Separated cs (s :: ss)) (hdot : c ≠ '.')
    (hcolon : c = ':' → cs.head? ≠ some ':') :
    Separated (c :: cs) ((c :: s) :: ss) := by
  have hnext : ∀ {w rest : List Char}, (c = ':' → (w ++ rest).head? ≠ some ':') → c = ':' →
      w.head? ≠ some ':' := by
    rintro w rest h hc
    cases w with
    | nil => simp
    | cons d w => exact h hc
  generalize hparts : s :: ss = parts at h
  cases h with
  | last hw =>
    obtain ⟨rfl, rfl⟩ := List.cons.inj hparts
    exact .last (unseparated_cons.mpr ⟨hdot, hcolon, hw⟩)
  | @dot w v ss' hw hv =>
    obtain ⟨rfl, rfl⟩ := List.cons.inj hparts
    exact .dot (unseparated_cons.mpr ⟨hdot, hnext hcolon, hw⟩) hv
  | @colons w v ss' hw hend hv =>
    obtain ⟨rfl, rfl⟩ := List.cons.inj hparts
    refine .colons (unseparated_cons.mpr ⟨hdot, hnext hcolon, hw⟩) ?_ hv
    cases s with
    | nil =>
      intro hlast
      have hc : c = ':' := by simpa using hlast
      exact hcolon hc rfl
    | cons d s => rwa [List.getLast?_cons_cons]

theorem separated_cuts (cs : List Char) : Separated cs (cuts cs) := by
  induction hlength : cs.length using Nat.strongRecOn generalizing cs with
  | ind n ih =>
    subst hlength
    cases cs with
    | nil => exact .last unseparated_nil
    | cons c cs =>
      by_cases hdot : c = '.'
      · subst hdot
        rw [cuts_dot]
        exact Separated.dot unseparated_nil (ih cs.length (by simp) cs rfl)
      by_cases hcolons : c = ':' ∧ cs.head? = some ':'
      · obtain ⟨rfl, hhead⟩ := hcolons
        obtain ⟨cs, rfl⟩ := List.head?_eq_some_iff.mp hhead
        have hless : cs.length < (':' :: ':' :: cs).length := by
          simp only [List.length_cons]
          omega
        rw [cuts_colons]
        exact Separated.colons unseparated_nil (by simp) (ih cs.length hless cs rfl)
      have hrest := ih cs.length (by simp) cs rfl
      obtain ⟨s, ss, hcuts⟩ := exists_cuts cs
      have hcolon : c = ':' → cs.head? ≠ some ':' := fun hc hhead => hcolons ⟨hc, hhead⟩
      rw [hcuts] at hrest
      rw [cuts_cons hcolon hdot hcuts]
      exact hrest.cons hdot hcolon

/-! Names with marks between them -/

theorem unseparated_of_wordy (h : Code.Wordy w) : Unseparated w :=
  ⟨fun hdot => h.ne hdot (by decide) rfl, fun hcolons =>
    h.ne (hcolons.subset List.mem_cons_self) (by decide) rfl⟩

theorem separated_join {mark : String} (hmark : mark = "." ∨ mark = "::") {names : List String}
    (hne : names ≠ []) (h : ∀ s ∈ names, Code.Wordy s.toList) :
    Separated (Text.join mark names).toList (names.map String.toList) := by
  induction names with
  | nil => exact absurd rfl hne
  | cons s names ih =>
    have hs := h s List.mem_cons_self
    cases names with
    | nil =>
      rw [Text.join, String.intercalate_singleton]
      exact .last (unseparated_of_wordy hs)
    | cons r names =>
      have hrest := ih (List.cons_ne_nil r names) fun q hq => h q (List.mem_cons_of_mem s hq)
      rw [Text.toList_join_cons]
      rcases hmark with rfl | rfl
      · exact .dot (unseparated_of_wordy hs) hrest
      · exact .colons (unseparated_of_wordy hs) (fun hlast =>
          hs.ne (List.mem_of_getLast? hlast) (by decide) rfl) hrest

theorem Separated.joined {ts : List (List Char)} (h : Separated cs ss) (hv : Separated v ts) :
    Separated (cs ++ '.' :: v) (ss ++ ts) := by
  induction h with
  | last hw => exact .dot hw hv
  | dot hw _ ih =>
    rw [List.append_assoc, List.cons_append, List.cons_append]
    exact .dot hw ih
  | colons hw hend _ ih =>
    rw [List.append_assoc, List.cons_append, List.cons_append, List.cons_append]
    exact .colons hw hend ih

theorem segments_join {names : List String} (hne : names ≠ [])
    (h : ∀ s ∈ names, Code.Wordy s.toList) :
    segments (Text.join "." names) = names := by
  have hcuts := cuts_of_separated (separated_join (.inl rfl) hne h)
  rw [← String.ofList_toList (s := Text.join "." names), segments_eq, hcuts, List.map_map]
  simp [Function.comp_def]

theorem segments_retold (h : Path w) :
    segments (Text.join "." (segments (.ofList w))) = segments (.ofList w) := by
  refine segments_join ?_ fun s hs => ?_
  · obtain ⟨s, ss, hcuts⟩ := exists_cuts w
    rw [segments_eq, hcuts]
    exact List.cons_ne_nil _ _
  · rw [segments_eq] at hs
    obtain ⟨q, hq, rfl⟩ := List.mem_map.mp hs
    rw [String.toList_ofList]
    exact (h.cuts_name q hq).continues

/-! The namespace of a file -/

def named (ss : List (List Char)) : List String := (ss.map String.ofList).filter (· != "")

theorem named_append (ss ts : List (List Char)) : named (ss ++ ts) = named ss ++ named ts := by
  rw [named, List.map_append, List.filter_append]
  rfl

theorem named_names {names : List String} (h : ∀ s ∈ names, s ≠ "") :
    named (names.map String.toList) = names := by
  have hsame : (names.map String.toList).map String.ofList = names := by simp [Function.comp_def]
  rw [named, hsame]
  exact List.filter_eq_self.mpr fun s hs => by simpa using h s hs

def directories (path : String) : List String :=
  (components (slashed path)).dropLast.filter fun d => d != "" && d != "."

theorem separated_ofPath {root : String} (h : Separated root.toList ss) (path : String) :
    ∃ ts, Separated (ofPath root path).toList ts ∧
      named ts = named ss ++ (directories path).map sanitize := by
  have hwordy : ∀ s ∈ (directories path).map sanitize, Code.Wordy s.toList := fun s hs => by
    obtain ⟨d, -, rfl⟩ := List.mem_map.mp hs
    exact Page.wordy_sanitize d
  have hnames : named (((directories path).map sanitize).map String.toList) =
      (directories path).map sanitize :=
    named_names fun s hs => by
      obtain ⟨d, -, rfl⟩ := List.mem_map.mp hs
      exact sanitize_ne_empty d
  show ∃ ts, Separated
    (Text.join "." ((if root == "" then [] else [root]) ++ (directories path).map sanitize)).toList
    ts ∧ _
  generalize (directories path).map sanitize = names at hwordy hnames ⊢
  by_cases hroot : root = ""
  · subst hroot
    obtain rfl : cuts [] = ss := cuts_of_separated h
    rw [if_pos (by rfl), List.nil_append]
    cases names with
    | nil => exact ⟨[[]], .last unseparated_nil, rfl⟩
    | cons r names => exact ⟨_, separated_join (.inl rfl) (List.cons_ne_nil r names) hwordy, hnames⟩
  · rw [if_neg (by simpa using hroot)]
    cases names with
    | nil => exact ⟨ss, by simpa [Text.join] using h, by simp⟩
    | cons r names =>
      rw [List.singleton_append, Text.toList_join_cons]
      refine ⟨_, h.joined (separated_join (.inl rfl) (List.cons_ne_nil r names) hwordy), ?_⟩
      rw [named_append, hnames]

end Templating.Naming
