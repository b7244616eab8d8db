import Templating.Proofs.Offset.Slice
import Templating.Proofs.Render.Mirror
import Templating.Proofs.Render.Provenance

/-! What encoding keeps of a text. Each character is written on its own, so texts may be joined
before or after; nothing in the outcome means something to HTML, and reading the entities back gives
the text. -/
namespace Templating.Render
open Offset (onward upTo between bind_ok)
open Text (byteSize)

/-! Joined texts -/

theorem escaped_of_none {c : Char} (h : entity? c = none) : escaped c = [c] := by rw [escaped, h]

theorem encoded?_eq_none_iff {s : String} :
    encoded? s = none ↔ ∀ c ∈ s.toList, entity? c = none := by
  simp [encoded?]

theorem toList_encode (s : String) : (encode s).toList = s.toList.flatMap escaped := by
  unfold encode
  cases h : encoded? s with
  | some r =>
    obtain ⟨-, rfl⟩ : _ ∧ encodeOnto "" s = r := by simpa [encoded?] using h
    rw [Option.getD_some, toList_encodeOnto, String.toList_empty, List.nil_append]
  | none =>
    -- each character of the text stands for itself
    have hplain : ∀ c ∈ s.toList, [c] = escaped c :=
      fun c hc => (escaped_of_none (encoded?_eq_none_iff.mp h c hc)).symm
    calc s.toList = s.toList.flatMap (fun c => [c]) := (List.flatMap_singleton' s.toList).symm
      _ = s.toList.flatMap escaped := List.flatMap_congr hplain

theorem encode_append (s t : String) : encode (s ++ t) = encode s ++ encode t := by
  apply String.toList_injective
  rw [toList_encode, String.toList_append, String.toList_append, List.flatMap_append, toList_encode,
    toList_encode]

theorem encodeOnto_eq (out s : String) : encodeOnto out s = out ++ encode s := by
  apply String.toList_injective
  rw [toList_encodeOnto, String.toList_append, toList_encode]

theorem encodeOnto_plain {cs : List Char} (out : String) (h : ∀ c ∈ cs, entity? c = none) :
    encodeOnto out (.ofList cs) = out ++ .ofList cs := by
  have hnone : encoded? (.ofList cs) = none := encoded?_eq_none_iff.mpr (by simpa using h)
  rw [encodeOnto_eq, encode, hnone, Option.getD_none]

theorem encodeChunks_eq (out : String) (chunks : List String) :
    encodeChunks out chunks = out ++ encode (String.join chunks) := by
  apply String.toList_injective
  rw [toList_encodeChunks, String.toList_append, toList_encode]

/-! Copying by offsets -/

/-- A text encoded at the end of another by the offsets of its bytes. The characters from the first
offset on are still to be seen; what was seen and stands for itself waits from the second offset on,
to be copied as one slice. -/
def copyFrom (text : List Char) : List Char → Nat → Nat → String → Offset.Attempt String
  | [], _, last, out => do
    let run ← onward last text
    return out ++ .ofList run
  | c :: cs, i, last, out =>
    match entity? c with
    | some e => do
      let run ← between last i text
      copyFrom text cs (i + c.utf8Size) (i + c.utf8Size) (out ++ .ofList run ++ e)
    | none => copyFrom text cs (i + c.utf8Size) last out

def copyOnto (out s : String) : Offset.Attempt String := copyFrom s.toList s.toList 0 0 out

theorem onward_byteSize (a b : List Char) : onward (byteSize a) (a ++ b) = .ok b := by
  rw [onward, Text.cutAt?_byteSize]

theorem between_byteSize (a u b : List Char) :
    between (byteSize a) (byteSize (a ++ u)) (a ++ u ++ b) = .ok u := by
  have hle : byteSize a ≤ byteSize (a ++ u) := by rw [Text.byteSize_append]; omega
  have hupTo : upTo (byteSize (a ++ u)) (a ++ u ++ b) = .ok (a ++ u) := by
    rw [upTo, Text.cutAt?_byteSize]
  rw [between, if_neg (Nat.not_lt.mpr hle), hupTo, bind_ok, onward_byteSize]

theorem copyFrom_eq (before run cs : List Char) (out : String)
    (hrun : ∀ c ∈ run, entity? c = none) :
    copyFrom (before ++ run ++ cs) cs (byteSize (before ++ run)) (byteSize before) out =
      .ok (encodeOnto out (.ofList (run ++ cs))) := by
  induction cs generalizing before run out with
  | nil =>
    have hslice : onward (byteSize before) (before ++ run ++ []) = .ok run := by
      rw [List.append_nil]
      exact onward_byteSize before run
    rw [copyFrom, hslice, bind_ok, List.append_nil, encodeOnto_plain out hrun]
    rfl
  | cons c cs ih =>
    have hnext : before ++ run ++ c :: cs = before ++ run ++ [c] ++ cs := by simp
    have hsize : byteSize (before ++ run) + c.utf8Size = byteSize (before ++ run ++ [c]) := by
      rw [Text.byteSize_append _ [c]]
      rfl
    cases hc : entity? c with
    | some e =>
      have hcopied : encodeOnto (out ++ .ofList run ++ e) (.ofList cs) =
          encodeOnto out (.ofList (run ++ c :: cs)) := by
        rw [← encodeOnto_plain out hrun]
        apply String.toList_injective
        have hescaped : escaped c = e.toList := by rw [escaped, hc]
        simp [toList_encodeOnto, hescaped]
      have hcopy := ih (before ++ run ++ [c]) [] (out ++ .ofList run ++ e) (fun _ h => by cases h)
      rw [List.append_nil, List.nil_append, hcopied] at hcopy
      rw [copyFrom, hc]
      simp only
      rw [between_byteSize, bind_ok, hnext, hsize]
      exact hcopy
    | none =>
      have hlonger : ∀ d ∈ run ++ [c], entity? d = none := by
        intro d hd
        rcases List.mem_append.mp hd with hd | hd
        · exact hrun d hd
        · rwa [List.mem_singleton.mp hd]
      have hcopy := ih before (run ++ [c]) out hlonger
      rw [← List.append_assoc, List.append_assoc run, List.singleton_append] at hcopy
      rw [copyFrom, hc]
      simp only
      rw [hnext, hsize]
      exact hcopy

theorem copyOnto_eq (out s : String) : copyOnto out s = .ok (out ++ encode s) := by
  have h := copyFrom_eq [] [] s.toList out fun _ h => by cases h
  rwa [List.nil_append, List.nil_append, String.ofList_toList, encodeOnto_eq] at h

theorem foldlM_copyOnto (out : String) (chunks : List String) :
    chunks.foldlM copyOnto out = .ok (out ++ encode (String.join chunks)) := by
  induction chunks generalizing out with
  | nil => simp [encode, encoded?, pure, Except.pure]
  | cons s chunks ih =>
    rw [List.foldlM_cons, copyOnto_eq, bind_ok, ih, String.join_cons, encode_append,
      String.append_assoc]

/-! Reading back -/

/-- The text with each entity read as the character it stands for, in one pass from the left. -/
def decode : List Char → List Char
  | '&' :: 'a' :: 'm' :: 'p' :: ';' :: r => '&' :: decode r
  | '&' :: 'l' :: 't' :: ';' :: r => '<' :: decode r
  | '&' :: 'g' :: 't' :: ';' :: r => '>' :: decode r
  | '&' :: 'q' :: 'u' :: 'o' :: 't' :: ';' :: r => '"' :: decode r
  | '&' :: '#' :: 'x' :: '2' :: '7' :: ';' :: r => '\'' :: decode r
  | c :: r => c :: decode r
  | [] => []

theorem decode_cons {c : Char} (hc : c ≠ '&') (r : List Char) :
    decode (c :: r) = c :: decode r := by
  rw [decode] <;> rintro _ rfl _ <;> contradiction

theorem decode_escaped (c : Char) (r : List Char) : decode (escaped c ++ r) = c :: decode r := by
  by_cases hc : c ∈ ['<', '>', '"', '\'', '&']
  · simp only [List.mem_cons, List.not_mem_nil, or_false] at hc
    rcases hc with rfl | rfl | rfl | rfl | rfl <;> rfl
  · rw [escaped_of_none (entity?_eq_none hc), List.singleton_append]
    exact decode_cons (by rintro rfl; simp at hc) r

theorem decode_toList_encode (s : String) : decode (encode s).toList = s.toList := by
  rw [toList_encode]
  induction s.toList with
  | nil => rfl
  | cons c cs ih => rw [List.flatMap_cons, decode_escaped, ih]

theorem encode_injective : Function.Injective encode := by
  intro s t h
  apply String.toList_injective
  rw [← decode_toList_encode s, h, decode_toList_encode]

/-! Texts that stand for themselves -/

theorem length_escaped (c : Char) :
    (escaped c).length = 1 ∧ entity? c = none ∨ 1 < (escaped c).length := by
  by_cases hc : c ∈ ['<', '>', '"', '\'', '&']
  · have hlong : ∀ d ∈ ['<', '>', '"', '\'', '&'], 1 < (escaped d).length := by decide
    exact .inr (hlong c hc)
  · have hnone := entity?_eq_none hc
    exact .inl ⟨by rw [escaped_of_none hnone, List.length_singleton], hnone⟩

theorem length_flatMap_escaped (cs : List Char) : cs.length < (cs.flatMap escaped).length ∨
    cs.length = (cs.flatMap escaped).length ∧ ∀ c ∈ cs, entity? c = none := by
  induction cs with
  | nil => exact .inr ⟨rfl, fun _ h => by cases h⟩
  | cons c cs ih =>
    rw [List.flatMap_cons, List.length_append, List.length_cons]
    rcases length_escaped c with ⟨hone, hnone⟩ | hlong
    · refine ih.imp (fun hless => by omega) ?_
      rintro ⟨hsame, hplain⟩
      refine ⟨by omega, ?_⟩
      intro d hd
      rcases List.mem_cons.mp hd with rfl | hd
      · exact hnone
      · exact hplain d hd
    · have hle : cs.length ≤ (cs.flatMap escaped).length := by
        rcases ih with hless | ⟨hsame, -⟩ <;> omega
      exact .inl (by omega)

theorem encode_eq_self_iff {s : String} : encode s = s ↔ encoded? s = none := by
  constructor
  · intro h
    have hsame : (s.toList.flatMap escaped).length = s.toList.length := by rw [← toList_encode, h]
    rcases length_flatMap_escaped s.toList with hless | ⟨-, hplain⟩
    · omega
    · exact encoded?_eq_none_iff.mpr hplain
  · intro h
    rw [encode, h, Option.getD_none]

/-- Encoding is the same for a text as for its parts, however it is cut and copied. What it gives
holds no character that means something to HTML but the ampersands of entities, and reads back as
the text, so no two texts are encoded alike. A text is handed on as it is exactly if nothing of it
is encoded, and only then a second encoding changes nothing. -/
theorem encode_faithful :
    (∀ s t, encode (s ++ t) = encode s ++ encode t) ∧
    (∀ out s, encodeOnto out s = out ++ encode s ∧ copyOnto out s = .ok (out ++ encode s)) ∧
    (∀ out chunks, encodeChunks out chunks = out ++ encode (String.join chunks) ∧
      chunks.foldlM copyOnto out = .ok (out ++ encode (String.join chunks))) ∧
    (∀ s, (∀ c ∈ ['<', '>', '"', '\''], c ∉ (encode s).toList) ∧
      ∀ before after, (encode s).toList = before ++ '&' :: after → ∃ e ∈ entities,
        e.toList <+: '&' :: after) ∧
    (∀ s, decode (encode s).toList = s.toList) ∧ Function.Injective encode ∧
    ∀ s, (encoded? s = none ↔ encode s = s) ∧ (encode s = s ↔ encode (encode s) = encode s) := by
  refine ⟨encode_append, fun out s => ⟨encodeOnto_eq out s, copyOnto_eq out s⟩,
    fun out chunks => ⟨encodeChunks_eq out chunks, foldlM_copyOnto out chunks⟩, fun s =>
      ?_, decode_toList_encode, encode_injective,
    fun s => ⟨encode_eq_self_iff.symm, ?_⟩⟩
  · -- encoded text is dynamic output and nothing else
    have hsafe : Safe ((encode s).toList.map (·, false)) := by
      have h := safe_segments [.dynamic s]
      rwa [List.flatMap_singleton, Segment.marked, Segment.chars, ← toList_encode] at h
    refine ⟨fun c hc hmem => hsafe.marks c hc (List.mem_map_of_mem hmem),
      fun before after heq => ?_⟩
    have hmarked : (encode s).toList.map (·, false) = before.map (·, false) ++ ('&', false) ::
        after.map (·, false) := by simp [heq]
    obtain ⟨e, he, hfirst⟩ := hsafe.ampersand hmarked
    refine ⟨e, he, ?_⟩
    have hfst := hfirst.map (·.1)
    simpa [Function.comp_def] using hfst
  · exact ⟨fun h => congrArg encode h, fun h => encode_injective h⟩

end Templating.Render
