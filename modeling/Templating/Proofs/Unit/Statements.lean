import Templating.Unit.Emission
import Templating.Proofs.Page.Snippets

/-! The lines of a body close what they open if its embedded code does. -/
namespace Templating.Unit
open Code Page
open Markup (Clause)
open Text (quoted)

/-! Statements -/

theorem whole_literal (text : String) : Whole (statementLines (.literal text)) :=
  .line (takes_weave [] "cx.write_literal(" [quoted text] [");"] [] (by simp [balanced_quoted])
    (by decide) (by simp))

theorem whole_evaluated {code use : String} (h : Balanced code.toList)
    (huse : Takes (.code, []) (use.toList ++ ['\n']) (.code, [])) :
    Whole (.of "\x7b" :: Lines.nest [.of s!"let __value = ({code});", .of use] ++
      [.of "\x7d"]) := by
  have hlet :=
    takes_weave [] "let __value = (" [code] [");"] [] (by simpa using h) (by decide) (by simp)
  have hinner : Whole [.of s!"let __value = ({code});", .of use] := .text hlet (.line huse)
  exact .text (by decide) ((hinner.nested ['\x7d']).append (.line (by decide +kernel)))

theorem whole_expression {code : String} (h : Balanced code.toList) :
    Whole (statementLines (.expression code)) :=
  whole_evaluated h (by decide)

theorem whole_beginAttribute (name opening closing : String) (count : Nat) :
    Whole (statementLines (.beginAttribute name opening closing count)) :=
  .line (takes_weave [] "cx.begin_write_attribute(" [quoted name, quoted opening, quoted closing,
    toString count]
    [", ", ", ", ", ", ")?;"] [] (by
      simp only [List.forall_mem_cons]
      exact ⟨balanced_quoted name, balanced_quoted opening, balanced_quoted closing,
        balanced_repr count, by simp⟩) (by decide) (by simp))

theorem whole_part {q : Markup.Part}
    (h : ∀ code, q.content = .expression code → Balanced code.toList) :
    Whole (statementLines (.part q)) := by
  obtain ⟨lead, text | code⟩ := q
  · exact .line (takes_weave [] "cx.write_attribute_value(" [quoted lead, quoted text]
      [", ", ", true).await?;"] []
      (by simp [balanced_quoted]) (by decide) (by simp))
  · have huse :=
      takes_weave [] "cx.write_attribute_value(" [quoted lead] [", &__value, false).await?;"] []
        (by simp [balanced_quoted]) (by decide) (by simp)
    exact whole_evaluated (h code rfl) huse

/-! Clauses -/

theorem whole_armLines {arms : List (Clause (Located Statement))}
    (hheads : ∀ c ∈ arms, Balanced c.head.toList)
    (hbodies : ∀ c ∈ arms, Whole (bodyLines c.body)) : Whole (armLines arms) := by
  induction arms with
  | nil => exact .nil
  | cons c arms ih =>
    have hhead :=
      takes_weave [] "" [c.head] [" =>" ++ " \x7b"] ['\x7d']
      (by simpa using hheads c List.mem_cons_self)
      (by decide) (by simp)
    have harm : Whole (braced (c.head ++ " =>") (bodyLines c.body)) := by
      refine .braced ['\x7d'] ?_ (hbodies c List.mem_cons_self) (by decide)
      rw [String.append_assoc]
      simpa [weave] using hhead
    exact harm.append (ih (fun d hd => hheads d (List.mem_cons_of_mem c hd)) fun d hd =>
      hbodies d (List.mem_cons_of_mem c hd))

theorem goes_branchLines {branches : List (Clause (Located Statement))} (first : Bool)
    (hne : first = true → branches ≠ []) (hheads : ∀ c ∈ branches, Balanced c.head.toList)
    (hbodies : ∀ c ∈ branches, Whole (bodyLines c.body)) :
    Goes (.code, if first then [] else ['\x7d']) (branchLines first branches) (.code, []) := by
  induction branches generalizing first with
  | nil =>
    cases first with
    | true => exact absurd rfl (hne rfl)
    | false => exact .line (by decide)
  | cons c cs ih =>
    have hc := hheads c List.mem_cons_self
    have hbody := (hbodies c List.mem_cons_self).nested ['\x7d']
    have hrest := ih false (by simp) (fun d hd => hheads d (List.mem_cons_of_mem c hd)) fun d hd =>
      hbodies d (List.mem_cons_of_mem c hd)
    cases first with
    | true =>
      have hhead :=
        takes_weave [] "" [c.head] [" \x7b"] ['\x7d'] (by simpa using hc) (by decide) (by simp)
      exact .text hhead (hbody.append hrest)
    | false =>
      have hhead :=
        takes_weave ['\x7d'] "\x7d " [c.head] [" \x7b"] ['\x7d'] (by simpa using hc) (by decide)
          (by simp)
      exact .text hhead (hbody.append hrest)

theorem whole_choice {scrutinee : String} {arms : List (Clause (Located Statement))}
    (h : Balanced scrutinee.toList)
    (harms : Whole (armLines arms)) : Whole (statementLines (.choice scrutinee arms)) := by
  have hhead :=
    takes_weave [] "match " [scrutinee] [" \x7b"] ['\x7d'] (by simpa using h) (by decide) (by simp)
  exact .braced _ hhead harms (by decide)

theorem whole_defineSection (name : String) {body : List (Located Statement)}
    (h : Whole (bodyLines body)) :
    Whole (statementLines (.defineSection name body)) := by
  have hhead :=
    takes_weave [] "cx.define_section(" [quoted name] [", move |mut cx: Writer|" ++ " \x7b"]
    ['\x7d', ')']
    (by simp [balanced_quoted]) (by decide) (by simp)
  have hinner : Whole (bodyLines body ++ [.of "Ok::<_, RenderError>(cx)"]) :=
    h.append (.line (by decide))
  have hasync : Whole (braced "async move" (bodyLines body ++ [.of "Ok::<_, RenderError>(cx)"]) ++
      [.of ".boxed_local()"]) :=
    (Whole.braced ['\x7d'] (by decide) hinner (by decide)).append (.line (by decide))
  refine .braced ['\x7d', ')'] ?_ hasync (by decide)
  rw [String.append_assoc]
  exact hhead

theorem whole_bodyLines {b : List (Located Statement)} (h : Embeds Snippet.Closed b) :
    Whole (bodyLines b) := by
  induction h with
  | nil => exact .nil
  | literal _ ih => exact (whole_literal _).append ih
  | expression hx _ ih => exact (whole_expression hx).append ih
  | code hx _ ih => exact (whole_codeLines hx.1 hx.2).append ih
  | block hne hheads _ _ ihbodies ih =>
    exact (goes_branchLines true (fun _ => hne) hheads ihbodies).append ih
  | choice hx hheads _ _ ihbodies ih =>
    exact (whole_choice hx (whole_armLines hheads ihbodies)).append ih
  | beginAttribute _ ih => exact (whole_beginAttribute ..).append ih
  | part hx _ ih => exact (whole_part hx).append ih
  | endAttribute _ ih => exact (Goes.line (by decide)).append ih
  | defineSection _ _ ihbody ih => exact (whole_defineSection _ ihbody).append ih

end Templating.Unit
