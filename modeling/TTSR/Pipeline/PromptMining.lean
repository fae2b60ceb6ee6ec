import TTSR.Pipeline.ExtractFailed
import TTSR.Prompts

/-!
# What is mined from a Student prompt

`extract_failed._extract_question` looks for the question in the text of a
rollout's prompt. It drops what stands before the first `Question:` and keeps
all that follows, so the instruction with which `STUDENT_TEMPLATE` ends is taken
for a part of the question.
-/

namespace TTSR.Pipeline

open TTSR.Foundation.Text

/-- The question that is mined ends with the question and the instruction,
whatever the note says. -/
theorem extractQuestion_studentPrompt {q : String} (note : String)
    (hstrip : strip q = q) (hne : q ≠ "") :
    ∃ front, (extractQuestion (studentPrompt q note)).toList =
      front ++ (q.toList ++ templateTail) := by
  obtain ⟨heading, hprompt⟩ := toList_studentPrompt q note
  -- stripping the prompt only touches the heading
  have htext : ∃ pre, stripChars (studentPrompt q note).toList = pre ++
      ("Question:".toList ++ ('\n' :: (q.toList ++ templateTail))) := by
    have hends := stripChars_append heading ("uestion:".toList ++
      ('\n' :: (q.toList ++ templateTail.dropLast))) [] (x := 'Q') (y := '.')
      (by decide) (by decide)
    refine ⟨heading.dropWhile isSpace, ?_⟩
    rw [hprompt, templateTail_eq]
    simpa using hends
  obtain ⟨pre, hpre⟩ := htext
  -- the marker that is found is not after the one of the template
  obtain ⟨before, hbefore, hlength⟩ := beforeFirst_append "Question:".toList pre
    ('\n' :: (q.toList ++ templateTail))
  have hkept : ∃ kept, (stripChars (studentPrompt q note).toList).drop
      (before.length + 9) = kept ++ ('\n' :: (q.toList ++ templateTail)) := by
    refine ⟨(pre ++ "Question:".toList).drop (before.length + 9), ?_⟩
    rw [hpre, ← List.append_assoc, List.drop_append_of_le_length]
    rw [List.length_append]
    exact Nat.add_le_add_right hlength 9
  obtain ⟨kept, hkept⟩ := hkept
  have hnonempty : strip (studentPrompt q note) ≠ "" := by
    rw [ne_eq, ← String.toList_eq_nil_iff, toList_strip, hpre]
    simp
  have hmined : (extractQuestion (studentPrompt q note)).toList =
      stripChars (kept ++ ('\n' :: (q.toList ++ templateTail))) := by
    rw [extractQuestion, if_neg hnonempty, toList_strip, hpre, hbefore]
    dsimp only
    rw [← hpre, toList_strip, String.toList_ofList, hkept]
  -- the question starts and the instruction ends with something that stays
  cases hq : q.toList with
  | nil => exact absurd (String.toList_eq_nil_iff.mp hq) hne
  | cons x cs =>
      have hx : isSpace x = false := by
        have hcs : stripChars (x :: cs) = x :: cs := by
          rw [← hq, ← toList_strip, hstrip]
        exact isSpace_head_of_stripped hcs
      refine ⟨(kept ++ ['\n']).dropWhile isSpace, ?_⟩
      have hends := stripChars_append (kept ++ ['\n'])
        (cs ++ templateTail.dropLast) [] (y := '.') hx (by decide)
      rw [hmined, hq, templateTail_eq]
      simpa using hends

/-- What is mined is longer than the question. -/
theorem length_lt_extractQuestion_studentPrompt {q : String} (note : String)
    (hstrip : strip q = q) (hne : q ≠ "") :
    q.toList.length < (extractQuestion (studentPrompt q note)).toList.length := by
  obtain ⟨front, hfront⟩ := extractQuestion_studentPrompt note hstrip hne
  rw [hfront, templateTail_eq, List.length_append, List.length_append,
    List.length_append, List.length_singleton]
  omega

/-- **A rendered question is never mined back.** -/
theorem extractQuestion_studentPrompt_ne (q note : String)
    (hstrip : strip q = q) (hne : q ≠ "") :
    extractQuestion (studentPrompt q note) ≠ q := by
  intro hback
  have hlt := length_lt_extractQuestion_studentPrompt note hstrip hne
  rw [hback] at hlt
  exact absurd hlt (Nat.lt_irrefl _)

theorem extractQuestion_studentPrompt_ne_sum :
    extractQuestion (studentPrompt "What is 1 + 1?" "") ≠ "What is 1 + 1?" :=
  extractQuestion_studentPrompt_ne _ "" (by decide +kernel) (by decide)

/-- The instruction comes back as a part of the question. -/
theorem extractQuestion_studentPrompt_sum :
    ∃ q note, strip q = q ∧ q ≠ "" ∧
      extractQuestion (studentPrompt q note) ≠ q := by
  have hstrip : strip "1 + 1 = ?" = "1 + 1 = ?" := by decide +kernel
  have hne : "1 + 1 = ?" ≠ "" := by decide
  refine ⟨"1 + 1 = ?", "", hstrip, hne, ?_⟩
  intro hback
  have hlt := length_lt_extractQuestion_studentPrompt "" hstrip hne
  rw [hback] at hlt
  exact absurd hlt (Nat.lt_irrefl _)

end TTSR.Pipeline
