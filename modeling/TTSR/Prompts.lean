import TTSR.Foundation.Text

/-!
# Prompts

`student_prompt`. The note is put before the question after a heading; the
backslashes of the heading are in the text, as in the source.
-/

namespace TTSR

open TTSR.Foundation.Text

/-- `STUDENT_TEMPLATE.format(strategy_note=.., question=..)`. -/
def studentTemplate (strategyNote question : String) : String :=
  strategyNote ++ "\nQuestion:\n" ++ question ++ "\nPlease reason step by step," ++
    " and put your final answer within \\boxed\x7b\x7d."

def studentPrompt (question strategyNote : String) : String :=
  let note := strip strategyNote
  let note := if note = "" then note
    else "[REASONING_STRATEGY_NOTES]\\n" ++ note ++ "\\n\\n"
  studentTemplate note question

/-! ## The prompt as characters -/

/-- What `STUDENT_TEMPLATE` puts after the question. -/
def templateTail : List Char :=
  "\nPlease reason step by step,".toList ++
    " and put your final answer within \\boxed\x7b\x7d.".toList

theorem templateTail_eq : templateTail = templateTail.dropLast ++ ['.'] := by
  decide +kernel

theorem toList_studentTemplate (note q : String) :
    (studentTemplate note q).toList = (note.toList ++ ['\n']) ++
      ("Question:".toList ++ ('\n' :: (q.toList ++ templateTail))) := by
  have hmarker : "\nQuestion:\n".toList =
      ['\n'] ++ ("Question:".toList ++ ['\n']) := by decide
  unfold studentTemplate templateTail
  -- the texts are long literals: only their places matter
  generalize "\nPlease reason step by step," = reason
  generalize " and put your final answer within \\boxed\x7b\x7d." = answer
  rw [String.toList_append, String.toList_append, String.toList_append,
    String.toList_append, hmarker]
  generalize "Question:".toList = marker
  simp only [List.append_assoc, List.cons_append, List.nil_append]

/-- The prompt ends with the marker, the question and the instruction. -/
theorem toList_studentPrompt (q note : String) :
    ∃ heading, (studentPrompt q note).toList = heading ++
      ("Question:".toList ++ ('\n' :: (q.toList ++ templateTail))) := by
  rw [studentPrompt]
  exact ⟨_, toList_studentTemplate _ q⟩

/-- Without a note the prompt starts with a line break. -/
theorem toList_studentPrompt_empty (q : String) :
    ∃ cs, (studentPrompt q "").toList = '\n' :: cs := by
  have hprompt : studentPrompt q "" = studentTemplate "" q := by
    rw [studentPrompt, if_pos (by decide)]
    rfl
  rw [hprompt, toList_studentTemplate]
  exact ⟨_, rfl⟩

end TTSR
