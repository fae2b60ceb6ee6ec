import TTSR.IoUtils

/-!
# The question of a Teacher response

`extract_generated_question` finds the question a Teacher response proposes,
and whether its format counts: in the `generated_question` field of a JSON
object if there is one, else between `<question>` tags. `token_similarity`
compares two questions word by word; the ratio of two word lists, which the
standard library's sequence matcher computes, is a parameter.
-/

namespace TTSR.Reward

open TTSR.Foundation TTSR.Foundation.Text

/-- `QUESTION_TAG_RE`: `<question>(.*?)</question>` with `DOTALL`. -/
def matchQuestion (cs : List Char) : Option (List Char × ℕ) :=
  if "<question>".toList.isPrefixOf cs then
    (beforeFirst "</question>".toList (cs.drop 10)).map fun body =>
      (body, 10 + body.length + 11)
  else none

/-- The stripped group of the last match. -/
def lastQuestionTag (text : String) : Option String :=
  ((findall matchQuestion text.toList).getLast?).map fun body =>
    String.ofList (stripChars body)

/-- `str(obj.get("generated_question", "")).strip()`. -/
def questionField (py : Builtins) (fields : List (String × Json)) : String :=
  strip (((Dict.lookupEntries "generated_question" fields).getD (.str "")).toStr
    py)

/-- The second half of `extract_generated_question`, on the stripped text. -/
def questionFromTags (text : String) : String × Bool :=
  match lastQuestionTag text with
  | some question => if question ≠ "" then (question, true) else ("", false)
  | none => ("", false)

def extractGeneratedQuestion (py : Builtins)
    (loads : String → Except LoadsError Json) (text : String) :
    Except LoadsError (String × Bool) :=
  let text := strip text
  if text = "" then .ok ("", false) else
  match tryParseJsonObject loads text with
  | .error exc => .error exc
  | .ok none => .ok (questionFromTags text)
  | .ok (some fields) =>
      let candidate := questionField py fields
      if candidate ≠ "" then
        .ok ((lastQuestionTag candidate).getD candidate, true)
      else .ok (questionFromTags text)

/-- `token_similarity`. -/
def tokenSimilarity (ratio : List String → List String → ℚ) (a b : String) :
    ℚ :=
  if strip a = "" ∨ strip b = "" then 0
  else ratio (split (strip a)) (split (strip b))

end TTSR.Reward
