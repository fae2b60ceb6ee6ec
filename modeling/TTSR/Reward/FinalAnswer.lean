import TTSR.Foundation.Text

/-!
# The final answer of a response

`extract_final_answer`: the last flat `\boxed{...}` group, else the last
`answer: ...` line, else the last nonblank line cut at 256 characters. Every
vote in the system is cast over its results.
-/

namespace TTSR.Reward

open TTSR.Foundation.Text

/-- `BOXED_RE`: `\\boxed\{([^{}]*)\}`. -/
def matchBoxed (cs : List Char) : Option (List Char × ℕ) :=
  if cs.take 7 = ['\\', 'b', 'o', 'x', 'e', 'd', '{'] then
    let body := cs.drop 7
    let content := body.takeWhile fun c => c != '{' && c != '}'
    match body.drop content.length with
    | '}' :: _ => some (content, 7 + content.length + 1)
    | _ => none
  else none

/-- The letters of `answer` under `(?i)`: the long s folds to `s`. -/
def answerLetters : List (List Char) :=
  [['a', 'A'], ['n', 'N'], ['s', 'S', 'ſ'], ['w', 'W'], ['e', 'E'], ['r', 'R']]

/-- `ANSWER_RE`: `(?i)answer\s*:\s*([^\n]+)`. -/
def matchAnswer (cs : List Char) : Option (List Char × ℕ) :=
  if (cs.take 6).length = 6 ∧
      (List.zipWith (fun c ls => ls.contains c) cs answerLetters).all id then
    let before := (cs.drop 6).takeWhile isSpace
    match cs.drop (6 + before.length) with
    | ':' :: rest =>
        let after := rest.takeWhile isSpace
        let line := (rest.drop after.length).takeWhile (· != '\n')
        if line ≠ [] then
          some (line, 6 + before.length + 1 + after.length + line.length)
        else
          -- only white space is left: `\s*` gives back up to the last
          -- character that is not a newline, and the group is that character
          let kept := after.rdropWhile (· == '\n')
          kept.getLast?.map fun c => ([c], 6 + before.length + 1 + kept.length)
    | _ => none
  else none

def extractFinalAnswer (text : String) : String :=
  let cs := stripChars text.toList
  if cs.isEmpty then "" else
  match (findall matchBoxed cs).getLast? with
  | some content => String.ofList (stripChars content)
  | none =>
    match (findall matchAnswer cs).getLast? with
    | some line => String.ofList (stripChars line)
    | none =>
      match (((splitlines cs).map stripChars).filter (· ≠ [])).getLast? with
      | some line => String.ofList (line.take 256)
      | none => ""

example : extractFinalAnswer "so \\boxed{1} or \\boxed{ 42 }." = "42" := by
  decide +kernel

example : extractFinalAnswer "The aNSWER : x = 3 \nbye" = "x = 3" := by
  decide +kernel

end TTSR.Reward
