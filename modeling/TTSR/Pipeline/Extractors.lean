import TTSR.Pipeline.Synthesis

/-!
# One extractor, two places

The question a Teacher output is scored on and the question `synthesize` adds to
the pool come from two programs. They read the same places in the same order and
part in one: when the last `<question>` tag inside the JSON field is blank, the
reward takes it for the question, and `synthesize` goes on to the raw text.
-/

namespace TTSR.Pipeline.Synthesize

open TTSR.Foundation TTSR.Foundation.Text TTSR.Reward

/-- The output holds an object in whose question field the last tag is blank,
and the last tag of the output itself is not. -/
def BlankFieldTag (py : Builtins) (loads : String → Except LoadsError Json)
    (raw : String) : Prop :=
  ∃ fields question, tryParseJsonObject loads raw = .ok (some fields) ∧
    lastQuestionTag (questionField py fields) = some "" ∧
    lastQuestionTag (strip raw) = some question ∧ question ≠ ""

variable {py : Builtins} {loads : String → Except LoadsError Json}

theorem tryParseJsonObject_strip (raw : String) :
    tryParseJsonObject loads (strip raw) = tryParseJsonObject loads raw := by
  simp only [tryParseJsonObject, strip_strip]

theorem lastQuestionTag_empty : lastQuestionTag "" = none := by decide

/-- Without a plain text both programs read the raw tags alike. -/
theorem extractQuestion_raw (raw : String) :
    extractQuestion raw false = (questionFromTags (strip raw)).1 := by
  rw [extractQuestion, questionFromTags]
  split
  · next hblank => rw [hblank, lastQuestionTag_empty]
  · cases h : lastQuestionTag (strip raw) with
    | none => rfl
    | some question =>
        dsimp only
        split_ifs with hne
        · rfl
        · simpa using hne

/-- The question field as `synthesize` reads it: its last tag if there is one,
else all of it. -/
theorem extractQuestion_field (fields : List (String × Json)) :
    extractQuestion (generatedQuestion py fields) true =
      (lastQuestionTag (questionField py fields)).getD
        (questionField py fields) := by
  rw [extractQuestion, questionField, generatedQuestion]
  split
  · next hblank => rw [hblank, lastQuestionTag_empty]; rfl
  · cases lastQuestionTag (strip _) <;> rfl

theorem parseQuestion_of_none {raw : String}
    (h : tryParseJsonObject loads raw = .ok none) :
    parseQuestion py loads raw = .ok (questionFromTags (strip raw)).1 := by
  rw [parseQuestion, h, ← extractQuestion_raw]
  exact congrArg Except.ok (if_pos rfl)

theorem parseQuestion_of_some {raw : String} {fields : List (String × Json)}
    (h : tryParseJsonObject loads raw = .ok (some fields)) :
    parseQuestion py loads raw =
      .ok (if (lastQuestionTag (questionField py fields)).getD
          (questionField py fields) = ""
        then (questionFromTags (strip raw)).1
        else (lastQuestionTag (questionField py fields)).getD
          (questionField py fields)) := by
  rw [parseQuestion, h, ← extractQuestion_raw, ← extractQuestion_field]
  cases fields with
  | nil =>
      have hempty : extractQuestion (generatedQuestion py []) true = "" := rfl
      rw [hempty, if_pos rfl]
      exact congrArg Except.ok (if_pos rfl)
  | cons field fields => simp [Except.map]

/-- What the reward extracts where an object is found. -/
theorem extractGeneratedQuestion_of_some {raw : String}
    {fields : List (String × Json)} (hne : strip raw ≠ "")
    (h : tryParseJsonObject loads raw = .ok (some fields)) :
    extractGeneratedQuestion py loads raw =
      .ok (if questionField py fields ≠ "" then
        ((lastQuestionTag (questionField py fields)).getD
          (questionField py fields), true)
      else questionFromTags (strip raw)) := by
  rw [extractGeneratedQuestion, if_neg hne, tryParseJsonObject_strip, h]
  dsimp only
  split <;> rfl

theorem questionFromTags_eq_empty_iff (text : String) :
    (questionFromTags text).1 = "" ↔
      ∀ question, lastQuestionTag text = some question → question = "" := by
  rw [questionFromTags]
  cases lastQuestionTag text with
  | none => simp
  | some question =>
      dsimp only
      split_ifs with h
      · simp
      · simpa using h

/-- **One extractor, two places.** The pool gets the question that was scored,
unless the field of the object ends in a blank tag and the output does not. -/
theorem parseQuestion_eq_extractGeneratedQuestion_iff (py : Builtins)
    (loads : String → Except LoadsError Json) (raw : String) :
    parseQuestion py loads raw =
        (extractGeneratedQuestion py loads raw).map Prod.fst ↔
      ¬ BlankFieldTag py loads raw := by
  by_cases hblank : strip raw = ""
  · have hnone : tryParseJsonObject loads raw = .ok none := by
      simp [tryParseJsonObject, hblank]
    have hparse : parseQuestion py loads raw = .ok "" := by
      rw [parseQuestion_of_none hnone, hblank]
      rfl
    have hextract : extractGeneratedQuestion py loads raw = .ok ("", false) :=
      if_pos hblank
    simp [hparse, hextract, Except.map, BlankFieldTag, hnone]
  cases hobj : tryParseJsonObject loads raw with
  | error exc =>
      have hextract : extractGeneratedQuestion py loads raw = .error exc := by
        rw [extractGeneratedQuestion, if_neg hblank, tryParseJsonObject_strip,
          hobj]
      simp [parseQuestion, hextract, hobj, Except.map, BlankFieldTag]
  | ok obj =>
      cases obj with
      | none =>
          have hextract : extractGeneratedQuestion py loads raw =
              .ok (questionFromTags (strip raw)) := by
            rw [extractGeneratedQuestion, if_neg hblank,
              tryParseJsonObject_strip, hobj]
          simp [parseQuestion_of_none hobj, hextract, hobj, Except.map,
            BlankFieldTag]
      | some fields =>
          rw [parseQuestion_of_some hobj,
            extractGeneratedQuestion_of_some hblank hobj]
          by_cases hfield : questionField py fields = ""
          · simp [hfield, lastQuestionTag_empty, Except.map, BlankFieldTag,
              hobj]
          cases htag : lastQuestionTag (questionField py fields) with
          | none => simp [hfield, htag, Except.map, BlankFieldTag, hobj]
          | some question =>
              by_cases hquestion : question = ""
              · -- the two fall-through rules part here
                rw [hquestion]
                simp only [Option.getD_some, if_true, Except.map, ne_eq,
                  hfield, not_false_eq_true, Except.ok.injEq]
                rw [questionFromTags_eq_empty_iff]
                constructor
                · rintro h ⟨-, q, -, -, hq, hne⟩
                  exact hne (h q hq)
                · intro h q hq
                  by_contra hne
                  rw [hquestion] at htag
                  exact h ⟨fields, q, hobj, htag, hq, hne⟩
              · simp [hfield, htag, hquestion, Except.map, BlankFieldTag, hobj]

/-- An object whose question field is an empty tag. -/
def blankField : String :=
  "\x7b\"generated_question\": \"<question></question>\"\x7d"

/-- The object, and a question behind it. -/
def blankFieldOutput : String :=
  blankField ++ " <question>1+1=?</question>"

/-- What `json.loads` makes of the two texts it is tried on. -/
def blankFieldLoads (text : String) : Except LoadsError Json :=
  if text = blankField then
    .ok (.obj [("generated_question", .str "<question></question>")])
  else .error .jsonDecodeError

/-- The pool gets a question where the reward saw none. -/
theorem parseQuestion_blankFieldOutput :
    parseQuestion Builtins.plain blankFieldLoads blankFieldOutput =
        .ok "1+1=?" ∧
      extractGeneratedQuestion Builtins.plain blankFieldLoads
        blankFieldOutput = .ok ("", true) ∧
      parseQuestion Builtins.plain blankFieldLoads blankFieldOutput ≠
        (extractGeneratedQuestion Builtins.plain blankFieldLoads
          blankFieldOutput).map Prod.fst := by
  have hobj : tryParseJsonObject blankFieldLoads blankFieldOutput =
      .ok (some [("generated_question", .str "<question></question>")]) := rfl
  have hfield : questionField Builtins.plain
      [("generated_question", .str "<question></question>")] =
        "<question></question>" := by decide +kernel
  have htag : lastQuestionTag "<question></question>" = some "" := by
    decide +kernel
  have hraw : questionFromTags (strip blankFieldOutput) = ("1+1=?", true) := by
    decide +kernel
  have hpool : parseQuestion Builtins.plain blankFieldLoads blankFieldOutput =
      .ok "1+1=?" := by
    rw [parseQuestion_of_some hobj, hfield, htag, hraw, Option.getD_some,
      if_pos rfl]
  have hscored : extractGeneratedQuestion Builtins.plain blankFieldLoads
      blankFieldOutput = .ok ("", true) := by
    rw [extractGeneratedQuestion_of_some (by decide +kernel) hobj, hfield, htag,
      if_pos (by decide), Option.getD_some]
  refine ⟨hpool, hscored, ?_⟩
  rw [hpool, hscored]
  simp [Except.map]

end TTSR.Pipeline.Synthesize
