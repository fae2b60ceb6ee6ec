import TTSR.Foundation.JsonText
import TTSR.Foundation.Text

/-!
# JSON objects in text

`try_parse_json_object` reads an object out of a model's text. It tries the
whole text first, and then the part from the first opening brace to the last
closing one. Only decoding errors are caught: the two other exceptions
`json.loads` can raise on a text go through.

`write_jsonl` and `read_jsonl` pass rows from one stage to the next in a file
with one object a line. What was written is read back (`readJsonl_writeJsonl`).
-/

namespace TTSR

open TTSR.Foundation TTSR.Foundation.Text TTSR.Foundation.TextFile
open TTSR.Foundation.JsonText

/-- What `json.loads` raises on a text that it does not decode. -/
inductive LoadsError where
  | jsonDecodeError
  | valueError
  | recursionError
deriving DecidableEq

/-- `obj if isinstance(obj, dict) else None`. -/
def asDict : Json → Option (List (String × Json))
  | .obj fields => some fields
  | _ => none

/-- The second attempt of `try_parse_json_object`. -/
def parseBraces (loads : String → Except LoadsError Json) (text : String) :
    Except LoadsError (Option (List (String × Json))) :=
  match find '{' text.toList, rfind '}' text.toList with
  | some left, some right =>
      if right ≤ left then .ok none else
      match loads (String.ofList ((text.toList.take (right + 1)).drop left)) with
      | .ok obj => .ok (asDict obj)
      | .error .jsonDecodeError => .ok none
      | .error exc => .error exc
  | _, _ => .ok none

def tryParseJsonObject (loads : String → Except LoadsError Json)
    (text : String) : Except LoadsError (Option (List (String × Json))) :=
  let text := strip text
  if text = "" then .ok none else
  match loads text with
  | .ok obj => .ok (asDict obj)
  | .error .jsonDecodeError => parseBraces loads text
  | .error exc => .error exc

/-! ## Rows in a file -/

inductive ReadError where
  | valueError (message : String)
  | loadsError (exc : LoadsError)
deriving DecidableEq

/-- The rows a generator yields, and what it raises after them. -/
abbrev Yielded := List (List (String × Json)) × Option ReadError

/-- One row, and then the rest. -/
def Yielded.cons (row : List (String × Json)) (rest : Yielded) : Yielded :=
  (row :: rest.1, rest.2)

/-- The loop of `read_jsonl` from line `lineNo` on. -/
def readLines (loads : String → Except LoadsError Json) (path : String) :
    ℕ → List (List Char) → Yielded
  | _, [] => ([], none)
  | lineNo, line :: rest =>
      let line := strip (String.ofList line)
      if line = "" then readLines loads path (lineNo + 1) rest else
      match loads line with
      | .error .jsonDecodeError =>
          ([], some (.valueError
            ("Invalid json at " ++ path ++ ":" ++ toString lineNo)))
      | .error exc => ([], some (.loadsError exc))
      | .ok obj =>
          match asDict obj with
          | some row => (readLines loads path (lineNo + 1) rest).cons row
          | none => readLines loads path (lineNo + 1) rest

/-- The argument `file` is the text of the file at `path`. -/
def readJsonl (loads : String → Except LoadsError Json) (path : String)
    (file : List Char) : Yielded :=
  readLines loads path 1 (lines file)

/-- The text of the file after `write_jsonl`, with newlines as they are. -/
def writeJsonl (fr : FloatRepr) (rows : List (List (String × Json))) :
    List Char :=
  rows.flatMap fun row => dumps fr (.obj row) ++ ['\n']

/-- The line of a row holds no outer blanks but its newline. -/
theorem strip_line (fr : FloatRepr) (row : List (String × Json)) :
    strip (String.ofList (dumps fr (.obj row) ++ ['\n'])) =
      String.ofList (dumps fr (.obj row)) := by
  rw [← String.toList_inj, toList_strip, String.toList_ofList,
    String.toList_ofList, dumps, bracketed]
  have hstrip := stripChars_append []
    ([',', ' '].intercalate (dumpsFields fr row)) ['\n']
    (by decide : isSpace '{' = false) (by decide : isSpace '}' = false)
  have hblank : ['\n'].rdropWhile isSpace = [] := by decide
  rw [hblank] at hstrip
  simpa using hstrip

theorem dumps_ne_empty (fr : FloatRepr) (row : List (String × Json)) :
    String.ofList (dumps fr (.obj row)) ≠ "" := by
  rw [dumps, bracketed]
  simp

/-- A row that `loads` understands is yielded from its line. -/
theorem readLines_dumps {loads : String → Except LoadsError Json}
    {fr : FloatRepr} {row : List (String × Json)}
    (hrow : loads (String.ofList (dumps fr (.obj row))) = .ok (.obj row))
    (path : String) (lineNo : ℕ) (rest : List (List Char)) :
    readLines loads path lineNo ((dumps fr (.obj row) ++ ['\n']) :: rest) =
      (readLines loads path (lineNo + 1) rest).cons row := by
  rw [readLines, strip_line, if_neg (dumps_ne_empty fr row), hrow]
  rfl

theorem readLines_map_dumps {loads : String → Except LoadsError Json}
    {fr : FloatRepr} {rows : List (List (String × Json))}
    (hrows : ∀ row ∈ rows,
      loads (String.ofList (dumps fr (.obj row))) = .ok (.obj row))
    (path : String) (lineNo : ℕ) :
    readLines loads path lineNo
        (rows.map fun row => dumps fr (.obj row) ++ ['\n']) = (rows, none) := by
  induction rows generalizing lineNo with
  | nil => rfl
  | cons row rows ih =>
      obtain ⟨hrow, hrows⟩ := List.forall_mem_cons.mp hrows
      rw [List.map_cons, readLines_dumps hrow, ih hrows]
      rfl

/-- Every row has one line of the file, the lines in the order of the rows. -/
theorem lines_writeJsonl (fr : FloatRepr)
    (rows : List (List (String × Json))) :
    lines (writeJsonl fr rows) =
      rows.map fun row => dumps fr (.obj row) ++ ['\n'] := by
  have htexts : ∀ text ∈ rows.map (fun row => dumps fr (.obj row)),
      OneLine text := by
    intro text htext
    obtain ⟨row, _, rfl⟩ := List.mem_map.mp htext
    exact oneLine_dumps fr _
  have hlines := lines_unlines htexts
  rw [unlines, List.flatMap_map, List.map_map] at hlines
  exact hlines

/-- If `json.loads` reads each row from its own text, then `read_jsonl` yields
the rows that were written, each from one line of the file, and raises
nothing. -/
theorem readJsonl_writeJsonl {loads : String → Except LoadsError Json}
    {fr : FloatRepr} (path : String) {rows : List (List (String × Json))}
    (hloads : ∀ row ∈ rows,
      loads (String.ofList (dumps fr (.obj row))) = .ok (.obj row)) :
    readJsonl loads path (writeJsonl fr rows) = (rows, none) ∧
      lines (writeJsonl fr rows) =
        rows.map fun row => dumps fr (.obj row) ++ ['\n'] := by
  constructor
  · rw [readJsonl, lines_writeJsonl, readLines_map_dumps hloads]
  · exact lines_writeJsonl fr rows

def exampleFloatRepr : FloatRepr where
  repr _ := ['0', '.', '5']
  chars _ := by simp [isFloatChar]

/-- A row with line ends and outer blanks in its question. -/
def exampleJsonlRow : List (String × Json) :=
  [("question", .str " Is 91\nprime?\u2028"), ("index", .int (-3)),
    ("score", .float (.fin (1 / 2))), ("tags", .arr [.null, .bool true])]

def exampleJsonlText : String :=
  "\x7b\"question\": \" Is 91\\nprime?\u2028\", \"index\": -3, " ++
    "\"score\": 0.5, \"tags\": [null, true]\x7d"

def exampleJsonlLoads (text : String) : Except LoadsError Json :=
  if text = exampleJsonlText then .ok (.obj exampleJsonlRow)
  else if text = "\x7b\x7d" then .ok (.obj [])
  else .error .jsonDecodeError

theorem exampleJsonlLoads_dumps : ∀ row ∈ [exampleJsonlRow, []],
    exampleJsonlLoads (String.ofList (dumps exampleFloatRepr (.obj row))) =
      .ok (.obj row) := by
  have hrow : String.ofList (dumps exampleFloatRepr (.obj exampleJsonlRow)) =
      exampleJsonlText := by decide
  have hempty : String.ofList (dumps exampleFloatRepr (.obj [])) = "\x7b\x7d" := by
    decide
  intro row hmem
  rcases List.mem_pair.mp hmem with rfl | rfl
  · rw [hrow]
    rfl
  · rw [hempty]
    rfl

theorem readJsonl_writeJsonl_exampleJsonlRow :
    readJsonl exampleJsonlLoads "rows.jsonl"
        (writeJsonl exampleFloatRepr [exampleJsonlRow, []]) =
      ([exampleJsonlRow, []], none) :=
  (readJsonl_writeJsonl "rows.jsonl" exampleJsonlLoads_dumps).1

end TTSR
