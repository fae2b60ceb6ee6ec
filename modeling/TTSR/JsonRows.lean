import TTSR.Foundation.DecimalFloat
import TTSR.IoUtils

/-!
# JSON between the programs

`json.loads` with the decoder written out. What `read_jsonl` takes from a file
without lone surrogates can be written and read again without a change
(`readJsonl_rewritten`), and an object that a model wrote with prose or a
Markdown fence around it is found (`tryParseJsonObject_embedded`).
-/

namespace TTSR

open TTSR.Foundation TTSR.Foundation.Text TTSR.Foundation.TextFile
open TTSR.Foundation.JsonText TTSR.Foundation.JsonDecode
open TTSR.Foundation.JsonNumber TTSR.Foundation.DecimalFloat

/-- The exception a decoding error is. A string with a lone surrogate can be
read but not written; here it is refused when it is read, with the exception of
the write. -/
def loadsError : DecodeError → LoadsError
  | .malformed => .jsonDecodeError
  | .recursion => .recursionError
  | .digits | .surrogate | .fuel => .valueError

/-- `json.loads`. -/
def jsonLoads (dec : Decoder) (text : String) : Except LoadsError Json :=
  (decode dec text.toList).mapError loadsError

variable {dec : Decoder} {fr : FloatRepr}

theorem jsonLoads_eq_ok_iff {text : String} {x : Json} :
    jsonLoads dec text = .ok x ↔ decode dec text.toList = .ok x := by
  rw [jsonLoads]
  cases decode dec text.toList <;> simp [Except.mapError]

theorem jsonLoads_eq_jsonDecodeError {text : String}
    (h : decode dec text.toList = .error .malformed) :
    jsonLoads dec text = .error .jsonDecodeError := by
  rw [jsonLoads, h]
  rfl

theorem jsonLoads_encode (hfr : ReadsFloats fr dec) (l : Layout) {x : Json}
    (hx : Encodable dec dec.maxDepth x) (level : ℕ) :
    jsonLoads dec (String.ofList (encode fr l level x)) = .ok x := by
  rw [jsonLoads_eq_ok_iff, String.toList_ofList]
  exact decode_encode_bare hfr l hx level

theorem jsonLoads_dumps (hfr : ReadsFloats fr dec) {x : Json}
    (hx : Encodable dec dec.maxDepth x) :
    jsonLoads dec (String.ofList (dumps fr x)) = .ok x := by
  rw [← encode_compact fr 0]
  exact jsonLoads_encode hfr .compact hx 0

/-! ## Rows -/

/-- Every row that is yielded was read from some text. -/
theorem exists_loads_of_mem_readLines {loads : String → Except LoadsError Json}
    {path : String} {row : List (String × Json)} {texts : List (List Char)}
    {lineNo : ℕ} (h : row ∈ (readLines loads path lineNo texts).1) :
    ∃ text, loads text = .ok (.obj row) := by
  induction texts generalizing lineNo with
  | nil => cases h
  | cons line texts ih =>
      rw [readLines] at h
      by_cases hblank : strip (String.ofList line) = ""
      · rw [if_pos hblank] at h
        exact ih h
      · rw [if_neg hblank] at h
        cases hobj : loads (strip (String.ofList line)) with
        | error exc =>
            rw [hobj] at h
            cases exc <;> cases h
        | ok obj =>
            simp only [hobj] at h
            cases hdict : asDict obj with
            | none =>
                rw [hdict] at h
                exact ih h
            | some fields =>
                rw [hdict] at h
                rcases List.mem_cons.mp h with rfl | h
                · cases obj with
                  | obj fields =>
                      obtain rfl := Option.some.inj hdict
                      exact ⟨_, hobj⟩
                  | _ => cases hdict
                · exact ih h

instance (read : Except DecodeError Json) :
    Decidable (read = .error .surrogate) :=
  match read with
  | .error .surrogate => isTrue rfl
  | .error .malformed | .error .recursion | .error .digits | .error .fuel =>
      isFalse nofun
  | .ok _ => isFalse nofun

/-- A file on whose lines `json.loads` meets no lone surrogate, so that it reads
them as `jsonLoads` does. -/
structure RowsFile (dec : Decoder) where
  text : List Char
  paired : ∀ line ∈ lines text,
    decode dec (strip (String.ofList line)).toList ≠ .error .surrogate

/-- Rows that are read back make such a file. -/
def RowsFile.ofRows (rows : List (List (String × Json)))
    (h : ∀ row ∈ rows,
      jsonLoads dec (String.ofList (dumps fr (.obj row))) = .ok (.obj row)) :
    RowsFile dec where
  text := writeJsonl fr rows
  paired := by
    intro line hline
    rw [lines_writeJsonl] at hline
    obtain ⟨row, hrow, rfl⟩ := List.mem_map.mp hline
    rw [strip_line, jsonLoads_eq_ok_iff.mp (h row hrow)]
    intro hsurrogate
    cases hsurrogate

/-- **A file of rows can be rewritten.** The rows that `read_jsonl` takes from a
file without lone surrogates are all read back from the file that `write_jsonl`
makes of them, which has none either. -/
theorem readJsonl_rewritten (hfr : ReadsFloats fr dec) (hdec : ParsesDoubles dec)
    (path path' : String) (file : RowsFile dec) :
    ∃ rewritten : RowsFile dec,
      rewritten.text =
        writeJsonl fr (readJsonl (jsonLoads dec) path file.text).1 ∧
      readJsonl (jsonLoads dec) path' rewritten.text =
        ((readJsonl (jsonLoads dec) path file.text).1, none) := by
  have hrows : ∀ row ∈ (readJsonl (jsonLoads dec) path file.text).1,
      jsonLoads dec (String.ofList (dumps fr (.obj row))) = .ok (.obj row) := by
    intro row hrow
    obtain ⟨text, htext⟩ := exists_loads_of_mem_readLines hrow
    have hread := jsonLoads_eq_ok_iff.mp htext
    rw [jsonLoads_eq_ok_iff, String.toList_ofList, ← encode_compact fr 0]
    exact decode_encode_of_decode hfr hdec .compact hread 0
  refine ⟨RowsFile.ofRows _ hrows, rfl, ?_⟩
  show readJsonl (jsonLoads dec) path' (writeJsonl fr _) = _
  rw [readJsonl, lines_writeJsonl, readLines_map_dumps hrows]

/-- A file with a repeated key, a blank line, a line that is no object and an
escaped line end. -/
def exampleRowsText : List Char :=
  "\x7b\"uid\": \"u1\", \"tries\": 2, \"uid\": \"a\\nb\"\x7d\n\n[3]\n".toList

def exampleRowsFile : RowsFile (exactDecoder 4300 100) where
  text := exampleRowsText
  paired := by decide +kernel

theorem readJsonl_rewritten_exampleRowsText :
    ∃ rewritten : RowsFile (exactDecoder 4300 100),
      rewritten.text = writeJsonl exactRepr (readJsonl
        (jsonLoads (exactDecoder 4300 100)) "in.jsonl" exampleRowsText).1 ∧
      readJsonl (jsonLoads (exactDecoder 4300 100)) "out.jsonl"
          rewritten.text =
        ((readJsonl (jsonLoads (exactDecoder 4300 100)) "in.jsonl"
          exampleRowsText).1, none) :=
  readJsonl_rewritten (readsFloats_exactDecoder 4300 100)
    (parsesDoubles_exactDecoder 4300 100) _ _ exampleRowsFile

/-! ## An object in a text -/

theorem find_append {c : Char} {before : List Char} (h : c ∉ before)
    (rest : List Char) :
    find c (before ++ c :: rest) = some before.length := by
  have hnone : before.findIdx? (· == c) = none := by
    rw [List.findIdx?_eq_none_iff]
    intro d hd
    exact beq_false_of_ne fun hdc => h (hdc ▸ hd)
  rw [find, List.findIdx?_append, hnone, List.findIdx?_cons]
  simp

theorem rfind_append {c : Char} {after : List Char} (h : c ∉ after)
    (rest : List Char) :
    rfind c (rest ++ c :: after) = some rest.length := by
  have hrev : (rest ++ c :: after).reverse =
      after.reverse ++ c :: rest.reverse := by simp
  rw [rfind, hrev, find_append (by simpa using h)]
  simp only [Option.map_some, List.length_reverse, List.length_append,
    List.length_cons]
  congr 1
  omega

/-- The part between the first opening and the last closing brace. -/
theorem parseBraces_append {loads : String → Except LoadsError Json}
    {before mid after : List Char} (hbefore : '\x7b' ∉ before)
    (hafter : '\x7d' ∉ after) :
    parseBraces loads (String.ofList
        (before ++ '\x7b' :: (mid ++ '\x7d' :: after))) =
      match loads (String.ofList ('\x7b' :: (mid ++ ['\x7d']))) with
      | .ok obj => .ok (asDict obj)
      | .error .jsonDecodeError => .ok none
      | .error exc => .error exc := by
  have hleft := find_append hbefore (mid ++ '\x7d' :: after)
  have hright := rfind_append hafter (before ++ '\x7b' :: mid)
  have hcat : before ++ '\x7b' :: mid ++ '\x7d' :: after =
      before ++ '\x7b' :: (mid ++ '\x7d' :: after) := by simp
  rw [hcat] at hright
  have hlt : ¬(before ++ '\x7b' :: mid).length ≤ before.length := by
    simp
  have hslice : ((before ++ '\x7b' :: (mid ++ '\x7d' :: after)).take
      ((before ++ '\x7b' :: mid).length + 1)).drop before.length =
        '\x7b' :: (mid ++ ['\x7d']) := by
    have htake : before ++ '\x7b' :: (mid ++ '\x7d' :: after) =
        (before ++ '\x7b' :: (mid ++ ['\x7d'])) ++ after := by simp
    have hlength : (before ++ '\x7b' :: mid).length + 1 =
        (before ++ '\x7b' :: (mid ++ ['\x7d'])).length := by
      simp only [List.length_append, List.length_cons, List.length_nil]
      omega
    rw [htake, hlength, List.take_left, List.drop_left]
  rw [parseBraces, String.toList_ofList, hleft, hright, ← hslice]
  exact if_neg hlt

/-- The text of an object starts and ends with its braces. -/
theorem encode_obj (fr : FloatRepr) (l : Layout) (level : ℕ)
    (fields : List (String × Json)) :
    ∃ mid, encode fr l level (.obj fields) = '\x7b' :: (mid ++ ['\x7d']) := by
  rw [encode, bracketedIn]
  split_ifs
  · exact ⟨[], rfl⟩
  · refine ⟨l.opening level ++ ((',' :: l.separator level).intercalate
      (encodeFields fr l (level + 1) fields) ++ l.closing level), ?_⟩
    simp

/-- A stripped text that starts with the text of an object is read as that
object, or there is more behind it. -/
theorem decode_obj_append (hfr : ReadsFloats fr dec) (l : Layout) {level : ℕ}
    {fields : List (String × Json)}
    (hfields : Encodable dec dec.maxDepth (.obj fields)) (after : List Char) :
    decode dec (encode fr l level (.obj fields) ++ after) = .ok (.obj fields) ∨
      decode dec (encode fr l level (.obj fields) ++ after) =
        .error .malformed := by
  obtain ⟨mid, hmid⟩ := encode_obj fr l level fields
  have hskip : skipSpace (encode fr l level (.obj fields) ++ after) =
      encode fr l level (.obj fields) ++ after := by
    rw [hmid]
    exact skipSpace_cons (by decide)
  have hbom : (encode fr l level (.obj fields) ++ after).head? ≠
      some '\ufeff' := by
    rw [hmid]
    simp
  rw [decode, if_neg hbom, hskip, scanOnce_obj hfr l hfields]
  show (if skipSpace after = [] then _ else _) = _ ∨
    (if skipSpace after = [] then _ else _) = _
  split_ifs
  · exact Or.inl rfl
  · exact Or.inr rfl

/-- **An object with prose around it is found.** The text before the object
holds no opening brace and the text behind it no closing one; before the object
there is nothing but blanks, or the text starts like no JSON value. -/
theorem tryParseJsonObject_embedded (hfr : ReadsFloats fr dec) (l : Layout)
    (level : ℕ) {fields : List (String × Json)}
    (hfields : Encodable dec dec.maxDepth (.obj fields))
    {before after : List Char} (hbefore : '\x7b' ∉ before)
    (hafter : '\x7d' ∉ after)
    (hprose : before.dropWhile isSpace = [] ∨
      StartsNoValue (before.dropWhile isSpace ++
        (encode fr l level (.obj fields) ++ after.rdropWhile isSpace))) :
    tryParseJsonObject (jsonLoads dec) (String.ofList
        (before ++ (encode fr l level (.obj fields) ++ after))) =
      .ok (some fields) := by
  obtain ⟨mid, hmid⟩ := encode_obj fr l level fields
  have hbefore' : '\x7b' ∉ before.dropWhile isSpace := fun hmem =>
    hbefore ((List.dropWhile_suffix _).subset hmem)
  have hafter' : '\x7d' ∉ after.rdropWhile isSpace := fun hmem =>
    hafter ((List.rdropWhile_prefix _ _).subset hmem)
  have hstrip : strip (String.ofList
      (before ++ (encode fr l level (.obj fields) ++ after))) =
        String.ofList (before.dropWhile isSpace ++
          (encode fr l level (.obj fields) ++ after.rdropWhile isSpace)) := by
    have hchars := stripChars_append before mid after
      (by decide : isSpace '\x7b' = false) (by decide : isSpace '\x7d' = false)
    rw [strip, String.toList_ofList, hmid]
    simpa using congrArg String.ofList hchars
  have hne : String.ofList (before.dropWhile isSpace ++
      (encode fr l level (.obj fields) ++ after.rdropWhile isSpace)) ≠ "" := by
    rw [hmid]
    simp
  have hbraces : parseBraces (jsonLoads dec) (String.ofList
      (before.dropWhile isSpace ++ (encode fr l level (.obj fields) ++
        after.rdropWhile isSpace))) = .ok (some fields) := by
    have hcat : before.dropWhile isSpace ++ (encode fr l level (.obj fields) ++
        after.rdropWhile isSpace) = before.dropWhile isSpace ++
          '\x7b' :: (mid ++ '\x7d' :: after.rdropWhile isSpace) := by
      rw [hmid]
      simp
    rw [hcat, parseBraces_append hbefore' hafter', ← hmid,
      jsonLoads_encode hfr l hfields]
    rfl
  -- the whole text is the object alone, or it is not JSON
  have hdecode : decode dec (before.dropWhile isSpace ++
      (encode fr l level (.obj fields) ++ after.rdropWhile isSpace)) =
        .ok (.obj fields) ∨
      decode dec (before.dropWhile isSpace ++
        (encode fr l level (.obj fields) ++ after.rdropWhile isSpace)) =
        .error .malformed := by
    rcases hprose with hblank | hprose
    · rw [hblank]
      exact decode_obj_append hfr l hfields _
    · exact Or.inr (decode_of_startsNoValue hprose)
  rw [tryParseJsonObject, hstrip, if_neg hne]
  rcases hdecode with hok | hmalformed
  · rw [jsonLoads_eq_ok_iff.mpr (by rwa [String.toList_ofList])]
    rfl
  · rw [jsonLoads_eq_jsonDecodeError (by rwa [String.toList_ofList])]
    exact hbraces

/-- An object on lines of its own in a Markdown fence. -/
def fencedFields : List (String × Json) :=
  [("reasoning_weakness", .str "drops a sign"),
    ("trigger_conditions", .arr [.str "long sums", .int 12])]

def fencedText : List Char :=
  "```json\n\x7b\n  \"reasoning_weakness\": \"drops a sign\",\n  \"trigger_conditions\": [\n    \"long sums\",\n    12\n  ]\n\x7d\n``` ".toList

theorem tryParseJsonObject_fencedText :
    tryParseJsonObject (jsonLoads (exactDecoder 4300 100))
      (String.ofList fencedText) = .ok (some fencedFields) := by
  have htext : fencedText = "```json\n".toList ++
      (encode exactRepr (.indented 2) 0 (.obj fencedFields) ++ "\n``` ".toList) := by
    decide
  have hfields : Encodable (exactDecoder 4300 100) 100 (.obj fencedFields) := by
    have hconditions : Encodable (exactDecoder 4300 100) 99
        (.arr [.str "long sums", .int 12]) := by
      rw [encodable_arr]
      exact List.forall_mem_cons.mpr
        ⟨trivial, List.forall_mem_singleton.mpr ((encodable_int 12).mpr (by decide))⟩
    refine (encodable_obj _).mpr ⟨by decide, ?_⟩
    exact List.forall_mem_cons.mpr
      ⟨trivial, List.forall_mem_singleton.mpr hconditions⟩
  have hhead : ∀ cs : List Char, ∀ c ∈ ('\x60' :: cs).head?,
      c ∉ ['"', '[', '\x7b', '-'] ∧ c.isDigit = false ∧ isWhitespace c = false := by
    rintro cs c hc
    obtain rfl := Option.some.inj hc
    decide
  rw [htext]
  exact tryParseJsonObject_embedded (readsFloats_exactDecoder 4300 100) _ 0 hfields
    (by decide) (by decide) (Or.inr ⟨hhead _, by decide⟩)

end TTSR
