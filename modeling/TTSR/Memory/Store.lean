import TTSR.JsonRows
import TTSR.Memory.Weakness

/-!
# The memory on disk

`WeaknessMemory.save` writes the entries as a JSON array of objects, and `load`
makes entries of them again. The constructor of an entry checks the names of its
fields and not their types, so what is loaded from an arbitrary file is a
`StoredEntry`. What was saved is loaded as it was (`load_save`).
-/

namespace TTSR.Memory

open TTSR.Foundation TTSR.Foundation.JsonText TTSR.Foundation.JsonDecode
open TTSR.Foundation.TextFile TTSR.Foundation.DecimalFloat

/-- An entry with whatever values its fields were given. -/
structure StoredEntry where
  reasoningWeakness : Json
  triggerConditions : Json
  failureSignature : Json
  localizationSummary : Json
  firstSeen : Json
  lastSeen : Json
  persistence : Json

/-- `asdict(x)`. -/
def asdict (e : WeaknessEntry) : List (String × Json) :=
  [("reasoning_weakness", .str e.reasoningWeakness),
    ("trigger_conditions", .arr (e.triggerConditions.map .str)),
    ("failure_signature", .arr (e.failureSignature.map .str)),
    ("localization_summary", .str e.localizationSummary),
    ("first_seen", .int e.firstSeen),
    ("last_seen", .int e.lastSeen),
    ("persistence", .int e.persistence)]

/-- The names of the fields of an entry. -/
def entryFields : List String :=
  ["reasoning_weakness", "trigger_conditions", "failure_signature",
    "localization_summary", "first_seen", "last_seen", "persistence"]

/-- The argument a field is given; `TypeError` if it is missing. -/
def requiredField (fields : List (String × Json)) (name : String) :
    Except ErrorKind Json :=
  match Dict.lookupEntries name fields with
  | some x => .ok x
  | none => .error .typeError

/-- `WeaknessEntry(**x)`. -/
def ofDict : Json → Except ErrorKind StoredEntry
  | .obj fields => do
      -- an unexpected keyword argument
      if fields.any (·.1 ∉ entryFields) then throw .typeError
      let reasoningWeakness ← requiredField fields "reasoning_weakness"
      let triggerConditions ← requiredField fields "trigger_conditions"
      let failureSignature ← requiredField fields "failure_signature"
      let localizationSummary ← requiredField fields "localization_summary"
      let firstSeen ← requiredField fields "first_seen"
      let lastSeen ← requiredField fields "last_seen"
      return {
        reasoningWeakness, triggerConditions, failureSignature
        localizationSummary, firstSeen, lastSeen
        persistence := (Dict.lookupEntries "persistence" fields).getD (.int 1) }
  | _ => .error .typeError

/-- Why a file is not loaded. -/
inductive LoadError where
  | loads (exc : LoadsError)
  | entry (exc : ErrorKind)
deriving DecidableEq

/-- `WeaknessMemory.load` from the text of a file that exists. -/
def load (dec : Decoder) (file : List Char) :
    Except LoadError (List StoredEntry) :=
  match jsonLoads dec (String.ofList (readText file)) with
  | .error exc => .error (.loads exc)
  | .ok raw => (raw.iterate >>= fun xs => xs.mapM ofDict).mapError .entry

/-- The integers of an entry that the interpreter can write. -/
def printable (maxDigits : ℕ) (e : WeaknessEntry) : Bool :=
  [e.firstSeen, e.lastSeen, e.persistence].all fun n =>
    (Nat.toDigits 10 n.natAbs).length ≤ maxDigits

/-- The text `WeaknessMemory.save` writes. -/
def save (fr : FloatRepr) (maxDigits : ℕ) (entries : List WeaknessEntry) :
    Except ErrorKind (List Char) :=
  if entries.all (printable maxDigits) then
    .ok (encode fr (.indented 2) 0 (.arr (entries.map fun e => .obj (asdict e))))
  else .error .valueError

/-! ## Loading what was saved -/

/-- An entry whose fields have the types they are annotated with. -/
def WeaknessEntry.stored (e : WeaknessEntry) : StoredEntry where
  reasoningWeakness := .str e.reasoningWeakness
  triggerConditions := .arr (e.triggerConditions.map .str)
  failureSignature := .arr (e.failureSignature.map .str)
  localizationSummary := .str e.localizationSummary
  firstSeen := .int e.firstSeen
  lastSeen := .int e.lastSeen
  persistence := .int e.persistence

theorem ofDict_asdict (e : WeaknessEntry) :
    ofDict (.obj (asdict e)) = .ok e.stored := rfl

theorem encodable_asdict {dec : Decoder} {depth : ℕ} {e : WeaknessEntry}
    (h : printable dec.maxDigits e = true) :
    Encodable dec (depth + 2) (.obj (asdict e)) := by
  simp only [printable, List.all_cons, List.all_nil, Bool.and_true,
    Bool.and_eq_true, decide_eq_true_eq] at h
  obtain ⟨hfirst, hlast, hpersistence⟩ := h
  have hstrs : ∀ texts : List String,
      Encodable dec (depth + 1) (.arr (texts.map .str)) := by
    intro texts
    rw [encodable_arr]
    intro x hx
    obtain ⟨text, -, rfl⟩ := List.mem_map.mp hx
    exact encodable_str text
  have hnodup : ((asdict e).map Prod.fst).Nodup := by
    show entryFields.Nodup
    decide
  refine (encodable_obj _).mpr ⟨hnodup, ?_⟩
  simp [asdict, hstrs, hfirst, hlast, hpersistence]

/-- **What was saved is loaded.** -/
theorem load_save {fr : FloatRepr} {dec : Decoder} (hfr : ReadsFloats fr dec)
    (hdepth : 3 ≤ dec.maxDepth) {entries : List WeaknessEntry}
    {file : List Char} (h : save fr dec.maxDigits entries = .ok file) :
    load dec file = .ok (entries.map WeaknessEntry.stored) := by
  rw [save] at h
  split_ifs at h with hprintable
  obtain rfl := Except.ok.inj h
  obtain ⟨depth, hdec⟩ : ∃ depth, dec.maxDepth = depth + 3 :=
    ⟨dec.maxDepth - 3, by omega⟩
  have hencodable : Encodable dec dec.maxDepth
      (.arr (entries.map fun e => .obj (asdict e))) := by
    rw [hdec, encodable_arr]
    intro x hx
    obtain ⟨e, he, rfl⟩ := List.mem_map.mp hx
    exact encodable_asdict (List.all_eq_true.mp hprintable e he)
  have hreturn : '\r' ∉ encode fr (.indented 2) 0
      (.arr (entries.map fun e => .obj (asdict e))) :=
    notMem_encode (noReturn_indented 2) 0 _
  have hread := readText_eq_self hreturn
  have hentries : (entries.map fun e => Json.obj (asdict e)).mapM ofDict =
      .ok (entries.map WeaknessEntry.stored) := by
    rw [mapM_eq_ok_iff, List.forall₂_map_left_iff, List.forall₂_map_right_iff,
      List.forall₂_same]
    exact fun e _ => ofDict_asdict e
  rw [load, hread, jsonLoads_encode hfr _ hencodable]
  show (((entries.map fun e => Json.obj (asdict e)).mapM ofDict).mapError
    LoadError.entry) = _
  rw [hentries]
  rfl

end TTSR.Memory
