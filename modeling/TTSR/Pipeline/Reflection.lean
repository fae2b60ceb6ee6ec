import TTSR.Pipeline.ReflectionJoin

/-!
# Reflection

`reflect.main` behind its call of `generate`: the outputs are parsed, the memory
is updated with the reflections that name a weakness, and four files are
written. The update is made before anything is written, and it loops over two
fields that the check of the parser does not look at, so one reflection with
`null` in such a field takes the whole round with it
(`reflection_completes_iff`).
-/

namespace TTSR.Pipeline.Reflect

open TTSR.Foundation TTSR.Memory

/-- One line of the debug file. -/
structure DebugRow where
  uid : String
  ok : Bool
  raw : String

/-- The exceptions that end the program. -/
inductive ReflectError where
  | loads (exc : LoadsError)
  | update (exc : ErrorKind)
  | unicodeEncodeError
deriving DecidableEq

/-- The four files. -/
structure Files where
  memory : List WeaknessEntry
  strategyNote : String
  reflections : List Reflected
  debug : List DebugRow

section Main

variable {α : Type*} [LE α] [DecidableLE α]

/-- `reflect.main` on the outputs of `generate`, with the memory it loaded.
`encodes` tells whether an object can be written by `json.dumps` as UTF-8; a lone
surrogate and a nesting that is too deep cannot. Memory and note hold nothing of
the reflections that their own file does not hold, so it is asked there. -/
def reflectMain (py : Builtins) (loads : String → Except LoadsError Json)
    (encodes : List (String × Json) → Bool) (cfg : MemoryConfig α)
    (sim : String → String → α) (memoryIn : List WeaknessEntry) (iteration : ℤ)
    (failed : List FailedInstance) (outputs : List String) :
    Except ReflectError Files :=
  match reflect loads failed outputs with
  | .error exc => .error (.loads exc)
  | .ok reflections =>
      match update py cfg sim memoryIn (reflections.map (·.reflection))
        iteration with
      | .error exc => .error (.update exc)
      | .ok entries =>
          if reflections.all fun row => encodes row.reflection then .ok {
            memory := entries
            strategyNote := strategyNote 3 entries
            reflections
            debug := List.zipWith (fun src raw =>
              ⟨src.uid, (parsed loads raw).isSome, raw⟩) failed outputs }
          else .error .unicodeEncodeError

end Main

/-! ## The reflections that are kept -/

section Kept

variable {loads : String → Except LoadsError Json}

theorem reflectOne_ok_iff (raw : String) :
    (∃ obj, reflectOne loads raw = .ok obj) ↔
      ∃ obj, tryParseJsonObject loads raw = .ok obj := by
  rw [reflectOne]
  cases tryParseJsonObject loads raw <;> simp [Except.map]

/-- The loop goes through the outputs of the instances, if all can be read. -/
theorem exists_reflect_iff : ∀ {failed : List FailedInstance}
    {outputs : List String},
    (∃ reflections, reflect loads failed outputs = .ok reflections) ↔
      ∀ raw ∈ outputs.take failed.length,
        ∃ obj, tryParseJsonObject loads raw = .ok obj
  | [], outputs => by simp [reflect]
  | src :: failed, [] => by simp [reflect]
  | src :: failed, raw :: outputs => by
      rw [List.length_cons, List.take_succ_cons, List.forall_mem_cons,
        ← exists_reflect_iff, ← reflectOne_ok_iff]
      constructor
      · rintro ⟨reflections, h⟩
        obtain ⟨obj, rest, hone, hrest, -⟩ := reflect_cons_eq_ok_iff.mp h
        exact ⟨⟨obj, hone⟩, rest, hrest⟩
      · rintro ⟨⟨obj, hone⟩, rest, hrest⟩
        exact ⟨_, reflect_cons_eq_ok_iff.mpr ⟨obj, rest, hone, hrest, rfl⟩⟩

/-- A reflection is kept if one of these outputs parsed to it. -/
theorem mem_reflect : ∀ {failed : List FailedInstance} {outputs : List String}
    {reflections : List Reflected},
    reflect loads failed outputs = .ok reflections →
    ∀ r, r ∈ reflections.map (·.reflection) ↔
      ∃ raw ∈ outputs.take failed.length, reflectOne loads raw = .ok (some r)
  | [], outputs, reflections, h, r => by
      obtain rfl := Except.ok.inj h
      simp
  | src :: failed, [], reflections, h, r => by
      obtain rfl := Except.ok.inj h
      simp
  | src :: failed, raw :: outputs, reflections, h, r => by
      obtain ⟨obj, rest, hone, hrest, rfl⟩ := reflect_cons_eq_ok_iff.mp h
      have ih := mem_reflect hrest r
      rw [List.length_cons, List.take_succ_cons]
      cases obj with
      | none =>
          rw [ih]
          simp [hone]
      | some reflection =>
          rw [List.map_cons, List.mem_cons, ih]
          simp [hone, eq_comm]

end Kept

/-! ## Completion -/

section Complete

variable {α : Type*} [LE α] [DecidableLE α]

theorem exists_update_iff (py : Builtins) (cfg : MemoryConfig α)
    (sim : String → String → α) (entries : List WeaknessEntry) (iteration : ℤ)
    (reflections : List (List (String × Json))) :
    (∃ entries', update py cfg sim entries reflections iteration =
        .ok entries') ↔
      ∀ item ∈ reflections, WellShaped item := by
  constructor
  · rintro ⟨entries', h⟩
    exact wellShaped_of_update h
  · intro hshape
    exact ⟨_, update_eq_ok hshape entries⟩

/-- **Reflection runs to its end** exactly if no output makes `json.loads` raise
anything but a decoding error, and in every reflection that passes the check
both list fields can be looped over and all texts can be encoded. -/
theorem reflection_completes_iff (py : Builtins)
    (loads : String → Except LoadsError Json)
    (encodes : List (String × Json) → Bool) (cfg : MemoryConfig α)
    (sim : String → String → α) (memoryIn : List WeaknessEntry) (iteration : ℤ)
    (failed : List FailedInstance) (outputs : List String) :
    (∃ files, reflectMain py loads encodes cfg sim memoryIn iteration failed
        outputs = .ok files) ↔
      (∀ raw ∈ outputs.take failed.length,
        ∃ obj, tryParseJsonObject loads raw = .ok obj) ∧
      ∀ raw ∈ outputs.take failed.length, ∀ r,
        reflectOne loads raw = .ok (some r) →
          WellShaped r ∧ encodes r = true := by
  rw [← exists_reflect_iff]
  cases hreflect : reflect loads failed outputs with
  | error exc => simp [reflectMain, hreflect]
  | ok reflections =>
      have hkept := mem_reflect hreflect
      have hall : (∀ raw ∈ outputs.take failed.length, ∀ r,
            reflectOne loads raw = .ok (some r) →
              WellShaped r ∧ encodes r = true) ↔
          (∀ r ∈ reflections.map (·.reflection), WellShaped r) ∧
            (reflections.all fun row => encodes row.reflection) = true := by
        constructor
        · intro h
          have hr : ∀ r ∈ reflections.map (·.reflection),
              WellShaped r ∧ encodes r = true := by
            intro r hr
            obtain ⟨raw, hraw, hone⟩ := (hkept r).mp hr
            exact h raw hraw r hone
          exact ⟨fun r hmem => (hr r hmem).1, List.all_eq_true.mpr
            fun row hrow => (hr _ (List.mem_map_of_mem hrow)).2⟩
        · rintro ⟨hshape, hencodes⟩ raw hraw r hone
          have hr := (hkept r).mpr ⟨raw, hraw, hone⟩
          obtain ⟨row, hrow, rfl⟩ := List.mem_map.mp hr
          exact ⟨hshape _ hr, List.all_eq_true.mp hencodes row hrow⟩
      rw [hall, ← exists_update_iff py cfg sim memoryIn iteration, reflectMain,
        hreflect]
      dsimp only
      cases update py cfg sim memoryIn (reflections.map (·.reflection))
          iteration with
      | error exc => simp
      | ok entries =>
          cases reflections.all fun row => encodes row.reflection with
          | false => simp
          | true => simp

end Complete

/-! ## A round that is lost -/

/-- What a Teacher wrote, and the object `json.loads` reads. -/
def goodOutput : String :=
  "\x7b\"reasoning_weakness\": \"sign errors\"\x7d"

def nullOutput : String :=
  "\x7b\"reasoning_weakness\": \"drops cases\", \"trigger_conditions\": null\x7d"

def exampleLoads (text : String) : Except LoadsError Json :=
  if text = goodOutput then
    .ok (.obj [("reasoning_weakness", .str "sign errors")])
  else if text = nullOutput then
    .ok (.obj [("reasoning_weakness", .str "drops cases"),
      ("trigger_conditions", .null)])
  else .error .jsonDecodeError

def exampleInstances : List FailedInstance :=
  [⟨"u1", "Is 91 prime?", "91 is odd, so yes.", "no", .fin 0, "r/1.jsonl"⟩,
   ⟨"u2", "Is 97 prime?", "It is not.", "yes", .fin 0, "r/1.jsonl"⟩]

/-- Two weaknesses are similar if they are equal. -/
def equalSim (a b : String) : ℚ := if a = b then 1 else 0

/-- Two good reflections are written; with `null` for a list in one of them the
other one is lost too. -/
theorem reflection_lost :
    (∃ files, reflectMain Builtins.plain exampleLoads (fun _ => true)
      defaultConfig equalSim [] 1 exampleInstances [goodOutput, goodOutput] =
        .ok files) ∧
    reflectMain Builtins.plain exampleLoads (fun _ => true) defaultConfig
      equalSim [] 1 exampleInstances [goodOutput, nullOutput] =
        .error (.update .typeError) := by
  constructor
  · exact ⟨_, rfl⟩
  · rfl

end TTSR.Pipeline.Reflect
