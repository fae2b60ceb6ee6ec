import TTSR.IoUtils
import TTSR.Memory.Weakness
import TTSR.Pipeline.ExtractFailed

/-!
# From a failed trace to its reflection and back

`reflect` asks the Teacher about every failed instance and writes the
reflections it could parse, each under the uid of its instance. The two programs
that use them, `build_teacher_dataset` and `synthesize`, read them into a
dictionary by uid and look the uid of an instance up in it.

A uid is the uid of a rollout group, and a group can have more than one failed
rollout. The dictionary keeps the last reflection of a uid, so an instance is
joined with its own reflection exactly if the last instance of its uid that
parsed has the same one (`join_right_iff`).
-/

namespace TTSR.Pipeline

open TTSR.Foundation TTSR.Memory

/-! ## The programs -/

/-- A parsed reflection is kept if it names a weakness. -/
def namesWeakness (obj : List (String × Json)) : Bool :=
  !obj.isEmpty &&
    ((Dict.lookupEntries "reasoning_weakness" obj).getD .null).truthy

/-- What the loop of `reflect` makes of one Teacher output. -/
def reflectOne (loads : String → Except LoadsError Json) (raw : String) :
    Except LoadsError (Option (List (String × Json))) :=
  (tryParseJsonObject loads raw).map (·.filter namesWeakness)

/-- One line of `reflections.jsonl`. -/
structure Reflected where
  uid : String
  reflection : List (String × Json)

/-- The loop of `reflect` over the instances and the Teacher's outputs. -/
def reflect (loads : String → Except LoadsError Json) :
    List FailedInstance → List String → Except LoadsError (List Reflected)
  | src :: failed, raw :: outputs => do
      let obj ← reflectOne loads raw
      let reflections ← reflect loads failed outputs
      return match obj with
        | some reflection => ⟨src.uid, reflection⟩ :: reflections
        | none => reflections
  | _, _ => .ok []

/-- `uid_to_reflection`, which both programs build. -/
def uidToReflection (reflections : List Reflected) :
    Dict String (List (String × Json)) :=
  (reflections.filter (·.uid ≠ "")).foldl
    (fun d row => d.set row.uid row.reflection) .empty

/-- The instances a program works on: the first `limit`, or all. -/
def firstInstances (limit : ℤ) (failed : List FailedInstance) :
    List FailedInstance :=
  if 0 < limit then failed.take limit.toNat else failed

/-- The arguments of `synthesis_prompt`, the weakness before it is dumped as
JSON. -/
structure SynthesisPrompt where
  question : String
  failedTrace : String
  weaknessJson : List (String × Json)
  persistentWeaknesses : String

/-- A row of the Teacher dataset. -/
structure TeacherRow where
  prompt : SynthesisPrompt
  index : ℕ
  sourceUid : String
  referenceQuestion : String
  failedTrace : String
  weaknessJson : List (String × Json)

/-- The prompt both programs make for an instance. -/
def promptFor (persistent : String)
    (reflections : Dict String (List (String × Json))) (row : FailedInstance) :
    SynthesisPrompt where
  question := row.question
  failedTrace := row.failedTrace
  weaknessJson := reflections.getD row.uid []
  persistentWeaknesses := persistent

/-- The row `build_teacher_dataset` makes for an instance. -/
def teacherRow (persistent : String)
    (reflections : Dict String (List (String × Json)))
    (p : FailedInstance × ℕ) : TeacherRow where
  prompt := promptFor persistent reflections p.1
  index := p.2
  sourceUid := p.1.uid
  referenceQuestion := p.1.question
  failedTrace := p.1.failedTrace
  weaknessJson := reflections.getD p.1.uid []

/-- `build_teacher_dataset.main` up to `to_parquet`, which brings the
`weakness_json` of the rows to one struct type and refuses them if all of them
are empty. -/
def buildTeacherDataset (memory : List WeaknessEntry)
    (reflections : List Reflected) (maxSamples : ℤ)
    (failed : List FailedInstance) : List TeacherRow :=
  (firstInstances maxSamples failed).zipIdx.map
    (teacherRow (synthesisContext 5 memory) (uidToReflection reflections))

/-- The prompts of `synthesize.main`. -/
def synthesizePrompts (memory : List WeaknessEntry)
    (reflections : List Reflected) (maxVariants : ℤ)
    (failed : List FailedInstance) : List SynthesisPrompt :=
  (firstInstances maxVariants failed).map
    (promptFor (synthesisContext 5 memory) (uidToReflection reflections))

/-! ## The reflection of an instance -/

/-- The reflection parsed from an output, if it parsed. -/
def parsed (loads : String → Except LoadsError Json) (raw : String) :
    Option (List (String × Json)) :=
  match reflectOne loads raw with
  | .ok obj => obj
  | .error _ => none

/-- The reflection of instance `i`: made from its own output. -/
def ownReflection (loads : String → Except LoadsError Json)
    (outputs : List String) (i : ℕ) : Option (List (String × Json)) :=
  outputs[i]?.bind (parsed loads)

/-- The reflection of the last instance of a uid that parsed. -/
def lastReflection (loads : String → Except LoadsError Json) (uid : String) :
    List FailedInstance → List String → Option (List (String × Json))
  | src :: failed, raw :: outputs =>
      (lastReflection loads uid failed outputs).or
        (if src.uid = uid then parsed loads raw else none)
  | _, _ => none

section Join

variable {loads : String → Except LoadsError Json}

theorem parsed_ne_nil {raw : String} {r : List (String × Json)}
    (h : parsed loads raw = some r) : r ≠ [] := by
  unfold parsed reflectOne at h
  cases hobj : tryParseJsonObject loads raw with
  | error exc => rw [hobj] at h; cases h
  | ok obj =>
      rw [hobj] at h
      have hfilter : obj.filter namesWeakness = some r := h
      rw [Option.filter_eq_some_iff] at hfilter
      intro hnil
      rw [hnil] at hfilter
      exact absurd hfilter.2 (by decide)

theorem ownReflection_ne_nil {outputs : List String} {i : ℕ}
    {r : List (String × Json)} (h : ownReflection loads outputs i = some r) :
    r ≠ [] := by
  obtain ⟨raw, -, hraw⟩ := Option.bind_eq_some_iff.mp h
  exact parsed_ne_nil hraw

/-- Nothing parsed for a uid, exactly if no instance of it did. -/
theorem lastReflection_eq_none_iff {uid : String} {failed : List FailedInstance}
    {outputs : List String} :
    lastReflection loads uid failed outputs = none ↔
      ∀ (j : ℕ) (src : FailedInstance), failed[j]? = some src → src.uid = uid →
        ownReflection loads outputs j = none := by
  induction failed generalizing outputs with
  | nil => simp [lastReflection]
  | cons src failed ih =>
      cases outputs with
      | nil => simp [lastReflection, ownReflection]
      | cons raw outputs =>
          rw [lastReflection, Option.or_eq_none_iff, ih]
          constructor
          · rintro ⟨htail, hhead⟩ (_ | j) src' hsrc huid
            · obtain rfl : src = src' := by simpa using hsrc
              rw [if_pos huid] at hhead
              simpa [ownReflection] using hhead
            · have hown := htail j src' (by simpa using hsrc) huid
              simpa [ownReflection] using hown
          · intro hall
            refine ⟨?_, ?_⟩
            · intro j src' hsrc huid
              have hown := hall (j + 1) src' (by simpa using hsrc) huid
              simpa [ownReflection] using hown
            · split_ifs with huid
              · have hown := hall 0 src (by simp) huid
                simpa [ownReflection] using hown
              · rfl

/-- The last reflection of a uid is that of an instance after which none of the
uid parsed. -/
theorem lastReflection_eq_some_iff {uid : String} {failed : List FailedInstance}
    {outputs : List String} {r : List (String × Json)} :
    lastReflection loads uid failed outputs = some r ↔
      ∃ (j : ℕ) (src : FailedInstance), failed[j]? = some src ∧ src.uid = uid ∧
        ownReflection loads outputs j = some r ∧
        ∀ (k : ℕ) (src' : FailedInstance), j < k → failed[k]? = some src' →
          src'.uid = uid → ownReflection loads outputs k = none := by
  induction failed generalizing outputs with
  | nil => simp [lastReflection]
  | cons src failed ih =>
      cases outputs with
      | nil => simp [lastReflection, ownReflection]
      | cons raw outputs =>
          -- the tail decides, and the head only if nothing there parsed
          rw [lastReflection, Option.or_eq_some_iff, ih,
            lastReflection_eq_none_iff]
          constructor
          · rintro (⟨j, src', hsrc, huid, hown, hlater⟩ | ⟨hnone, hhead⟩)
            · refine ⟨j + 1, src', by simpa using hsrc, huid,
                by simpa [ownReflection] using hown, ?_⟩
              rintro (_ | k) src'' hjk hsrc'' huid''
              · omega
              · have hnone := hlater k src'' (by omega) (by simpa using hsrc'')
                  huid''
                simpa [ownReflection] using hnone
            · split_ifs at hhead with huid
              refine ⟨0, src, by simp, huid,
                by simpa [ownReflection] using hhead, ?_⟩
              rintro (_ | k) src'' hjk hsrc'' huid''
              · omega
              · have hnone' := hnone k src'' (by simpa using hsrc'') huid''
                simpa [ownReflection] using hnone'
          · rintro ⟨_ | j, src', hsrc, huid, hown, hlater⟩
            · obtain rfl : src = src' := by simpa using hsrc
              refine Or.inr ⟨?_, ?_⟩
              · intro k src'' hsrc'' huid''
                have hnone := hlater (k + 1) src'' (by omega)
                  (by simpa using hsrc'') huid''
                simpa [ownReflection] using hnone
              · rw [if_pos huid]
                simpa [ownReflection] using hown
            · refine Or.inl ⟨j, src', by simpa using hsrc, huid,
                by simpa [ownReflection] using hown, ?_⟩
              intro k src'' hjk hsrc'' huid''
              have hnone := hlater (k + 1) src'' (by omega)
                (by simpa using hsrc'') huid''
              simpa [ownReflection] using hnone

/-- One round of the loop. -/
theorem reflect_cons_eq_ok_iff {src : FailedInstance}
    {failed : List FailedInstance} {raw : String} {outputs : List String}
    {reflections : List Reflected} :
    reflect loads (src :: failed) (raw :: outputs) = .ok reflections ↔
      ∃ obj rest, reflectOne loads raw = .ok obj ∧
        reflect loads failed outputs = .ok rest ∧
        reflections = match obj with
          | some reflection => ⟨src.uid, reflection⟩ :: rest
          | none => rest := by
  rw [reflect]
  constructor
  · intro h
    obtain ⟨obj, hone, h⟩ := bind_eq_ok_iff.mp h
    obtain ⟨rest, hrest, h⟩ := bind_eq_ok_iff.mp h
    exact ⟨obj, rest, hone, hrest, (Except.ok.inj h).symm⟩
  · rintro ⟨obj, rest, hone, hrest, rfl⟩
    exact bind_eq_ok_iff.mpr ⟨obj, hone, bind_eq_ok_iff.mpr ⟨rest, hrest, rfl⟩⟩

/-- The rows `reflect` writes for a uid end with its last reflection. -/
theorem getLast?_reflect {uid : String} {failed : List FailedInstance}
    {outputs : List String} {reflections : List Reflected}
    (h : reflect loads failed outputs = .ok reflections) :
    ((reflections.filter (·.uid = uid)).getLast?).map (·.reflection) =
      lastReflection loads uid failed outputs := by
  induction failed generalizing outputs reflections with
  | nil =>
      obtain rfl := Except.ok.inj h
      rfl
  | cons src failed ih =>
      cases outputs with
      | nil =>
          obtain rfl := Except.ok.inj h
          rfl
      | cons raw outputs =>
          obtain ⟨obj, rest, hone, hrest, rfl⟩ := reflect_cons_eq_ok_iff.mp h
          have hparsed : parsed loads raw = obj := by rw [parsed, hone]
          rw [lastReflection, ← ih hrest, hparsed]
          cases obj with
          | none => simp
          | some reflection =>
              by_cases huid : src.uid = uid
              · rw [List.filter_cons_of_pos (by simpa using huid),
                  List.getLast?_cons, if_pos huid]
                cases (rest.filter (·.uid = uid)).getLast? <;> rfl
              · rw [List.filter_cons_of_neg (by simpa using huid),
                  if_neg huid, Option.or_none]

/-- What a program finds under a uid is the last reflection of that uid. -/
theorem get?_uidToReflection {uid : String} (hne : uid ≠ "")
    {failed : List FailedInstance} {outputs : List String}
    {reflections : List Reflected}
    (h : reflect loads failed outputs = .ok reflections) :
    (uidToReflection reflections).get? uid =
      lastReflection loads uid failed outputs := by
  have hfilter : (reflections.filter (·.uid ≠ "")).filter (·.uid = uid) =
      reflections.filter (·.uid = uid) := by
    rw [List.filter_filter]
    apply List.filter_congr
    intro row _
    by_cases huid : row.uid = uid
    · simp [huid, hne]
    · simp [huid]
  rw [uidToReflection, Dict.get?_foldl_set, hfilter, getLast?_reflect h,
    Dict.get?_empty, Option.or_none]

end Join

/-! ## When the join is right -/

/-- Every row and every prompt carries the reflection of its own instance, or
the empty object if that did not parse. -/
structure JoinedRight (loads : String → Except LoadsError Json)
    (outputs : List String) (rows : List TeacherRow)
    (prompts : List SynthesisPrompt) : Prop where
  extraInfo : ∀ (i : ℕ) (row : TeacherRow), rows[i]? = some row →
    row.weaknessJson = (ownReflection loads outputs i).getD []
  rowPrompt : ∀ (i : ℕ) (row : TeacherRow), rows[i]? = some row →
    row.prompt.weaknessJson = (ownReflection loads outputs i).getD []
  prompt : ∀ (i : ℕ) (p : SynthesisPrompt), prompts[i]? = some p →
    p.weaknessJson = (ownReflection loads outputs i).getD []

/-- The last instance of the uid of `i` whose output parsed, if there is one,
has the same reflection as `i`. -/
def AgreesWithLast (loads : String → Except LoadsError Json)
    (outputs : List String) (failed : List FailedInstance) (i : ℕ) : Prop :=
  ∀ (j : ℕ) (src src' : FailedInstance), failed[i]? = some src →
    failed[j]? = some src' → src'.uid = src.uid →
    ownReflection loads outputs j ≠ none →
    (∀ (k : ℕ) (src'' : FailedInstance), j < k → failed[k]? = some src'' →
      src''.uid = src.uid → ownReflection loads outputs k = none) →
    ownReflection loads outputs i = ownReflection loads outputs j

section Right

variable {loads : String → Except LoadsError Json} {outputs : List String}
  {failed : List FailedInstance}

theorem agreesWithLast_iff {i : ℕ} {src : FailedInstance}
    (hsrc : failed[i]? = some src) :
    AgreesWithLast loads outputs failed i ↔
      ownReflection loads outputs i =
        lastReflection loads src.uid failed outputs := by
  cases hlast : lastReflection loads src.uid failed outputs with
  | none =>
      have hnone := lastReflection_eq_none_iff.mp hlast
      rw [hnone i src hsrc rfl]
      refine ⟨fun _ => rfl, fun _ => ?_⟩
      intro j src₀ src' hsrc₀ hsrc' huid hparsed
      obtain rfl : src = src₀ := Option.some.inj (hsrc.symm.trans hsrc₀)
      exact absurd (hnone j src' hsrc' huid) hparsed
  | some r =>
      constructor
      · intro hagrees
        obtain ⟨j, src', hsrc', huid, hown, hlater⟩ :=
          lastReflection_eq_some_iff.mp hlast
        rw [← hown]
        exact hagrees j src src' hsrc hsrc' huid (by rw [hown]; simp) hlater
      · intro hown j src₀ src' hsrc₀ hsrc' huid hparsed hlater
        obtain rfl : src = src₀ := Option.some.inj (hsrc.symm.trans hsrc₀)
        obtain ⟨r', hr'⟩ := Option.ne_none_iff_exists'.mp hparsed
        -- both are the last reflection of the uid
        have hlast' : lastReflection loads src.uid failed outputs = some r' :=
          lastReflection_eq_some_iff.mpr
            ⟨j, src', hsrc', huid, hr', hlater⟩
        rw [hown, hr', ← hlast, hlast']

/-- What is looked up for an instance is its own reflection exactly if that is
the last one of its uid. -/
theorem lookup_right_iff {reflections : List Reflected} {i : ℕ}
    {src : FailedInstance} (huid : ∀ x ∈ failed, x.uid ≠ "")
    (h : reflect loads failed outputs = .ok reflections)
    (hsrc : failed[i]? = some src) :
    (uidToReflection reflections).getD src.uid [] =
        (ownReflection loads outputs i).getD [] ↔
      AgreesWithLast loads outputs failed i := by
  have hne := huid src (List.mem_of_getElem? hsrc)
  rw [agreesWithLast_iff hsrc, Dict.getD, get?_uidToReflection hne h]
  cases hlast : lastReflection loads src.uid failed outputs with
  | none =>
      have hown := lastReflection_eq_none_iff.mp hlast i src hsrc rfl
      simp [hown]
  | some r =>
      obtain ⟨j, -, -, -, hj, -⟩ := lastReflection_eq_some_iff.mp hlast
      have hr := ownReflection_ne_nil hj
      cases hown : ownReflection loads outputs i with
      | none => simpa using hr
      | some r' => simp [eq_comm]

theorem getElem?_firstInstances {limit : ℤ} {i : ℕ}
    (hi : i < (firstInstances limit failed).length) :
    (firstInstances limit failed)[i]? = failed[i]? := by
  unfold firstInstances at hi ⊢
  split_ifs at hi ⊢ with hlimit
  · rw [List.length_take] at hi
    exact List.getElem?_take_of_lt (by omega)
  · rfl

theorem firstInstances_some {limit : ℤ} {i : ℕ} {src : FailedInstance}
    (h : (firstInstances limit failed)[i]? = some src) :
    i < (firstInstances limit failed).length ∧ failed[i]? = some src := by
  have hlt := (List.getElem?_eq_some_iff.mp h).1
  exact ⟨hlt, (getElem?_firstInstances hlt).symm.trans h⟩

theorem exists_firstInstances {limit : ℤ} {i : ℕ}
    (hi : i < (firstInstances limit failed).length) :
    ∃ src, (firstInstances limit failed)[i]? = some src ∧
      failed[i]? = some src := by
  obtain ⟨src, hsrc⟩ := Option.isSome_iff_exists.mp
    (by simpa using hi : (firstInstances limit failed)[i]?.isSome = true)
  exact ⟨src, hsrc, (firstInstances_some hsrc).2⟩

/-- The join, instance by instance. -/
theorem joinedRight_iff {reflections : List Reflected}
    (huid : ∀ x ∈ failed, x.uid ≠ "")
    (h : reflect loads failed outputs = .ok reflections)
    (memory : List WeaknessEntry) (maxSamples maxVariants : ℤ) :
    JoinedRight loads outputs
        (buildTeacherDataset memory reflections maxSamples failed)
        (synthesizePrompts memory reflections maxVariants failed) ↔
      ∀ i, (i < (firstInstances maxSamples failed).length ∨
        i < (firstInstances maxVariants failed).length) →
        AgreesWithLast loads outputs failed i := by
  constructor
  · intro hright i hi
    -- row `i` and prompt `i` are made from instance `i`
    rcases hi with hi | hi
    · obtain ⟨src, hfirst, hsrc⟩ := exists_firstInstances hi
      have hrow : (buildTeacherDataset memory reflections maxSamples
          failed)[i]? = some (teacherRow (synthesisContext 5 memory)
            (uidToReflection reflections) (src, i)) := by
        rw [buildTeacherDataset, List.getElem?_map, List.getElem?_zipIdx, hfirst]
        simp
      exact (lookup_right_iff huid h hsrc).mp (hright.extraInfo i _ hrow)
    · obtain ⟨src, hfirst, hsrc⟩ := exists_firstInstances hi
      have hprompt : (synthesizePrompts memory reflections maxVariants
          failed)[i]? = some (promptFor (synthesisContext 5 memory)
            (uidToReflection reflections) src) := by
        rw [synthesizePrompts, List.getElem?_map, hfirst]
        rfl
      exact (lookup_right_iff huid h hsrc).mp (hright.prompt i _ hprompt)
  · intro hagrees
    have hrow : ∀ (i : ℕ) (row : TeacherRow),
        (buildTeacherDataset memory reflections maxSamples failed)[i]? =
          some row → row.weaknessJson = (ownReflection loads outputs i).getD [] ∧
          row.prompt.weaknessJson = row.weaknessJson := by
      intro i row hi
      rw [buildTeacherDataset, List.getElem?_map, List.getElem?_zipIdx,
        Option.map_map, Option.map_eq_some_iff] at hi
      obtain ⟨src, hfirst, rfl⟩ := hi
      obtain ⟨hlt, hsrc⟩ := firstInstances_some hfirst
      exact ⟨(lookup_right_iff huid h hsrc).mpr (hagrees i (Or.inl hlt)), rfl⟩
    refine ⟨fun i row hi => (hrow i row hi).1, ?_, ?_⟩
    · intro i row hi
      obtain ⟨hinfo, hprompt⟩ := hrow i row hi
      rw [hprompt, hinfo]
    · intro i p hi
      rw [synthesizePrompts, List.getElem?_map, Option.map_eq_some_iff] at hi
      obtain ⟨src, hfirst, rfl⟩ := hi
      obtain ⟨hlt, hsrc⟩ := firstInstances_some hfirst
      exact (lookup_right_iff huid h hsrc).mpr (hagrees i (Or.inr hlt))

/-- All instances agree with the last of their uid exactly if the instances of
one uid all have one reflection. -/
theorem agreesWithLast_all_iff :
    (∀ i, i < failed.length → AgreesWithLast loads outputs failed i) ↔
      ∀ (i j : ℕ) (src src' : FailedInstance), failed[i]? = some src →
        failed[j]? = some src' → src'.uid = src.uid →
        ownReflection loads outputs i = ownReflection loads outputs j := by
  constructor
  · intro hall i j src src' hsrc hsrc' huid
    have hi := (List.getElem?_eq_some_iff.mp hsrc).1
    have hj := (List.getElem?_eq_some_iff.mp hsrc').1
    rw [(agreesWithLast_iff hsrc).mp (hall i hi),
      (agreesWithLast_iff hsrc').mp (hall j hj), huid]
  · intro hsame i _ j src src' hsrc hsrc' huid _ _
    exact hsame i j src src' hsrc hsrc' huid

end Right

/-- **The join by uid.** On the output of `extract_failed` and any Teacher
outputs, the rows and prompts carry the reflections of their own instances
exactly if each used instance has the reflection of the last parsed instance of
its uid; for rows of all instances, exactly if instances of one uid never differ
in their reflections. -/
theorem join_right_iff {py : Builtins} {loads : String → Except LoadsError Json}
    {files : List DumpFile} {limit : ℤ} {rewardThreshold : ℚ}
    {failed : List FailedInstance} {outputs : List String}
    {reflections : List Reflected}
    (hfailed : extractFailed py files limit rewardThreshold = .ok failed)
    (hreflect : reflect loads failed outputs = .ok reflections)
    (memory : List WeaknessEntry) (maxSamples maxVariants : ℤ) :
    (JoinedRight loads outputs
        (buildTeacherDataset memory reflections maxSamples failed)
        (synthesizePrompts memory reflections maxVariants failed) ↔
      ∀ i, (i < (firstInstances maxSamples failed).length ∨
        i < (firstInstances maxVariants failed).length) →
        AgreesWithLast loads outputs failed i) ∧
    (JoinedRight loads outputs
        (buildTeacherDataset memory reflections 0 failed)
        (synthesizePrompts memory reflections maxVariants failed) ↔
      ∀ (i j : ℕ) (src src' : FailedInstance), failed[i]? = some src →
        failed[j]? = some src' → src'.uid = src.uid →
        ownReflection loads outputs i = ownReflection loads outputs j) := by
  have huid := extractFailed_uid hfailed
  refine ⟨joinedRight_iff huid hreflect memory maxSamples maxVariants, ?_⟩
  rw [joinedRight_iff huid hreflect memory 0 maxVariants,
    ← agreesWithLast_all_iff]
  have hall : firstInstances 0 failed = failed := rfl
  constructor
  · intro hagrees i hi
    exact hagrees i (Or.inl (by rw [hall]; exact hi))
  · intro hagrees i hi
    apply hagrees i
    rcases hi with hi | hi
    · rwa [hall] at hi
    · obtain ⟨src, -, hsrc⟩ := exists_firstInstances hi
      exact (List.getElem?_eq_some_iff.mp hsrc).1

/-! ## Two failed rollouts of one group -/

def exampleRow (trace : String) : List (String × Json) :=
  [("input", .str "Question: 1 + 1 = ?"), ("output", .str trace),
   ("score", .float (.fin 0)), ("group_uid", .str "g"),
   ("pseudo_target", .str "2")]

def exampleFiles : List DumpFile :=
  [⟨"1", "rollout_data/1.jsonl", [exampleRow "a guess", exampleRow "3"]⟩]

def exampleOutput (weakness : String) : String :=
  "\x7b\"reasoning_weakness\": \"" ++ weakness ++ "\"\x7d"

/-- A loader for the example outputs. -/
def exampleLoads (text : String) : Except LoadsError Json :=
  if text = exampleOutput "guesses" then
    .ok (.obj [("reasoning_weakness", .str "guesses")])
  else if text = exampleOutput "miscounts" then
    .ok (.obj [("reasoning_weakness", .str "miscounts")])
  else .error .jsonDecodeError

def exampleFailed : List FailedInstance :=
  [⟨"g", "1 + 1 = ?", "a guess", "2", .fin 0, "rollout_data/1.jsonl"⟩,
   ⟨"g", "1 + 1 = ?", "3", "2", .fin 0, "rollout_data/1.jsonl"⟩]

theorem join_right_iff_exampleFailed :
    JoinedRight exampleLoads [exampleOutput "guesses", exampleOutput "guesses"]
      (buildTeacherDataset []
        [⟨"g", [("reasoning_weakness", .str "guesses")]⟩,
          ⟨"g", [("reasoning_weakness", .str "guesses")]⟩] 0 exampleFailed)
      (synthesizePrompts []
        [⟨"g", [("reasoning_weakness", .str "guesses")]⟩,
          ⟨"g", [("reasoning_weakness", .str "guesses")]⟩] 8 exampleFailed) := by
  have hfailed : extractFailed Builtins.plain exampleFiles 64 0 =
      .ok exampleFailed := by decide +kernel
  apply (join_right_iff hfailed rfl [] 0 8).2.mpr
  intro i j src src' hsrc hsrc' _
  have hi := (List.getElem?_eq_some_iff.mp hsrc).1
  have hj := (List.getElem?_eq_some_iff.mp hsrc').1
  have hown : ∀ k, k < exampleFailed.length → ownReflection exampleLoads
      [exampleOutput "guesses", exampleOutput "guesses"] k =
      some [("reasoning_weakness", .str "guesses")] := by
    rintro (_ | _ | k) hk
    · rfl
    · rfl
    · exact absurd hk (by simp [exampleFailed])
  rw [hown i hi, hown j hj]

/-- The first trace of the group gets the reflection of the second. -/
theorem join_wrong_exampleFailed :
    extractFailed Builtins.plain exampleFiles 64 0 = .ok exampleFailed ∧
    ∃ reflections, reflect exampleLoads exampleFailed
        [exampleOutput "guesses", exampleOutput "miscounts"] =
      .ok reflections ∧
    ¬ JoinedRight exampleLoads
      [exampleOutput "guesses", exampleOutput "miscounts"]
      (buildTeacherDataset [] reflections 0 exampleFailed)
      (synthesizePrompts [] reflections 8 exampleFailed) := by
  refine ⟨by decide +kernel, _, rfl, ?_⟩
  intro hright
  have hfirst := hright.extraInfo 0 _ rfl
  have hwrong : [("reasoning_weakness", Json.str "miscounts")] =
      [("reasoning_weakness", Json.str "guesses")] := hfirst
  simp at hwrong

end TTSR.Pipeline
