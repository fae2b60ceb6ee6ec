import TTSR.Reward.MajorityManager
import TTSR.Reward.TeacherManager

/-!
# The schema of `reward_extra_info`

The agent loop turns the `reward_extra_info` dictionaries of a batch into
columns. It takes the keys of the first dictionary and looks every one of them
up in every dictionary: a key that another dictionary lacks is a `KeyError`, and
a key that only another dictionary has is dropped.

Each manager writes its dictionary in more than one place, and not with the
same keys. `uniform_schema_iff` says which batches survive: those whose rollouts
were all resolved by the same kind of dictionary.
-/

namespace TTSR.Reward

open TTSR.Foundation TTSR.Foundation.Batching TTSR.Foundation.Futures

/-! ## `_postprocess` -/

/-- `info[key]`. -/
def index (info : List (String × Json)) (key : String) :
    Except ErrorKind Json :=
  match Dict.lookupEntries key info with
  | some v => .ok v
  | none => .error .keyError

/-- The part of `_postprocess` that collects `reward_extra_info`. -/
def postprocess : List (List (String × Json)) →
    Except ErrorKind (List (String × List Json))
  | [] => .error .indexError
  | first :: infos => (first.map Prod.fst).mapM fun key =>
      ((first :: infos).mapM fun info => index info key).map (key, ·)

/-- All dictionaries carry the same set of keys. -/
def Uniform (infos : List (List (String × Json))) : Prop :=
  ∀ a ∈ infos, ∀ b ∈ infos, ∀ key,
    key ∈ a.map Prod.fst ↔ key ∈ b.map Prod.fst

/-- The columns exist, and every key of every dictionary is one of them. -/
def Lossless (infos : List (List (String × Json))) : Prop :=
  ∃ cols, postprocess infos = .ok cols ∧
    ∀ info ∈ infos, ∀ key ∈ info.map Prod.fst, key ∈ cols.map Prod.fst

theorem index_ok_iff {info : List (String × Json)} {key : String} :
    (∃ v, index info key = .ok v) ↔ key ∈ info.map Prod.fst := by
  unfold index
  cases h : Dict.lookupEntries key info with
  | none => simpa using Dict.lookupEntries_eq_none_iff.mp h
  | some v =>
      have hmem := List.mem_map_of_mem (f := Prod.fst)
        (Dict.mem_of_lookupEntries h)
      exact ⟨fun _ => hmem, fun _ => ⟨v, rfl⟩⟩

/-- The columns are those of the first dictionary. -/
theorem map_fst_postprocess {first : List (String × Json)}
    {infos : List (List (String × Json))} {cols : List (String × List Json)}
    (h : postprocess (first :: infos) = .ok cols) :
    cols.map Prod.fst = first.map Prod.fst := by
  rw [postprocess, mapM_eq_ok_iff] at h
  generalize first.map Prod.fst = keys at h ⊢
  induction h with
  | nil => rfl
  | @cons key col keys cols hcol _ ih =>
      rw [List.map_cons, ih]
      congr 1
      cases hv : (first :: infos).mapM fun info => index info key with
      | error exc => rw [hv] at hcol; cases hcol
      | ok vs => rw [hv] at hcol; cases hcol; rfl

theorem postprocess_ok_iff {first : List (String × Json)}
    {infos : List (List (String × Json))} :
    (∃ cols, postprocess (first :: infos) = .ok cols) ↔
      ∀ key ∈ first.map Prod.fst, ∀ info ∈ first :: infos,
        key ∈ info.map Prod.fst := by
  rw [postprocess, exists_mapM_eq_ok_iff]
  refine forall₂_congr fun key _ => ?_
  simp only [← index_ok_iff]
  rw [← exists_mapM_eq_ok_iff]
  cases (first :: infos).mapM fun info => index info key <;> simp [Except.map]

/-- The columns are complete exactly for dictionaries with the same keys. -/
theorem lossless_iff_uniform {infos : List (List (String × Json))}
    (hne : infos ≠ []) : Lossless infos ↔ Uniform infos := by
  obtain ⟨first, rest, rfl⟩ := List.exists_cons_of_ne_nil hne
  constructor
  · rintro ⟨cols, hok, hall⟩
    have hsub := postprocess_ok_iff.mp ⟨cols, hok⟩
    rw [map_fst_postprocess hok] at hall
    exact fun a ha b hb key => ⟨fun hk => hsub key (hall a ha key hk) b hb,
      fun hk => hsub key (hall b hb key hk) a ha⟩
  · intro huni
    have hfirst : first ∈ first :: rest := List.mem_cons_self
    obtain ⟨cols, hok⟩ := postprocess_ok_iff.mpr
      fun key hk info hinfo => (huni first hfirst info hinfo key).mp hk
    refine ⟨cols, hok, fun info hinfo key hk => ?_⟩
    rw [map_fst_postprocess hok]
    exact (huni info hinfo first hfirst key).mp hk

/-- Two kinds of dictionaries told apart by a key: a batch is uniform exactly
when all its dictionaries are of one kind. -/
theorem uniform_iff_of_kinds {α : Type*} {keys : α → List (String × Json)}
    {kind : α → Bool} (yes no : List String) (k : String)
    (hyes : ∀ x, kind x = true → (keys x).map Prod.fst = yes)
    (hno : ∀ x, kind x = false → (keys x).map Prod.fst = no)
    (hk : k ∈ yes) (hk' : k ∉ no) (xs : List α) :
    Uniform (xs.map keys) ↔
      (∀ x ∈ xs, kind x = true) ∨ (∀ x ∈ xs, kind x = false) := by
  constructor
  · intro huni
    by_cases hall : ∀ x ∈ xs, kind x = true
    · exact Or.inl hall
    · push Not at hall
      obtain ⟨x, hx, hkx⟩ := hall
      rw [ne_eq, Bool.not_eq_true] at hkx
      refine Or.inr fun y hy => ?_
      by_contra hky
      rw [Bool.not_eq_false] at hky
      have hiff := huni _ (List.mem_map_of_mem hx) _ (List.mem_map_of_mem hy) k
      rw [hno x hkx, hyes y hky] at hiff
      exact hk' (hiff.mpr hk)
  · rintro (hall | hall) a ha b hb key
    · obtain ⟨x, hx, rfl⟩ := List.mem_map.mp ha
      obtain ⟨y, hy, rfl⟩ := List.mem_map.mp hb
      rw [hyes x (hall x hx), hyes y (hall y hy)]
    · obtain ⟨x, hx, rfl⟩ := List.mem_map.mp ha
      obtain ⟨y, hy, rfl⟩ := List.mem_map.mp hb
      rw [hno x (hall x hx), hno y (hall y hy)]

/-! ## How a rollout is resolved -/

/-- The ways in which the majority manager answers a rollout. -/
inductive Majority.Resolution where
  | finalised (uid : String) (items : List PendingItem) (item : PendingItem)
  | timedOut (uid : String) (item : PendingItem)

namespace Majority.Resolution

def result (cfg : MajorityConfig) : Majority.Resolution → RewardResult
  | finalised uid items item => itemResult cfg uid items item
  | timedOut uid item => timeoutResult cfg uid item

def isFinalised : Majority.Resolution → Bool
  | finalised .. => true
  | timedOut .. => false

end Majority.Resolution

/-- The ways in which the Teacher manager answers a rollout. -/
inductive Teacher.Resolution where
  | evaluated (uid : String) (items : List TeacherItem) (i : ℕ)
      (item : TeacherItem) (score : PyFloat) (rolloutN : ℤ)
      (pseudoTarget : String)
  | invalidFormat (uid : String) (item : TeacherItem)
  | evaluatorFailed (uid : String) (item : TeacherItem) (exc : String)
  | timedOut (uid : String) (item : TeacherItem)

namespace Teacher.Resolution

def result (ratio : List String → List String → ℚ) (cfg : TeacherConfig) :
    Teacher.Resolution → RewardResult
  | evaluated uid items i item score rolloutN pseudoTarget =>
      scored ratio cfg uid items i item score rolloutN pseudoTarget
  | invalidFormat uid item => zero uid item false "invalid <question> format"
  | evaluatorFailed uid item exc => zero uid item item.formatOk exc
  | timedOut uid item => timeoutResult uid item

def isEvaluated : Teacher.Resolution → Bool
  | evaluated .. => true
  | _ => false

end Teacher.Resolution

/-- Whatever the majority manager returns in a run is one of its resolutions. -/
theorem Majority.exists_resolution {cfg : MajorityConfig} {hash : String → ℤ}
    {t₀ : ℚ} {s : Majority.State}
    (h : (Majority.machine cfg hash t₀).Reachable s) {f : ℕ} {r : RewardResult}
    (hr : (f, r) ∈ s.returned) :
    ∃ way : Majority.Resolution, r = way.result cfg := by
  have hi := Majority.reachable_inv h
  rcases hi.returnedOrigin f r hr with hf | ⟨a, -, -, heq⟩
  · obtain ⟨b, -, it, -, -, heq⟩ := hi.origin f r hf
    exact ⟨.finalised b.key b.items it, heq⟩
  · exact ⟨.timedOut a.key a.item, heq⟩

/-- Whatever the Teacher manager returns in a run is one of its resolutions. -/
theorem Teacher.exists_resolution {env : Teacher.Env} {t₀ : ℚ}
    {s : Teacher.State} (h : (Teacher.machine env t₀).Reachable s) {f : ℕ}
    {r : RewardResult} (hr : (f, r) ∈ s.returned) :
    ∃ way : Teacher.Resolution, r = way.result env.ratio env.cfg := by
  have hi := Teacher.reachable_inv h
  rcases hi.returnedOrigin f r hr with hf | ⟨a, -, -, heq⟩
  · obtain ⟨b, -, reply, hmem⟩ := hi.origin f r hf
    obtain ⟨i, item, -, -, hres⟩ := mem_finalizeTeacherGroup hmem
    rcases hres with ⟨exc, heq⟩ | heq | ⟨score, rolloutN, pseudoTarget, heq⟩
    · exact ⟨.evaluatorFailed b.key item exc, heq⟩
    · exact ⟨.invalidFormat b.key item, heq⟩
    · exact ⟨.evaluated b.key b.items i item score rolloutN pseudoTarget, heq⟩
  · exact ⟨.timedOut a.key a.item, heq⟩

/-! ## The batches that survive -/

/-- The `reward_extra_info` of the results of a batch. -/
def extraInfos (results : List RewardResult) : List (List (String × Json)) :=
  results.map (·.rewardExtraInfo)

theorem Majority.uniform_iff (cfg : MajorityConfig)
    (ways : List Majority.Resolution) :
    Uniform (extraInfos (ways.map (·.result cfg))) ↔
      (∀ w ∈ ways, w.isFinalised = true) ∨
      (∀ w ∈ ways, w.isFinalised = false) := by
  rw [extraInfos, List.map_map]
  refine uniform_iff_of_kinds
    ["group_uid", "pseudo_target", "extracted_answer", "group_size",
      "majority_count", "acc", "timeout"]
    ["group_uid", "pseudo_target", "extracted_answer", "acc", "timeout"]
    "group_size" ?_ ?_ (by decide) (by decide) ways
  · rintro (⟨uid, items, item⟩ | ⟨uid, item⟩) hkind
    · rfl
    · cases hkind
  · rintro (⟨uid, items, item⟩ | ⟨uid, item⟩) hkind
    · cases hkind
    · rfl

theorem Teacher.uniform_iff (ratio : List String → List String → ℚ)
    (cfg : TeacherConfig) (ways : List Teacher.Resolution) :
    Uniform (extraInfos (ways.map (·.result ratio cfg))) ↔
      (∀ w ∈ ways, w.isEvaluated = true) ∨
      (∀ w ∈ ways, w.isEvaluated = false) := by
  rw [extraInfos, List.map_map]
  refine uniform_iff_of_kinds
    ["group_uid", "generated_question", "reference_question", "format_ok",
      "group_size", "student_rollout_n", "pseudo_target", "pseudo_correctness",
      "frontier_reward", "r_sim", "tau", "lambda", "acc"]
    ["group_uid", "generated_question", "reference_question", "format_ok",
      "pseudo_correctness", "frontier_reward", "r_sim", "acc",
      "evaluator_error"]
    "group_size" ?_ ?_ (by decide) (by decide) ways
  · rintro (_ | _ | _ | _) hkind
    · rfl
    all_goals cases hkind
  · rintro (_ | _ | _ | _) hkind
    · cases hkind
    all_goals rfl

/-- **Uniform schema.** Everything a manager returns in a run is a resolution,
and the dictionaries of a nonempty batch have one schema, so that no column is
missing and none is dropped, if and only if its rollouts were all resolved by
the same kind of dictionary. -/
theorem uniform_schema_iff (cfg : MajorityConfig) (hash : String → ℤ)
    (env : Teacher.Env) (t₀ : ℚ) :
    (∀ s, (Majority.machine cfg hash t₀).Reachable s →
      ∀ fr ∈ s.returned, ∃ way : Majority.Resolution, fr.2 = way.result cfg) ∧
    (∀ ways : List Majority.Resolution, ways ≠ [] →
      (Uniform (extraInfos (ways.map (·.result cfg))) ∧
        Lossless (extraInfos (ways.map (·.result cfg))) ↔
        (∀ w ∈ ways, w.isFinalised = true) ∨
        (∀ w ∈ ways, w.isFinalised = false))) ∧
    (∀ s, (Teacher.machine env t₀).Reachable s →
      ∀ fr ∈ s.returned, ∃ way : Teacher.Resolution,
        fr.2 = way.result env.ratio env.cfg) ∧
    (∀ ways : List Teacher.Resolution, ways ≠ [] →
      (Uniform (extraInfos (ways.map (·.result env.ratio env.cfg))) ∧
        Lossless (extraInfos (ways.map (·.result env.ratio env.cfg))) ↔
        (∀ w ∈ ways, w.isEvaluated = true) ∨
        (∀ w ∈ ways, w.isEvaluated = false))) := by
  refine ⟨?_, ?_, ?_, ?_⟩
  · intro s h fr hfr
    exact Majority.exists_resolution h hfr
  · intro ways hne
    rw [lossless_iff_uniform (by simpa [extraInfos] using hne), and_self]
    exact Majority.uniform_iff cfg ways
  · intro s h fr hfr
    exact Teacher.exists_resolution h hfr
  · intro ways hne
    rw [lossless_iff_uniform (by simpa [extraInfos] using hne), and_self]
    exact Teacher.uniform_iff env.ratio env.cfg ways

/-- A rollout finalised in a vote, then one that timed out. -/
def exampleMajorityWays : List Majority.Resolution :=
  [.finalised "u" [⟨"1", 0⟩] ⟨"1", 0⟩, .timedOut "u" ⟨"1", 1⟩]

/-- A question without a valid format, then one that was evaluated. -/
def exampleTeacherWays : List Teacher.Resolution :=
  [.invalidFormat "u" ⟨"", "2 + 2 = ?", false, 0⟩,
   .evaluated "u" exampleGroup 1 ⟨"1 + 2 = ?", "2 + 2 = ?", true, 1⟩
    (.fin (1 / 2)) 8 "3"]

/-- A Teacher rollout whose evaluation fails. -/
def exampleFailedRun : List Teacher.Event :=
  [.runSingle "u" "<question>1 + 1 = ?</question>" "2 + 2 = ?", .clock 1,
   .callback ⟨"u", 1⟩,
   .evaluated ⟨"u", [⟨"1 + 1 = ?", "2 + 2 = ?", true, 0⟩]⟩
    (.unavailable "<urlopen error [Errno 111] Connection refused>"),
   .resume 0]

theorem uniform_schema_iff_exampleWays :
    (∃ s, (Majority.machine Majority.exampleConfig (fun _ => 0) 0).Reachable s ∧
      s.returned.length = 2 ∧ ∀ fr ∈ s.returned,
        ∃ way : Majority.Resolution, fr.2 = way.result Majority.exampleConfig) ∧
    Lossless (extraInfos
      ((exampleMajorityWays.take 1).map (·.result Majority.exampleConfig))) ∧
    (∃ s, (Teacher.machine Teacher.exampleEnv 0).Reachable s ∧
      s.returned.length = 1 ∧ ∀ fr ∈ s.returned,
        ∃ way : Teacher.Resolution,
          fr.2 = way.result (fun _ _ => 0) exampleTeacherConfig) ∧
    Lossless (extraInfos ((exampleTeacherWays.take 1).map
      (·.result (fun _ _ => 0) exampleTeacherConfig))) := by
  have h := uniform_schema_iff Majority.exampleConfig (fun _ => 0)
    Teacher.exampleEnv 0
  refine ⟨?_, ?_, ?_, ?_⟩
  · obtain ⟨s, hr, hp⟩ := Machine.exists_reachable_of_run
      (M := Majority.machine Majority.exampleConfig (fun _ => 0) 0)
      (p := fun s => s.returned.length = 2) Majority.exampleRun
      (by decide +kernel)
    exact ⟨s, hr, of_decide_eq_true hp, h.1 s hr⟩
  · exact ((h.2.1 (exampleMajorityWays.take 1) (by decide)).mpr
      (Or.inl (by decide))).2
  · obtain ⟨s, hr, hp⟩ := Machine.exists_reachable_of_run
      (M := Teacher.machine Teacher.exampleEnv 0)
      (p := fun s => s.returned.length = 1) exampleFailedRun
      (by decide +kernel)
    exact ⟨s, hr, of_decide_eq_true hp, h.2.2.1 s hr⟩
  · exact ((h.2.2.2 (exampleTeacherWays.take 1) (by decide)).mpr
      (Or.inr (by decide))).2

/-- A mixed batch of the majority manager is a `KeyError`, and one of the
Teacher manager too, in the order in which the missing key is asked for. -/
theorem not_uniform_exampleWays :
    ¬ Uniform (extraInfos
      (exampleMajorityWays.map (·.result Majority.exampleConfig))) ∧
    postprocess (extraInfos
      (exampleMajorityWays.map (·.result Majority.exampleConfig))) =
      .error .keyError ∧
    ¬ Uniform (extraInfos (exampleTeacherWays.map
      (·.result (fun _ _ => 0) exampleTeacherConfig))) ∧
    postprocess (extraInfos (exampleTeacherWays.map
      (·.result (fun _ _ => 0) exampleTeacherConfig))) =
      .error .keyError := by
  refine ⟨?_, rfl, ?_, rfl⟩
  · rw [Majority.uniform_iff]
    decide
  · rw [Teacher.uniform_iff]
    decide

end TTSR.Reward
