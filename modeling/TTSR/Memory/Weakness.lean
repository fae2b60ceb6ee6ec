import TTSR.Foundation.Merging
import TTSR.Foundation.Text
import TTSR.Foundation.Value

/-!
# The weakness memory

`WeaknessMemory` keeps the reasoning weaknesses that reflections report. An
update merges every reflection into the first entry that is similar enough, or
appends it; then it drops the entries that have not been seen for a while, ranks
the others by persistence and cuts the list.

The similarity is a parameter with values in any ordered type. It is not assumed
to be symmetric, and `_similarity` is not.

An update of well-shaped reflections is a sequence of merges of its candidates
followed by one pruning (`update_eq_ok`); everything else about the memory is
derived from that.
-/

namespace TTSR.Memory

open TTSR.Foundation TTSR.Foundation.Text TTSR.Foundation.Merging

/-! ## Entries -/

structure WeaknessEntry where
  reasoningWeakness : String
  triggerConditions : List String
  failureSignature : List String
  localizationSummary : String
  firstSeen : ℤ
  lastSeen : ℤ
  persistence : ℤ
deriving DecidableEq

/-- `str(item.get(key, "")).strip()`. -/
def textField (py : Builtins) (item : List (String × Json)) (key : String) :
    String :=
  strip (((Dict.lookupEntries key item).getD (.str "")).toStr py)

/-- `[str(x) for x in item.get(key, []) if str(x).strip()]`. -/
def listField (py : Builtins) (item : List (String × Json)) (key : String) :
    Except ErrorKind (List String) :=
  (((Dict.lookupEntries key item).getD (.arr [])).iterate).map fun xs =>
    (xs.map (·.toStr py)).filter (strip · ≠ "")

/-- `WeaknessEntry.from_reflection`. -/
def fromReflection (py : Builtins) (item : List (String × Json))
    (iteration : ℤ) : Except ErrorKind WeaknessEntry := do
  let triggerConditions ← listField py item "trigger_conditions"
  let failureSignature ← listField py item "failure_signature"
  return {
    reasoningWeakness := textField py item "reasoning_weakness"
    triggerConditions, failureSignature
    localizationSummary := textField py item "localization_summary"
    firstSeen := iteration
    lastSeen := iteration
    persistence := 1 }

/-! ## The memory -/

/-- `WeaknessMemory.__init__`. -/
structure MemoryConfig (α : Type*) where
  capacity : ℤ
  mergeThreshold : α
  resolveWindow : ℤ

/-- The arguments `WeaknessMemory()` is made with everywhere. -/
def defaultConfig : MemoryConfig ℚ := ⟨10, 3 / 5, 3⟩

/-- `existing.persistence += 1; existing.last_seen = iteration`. -/
def WeaknessEntry.seen (iteration : ℤ) (e : WeaknessEntry) : WeaknessEntry :=
  { e with persistence := e.persistence + 1, lastSeen := iteration }

section Update

variable {α : Type*} [LE α] [DecidableLE α]
  (py : Builtins) (cfg : MemoryConfig α) (sim : String → String → α)

/-- The weakness `a` is similar enough to be merged into `b`. -/
def reaches (a b : String) : Bool := cfg.mergeThreshold ≤ sim a b

/-- The inner loop of `update`, for a candidate that is not blank. -/
def mergeInto (iteration : ℤ) (entries : List WeaknessEntry)
    (candidate : WeaknessEntry) : List WeaknessEntry :=
  absorb (fun existing => reaches cfg sim candidate.reasoningWeakness
    existing.reasoningWeakness) (WeaknessEntry.seen iteration) candidate entries

/-- One round of the outer loop. -/
def mergeItem (iteration : ℤ) (entries : List WeaknessEntry)
    (item : List (String × Json)) : Except ErrorKind (List WeaknessEntry) :=
  (fromReflection py item iteration).map fun candidate =>
    if candidate.reasoningWeakness = "" then entries
    else mergeInto cfg sim iteration entries candidate

/-- The three lines after the loop. -/
def prune (iteration : ℤ) (entries : List WeaknessEntry) :
    List WeaknessEntry :=
  sliceTo cfg.capacity (rank (·.persistence)
    (entries.filter fun x => iteration - x.lastSeen ≤ cfg.resolveWindow))

def update (entries : List WeaknessEntry)
    (reflections : List (List (String × Json))) (iteration : ℤ) :
    Except ErrorKind (List WeaknessEntry) :=
  (reflections.foldlM (mergeItem py cfg sim iteration) entries).map
    (prune cfg iteration)

end Update

/-- Pruning entries that carry something with them prunes the entries. -/
theorem map_prune {α E : Type*} (cfg : MemoryConfig α) (iteration : ℤ)
    (f : E → WeaknessEntry) (carried : List E) :
    (sliceTo cfg.capacity (rank (fun p => (f p).persistence)
      (carried.filter fun p =>
        iteration - (f p).lastSeen ≤ cfg.resolveWindow))).map f =
      prune cfg iteration (carried.map f) := by
  have hfilter : (carried.filter fun p =>
      iteration - (f p).lastSeen ≤ cfg.resolveWindow).map f =
      (carried.map f).filter fun x =>
        iteration - x.lastSeen ≤ cfg.resolveWindow := by
    rw [List.filter_map]
    rfl
  rw [prune, sliceTo_map, rank_map f (fun _ => rfl), hfilter]

/-! ## What the memory is read for -/

def top (n : ℤ) (entries : List WeaknessEntry) : List WeaknessEntry :=
  sliceTo n (rank (·.persistence) entries)

/-- One line of `strategy_note`. -/
def strategyLine (idx : ℕ) (item : WeaknessEntry) : String :=
  let trigger := if item.triggerConditions = [] then "general"
    else ", ".intercalate item.triggerConditions
  toString idx ++ ". " ++ item.reasoningWeakness ++ " (trigger: " ++ trigger ++
    "; seen " ++ toString item.persistence ++ " rounds)"

def strategyNote (n : ℤ) (entries : List WeaknessEntry) : String :=
  "\n".intercalate ((top n entries).zipIdx.map fun p =>
    strategyLine (p.2 + 1) p.1)

def synthesisContext (n : ℤ) (entries : List WeaknessEntry) : String :=
  let picks := top n entries
  if picks = [] then "None." else
  "\n".intercalate (picks.zipIdx.map fun p =>
    toString (p.2 + 1) ++ ". " ++ p.1.reasoningWeakness)

/-! ## Well-shaped reflections -/

/-- The values a `for` loop accepts. -/
def Iterable : Json → Prop
  | .arr _ | .str _ | .obj _ => True
  | _ => False

/-- The two list fields of a reflection are absent or can be looped over. -/
def WellShaped (item : List (String × Json)) : Prop :=
  Iterable ((Dict.lookupEntries "trigger_conditions" item).getD (.arr [])) ∧
  Iterable ((Dict.lookupEntries "failure_signature" item).getD (.arr []))

theorem iterate_ok_iff (j : Json) : (∃ xs, j.iterate = .ok xs) ↔ Iterable j := by
  cases j <;> simp [Json.iterate, Iterable]

theorem listField_ok_iff (py : Builtins) (item : List (String × Json))
    (key : String) : (∃ xs, listField py item key = .ok xs) ↔
      Iterable ((Dict.lookupEntries key item).getD (.arr [])) := by
  rw [← iterate_ok_iff, listField]
  cases ((Dict.lookupEntries key item).getD (.arr [])).iterate <;>
    simp [Except.map]

/-- The entry a reflection makes. -/
theorem fromReflection_eq_ok_iff {py : Builtins} {item : List (String × Json)}
    {iteration : ℤ} {c : WeaknessEntry} :
    fromReflection py item iteration = .ok c ↔
      ∃ triggers signature,
        listField py item "trigger_conditions" = .ok triggers ∧
        listField py item "failure_signature" = .ok signature ∧
        c = {
          reasoningWeakness := textField py item "reasoning_weakness"
          triggerConditions := triggers
          failureSignature := signature
          localizationSummary := textField py item "localization_summary"
          firstSeen := iteration
          lastSeen := iteration
          persistence := 1 } := by
  rw [fromReflection]
  constructor
  · intro h
    obtain ⟨triggers, htriggers, h⟩ := bind_eq_ok_iff.mp h
    obtain ⟨signature, hsignature, h⟩ := bind_eq_ok_iff.mp h
    exact ⟨triggers, signature, htriggers, hsignature, (Except.ok.inj h).symm⟩
  · rintro ⟨triggers, signature, htriggers, hsignature, rfl⟩
    exact bind_eq_ok_iff.mpr
      ⟨triggers, htriggers, bind_eq_ok_iff.mpr ⟨signature, hsignature, rfl⟩⟩

/-- A reflection makes an entry exactly when it is well-shaped. -/
theorem fromReflection_ok_iff (py : Builtins) (item : List (String × Json))
    (iteration : ℤ) :
    (∃ c, fromReflection py item iteration = .ok c) ↔ WellShaped item := by
  unfold WellShaped
  rw [← listField_ok_iff py, ← listField_ok_iff py]
  constructor
  · rintro ⟨c, hc⟩
    obtain ⟨triggers, signature, htriggers, hsignature, -⟩ :=
      fromReflection_eq_ok_iff.mp hc
    exact ⟨⟨triggers, htriggers⟩, signature, hsignature⟩
  · rintro ⟨⟨triggers, htriggers⟩, signature, hsignature⟩
    exact ⟨_, fromReflection_eq_ok_iff.mpr
      ⟨triggers, signature, htriggers, hsignature, rfl⟩⟩

theorem reasoningWeakness_of_fromReflection {py : Builtins}
    {item : List (String × Json)} {iteration : ℤ} {c : WeaknessEntry}
    (h : fromReflection py item iteration = .ok c) :
    c.reasoningWeakness = textField py item "reasoning_weakness" := by
  obtain ⟨triggers, signature, -, -, rfl⟩ := fromReflection_eq_ok_iff.mp h
  rfl

/-- Its weakness is stripped, and it has been seen once, now. -/
theorem fromReflection_fresh {py : Builtins} {item : List (String × Json)}
    {iteration : ℤ} {c : WeaknessEntry}
    (h : fromReflection py item iteration = .ok c) :
    strip c.reasoningWeakness = c.reasoningWeakness ∧
    c.firstSeen = iteration ∧ c.lastSeen = iteration ∧ c.persistence = 1 := by
  obtain ⟨triggers, signature, -, -, rfl⟩ := fromReflection_eq_ok_iff.mp h
  exact ⟨strip_strip _, rfl, rfl, rfl⟩

/-! ## An update, as merges of its candidates -/

/-- The candidates of an update that are merged: those that are not blank. -/
def candidates (py : Builtins) (iteration : ℤ)
    (reflections : List (List (String × Json))) : List WeaknessEntry :=
  reflections.filterMap fun item =>
    match fromReflection py item iteration with
    | .ok c => if c.reasoningWeakness = "" then none else some c
    | .error _ => none

theorem candidates_cons {py : Builtins} {iteration : ℤ}
    {item : List (String × Json)} {reflections : List (List (String × Json))}
    {c : WeaknessEntry} (hc : fromReflection py item iteration = .ok c) :
    candidates py iteration (item :: reflections) =
      if c.reasoningWeakness = "" then candidates py iteration reflections
      else c :: candidates py iteration reflections := by
  rw [candidates, List.filterMap_cons, hc]
  by_cases hblank : c.reasoningWeakness = ""
  · simp only [if_pos hblank]
    rfl
  · simp only [if_neg hblank]
    rfl

theorem mem_candidates {py : Builtins} {iteration : ℤ}
    {reflections : List (List (String × Json))} {c : WeaknessEntry}
    (h : c ∈ candidates py iteration reflections) :
    c.reasoningWeakness ≠ "" ∧ strip c.reasoningWeakness = c.reasoningWeakness ∧
    c.firstSeen = iteration ∧ c.lastSeen = iteration ∧ c.persistence = 1 := by
  obtain ⟨item, -, hitem⟩ := List.mem_filterMap.mp h
  cases hc : fromReflection py item iteration with
  | error exc => rw [hc] at hitem; cases hitem
  | ok c' =>
      rw [hc] at hitem
      dsimp only at hitem
      split_ifs at hitem with hblank
      obtain rfl := Option.some.inj hitem
      exact ⟨hblank, fromReflection_fresh hc⟩

section Run

variable {α : Type*} [LE α] [DecidableLE α]
  {py : Builtins} {cfg : MemoryConfig α} {sim : String → String → α}

/-- A loop over well-shaped reflections merges the candidates in turn. -/
theorem foldlM_mergeItem {iteration : ℤ}
    {reflections : List (List (String × Json))}
    (hshape : ∀ item ∈ reflections, WellShaped item)
    (entries : List WeaknessEntry) :
    reflections.foldlM (mergeItem py cfg sim iteration) entries =
      .ok ((candidates py iteration reflections).foldl
        (mergeInto cfg sim iteration) entries) := by
  induction reflections generalizing entries with
  | nil => rfl
  | cons item reflections ih =>
      have htail : ∀ item' ∈ reflections, WellShaped item' :=
        fun item' h => hshape item' (List.mem_cons_of_mem _ h)
      obtain ⟨c, hc⟩ := (fromReflection_ok_iff py item iteration).mpr
        (hshape item List.mem_cons_self)
      rw [List.foldlM_cons, mergeItem, hc, candidates_cons hc]
      show reflections.foldlM (mergeItem py cfg sim iteration)
        (if c.reasoningWeakness = "" then entries
          else mergeInto cfg sim iteration entries c) = _
      rw [ih htail]
      split_ifs <;> rfl

/-- An update whose loop raises an exception met a reflection that is not
well-shaped. -/
theorem wellShaped_of_update {iteration : ℤ}
    {reflections : List (List (String × Json))}
    {entries entries' : List WeaknessEntry}
    (h : update py cfg sim entries reflections iteration = .ok entries') :
    ∀ item ∈ reflections, WellShaped item := by
  obtain ⟨merged, hfold, -⟩ := map_eq_ok_iff.mp h
  clear h
  induction reflections generalizing entries with
  | nil => simp
  | cons item reflections ih =>
      rw [List.foldlM_cons] at hfold
      obtain ⟨mid, hitem, hrest⟩ := bind_eq_ok_iff.mp hfold
      obtain ⟨c, hc, -⟩ := map_eq_ok_iff.mp hitem
      exact List.forall_mem_cons.mpr
        ⟨(fromReflection_ok_iff py item iteration).mp ⟨c, hc⟩, ih hrest⟩

/-- An update of well-shaped reflections succeeds; it merges the candidates and
prunes. -/
theorem update_eq_ok {iteration : ℤ} {reflections : List (List (String × Json))}
    (hshape : ∀ item ∈ reflections, WellShaped item)
    (entries : List WeaknessEntry) :
    update py cfg sim entries reflections iteration =
      .ok (prune cfg iteration ((candidates py iteration reflections).foldl
        (mergeInto cfg sim iteration) entries)) := by
  rw [update, foldlM_mergeItem hshape]
  rfl

end Run

end TTSR.Memory
