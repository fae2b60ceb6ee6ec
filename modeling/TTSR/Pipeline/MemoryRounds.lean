import TTSR.Memory.Representation
import TTSR.Memory.Store
import TTSR.Pipeline.Reflection

/-!
# The memory from round to round

No process outlives its round: `reflect` loads the `memory.json` of the round
before, updates it and saves the `memory.json` of its own round. The rounds
together compute what one memory in one process would (`memory_on_disk`), so the
file of every round holds a bounded, ranked, recent memory.
-/

namespace TTSR.Pipeline.Reflect

open TTSR.Foundation TTSR.Foundation.JsonText TTSR.Foundation.JsonDecode
open TTSR.Foundation.DecimalFloat TTSR.Memory

/-! ## Entries of the annotated types -/

def asStr : Json → Option String
  | .str s => some s
  | _ => none

def asStrList : Json → Option (List String)
  | .arr xs => xs.mapM asStr
  | _ => none

def asInt : Json → Option ℤ
  | .int n => some n
  | _ => none

/-- The entry, if its fields have the types they are annotated with. -/
def typed (e : StoredEntry) : Option WeaknessEntry := do
  return {
    reasoningWeakness := ← asStr e.reasoningWeakness
    triggerConditions := ← asStrList e.triggerConditions
    failureSignature := ← asStrList e.failureSignature
    localizationSummary := ← asStr e.localizationSummary
    firstSeen := ← asInt e.firstSeen
    lastSeen := ← asInt e.lastSeen
    persistence := ← asInt e.persistence }

theorem asStrList_map_str (texts : List String) :
    asStrList (.arr (texts.map .str)) = some texts := by
  rw [asStrList]
  induction texts with
  | nil => rfl
  | cons text texts ih =>
      rw [List.map_cons, List.mapM_cons, ih]
      rfl

theorem typed_stored (e : WeaknessEntry) : typed e.stored = some e := by
  simp only [typed, WeaknessEntry.stored, asStrList_map_str, asStr, asInt]
  rfl

theorem mapM_typed_stored (entries : List WeaknessEntry) :
    (entries.map WeaknessEntry.stored).mapM typed = some entries := by
  induction entries with
  | nil => rfl
  | cons e entries ih =>
      rw [List.map_cons, List.mapM_cons, typed_stored, ih]
      rfl

/-! ## The rounds -/

/-- What a round gives `reflect`, and what its model answers. -/
structure Round where
  failed : List FailedInstance
  outputs : List String

/-- The last finished round, and the text of its `memory.json`. -/
structure DiskState where
  round : ℕ
  memory : Option (List Char)

/-- The memory that `--memory_in` starts from. -/
def memoryIn (dec : Decoder) : Option (List Char) → Option (List WeaknessEntry)
  | none => some []
  | some file =>
      match load dec file with
      | .ok stored => stored.mapM typed
      | .error _ => none

section Rounds

variable {α : Type*} [LE α] [DecidableLE α]

/-- `reflect` in the next round. If it fails, the script ends. -/
def reflectRound (py : Builtins) (fr : FloatRepr) (dec : Decoder)
    (encodes : List (String × Json) → Bool) (cfg : MemoryConfig α)
    (sim : String → String → α) (s : DiskState) (r : Round) :
    Option DiskState := do
  let entries ← memoryIn dec s.memory
  let files ← (reflectMain py (jsonLoads dec) encodes cfg sim entries
    (s.round + 1) r.failed r.outputs).toOption
  let file ← (save fr dec.maxDigits files.memory).toOption
  return ⟨s.round + 1, some file⟩

def diskMachine (py : Builtins) (fr : FloatRepr) (dec : Decoder)
    (encodes : List (String × Json) → Bool) (cfg : MemoryConfig α)
    (sim : String → String → α) : Machine DiskState Round :=
  ⟨⟨0, none⟩, reflectRound py fr dec encodes cfg sim⟩

/-- What round `n` gives the memory: the reflections that are parsed from the
outputs of the model. -/
def roundUpdate (dec : Decoder) (r : Round) (n : ℕ) : Option Update :=
  (reflect (jsonLoads dec) r.failed r.outputs).toOption.map fun reflections =>
    ⟨reflections.map (·.reflection), n⟩

/-- The updates of a run, the first of which is that of round `n`. -/
def runUpdates (dec : Decoder) (n : ℕ) (rounds : List Round) :
    Option (List Update) :=
  (rounds.zipIdx n).mapM fun p => roundUpdate dec p.1 p.2

/-- The memory of one process in its place. -/
def inProcess (dec : Decoder) (s : DiskState) : State where
  entries := (memoryIn dec s.memory).getD []
  iteration := if s.round = 0 then none else some s.round

variable {py : Builtins} {fr : FloatRepr} {dec : Decoder}
  {encodes : List (String × Json) → Bool} {cfg : MemoryConfig α}
  {sim : String → String → α}

/-- The memory that is written is the updated one. -/
theorem update_of_reflectMain {loads : String → Except LoadsError Json}
    {entries : List WeaknessEntry} {iteration : ℤ} {failed : List FailedInstance}
    {outputs : List String} {files : Files}
    (h : reflectMain py loads encodes cfg sim entries iteration failed outputs =
      .ok files) :
    reflect loads failed outputs = .ok files.reflections ∧
      update py cfg sim entries (files.reflections.map (·.reflection))
        iteration = .ok files.memory := by
  rw [reflectMain] at h
  cases hreflect : reflect loads failed outputs with
  | error exc =>
      rw [hreflect] at h
      cases h
  | ok reflections =>
      simp only [hreflect] at h
      cases hupdate : update py cfg sim entries (reflections.map (·.reflection))
          iteration with
      | error exc =>
          rw [hupdate] at h
          cases h
      | ok entries' =>
          simp only [hupdate] at h
          split_ifs at h
          obtain rfl := Except.ok.inj h
          exact ⟨rfl, hupdate⟩

/-- Everything a round can do. -/
theorem reflectRound_cases {s s' : DiskState} {r : Round}
    (h : reflectRound py fr dec encodes cfg sim s r = some s') :
    ∃ entries u entries' file,
      memoryIn dec s.memory = some entries ∧
      roundUpdate dec r (s.round + 1) = some u ∧
      update py cfg sim entries u.reflections (s.round + 1) = .ok entries' ∧
      save fr dec.maxDigits entries' = .ok file ∧
      s' = ⟨s.round + 1, some file⟩ := by
  obtain ⟨entries, hentries, h⟩ := Option.bind_eq_some_iff.mp h
  obtain ⟨files, hfiles, h⟩ := Option.bind_eq_some_iff.mp h
  obtain ⟨file, hfile, h⟩ := Option.bind_eq_some_iff.mp h
  obtain ⟨hreflect, hupdate⟩ :=
    update_of_reflectMain (toOption_eq_some_iff.mp hfiles)
  have hu : roundUpdate dec r (s.round + 1) =
      some ⟨files.reflections.map (·.reflection), (s.round + 1 : ℕ)⟩ := by
    rw [roundUpdate, hreflect]
    rfl
  exact ⟨entries, _, files.memory, file, hentries, hu, hupdate,
    toOption_eq_some_iff.mp hfile, (Option.some.inj h).symm⟩

theorem roundUpdate_iteration {r : Round} {n : ℕ} {u : Update}
    (h : roundUpdate dec r n = some u) : u.iteration = n := by
  obtain ⟨reflections, -, rfl⟩ := Option.map_eq_some_iff.mp h
  rfl

/-- A round on disk is its update in the process. -/
theorem step_inProcess (hfr : ReadsFloats fr dec) (hdepth : 3 ≤ dec.maxDepth)
    {s s' : DiskState} {r : Round}
    (h : reflectRound py fr dec encodes cfg sim s r = some s') :
    ∃ u, roundUpdate dec r (s.round + 1) = some u ∧
      (machine py cfg sim).step (inProcess dec s) u =
        some (inProcess dec s') := by
  obtain ⟨entries, u, entries', file, hentries, hu, hupdate, hfile, rfl⟩ :=
    reflectRound_cases h
  have hiteration : u.iteration = (s.round + 1 : ℤ) := by
    rw [roundUpdate_iteration hu]
    push_cast
    rfl
  have hloaded : memoryIn dec (some file) = some entries' := by
    rw [memoryIn, load_save hfr hdepth hfile]
    exact mapM_typed_stored entries'
  have hmono : (inProcess dec s).iteration.all (· ≤ (s.round + 1 : ℤ)) = true := by
    rw [inProcess]
    split_ifs <;> simp
  refine ⟨u, hu, ?_⟩
  show step py cfg sim (inProcess dec s) u = _
  rw [step, hiteration, if_pos hmono]
  dsimp only [inProcess]
  rw [hentries, hloaded, Option.getD_some, hupdate]
  simp

/-- A run on disk is the run of its updates in the process. -/
theorem run_inProcess (hfr : ReadsFloats fr dec) (hdepth : 3 ≤ dec.maxDepth)
    {rounds : List Round} {s s' : DiskState}
    (h : (diskMachine py fr dec encodes cfg sim).run s rounds = some s') :
    s'.round = s.round + rounds.length ∧
      ∃ updates, runUpdates dec (s.round + 1) rounds = some updates ∧
        (machine py cfg sim).run (inProcess dec s) updates =
          some (inProcess dec s') := by
  induction rounds generalizing s with
  | nil =>
      obtain rfl := Option.some.inj h
      exact ⟨rfl, [], rfl, rfl⟩
  | cons r rounds ih =>
      obtain ⟨t, hstep, hrun⟩ := Option.bind_eq_some_iff.mp h
      obtain ⟨u, hu, hprocess⟩ := step_inProcess hfr hdepth hstep
      obtain ⟨_, _, _, _, -, -, -, -, ht⟩ := reflectRound_cases hstep
      obtain ⟨hround, updates, hupdates, hrest⟩ := ih hrun
      have hnext : t.round = s.round + 1 := by rw [ht]
      rw [hnext] at hround hupdates
      refine ⟨?_, u :: updates, ?_, ?_⟩
      · rw [hround, List.length_cons]
        omega
      · rw [runUpdates, List.zipIdx_cons, List.mapM_cons]
        show (roundUpdate dec r (s.round + 1)).bind _ = _
        rw [hu]
        show (runUpdates dec (s.round + 1 + 1) rounds).bind _ = _
        rw [hupdates]
        rfl
      · show ((machine py cfg sim).step (inProcess dec s) u).bind _ = _
        rw [hprocess]
        exact hrest

/-- A finished round has left its file. -/
theorem exists_file {s : DiskState}
    (h : (diskMachine py fr dec encodes cfg sim).Reachable s) :
    s.round = 0 ∧ s.memory = none ∨
      0 < s.round ∧ ∃ entries file, s.memory = some file ∧
        save fr dec.maxDigits entries = .ok file := by
  refine Machine.ReachableIf.invariant (I := fun s : DiskState =>
    s.round = 0 ∧ s.memory = none ∨
      0 < s.round ∧ ∃ entries file, s.memory = some file ∧
        save fr dec.maxDigits entries = .ok file)
    (Or.inl ⟨rfl, rfl⟩) (fun s r s' _ _ _ hs => ?_) h
  obtain ⟨_, _, entries', file, -, -, -, hfile, rfl⟩ := reflectRound_cases hs
  exact Or.inr ⟨Nat.succ_pos _, entries', file, rfl, hfile⟩

/-- **The memory on disk is the memory of one process.** After every round of
every run, `memory.json` is loaded as the entries that a single
`WeaknessMemory` holds after the updates of these rounds, and they are bounded,
ranked, recent and apart. -/
theorem memory_on_disk (py : Builtins) {fr : FloatRepr} {dec : Decoder}
    (hfr : ReadsFloats fr dec) (hdepth : 3 ≤ dec.maxDepth)
    (encodes : List (String × Json) → Bool) {cfg : MemoryConfig α}
    (hcap : 0 ≤ cfg.capacity) (sim : String → String → α) {rounds : List Round}
    (hne : rounds ≠ []) {s : DiskState}
    (h : (diskMachine py fr dec encodes cfg sim).run
      (diskMachine py fr dec encodes cfg sim).init rounds = some s) :
    ∃ updates file entries,
      runUpdates dec 1 rounds = some updates ∧
      (machine py cfg sim).run (machine py cfg sim).init updates =
        some ⟨entries, some rounds.length⟩ ∧
      s.memory = some file ∧
      load dec file = .ok (entries.map WeaknessEntry.stored) ∧
      Represents cfg sim rounds.length entries := by
  obtain ⟨hround, updates, hupdates, hrun⟩ := run_inProcess hfr hdepth h
  have hlength : s.round = rounds.length := hround.trans (Nat.zero_add _)
  have hpos : 0 < rounds.length := List.length_pos_iff.mpr hne
  obtain ⟨hzero, -⟩ | ⟨-, entries, file, hfile, hsave⟩ :=
    exists_file (Machine.reachable_of_run .init h)
  · omega
  have hload := load_save hfr hdepth hsave
  have hprocess : inProcess dec s = ⟨entries, some rounds.length⟩ := by
    have hin : memoryIn dec s.memory = some entries := by
      rw [hfile, memoryIn, hload]
      exact mapM_typed_stored entries
    rw [inProcess, hin, hlength, if_neg hpos.ne']
    rfl
  rw [hprocess] at hrun
  have hreach : (machine py cfg sim).Reachable ⟨entries, some rounds.length⟩ :=
    Machine.reachable_of_run .init hrun
  have hinit : Inv cfg sim (machine py cfg sim).init := rfl
  have hinv : Inv cfg sim ⟨entries, some rounds.length⟩ :=
    Machine.ReachableIf.invariant (I := Inv cfg sim) hinit
      (fun _ _ _ _ hi _ hs => inv_step hcap hi hs) hreach
  exact ⟨updates, file, entries, hupdates, hrun, hfile, hload, hinv⟩

end Rounds

/-- Two rounds; the weakness of the first one is seen again in the second. -/
def exampleRounds : List Round :=
  [⟨exampleInstances, [goodOutput, ""]⟩, ⟨exampleInstances, ["", goodOutput]⟩]

theorem memory_on_disk_exampleRounds :
    ∃ updates file entries,
      runUpdates (exactDecoder 4300 3) 1 exampleRounds = some updates ∧
      (machine Builtins.plain defaultConfig equalSim).run
        (machine Builtins.plain defaultConfig equalSim).init updates =
          some ⟨entries, some 2⟩ ∧
      load (exactDecoder 4300 3) file =
        .ok (entries.map WeaknessEntry.stored) ∧
      Represents defaultConfig equalSim 2 entries := by
  obtain ⟨s, hrun⟩ := Option.isSome_iff_exists.mp (by decide +kernel :
    ((diskMachine Builtins.plain exactRepr (exactDecoder 4300 3)
      (fun _ => true) defaultConfig equalSim).run ⟨0, none⟩
        exampleRounds).isSome = true)
  obtain ⟨updates, file, entries, hupdates, hprocess, -, hload, hrepresents⟩ :=
    memory_on_disk Builtins.plain (readsFloats_exactDecoder 4300 3) (by decide)
      (fun _ => true) (by decide) equalSim (List.cons_ne_nil _ _) hrun
  exact ⟨updates, file, entries, hupdates, hprocess, hload, hrepresents⟩

end TTSR.Pipeline.Reflect
