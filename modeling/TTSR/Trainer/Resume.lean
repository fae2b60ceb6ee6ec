import TTSR.Foundation.Machine
import TTSR.Foundation.Phases
import TTSR.Loop.Checkpoints

/-!
# Killed trainings

A training that is killed is started again on what it left under its checkpoint
root. Here a checkpoint is not saved at once: the ranks write their files in
parallel, each of them opened first and complete later, and a barrier separates
the phases of the manager. At the end the trainer truncates
`latest_checkpointed_iteration.txt` and writes the step into it. The process can
be killed at every moment in between; what has been written stays.

- `saved_disk`: a save that is not killed leaves what `saveStep` leaves,
  whatever the order of the ranks.
- `resumes_newest_iff`: a training that is killed anywhere but between the
  truncation and the writing of the tracker resumes from its newest checkpoint,
  unless `max_actor_ckpt_to_keep` is one: then the checkpoint that the tracker
  names is removed before the tracker names the new one.
-/

namespace TTSR.Trainer

open TTSR.Foundation TTSR.Foundation.Phases TTSR.Loop

namespace Resume

/-! ## The checkpoint root -/

abbrev CkptFile := List String × FileKind

structure CheckpointRoot where
  /-- The directories and the complete files. -/
  disk : Disk
  /-- The files that were opened and are not complete. -/
  unfinished : List CkptFile
  /-- The text of `latest_checkpointed_iteration.txt`. -/
  tracker : Option String
  /-- The steps that have been written there. -/
  saved : List ℕ

inductive Action where
  | mkdir (dir : List String)
  | rmtree (dir : List String)
  | openFile (f : CkptFile)
  | closeFile (f : CkptFile)
  | truncateTracker
  | writeTracker (k : ℕ)
deriving DecidableEq

def act : Action → CheckpointRoot → CheckpointRoot
  | .mkdir dir, r => { r with disk := r.disk.mkdir dir }
  | .rmtree dir, r =>
      { r with
        disk := r.disk.rmtree dir
        unfinished := r.unfinished.filter fun f => ¬ dir <+: f.1 }
  | .openFile f, r =>
      { r with
        disk := { r.disk with files := r.disk.files.filter (· ≠ f) }
        unfinished := f :: r.unfinished }
  | .closeFile f, r =>
      { r with
        disk := { r.disk with files := f :: r.disk.files }
        unfinished := r.unfinished.filter (· ≠ f) }
  | .truncateTracker, r => { r with tracker := some "" }
  | .writeTracker k, r =>
      { r with tracker := some (toString k), saved := r.saved ++ [k] }

/-! ## Saving -/

section Save

variable (a : Actor)

/-- `torch.save` and the like. -/
def writes (files : List CkptFile) : List Action :=
  files.flatMap fun f => [.openFile f, .closeFile f]

/-- `local_path` of the actor at step `k`. -/
def actorPath (k : ℕ) : List String := [globalStep k, "actor"]

/-- How many checkpoints `ensure_checkpoint_capacity` removes. -/
def capacityExcess (paths : ℕ) : ℕ :=
  match a.maxCkptToKeep with
  | none => 0
  | some keep => if 1 < keep ∧ keep ≤ paths then paths - keep + 1 else 0

/-- How many checkpoints `register_checkpoint` removes. -/
def retentionExcess (paths : ℕ) : ℕ :=
  match a.maxCkptToKeep with
  | none => 0
  | some keep => if 0 < keep ∧ keep < paths then paths - keep else 0

/-- The paths that the manager knows when it registers a new one. -/
def registeredPaths (previousSavedPaths : List (List String)) (k : ℕ) :
    List (List String) :=
  previousSavedPaths.drop (capacityExcess a previousSavedPaths.length) ++
    [actorPath k]

/-- `previous_saved_paths` after the save of step `k`. -/
def pathsAfter (previousSavedPaths : List (List String)) (k : ℕ) :
    List (List String) :=
  let paths := registeredPaths a previousSavedPaths k
  paths.drop (retentionExcess a paths.length)

/-- What the ranks do up to the first barrier. -/
def prepareThreads (previousSavedPaths : List (List String)) (k : ℕ) :
    List (List Action) :=
  (List.range a.worldSize).map fun rank =>
    (if rank = 0 then
      (previousSavedPaths.take
        (capacityExcess a previousSavedPaths.length)).map .rmtree
    else []) ++ [.mkdir (actorPath k)]

/-- The shards of every rank, and the configs of rank 0. -/
def shardThreads (k : ℕ) : List (List Action) :=
  (List.range a.worldSize).map fun rank =>
    writes (shardFiles a (actorPath k) rank) ++
      if rank = 0 then
        .mkdir (actorPath k ++ ["huggingface"]) ::
          writes (configFiles a (actorPath k))
      else []

def registerThread (previousSavedPaths : List (List String)) (k : ℕ) :
    List Action :=
  let paths := registeredPaths a previousSavedPaths k
  (paths.take (retentionExcess a paths.length)).map .rmtree

/-- `_save_checkpoint` of step `k` up to the tracker: the actor's
`save_checkpoint` on all ranks, then the state of the dataloader. -/
def checkpointProgram (previousSavedPaths : List (List String)) (k : ℕ) :
    Program Action :=
  [prepareThreads a previousSavedPaths k,
    shardThreads a k,
    [writes (hfModelFiles a (actorPath k))],
    [registerThread a previousSavedPaths k],
    [.mkdir [globalStep k] :: writes [([globalStep k], .dataloader)]]]

def trackerProgram (k : ℕ) : Program Action :=
  [[[.truncateTracker, .writeTracker k]]]

def saveProgram (previousSavedPaths : List (List String)) (k : ℕ) :
    Program Action :=
  checkpointProgram a previousSavedPaths k ++ trackerProgram k

end Save

/-! ## Loading -/

inductive LoadError where
  /-- `int` of a text that is no number. -/
  | valueError
  /-- `torch.load` of a file that is not there or not complete. -/
  | unreadable
deriving DecidableEq

/-- `int`, on what the tracker can hold. -/
def intOfText (text : String) : Option ℕ :=
  if text ≠ "" ∧ text.toList.all (·.isDigit) then
    some (Nat.ofDigitChars 10 text.toList 0)
  else none

/-- `find_latest_ckpt_path`: the step of the folder. -/
def findLatestCkptPath (r : CheckpointRoot) : Except LoadError (Option ℕ) :=
  match r.tracker with
  | none => .ok none
  | some text =>
      match intOfText text with
      | none => .error .valueError
      | some k => .ok <|
          if r.disk.dirs.contains [globalStep k] then some k else none

/-- Where a training goes on. -/
structure Resumed where
  globalSteps : ℕ
  /-- The state of the dataloader is loaded. -/
  dataloader : Bool
deriving DecidableEq

/-- The shards that all ranks load, which by default are those they save. -/
def shards (a : Actor) (k : ℕ) : List CkptFile :=
  (List.range a.worldSize).flatMap (shardFiles a (actorPath k))

/-- The file can be loaded. -/
def Readable (f : CkptFile) (r : CheckpointRoot) : Prop :=
  f ∈ r.disk.files ∧ f ∉ r.unfinished

instance (f : CkptFile) (r : CheckpointRoot) : Decidable (Readable f r) :=
  inferInstanceAs (Decidable (_ ∧ _))

/-- `_load_checkpoint` with `resume_mode=auto`. -/
def loadCheckpoint (a : Actor) (r : CheckpointRoot) : Except LoadError Resumed :=
  match findLatestCkptPath r with
  | .error err => .error err
  | .ok none => .ok ⟨0, false⟩
  | .ok (some k) =>
      if ∀ f ∈ shards a k, Readable f r then
        if ([globalStep k], .dataloader) ∈ r.unfinished then .error .unreadable
        else .ok ⟨k, decide (([globalStep k], .dataloader) ∈ r.disk.files)⟩
      else .error .unreadable

/-! ## Runs with kills -/

structure Process where
  /-- The step that comes next. -/
  globalSteps : ℕ
  previousSavedPaths : List (List String)
  /-- What is left of the checkpoint that is being saved. -/
  saving : Program Action

structure State where
  root : CheckpointRoot
  process : Option Process

inductive Event where
  | launch
  /-- A step is trained; whether it saves is free. -/
  | train (saves : Bool)
  | save (e : Phases.Event)
  /-- The process ends or is killed. -/
  | stop
deriving DecidableEq

def step (a : Actor) (s : State) : Event → Option State
  | .launch =>
      match s.process with
      | some _ => none
      | none =>
          match loadCheckpoint a s.root with
          | .error _ => some s
          | .ok resumed =>
              some { s with process := some ⟨resumed.globalSteps + 1, [], []⟩ }
  | .train saves =>
      match s.process with
      | none => none
      | some p =>
          if pending p.saving ≠ [] then none
          else if saves then
            some { s with process := some {
              globalSteps := p.globalSteps + 1
              previousSavedPaths :=
                pathsAfter a p.previousSavedPaths p.globalSteps
              saving := saveProgram a p.previousSavedPaths p.globalSteps } }
          else
            some { s with
              process := some { p with globalSteps := p.globalSteps + 1 } }
  | .save e =>
      match s.process with
      | none => none
      | some p =>
          match Phases.step p.saving e with
          | none => none
          | some (x, rest) => some {
              root := perform act x s.root
              process := some { p with saving := rest } }
  | .stop => s.process.map fun _ => { s with process := none }

/-- Trainings on one checkpoint root that is empty at first. -/
def machine (a : Actor) : Machine State Event where
  init := ⟨⟨⟨[], []⟩, [], none, []⟩, none⟩
  step := step a

/-! ## What an action changes -/

section Act

variable {x : Action} {f : CkptFile} {d : List String} {r : CheckpointRoot}

/-- A file stays readable unless it is opened or its directory is removed. -/
theorem Readable.act (h : Readable f r) (hopen : x ≠ .openFile f)
    (hremove : ∀ dir, x = .rmtree dir → ¬ dir <+: f.1) :
    Readable f (act x r) := by
  obtain ⟨hmem, hnot⟩ := h
  cases x with
  | mkdir dir => exact ⟨hmem, hnot⟩
  | rmtree dir =>
      have hdir := hremove dir rfl
      refine ⟨List.mem_filter.mpr ⟨hmem, decide_eq_true hdir⟩, fun hold => ?_⟩
      exact hnot (List.mem_filter.mp hold).1
  | openFile g =>
      have hne : f ≠ g := fun heq => hopen (heq ▸ rfl)
      refine ⟨List.mem_filter.mpr ⟨hmem, decide_eq_true hne⟩, fun hold => ?_⟩
      exact (List.mem_cons.mp hold).elim hne hnot
  | closeFile g =>
      refine ⟨List.mem_cons_of_mem _ hmem, fun hold => ?_⟩
      exact hnot (List.mem_filter.mp hold).1
  | truncateTracker => exact ⟨hmem, hnot⟩
  | writeTracker k => exact ⟨hmem, hnot⟩

theorem readable_closeFile (f : CkptFile) (r : CheckpointRoot) :
    Readable f (act (.closeFile f) r) :=
  ⟨List.mem_cons_self, fun hold => by simpa using (List.mem_filter.mp hold).2⟩

theorem mem_dirs_act (h : d ∈ r.disk.dirs)
    (hremove : ∀ dir, x = .rmtree dir → ¬ dir <+: d) :
    d ∈ (act x r).disk.dirs := by
  cases x with
  | mkdir dir => exact mem_mkdir.mpr (.inr h)
  | rmtree dir => exact List.mem_filter.mpr ⟨h, decide_eq_true (hremove dir rfl)⟩
  | openFile g => exact h
  | closeFile g => exact h
  | truncateTracker => exact h
  | writeTracker k => exact h

/-- Actions that leave the tracker alone. -/
def Untracked (x : Action) : Prop :=
  x ≠ .truncateTracker ∧ ∀ k, x ≠ .writeTracker k

theorem tracker_act (hx : Untracked x) :
    (act x r).tracker = r.tracker ∧ (act x r).saved = r.saved := by
  cases x with
  | truncateTracker => exact absurd rfl hx.1
  | writeTracker k => exact absurd rfl (hx.2 k)
  | _ => exact ⟨rfl, rfl⟩

end Act

/-! ## The actions of a save -/

section Actions

variable {a : Actor} {paths : List (List String)} {j k n : ℕ} {x : Action}
  {f : CkptFile} {files : List CkptFile}

theorem mem_writes : x ∈ writes files ↔
    ∃ f ∈ files, x = .openFile f ∨ x = .closeFile f := by
  simp [writes]

/-- How many of `n` checkpoints a save removes. -/
def removedCount (a : Actor) (n : ℕ) : ℕ :=
  capacityExcess a n + retentionExcess a (n - capacityExcess a n + 1)

theorem retentionExcess_le (a : Actor) (n : ℕ) :
    retentionExcess a (n + 1) ≤ n := by
  unfold retentionExcess
  cases a.maxCkptToKeep with
  | none => exact Nat.zero_le _
  | some keep =>
      dsimp only
      split_ifs <;> omega

/-- The newest checkpoint is removed only if one is to be kept. -/
theorem removedCount_lt (hkeep : a.maxCkptToKeep ≠ some 1) (hn : 0 < n) :
    removedCount a n < n := by
  unfold removedCount retentionExcess capacityExcess
  cases hmax : a.maxCkptToKeep with
  | none => exact hn
  | some keep =>
      have hne : keep ≠ 1 := fun h => hkeep (h ▸ hmax)
      dsimp only
      split_ifs <;> omega

theorem length_registeredPaths (a : Actor) (paths : List (List String)) (k : ℕ) :
    (registeredPaths a paths k).length =
      paths.length - capacityExcess a paths.length + 1 := by
  rw [registeredPaths, List.length_append, List.length_drop,
    List.length_singleton]

theorem registerThread_eq (a : Actor) (paths : List (List String)) (k : ℕ) :
    registerThread a paths k =
      ((paths.drop (capacityExcess a paths.length)).take
        (retentionExcess a (paths.length - capacityExcess a paths.length + 1))).map
          .rmtree := by
  have hle := retentionExcess_le a
    (paths.length - capacityExcess a paths.length)
  rw [registerThread, length_registeredPaths, registeredPaths,
    List.take_append_of_le_length (by rwa [List.length_drop])]

theorem capacityExcess_le (a : Actor) (n : ℕ) : capacityExcess a n ≤ n := by
  unfold capacityExcess
  cases a.maxCkptToKeep with
  | none => exact Nat.zero_le _
  | some keep =>
      dsimp only
      split_ifs <;> omega

theorem pathsAfter_eq (a : Actor) (paths : List (List String)) (k : ℕ) :
    pathsAfter a paths k =
      (paths ++ [actorPath k]).drop (removedCount a paths.length) := by
  rw [pathsAfter, length_registeredPaths, registeredPaths, removedCount,
    ← List.drop_drop,
    List.drop_append_of_le_length (capacityExcess_le a paths.length)]

/-- All the files of the checkpoint of step `k`. -/
def savedFiles (a : Actor) (k : ℕ) : List CkptFile :=
  shards a k ++ configFiles a (actorPath k) ++ hfModelFiles a (actorPath k) ++
    [([globalStep k], .dataloader)]

/-- What a save does before it comes to the tracker. -/
theorem mem_checkpointProgram
    (hx : x ∈ pending (checkpointProgram a paths k)) :
    (∃ f ∈ savedFiles a k, x = .openFile f ∨ x = .closeFile f) ∨
      (∃ dir, x = .mkdir dir ∧ dir ≠ [] ∧ dir <+: actorPath k ++ ["huggingface"]) ∨
      ∃ p ∈ paths.take (removedCount a paths.length), x = .rmtree p := by
  simp only [checkpointProgram, pending_cons, pending_nil, List.append_nil,
    List.mem_append, List.flatten_cons, List.flatten_nil] at hx
  rcases hx with hprepare | hshards | hweights | hregister | hdriver
  · obtain ⟨thread, hthread, hmem⟩ := List.mem_flatten.mp hprepare
    obtain ⟨rank, -, rfl⟩ := List.mem_map.mp hthread
    rcases List.mem_append.mp hmem with hremove | hmkdir
    · split_ifs at hremove
      · obtain ⟨p, hp, rfl⟩ := List.mem_map.mp hremove
        refine .inr (.inr ⟨p, ?_, rfl⟩)
        exact (List.take_sublist_take_left (Nat.le_add_right _ _)).subset hp
      · cases hremove
    · obtain rfl := List.mem_singleton.mp hmkdir
      exact .inr (.inl ⟨_, rfl, by simp [actorPath], List.prefix_append _ _⟩)
  · obtain ⟨thread, hthread, hmem⟩ := List.mem_flatten.mp hshards
    obtain ⟨rank, hrank, rfl⟩ := List.mem_map.mp hthread
    rcases List.mem_append.mp hmem with hshard | hconfig
    · obtain ⟨f, hf, hx⟩ := mem_writes.mp hshard
      refine .inl ⟨f, ?_, hx⟩
      have hshard : f ∈ shards a k := List.mem_flatMap.mpr ⟨rank, hrank, hf⟩
      simp [savedFiles, hshard]
    · split_ifs at hconfig
      · rcases List.mem_cons.mp hconfig with rfl | hconfig
        · exact .inr (.inl ⟨_, rfl, by simp, List.prefix_rfl⟩)
        · obtain ⟨f, hf, hx⟩ := mem_writes.mp hconfig
          exact .inl ⟨f, by simp [savedFiles, hf], hx⟩
      · cases hconfig
  · obtain ⟨f, hf, hx⟩ := mem_writes.mp hweights
    exact .inl ⟨f, by simp [savedFiles, hf], hx⟩
  · rw [registerThread_eq] at hregister
    obtain ⟨p, hp, rfl⟩ := List.mem_map.mp hregister
    refine .inr (.inr ⟨p, ?_, rfl⟩)
    rw [removedCount, List.take_add]
    exact List.mem_append_right _ hp
  · rcases List.mem_cons.mp hdriver with rfl | hdata
    · refine .inr (.inl ⟨_, rfl, by simp, ?_⟩)
      exact ⟨["actor", "huggingface"], rfl⟩
    · obtain ⟨f, hf, hx⟩ := mem_writes.mp hdata
      obtain rfl := List.mem_singleton.mp hf
      exact .inl ⟨_, by simp [savedFiles], hx⟩

theorem mem_actorPath {f : CkptFile}
    (h : f ∈ shardFiles a (actorPath k) n ∨ f ∈ configFiles a (actorPath k) ∨
      f ∈ hfModelFiles a (actorPath k)) : actorPath k <+: f.1 := by
  have hhf : actorPath k <+: actorPath k ++ ["huggingface"] :=
    List.prefix_append _ _
  rcases h with h | h | h
  · simp only [shardFiles, List.mem_append] at h
    rcases h with (h | h) | h
    all_goals
      split_ifs at h
      · obtain rfl := List.mem_singleton.mp h
        exact List.prefix_rfl
      · cases h
  · simp only [configFiles, List.mem_append, List.mem_singleton] at h
    rcases h with (((h | rfl) | h) | h) | rfl
    · split_ifs at h
      · obtain rfl := List.mem_singleton.mp h
        exact hhf
      · cases h
    · exact hhf
    · split_ifs at h
      · obtain rfl := List.mem_singleton.mp h
        exact hhf
      · cases h
    · split_ifs at h
      · obtain rfl := List.mem_singleton.mp h
        exact hhf
      · cases h
    · exact List.prefix_rfl
  · rw [hfModelFiles] at h
    split_ifs at h
    · obtain rfl := List.mem_singleton.mp h
      exact hhf
    · cases h

/-- The files of a checkpoint are under the directory of its step. -/
theorem below_of_mem_savedFiles (hf : f ∈ savedFiles a k) :
    [globalStep k] <+: f.1 := by
  have hstep : [globalStep k] <+: actorPath k := ⟨["actor"], rfl⟩
  simp only [savedFiles, List.mem_append, List.mem_singleton] at hf
  rcases hf with ((hshard | hconfig) | hweights) | rfl
  · obtain ⟨rank, -, hmem⟩ := List.mem_flatMap.mp hshard
    exact hstep.trans (mem_actorPath (.inl hmem))
  · exact hstep.trans (mem_actorPath (n := 0) (.inr (.inl hconfig)))
  · exact hstep.trans (mem_actorPath (n := 0) (.inr (.inr hweights)))
  · exact List.prefix_rfl

/-- What a save opens, it completes. -/
theorem followedIn_writes (f : CkptFile) (files : List CkptFile) :
    FollowedIn (.closeFile f) (.openFile f) (writes files) := by
  induction files with
  | nil => exact followedIn_of_notMem (by simp [writes])
  | cons g files ih =>
      refine FollowedIn.append (t := [Action.openFile g, .closeFile g]) ?_ ih
      intro before after h
      match before, h with
      | [], h =>
          obtain ⟨hopen, rfl⟩ := List.cons.inj h
          obtain rfl := Action.openFile.inj hopen
          exact List.mem_singleton_self _
      | [_], h => cases h
      | _ :: _ :: before, h =>
          have := congrArg List.length h
          simp at this

theorem followed_checkpointProgram (f : CkptFile) :
    Followed (.closeFile f) (.openFile f) (checkpointProgram a paths k) := by
  have hmkdir : ∀ (dir : List String) {t : List Action},
      FollowedIn (.closeFile f) (.openFile f) t →
        FollowedIn (.closeFile f) (.openFile f) (.mkdir dir :: t) := fun dir _ ht =>
    FollowedIn.append (t := [Action.mkdir dir]) (followedIn_of_notMem (by simp)) ht
  have hrmtree : ∀ dirs : List (List String),
      FollowedIn (.closeFile f) (.openFile f) (dirs.map Action.rmtree) :=
    fun dirs => followedIn_of_notMem (by simp)
  intro threads hthreads t ht
  simp only [checkpointProgram, List.mem_cons, List.not_mem_nil, or_false]
    at hthreads
  rcases hthreads with rfl | rfl | rfl | rfl | rfl
  · obtain ⟨rank, -, rfl⟩ := List.mem_map.mp ht
    refine FollowedIn.append ?_ (followedIn_of_notMem (by simp))
    split_ifs
    · exact hrmtree _
    · exact followedIn_of_notMem (by simp)
  · obtain ⟨rank, -, rfl⟩ := List.mem_map.mp ht
    refine FollowedIn.append (followedIn_writes f _) ?_
    split_ifs
    · exact hmkdir _ (followedIn_writes f _)
    · exact followedIn_of_notMem (by simp)
  · obtain rfl := List.mem_singleton.mp ht
    exact followedIn_writes f _
  · obtain rfl := List.mem_singleton.mp ht
    rw [registerThread_eq]
    exact hrmtree _
  · obtain rfl := List.mem_singleton.mp ht
    exact hmkdir _ (followedIn_writes f _)

theorem closeFile_mem_writes (hf : f ∈ files) : .closeFile f ∈ writes files :=
  mem_writes.mpr ⟨f, hf, .inr rfl⟩

/-- Every file of a checkpoint is written. -/
theorem closeFile_mem (hworld : 0 < a.worldSize) (hf : f ∈ savedFiles a k) :
    .closeFile f ∈ pending (checkpointProgram a paths k) := by
  simp only [checkpointProgram, pending_cons, pending_nil, List.append_nil,
    List.mem_append, List.flatten_cons, List.flatten_nil]
  simp only [savedFiles, List.mem_append, List.mem_singleton] at hf
  rcases hf with ((hshard | hconfig) | hweights) | rfl
  · obtain ⟨rank, hrank, hmem⟩ := List.mem_flatMap.mp hshard
    refine .inr (.inl (List.mem_flatten.mpr ⟨_, List.mem_map_of_mem hrank, ?_⟩))
    exact List.mem_append_left _ (closeFile_mem_writes hmem)
  · refine .inr (.inl (List.mem_flatten.mpr
      ⟨_, List.mem_map_of_mem (List.mem_range.mpr hworld), ?_⟩))
    rw [if_pos rfl]
    exact List.mem_append_right _
      (List.mem_cons_of_mem _ (closeFile_mem_writes hconfig))
  · exact .inr (.inr (.inl (closeFile_mem_writes hweights)))
  · exact .inr (.inr (.inr (.inr (List.mem_cons_of_mem _
      (closeFile_mem_writes (List.mem_singleton_self _))))))

/-- Every checkpoint that is to be removed is removed. -/
theorem rmtree_mem (hworld : 0 < a.worldSize) {p : List String}
    (hp : p ∈ paths.take (removedCount a paths.length)) :
    .rmtree p ∈ pending (checkpointProgram a paths k) := by
  simp only [checkpointProgram, pending_cons, pending_nil, List.append_nil,
    List.mem_append, List.flatten_cons, List.flatten_nil]
  rw [removedCount, List.take_add] at hp
  rcases List.mem_append.mp hp with hcapacity | hretention
  · refine .inl (List.mem_flatten.mpr
      ⟨_, List.mem_map_of_mem (List.mem_range.mpr hworld), ?_⟩)
    rw [if_pos rfl]
    exact List.mem_append_left _ (List.mem_map_of_mem hcapacity)
  · refine .inr (.inr (.inr (.inl ?_)))
    rw [registerThread_eq]
    exact List.mem_map_of_mem hretention

theorem mkdir_mem : .mkdir [globalStep k] ∈
    pending (checkpointProgram a paths k) := by
  simp [checkpointProgram]

end Actions

/-! ## What a save keeps and what it brings -/

section SaveRun

variable {a : Actor} {js : List ℕ} {j k t : ℕ} {f : CkptFile}
  {d : List String} {root r : CheckpointRoot} {q : Program Action}

theorem eq_of_below (h : actorPath j <+: d) (h' : [globalStep k] <+: d) :
    j = k := by
  obtain ⟨rest, rfl⟩ := h
  obtain ⟨rest', hrest⟩ := h'
  exact globalStep_inj.mp (List.cons.inj hrest).1.symm

/-- The paths that are removed are those of other steps. -/
def OtherSteps (k : ℕ) (paths : List (List String)) : Prop :=
  ∀ p ∈ paths, ∃ j, j ≠ k ∧ p = actorPath j

theorem otherSteps_map (hjs : ∀ j ∈ js, j ≠ k) :
    OtherSteps k (js.map actorPath) := by
  intro p hp
  obtain ⟨j, hj, rfl⟩ := List.mem_map.mp hp
  exact ⟨j, hjs j hj, rfl⟩

theorem OtherSteps.not_below {paths : List (List String)} {p : List String}
    (h : OtherSteps k paths) (hp : p ∈ paths) (hd : [globalStep k] <+: d) :
    ¬ p <+: d := by
  obtain ⟨j, hjk, rfl⟩ := h p hp
  exact fun hbelow => hjk (eq_of_below hbelow hd)

theorem not_below_step (j k : ℕ) : ¬ actorPath j <+: [globalStep k] := by
  intro h
  have := h.length_le
  simp [actorPath] at this

theorem tracker_of_checkpointProgram {paths : List (List String)}
    (h : Interleaves act (checkpointProgram a paths k) root q r) :
    r.tracker = root.tracker ∧ r.saved = root.saved := by
  refine h.keeps (I := fun s => s.tracker = root.tracker ∧ s.saved = root.saved)
    ?_ ⟨rfl, rfl⟩
  intro x hx s hs
  have huntracked : Untracked x := by
    rcases mem_checkpointProgram hx with ⟨f, -, rfl | rfl⟩ | ⟨dir, rfl, -⟩ |
      ⟨p, -, rfl⟩
    all_goals exact ⟨by simp, by simp⟩
  obtain ⟨htracker, hsaved⟩ := tracker_act (r := s) huntracked
  exact ⟨htracker.trans hs.1, hsaved.trans hs.2⟩

/-- The directories of the steps are never removed. -/
theorem dir_of_checkpointProgram
    (h : Interleaves act (checkpointProgram a (js.map actorPath) k) root q r)
    (hdir : [globalStep t] ∈ root.disk.dirs) :
    [globalStep t] ∈ r.disk.dirs := by
  refine h.keeps (I := fun s => [globalStep t] ∈ s.disk.dirs) ?_ hdir
  intro x hx s hs
  refine mem_dirs_act hs ?_
  rintro dir rfl
  rcases mem_checkpointProgram hx with ⟨f, -, hf | hf⟩ | ⟨dir', hdir', -⟩ |
    ⟨p, hp, hdir'⟩
  · cases hf
  · cases hf
  · cases hdir'
  · obtain rfl := Action.rmtree.inj hdir'
    obtain ⟨j, -, rfl⟩ := List.mem_map.mp (List.mem_of_mem_take hp)
    exact not_below_step j t

/-- A file of an older checkpoint is kept if its checkpoint is not removed. -/
theorem readable_of_checkpointProgram
    (h : Interleaves act (checkpointProgram a (js.map actorPath) k) root q r)
    (hstep : [globalStep t] <+: f.1) (htk : t ≠ k)
    (hremove : ∀ j ∈ js.take (removedCount a js.length), ¬ actorPath j <+: f.1)
    (hf : Readable f root) : Readable f r := by
  refine h.keeps (I := Readable f) ?_ hf
  intro x hx s hs
  rcases mem_checkpointProgram hx with ⟨g, hg, hx⟩ | ⟨dir, rfl, -⟩ | ⟨p, hp, rfl⟩
  · have hne : f ≠ g := by
      rintro rfl
      obtain ⟨rest, hrest⟩ := hstep
      obtain ⟨rest', hrest'⟩ := below_of_mem_savedFiles hg
      rw [← hrest] at hrest'
      exact htk (globalStep_inj.mp (List.cons.inj hrest').1.symm)
    rcases hx with rfl | rfl
    · exact hs.act (fun heq => hne (Action.openFile.inj heq).symm) nofun
    · exact hs.act nofun nofun
  · exact hs.act nofun nofun
  · refine hs.act nofun ?_
    rintro dir hdir
    obtain rfl := Action.rmtree.inj hdir
    rw [List.length_map, ← List.map_take] at hp
    obtain ⟨j, hj, rfl⟩ := List.mem_map.mp hp
    exact hremove j hj

/-- A file that is written is readable once it is not pending any more. -/
theorem readable_of_saved (hworld : 0 < a.worldSize)
    {paths : List (List String)} (hother : OtherSteps k paths)
    (h : Interleaves act (checkpointProgram a paths k) root q r)
    (hf : f ∈ savedFiles a k) :
    Readable f r ∨ .closeFile f ∈ pending q := by
  refine h.promise (readable_closeFile f) ?_ (.inr (closeFile_mem hworld hf))
  intro y hy
  by_cases hopen : y = .openFile f
  · subst hopen
    exact .inr (followed_checkpointProgram f)
  · refine .inl fun s hs => hs.act hopen ?_
    rintro dir rfl
    rcases mem_checkpointProgram hy with ⟨g, -, hg | hg⟩ | ⟨dir', hdir, -⟩ |
      ⟨p, hp, hdir⟩
    · cases hg
    · cases hg
    · cases hdir
    · obtain rfl := Action.rmtree.inj hdir
      exact hother.not_below (List.mem_of_mem_take hp)
        (below_of_mem_savedFiles hf)

theorem dir_of_saved
    (h : Interleaves act (checkpointProgram a (js.map actorPath) k) root q r) :
    [globalStep k] ∈ r.disk.dirs ∨ .mkdir [globalStep k] ∈ pending q := by
  refine h.promise (G := fun s => [globalStep k] ∈ s.disk.dirs) ?_ ?_
    (.inr mkdir_mem)
  · exact fun s => mem_mkdir.mpr (.inl ⟨by simp, List.prefix_rfl⟩)
  · intro y hy
    refine .inl fun s hs => mem_dirs_act hs ?_
    rintro dir rfl
    rcases mem_checkpointProgram hy with ⟨g, -, hg | hg⟩ | ⟨dir', hdir, -⟩ |
      ⟨p, hp, hdir⟩
    · cases hg
    · cases hg
    · cases hdir
    · obtain rfl := Action.rmtree.inj hdir
      obtain ⟨j, -, rfl⟩ := List.mem_map.mp (List.mem_of_mem_take hp)
      exact not_below_step j k

/-- The tracker is truncated, then written. -/
theorem trackerProgram_cases
    (h : Interleaves act (trackerProgram k) root q r) :
    (q = trackerProgram k ∧ r = root) ∨
      (q = [[[.writeTracker k]]] ∧ r = { root with tracker := some "" }) ∨
      (pending q = [] ∧ r = { root with
        tracker := some (toString k), saved := root.saved ++ [k] }) := by
  induction h with
  | refl => exact .inl ⟨rfl, rfl⟩
  | @step q q' s e x _ hstep ih =>
      have hperm := pending_step hstep
      rcases ih with ⟨rfl, rfl⟩ | ⟨rfl, rfl⟩ | ⟨hdone, rfl⟩
      · rcases step_single hstep with ⟨y, rest, hy, rfl, rfl⟩ | ⟨hnil, -⟩
        · obtain ⟨rfl, rfl⟩ := List.cons.inj hy
          exact .inr (.inl ⟨rfl, rfl⟩)
        · cases hnil
      · rcases step_single hstep with ⟨y, rest, hy, rfl, rfl⟩ | ⟨hnil, -⟩
        · obtain ⟨rfl, rfl⟩ := List.cons.inj hy
          exact .inr (.inr ⟨rfl, rfl⟩)
        · cases hnil
      · rw [hdone, List.nil_perm] at hperm
        obtain ⟨hx, hq'⟩ := List.append_eq_nil_iff.mp hperm
        rw [Option.toList_eq_nil_iff] at hx
        subst hx
        exact .inr (.inr ⟨hq', rfl⟩)

end SaveRun

/-! ## A save that is not killed -/

section Saved

variable {a : Actor} {m : CheckpointManager} {paths : List (List String)}
  {k : ℕ} {d p : List String} {f : CkptFile} {root r : CheckpointRoot}

theorem ensureCheckpointCapacity_eq (a : Actor) (m : CheckpointManager) :
    ensureCheckpointCapacity a m =
      m.removeOldest (capacityExcess a m.previousSavedPaths.length) := by
  unfold ensureCheckpointCapacity capacityExcess
  cases a.maxCkptToKeep with
  | none => rfl
  | some keep =>
      dsimp only
      split_ifs
      · rfl
      · rfl

theorem registerCheckpoint_eq (a : Actor) (newPath : List String)
    (m : CheckpointManager) :
    registerCheckpoint a newPath m =
      CheckpointManager.removeOldest
        { m with previousSavedPaths := m.previousSavedPaths ++ [newPath] }
        (retentionExcess a (m.previousSavedPaths.length + 1)) := by
  unfold registerCheckpoint retentionExcess
  cases a.maxCkptToKeep with
  | none => rfl
  | some keep =>
      simp only [List.length_append, List.length_singleton]
      split_ifs
      · rfl
      · rfl

/-- The manager after the save of step `k`. -/
theorem saveCheckpoint_eq (a : Actor) (disk : Disk) (paths : List (List String))
    (k : ℕ) :
    saveCheckpoint a (actorPath k) ⟨disk, paths⟩ =
      ⟨((paths.drop (capacityExcess a paths.length)).take (retentionExcess a
          (paths.length - capacityExcess a paths.length + 1))).foldl Disk.rmtree
        (writeCheckpoint a (actorPath k)
          ((paths.take (capacityExcess a paths.length)).foldl Disk.rmtree disk)),
      pathsAfter a paths k⟩ := by
  have hle := retentionExcess_le a
    (paths.length - capacityExcess a paths.length)
  rw [saveCheckpoint, ensureCheckpointCapacity_eq, registerCheckpoint_eq]
  simp only [CheckpointManager.removeOldest, List.length_drop, pathsAfter,
    length_registeredPaths]
  rw [List.take_append_of_le_length (by rwa [List.length_drop])]
  rfl

/-- A directory on the way to the model of step `k` is not removed. -/
theorem OtherSteps.not_below_dir (h : OtherSteps k paths) (hp : p ∈ paths)
    (hd : d <+: actorPath k ++ ["huggingface"]) : ¬ p <+: d := by
  intro hbelow
  exact h.not_below hp ⟨["actor", "huggingface"], rfl⟩ (hbelow.trans hd)

theorem mem_dirs_saveStep (h : OtherSteps k paths) :
    d ∈ (saveStep a ⟨r.disk, paths⟩ k).disk.dirs ↔
      (d ≠ [] ∧ d <+: actorPath k ++ ["huggingface"]) ∨ (d ∈ r.disk.dirs ∧
        ∀ p ∈ paths.take (removedCount a paths.length), ¬ p <+: d) := by
  rw [saveStep, removedCount, List.take_add]
  show d ∈ ((saveCheckpoint a (actorPath k) _).disk.mkdir _).dirs ↔ _
  rw [saveCheckpoint_eq, mem_mkdir, mem_dirs_rmtree, mem_dirs_writeCheckpoint,
    mem_dirs_rmtree, List.forall_mem_append]
  constructor
  · rintro (⟨hne, hstep⟩ | ⟨hnew | ⟨hold, hcapacity⟩, hretention⟩)
    · exact .inl ⟨hne, hstep.trans ⟨["actor", "huggingface"], rfl⟩⟩
    · exact .inl hnew
    · exact .inr ⟨hold, hcapacity, hretention⟩
  · rintro (⟨hne, hnew⟩ | ⟨hold, hcapacity, hretention⟩)
    · refine .inr ⟨.inl ⟨hne, hnew⟩, fun p hp => ?_⟩
      exact h.not_below_dir (List.mem_of_mem_drop (List.mem_of_mem_take hp)) hnew
    · exact .inr ⟨.inr ⟨hold, hcapacity⟩, hretention⟩

theorem mem_files_saveStep (h : OtherSteps k paths) :
    f ∈ (saveStep a ⟨r.disk, paths⟩ k).disk.files ↔
      f ∈ savedFiles a k ∨ (f ∈ r.disk.files ∧
        ∀ p ∈ paths.take (removedCount a paths.length), ¬ p <+: f.1) := by
  rw [saveStep, removedCount, List.take_add]
  show f ∈ (((saveCheckpoint a (actorPath k) _).disk.mkdir _).write _).files ↔ _
  rw [saveCheckpoint_eq, mem_write, mkdir_files, mem_files_rmtree,
    List.forall_mem_append]
  simp only [writeCheckpoint, mem_write, mkdir_files, mem_files_rmtree,
    savedFiles, shards, List.mem_append]
  constructor
  · rintro (hdata | ⟨hweights | hconfig | hshard | ⟨hold, hcapacity⟩, hretention⟩)
    · exact .inl (.inr hdata)
    · exact .inl (.inl (.inr hweights))
    · exact .inl (.inl (.inl (.inr hconfig)))
    · exact .inl (.inl (.inl (.inl hshard)))
    · exact .inr ⟨hold, hcapacity, hretention⟩
  · intro hf
    by_cases hsaved : f ∈ savedFiles a k
    · have hkept : ∀ p ∈ (paths.drop (capacityExcess a paths.length)).take
          (retentionExcess a (paths.length - capacityExcess a paths.length + 1)),
          ¬ p <+: f.1 := fun p hp =>
        h.not_below (List.mem_of_mem_drop (List.mem_of_mem_take hp))
          (below_of_mem_savedFiles hsaved)
      simp only [savedFiles, shards, List.mem_append] at hsaved
      rcases hsaved with ((hshard | hconfig) | hweights) | hdata
      · exact .inr ⟨.inr (.inr (.inl hshard)), hkept⟩
      · exact .inr ⟨.inr (.inl hconfig), hkept⟩
      · exact .inr ⟨.inl hweights, hkept⟩
      · exact .inl hdata
    · simp only [savedFiles, shards, List.mem_append] at hsaved
      obtain ⟨hold, hcapacity, hretention⟩ := hf.resolve_left hsaved
      exact .inr ⟨.inr (.inr (.inr ⟨hold, hcapacity⟩)), hretention⟩

/-- A checkpoint that is removed leaves no directory and no file. -/
theorem removed_of_checkpointProgram (hworld : 0 < a.worldSize)
    (hother : OtherSteps k paths)
    (h : Interleaves act (checkpointProgram a paths k) root [] r)
    (hp : p ∈ paths.take (removedCount a paths.length)) :
    (∀ d ∈ r.disk.dirs, ¬ p <+: d) ∧ ∀ f ∈ r.disk.files, ¬ p <+: f.1 := by
  have hmem := List.mem_of_mem_take hp
  refine (h.promise (x := .rmtree p) (G := fun r => (∀ d ∈ r.disk.dirs, ¬ p <+: d) ∧
    ∀ f ∈ r.disk.files, ¬ p <+: f.1) ?_ ?_ (.inr (rmtree_mem hworld hp))).resolve_right
      List.not_mem_nil
  · intro r
    constructor
    · exact fun d hd => of_decide_eq_true (List.mem_filter.mp hd).2
    · exact fun f hf => of_decide_eq_true (List.mem_filter.mp hf).2
  · rintro y hy
    refine .inl fun r ⟨hdirs, hfiles⟩ => ?_
    rcases mem_checkpointProgram hy with ⟨g, hg, rfl | rfl⟩ | ⟨dir, rfl, -, hdir⟩ |
      ⟨p', -, rfl⟩
    · exact ⟨hdirs, fun f hf => hfiles f (List.mem_filter.mp hf).1⟩
    · refine ⟨hdirs, fun f hf => ?_⟩
      rcases List.mem_cons.mp hf with rfl | hold
      · exact hother.not_below hmem (below_of_mem_savedFiles hg)
      · exact hfiles f hold
    · refine ⟨fun d hd => ?_, hfiles⟩
      rcases mem_mkdir.mp hd with ⟨-, hnew⟩ | hold
      · exact hother.not_below_dir hmem (hnew.trans hdir)
      · exact hdirs d hold
    · exact ⟨fun d hd => hdirs d (List.mem_filter.mp hd).1,
        fun f hf => hfiles f (List.mem_filter.mp hf).1⟩

/-- Nothing but the new checkpoint is created. -/
theorem created_of_checkpointProgram {q : Program Action}
    (h : Interleaves act (checkpointProgram a paths k) root q r) :
    (∀ d ∈ r.disk.dirs, d ∈ root.disk.dirs ∨
      (d ≠ [] ∧ d <+: actorPath k ++ ["huggingface"])) ∧
    ∀ f ∈ r.disk.files, f ∈ root.disk.files ∨ f ∈ savedFiles a k := by
  refine h.keeps (I := fun r => (∀ d ∈ r.disk.dirs, d ∈ root.disk.dirs ∨
      (d ≠ [] ∧ d <+: actorPath k ++ ["huggingface"])) ∧
    ∀ f ∈ r.disk.files, f ∈ root.disk.files ∨ f ∈ savedFiles a k) ?_
    ⟨fun _ => .inl, fun _ => .inl⟩
  rintro x hx r ⟨hdirs, hfiles⟩
  rcases mem_checkpointProgram hx with ⟨g, hg, rfl | rfl⟩ | ⟨dir, rfl, -, hdir⟩ |
    ⟨p, -, rfl⟩
  · exact ⟨hdirs, fun f hf => hfiles f (List.mem_filter.mp hf).1⟩
  · refine ⟨hdirs, fun f hf => ?_⟩
    rcases List.mem_cons.mp hf with rfl | hold
    · exact .inr hg
    · exact hfiles f hold
  · refine ⟨fun d hd => ?_, hfiles⟩
    rcases mem_mkdir.mp hd with ⟨hne, hnew⟩ | hold
    · exact .inr ⟨hne, hnew.trans hdir⟩
    · exact hdirs d hold
  · exact ⟨fun d hd => hdirs d (List.mem_filter.mp hd).1,
      fun f hf => hfiles f (List.mem_filter.mp hf).1⟩

/-- The model directory of the step is created. -/
theorem model_dir_of_checkpointProgram (hworld : 0 < a.worldSize)
    (hother : OtherSteps k paths)
    (h : Interleaves act (checkpointProgram a paths k) root [] r) (hne : d ≠ [])
    (hd : d <+: actorPath k ++ ["huggingface"]) : d ∈ r.disk.dirs := by
  have hmkdir : .mkdir (actorPath k ++ ["huggingface"]) ∈
      pending (checkpointProgram a paths k) := by
    simp only [checkpointProgram, pending_cons, List.mem_append]
    refine .inr (.inl (List.mem_flatten.mpr
      ⟨_, List.mem_map_of_mem (List.mem_range.mpr hworld), ?_⟩))
    simp
  refine (h.promise (x := .mkdir (actorPath k ++ ["huggingface"]))
    (G := fun r => d ∈ r.disk.dirs) ?_ ?_ (.inr hmkdir)).resolve_right
      List.not_mem_nil
  · exact fun r => mem_mkdir.mpr (.inl ⟨hne, hd⟩)
  · intro y hy
    refine .inl fun r hr => mem_dirs_act hr ?_
    rintro dir rfl
    rcases mem_checkpointProgram hy with ⟨g, -, hg | hg⟩ | ⟨dir', hdir, -⟩ |
      ⟨p, hp, hdir⟩
    · cases hg
    · cases hg
    · cases hdir
    · obtain rfl := Action.rmtree.inj hdir
      exact hother.not_below_dir (List.mem_of_mem_take hp) hd

/-- What is not removed and not written stays. -/
theorem kept_of_not_removed {q : Program Action}
    (h : Interleaves act (checkpointProgram a paths k) root q r) :
    (∀ d ∈ root.disk.dirs, (∀ p ∈ paths.take (removedCount a paths.length),
      ¬ p <+: d) → d ∈ r.disk.dirs) ∧
    ∀ f ∈ root.disk.files, (∀ p ∈ paths.take (removedCount a paths.length),
      ¬ p <+: f.1) → f ∉ savedFiles a k → f ∈ r.disk.files := by
  constructor
  · intro d hd hnot
    refine h.keeps (I := fun r => d ∈ r.disk.dirs) ?_ hd
    intro x hx r hr
    refine mem_dirs_act hr ?_
    rintro dir rfl
    rcases mem_checkpointProgram hx with ⟨g, -, hg | hg⟩ | ⟨dir', hdir, -⟩ |
      ⟨p, hp, hdir⟩
    · cases hg
    · cases hg
    · cases hdir
    · exact Action.rmtree.inj hdir ▸ hnot p hp
  · intro f hf hnot hsaved
    refine h.keeps (I := fun r => f ∈ r.disk.files) ?_ hf
    intro x hx r hr
    rcases mem_checkpointProgram hx with ⟨g, hg, rfl | rfl⟩ | ⟨dir, rfl, -⟩ |
      ⟨p, hp, rfl⟩
    · have hne : f ≠ g := fun heq => hsaved (heq ▸ hg)
      exact List.mem_filter.mpr ⟨hr, decide_eq_true hne⟩
    · exact List.mem_cons_of_mem _ hr
    · exact hr
    · exact List.mem_filter.mpr ⟨hr, decide_eq_true (hnot p hp)⟩

/-- **The ranks may write in any order.** A save that is not killed leaves the
directories and files that the manager leaves when it does one thing after the
other, and the tracker names its step. -/
theorem saved_disk (hworld : 0 < a.worldSize) (hother : OtherSteps k paths)
    (h : Interleaves act (saveProgram a paths k) root [] r) :
    (∀ d, d ∈ r.disk.dirs ↔
      d ∈ (saveStep a ⟨root.disk, paths⟩ k).disk.dirs) ∧
    (∀ f, f ∈ r.disk.files ↔
      f ∈ (saveStep a ⟨root.disk, paths⟩ k).disk.files) ∧
    pathsAfter a paths k =
      (saveStep a ⟨root.disk, paths⟩ k).previousSavedPaths ∧
    r.tracker = some (toString k) := by
  obtain ⟨u, hu, hr⟩ : ∃ u, Interleaves act (checkpointProgram a paths k) root [] u ∧
      r = { u with tracker := some (toString k), saved := u.saved ++ [k] } := by
    rcases h.append_cases with ⟨q, -, hq⟩ | ⟨u, hu, hrun⟩
    · have hnil := (List.append_eq_nil_iff.mp hq.symm).2
      cases hnil
    · rcases trackerProgram_cases hrun with ⟨hq, -⟩ | ⟨hq, -⟩ | ⟨-, hr⟩
      · cases hq
      · cases hq
      · exact ⟨u, hu, hr⟩
  have hdisk : r.disk = u.disk := by rw [hr]
  obtain ⟨hdirs, hfiles⟩ := created_of_checkpointProgram hu
  obtain ⟨hkeptDirs, hkeptFiles⟩ := kept_of_not_removed hu
  refine ⟨fun d => ?_, fun f => ?_, ?_, by rw [hr]⟩
  · rw [hdisk, mem_dirs_saveStep hother]
    constructor
    · intro hd
      refine (hdirs d hd).elim (fun hold => .inr ⟨hold, fun p hp => ?_⟩) .inl
      exact (removed_of_checkpointProgram hworld hother hu hp).1 d hd
    · rintro (⟨hne, hnew⟩ | ⟨hold, hnot⟩)
      · exact model_dir_of_checkpointProgram hworld hother hu hne hnew
      · exact hkeptDirs d hold hnot
  · rw [hdisk, mem_files_saveStep hother]
    constructor
    · intro hf
      refine (hfiles f hf).elim (fun hold => .inr ⟨hold, fun p hp => ?_⟩) .inl
      exact (removed_of_checkpointProgram hworld hother hu hp).2 f hf
    · intro hf
      by_cases hsaved : f ∈ savedFiles a k
      · have hread := readable_of_saved hworld hother hu hsaved
        exact (hread.resolve_right List.not_mem_nil).1
      · obtain ⟨hold, hnot⟩ := hf.resolve_left hsaved
        exact hkeptFiles f hold hnot hsaved
  · rw [saveStep]
    show _ = (saveCheckpoint a (actorPath k) ⟨root.disk, paths⟩).previousSavedPaths
    rw [saveCheckpoint_eq]

theorem saved_disk_exampleActor :
    ∃ r : CheckpointRoot, r.tracker = some "2" ∧
      (([globalStep 2, "actor"], .modelShard 0) ∈ r.disk.files ↔
        ([globalStep 2, "actor"], .modelShard 0) ∈
          (saveStep (exampleActor ["model"])
            ⟨⟨[actorPath 1], []⟩, [actorPath 1]⟩ 2).disk.files) := by
  obtain ⟨r, hr⟩ := exists_interleaves_nil act
    (saveProgram (exampleActor ["model"]) [actorPath 1] 2)
    ⟨⟨[actorPath 1], []⟩, [], some "1", [1]⟩
  obtain ⟨-, hfiles, -, htracker⟩ :=
    saved_disk (by decide) (fun p hp => ⟨1, by decide, List.mem_singleton.mp hp⟩) hr
  exact ⟨r, htracker, hfiles _⟩

end Saved

/-! ## What can be resumed -/

section Invariant

variable {a : Actor} {saved js : List ℕ} {k t : ℕ}
  {root r : CheckpointRoot} {q : Program Action}

/-- The newest checkpoint is there; its shards may be missing only if one
checkpoint is to be kept. -/
structure Kept (a : Actor) (saved : List ℕ) (r : CheckpointRoot) : Prop where
  dir : ∀ t ∈ saved.getLast?, [globalStep t] ∈ r.disk.dirs
  dataloader : ∀ t ∈ saved.getLast?, Readable ([globalStep t], .dataloader) r
  shards : a.maxCkptToKeep ≠ some 1 → ∀ t ∈ saved.getLast?,
    ∀ f ∈ shards a t, Readable f r

/-- The text of the tracker between two saves. -/
def trackerText (saved : List ℕ) : Option String := saved.getLast?.map toString

/-- Where a training goes on that has saved these steps. -/
def resumed (saved : List ℕ) : Resumed :=
  saved.getLast?.elim ⟨0, false⟩ (⟨·, true⟩)

theorem intOfText_toString (t : ℕ) : intOfText (toString t) = some t := by
  have hlist : (toString t).toList = Nat.toDigits 10 t := Nat.toList_repr
  have hne : toString t ≠ "" := by
    intro h
    rw [h] at hlist
    exact Nat.toDigits_ne_nil hlist.symm
  have hdigits : (toString t).toList.all (·.isDigit) = true := by
    rw [hlist, List.all_eq_true]
    exact fun c hc => Nat.isDigit_of_mem_toDigits (by decide) le_rfl hc
  rw [intOfText, if_pos ⟨hne, hdigits⟩, hlist, Nat.ofDigitChars_ten_toDigits]

theorem loadCheckpoint_of_kept (h : Kept a saved r)
    (htracker : r.tracker = trackerText saved) :
    loadCheckpoint a r = .ok (resumed saved) ∨
      (a.maxCkptToKeep = some 1 ∧ loadCheckpoint a r = .error .unreadable) := by
  rw [loadCheckpoint, findLatestCkptPath, htracker, trackerText, resumed]
  cases hlast : saved.getLast? with
  | none => exact .inl rfl
  | some t =>
      have hdata := h.dataloader t hlast
      have hdir : r.disk.dirs.contains [globalStep t] = true :=
        List.contains_iff_mem.mpr (h.dir t hlast)
      simp only [Option.map_some, intOfText_toString, if_pos hdir,
        if_neg hdata.2, decide_eq_true hdata.1, Option.elim_some]
      by_cases hshards : ∀ f ∈ shards a t, Readable f r
      · exact .inl (if_pos hshards)
      · refine .inr ⟨?_, if_neg hshards⟩
        by_contra hkeep
        exact hshards (h.shards hkeep t hlast)

/-- A process that has saved at `js` may save step `k`. -/
structure Ready (a : Actor) (js : List ℕ) (k : ℕ) (root : CheckpointRoot) :
    Prop where
  kept : Kept a root.saved root
  tracker : root.tracker = trackerText root.saved
  increasing : root.saved.Pairwise (· < ·)
  below : ∀ j ∈ root.saved, j < k
  known : js <:+ root.saved

/-- The newest checkpoint is not among those that are removed. -/
theorem last_notMem_take (hincreasing : saved.Pairwise (· < ·))
    (hknown : js <:+ saved) (ht : t ∈ saved.getLast?) {n : ℕ}
    (hn : js ≠ [] → n < js.length) : t ∉ js.take n := by
  rcases List.eq_nil_or_concat' js with rfl | ⟨init, u, rfl⟩
  · simp
  · obtain ⟨before, rfl⟩ := hknown
    rw [← List.append_assoc, List.getLast?_concat] at ht
    obtain rfl := Option.some.inj ht
    have hlt := hn (by simp)
    rw [List.length_append, List.length_singleton] at hlt
    rw [List.take_append_of_le_length (by omega)]
    intro hmem
    have hpairs := (List.pairwise_append.mp hincreasing).2.1
    have := (List.pairwise_append.mp hpairs).2.2 u (List.mem_of_mem_take hmem) u
      (List.mem_singleton_self u)
    omega

/-- Up to the tracker a save keeps what can be resumed. -/
theorem kept_of_checkpointProgram (hready : Ready a js k root)
    (h : Interleaves act (checkpointProgram a (js.map actorPath) k) root q r) :
    Kept a root.saved r := by
  have hne : ∀ t ∈ root.saved.getLast?, t ≠ k := fun t ht =>
    (hready.below t (List.mem_of_getLast? ht)).ne
  constructor
  · exact fun t ht => dir_of_checkpointProgram h (hready.kept.dir t ht)
  · intro t ht
    exact readable_of_checkpointProgram h List.prefix_rfl (hne t ht)
      (fun j _ => not_below_step j t) (hready.kept.dataloader t ht)
  · intro hkeep t ht f hf
    obtain ⟨rank, -, hmem⟩ := List.mem_flatMap.mp hf
    have hpath : actorPath t <+: f.1 := mem_actorPath (.inl hmem)
    have hstep : [globalStep t] <+: f.1 :=
      List.IsPrefix.trans ⟨["actor"], rfl⟩ hpath
    refine readable_of_checkpointProgram h hstep (hne t ht) ?_
      (hready.kept.shards hkeep t ht f hf)
    intro j hj hbelow
    obtain rfl := eq_of_below hbelow hstep
    refine last_notMem_take hready.increasing hready.known ht ?_ hj
    exact fun hjs => removedCount_lt hkeep (List.length_pos_of_ne_nil hjs)

/-- When the tracker is reached, the new checkpoint is there. -/
theorem kept_of_saved (hworld : 0 < a.worldSize)
    (hready : Ready a js k root)
    (h : Interleaves act (checkpointProgram a (js.map actorPath) k) root [] r) :
    Kept a (root.saved ++ [k]) r := by
  have hjs : ∀ j ∈ js, j ≠ k := fun j hj =>
    (hready.below j (hready.known.subset hj)).ne
  have hread : ∀ f ∈ savedFiles a k, Readable f r := fun f hf =>
    (readable_of_saved hworld (otherSteps_map hjs) h hf).resolve_right
      List.not_mem_nil
  constructor
  all_goals rw [List.getLast?_concat]
  · rintro t ht
    obtain rfl := Option.some.inj ht
    exact (dir_of_saved h).resolve_right List.not_mem_nil
  · rintro t ht
    obtain rfl := Option.some.inj ht
    exact hread _ (by simp [savedFiles])
  · rintro - t ht f hf
    obtain rfl := Option.some.inj ht
    exact hread f (by simp [savedFiles, hf])

theorem Kept.congr {r' : CheckpointRoot} (h : Kept a saved r)
    (hdisk : r'.disk = r.disk) (hunfinished : r'.unfinished = r.unfinished) :
    Kept a saved r' := by
  have hread : ∀ f, Readable f r → Readable f r' := fun f hf =>
    ⟨hdisk ▸ hf.1, hunfinished ▸ hf.2⟩
  exact {
    dir := fun t ht => hdisk ▸ h.dir t ht
    dataloader := fun t ht => hread _ (h.dataloader t ht)
    shards := fun hkeep t ht f hf => hread f (h.shards hkeep t ht f hf) }

/-- **What a save leaves** when it is killed: before the tracker is written, all
that could be resumed and, but for the moment after the truncation, the tracker;
afterwards the new checkpoint. -/
theorem saveProgram_spec (hworld : 0 < a.worldSize) (hready : Ready a js k root)
    (h : Interleaves act (saveProgram a (js.map actorPath) k) root q r) :
    Kept a r.saved r ∧
      ((.writeTracker k ∈ pending q ∧ r.saved = root.saved ∧
        (r.tracker = trackerText r.saved ∨
          r.tracker = some "" ∧ q = [[[.writeTracker k]]])) ∨
      (pending q = [] ∧ r.saved = root.saved ++ [k] ∧
        r.tracker = trackerText r.saved)) := by
  rcases h.append_cases with ⟨q', hq', rfl⟩ | ⟨u, hcheckpoint, hrun⟩
  · have hkept := kept_of_checkpointProgram hready hq'
    obtain ⟨htracker, hsaved⟩ := tracker_of_checkpointProgram hq'
    rw [hsaved, htracker, hready.tracker]
    exact ⟨hkept, .inl ⟨by simp [trackerProgram], rfl, .inl rfl⟩⟩
  · have hkept := kept_of_checkpointProgram hready hcheckpoint
    obtain ⟨htracker, hsaved⟩ := tracker_of_checkpointProgram hcheckpoint
    rcases trackerProgram_cases hrun with ⟨rfl, rfl⟩ | ⟨rfl, rfl⟩ | ⟨hdone, rfl⟩
    · rw [hsaved, htracker, hready.tracker]
      exact ⟨hkept, .inl ⟨by simp [trackerProgram], rfl, .inl rfl⟩⟩
    · refine ⟨?_, .inl ⟨by simp, hsaved, .inr ⟨rfl, rfl⟩⟩⟩
      exact (hsaved ▸ hkept : Kept a u.saved u).congr rfl rfl
    · have hnew := kept_of_saved hworld hready hcheckpoint
      refine ⟨?_, .inr ⟨hdone, by rw [hsaved], ?_⟩⟩
      · exact (hsaved ▸ hnew : Kept a (u.saved ++ [k]) u).congr rfl rfl
      · rw [trackerText, List.getLast?_concat]
        rfl

/-! ## The invariant of the runs -/

/-- A process is between two saves, or in one. -/
inductive ProcessInv (a : Actor) (root : CheckpointRoot) (p : Process) :
    Prop where
  | idle (js : List ℕ) (hdone : pending p.saving = [])
      (hready : Ready a js p.globalSteps root)
      (hpaths : p.previousSavedPaths = js.map actorPath)
  | saving (js : List ℕ) (k : ℕ) (first : CheckpointRoot)
      (hready : Ready a js k first)
      (hrun : Interleaves act (saveProgram a (js.map actorPath) k) first
        p.saving root)
      (hpending : .writeTracker k ∈ pending p.saving)
      (hstep : p.globalSteps = k + 1)
      (hpaths : p.previousSavedPaths = pathsAfter a (js.map actorPath) k)

structure Inv (a : Actor) (s : State) : Prop where
  increasing : s.root.saved.Pairwise (· < ·)
  kept : Kept a s.root.saved s.root
  tracker : s.root.tracker = trackerText s.root.saved ∨
    s.root.tracker = some ""
  process : ∀ p ∈ s.process, ProcessInv a s.root p

theorem Ready.later (h : Ready a js k root) : Ready a js (k + 1) root :=
  { h with below := fun j hj => Nat.lt_succ_of_lt (h.below j hj) }

/-- A training that goes on comes behind everything that was saved. -/
theorem lt_resumed (hincreasing : saved.Pairwise (· < ·)) :
    ∀ j ∈ saved, j < (resumed saved).globalSteps + 1 := by
  intro j hj
  rcases List.eq_nil_or_concat' saved with rfl | ⟨init, t, rfl⟩
  · cases hj
  · rw [resumed, List.getLast?_concat, Option.elim_some]
    rcases List.mem_append.mp hj with hinit | hlast
    · have := (List.pairwise_append.mp hincreasing).2.2 j hinit t
        (List.mem_singleton_self t)
      exact Nat.lt_succ_of_lt this
    · rw [List.mem_singleton.mp hlast]
      exact Nat.lt_succ_self t

/-- `previous_saved_paths` are the newest of the saved steps. -/
theorem exists_pathsAfter (a : Actor) (k : ℕ) (hknown : js <:+ saved) :
    ∃ js', js' <:+ saved ++ [k] ∧
      pathsAfter a (js.map actorPath) k = js'.map actorPath := by
  refine ⟨(js ++ [k]).drop (removedCount a (js.map actorPath).length), ?_, ?_⟩
  · obtain ⟨before, rfl⟩ := hknown
    refine (List.drop_suffix _ _).trans ⟨before, ?_⟩
    rw [List.append_assoc]
  · rw [pathsAfter_eq, List.map_drop, List.map_append]
    rfl

theorem loadCheckpoint_truncated (htracker : r.tracker = some "") :
    loadCheckpoint a r = .error .valueError := by
  rw [loadCheckpoint, findLatestCkptPath, htracker]
  rfl

theorem tracker_of_load {s : State} {res : Resumed} (hi : Inv a s)
    (hload : loadCheckpoint a s.root = .ok res) :
    s.root.tracker = trackerText s.root.saved := by
  apply hi.tracker.resolve_right
  intro hempty
  rw [loadCheckpoint_truncated hempty] at hload
  cases hload

/-- What can be loaded is the newest checkpoint. -/
theorem eq_resumed {s : State} {res : Resumed} (hi : Inv a s)
    (hload : loadCheckpoint a s.root = .ok res) :
    res = resumed s.root.saved := by
  rcases loadCheckpoint_of_kept hi.kept (tracker_of_load hi hload) with
    hok | ⟨-, herror⟩
  · exact Except.ok.inj (hload.symm.trans hok)
  · rw [herror] at hload
    cases hload

/-- A process that is launched is ready to save. -/
theorem processInv_launch {s : State} {res : Resumed} (hi : Inv a s)
    (hload : loadCheckpoint a s.root = .ok res) :
    ProcessInv a s.root ⟨res.globalSteps + 1, [], []⟩ := by
  obtain rfl := eq_resumed hi hload
  exact .idle [] rfl ⟨hi.kept, tracker_of_load hi hload, hi.increasing,
    lt_resumed hi.increasing, List.nil_suffix⟩ rfl

theorem processInv_train {p : Process} (hp : ProcessInv a root p)
    (hdone : pending p.saving = []) (saves : Bool) :
    ProcessInv a root (if saves then {
        globalSteps := p.globalSteps + 1
        previousSavedPaths := pathsAfter a p.previousSavedPaths p.globalSteps
        saving := saveProgram a p.previousSavedPaths p.globalSteps }
      else { p with globalSteps := p.globalSteps + 1 }) := by
  cases hp with
  | idle js hnil hready hpaths =>
      cases saves with
      | true =>
          refine .saving js p.globalSteps root hready ?_ ?_ rfl ?_
          · rw [if_pos rfl, hpaths]
            exact .refl
          · simp [saveProgram, trackerProgram]
          · rw [if_pos rfl, hpaths]
      | false => exact .idle js hnil hready.later hpaths
  | saving js k first hready hrun hpending hstep hpaths =>
      rw [hdone] at hpending
      cases hpending

/-- An event of a save, which may be its last one. -/
theorem inv_save (hworld : 0 < a.worldSize) {s : State} {p : Process}
    {e : Phases.Event} {x : Option Action} {rest : Program Action}
    (hi : Inv a s) (hp : ProcessInv a s.root p)
    (h : Phases.step p.saving e = some (x, rest)) :
    Inv a ⟨perform act x s.root, some { p with saving := rest }⟩ := by
  cases hp with
  | idle js hdone hready hpaths =>
      have hperm := pending_step h
      rw [hdone, List.nil_perm] at hperm
      obtain ⟨hx, hrest⟩ := List.append_eq_nil_iff.mp hperm
      rw [Option.toList_eq_nil_iff] at hx
      subst hx
      refine { hi with process := ?_ }
      rintro p' hp'
      obtain rfl := Option.some.inj hp'
      exact .idle js hrest hready hpaths
  | saving js k first hready hrun hpending hstep hpaths =>
      have hrun' := hrun.step h
      obtain ⟨hkept, ⟨hpending', hsaved, htracker⟩ | ⟨hdone, hsaved, htracker⟩⟩ :=
        saveProgram_spec hworld hready hrun'
      · refine ⟨by rw [hsaved]; exact hready.increasing, hkept,
          htracker.imp_right And.left, ?_⟩
        rintro p' hp'
        obtain rfl := Option.some.inj hp'
        exact .saving js k first hready hrun' hpending' hstep hpaths
      · have hincreasing : (perform act x s.root).saved.Pairwise (· < ·) := by
          rw [hsaved, List.pairwise_append]
          refine ⟨hready.increasing, List.pairwise_singleton _ _, ?_⟩
          rintro j hj k' hk'
          obtain rfl := List.mem_singleton.mp hk'
          exact hready.below j hj
        refine ⟨hincreasing, hkept, .inl htracker, ?_⟩
        rintro p' hp'
        obtain rfl := Option.some.inj hp'
        obtain ⟨js', hjs', hpaths'⟩ := exists_pathsAfter a k hready.known
        refine .idle js' hdone ⟨hkept, htracker, hincreasing, ?_, ?_⟩
          (hpaths.trans hpaths')
        · rw [hsaved]
          intro j hj
          rw [hstep]
          rcases List.mem_append.mp hj with hold | hnew
          · exact Nat.lt_succ_of_lt (hready.below j hold)
          · rw [List.mem_singleton.mp hnew]
            exact Nat.lt_succ_self k
        · rw [hsaved]
          exact hjs'

theorem inv_step (hworld : 0 < a.worldSize) {s s' : State} {e : Event}
    (hi : Inv a s) (h : step a s e = some s') : Inv a s' := by
  cases e with
  | launch =>
      simp only [step] at h
      split at h
      · cases h
      · split at h
        · obtain rfl := Option.some.inj h
          exact hi
        · next res hload =>
            obtain rfl := Option.some.inj h
            have hlaunch := processInv_launch hi hload
            refine { hi with process := ?_ }
            rintro p hp
            obtain rfl := Option.some.inj hp
            exact hlaunch
  | train saves =>
      simp only [step] at h
      split at h
      · cases h
      · next p hp =>
          split_ifs at h with hdone hsaves
          all_goals
            obtain rfl := Option.some.inj h
            refine { hi with process := ?_ }
            rintro p' hp'
            obtain rfl := Option.some.inj hp'
            have hinv := processInv_train (hi.process p hp) (not_not.mp hdone) saves
            simpa [hsaves] using hinv
  | save e =>
      simp only [step] at h
      split at h
      · cases h
      · next p hp =>
          split at h
          · cases h
          · next x rest hstep =>
              obtain rfl := Option.some.inj h
              exact inv_save hworld hi (hi.process p hp) hstep
  | stop =>
      obtain ⟨p, -, rfl⟩ := Option.map_eq_some_iff.mp h
      exact { hi with process := nofun }

theorem reachable_inv (hworld : 0 < a.worldSize) {s : State}
    (h : (machine a).Reachable s) : Inv a s := by
  refine Machine.ReachableIf.invariant (I := Inv a) ?_ ?_ h
  · exact ⟨List.Pairwise.nil, ⟨nofun, nofun, fun _ => nofun⟩, .inl rfl, nofun⟩
  · exact fun s e s' _ hi _ hs => inv_step hworld hi hs

end Invariant

/-! ## Which kills a training survives -/

section Kills

variable {a : Actor} {k : ℕ} {s : State} {p : Process}
  {root r : CheckpointRoot} {q : Program Action}

/-- What a save can come to is reachable. -/
theorem reachable_save (hs : (machine a).Reachable ⟨root, some p⟩)
    (h : Interleaves act p.saving root q r) :
    (machine a).Reachable ⟨r, some { p with saving := q }⟩ := by
  induction h with
  | refl => exact hs
  | @step q q' t e x _ hstep ih =>
      have hsave : step a ⟨t, some { p with saving := q }⟩ (.save e) =
          some ⟨perform act x t, some { p with saving := q' }⟩ := by
        simp only [step, hstep]
      exact ih.step (e := .save e) trivial hsave

theorem shards_of_loadCheckpoint {res : Resumed}
    (h : loadCheckpoint a r = .ok res) :
    res = ⟨0, false⟩ ∨ ∀ f ∈ shards a res.globalSteps, Readable f r := by
  rw [loadCheckpoint] at h
  split at h
  · cases h
  · exact .inl (Except.ok.inj h).symm
  · split_ifs at h with hshards
    obtain rfl := Except.ok.inj h
    exact .inr hshards

/-- A save up to the dataloader. -/
def actorProgram (a : Actor) (paths : List (List String)) (k : ℕ) :
    Program Action :=
  [prepareThreads a paths k, shardThreads a k,
    [writes (hfModelFiles a (actorPath k))], [registerThread a paths k]]

/-- With one checkpoint to keep, the old one is removed before the dataloader of
the new one is saved. -/
theorem notMem_of_actorProgram {j : ℕ} {f : CkptFile}
    (hworld : 0 < a.worldSize) (hkeep : a.maxCkptToKeep = some 1)
    (hpath : actorPath j <+: f.1) (hjk : j ≠ k)
    (h : Interleaves act (actorProgram a [actorPath j] k) root [] r) :
    f ∉ r.disk.files := by
  have hsplit : checkpointProgram a [actorPath j] k =
      actorProgram a [actorPath j] k ++
        [[.mkdir [globalStep k] :: writes [([globalStep k], .dataloader)]]] := rfl
  have hsub : ∀ x ∈ pending (actorProgram a [actorPath j] k),
      x ∈ pending (checkpointProgram a [actorPath j] k) := by
    intro x hx
    rw [hsplit, pending_append]
    exact List.mem_append_left _ hx
  have hremove : .rmtree (actorPath j) ∈
      pending (actorProgram a [actorPath j] k) := by
    have hcount : removedCount a 1 = 1 := by
      simp [removedCount, capacityExcess, retentionExcess, hkeep]
    have hmem : .rmtree (actorPath j) ∈
        pending (checkpointProgram a [actorPath j] k) :=
      rmtree_mem hworld (by simp [hcount])
    rw [hsplit, pending_append] at hmem
    refine (List.mem_append.mp hmem).resolve_right ?_
    simp [writes]
  have hgone := h.promise (G := fun r => f ∉ r.disk.files)
    (x := .rmtree (actorPath j)) ?_ ?_ (.inr hremove)
  · exact hgone.resolve_right List.not_mem_nil
  · intro r hmem
    exact (of_decide_eq_true (List.mem_filter.mp hmem).2) hpath
  · intro y hy
    refine .inl fun r hnot => ?_
    rcases mem_checkpointProgram (hsub y hy) with ⟨g, hg, rfl | rfl⟩ |
      ⟨dir, rfl, -⟩ | ⟨p, -, rfl⟩
    · exact fun hmem => hnot (List.mem_filter.mp hmem).1
    · intro hmem
      rcases List.mem_cons.mp hmem with rfl | hold
      · exact hjk (eq_of_below hpath (below_of_mem_savedFiles hg))
      · exact hnot hold
    · exact hnot
    · exact fun hmem => hnot (List.mem_filter.mp hmem).1

/-- With one checkpoint to keep, a training that is killed in its second save
can leave a checkpoint that cannot be loaded. -/
theorem exists_unreadable (hworld : 0 < a.worldSize)
    (hmodel : "model" ∈ a.saveContents) (hkeep : a.maxCkptToKeep = some 1) :
    ∃ s, (machine a).Reachable s ∧ s.root.tracker ≠ some "" ∧
      loadCheckpoint a s.root ≠ .ok (resumed s.root.saved) := by
  have hlaunch : (machine a).Reachable
      ⟨(machine a).init.root, some ⟨1, [], []⟩⟩ :=
    Machine.ReachableIf.init.step (e := .launch) trivial rfl
  -- the first save, to its end
  have hfirst := hlaunch.step (e := .train true) trivial rfl
  obtain ⟨r₁, hr₁⟩ := exists_interleaves_nil act (saveProgram a [] 1)
    (machine a).init.root
  have hsaved₁ := reachable_save hfirst hr₁
  have hready : Ready a [] 1 (machine a).init.root :=
    ⟨⟨nofun, nofun, fun _ => nofun⟩, rfl, List.Pairwise.nil, nofun,
      List.nil_suffix⟩
  obtain ⟨-, ⟨hpending, -⟩ | ⟨-, hsaved, htracker⟩⟩ :=
    saveProgram_spec hworld hready hr₁
  · cases hpending
  replace hsaved : r₁.saved = [1] := hsaved
  have hpaths : pathsAfter a [] 1 = [actorPath 1] := by
    rw [pathsAfter_eq]
    simp [removedCount, capacityExcess, retentionExcess, hkeep]
  -- the second save, until its checkpoint is registered
  have hsecond := hsaved₁.step (e := .train true) trivial rfl
  obtain ⟨u, hu⟩ := exists_interleaves_nil act (actorProgram a [actorPath 1] 2) r₁
  have hcheckpoint : Interleaves act (checkpointProgram a [actorPath 1] 2) r₁
      [[.mkdir [globalStep 2] :: writes [([globalStep 2], .dataloader)]]] u :=
    hu.append_left _
  have hkilled := reachable_save hsecond (hpaths ▸ hcheckpoint.append_left _)
  obtain ⟨htracker', hsaved'⟩ := tracker_of_checkpointProgram hcheckpoint
  have hsteps : u.saved = [1] := hsaved'.trans hsaved
  refine ⟨_, hkilled, ?_, fun hload => ?_⟩
  · show u.tracker ≠ some ""
    rw [htracker', htracker, hsaved]
    decide
  · replace hload : loadCheckpoint a u = .ok ⟨1, true⟩ := by
      rw [hload, hsteps]
      rfl
    have hread := (shards_of_loadCheckpoint hload).resolve_left (by decide)
    have hshard : (actorPath 1, FileKind.modelShard 0) ∈ shards a 1 := by
      refine List.mem_flatMap.mpr ⟨0, List.mem_range.mpr hworld, ?_⟩
      simp [shardFiles, hmodel]
    exact notMem_of_actorProgram hworld hkeep List.prefix_rfl (by decide) hu
      (hread _ hshard).1

/-- The tracker is empty only for a moment. -/
theorem saving_of_truncated {p : Process} (hp : ProcessInv a root p)
    (hworld : 0 < a.worldSize) (htracker : root.tracker = some "") :
    ∃ k, p.saving = [[[.writeTracker k]]] := by
  have htext : ∀ saved : List ℕ, trackerText saved ≠ some "" := by
    intro saved h
    obtain ⟨t, -, ht⟩ := Option.map_eq_some_iff.mp h
    have hint := intOfText_toString t
    rw [ht] at hint
    cases hint
  cases hp with
  | idle js hdone hready hpaths =>
      exact absurd (hready.tracker.symm.trans htracker) (htext _)
  | saving js k first hready hrun hpending hstep hpaths =>
      obtain ⟨-, ⟨-, -, htext' | ⟨-, hsaving⟩⟩ | ⟨-, -, htext'⟩⟩ :=
        saveProgram_spec hworld hready hrun
      · exact absurd (htext'.symm.trans htracker) (htext _)
      · exact ⟨k, hsaving⟩
      · exact absurd (htext'.symm.trans htracker) (htext _)

/-- **Which kills a training survives.** In every run of trainings that are
killed and launched again, a training that can go on does so from its newest
checkpoint. It can always go on, but for a kill between the truncation and the
writing of the tracker, if and only if not just one checkpoint is to be kept. -/
theorem resumes_newest_iff (a : Actor) (hworld : 0 < a.worldSize)
    (hmodel : "model" ∈ a.saveContents) :
    (∀ s, (machine a).Reachable s →
      (s.root.tracker = some "" →
        ∀ p ∈ s.process, ∃ k, p.saving = [[[.writeTracker k]]]) ∧
      ∀ res, loadCheckpoint a s.root = .ok res → res = resumed s.root.saved) ∧
    ((∀ s, (machine a).Reachable s → s.root.tracker ≠ some "" →
        loadCheckpoint a s.root = .ok (resumed s.root.saved)) ↔
      a.maxCkptToKeep ≠ some 1) := by
  refine ⟨fun s hs => ⟨fun htracker p hp => ?_, fun res hload => ?_⟩, ?_, ?_⟩
  · exact saving_of_truncated ((reachable_inv hworld hs).process p hp) hworld
      htracker
  · exact eq_resumed (reachable_inv hworld hs) hload
  · intro hall hkeep
    obtain ⟨s, hs, htracker, hload⟩ := exists_unreadable hworld hmodel hkeep
    exact hload (hall s hs htracker)
  · intro hkeep s hs htracker
    have hi := reachable_inv hworld hs
    rcases loadCheckpoint_of_kept hi.kept (hi.tracker.resolve_right htracker) with
      hok | ⟨hone, -⟩
    · exact hok
    · exact absurd hone hkeep

theorem resumes_newest_exampleActor :
    (∀ s, (machine (exampleActor ["model"])).Reachable s →
      (s.root.tracker = some "" →
        ∀ p ∈ s.process, ∃ k, p.saving = [[[.writeTracker k]]]) ∧
      ∀ res, loadCheckpoint (exampleActor ["model"]) s.root = .ok res →
        res = resumed s.root.saved) ∧
    ((∀ s, (machine (exampleActor ["model"])).Reachable s →
        s.root.tracker ≠ some "" →
          loadCheckpoint (exampleActor ["model"]) s.root =
            .ok (resumed s.root.saved)) ↔
      (exampleActor ["model"]).maxCkptToKeep ≠ some 1) :=
  resumes_newest_iff _ (by decide) (by decide)

end Kills

end Resume

end TTSR.Trainer
