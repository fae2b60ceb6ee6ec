import TTSR.Foundation.Reordering
import TTSR.Trainer.MicroBatches

/-!
# Log probabilities

The worker group gives each data parallel rank a chunk of the batch, and all
ranks of a sequence parallel group the same one. A rank computes its chunk in
micro-batches, and `restore_dynamic_batch` puts the results back into the order of
the rows. The results of the first rank of each group are collected.

- `log_probs_distributed`: every row has the result that it has alone.
-/

namespace TTSR.Trainer

open TTSR.Foundation

/-! ## Restoring -/

def getReverseIdx (idxMap : List ℕ) : Except Raised (List ℕ) :=
  if idxMap.all (· < idxMap.length) then .ok (setAll idxMap idxMap.zipIdx)
  else .error .indexError

def restoreDynamicBatch {ω : Type} (data : List ω) (batchIdxList : List (List ℕ)) :
    Except Raised (List ω) :=
  let indices := batchIdxList.flatten
  if indices.length ≠ data.length then .error .assertionError
  else do
    let revertIndices ← getReverseIdx indices
    DataProto.reorder data revertIndices

/-! ## The results of a rank -/

/-- How a rank computes the log probabilities of its rows. -/
structure LogProbConfig where
  microBatchSize : ℕ
  useDynamicBsz : Bool
  /-- `max_token_len`, times the ranks of a sequence parallel group. -/
  maxTokenLen : ℕ

section LogProb

variable {ρ ω : Type} (forward : ρ → ω) (seqLen : ρ → ℕ) (maxSeqLen : ℕ)
  (cfg : LogProbConfig)

/-- `compute_log_prob` of the actor; `forward` is what the model makes of a row. -/
def computeLogProb (data : List ρ) : Except Raised (List ω) :=
  if cfg.useDynamicBsz then do
    let batchIdxList ← rearrangeMicroBatches { maxTokenLen := cfg.maxTokenLen }
      maxSeqLen (data.map seqLen)
    let microBatches ← batchIdxList.mapM (DataProto.reorder data)
    if microBatches.isEmpty then .error .runtimeError
    else restoreDynamicBatch (microBatches.flatMap (·.map forward)) batchIdxList
  else do
    let microBatches ← DataProto.split data cfg.microBatchSize
    if microBatches.isEmpty then .error .runtimeError
    else .ok (microBatches.flatMap (·.map forward))

end LogProb

/-! ## Dispatch and collect -/

section Dispatch

variable {ρ ω : Type}

/-- `dispatch_nd_compute_dataproto`: the chunk of every rank. -/
def dispatchNdCompute (dpRankMapping : List ℕ) (dpSize : ℕ) (data : List ρ) :
    Except Raised (List (List ρ)) := do
  let chunks ← DataProto.chunk data dpSize
  DataProto.reorder chunks dpRankMapping

/-- `collect_nd_compute_dataproto`: no collected rank is nothing to put together. -/
def collectNdCompute (collectMask : List Bool) (output : List (List ω)) :
    Except Raised (List ω) :=
  if output.length ≠ collectMask.length then .error .assertionError
  else
    let outputInDp := ((output.zip collectMask).filter (·.2)).map (·.1)
    if outputInDp.isEmpty then .error .assertionError
    else .ok outputInDp.flatten

/-- A method of all workers, called on a batch. -/
def workerGroupCall (dpRankMapping : List ℕ) (collectMask : List Bool)
    (method : List ρ → Except Raised (List ω)) (data : List ρ) :
    Except Raised (List ω) :=
  match dpRankMapping.max? with
  | none => .error .valueError
  | some last => do
      let args ← dispatchNdCompute dpRankMapping (last + 1) data
      let output ← args.mapM method
      collectNdCompute collectMask output

/-- `dp_rank` of the ranks, in a device mesh of `dp` times `sp`. -/
def dpRankMapping (dp sp : ℕ) : List ℕ := (List.range (dp * sp)).map (· / sp)

/-- `is_collect` of the ranks. -/
def collectMask (dp sp : ℕ) : List Bool :=
  (List.range (dp * sp)).map (· % sp = 0)

end Dispatch

/-! ## What a rank computes -/

section Rank

variable {ρ ω : Type} {forward : ρ → ω} {seqLen : ρ → ℕ} {maxSeqLen : ℕ}
  {cfg : LogProbConfig} {data : List ρ}

/-- Results in the order of the micro-batches are put back. -/
theorem restoreDynamicBatch_eq {idx : List (List ℕ)} {data : List ω}
    (hcover : idx.flatten.Perm (List.range data.length)) :
    restoreDynamicBatch (idx.flatten.filterMap (data[·]?)) idx = .ok data := by
  have hlt : ∀ i ∈ idx.flatten, i < data.length := fun i hi =>
    List.mem_range.mp (hcover.subset hi)
  have hlength : idx.flatten.length = data.length := by
    rw [hcover.length_eq, List.length_range]
  have hmoved := length_filterMap_of_lt hlt
  have hall : idx.flatten.all (· < idx.flatten.length) = true := by
    rw [List.all_eq_true]
    intro i hi
    rw [hlength]
    exact decide_eq_true (hlt i hi)
  rw [restoreDynamicBatch, if_neg (not_not.mpr hmoved.symm), getReverseIdx, if_pos hall]
  have hbelow : ∀ i ∈ setAll idx.flatten idx.flatten.zipIdx,
      i < (idx.flatten.filterMap (data[·]?)).length := by
    intro i hi
    rw [hmoved, hlength]
    rcases mem_setAll hi with hold | hwritten
    · exact hlt i hold
    · rw [List.zipIdx_map_snd, hlength, ← List.range_eq_range'] at hwritten
      exact List.mem_range.mp hwritten
  show DataProto.reorder _ _ = _
  rw [reorder_of_lt hbelow, filterMap_inverse hcover]

/-- What `compute_log_prob` asserts, and that its rows have tokens. -/
def LogProbConfig.Fits (cfg : LogProbConfig) (seqLen : ρ → ℕ) (maxSeqLen : ℕ)
    (data : List ρ) : Prop :=
  data ≠ [] ∧ if cfg.useDynamicBsz then
    maxSeqLen ≤ cfg.maxTokenLen ∧
      ∀ row ∈ data, 0 < seqLen row ∧ seqLen row ≤ maxSeqLen
  else 0 < cfg.microBatchSize

theorem flatMap_map_flatten (forward : ρ → ω) (parts : List (List ρ)) :
    parts.flatMap (·.map forward) = parts.flatten.map forward := by
  rw [List.map_flatten, List.flatMap_def]

/-- **Micro-batches do not show.** A rank computes of its rows what it computes
of every row alone, in their order. -/
theorem computeLogProb_eq (hfits : cfg.Fits seqLen maxSeqLen data) :
    computeLogProb forward seqLen maxSeqLen cfg data =
      .ok (data.map forward) := by
  obtain ⟨hne, hasserted⟩ := hfits
  unfold computeLogProb
  split_ifs at hasserted ⊢ with hdynamic
  · obtain ⟨hmax, hrows⟩ := hasserted
    obtain ⟨idx, hidx, hcut, hsome, -, hcover⟩ := exists_dynamicBatch hne hmax hrows
    rw [hidx]
    show (idx.mapM (DataProto.reorder data) >>= _) = _
    rw [hcut]
    show (if (idx.map fun part => part.filterMap (data[·]?)).isEmpty then _ else
      restoreDynamicBatch _ _) = _
    rw [if_neg (by simpa using hsome), flatMap_map_flatten,
      ← List.filterMap_flatten, List.map_filterMap]
    have hcover' : idx.flatten.Perm (List.range (data.map forward).length) := by
      rwa [List.length_map]
    have hforward : (fun i => (data[i]?).map forward) =
        fun i => (data.map forward)[i]? :=
      funext fun i => List.getElem?_map.symm
    rw [hforward]
    exact restoreDynamicBatch_eq hcover'
  · obtain ⟨parts, hsplit, hflatten, -⟩ := split_spec data hasserted
    have hsome : parts ≠ [] := by
      rintro rfl
      exact hne hflatten.symm
    rw [hsplit]
    show (if parts.isEmpty then _ else _) = _
    rw [if_neg (by simpa using hsome), flatMap_map_flatten, hflatten]

end Rank

/-! ## What the worker group computes -/

section WorkerGroup

variable {ρ ω : Type} {forward : ρ → ω} {seqLen : ρ → ℕ} {maxSeqLen : ℕ}
  {cfg : LogProbConfig} {data : List ρ} {dp sp : ℕ}

/-- The ranks that are collected have the data parallel ranks in order. -/
structure CollectsAll (mapping : List ℕ) (mask : List Bool) (dp : ℕ) : Prop where
  below : ∀ r ∈ mapping, r < dp
  length : mask.length = mapping.length
  collected : ((mapping.zip mask).filter (·.2)).map (·.1) = List.range dp

/-- One rank of every sequence parallel group is collected. -/
theorem filter_mod_eq (dp : ℕ) (hsp : 0 < sp) :
    ((List.range (dp * sp)).filter (· % sp = 0)).map (· / sp) = List.range dp := by
  rw [← flatMap_range', List.filter_flatMap, List.map_flatMap]
  have hgroup : ∀ g, ((List.range' (g * sp) sp).filter (· % sp = 0)).map (· / sp) =
      [g] := by
    intro g
    obtain ⟨s, rfl⟩ := Nat.exists_eq_add_of_lt hsp
    rw [Nat.zero_add, List.range'_succ, List.filter_cons_of_pos (by simp),
      List.map_cons, Nat.mul_div_cancel _ (Nat.succ_pos s)]
    have hrest : (List.range' (g * (s + 1) + 1) s).filter (· % (s + 1) = 0) = [] := by
      rw [List.filter_eq_nil_iff]
      intro r hr
      obtain ⟨hlow, hhigh⟩ := List.mem_range'_1.mp hr
      obtain ⟨d, rfl⟩ := Nat.exists_eq_add_of_le hlow
      have hmod : (g * (s + 1) + 1 + d) % (s + 1) = 1 + d := by
        rw [Nat.add_assoc, Nat.mul_comm, Nat.mul_add_mod,
          Nat.mod_eq_of_lt (by omega)]
      rw [hmod, decide_eq_true_eq]
      omega
    rw [hrest, List.map_nil]
  rw [List.flatMap_congr fun g _ => hgroup g]
  exact List.flatMap_singleton' _

theorem collectsAll_mesh (dp : ℕ) (hsp : 0 < sp) :
    CollectsAll (dpRankMapping dp sp) (collectMask dp sp) dp where
  below := by
    intro r hr
    obtain ⟨rank, hrank, rfl⟩ := List.mem_map.mp hr
    exact Nat.div_lt_of_lt_mul (by
      rw [Nat.mul_comm]
      exact List.mem_range.mp hrank)
  length := by rw [collectMask, dpRankMapping, List.length_map, List.length_map]
  collected := by
    rw [collectMask, dpRankMapping, List.zip_map', List.filter_map, List.map_map]
    exact filter_mod_eq dp hsp

namespace CollectsAll

variable {mapping : List ℕ} {mask : List Bool}

theorem max?_eq (h : CollectsAll mapping mask (dp + 1)) : mapping.max? = some dp := by
  rw [List.max?_eq_some_iff]
  constructor
  · have hmem : dp ∈ ((mapping.zip mask).filter (·.2)).map (·.1) := by
      rw [h.collected]
      exact List.self_mem_range_succ
    obtain ⟨pair, hpair, rfl⟩ := List.mem_map.mp hmem
    exact (List.of_mem_zip (List.mem_filter.mp hpair).1).1
  · exact fun r hr => Nat.lt_succ_iff.mp (h.below r hr)

/-- The collected results are those of the chunks, in their order. -/
theorem collectNdCompute_eq (h : CollectsAll mapping mask dp) (hdp : 0 < dp)
    (result : ℕ → List ω) :
    collectNdCompute mask (mapping.map result) =
      .ok ((List.range dp).flatMap result) := by
  have hcollected : (((mapping.map result).zip mask).filter (·.2)).map (·.1) =
      (List.range dp).map result := by
    rw [← h.collected, List.zip_map_left, List.filter_map, List.map_map, List.map_map]
    rfl
  have hsome : ((List.range dp).map result).isEmpty = false := by
    simp [hdp.ne']
  rw [collectNdCompute, if_neg (by rw [List.length_map, h.length]; simp)]
  dsimp only
  rw [hcollected, hsome, if_neg Bool.false_ne_true, ← List.flatMap_def]

end CollectsAll

/-- The chunks, by data parallel rank. -/
theorem exists_chunk (hdp : 0 < dp) (hne : data ≠ []) (hdvd : dp ∣ data.length) :
    ∃ part : ℕ → List ρ,
      DataProto.chunk data dp = .ok ((List.range dp).map part) ∧
      (List.range dp).flatMap part = data ∧
      ∀ r < dp, part r ≠ [] ∧ part r ⊆ data := by
  have hlength := List.length_pos_iff.mpr hne
  have hsize : 0 < data.length / dp :=
    Nat.div_pos (Nat.le_of_dvd hlength hdvd) hdp
  refine ⟨_, DataProto.chunk_eq hdp hdvd, ?_, ?_⟩
  · rw [DataProto.flatMap_runs, Nat.mul_div_cancel' hdvd, List.take_length]
  · intro r hr
    constructor
    · have hstart : r * (data.length / dp) < dp * (data.length / dp) :=
        Nat.mul_lt_mul_of_pos_right hr hsize
      rw [Nat.mul_div_cancel' hdvd] at hstart
      rw [← List.length_pos_iff, List.length_take, List.length_drop]
      omega
    · exact fun row hrow => List.mem_of_mem_drop (List.mem_of_mem_take hrow)

/-- A method that gives every row of a chunk its result does so in the worker
group. -/
theorem workerGroupCall_eq {mapping : List ℕ} {mask : List Bool}
    (h : CollectsAll mapping mask dp) (hdp : 0 < dp)
    {method : List ρ → Except Raised (List ω)} (hne : data ≠ [])
    (hdvd : dp ∣ data.length)
    (hmethod : ∀ part, part ≠ [] → part ⊆ data →
      method part = .ok (part.map forward)) :
    workerGroupCall mapping mask method data = .ok (data.map forward) := by
  obtain ⟨part, hchunk, hflatten, hparts⟩ := exists_chunk hdp hne hdvd
  have hreorder : DataProto.reorder ((List.range dp).map part) mapping =
      .ok (mapping.map part) := by
    rw [DataProto.reorder, mapM_eq_ok_iff, List.forall₂_map_right_iff,
      List.forall₂_same]
    intro r hr
    rw [List.getElem?_map, List.getElem?_range (h.below r hr)]
    rfl
  have houtput : (mapping.map part).mapM method =
      .ok (mapping.map fun r => (part r).map forward) := by
    rw [mapM_eq_ok_iff, List.forall₂_map_left_iff, List.forall₂_map_right_iff,
      List.forall₂_same]
    intro r hr
    obtain ⟨hsome, hsubset⟩ := hparts r (h.below r hr)
    exact hmethod _ hsome hsubset
  have hmax : mapping.max? = some (dp - 1) := by
    obtain ⟨last, rfl⟩ := Nat.exists_eq_succ_of_ne_zero hdp.ne'
    exact h.max?_eq
  rw [workerGroupCall, hmax]
  dsimp only
  rw [Nat.sub_add_cancel hdp, dispatchNdCompute, hchunk]
  simp only [bind, Except.bind]
  rw [hreorder]
  dsimp only
  rw [houtput]
  dsimp only
  rw [h.collectNdCompute_eq hdp, ← List.map_flatMap, hflatten]

theorem LogProbConfig.Fits.chunk {part : List ρ} (hfits : cfg.Fits seqLen maxSeqLen data)
    (hne : part ≠ []) (hsubset : part ⊆ data) :
    cfg.Fits seqLen maxSeqLen part := by
  refine ⟨hne, ?_⟩
  have hasserted := hfits.2
  split_ifs at hasserted ⊢
  · exact ⟨hasserted.1, fun row hrow => hasserted.2 row (hsubset hrow)⟩
  · exact hasserted

/-- **Every row gets its own log probabilities.** The model is taken to compute
each row of a micro-batch by itself. Whatever the sizes of the data and the
sequence parallel groups, and with micro-batches of any size that fits, the
workers together give every row its result, in the order of the batch. -/
theorem log_probs_distributed (hdp : 0 < dp) (hsp : 0 < sp)
    (hdvd : dp ∣ data.length) (hfits : cfg.Fits seqLen maxSeqLen data) :
    workerGroupCall (dpRankMapping dp sp) (collectMask dp sp)
      (computeLogProb forward seqLen maxSeqLen cfg) data =
        .ok (data.map forward) :=
  workerGroupCall_eq (collectsAll_mesh dp hsp) hdp hfits.1 hdvd
    fun _ hne hsubset => computeLogProb_eq (hfits.chunk hne hsubset)

/-- Four rows on two data parallel ranks, each with two sequence parallel ones. -/
theorem log_probs_distributed_fourRows :
    workerGroupCall (dpRankMapping 2 2) (collectMask 2 2)
      (computeLogProb (fun row : ℕ => 10 * row) id 3 ⟨1, true, 4⟩) [3, 1, 2, 3] =
        .ok [30, 10, 20, 30] :=
  log_probs_distributed (by decide) (by decide) (by decide)
    ⟨by decide, by decide, by decide⟩

end WorkerGroup

end TTSR.Trainer
