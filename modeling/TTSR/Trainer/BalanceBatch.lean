import TTSR.Foundation.Reordering
import TTSR.Trainer.SeqlenBalancing

/-!
# Balancing a batch

`_balance_batch` reorders a batch so that the chunk of every rank costs about the
same. The partition is the one of `get_seqlen_balanced_partitions` over the
estimated workloads; within a part, cheap sequences are put at both ends. The
dispatch then cuts the batch into equal chunks again, and these are the parts.
-/

namespace TTSR.Trainer

open TTSR.Foundation

/-- Proportional to the cost of a sequence in a transformer block. -/
def calculateWorkload (seqlen : ℕ) : ℤ := 24576 * seqlen + seqlen ^ 2

/-- `xs[::2]`. -/
def everyOther {α : Type*} : List α → List α
  | [] => []
  | [x] => [x]
  | x :: _ :: xs => x :: everyOther xs

/-- `workload_lst[x]`. -/
def workloadAt (workloads : List ℤ) (x : ℕ) : ℤ := (workloads[x]?).getD 0

/-- One part, with cheap sequences at both ends. -/
def orderedPartition (workloads : List ℤ) (partition : List ℕ) : List ℕ :=
  let sorted := partition.insertionSort fun x y =>
    toLex (workloadAt workloads x, x) ≤ toLex (workloadAt workloads y, y)
  everyOther sorted ++ (everyOther (sorted.drop 1)).reverse

/-- `global_partition_lst`. -/
def globalPartitions (seqlens : List ℕ) (dpSize : ℕ) :
    Except Raised (List (List ℕ)) := do
  let workloads := seqlens.map calculateWorkload
  let partitions ← getSeqlenBalancedPartitions workloads dpSize true
  .ok (partitions.map (orderedPartition workloads))

/-- `_balance_batch` without prefix groups and mini-batches: the rows in their
new order, and the positions they come from. -/
def balanceBatch {ρ : Type} (attentionMask : ρ → List ℕ) (dpSize : ℕ)
    (batch : List ρ) : Except Raised (List ρ × List ℕ) := do
  let seqlens := batch.map fun row => (attentionMask row).sum
  let partitions ← globalPartitions seqlens dpSize
  let globalIdx := partitions.flatten
  let rows ← DataProto.reorder batch globalIdx
  .ok (rows, globalIdx)

/-! ## Reordering -/

section Reorder

variable {ρ : Type*} {data : List ρ}

/-- Positions of the batch can be looked up. -/
theorem reorder_of_lt {indices : List ℕ} (h : ∀ i ∈ indices, i < data.length) :
    DataProto.reorder data indices = .ok (indices.filterMap (data[·]?)) := by
  rw [DataProto.reorder, mapM_eq_ok_iff]
  induction indices with
  | nil => exact .nil
  | cons i indices ih =>
      have hi := List.getElem?_eq_getElem (h i List.mem_cons_self)
      rw [List.filterMap_cons_some hi]
      refine .cons ?_ (ih fun j hj => h j (List.mem_cons_of_mem _ hj))
      rw [hi]

theorem length_filterMap_of_lt {indices : List ℕ}
    (h : ∀ i ∈ indices, i < data.length) :
    (indices.filterMap (data[·]?)).length = indices.length := by
  induction indices with
  | nil => rfl
  | cons i indices ih =>
      rw [List.filterMap_cons_some
        (List.getElem?_eq_getElem (h i List.mem_cons_self)), List.length_cons,
        ih fun j hj => h j (List.mem_cons_of_mem _ hj), List.length_cons]

end Reorder

/-! ## The order within a part -/

section Ordered

variable {α : Type*}

theorem everyOther_sublist : ∀ xs : List α, (everyOther xs).Sublist xs
  | [] => .slnil
  | [_] => .refl _
  | _ :: _ :: xs => ((everyOther_sublist xs).cons _).cons_cons _

/-- The two halves of the slicing hold every element once. -/
theorem everyOther_perm : ∀ xs : List α,
    (everyOther xs ++ everyOther (xs.drop 1)).Perm xs
  | [] => .refl _
  | [_] => .refl _
  | x :: y :: xs => by
      have htail : everyOther ((x :: y :: xs).drop 1) =
          y :: everyOther (xs.drop 1) := by
        cases xs <;> rfl
      rw [htail, everyOther, List.cons_append]
      exact (List.perm_middle.trans ((everyOther_perm xs).cons y)).cons x

theorem orderedPartition_perm (workloads : List ℤ) (partition : List ℕ) :
    (orderedPartition workloads partition).Perm partition :=
  (((List.reverse_perm _).append_left _).trans (everyOther_perm _)).trans
    (List.perm_insertionSort _ _)

/-- The workloads rise, then they fall. -/
theorem orderedPartition_risesAndFalls (workloads : List ℤ)
    (partition : List ℕ) :
    ∃ rising falling, orderedPartition workloads partition = rising ++ falling ∧
      rising.Pairwise (fun x y => workloadAt workloads x ≤ workloadAt workloads y) ∧
      falling.Pairwise (fun x y => workloadAt workloads y ≤ workloadAt workloads x) := by
  let key := fun x => toLex (workloadAt workloads x, x)
  have : Std.Total fun x y => key x ≤ key y :=
    ⟨fun x y => le_total (key x) (key y)⟩
  have : IsTrans ℕ fun x y => key x ≤ key y := ⟨fun _ _ _ => le_trans⟩
  have hsorted : (partition.insertionSort fun x y => key x ≤ key y).Pairwise
      fun x y => workloadAt workloads x ≤ workloadAt workloads y := by
    refine (List.pairwise_insertionSort _ partition).imp fun hle => ?_
    rcases Prod.Lex.toLex_le_toLex.mp hle with hlt | heq
    · exact hlt.le
    · exact heq.1.le
  refine ⟨_, _, rfl, hsorted.sublist (everyOther_sublist _), ?_⟩
  rw [List.pairwise_reverse]
  exact hsorted.sublist ((everyOther_sublist _).trans (List.drop_sublist _ _))

end Ordered

/-! ## What the ranks get -/

section Dispatch

variable {ρ : Type} (attentionMask : ρ → List ℕ)

/-- The estimated cost of a row. -/
def rowWorkload (row : ρ) : ℤ := calculateWorkload (attentionMask row).sum

theorem calculateWorkload_mono {a b : ℕ} (h : a ≤ b) :
    calculateWorkload a ≤ calculateWorkload b := by
  rw [calculateWorkload, calculateWorkload]
  gcongr

theorem workloads_eq (batch : List ρ) :
    (batch.map fun row => (attentionMask row).sum).map calculateWorkload =
      batch.map (rowWorkload attentionMask) := by
  rw [List.map_map]
  rfl

theorem workloadAt_eq {batch : List ρ} {x : ℕ} {row : ρ}
    (h : batch[x]? = some row) :
    workloadAt (batch.map (rowWorkload attentionMask)) x =
      rowWorkload attentionMask row := by
  rw [workloadAt, List.getElem?_map, h]
  rfl

/-- The cost of the rows of a part is its load. -/
theorem sum_rowWorkload {batch : List ρ} {part : List ℕ}
    (h : ∀ i ∈ part, i < batch.length) :
    ((part.filterMap (batch[·]?)).map (rowWorkload attentionMask)).sum =
      load (batch.map (rowWorkload attentionMask)) part := by
  induction part with
  | nil => rfl
  | cons i part ih =>
      have hi := List.getElem?_eq_getElem (h i List.mem_cons_self)
      have hrest := ih fun j hj => h j (List.mem_cons_of_mem _ hj)
      have hload := workloadAt_eq attentionMask hi
      rw [workloadAt] at hload
      rw [List.filterMap_cons_some hi, List.map_cons, List.sum_cons, hrest, load,
        load, List.map_cons, List.sum_cons, hload]

variable {attentionMask}

/-- The order of the whole batch: each position once, in parts of one size. -/
theorem globalPartitions_spec {batch : List ρ} {dpSize lo hi : ℕ}
    (hk : 0 < dpSize) (hne : batch ≠ []) (hdvd : dpSize ∣ batch.length)
    (hlength : ∀ row ∈ batch,
      lo ≤ (attentionMask row).sum ∧ (attentionMask row).sum ≤ hi) :
    ∃ partitions, globalPartitions
        (batch.map fun row => (attentionMask row).sum) dpSize = .ok partitions ∧
      partitions.length = dpSize ∧
      partitions.flatten.Perm (List.range batch.length) ∧
      (∀ part ∈ partitions, part.length * dpSize = batch.length) ∧
      (∀ p ∈ partitions, ∀ q ∈ partitions,
        load (batch.map (rowWorkload attentionMask)) p ≤
          load (batch.map (rowWorkload attentionMask)) q +
            (calculateWorkload hi - calculateWorkload lo)) ∧
      ∀ part ∈ partitions, ∃ original,
        part = orderedPartition (batch.map (rowWorkload attentionMask)) original := by
  let workloads := batch.map (rowWorkload attentionMask)
  have hcount : workloads.length = batch.length := List.length_map _
  have hvalues : ∀ v ∈ workloads,
      calculateWorkload lo ≤ v ∧ v ≤ calculateWorkload hi := by
    intro v hv
    obtain ⟨row, hrow, rfl⟩ := List.mem_map.mp hv
    exact ⟨calculateWorkload_mono (hlength row hrow).1,
      calculateWorkload_mono (hlength row hrow).2⟩
  obtain ⟨parts, hparts, hbalanced, hsize⟩ := balanced_equal hk
    (hcount ▸ List.length_pos_iff.mpr hne) (hcount ▸ hdvd) hvalues
  have hperm := orderedPartition_perm workloads
  refine ⟨parts.map (orderedPartition workloads), ?_, ?_, ?_, ?_, ?_, ?_⟩
  · rw [globalPartitions, workloads_eq, hparts]
    rfl
  · rw [List.length_map, hbalanced.count]
  · rw [← hcount]
    refine List.Perm.trans ?_ hbalanced.cover
    rw [← List.flatMap_def, ← List.flatMap_id]
    exact List.Perm.flatMap_left _ fun part _ => hperm part
  · intro part hpart
    obtain ⟨part', hpart', rfl⟩ := List.mem_map.mp hpart
    rw [(hperm part').length_eq, hsize part' hpart', hcount]
  · intro p hp q hq
    obtain ⟨p', hp', rfl⟩ := List.mem_map.mp hp
    obtain ⟨q', hq', rfl⟩ := List.mem_map.mp hq
    have hload : ∀ part, load workloads (orderedPartition workloads part) =
        load workloads part := fun part => ((hperm part).map _).sum_eq
    rw [hload, hload]
    exact hbalanced.close p' hp' q' hq'
  · intro part hpart
    obtain ⟨part', -, rfl⟩ := List.mem_map.mp hpart
    exact ⟨part', rfl⟩

/-- The rows are looked up at the positions of the parts. -/
theorem balanceBatch_of_partitions {batch : List ρ} {dpSize : ℕ}
    {partitions : List (List ℕ)}
    (hpartitions : globalPartitions
      (batch.map fun row => (attentionMask row).sum) dpSize = .ok partitions)
    (hcover : partitions.flatten.Perm (List.range batch.length)) :
    balanceBatch attentionMask dpSize batch =
        .ok (partitions.flatten.filterMap (batch[·]?), partitions.flatten) := by
  have hlt : ∀ i ∈ partitions.flatten, i < batch.length := fun i hi =>
    List.mem_range.mp (hcover.mem_iff.mp hi)
  rw [balanceBatch, hpartitions]
  show (DataProto.reorder batch partitions.flatten >>= _) = _
  rw [reorder_of_lt hlt]
  rfl

/-- The batch is reordered along a permutation of its positions. -/
theorem balanceBatch_spec {batch : List ρ} {dpSize : ℕ}
    (hk : 0 < dpSize) (hne : batch ≠ []) (hdvd : dpSize ∣ batch.length) :
    ∃ globalIdx : List ℕ, balanceBatch attentionMask dpSize batch =
        .ok (globalIdx.filterMap (batch[·]?), globalIdx) ∧
      globalIdx.Perm (List.range batch.length) := by
  have hbounds : ∀ row ∈ batch, 0 ≤ (attentionMask row).sum ∧
      (attentionMask row).sum ≤
        (batch.map fun row => (attentionMask row).sum).sum := by
    intro row hrow
    exact ⟨Nat.zero_le _, List.le_sum_of_mem (List.mem_map_of_mem hrow)⟩
  obtain ⟨partitions, hpartitions, -, hcover, -⟩ :=
    globalPartitions_spec hk hne hdvd hbounds
  exact ⟨_, balanceBatch_of_partitions hpartitions hcover, hcover⟩

/-- The rows of an ordered part, in two runs. -/
theorem rows_riseAndFall (batch : List ρ) (original : List ℕ) :
    ∃ rising falling, (orderedPartition (batch.map (rowWorkload attentionMask))
        original).filterMap (batch[·]?) = rising ++ falling ∧
      rising.Pairwise (fun r r' =>
        rowWorkload attentionMask r ≤ rowWorkload attentionMask r') ∧
      falling.Pairwise (fun r r' =>
        rowWorkload attentionMask r' ≤ rowWorkload attentionMask r) := by
  obtain ⟨rising, falling, heq, hrising, hfalling⟩ :=
    orderedPartition_risesAndFalls (batch.map (rowWorkload attentionMask)) original
  refine ⟨rising.filterMap (batch[·]?), falling.filterMap (batch[·]?), ?_, ?_, ?_⟩
  · rw [heq]
    exact List.filterMap_append
  · refine List.Pairwise.filterMap _ (fun x y hxy row hrow row' hrow' => ?_) hrising
    rwa [workloadAt_eq attentionMask hrow, workloadAt_eq attentionMask hrow'] at hxy
  · refine List.Pairwise.filterMap _ (fun x y hxy row hrow row' hrow' => ?_) hfalling
    rwa [workloadAt_eq attentionMask hrow, workloadAt_eq attentionMask hrow'] at hxy

/-- **Balanced ranks.** If the batch can be cut into equal chunks, balancing keeps
its rows, and the chunks that the dispatch makes of the reordered batch cost
about the same: at most as far apart as two single rows. Within a chunk the cost
of the rows rises, then falls. -/
theorem balanceBatch_dispatch {batch : List ρ} {dpSize lo hi : ℕ}
    (hk : 0 < dpSize) (hne : batch ≠ []) (hdvd : dpSize ∣ batch.length)
    (hlength : ∀ row ∈ batch,
      lo ≤ (attentionMask row).sum ∧ (attentionMask row).sum ≤ hi) :
    ∃ rows globalIdx chunks, balanceBatch attentionMask dpSize batch =
        .ok (rows, globalIdx) ∧
      rows.Perm batch ∧ DataProto.chunk rows dpSize = .ok chunks ∧
      (∀ c ∈ chunks, ∀ c' ∈ chunks,
        (c.map (rowWorkload attentionMask)).sum ≤
          (c'.map (rowWorkload attentionMask)).sum +
            (calculateWorkload hi - calculateWorkload lo)) ∧
      ∀ c ∈ chunks, ∃ rising falling, c = rising ++ falling ∧
        rising.Pairwise (fun r r' =>
          rowWorkload attentionMask r ≤ rowWorkload attentionMask r') ∧
        falling.Pairwise (fun r r' =>
          rowWorkload attentionMask r' ≤ rowWorkload attentionMask r) := by
  obtain ⟨partitions, hpartitions, hcount, hcover, hsize, hclose, hordered⟩ :=
    globalPartitions_spec hk hne hdvd hlength
  have hlt : ∀ part ∈ partitions, ∀ i ∈ part, i < batch.length := by
    intro part hpart i hi
    exact List.mem_range.mp (hcover.mem_iff.mp (List.mem_flatten_of_mem hpart hi))
  let rowsOf := fun part : List ℕ => part.filterMap (batch[·]?)
  have hflatten : partitions.flatten.filterMap (batch[·]?) =
      (partitions.map rowsOf).flatten := List.filterMap_flatten
  have hchunk : DataProto.chunk (partitions.map rowsOf).flatten dpSize =
      .ok (partitions.map rowsOf) := by
    have hparts : partitions.map rowsOf ≠ [] := by
      rw [← List.length_pos_iff, List.length_map, hcount]
      exact hk
    have hequal : ∀ c ∈ partitions.map rowsOf,
        c.length = batch.length / dpSize := by
      intro c hc
      obtain ⟨part, hpart, rfl⟩ := List.mem_map.mp hc
      rw [length_filterMap_of_lt (hlt part hpart), ← hsize part hpart,
        Nat.mul_div_cancel _ hk]
    have := DataProto.chunk_flatten hparts hequal
    rwa [List.length_map, hcount] at this
  refine ⟨_, _, partitions.map rowsOf,
    balanceBatch_of_partitions hpartitions hcover, ?_, ?_, ?_, ?_⟩
  · have hperm := hcover.filterMap (batch[·]?)
    rwa [filterMap_range_getElem?] at hperm
  · rw [hflatten, hchunk]
  · intro c hc c' hc'
    obtain ⟨part, hpart, rfl⟩ := List.mem_map.mp hc
    obtain ⟨part', hpart', rfl⟩ := List.mem_map.mp hc'
    rw [sum_rowWorkload attentionMask (hlt part hpart),
      sum_rowWorkload attentionMask (hlt part' hpart')]
    exact hclose part hpart part' hpart'
  · intro c hc
    obtain ⟨part, hpart, rfl⟩ := List.mem_map.mp hc
    obtain ⟨original, rfl⟩ := hordered part hpart
    exact rows_riseAndFall batch original

theorem balanceBatch_dispatch_fourRows :
    ∃ rows globalIdx chunks, balanceBatch (fun n => List.replicate n 1) 2
        [3, 1, 2, 2] = .ok (rows, globalIdx) ∧
      rows.Perm [3, 1, 2, 2] ∧ DataProto.chunk rows 2 = .ok chunks ∧
      (∀ c ∈ chunks, ∀ c' ∈ chunks,
        (c.map (rowWorkload fun n => List.replicate n 1)).sum ≤
          (c'.map (rowWorkload fun n => List.replicate n 1)).sum +
            (calculateWorkload 3 - calculateWorkload 1)) ∧
      ∀ c ∈ chunks, ∃ rising falling, c = rising ++ falling ∧
        rising.Pairwise (fun r r' => rowWorkload (fun n => List.replicate n 1) r ≤
          rowWorkload (fun n => List.replicate n 1) r') ∧
        falling.Pairwise (fun r r' =>
          rowWorkload (fun n => List.replicate n 1) r' ≤
            rowWorkload (fun n => List.replicate n 1) r) :=
  balanceBatch_dispatch (by decide) (by decide) (by decide) (by decide)

end Dispatch

end TTSR.Trainer
