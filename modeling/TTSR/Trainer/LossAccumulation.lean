import Mathlib.Algebra.BigOperators.Ring.List
import Mathlib.Data.Nat.Cast.Field
import TTSR.Trainer.MicroBatches

/-!
# Accumulated losses

`update_policy` does not take the loss of a mini-batch at once. It aggregates the
loss of every micro-batch, scales it and adds up the gradients. Whether this is
the gradient of the loss of the mini-batch depends on how `agg_loss` aggregates.

- `accumulated_loss_iff`: a mean over sequences is accumulated exactly, by any
  micro-batches; a mean over tokens only if every micro-batch has the same mean
  response length.
-/

namespace TTSR.Trainer

open TTSR.Foundation

/-! ## Aggregation -/

/-- `loss_agg_mode`. -/
inductive LossAggMode where
  | tokenMean
  | seqMeanTokenSum
  | seqMeanTokenSumNorm
  | seqMeanTokenMean
deriving DecidableEq

section Aggregate

variable {ρ K : Type} [Field K] [LinearOrder K]
  (lossMat lossMask : ρ → List K)

/-- `torch.sum(loss_mat * loss_mask, dim=-1)`, of one row. -/
def tokenSum (row : ρ) : K :=
  (List.zipWith (· * ·) (lossMat row) (lossMask row)).sum

def tokenCount (row : ρ) : K := (lossMask row).sum

/-- Rows that are masked as a whole do not count. -/
def seqMask (row : ρ) : K := if 0 < tokenCount lossMask row then 1 else 0

/-- The `masked_sum` of `seq_losses`, divided by `seq_mask.sum()`. -/
def seqMean (seqLoss : ρ → K) (rows : List ρ) : K :=
  (rows.map fun row => seqLoss row * seqMask lossMask row).sum /
    (rows.map (seqMask lossMask)).sum

/-- `agg_loss` as `update_policy` calls it, with the batch that it is given as
the whole one; `horizon` is the width of the masks. -/
def aggLoss (horizon : K) (mode : LossAggMode) (rows : List ρ) : K :=
  match mode with
  | .tokenMean =>
      (rows.map (tokenSum lossMat lossMask)).sum /
        (rows.map (tokenCount lossMask)).sum
  | .seqMeanTokenSum => seqMean lossMask (tokenSum lossMat lossMask) rows
  | .seqMeanTokenSumNorm =>
      seqMean lossMask (tokenSum lossMat lossMask) rows / horizon
  | .seqMeanTokenMean =>
      seqMean lossMask (fun row => tokenSum lossMat lossMask row /
        (tokenCount lossMask row + 1 / 10 ^ 8)) rows

end Aggregate

/-! ## Micro-batches of a mini-batch -/

structure UpdateConfig where
  ppoMiniBatchSize : ℕ
  ppoMicroBatchSize : ℕ
  useDynamicBsz : Bool
  /-- `ppo_max_token_len_per_gpu`, times the ranks of a sequence parallel group. -/
  maxTokenLen : ℕ

section Accumulate

variable {ρ : Type} (seqLen : ρ → ℕ) (maxSeqLen : ℕ) (cfg : UpdateConfig)

def microBatches (miniBatch : List ρ) : Except Raised (List (List ρ)) :=
  if cfg.useDynamicBsz then do
    let batchIdxList ← rearrangeMicroBatches { maxTokenLen := cfg.maxTokenLen }
      maxSeqLen (miniBatch.map seqLen)
    batchIdxList.mapM (DataProto.reorder miniBatch)
  else DataProto.split miniBatch cfg.ppoMicroBatchSize

variable (K : Type) [Field K]

def lossScaleFactor (microBatch : List ρ) : K :=
  if cfg.useDynamicBsz then microBatch.length / cfg.ppoMiniBatchSize
  else 1 / (cfg.ppoMiniBatchSize / cfg.ppoMicroBatchSize : ℕ)

variable {K} [LinearOrder K]

/-- What the gradients that `update_policy` adds up are the gradient of. -/
def accumulatedLoss (lossMat lossMask : ρ → List K) (horizon : K)
    (mode : LossAggMode) (parts : List (List ρ)) : K :=
  (parts.map fun microBatch =>
    aggLoss lossMat lossMask horizon mode microBatch *
      lossScaleFactor cfg K microBatch).sum

end Accumulate

/-! ## The scale of a micro-batch -/

section Scale

variable {ρ : Type} {seqLen : ρ → ℕ} {maxSeqLen : ℕ} {cfg : UpdateConfig}
  {data : List ρ}

/-- A full mini-batch, for which the assertions hold. -/
def UpdateConfig.Fits (cfg : UpdateConfig) (seqLen : ρ → ℕ) (maxSeqLen : ℕ)
    (data : List ρ) : Prop :=
  data ≠ [] ∧ data.length = cfg.ppoMiniBatchSize ∧
    if cfg.useDynamicBsz then
      maxSeqLen ≤ cfg.maxTokenLen ∧
        ∀ row ∈ data, 0 < seqLen row ∧ seqLen row ≤ maxSeqLen
    else 0 < cfg.ppoMicroBatchSize ∧ cfg.ppoMicroBatchSize ∣ cfg.ppoMiniBatchSize

/-- The micro-batches hold the rows once, and are scaled by their share of them. -/
theorem microBatches_spec {K : Type} [Field K] [CharZero K]
    (hfits : cfg.Fits seqLen maxSeqLen data) :
    ∃ parts, microBatches seqLen maxSeqLen cfg data = .ok parts ∧
      parts.flatten.Perm data ∧ (∀ part ∈ parts, part ≠ []) ∧
      ∀ part ∈ parts, lossScaleFactor cfg K part =
        (part.length : K) / (data.length : K) := by
  obtain ⟨hne, hlength, hasserted⟩ := hfits
  unfold microBatches
  split_ifs at hasserted ⊢ with hdynamic
  · obtain ⟨hmax, hrows⟩ := hasserted
    obtain ⟨idx, hidx, hcut, -, hsome, hcover⟩ := exists_dynamicBatch hne hmax hrows
    refine ⟨_, by rw [hidx]; exact hcut, ?_, ?_, ?_⟩
    · rw [← List.filterMap_flatten]
      have hperm := hcover.filterMap (data[·]?)
      rwa [filterMap_range_getElem?] at hperm
    · intro part hpart
      obtain ⟨positions, hpositions, rfl⟩ := List.mem_map.mp hpart
      rw [← List.length_pos_iff, length_filterMap_of_lt, List.length_pos_iff]
      · exact hsome positions hpositions
      · exact fun i hi => List.mem_range.mp (hcover.subset
          (List.mem_flatten.mpr ⟨positions, hpositions, hi⟩))
    · intro part _
      rw [lossScaleFactor, if_pos hdynamic, hlength]
  · obtain ⟨hpos, hdvd⟩ := hasserted
    obtain ⟨parts, hsplit, hflatten, hsize⟩ := split_spec data hpos
    have hsize := hsize (hlength ▸ hdvd)
    refine ⟨parts, hsplit, hflatten ▸ .refl _, ?_, ?_⟩
    · intro part hpart
      rw [← List.length_pos_iff, hsize part hpart]
      exact hpos
    · intro part hpart
      have hmicro : (cfg.ppoMicroBatchSize : K) ≠ 0 := Nat.cast_ne_zero.mpr hpos.ne'
      rw [lossScaleFactor, if_neg hdynamic, hsize part hpart, hlength,
        Nat.cast_div hdvd hmicro, one_div_div]

end Scale

/-! ## Adding up -/

section Sums

variable {ρ K : Type} [Field K] {parts : List (List ρ)} {data : List ρ}

theorem sum_map_div {α : Type} (f : α → K) (c : K) (xs : List α) :
    (xs.map fun x => f x / c).sum = (xs.map f).sum / c := by
  simp only [div_eq_mul_inv, List.sum_map_mul_right]

/-- Sums over the micro-batches make up the sum over the mini-batch. -/
theorem sum_parts (hperm : parts.flatten.Perm data) (f : ρ → K) :
    (parts.map fun part => (part.map f).sum).sum = (data.map f).sum := by
  rw [← (hperm.map f).sum_eq, List.map_flatten, List.sum_flatten, List.map_map]
  rfl

variable [LinearOrder K] [IsStrictOrderedRing K] {cfg : UpdateConfig}
  {lossMat lossMask : ρ → List K} {horizon : K}

omit [IsStrictOrderedRing K] in
theorem seqMean_eq {rows : List ρ} (seqLoss : ρ → K)
    (hcounted : ∀ row ∈ rows, 0 < tokenCount lossMask row) :
    seqMean lossMask seqLoss rows = (rows.map seqLoss).sum / rows.length := by
  have hmask : ∀ row ∈ rows, seqMask lossMask row = 1 := fun row hrow =>
    if_pos (hcounted row hrow)
  have hlosses : rows.map (fun row => seqLoss row * seqMask lossMask row) =
      rows.map seqLoss := by
    apply List.map_congr_left
    intro row hrow
    rw [hmask row hrow, mul_one]
  have hsum : (rows.map (seqMask lossMask)).sum = rows.length := by
    rw [List.map_congr_left hmask, List.map_const', List.sum_replicate, nsmul_one]
  rw [seqMean, hlosses, hsum]

omit [IsStrictOrderedRing K] in
/-- Every mode but one is a mean over the rows. -/
theorem exists_seqLoss (lossMat lossMask : ρ → List K) (horizon : K)
    {mode : LossAggMode} (hmode : mode ≠ .tokenMean) :
    ∃ seqLoss : ρ → K, ∀ rows : List ρ,
      (∀ row ∈ rows, 0 < tokenCount lossMask row) →
      aggLoss lossMat lossMask horizon mode rows =
        (rows.map seqLoss).sum / rows.length := by
  cases mode with
  | tokenMean => exact absurd rfl hmode
  | seqMeanTokenSum => exact ⟨_, fun rows h => seqMean_eq _ h⟩
  | seqMeanTokenSumNorm =>
      refine ⟨fun row => tokenSum lossMat lossMask row / horizon, fun rows h => ?_⟩
      rw [aggLoss, seqMean_eq _ h, sum_map_div, div_right_comm]
  | seqMeanTokenMean => exact ⟨_, fun rows h => seqMean_eq _ h⟩

theorem accumulatedLoss_of_seqMean (hperm : parts.flatten.Perm data)
    (hsome : ∀ part ∈ parts, part ≠ [])
    (hscale : ∀ part ∈ parts, lossScaleFactor cfg K part =
      (part.length : K) / (data.length : K))
    (hcounted : ∀ row ∈ data, 0 < tokenCount lossMask row)
    {mode : LossAggMode} (hmode : mode ≠ .tokenMean) :
    accumulatedLoss cfg lossMat lossMask horizon mode parts =
      aggLoss lossMat lossMask horizon mode data := by
  obtain ⟨seqLoss, hloss⟩ := exists_seqLoss lossMat lossMask horizon hmode
  have hterm : ∀ part ∈ parts,
      aggLoss lossMat lossMask horizon mode part * lossScaleFactor cfg K part =
        (part.map seqLoss).sum / data.length := by
    intro part hpart
    have hcounted' : ∀ row ∈ part, 0 < tokenCount lossMask row := fun row hrow =>
      hcounted row (hperm.subset (List.mem_flatten.mpr ⟨part, hpart, hrow⟩))
    have hlength : (part.length : K) ≠ 0 :=
      Nat.cast_ne_zero.mpr (List.length_pos_iff.mpr (hsome part hpart)).ne'
    rw [hscale part hpart, hloss part hcounted', div_mul_div_cancel₀ hlength]
  rw [accumulatedLoss, List.map_congr_left hterm, sum_map_div, sum_parts hperm,
    hloss data hcounted]

end Sums

/-! ## Means over tokens -/

section Tokens

variable {ρ K : Type} [Field K] {lossMask : ρ → List K}

/-- A loss of 1 for each token of some rows. -/
def indicatorLoss (lossMask : ρ → List K) (rows : List ρ) [DecidableEq ρ] (row : ρ) :
    List K :=
  if row ∈ rows then (lossMask row).map fun _ => 1 else []

theorem zipWith_map_one (xs : List K) :
    List.zipWith (· * ·) (xs.map fun _ => 1) xs = xs := by
  induction xs with
  | nil => rfl
  | cons x xs ih => rw [List.map_cons, List.zipWith_cons_cons, ih, one_mul]

variable [DecidableEq ρ]

theorem sum_indicatorLoss_self (rows : List ρ) :
    (rows.map (tokenSum (indicatorLoss lossMask rows) lossMask)).sum =
      (rows.map (tokenCount lossMask)).sum := by
  congr 1
  apply List.map_congr_left
  intro row hrow
  rw [tokenSum, indicatorLoss, if_pos hrow, zipWith_map_one, tokenCount]

theorem sum_indicatorLoss_disjoint {rows others : List ρ}
    (hdisjoint : ∀ row ∈ others, row ∉ rows) :
    (others.map (tokenSum (indicatorLoss lossMask rows) lossMask)).sum = 0 := by
  have hzero : ∀ row ∈ others,
      tokenSum (indicatorLoss lossMask rows) lossMask row = 0 := by
    intro row hrow
    rw [tokenSum, indicatorLoss, if_neg (hdisjoint row hrow), List.zipWith_nil_left,
      List.sum_nil]
  rw [List.map_congr_left hzero, List.map_const', List.sum_replicate, nsmul_zero]

variable (lossMask) in
/-- Of sums over the micro-batches only that of the rows is left. -/
theorem sum_parts_indicatorLoss {parts : List (List ρ)} (hnodup : parts.flatten.Nodup)
    {rows : List ρ} (hrows : rows ∈ parts) (weight : List ρ → K) :
    (parts.map fun part =>
      (part.map (tokenSum (indicatorLoss lossMask rows) lossMask)).sum *
        weight part).sum =
      (rows.map (tokenCount lossMask)).sum * weight rows := by
  obtain ⟨pre, post, rfl⟩ := List.append_of_mem hrows
  rw [List.nodup_flatten, List.pairwise_append, List.pairwise_cons] at hnodup
  obtain ⟨-, -, ⟨hpost, -⟩, hpre⟩ := hnodup
  have hterm : ∀ part ∈ pre ++ post,
      (part.map (tokenSum (indicatorLoss lossMask rows) lossMask)).sum *
        weight part = 0 := by
    intro part hpart
    rw [sum_indicatorLoss_disjoint, zero_mul]
    intro row hrow hmem
    rcases List.mem_append.mp hpart with h | h
    · exact hpre part h rows List.mem_cons_self hrow hmem
    · exact hpost part h hmem hrow
  have hothers : ((pre ++ post).map fun part =>
      (part.map (tokenSum (indicatorLoss lossMask rows) lossMask)).sum *
        weight part).sum = 0 := by
    rw [List.map_congr_left hterm, List.map_const', List.sum_replicate, nsmul_zero]
  rw [List.map_append, List.sum_append] at hothers
  rw [List.map_append, List.map_cons, List.sum_append, List.sum_cons,
    add_left_comm, hothers, add_zero, sum_indicatorLoss_self]

end Tokens

section Main

variable {ρ K : Type} [Field K] [LinearOrder K] [IsStrictOrderedRing K]
  {cfg : UpdateConfig} {lossMask : ρ → List K} {horizon : K}
  {parts : List (List ρ)} {data : List ρ}

theorem tokenCount_pos {rows : List ρ} (hne : rows ≠ [])
    (hcounted : ∀ row ∈ rows, 0 < tokenCount lossMask row) :
    0 < (rows.map (tokenCount lossMask)).sum := by
  apply List.sum_pos
  · intro x hx
    obtain ⟨row, hrow, rfl⟩ := List.mem_map.mp hx
    exact hcounted row hrow
  · exact fun hnil => hne (List.map_eq_nil_iff.mp hnil)

/-- What a token of a micro-batch weighs in the accumulated mean over tokens. -/
def tokenWeight (lossMask : ρ → List K) (data part : List ρ) : K :=
  1 / (part.map (tokenCount lossMask)).sum * (part.length / data.length)

omit [IsStrictOrderedRing K] in
theorem accumulatedLoss_tokenMean
    (hscale : ∀ part ∈ parts, lossScaleFactor cfg K part =
      (part.length : K) / (data.length : K)) (lossMat : ρ → List K) :
    accumulatedLoss cfg lossMat lossMask horizon .tokenMean parts =
      (parts.map fun part => (part.map (tokenSum lossMat lossMask)).sum *
        tokenWeight lossMask data part).sum := by
  unfold accumulatedLoss
  congr 1
  apply List.map_congr_left
  intro part hpart
  rw [hscale part hpart, aggLoss, tokenWeight, div_eq_mul_one_div, mul_assoc]

/-- The weight is that of the mini-batch exactly at its mean response length. -/
theorem tokenWeight_eq_iff {part : List ρ}
    (hpart : (part.map (tokenCount lossMask)).sum ≠ 0)
    (htotal : (data.map (tokenCount lossMask)).sum ≠ 0) (hne : data ≠ []) :
    tokenWeight lossMask data part = 1 / (data.map (tokenCount lossMask)).sum ↔
      (part.map (tokenCount lossMask)).sum * data.length =
        (data.map (tokenCount lossMask)).sum * part.length := by
  have hdata : (data.length : K) ≠ 0 :=
    Nat.cast_ne_zero.mpr (List.length_pos_iff.mpr hne).ne'
  rw [tokenWeight, div_mul_div_comm, one_mul,
    div_eq_div_iff (mul_ne_zero hpart hdata) htotal, one_mul,
    mul_comm (part.length : K), eq_comm]

theorem accumulatedLoss_tokenMean_iff (hnodup : data.Nodup) (hne : data ≠ [])
    (hperm : parts.flatten.Perm data) (hsome : ∀ part ∈ parts, part ≠ [])
    (hscale : ∀ part ∈ parts, lossScaleFactor cfg K part =
      (part.length : K) / (data.length : K))
    (hcounted : ∀ row ∈ data, 0 < tokenCount lossMask row) :
    (∀ lossMat, accumulatedLoss cfg lossMat lossMask horizon .tokenMean parts =
      aggLoss lossMat lossMask horizon .tokenMean data) ↔
    ∀ part ∈ parts, (part.map (tokenCount lossMask)).sum * data.length =
      (data.map (tokenCount lossMask)).sum * part.length := by
  classical
  have htotal := (tokenCount_pos hne hcounted).ne'
  have hpart : ∀ part ∈ parts, (part.map (tokenCount lossMask)).sum ≠ 0 := by
    intro part hpart
    refine (tokenCount_pos (hsome part hpart) fun row hrow => ?_).ne'
    exact hcounted row (hperm.subset (List.mem_flatten.mpr ⟨part, hpart, hrow⟩))
  have hflat := hperm.nodup_iff.mpr hnodup
  constructor
  -- a loss of 1 for the tokens of one micro-batch shows what they weigh
  · intro h part hmem
    have hindicator := h (indicatorLoss lossMask part)
    have hsum : (data.map (tokenSum (indicatorLoss lossMask part) lossMask)).sum =
        (part.map (tokenCount lossMask)).sum := by
      have hone := sum_parts_indicatorLoss lossMask hflat hmem fun _ => 1
      simp only [mul_one] at hone
      rw [← sum_parts hperm, hone]
    rw [accumulatedLoss_tokenMean hscale,
      sum_parts_indicatorLoss lossMask hflat hmem, aggLoss, hsum,
      div_eq_mul_one_div] at hindicator
    rw [← tokenWeight_eq_iff (hpart part hmem) htotal hne]
    exact mul_left_cancel₀ (hpart part hmem) hindicator
  · intro h lossMat
    have hterm : ∀ part ∈ parts,
        (part.map (tokenSum lossMat lossMask)).sum * tokenWeight lossMask data part =
          (part.map (tokenSum lossMat lossMask)).sum /
            (data.map (tokenCount lossMask)).sum := by
      intro part hmem
      rw [(tokenWeight_eq_iff (hpart part hmem) htotal hne).mpr (h part hmem),
        mul_one_div]
    rw [accumulatedLoss_tokenMean hscale, List.map_congr_left hterm, sum_map_div,
      sum_parts hperm, aggLoss]

/-- **When the accumulated gradients are those of the mini-batch.** For a full
mini-batch of rows that have tokens, the micro-batches hold every row once. What
is accumulated over them is the loss of the mini-batch, whatever the losses of
the tokens, unless it is a mean over tokens; then it is so if and only if every
micro-batch has the mean response length of the mini-batch. -/
theorem accumulated_loss_iff {seqLen : ρ → ℕ} {maxSeqLen : ℕ}
    (hfits : cfg.Fits seqLen maxSeqLen data) (hnodup : data.Nodup)
    (hcounted : ∀ row ∈ data, 0 < tokenCount lossMask row) (horizon : K)
    (mode : LossAggMode) :
    ∃ parts, microBatches seqLen maxSeqLen cfg data = .ok parts ∧
      parts.flatten.Perm data ∧
      ((∀ lossMat, accumulatedLoss cfg lossMat lossMask horizon mode parts =
          aggLoss lossMat lossMask horizon mode data) ↔
        (mode = .tokenMean → ∀ part ∈ parts,
          (part.map (tokenCount lossMask)).sum * data.length =
            (data.map (tokenCount lossMask)).sum * part.length)) := by
  obtain ⟨parts, hparts, hperm, hsome, hscale⟩ := microBatches_spec (K := K) hfits
  refine ⟨parts, hparts, hperm, ?_⟩
  by_cases hmode : mode = .tokenMean
  · subst hmode
    rw [accumulatedLoss_tokenMean_iff hnodup hfits.1 hperm hsome hscale hcounted]
    exact ⟨fun h _ => h, fun h => h rfl⟩
  · refine iff_of_true (fun lossMat => ?_) fun h => absurd h hmode
    exact accumulatedLoss_of_seqMean hperm hsome hscale hcounted hmode

/-- Two rows with two tokens, two with one. -/
def exampleMask (row : ℕ) : List ℚ := if row < 2 then [1, 1] else [1, 0]

/-- In micro-batches of two rows, the tokens of the short rows weigh twice as much
as those of the long ones. -/
theorem accumulated_loss_iff_fourRows :
    ∃ parts, microBatches (fun _ => 2) 2 ⟨4, 2, false, 0⟩ [0, 1, 2, 3] = .ok parts ∧
      parts.flatten.Perm [0, 1, 2, 3] ∧
      ((∀ lossMat, accumulatedLoss ⟨4, 2, false, 0⟩ lossMat exampleMask 2 .tokenMean
            parts =
          aggLoss lossMat exampleMask 2 .tokenMean [0, 1, 2, 3]) ↔
        (LossAggMode.tokenMean = .tokenMean → ∀ part ∈ parts,
          (part.map (tokenCount exampleMask)).sum * ([0, 1, 2, 3] : List ℕ).length =
            ([0, 1, 2, 3].map (tokenCount exampleMask)).sum * part.length)) := by
  have hfits : UpdateConfig.Fits ⟨4, 2, false, 0⟩ (fun _ => 2) 2 [0, 1, 2, 3] :=
    ⟨by decide, rfl, by decide, by decide⟩
  exact accumulated_loss_iff hfits (by decide) (by decide +kernel) 2 .tokenMean

end Main

end TTSR.Trainer
