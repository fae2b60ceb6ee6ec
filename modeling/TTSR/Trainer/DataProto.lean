import Mathlib.Data.List.Forall2
import Mathlib.Data.List.Nodup
import Mathlib.Data.List.Flatten
import Mathlib.Tactic.SplitIfs
import TTSR.Foundation.Value

/-!
# Batches of rows

A `DataProto` is a batch of rows; its tensors and arrays agree on the first
axis, so that row `i` of each belongs to one sample. Before the samples are
generated the batch is repeated, filled up to a multiple of the number of
workers and cut into one chunk for each; afterwards the chunks are put together
and the filling is cut off. What a worker does is a parameter: a list of answers
that stand in a relation to its rows, one by one.

The filling consists of rows of the batch, so some prompts have more samples
than the others while the rewards are computed (`group_sizes_iff`).
-/

namespace TTSR.Trainer

open TTSR.Foundation

/-- The exceptions of the batch operations. -/
inductive Raised where
  | assertionError
  | indexError
  | zeroDivisionError
  | valueError
  | runtimeError
deriving DecidableEq

namespace DataProto

universe u

section Operations

variable {ρ σ γ : Type u}

/-- The loop of `pad_dataproto_to_divisor`; every turn takes at least one row. -/
def paddingProtos (data : List ρ) : ℕ → ℕ → List (List ρ)
  | 0, _ => []
  | fuel + 1, remainingPad =>
      if 0 < remainingPad then
        let takeSize := min remainingPad data.length
        data.take takeSize :: paddingProtos data fuel (remainingPad - takeSize)
      else []

def padDataprotoToDivisor (data : List ρ) (sizeDivisor : ℕ) :
    Except Raised (List ρ × ℕ) :=
  if sizeDivisor = 0 then .error .zeroDivisionError
  else if data.length % sizeDivisor ≠ 0 then
    let padSize := sizeDivisor - data.length % sizeDivisor
    .ok (data ++ (paddingProtos data padSize padSize).flatten, padSize)
  else .ok (data, 0)

/-- `data[:-pad_size]`. -/
def unpadDataproto (data : List ρ) (padSize : ℕ) : List ρ :=
  if padSize ≠ 0 then data.take (data.length - padSize) else data

def chunk (data : List ρ) (chunks : ℕ) : Except Raised (List (List ρ)) :=
  if chunks = 0 then .error .zeroDivisionError
  else if data.length % chunks ≠ 0 then .error .assertionError
  else
    let size := data.length / chunks
    .ok ((List.range chunks).map fun i => (data.drop (i * size)).take size)

/-- `repeat` with `interleave=True`. -/
def repeatInterleave (data : List ρ) (repeatTimes : ℕ) : List ρ :=
  data.flatMap (List.replicate repeatTimes)

def reorder (data : List ρ) (indices : List ℕ) : Except Raised (List ρ) :=
  indices.mapM fun i =>
    match data[i]? with
    | none => .error .indexError
    | some row => .ok row

/-- `union`: the fields of two batches, row by row. -/
def union (data : List ρ) (other : List σ) : Except Raised (List (ρ × σ)) :=
  if data.length ≠ other.length then .error .assertionError
  else .ok (data.zip other)

/-- `AgentLoopManager.generate_sequences`. -/
def generateSequences (workers : List (List ρ → List σ)) (prompts : List ρ) :
    Except Raised (List σ) := do
  let chunkes ← chunk prompts workers.length
  .ok (List.zipWith (fun worker rows => worker rows) workers chunkes).flatten

/-- The batch part of `_validate`: what the tests are scored on. -/
def validate (getGenBatch : ρ → γ) (workers : List (List γ → List σ))
    (n : ℕ) (testData : List ρ) : Except Raised (List (ρ × σ)) := do
  let testBatch := repeatInterleave testData n
  let (padded, padSize) ←
    padDataprotoToDivisor (testBatch.map getGenBatch) workers.length
  let output ← generateSequences workers padded
  union testBatch (unpadDataproto output padSize)

/-- The batch part of a step of `fit` up to the balancing. -/
def rollout (getGenBatch : ρ → γ) (workers : List (List γ → List σ))
    (n : ℕ) (batch : List ρ) : Except Raised (List (ρ × σ)) := do
  let output ← generateSequences workers
    (repeatInterleave (batch.map getGenBatch) n)
  union (repeatInterleave batch n) output

end Operations

/-! ## Padding -/

section Padding

variable {ρ : Type*} {data : List ρ}

theorem mem_paddingProtos {row : ρ} : ∀ {fuel remaining : ℕ},
    row ∈ (paddingProtos data fuel remaining).flatten → row ∈ data
  | 0, _, h => by simp [paddingProtos] at h
  | fuel + 1, remaining, h => by
      rw [paddingProtos] at h
      split_ifs at h with hpos
      · rw [List.flatten_cons, List.mem_append] at h
        rcases h with h | h
        · exact List.mem_of_mem_take h
        · exact mem_paddingProtos h
      · simp at h

theorem length_paddingProtos (hne : data ≠ []) : ∀ {fuel remaining : ℕ},
    remaining ≤ fuel →
      (paddingProtos data fuel remaining).flatten.length = remaining
  | 0, remaining, h => by
      obtain rfl := Nat.le_zero.mp h
      rfl
  | fuel + 1, remaining, h => by
      have hlength := List.length_pos_iff.mpr hne
      rw [paddingProtos]
      split_ifs with hpos
      · have hrest : remaining - min remaining data.length ≤ fuel := by omega
        rw [List.flatten_cons, List.length_append,
          length_paddingProtos hne hrest, List.length_take]
        omega
      · simp only [List.flatten_nil, List.length_nil]
        omega

/-- Rows of the batch are appended up to the next multiple. -/
theorem padDataprotoToDivisor_spec (data : List ρ) {sizeDivisor : ℕ}
    (hd : 0 < sizeDivisor) :
    ∃ filling, padDataprotoToDivisor data sizeDivisor =
        .ok (data ++ filling, filling.length) ∧
      (∀ row ∈ filling, row ∈ data) ∧ filling.length < sizeDivisor ∧
      sizeDivisor ∣ (data ++ filling).length := by
  rw [padDataprotoToDivisor, if_neg hd.ne']
  have hlt := Nat.mod_lt data.length hd
  split_ifs with hmod
  · have hne : data ≠ [] := by
      rintro rfl
      exact hmod (Nat.zero_mod _)
    let padSize := sizeDivisor - data.length % sizeDivisor
    have hfill : (paddingProtos data padSize padSize).flatten.length = padSize :=
      length_paddingProtos hne le_rfl
    refine ⟨(paddingProtos data padSize padSize).flatten, by rw [hfill],
      fun _ => mem_paddingProtos, by omega, ?_⟩
    have hsplit : data.length + padSize =
        sizeDivisor * (data.length / sizeDivisor + 1) := by
      have := Nat.div_add_mod data.length sizeDivisor
      rw [Nat.mul_add, Nat.mul_one]
      omega
    rw [List.length_append, hfill, hsplit]
    exact Nat.dvd_mul_right _ _
  · rw [not_not] at hmod
    refine ⟨[], by rw [List.append_nil, List.length_nil], by simp, hd, ?_⟩
    rw [List.append_nil]
    exact Nat.dvd_of_mod_eq_zero hmod

theorem unpadDataproto_eq_take (data : List ρ) (padSize : ℕ) :
    unpadDataproto data padSize = data.take (data.length - padSize) := by
  rw [unpadDataproto]
  split_ifs with hzero
  · rfl
  · rw [not_not.mp hzero, Nat.sub_zero, List.take_length]

end Padding

/-! ## Chunks -/

section Chunks

variable {ρ σ : Type u}

theorem flatMap_runs (xs : List ρ) (k m : ℕ) :
    ((List.range m).flatMap fun j => (xs.drop (j * k)).take k) =
      xs.take (m * k) := by
  induction m with
  | zero => simp
  | succ m ih =>
      rw [List.range_succ, List.flatMap_append, ih, Nat.succ_mul, List.take_add]
      simp

theorem length_flatten_of_forall_eq {parts : List (List ρ)} {size : ℕ}
    (h : ∀ part ∈ parts, part.length = size) :
    parts.flatten.length = parts.length * size := by
  rw [List.length_flatten, List.map_congr_left h, List.map_const',
    List.sum_replicate_nat]

theorem chunk_eq {data : List ρ} {chunks : ℕ} (hk : 0 < chunks)
    (hdvd : chunks ∣ data.length) :
    chunk data chunks = .ok ((List.range chunks).map fun i =>
      (data.drop (i * (data.length / chunks))).take (data.length / chunks)) := by
  have hmod : ¬data.length % chunks ≠ 0 := by
    rw [not_not]
    exact Nat.mod_eq_zero_of_dvd hdvd
  rw [chunk, if_neg hk.ne', if_neg hmod]

/-- The batch is cut into chunks of one size. -/
theorem chunk_spec {data : List ρ} {chunks : ℕ} (hk : 0 < chunks)
    (hdvd : chunks ∣ data.length) :
    ∃ parts, chunk data chunks = .ok parts ∧ parts.length = chunks ∧
      parts.flatten = data := by
  refine ⟨_, chunk_eq hk hdvd, ?_, ?_⟩
  · rw [List.length_map, List.length_range]
  · rw [← List.flatMap_def, flatMap_runs, Nat.mul_div_cancel' hdvd,
      List.take_length]

/-- Chunks of one size are what the batch they make up is cut into. -/
theorem chunk_flatten {parts : List (List ρ)} {size : ℕ} (hne : parts ≠ [])
    (hsize : ∀ part ∈ parts, part.length = size) :
    chunk parts.flatten parts.length = .ok parts := by
  have hk := List.length_pos_iff.mpr hne
  have htotal := length_flatten_of_forall_eq hsize
  rw [chunk, if_neg hk.ne', htotal, Nat.mul_mod_right, if_neg (by simp),
    Nat.mul_div_cancel_left _ hk]
  apply congrArg Except.ok
  apply List.ext_getElem (by rw [List.length_map, List.length_range])
  intro i hi hi'
  rw [List.getElem_map, List.getElem_range]
  clear hne hk htotal hi
  induction parts generalizing i with
  | nil => cases hi'
  | cons part parts ih =>
      have hpart := hsize part List.mem_cons_self
      have hrest : ∀ p ∈ parts, p.length = size := fun p hp =>
        hsize p (List.mem_cons_of_mem _ hp)
      rw [List.flatten_cons]
      cases i with
      | zero =>
          rw [Nat.zero_mul, List.drop_zero, List.take_append_of_le_length hpart.ge,
            ← hpart, List.take_length]
          rfl
      | succ i =>
          have hdrop : (i + 1) * size = part.length + i * size := by
            rw [hpart, Nat.succ_mul, Nat.add_comm]
          rw [hdrop, ← List.drop_drop, List.drop_left]
          exact ih hrest i (Nat.lt_of_succ_lt_succ hi')

end Chunks

/-! ## Samples and their prompts -/

section Generation

variable {ρ σ γ : Type u} {R : γ → σ → Prop} {workers : List (List γ → List σ)}
  {getGenBatch : ρ → γ} {data : List ρ} {n : ℕ}

/-- A worker answers its rows one by one. -/
def AnswersRows (R : γ → σ → Prop) (worker : List γ → List σ) : Prop :=
  ∀ rows, List.Forall₂ R rows (worker rows)

/-- Every row stands `n` times in a row, each time with an answer of its own. -/
def Aligned (R : γ → σ → Prop) (getGenBatch : ρ → γ) (n : ℕ) (data : List ρ)
    (rows : List (ρ × σ)) : Prop :=
  rows.map Prod.fst = repeatInterleave data n ∧
    ∀ row ∈ rows, R (getGenBatch row.1) row.2

theorem length_repeatInterleave (data : List ρ) (n : ℕ) :
    (repeatInterleave data n).length = data.length * n := by
  rw [repeatInterleave, List.flatMap_def,
    length_flatten_of_forall_eq, List.length_map]
  intro part hpart
  obtain ⟨row, -, rfl⟩ := List.mem_map.mp hpart
  exact List.length_replicate

theorem map_repeatInterleave (f : ρ → γ) (data : List ρ) (n : ℕ) :
    (repeatInterleave data n).map f = repeatInterleave (data.map f) n := by
  rw [repeatInterleave, repeatInterleave, List.map_flatMap, List.flatMap_map]
  simp only [List.map_replicate]

theorem forall₂_zipWith (hworkers : ∀ w ∈ workers, AnswersRows R w)
    {parts : List (List γ)} (hlength : parts.length = workers.length) :
    List.Forall₂ R parts.flatten
      (List.zipWith (fun worker rows => worker rows) workers parts).flatten := by
  induction parts generalizing workers with
  | nil =>
      obtain rfl := List.eq_nil_of_length_eq_zero hlength.symm
      exact .nil
  | cons part parts ih =>
      cases workers with
      | nil => cases hlength
      | cons w ws =>
          rw [List.zipWith_cons_cons, List.flatten_cons, List.flatten_cons]
          apply List.rel_append
          · exact hworkers w List.mem_cons_self part
          · exact ih (fun w hw => hworkers w (List.mem_cons_of_mem _ hw))
              (Nat.succ.inj hlength)

theorem generateSequences_spec (hne : workers ≠ [])
    (hworkers : ∀ w ∈ workers, AnswersRows R w) {prompts : List γ}
    (hdvd : workers.length ∣ prompts.length) :
    ∃ output, generateSequences workers prompts = .ok output ∧
      List.Forall₂ R prompts output := by
  obtain ⟨parts, hparts, hcount, rfl⟩ :=
    chunk_spec (List.length_pos_iff.mpr hne) hdvd
  refine ⟨_, ?_, forall₂_zipWith hworkers hcount⟩
  rw [generateSequences, hparts]
  rfl

/-- The answers stand beside the rows they were generated for. -/
theorem union_aligned {output : List σ}
    (h : List.Forall₂ R ((repeatInterleave data n).map getGenBatch) output) :
    ∃ rows, union (repeatInterleave data n) output = .ok rows ∧
      Aligned R getGenBatch n data rows := by
  rw [List.forall₂_map_left_iff] at h
  have hlength := h.length_eq
  refine ⟨_, by rw [union, if_neg (not_not.mpr hlength)], ?_, ?_⟩
  · exact List.map_fst_zip hlength.le
  · rintro ⟨row, answer⟩ hmem
    exact List.forall₂_zip h hmem

/-- **Samples stay with their prompts.** Padding, chunking, gathering and cutting
the padding off give every repeated row an answer to itself, for every number of
workers. A training step does without padding and needs a batch that can be cut
into equal chunks. -/
theorem generation_aligned (hne : workers ≠ [])
    (hworkers : ∀ w ∈ workers, AnswersRows R w) :
    (∃ rows, validate getGenBatch workers n data = .ok rows ∧
        Aligned R getGenBatch n data rows) ∧
      if workers.length ∣ data.length * n then
        ∃ rows, rollout getGenBatch workers n data = .ok rows ∧
          Aligned R getGenBatch n data rows
      else rollout getGenBatch workers n data = .error .assertionError := by
  have hpos := List.length_pos_iff.mpr hne
  constructor
  · let prompts := (repeatInterleave data n).map getGenBatch
    obtain ⟨filling, hpad, -, -, hdvd⟩ :=
      padDataprotoToDivisor_spec prompts hpos
    obtain ⟨output, houtput, hanswers⟩ :=
      generateSequences_spec hne hworkers hdvd
    have hlength := hanswers.length_eq
    rw [List.length_append] at hlength
    have hunpad : List.Forall₂ R prompts
        (unpadDataproto output filling.length) := by
      have htake := List.forall₂_take prompts.length hanswers
      rw [List.take_left] at htake
      rw [unpadDataproto_eq_take, ← hlength, Nat.add_sub_cancel]
      exact htake
    obtain ⟨rows, hrows, haligned⟩ := union_aligned hunpad
    refine ⟨rows, ?_, haligned⟩
    rw [validate, hpad]
    show (generateSequences workers (prompts ++ filling) >>= _) = _
    rw [houtput]
    exact hrows
  · have hlength : (repeatInterleave (data.map getGenBatch) n).length =
        data.length * n := by
      rw [length_repeatInterleave, List.length_map]
    split_ifs with hdvd
    · obtain ⟨output, houtput, hanswers⟩ :=
        generateSequences_spec hne hworkers (hlength ▸ hdvd)
      rw [← map_repeatInterleave] at hanswers
      obtain ⟨rows, hrows, haligned⟩ := union_aligned hanswers
      refine ⟨rows, ?_, haligned⟩
      rw [rollout, houtput]
      exact hrows
    · have hmod : data.length * n % workers.length ≠ 0 := fun hzero =>
        hdvd (Nat.dvd_of_mod_eq_zero hzero)
      rw [rollout, generateSequences, chunk, if_neg hpos.ne', hlength,
        if_pos hmod]
      rfl

/-- Three prompts, two workers, two answers each: two copies are padding. -/
theorem generation_aligned_threePrompts :
    (∃ rows, validate id [List.map (· + 1), List.map (· + 1)] 2 [10, 20, 30] =
        .ok rows ∧ Aligned (fun (p a : ℕ) => a = p + 1) id 2 [10, 20, 30] rows) ∧
      if [List.map (· + 1), List.map (· + 1)].length ∣ [10, 20, 30].length * 2 then
        ∃ rows, rollout id [List.map (· + 1), List.map (· + 1)] 2 [10, 20, 30] =
          .ok rows ∧ Aligned (fun (p a : ℕ) => a = p + 1) id 2 [10, 20, 30] rows
      else rollout id [List.map (· + 1), List.map (· + 1)] 2 [10, 20, 30] =
        .error .assertionError := by
  apply generation_aligned (by simp)
  intro w hw rows
  have hw : w = List.map (· + 1) := by simpa using hw
  rw [hw, List.forall₂_map_right_iff, List.forall₂_same]
  exact fun _ _ => rfl

end Generation

/-! ## Groups -/

section Groups

variable {ρ υ : Type u} [DecidableEq υ] {uid : ρ → υ} {data : List ρ}

/-- The number of samples of a group. -/
def groupSize (uid : ρ → υ) (rows : List ρ) (u : υ) : ℕ :=
  (rows.filter (uid · = u)).length

theorem groupSize_append (rows rows' : List ρ) (u : υ) :
    groupSize uid (rows ++ rows') u =
      groupSize uid rows u + groupSize uid rows' u := by
  rw [groupSize, List.filter_append, List.length_append]
  rfl

theorem groupSize_pos (uid : ρ → υ) {rows : List ρ} {row : ρ} (h : row ∈ rows) :
    0 < groupSize uid rows (uid row) :=
  List.length_pos_of_mem (List.mem_filter.mpr ⟨h, by simp⟩)

/-- With one `uid` for each row, every group of the repeated batch has `n`
samples. -/
theorem groupSize_repeatInterleave (hnodup : (data.map uid).Nodup) {row : ρ}
    (hrow : row ∈ data) (n : ℕ) :
    groupSize uid (repeatInterleave data n) (uid row) = n := by
  induction data with
  | nil => cases hrow
  | cons first data ih =>
      rw [List.map_cons, List.nodup_cons] at hnodup
      have hcons : repeatInterleave (first :: data) n =
          List.replicate n first ++ repeatInterleave data n := rfl
      rw [hcons, groupSize_append]
      rcases List.mem_cons.mp hrow with rfl | hrow
      · have hothers : groupSize uid (repeatInterleave data n) (uid row) = 0 := by
          rw [groupSize, List.length_eq_zero_iff, List.filter_eq_nil_iff]
          intro other hother
          obtain ⟨other', hother', hmem⟩ := List.mem_flatMap.mp hother
          rw [List.eq_of_mem_replicate hmem, decide_eq_true_eq]
          exact fun heq => hnodup.1 (heq ▸ List.mem_map_of_mem hother')
        rw [hothers, groupSize, List.filter_replicate, if_pos (by simp),
          List.length_replicate, Nat.add_zero]
      · have hfirst : ¬uid first = uid row := fun heq =>
          hnodup.1 (heq ▸ List.mem_map_of_mem hrow)
        rw [ih hnodup.2 hrow, groupSize, List.filter_replicate,
          if_neg (by simpa using hfirst), List.length_nil, Nat.zero_add]

/-- **Groups while tests are scored.** The padding takes rows of the batch, so no
group has less than `n` samples, and all have exactly `n` if and only if there
is no padding. -/
theorem group_sizes_iff (hnodup : (data.map uid).Nodup) {n d : ℕ} (hd : 0 < d) :
    ∃ padded padSize, padDataprotoToDivisor (repeatInterleave data n) d =
        .ok (padded, padSize) ∧
      (∀ row ∈ data, n ≤ groupSize uid padded (uid row)) ∧
      ((∀ row ∈ data, groupSize uid padded (uid row) = n) ↔
        d ∣ data.length * n) := by
  obtain ⟨filling, hpad, hsub, hlt, hdvd⟩ :=
    padDataprotoToDivisor_spec (repeatInterleave data n) hd
  have hsize : ∀ row ∈ data,
      groupSize uid (repeatInterleave data n ++ filling) (uid row) =
        n + groupSize uid filling (uid row) := by
    intro row hrow
    rw [groupSize_append, groupSize_repeatInterleave hnodup hrow]
  refine ⟨_, _, hpad, fun row hrow => ?_, ?_, ?_⟩
  · rw [hsize row hrow]
    exact Nat.le_add_right _ _
  · intro hall
    have hnil : filling = [] := by
      rw [List.eq_nil_iff_forall_not_mem]
      intro row hmem
      obtain ⟨row', hrow', hreplicate⟩ := List.mem_flatMap.mp (hsub row hmem)
      obtain rfl := List.eq_of_mem_replicate hreplicate
      have hgroup := hall row hrow'
      have hpos := groupSize_pos uid hmem
      rw [hsize row hrow'] at hgroup
      omega
    rwa [hnil, List.append_nil, length_repeatInterleave] at hdvd
  · intro hdvd' row hrow
    have hzero : filling.length = 0 := by
      rw [List.length_append, length_repeatInterleave] at hdvd
      exact Nat.eq_zero_of_dvd_of_lt ((Nat.dvd_add_right hdvd').mp hdvd) hlt
    rw [hsize row hrow, List.eq_nil_of_length_eq_zero hzero]
    rfl

theorem group_sizes_iff_twoGroups :
    ∃ padded padSize, padDataprotoToDivisor (repeatInterleave [7, 8] 3) 4 =
        .ok (padded, padSize) ∧
      (∀ row ∈ [7, 8], 3 ≤ groupSize id padded (id row)) ∧
      ((∀ row ∈ [7, 8], groupSize id padded (id row) = 3) ↔
        4 ∣ [7, 8].length * 3) :=
  group_sizes_iff (by decide) (by decide)

end Groups

end DataProto

end TTSR.Trainer
