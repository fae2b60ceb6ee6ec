import TTSR.Trainer.BalanceBatch

/-!
# Micro-batches

A rank does not process its rows at once. `rearrange_micro_batches` divides them
into micro-batches of about the same cost, in an order of its own; without it
the rows are split into micro-batches of one size.

- `micro_batches_hold`: what the micro-batches hold.
- `exists_dynamicBatch`, `split_spec`: the rows are cut out without an exception.
-/

namespace TTSR.Trainer

open TTSR.Foundation

/-! ## Rearranging -/

/-- The arguments of `rearrange_micro_batches`. -/
structure MicroBatching where
  maxTokenLen : ℕ
  numBatchesDividedBy : Option ℕ := none
  minNumMicroBatch : Option ℕ := none
  useDynamicBszBalance : Bool := true
  forceGroupSize : ℕ := 1
  /-- `all_reduce` with `MAX`; the identity without a group. -/
  allReduce : ℕ → ℕ := id

def ceildiv (a b : ℤ) : ℤ := -(a.fdiv (-b))

def roundupDivisible (a b : ℕ) : ℕ := (a + b - 1) / b * b

section Rearrange

variable (cfg : MicroBatching)

def numMicroBatches (numGroups totalSeqlen : ℕ) : Except Raised ℕ :=
  let n := min numGroups (ceildiv totalSeqlen cfg.maxTokenLen).toNat
  let n := match cfg.minNumMicroBatch with
    | some least => max least n
    | none => n
  let n := cfg.allReduce n
  match cfg.numBatchesDividedBy with
  | some divisor =>
      if divisor = 0 then .error .zeroDivisionError
      else .ok (roundupDivisible n divisor)
  | none => .ok n

/-- The workloads that are balanced, one for each group. -/
def groupWorkloads (workloads : List ℤ) : List ℤ :=
  if 1 < cfg.forceGroupSize then
    (List.range (workloads.length / cfg.forceGroupSize)).map fun g =>
      ((workloads.drop (g * cfg.forceGroupSize)).take cfg.forceGroupSize).sum
  else workloads

/-- The samples of the groups of a part. -/
def groupSamples (partition : List ℕ) : List ℕ :=
  if 1 < cfg.forceGroupSize then
    partition.flatMap fun g =>
      List.range' (g * cfg.forceGroupSize) cfg.forceGroupSize
  else partition

/-- `xs[::step]`. -/
def strided {α : Type*} (step : ℕ) (xs : List α) : List α :=
  xs.zipIdx.filterMap fun (x, i) => if i % step = 0 then some x else none

/-- The key by which micro-batches are sorted. -/
def microBatchKey (workloads : List ℤ) (partition : List ℕ) : ℤ ×ₗ ℕ :=
  toLex (
    if 1 < cfg.forceGroupSize then
      ((strided cfg.forceGroupSize partition).map fun idx =>
        workloadAt workloads (idx / cfg.forceGroupSize)).sum
    else (partition.map (workloadAt workloads)).sum,
    partition.headD 0)

/-- Cheap micro-batches at both ends. -/
def placeMicroBatches (workloads : List ℤ) (idx : List (List ℕ)) :
    List (List ℕ) :=
  if cfg.useDynamicBszBalance then
    let sorted := idx.insertionSort fun x y =>
      microBatchKey cfg workloads y ≤ microBatchKey cfg workloads x
    (everyOther sorted).reverse ++ everyOther (sorted.drop 1)
  else idx

/-- The positions of the rows of every micro-batch. -/
def rearrangeMicroBatches (maxSeqLen : ℕ) (seqLens : List ℕ) :
    Except Raised (List (List ℕ)) :=
  if cfg.maxTokenLen < maxSeqLen then .error .assertionError
  else if cfg.forceGroupSize = 0 then .error .zeroDivisionError
  else if seqLens.length % cfg.forceGroupSize ≠ 0 then .error .assertionError
  else if cfg.maxTokenLen = 0 then .error .zeroDivisionError
  else do
    let numGroups := seqLens.length / cfg.forceGroupSize
    let n ← numMicroBatches cfg numGroups seqLens.sum
    if numGroups < n then .error .assertionError
    else
      let workloads := groupWorkloads cfg (seqLens.map calculateWorkload)
      let groups ← getSeqlenBalancedPartitions workloads n false
      .ok (placeMicroBatches cfg workloads (groups.map (groupSamples cfg)))

end Rearrange

/-! ## Splitting -/

namespace DataProto

/-- `split`. -/
def split {ρ : Type} (data : List ρ) (splitSize : ℕ) :
    Except Raised (List (List ρ)) :=
  if splitSize = 0 then .error .valueError
  else .ok ((List.range ((data.length + splitSize - 1) / splitSize)).map fun i =>
    (data.drop (i * splitSize)).take splitSize)

end DataProto

/-! ## The number of micro-batches -/

theorem le_ceildiv_mul (a : ℤ) {b : ℤ} (hb : 0 < b) : a ≤ ceildiv a b * b := by
  rw [ceildiv, Int.fdiv_neg hb.ne', Int.fdiv_eq_ediv_of_nonneg a hb.le]
  split_ifs with hdvd
  · rw [neg_neg, Int.ediv_mul_cancel hdvd]
  · have hlt := Int.lt_ediv_add_one_mul_self a hb
    rw [neg_sub, sub_neg_eq_add, add_comm 1]
    exact hlt.le

theorem le_roundupDivisible (a : ℕ) {b : ℕ} (hb : 0 < b) :
    a ≤ roundupDivisible a b := by
  have hdiv := Nat.div_add_mod (a + b - 1) b
  have hmod := Nat.mod_lt (a + b - 1) hb
  rw [roundupDivisible, Nat.mul_comm]
  omega

section Count

variable {cfg : MicroBatching} {numGroups total n : ℕ}

/-- Options can only add micro-batches. -/
theorem min_le_numMicroBatches (hreduce : ∀ n, n ≤ cfg.allReduce n)
    (h : numMicroBatches cfg numGroups total = .ok n) :
    min numGroups (ceildiv total cfg.maxTokenLen).toNat ≤ n := by
  rw [numMicroBatches] at h
  have hleast : min numGroups (ceildiv total cfg.maxTokenLen).toNat ≤
      match cfg.minNumMicroBatch with
      | some least =>
          max least (min numGroups (ceildiv total cfg.maxTokenLen).toNat)
      | none => min numGroups (ceildiv total cfg.maxTokenLen).toNat := by
    split
    · exact le_max_right _ _
    · exact le_rfl
  have hall := hleast.trans (hreduce _)
  split at h
  · split_ifs at h with hdivisor
    obtain rfl := Except.ok.inj h
    exact hall.trans (le_roundupDivisible _ (Nat.pos_of_ne_zero hdivisor))
  · obtain rfl := Except.ok.inj h
    exact hall

/-- Unless every group is a micro-batch of its own, the micro-batches have room
for all tokens. -/
theorem total_le_of_numMicroBatches (hreduce : ∀ n, n ≤ cfg.allReduce n)
    (hmax : 0 < cfg.maxTokenLen)
    (h : numMicroBatches cfg numGroups total = .ok n) :
    numGroups ≤ n ∨ total ≤ n * cfg.maxTokenLen := by
  have hle := min_le_numMicroBatches hreduce h
  rcases min_le_iff.mp hle with hgroups | hceil
  · exact .inl hgroups
  · right
    have htotal := le_ceildiv_mul total (b := cfg.maxTokenLen) (by exact_mod_cast hmax)
    have hn : ceildiv total cfg.maxTokenLen ≤ n := by omega
    have hmul := mul_le_mul_of_nonneg_right hn (Int.natCast_nonneg cfg.maxTokenLen)
    exact_mod_cast htotal.trans hmul

theorem numMicroBatches_pos (hreduce : ∀ n, n ≤ cfg.allReduce n)
    (hbudget : 0 < cfg.maxTokenLen) (hgroups : 0 < numGroups) (htotal : 0 < total)
    (h : numMicroBatches cfg numGroups total = .ok n) : 0 < n := by
  have hle := le_ceildiv_mul total (b := cfg.maxTokenLen) (by exact_mod_cast hbudget)
  have hceil : 0 < ceildiv total cfg.maxTokenLen := by
    refine pos_of_mul_pos_left (lt_of_lt_of_le ?_ hle) (Int.natCast_nonneg _)
    exact_mod_cast htotal
  refine lt_of_lt_of_le ?_ (min_le_numMicroBatches hreduce h)
  exact lt_min hgroups (by omega)

end Count

/-! ## Groups -/

section Groups

variable {cfg : MicroBatching} {seqLens : List ℕ} {g n : ℕ}

/-- The lengths of the rows of a group. -/
def groupLens (cfg : MicroBatching) (seqLens : List ℕ) (g : ℕ) : List ℕ :=
  (seqLens.drop (g * cfg.forceGroupSize)).take cfg.forceGroupSize

theorem groupSamples_eq (hpos : 0 < cfg.forceGroupSize) (partition : List ℕ) :
    groupSamples cfg partition = partition.flatMap fun g =>
      List.range' (g * cfg.forceGroupSize) cfg.forceGroupSize := by
  unfold groupSamples
  split_ifs with hone
  · rfl
  · have hsize : cfg.forceGroupSize = 1 := by omega
    rw [hsize]
    simp

theorem groupSamples_ne_nil (hpos : 0 < cfg.forceGroupSize) {partition : List ℕ}
    (hne : partition ≠ []) : groupSamples cfg partition ≠ [] := by
  obtain ⟨g, rest, rfl⟩ := List.exists_cons_of_ne_nil hne
  rw [groupSamples_eq hpos, List.flatMap_cons, ne_eq, List.append_eq_nil_iff,
    List.range'_eq_nil_iff]
  omega

theorem length_groupWorkloads (hpos : 0 < cfg.forceGroupSize)
    (workloads : List ℤ) : (groupWorkloads cfg workloads).length =
      workloads.length / cfg.forceGroupSize := by
  unfold groupWorkloads
  split_ifs with hone
  · rw [List.length_map, List.length_range]
  · have hsize : cfg.forceGroupSize = 1 := by omega
    rw [hsize, Nat.div_one]

theorem groupWorkloads_eq (hpos : 0 < cfg.forceGroupSize) :
    groupWorkloads cfg (seqLens.map calculateWorkload) =
      (List.range (seqLens.length / cfg.forceGroupSize)).map fun g =>
        ((groupLens cfg seqLens g).map calculateWorkload).sum := by
  unfold groupWorkloads
  split_ifs with hone
  · rw [List.length_map]
    apply List.map_congr_left
    intro g _
    rw [groupLens, List.map_take, List.map_drop]
  · have hsize : cfg.forceGroupSize = 1 := by omega
    apply List.ext_getElem
    · rw [List.length_map, List.length_map, List.length_range, hsize, Nat.div_one]
    · intro g hg _
      rw [List.length_map] at hg
      rw [List.getElem_map, List.getElem_map, List.getElem_range, groupLens,
        hsize, Nat.mul_one, List.take_one_drop_eq_of_lt_length hg, List.map_singleton,
        List.sum_singleton]
      rfl

theorem flatMap_range' (size m : ℕ) :
    (List.range m).flatMap (fun g => List.range' (g * size) size) =
      List.range (m * size) := by
  induction m with
  | zero => rw [Nat.zero_mul]; rfl
  | succ m ih =>
      rw [List.range_succ, List.flatMap_append, ih, List.flatMap_singleton,
        List.range_eq_range', List.range_eq_range', Nat.succ_mul,
        ← List.range'_append_1, Nat.zero_add]

/-- The groups hold every row once. -/
theorem groupSamples_cover {groups : List (List ℕ)}
    (hpos : 0 < cfg.forceGroupSize) (hdvd : cfg.forceGroupSize ∣ n)
    (hcover : groups.flatten.Perm (List.range (n / cfg.forceGroupSize))) :
    (groups.map (groupSamples cfg)).flatten.Perm (List.range n) := by
  have hflatten : (groups.map (groupSamples cfg)).flatten =
      groups.flatten.flatMap fun g =>
        List.range' (g * cfg.forceGroupSize) cfg.forceGroupSize := by
    rw [← List.flatMap_def, ← List.flatMap_id, List.flatMap_assoc]
    exact List.flatMap_congr fun p _ => groupSamples_eq hpos p
  rw [hflatten, ← Nat.div_mul_cancel hdvd, ← flatMap_range']
  exact hcover.flatMap_right _

end Groups

/-! ## What the micro-batches hold -/

section Rearranged

variable {cfg : MicroBatching} {seqLens : List ℕ} {maxSeqLen n : ℕ}

theorem placeMicroBatches_perm (cfg : MicroBatching) (workloads : List ℤ)
    (idx : List (List ℕ)) : (placeMicroBatches cfg workloads idx).Perm idx := by
  unfold placeMicroBatches
  split_ifs
  · refine (((List.reverse_perm _).append_right _).trans (everyOther_perm _)).trans ?_
    exact List.perm_insertionSort _ _
  · exact .refl _

/-- The tokens of a micro-batch. -/
def tokens (seqLens : List ℕ) (part : List ℕ) : ℕ :=
  (part.map fun i => (seqLens[i]?).getD 0).sum

theorem tokens_range' (seqLens : List ℕ) (k : ℕ) : ∀ a,
    tokens seqLens (List.range' a k) = ((seqLens.drop a).take k).sum := by
  induction k with
  | zero => intro a; rw [List.take_zero]; rfl
  | succ k ih =>
      intro a
      rw [List.range'_succ, tokens, List.map_cons, List.sum_cons]
      have htail := ih (a + 1)
      rw [tokens] at htail
      rw [htail]
      by_cases ha : a < seqLens.length
      · rw [List.drop_eq_getElem_cons ha, List.take_succ_cons, List.sum_cons,
          List.getElem?_eq_getElem ha, Option.getD_some]
      · rw [List.getElem?_eq_none (by omega), List.drop_eq_nil_of_le (by omega),
          List.drop_eq_nil_of_le (by omega), List.take_nil, List.take_nil]
        rfl

theorem tokens_flatMap (f : ℕ → List ℕ) (partition : List ℕ) :
    tokens seqLens (partition.flatMap f) =
      (partition.map fun g => tokens seqLens (f g)).sum := by
  induction partition with
  | nil => rfl
  | cons g partition ih =>
      rw [List.flatMap_cons, tokens, List.map_append, List.sum_append,
        List.map_cons, List.sum_cons, ← ih]
      rfl

/-- What short rows cost. -/
theorem sum_calculateWorkload {lens : List ℕ} {limit : ℕ}
    (h : ∀ l ∈ lens, l ≤ limit) :
    24576 * (lens.sum : ℤ) ≤ (lens.map calculateWorkload).sum ∧
      (lens.map calculateWorkload).sum ≤ (24576 + limit) * lens.sum := by
  induction lens with
  | nil => simp
  | cons l lens ih =>
      obtain ⟨hlow, hhigh⟩ := ih fun l hl => h l (List.mem_cons_of_mem _ hl)
      have hl : (l : ℤ) ≤ limit := by exact_mod_cast h l List.mem_cons_self
      have hsquare : (l : ℤ) ^ 2 ≤ limit * l := by
        rw [sq]
        exact mul_le_mul_of_nonneg_right hl (Int.natCast_nonneg l)
      have hnonneg : 0 ≤ (l : ℤ) ^ 2 := sq_nonneg _
      rw [List.map_cons, List.sum_cons, List.sum_cons, calculateWorkload,
        Nat.cast_add]
      constructor
      · linarith
      · linarith

theorem sum_groupLens (cfg : MicroBatching) {limit : ℕ}
    (hlens : ∀ l ∈ seqLens, l ≤ limit) (g : ℕ) :
    (∀ l ∈ groupLens cfg seqLens g, l ≤ limit) ∧
      (groupLens cfg seqLens g).sum ≤ cfg.forceGroupSize * limit := by
  have hmem : ∀ l ∈ groupLens cfg seqLens g, l ≤ limit := fun l hl =>
    hlens l (List.mem_of_mem_drop (List.mem_of_mem_take hl))
  have hsum := List.sum_le_card_nsmul _ _ hmem
  have hlength : (groupLens cfg seqLens g).length ≤ cfg.forceGroupSize :=
    List.length_take_le _ _
  exact ⟨hmem, hsum.trans (Nat.mul_le_mul_right _ hlength)⟩

/-- The workloads of the groups, from those of their rows. -/
theorem sum_groupWorkloads (hpos : 0 < cfg.forceGroupSize)
    (hdvd : cfg.forceGroupSize ∣ seqLens.length) :
    (groupWorkloads cfg (seqLens.map calculateWorkload)).sum =
      (seqLens.map calculateWorkload).sum := by
  have hruns := DataProto.flatMap_runs seqLens cfg.forceGroupSize
    (seqLens.length / cfg.forceGroupSize)
  rw [Nat.div_mul_cancel hdvd, List.take_length] at hruns
  have hmap : seqLens.map calculateWorkload =
      (List.range (seqLens.length / cfg.forceGroupSize)).flatMap fun g =>
        (groupLens cfg seqLens g).map calculateWorkload := by
    rw [← List.map_flatMap]
    exact congrArg _ hruns.symm
  rw [groupWorkloads_eq hpos, hmap, List.flatMap_def, List.sum_flatten,
    List.map_map]
  rfl

theorem groupWorkload_bounds (hpos : 0 < cfg.forceGroupSize) {limit : ℕ}
    (hlens : ∀ l ∈ seqLens, l ≤ limit) :
    ∀ v ∈ groupWorkloads cfg (seqLens.map calculateWorkload),
      0 ≤ v ∧ v ≤ (24576 + limit) * (cfg.forceGroupSize * limit) := by
  intro v hv
  rw [groupWorkloads_eq hpos] at hv
  obtain ⟨g, -, rfl⟩ := List.mem_map.mp hv
  obtain ⟨hmem, hsum⟩ := sum_groupLens cfg hlens g
  obtain ⟨hlow, hhigh⟩ := sum_calculateWorkload hmem
  have hcast : ((groupLens cfg seqLens g).sum : ℤ) ≤ cfg.forceGroupSize * limit := by
    exact_mod_cast hsum
  constructor
  · exact le_trans (by positivity) hlow
  · exact hhigh.trans (mul_le_mul_of_nonneg_left hcast (by positivity))

/-- A part of groups costs at least its tokens. -/
theorem tokens_le_load (hpos : 0 < cfg.forceGroupSize) {limit : ℕ}
    (hlens : ∀ l ∈ seqLens, l ≤ limit) {partition : List ℕ}
    (hlt : ∀ g ∈ partition, g < seqLens.length / cfg.forceGroupSize) :
    24576 * (tokens seqLens (groupSamples cfg partition) : ℤ) ≤
      load (groupWorkloads cfg (seqLens.map calculateWorkload)) partition := by
  rw [groupSamples_eq hpos, tokens_flatMap, load]
  induction partition with
  | nil => simp
  | cons g partition ih =>
      have hg := hlt g List.mem_cons_self
      have hcost := (sum_calculateWorkload (sum_groupLens cfg hlens g).1).1
      have hget : (groupWorkloads cfg (seqLens.map calculateWorkload))[g]? =
          some ((groupLens cfg seqLens g).map calculateWorkload).sum := by
        rw [groupWorkloads_eq hpos, List.getElem?_map, List.getElem?_range hg,
          Option.map_some]
      have hrest := ih fun g hg => hlt g (List.mem_cons_of_mem _ hg)
      rw [List.map_cons, List.map_cons, List.sum_cons, List.sum_cons, hget,
        Option.getD_some, tokens_range', Nat.cast_add, mul_add]
      exact add_le_add hcost hrest

theorem maxSeqLen_pos (hlens : ∀ l ∈ seqLens, l ≤ maxSeqLen)
    (htokens : 0 < seqLens.sum) : 0 < maxSeqLen := by
  have hsum := List.sum_le_card_nsmul seqLens maxSeqLen hlens
  apply Nat.pos_of_ne_zero
  rintro rfl
  rw [nsmul_zero] at hsum
  omega

/-- The assertions hold, and the micro-batches are balanced groups. -/
theorem exists_rearranged (cfg : MicroBatching) (hmax : maxSeqLen ≤ cfg.maxTokenLen)
    (hlens : ∀ l ∈ seqLens, l ≤ maxSeqLen) (htokens : 0 < seqLens.sum)
    (hpos : 0 < cfg.forceGroupSize)
    (hdvd : cfg.forceGroupSize ∣ seqLens.length)
    (hreduce : ∀ n, n ≤ cfg.allReduce n)
    (hcount : numMicroBatches cfg (seqLens.length / cfg.forceGroupSize)
      seqLens.sum = .ok n)
    (hgroups : n ≤ seqLens.length / cfg.forceGroupSize) :
    0 < n ∧ 0 < cfg.maxTokenLen ∧ ∃ groups idx,
      Balanced (groupWorkloads cfg (seqLens.map calculateWorkload)) n
        ((24576 + maxSeqLen) * (cfg.forceGroupSize * maxSeqLen)) groups ∧
      rearrangeMicroBatches cfg maxSeqLen seqLens = .ok idx ∧
      idx.Perm (groups.map (groupSamples cfg)) ∧
      idx.flatten.Perm (List.range seqLens.length) := by
  have hne : seqLens ≠ [] := by
    rintro rfl
    exact Nat.lt_irrefl 0 htokens
  have hbudget : 0 < cfg.maxTokenLen := (maxSeqLen_pos hlens htokens).trans_le hmax
  have hsome : 0 < seqLens.length / cfg.forceGroupSize :=
    Nat.div_pos (Nat.le_of_dvd (List.length_pos_iff.mpr hne) hdvd) hpos
  have hn : 0 < n := numMicroBatches_pos hreduce hbudget hsome htokens hcount
  have hworkloads : n ≤ (groupWorkloads cfg
      (seqLens.map calculateWorkload)).length := by
    rwa [length_groupWorkloads hpos, List.length_map]
  obtain ⟨groups, hparts, hbalanced⟩ := balanced_any hn hworkloads
    (groupWorkload_bounds hpos hlens)
  have hperm := placeMicroBatches_perm cfg
    (groupWorkloads cfg (seqLens.map calculateWorkload))
    (groups.map (groupSamples cfg))
  have hcover := hbalanced.cover
  rw [length_groupWorkloads hpos, List.length_map] at hcover
  refine ⟨hn, hbudget, groups, _, hbalanced, ?_, hperm,
    hperm.flatten.trans (groupSamples_cover hpos hdvd hcover)⟩
  rw [rearrangeMicroBatches, if_neg (Nat.not_lt.mpr hmax), if_neg hpos.ne',
    if_neg (not_not.mpr (Nat.mod_eq_zero_of_dvd hdvd)), if_neg hbudget.ne']
  dsimp only
  rw [hcount]
  simp only [bind, Except.bind]
  rw [if_neg (Nat.not_lt.mpr hgroups), hparts]

/-- The rows fit into the micro-batches, each as large as a group or as asked. -/
theorem sum_le_mul_max (hlens : ∀ l ∈ seqLens, l ≤ maxSeqLen)
    (hdvd : cfg.forceGroupSize ∣ seqLens.length)
    (hreduce : ∀ n, n ≤ cfg.allReduce n) (hbudget : 0 < cfg.maxTokenLen)
    (hcount : numMicroBatches cfg (seqLens.length / cfg.forceGroupSize)
      seqLens.sum = .ok n) :
    seqLens.sum ≤
      n * max cfg.maxTokenLen (cfg.forceGroupSize * maxSeqLen) := by
  rcases total_le_of_numMicroBatches hreduce hbudget hcount with hall | hfits
  · have hsum : seqLens.sum ≤ seqLens.length * maxSeqLen :=
      List.sum_le_card_nsmul _ _ hlens
    calc seqLens.sum ≤ seqLens.length * maxSeqLen := hsum
      _ = seqLens.length / cfg.forceGroupSize *
          (cfg.forceGroupSize * maxSeqLen) := by
        rw [← Nat.mul_assoc, Nat.div_mul_cancel hdvd]
      _ ≤ n * max cfg.maxTokenLen (cfg.forceGroupSize * maxSeqLen) :=
        Nat.mul_le_mul hall (le_max_right _ _)
  · exact hfits.trans (Nat.mul_le_mul_left n (le_max_left _ _))

/-- A balanced part has at most the average number of tokens and those of a full
group more, but for the difference between tokens and cost. -/
theorem tokens_le_of_balanced (hlens : ∀ l ∈ seqLens, l ≤ maxSeqLen) (hn : 0 < n)
    (hpos : 0 < cfg.forceGroupSize) (hdvd : cfg.forceGroupSize ∣ seqLens.length)
    (hsum : seqLens.sum ≤
      n * max cfg.maxTokenLen (cfg.forceGroupSize * maxSeqLen))
    {groups : List (List ℕ)}
    (hbalanced : Balanced (groupWorkloads cfg (seqLens.map calculateWorkload)) n
      ((24576 + maxSeqLen) * (cfg.forceGroupSize * maxSeqLen)) groups)
    {partition : List ℕ} (hpartition : partition ∈ groups) :
    24576 * tokens seqLens (groupSamples cfg partition) ≤ (24576 + maxSeqLen) *
      (max cfg.maxTokenLen (cfg.forceGroupSize * maxSeqLen) +
        cfg.forceGroupSize * maxSeqLen) := by
  have hcover := hbalanced.cover
  rw [length_groupWorkloads hpos, List.length_map] at hcover
  have hlt : ∀ g ∈ partition, g < seqLens.length / cfg.forceGroupSize := by
    intro g hg
    exact List.mem_range.mp (hcover.subset
      (List.mem_flatten.mpr ⟨partition, hpartition, hg⟩))
  have htokens := tokens_le_load hpos hlens hlt
  have hload := hbalanced.mul_load_le hpartition
  rw [sum_groupWorkloads hpos hdvd] at hload
  have hcost := (sum_calculateWorkload hlens).2
  have hroom : (seqLens.sum : ℤ) ≤
      n * max cfg.maxTokenLen (cfg.forceGroupSize * maxSeqLen) := by
    exact_mod_cast hsum
  have hscaled := mul_le_mul_of_nonneg_left hroom
    (by positivity : (0 : ℤ) ≤ 24576 + maxSeqLen)
  have hle : (n : ℤ) * load (groupWorkloads cfg
      (seqLens.map calculateWorkload)) partition ≤
      n * ((24576 + maxSeqLen) *
        (max cfg.maxTokenLen (cfg.forceGroupSize * maxSeqLen) +
          cfg.forceGroupSize * maxSeqLen)) := by
    linarith
  have hbound := le_of_mul_le_mul_left hle (by exact_mod_cast hn)
  exact_mod_cast htokens.trans hbound

/-- **What the micro-batches hold.** If the rows have a token and under the
conditions that are asserted, every row is in one micro-batch, with its group; no
micro-batch is empty, and none has much more tokens than asked for. -/
theorem micro_batches_hold (hmax : maxSeqLen ≤ cfg.maxTokenLen)
    (hlens : ∀ l ∈ seqLens, l ≤ maxSeqLen) (htokens : 0 < seqLens.sum)
    (hpos : 0 < cfg.forceGroupSize)
    (hdvd : cfg.forceGroupSize ∣ seqLens.length)
    (hreduce : ∀ n, n ≤ cfg.allReduce n)
    (hcount : numMicroBatches cfg (seqLens.length / cfg.forceGroupSize)
      seqLens.sum = .ok n)
    (hgroups : n ≤ seqLens.length / cfg.forceGroupSize) :
    ∃ idx, rearrangeMicroBatches cfg maxSeqLen seqLens = .ok idx ∧
      idx.length = n ∧ idx.flatten.Perm (List.range seqLens.length) ∧
      ∀ part ∈ idx, part ≠ [] ∧
        (∃ groups, part = groupSamples cfg groups) ∧
        24576 * tokens seqLens part ≤ (24576 + maxSeqLen) *
          (max cfg.maxTokenLen (cfg.forceGroupSize * maxSeqLen) +
            cfg.forceGroupSize * maxSeqLen) := by
  obtain ⟨hn, hbudget, groups, idx, hbalanced, hidx, hperm, hall⟩ :=
    exists_rearranged cfg hmax hlens htokens hpos hdvd hreduce hcount hgroups
  have hsum := sum_le_mul_max hlens hdvd hreduce hbudget hcount
  refine ⟨idx, hidx, ?_, hall, ?_⟩
  · rw [hperm.length_eq, List.length_map, hbalanced.count]
  · intro part hpart
    obtain ⟨partition, hpartition, rfl⟩ :=
      List.mem_map.mp (hperm.mem_iff.mp hpart)
    exact ⟨groupSamples_ne_nil hpos (hbalanced.nonempty partition hpartition),
      ⟨partition, rfl⟩,
      tokens_le_of_balanced hlens hn hpos hdvd hsum hbalanced hpartition⟩

/-- Two micro-batches of three rows; `max_token_len` is 4, and one has 5 tokens. -/
theorem micro_batches_hold_threeRows :
    ∃ idx, rearrangeMicroBatches { maxTokenLen := 4 } 3 [3, 3, 2] = .ok idx ∧
      idx.length = 2 ∧ idx.flatten.Perm (List.range 3) ∧
      ∀ part ∈ idx, part ≠ [] ∧
        (∃ groups, part = groupSamples { maxTokenLen := 4 } groups) ∧
        24576 * tokens [3, 3, 2] part ≤ (24576 + 3) * (max 4 (1 * 3) + 1 * 3) :=
  micro_batches_hold (by decide) (by decide) (by decide) (by decide) (by decide)
    (fun _ => le_rfl) rfl (by decide)

example : rearrangeMicroBatches { maxTokenLen := 4 } 3 [3, 3, 2] =
    .ok [[0, 2], [1]] := by decide

end Rearranged

/-! ## Cutting out -/

section Cut

variable {ρ : Type} {seqLen : ρ → ℕ} {maxSeqLen : ℕ} {data : List ρ}

theorem split_spec (data : List ρ) {splitSize : ℕ} (hsize : 0 < splitSize) :
    ∃ parts, DataProto.split data splitSize = .ok parts ∧ parts.flatten = data ∧
      (splitSize ∣ data.length → ∀ part ∈ parts, part.length = splitSize) := by
  refine ⟨_, by rw [DataProto.split, if_neg hsize.ne'], ?_, ?_⟩
  · rw [← List.flatMap_def, DataProto.flatMap_runs]
    exact List.take_of_length_le (le_roundupDivisible data.length hsize)
  · rintro ⟨m, hm⟩ part hpart
    obtain ⟨i, hi, rfl⟩ := List.mem_map.mp hpart
    have hcount : (data.length + splitSize - 1) / splitSize = m := by
      rw [hm, Nat.add_sub_assoc hsize, Nat.mul_add_div hsize,
        Nat.div_eq_of_lt (Nat.sub_lt hsize Nat.one_pos), Nat.add_zero]
    rw [hcount, List.mem_range] at hi
    have hend : (i + 1) * splitSize ≤ m * splitSize := Nat.mul_le_mul_right _ hi
    rw [Nat.succ_mul] at hend
    rw [List.length_take, List.length_drop, hm, Nat.mul_comm splitSize]
    omega

/-- The micro-batches that are cut out at `idx`. -/
theorem mapM_reorder {idx : List (List ℕ)}
    (hlt : ∀ i ∈ idx.flatten, i < data.length) :
    idx.mapM (DataProto.reorder data) =
      .ok (idx.map fun part => part.filterMap (data[·]?)) := by
  rw [mapM_eq_ok_iff, List.forall₂_map_right_iff, List.forall₂_same]
  intro part hpart
  exact reorder_of_lt fun i hi => hlt i (List.mem_flatten.mpr ⟨part, hpart, hi⟩)

/-- With the defaults and rows that fit, the micro-batches are cut out of the
rows without an exception. -/
theorem exists_dynamicBatch {maxTokenLen : ℕ} (hne : data ≠ [])
    (hmax : maxSeqLen ≤ maxTokenLen)
    (hrows : ∀ row ∈ data, 0 < seqLen row ∧ seqLen row ≤ maxSeqLen) :
    ∃ idx, rearrangeMicroBatches { maxTokenLen := maxTokenLen } maxSeqLen
        (data.map seqLen) = .ok idx ∧
      idx.mapM (DataProto.reorder data) =
        .ok (idx.map fun part => part.filterMap (data[·]?)) ∧
      idx ≠ [] ∧ (∀ part ∈ idx, part ≠ []) ∧
      idx.flatten.Perm (List.range data.length) := by
  have hlens : ∀ l ∈ data.map seqLen, l ≤ maxSeqLen := by
    intro l hl
    obtain ⟨row, hrow, rfl⟩ := List.mem_map.mp hl
    exact (hrows row hrow).2
  have htokens : 0 < (data.map seqLen).sum := by
    obtain ⟨row, rest, rfl⟩ := List.exists_cons_of_ne_nil hne
    have hrow := (hrows row List.mem_cons_self).1
    rw [List.map_cons, List.sum_cons]
    omega
  obtain ⟨hn, -, groups, idx, hbalanced, hidx, hperm, hcover⟩ :=
    exists_rearranged { maxTokenLen := maxTokenLen } hmax hlens htokens
      Nat.one_pos (one_dvd _) (fun n => le_rfl) rfl (min_le_left _ _)
  rw [List.length_map] at hcover
  refine ⟨idx, hidx, mapM_reorder fun i hi => ?_, ?_, ?_, hcover⟩
  · exact List.mem_range.mp (hcover.subset hi)
  · rintro rfl
    have hcount := hperm.length_eq
    rw [List.length_map, hbalanced.count, List.length_nil] at hcount
    omega
  · intro part hpart
    obtain ⟨partition, hpartition, rfl⟩ := List.mem_map.mp (hperm.mem_iff.mp hpart)
    exact groupSamples_ne_nil Nat.one_pos (hbalanced.nonempty partition hpartition)

end Cut

end TTSR.Trainer
