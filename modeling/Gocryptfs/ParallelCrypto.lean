import Gocryptfs.Schedule
/-!
# `Gocryptfs.ParallelCrypto` — the `processFunc` calls the parallel driver makes

`internal/parallelcrypto` in the version `contentenc` imports (the one with
`ShouldUseBatch` and `ProcessBlocksOptimized`).  A driver takes a block count
and a `processFunc(startIdx, endIdx)` and calls it: from one goroutine, or
from `workers` goroutines joined before it returns.  What a driver does is
therefore fully described by the calls each goroutine makes, in order, and
that is what `processBlocksParallel`, `processBlocksBatch` and
`processBlocksOptimized` return: one `Calls` list per goroutine.

The worker loop of every caller is `for i := startIdx; i < endIdx; i++`, so a
goroutine visits the indices `Calls.idx` lists.  The one fact every caller
needs is `*_idx`: over all goroutines, in start order, the indices visited are
`0, 1, …, n-1`, each once — whatever the CPU count, the flags or the
thresholds.  With `Interleaving.perm` it makes every schedule a permutation
of `List.range n`.

`GetOptimalWorkerCount` scales the CPU count by `1.5` or `1.2` through
`float64`; the model computes `cpuCount * 3 / 2` and `cpuCount * 6 / 5`, which
is what the float computation truncates to for every CPU count a machine has.
-/

namespace Gocryptfs

/-- `ParallelThreshold`: the least block count that goes to the workers. -/
def parallelThreshold : Nat := 4

/-- `MaxParallelWorkers`. -/
def maxParallelWorkers : Nat := 16

/-- `MinParallelWorkers`: the least CPU count for which workers are used. -/
def minParallelWorkers : Nat := 2

/-- `BatchThreshold`: the least block count processed in batches. -/
def batchThreshold : Nat := 2

/-- `ParallelCrypto`. `New` sets `enabled` and `cpuCount := runtime.NumCPU()`,
and `detectCPUFeatures` sets the three feature flags. -/
structure ParallelCrypto where
  enabled : Bool
  cpuCount : Nat
  hasAVX : Bool
  hasAVX2 : Bool
  hasAES : Bool
  deriving DecidableEq, Repr

/-- The `processFunc(startIdx, endIdx)` calls one goroutine makes, in order. -/
abbrev Calls := List (Nat × Nat)

/-- `for i := startIdx; i < endIdx; i++`: the indices one call visits. -/
def callIdx : Nat × Nat → List Nat
  | (startIdx, endIdx) => List.range' startIdx (endIdx - startIdx)

/-- The indices one goroutine visits over all its calls, in order. -/
def Calls.idx (cs : Calls) : List Nat := cs.flatMap callIdx

namespace ParallelCrypto

/-- `New` followed by `detectCPUFeatures`. -/
def new (cpuCount : Nat) : ParallelCrypto := ⟨true, cpuCount, true, true, true⟩

/-- `ShouldUseParallel`. -/
def shouldUseParallel (pc : ParallelCrypto) (blockCount : Nat) : Bool :=
  if !pc.enabled then false
  else if pc.cpuCount < minParallelWorkers then false
  else decide (blockCount ≥ parallelThreshold)

/-- `ShouldUseBatch`. -/
def shouldUseBatch (pc : ParallelCrypto) (blockCount : Nat) : Bool :=
  if !pc.enabled then false
  else decide (blockCount ≥ batchThreshold)

/-- `GetOptimalWorkerCount`. -/
def getOptimalWorkerCount (pc : ParallelCrypto) (blockCount : Nat) : Nat :=
  if !pc.enabled then 1
  else if blockCount < parallelThreshold then 1
  else if pc.cpuCount < minParallelWorkers then 1
  else
    let workers :=
      if pc.hasAVX2 && pc.hasAES then pc.cpuCount * 3 / 2
      else if pc.hasAVX then pc.cpuCount * 6 / 5
      else pc.cpuCount
    let workers := if workers > maxParallelWorkers then maxParallelWorkers else workers
    if workers > blockCount then blockCount else workers

/-- `ProcessBlocksParallel`: below the threshold one call from the caller's
goroutine; above it one goroutine per worker, the last taking the rest. -/
def processBlocksParallel (pc : ParallelCrypto) (blockCount : Nat) : List Calls :=
  if !pc.shouldUseParallel blockCount then [[(0, blockCount)]]
  else
    let workers := pc.getOptimalWorkerCount blockCount
    let groupSize := blockCount / workers
    (List.range workers).map fun workerID =>
      [(workerID * groupSize,
        if workerID = workers - 1 then blockCount else (workerID + 1) * groupSize)]

/-- `ProcessBlocksParallelWithResult`: the same split as
`ProcessBlocksParallel`, with `results[workerID]` the value of worker
`workerID`'s one call. -/
def processBlocksParallelWithResult {β : Type} (pc : ParallelCrypto) (blockCount : Nat)
    (processFunc : Nat → Nat → β) : List β :=
  if !pc.shouldUseParallel blockCount then [processFunc 0 blockCount]
  else
    let workers := pc.getOptimalWorkerCount blockCount
    let groupSize := blockCount / workers
    (List.range workers).map fun workerID =>
      processFunc (workerID * groupSize)
        (if workerID = workers - 1 then blockCount else (workerID + 1) * groupSize)

/-- The loop `for i := i; i < blockCount; i += batchSize` of
`ProcessBlocksBatch`.  Its `batchSize` is 4 or 8; the guard `0 < batchSize`
holds there and only keeps the model total. -/
def batchCalls (batchSize blockCount i : Nat) : Calls :=
  if i < blockCount ∧ 0 < batchSize then
    (i, min (i + batchSize) blockCount) :: batchCalls batchSize blockCount (i + batchSize)
  else []
termination_by blockCount - i

/-- `ProcessBlocksBatch`: every batch from the caller's goroutine. -/
def processBlocksBatch (pc : ParallelCrypto) (blockCount : Nat) : List Calls :=
  if !pc.shouldUseBatch blockCount then [[(0, blockCount)]]
  else [batchCalls (if pc.hasAVX2 then 8 else 4) blockCount 0]

/-- `ProcessBlocksOptimized`. -/
def processBlocksOptimized (pc : ParallelCrypto) (blockCount : Nat) : List Calls :=
  if pc.shouldUseParallel blockCount then pc.processBlocksParallel blockCount
  else if pc.shouldUseBatch blockCount then pc.processBlocksBatch blockCount
  else [[(0, blockCount)]]

end ParallelCrypto

/-! ## Every driver visits `0, …, n-1` once, in start order

The parallel split is `workers - 1` groups of `groupSize` and a last group
that runs to `blockCount`; `(workers - 1) * groupSize ≤ blockCount` is all the
arithmetic it needs.  The batch loop is an induction along the loop itself. -/

theorem Calls.idx_cons (c : Nat × Nat) (cs : Calls) :
    Calls.idx (c :: cs) = callIdx c ++ cs.idx := rfl

theorem Calls.idx_single (s e : Nat) : Calls.idx [(s, e)] = List.range' s (e - s) := by
  simp [Calls.idx, callIdx]

theorem flatMap_groups (g : Nat) : ∀ m : Nat,
    (List.range m).flatMap (fun k => List.range' (k * g) g) = List.range' 0 (m * g)
  | 0 => by simp
  | m + 1 => by
    rw [List.range_succ, List.flatMap_append, flatMap_groups g m, List.flatMap_singleton,
      Nat.succ_mul]
    simpa [Nat.add_comm] using List.range'_append_1 0 (m * g) g

/-- The split's one arithmetic fact: the first `workers - 1` groups of
`blockCount / workers` fit in `blockCount`. -/
theorem sub_one_mul_div_le (w n : Nat) : (w - 1) * (n / w) ≤ n :=
  (Nat.mul_le_mul_right _ (Nat.sub_le _ 1)).trans (Nat.mul_div_le n _)

theorem workers_idx (w g n : Nat) (hw : 0 < w) (hg : (w - 1) * g ≤ n) :
    (((List.range w).map fun k =>
        [(k * g, if k = w - 1 then n else (k + 1) * g)]).map Calls.idx).flatten =
      List.range n := by
  obtain ⟨m, rfl⟩ : ∃ m, w = m + 1 := ⟨w - 1, by omega⟩
  simp only [Nat.add_sub_cancel] at hg ⊢
  have hfront : ∀ k ∈ List.range m,
      (Calls.idx ∘ fun k => [(k * g, if k = m then n else (k + 1) * g)]) k =
        List.range' (k * g) g := by
    intro k hk
    have : k ≠ m := by simp at hk; omega
    simp [Calls.idx_single, this, Nat.succ_mul]
  rw [List.map_map, ← List.flatMap_def, List.range_succ, List.flatMap_append,
    List.flatMap_def, List.map_congr_left hfront, ← List.flatMap_def, flatMap_groups]
  simpa [Calls.idx_single, List.range_eq_range' n, Nat.sub_add_cancel hg]
    using List.range'_append_1 0 (m * g) (n - m * g)

theorem flatten_map_singleton {α β : Type} (p : α → β) :
    ∀ l : List α, (l.map fun x => [p x]).flatten = l.map p
  | [] => rfl
  | a :: l => by rw [List.map_cons, List.flatten_cons, flatten_map_singleton p l]; rfl

namespace ParallelCrypto

theorem batchCalls_idx (bs n : Nat) (hbs : 0 < bs) (i : Nat) :
    (batchCalls bs n i).idx = List.range' i (n - i) := by
  induction i using batchCalls.induct bs n with
  | case1 i h ih =>
    rw [batchCalls, if_pos h, Calls.idx_cons, ih, callIdx]
    by_cases hb : i + bs ≤ n
    · rw [Nat.min_eq_left hb, Nat.add_sub_cancel_left, List.range'_append_1]
      congr 1; omega
    · rw [Nat.min_eq_right (by omega), Nat.sub_eq_zero_of_le (by omega : n ≤ i + bs)]
      simp
  | case2 i h =>
    rw [batchCalls, if_neg h, Nat.sub_eq_zero_of_le (by omega)]
    rfl

variable (pc : ParallelCrypto) (n : Nat)

/-- When the driver shards, the worker count is at least one and at most
`min(MaxParallelWorkers, blockCount)`: the CPU count scaled by the features
is positive, and the two caps only lower it. -/
theorem getOptimalWorkerCount_bounds (h : pc.shouldUseParallel n = true) :
    0 < pc.getOptimalWorkerCount n ∧ pc.getOptimalWorkerCount n ≤ min maxParallelWorkers n := by
  unfold shouldUseParallel at h
  split_ifs at h with h1 h2
  have hn : parallelThreshold ≤ n := of_decide_eq_true h
  unfold getOptimalWorkerCount
  rw [if_neg h1, if_neg (Nat.not_lt.mpr hn), if_neg h2]
  simp only [parallelThreshold, minParallelWorkers, maxParallelWorkers] at hn h2 ⊢
  generalize hw : (if pc.hasAVX2 && pc.hasAES then pc.cpuCount * 3 / 2
    else if pc.hasAVX then pc.cpuCount * 6 / 5 else pc.cpuCount) = w
  have hw0 : 0 < w := by subst hw; split_ifs <;> omega
  split_ifs <;> omega

theorem processBlocksParallelWithResult_eq {β : Type} (f : Nat → Nat → β) :
    pc.processBlocksParallelWithResult n f =
      (pc.processBlocksParallel n).flatten.map fun r => f r.1 r.2 := by
  unfold processBlocksParallelWithResult processBlocksParallel
  split
  · rfl
  · rw [flatten_map_singleton, List.map_map]; rfl

theorem single_idx : ([[(0, n)]].map Calls.idx).flatten = List.range n := by
  simp [Calls.idx_single, List.range_eq_range']

theorem processBlocksParallel_idx :
    ((pc.processBlocksParallel n).map Calls.idx).flatten = List.range n := by
  unfold processBlocksParallel
  split
  · exact single_idx n
  · next h =>
    exact workers_idx _ _ _ (getOptimalWorkerCount_bounds pc n (by simpa using h)).1
      (sub_one_mul_div_le _ n)

theorem processBlocksBatch_idx :
    ((pc.processBlocksBatch n).map Calls.idx).flatten = List.range n := by
  unfold processBlocksBatch
  split
  · exact single_idx n
  · have hbs : 0 < if pc.hasAVX2 = true then 8 else 4 := by split <;> decide
    simp [batchCalls_idx _ _ hbs, List.range_eq_range']

theorem processBlocksOptimized_idx :
    ((pc.processBlocksOptimized n).map Calls.idx).flatten = List.range n := by
  unfold processBlocksOptimized
  split
  · exact processBlocksParallel_idx pc n
  · split
    · exact processBlocksBatch_idx pc n
    · exact single_idx n

end ParallelCrypto

theorem Scheduler.pick_perm (sched : Scheduler) {ts : List (List Nat)} {n : Nat}
    (h : ts.flatten = List.range n) : (sched.pick ts).Perm (List.range n) :=
  h ▸ (sched.interleaves ts).perm

end Gocryptfs
