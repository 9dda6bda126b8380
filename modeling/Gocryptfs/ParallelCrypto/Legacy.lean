import Gocryptfs.ParallelCrypto
/-!
# `Gocryptfs.ParallelCrypto.Legacy` — the older parallel driver

`internal/parallelcrypto`, the first version of the driver: a threshold of 8
blocks, at most 8 workers, no batch path and no CPU features.  It reads
`runtime.NumCPU()` each time it needs the CPU count.  That number is fixed
when the process starts, so the model takes it as one argument, `numCPU`.

The source writes the newer driver's split into workers out again, so the
same arithmetic fact, `workers_idx`, shows that the workers of this version
too visit `0, …, n-1` once, in start order.
-/

namespace Gocryptfs.Legacy

/-- `ParallelThreshold`. -/
def parallelThreshold : Nat := 8

/-- `MaxParallelWorkers`. -/
def maxParallelWorkers : Nat := 8

/-- `MinParallelWorkers`: the least CPU count for which workers are used. -/
def minParallelWorkers : Nat := 2

/-- `ParallelCrypto` of the older version: only the switch. -/
structure ParallelCrypto where
  enabled : Bool
  deriving DecidableEq, Repr

namespace ParallelCrypto

/-- `New`. -/
def new : ParallelCrypto := ⟨true⟩

/-- `ShouldUseParallel`. -/
def shouldUseParallel (pc : ParallelCrypto) (numCPU blockCount : Nat) : Bool :=
  if !pc.enabled then false
  else if numCPU < minParallelWorkers then false
  else decide (blockCount ≥ parallelThreshold)

/-- `GetOptimalWorkerCount`. -/
def getOptimalWorkerCount (pc : ParallelCrypto) (numCPU blockCount : Nat) : Nat :=
  if !pc.enabled then 1
  else if blockCount < parallelThreshold then 1
  else if numCPU < minParallelWorkers then 1
  else
    let workers := numCPU
    let workers := if workers > maxParallelWorkers then maxParallelWorkers else workers
    if workers > blockCount then blockCount else workers

/-- `ProcessBlocksParallel`, as the calls each goroutine makes. -/
def processBlocksParallel (pc : ParallelCrypto) (numCPU blockCount : Nat) : List Calls :=
  if !pc.shouldUseParallel numCPU blockCount then [[(0, blockCount)]]
  else
    let workers := pc.getOptimalWorkerCount numCPU blockCount
    let groupSize := blockCount / workers
    (List.range workers).map fun workerID =>
      [(workerID * groupSize,
        if workerID = workers - 1 then blockCount else (workerID + 1) * groupSize)]

/-- `ProcessBlocksParallelWithResult`. -/
def processBlocksParallelWithResult {β : Type} (pc : ParallelCrypto) (numCPU blockCount : Nat)
    (processFunc : Nat → Nat → β) : List β :=
  if !pc.shouldUseParallel numCPU blockCount then [processFunc 0 blockCount]
  else
    let workers := pc.getOptimalWorkerCount numCPU blockCount
    let groupSize := blockCount / workers
    (List.range workers).map fun workerID =>
      processFunc (workerID * groupSize)
        (if workerID = workers - 1 then blockCount else (workerID + 1) * groupSize)

variable (pc : ParallelCrypto) (numCPU n : Nat)

theorem getOptimalWorkerCount_bounds (h : pc.shouldUseParallel numCPU n = true) :
    0 < pc.getOptimalWorkerCount numCPU n ∧
      pc.getOptimalWorkerCount numCPU n ≤ min maxParallelWorkers n := by
  unfold shouldUseParallel at h
  split_ifs at h with h1 h2
  have hn : parallelThreshold ≤ n := of_decide_eq_true h
  unfold getOptimalWorkerCount
  rw [if_neg h1, if_neg (Nat.not_lt.mpr hn), if_neg h2]
  simp only [parallelThreshold, minParallelWorkers, maxParallelWorkers] at hn h2 ⊢
  split_ifs <;> omega

theorem processBlocksParallel_idx :
    ((pc.processBlocksParallel numCPU n).map Calls.idx).flatten = List.range n := by
  unfold processBlocksParallel
  split
  · exact Gocryptfs.ParallelCrypto.single_idx n
  · next h =>
    exact workers_idx _ _ _ (getOptimalWorkerCount_bounds pc numCPU n (by simpa using h)).1
      (sub_one_mul_div_le _ n)

theorem processBlocksParallelWithResult_eq {β : Type} (f : Nat → Nat → β) :
    pc.processBlocksParallelWithResult numCPU n f =
      (pc.processBlocksParallel numCPU n).flatten.map fun r => f r.1 r.2 := by
  unfold processBlocksParallelWithResult processBlocksParallel
  split
  · rfl
  · rw [flatten_map_singleton, List.map_map]; rfl

end ParallelCrypto

end Gocryptfs.Legacy
