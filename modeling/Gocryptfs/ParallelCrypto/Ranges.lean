import Gocryptfs.ParallelCrypto.Legacy
/-!
# `Gocryptfs.ParallelCrypto.Ranges` — the ranges every driver hands to `processFunc`

What a `processFunc(startIdx, endIdx)` may assume about the calls a driver
makes: each range is well formed, no index lies in two ranges, and together
the ranges cover `[0, blockCount)`.  `Partitions` names the three facts.  The
last two follow from `*_idx`, since the indices the calls visit, in start
order, are `List.range n`, which has no duplicates (`Partitions.of_idx`).
Well-formedness is read off each driver's arithmetic.

Both versions of the driver, and all four entry points of the newer one,
partition `[0, n)` for every block count, switch setting and CPU count.
`ProcessBlocksParallelWithResult` passes the ranges `ProcessBlocksParallel`
passes, so with `processFunc := Prod.mk` its results are those ranges.
-/

namespace Gocryptfs

/-- The calls `rs` hand out `[0, n)`: each range has `start ≤ end`, no index
lies in two ranges, and the indices in some range are exactly those below `n`. -/
structure Partitions (rs : Calls) (n : Nat) : Prop where
  wellFormed : ∀ r ∈ rs, r.1 ≤ r.2
  disjoint : rs.Pairwise fun r s => ∀ i, ¬(r.1 ≤ i ∧ i < r.2 ∧ s.1 ≤ i ∧ i < s.2)
  covers : ∀ i, (∃ r ∈ rs, r.1 ≤ i ∧ i < r.2) ↔ i < n

theorem mem_callIdx {r : Nat × Nat} {i : Nat} : i ∈ callIdx r ↔ r.1 ≤ i ∧ i < r.2 := by
  obtain ⟨s, e⟩ := r
  simp only [callIdx, List.mem_range']
  constructor
  · rintro ⟨k, hk, rfl⟩; omega
  · rintro ⟨h₁, h₂⟩; exact ⟨i - s, by omega, by omega⟩

theorem Calls.idx_flatten : ∀ css : List Calls, Calls.idx css.flatten = (css.map Calls.idx).flatten
  | [] => rfl
  | cs :: css => by
    rw [List.flatten_cons, List.map_cons, List.flatten_cons, ← Calls.idx_flatten css]
    exact List.flatMap_append _ _ _

theorem Partitions.of_idx {rs : Calls} {n : Nat} (hwf : ∀ r ∈ rs, r.1 ≤ r.2)
    (h : rs.idx = List.range n) : Partitions rs n where
  wellFormed := hwf
  disjoint := by
    have hnd : (rs.map callIdx).flatten.Nodup := by
      rw [← List.flatMap_def, show rs.flatMap callIdx = List.range n from h]
      exact List.nodup_range n
    exact (List.pairwise_map.mp (List.nodup_flatten.mp hnd).2).imp fun hd i ⟨h₁, h₂, h₃, h₄⟩ =>
      hd (mem_callIdx.mpr ⟨h₁, h₂⟩) (mem_callIdx.mpr ⟨h₃, h₄⟩)
  covers i := by
    rw [← List.mem_range, ← h, Calls.idx, List.mem_flatMap]
    exact exists_congr fun r => and_congr_right' mem_callIdx.symm

/-! ## Each driver's ranges are well formed -/

theorem workers_wellFormed (w g n : Nat) (hg : (w - 1) * g ≤ n) :
    ∀ r ∈ ((List.range w).map fun k => [(k * g, if k = w - 1 then n else (k + 1) * g)]).flatten,
      r.1 ≤ r.2 := by
  intro r hr
  simp only [List.mem_flatten, List.mem_map, List.mem_range] at hr
  obtain ⟨_, ⟨k, -, rfl⟩, hr⟩ := hr
  rw [List.mem_singleton.mp hr]
  split
  · next h => exact h ▸ hg
  · exact Nat.mul_le_mul_right g (Nat.le_succ k)

theorem single_wellFormed (n : Nat) : ∀ r ∈ [[(0, n)]].flatten, r.1 ≤ r.2 := by
  simp

namespace ParallelCrypto

theorem batchCalls_wellFormed (bs n : Nat) : ∀ i, ∀ r ∈ batchCalls bs n i, r.1 ≤ r.2 := by
  intro i
  induction i using batchCalls.induct bs n with
  | case1 i h ih =>
    rw [batchCalls, if_pos h]
    rintro r (_ | ⟨_, hr⟩)
    · exact Nat.le_min.mpr ⟨Nat.le_add_right i bs, h.1.le⟩
    · exact ih r hr
  | case2 i h => rw [batchCalls, if_neg h]; simp

variable (pc : ParallelCrypto) (n : Nat)

theorem processBlocksParallel_partitions : Partitions (pc.processBlocksParallel n).flatten n := by
  refine .of_idx ?_ (by rw [Calls.idx_flatten, processBlocksParallel_idx])
  unfold processBlocksParallel
  split
  · exact single_wellFormed n
  · exact workers_wellFormed _ _ _ (sub_one_mul_div_le _ n)

theorem processBlocksBatch_partitions : Partitions (pc.processBlocksBatch n).flatten n := by
  refine .of_idx ?_ (by rw [Calls.idx_flatten, processBlocksBatch_idx])
  unfold processBlocksBatch
  split
  · exact single_wellFormed n
  · simpa using batchCalls_wellFormed _ n 0

theorem processBlocksOptimized_partitions : Partitions (pc.processBlocksOptimized n).flatten n := by
  unfold processBlocksOptimized
  split
  · exact processBlocksParallel_partitions pc n
  · split
    · exact processBlocksBatch_partitions pc n
    · exact .of_idx (single_wellFormed n) (by rw [Calls.idx_flatten, single_idx])

theorem processBlocksParallelWithResult_partitions :
    Partitions (pc.processBlocksParallelWithResult n Prod.mk) n := by
  rw [processBlocksParallelWithResult_eq]
  simp only [Prod.mk.eta, List.map_id']
  exact processBlocksParallel_partitions pc n

end ParallelCrypto

namespace Legacy.ParallelCrypto

variable (pc : ParallelCrypto) (numCPU n : Nat)

theorem processBlocksParallel_partitions :
    Partitions (pc.processBlocksParallel numCPU n).flatten n := by
  refine .of_idx ?_ (by rw [Calls.idx_flatten, processBlocksParallel_idx])
  unfold processBlocksParallel
  split
  · exact single_wellFormed n
  · exact workers_wellFormed _ _ _ (sub_one_mul_div_le _ n)

theorem processBlocksParallelWithResult_partitions :
    Partitions (pc.processBlocksParallelWithResult numCPU n Prod.mk) n := by
  rw [processBlocksParallelWithResult_eq]
  simp only [Prod.mk.eta, List.map_id']
  exact processBlocksParallel_partitions pc numCPU n

end Legacy.ParallelCrypto

/-- For every block count, in both versions of the driver, whatever the
switch and the CPU count: every entry point hands `processFunc` ranges that
partition `[0, n)`; and whenever `ProcessBlocksParallel` shards, it starts at
least one and at most `min(MaxParallelWorkers, n)` workers. -/
theorem processBlocks_ranges_partition (n : Nat) :
    (∀ pc : ParallelCrypto,
      Partitions (pc.processBlocksParallel n).flatten n ∧
      Partitions (pc.processBlocksBatch n).flatten n ∧
      Partitions (pc.processBlocksOptimized n).flatten n ∧
      Partitions (pc.processBlocksParallelWithResult n Prod.mk) n ∧
      (pc.shouldUseParallel n = true →
        1 ≤ pc.getOptimalWorkerCount n ∧ pc.getOptimalWorkerCount n ≤ min maxParallelWorkers n)) ∧
    (∀ (pc : Legacy.ParallelCrypto) (numCPU : Nat),
      Partitions (pc.processBlocksParallel numCPU n).flatten n ∧
      Partitions (pc.processBlocksParallelWithResult numCPU n Prod.mk) n ∧
      (pc.shouldUseParallel numCPU n = true →
        1 ≤ pc.getOptimalWorkerCount numCPU n ∧
          pc.getOptimalWorkerCount numCPU n ≤ min Legacy.maxParallelWorkers n)) :=
  ⟨fun pc => ⟨pc.processBlocksParallel_partitions n, pc.processBlocksBatch_partitions n,
      pc.processBlocksOptimized_partitions n, pc.processBlocksParallelWithResult_partitions n,
      pc.getOptimalWorkerCount_bounds n⟩,
    fun pc numCPU => ⟨pc.processBlocksParallel_partitions numCPU n,
      pc.processBlocksParallelWithResult_partitions numCPU n,
      pc.getOptimalWorkerCount_bounds numCPU n⟩⟩

end Gocryptfs
