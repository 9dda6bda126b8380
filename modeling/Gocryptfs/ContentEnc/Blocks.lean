import Gocryptfs.ContentEnc.Block
import Mathlib.Data.List.GetD
/-!
# `Gocryptfs.ContentEnc.Blocks` — many blocks, through the parallel driver

`DecryptBlocks` and `EncryptBlocks`.  Decryption picks one of three paths
by the block count `len(ciphertext) / cipherBS`:

* `decryptBlocksSequential`, the original loop, reads the ciphertext in
  `cipherBS` chunks — the last one possibly short — and stops at the first
  error;
* `decryptBlocksParallel` and `decryptBlocksBatch` cut the first
  `blockCount * cipherBS` bytes into blocks and hand the index range to the
  driver.  Every worker iteration decrypts one block and then, under `mu`,
  keeps the first error it sees and stores the block: `DecryptState.record`.

The two driver-based paths are one function, `decryptBlocksWith`, applied
to the two drivers.  Encryption always goes through `ProcessBlocksOptimized`;
each iteration draws a nonce and seals one block into its own slot.

A run of the driver is `runSteps` over the order a `Scheduler` picks (see
`Gocryptfs.Schedule`), so every statement below holds for every
interleaving of the workers.  The per-step facts are
`runSteps_record` and `runSteps_seal`: what a whole run computes,
for any schedule, in closed form.  From them, a file of full blocks reads back
as it was written (`decryptBlocks_encryptBlocks`), and the sequential loop
reads back every file (`decryptBlocksSequential_encryptBlocks`); a short last
block, and the order in which errors are met, are where the driver paths part
from the sequential loop.
-/

namespace Gocryptfs

/-- Successive `bytes.Buffer.Next(n)` reads until the buffer is empty.  The
chunk is written `b :: bs.take (n - 1)`, which is `take n` for the positive
`n` the code passes (`cipherBS`) and keeps the model total at `n = 0`, where
Go would loop. -/
def nextChunks (n : Nat) : Bytes → List Bytes
  | [] => []
  | b :: bs => (b :: bs.take (n - 1)) :: nextChunks n (bs.drop (n - 1))
termination_by l => l.length
decreasing_by simp only [List.length_drop, List.length_cons]; omega

/-- What the workers of `decryptBlocksParallel` and `decryptBlocksBatch`
share under `mu`: the first error, and the slice of plaintext blocks. -/
structure DecryptState where
  decryptErr : Option String
  plainBlocks : Nat → Bytes

/-- The locked part of one worker iteration: keep the first error, and store
block `i` (Go's `nil` after an error). -/
def DecryptState.record (s : DecryptState) (i : Nat) : Result Bytes → Result DecryptState
  | .ok p => .ok ⟨s.decryptErr, Function.update s.plainBlocks i p⟩
  | .error e => .ok ⟨s.decryptErr.or (some e), Function.update s.plainBlocks i []⟩
  | .panic => .panic

/-- What the workers of `EncryptBlocks` share: how many nonces they have
drawn, and the slice of ciphertext blocks. -/
structure EncryptState where
  drawn : Nat
  ciphertextBlocks : Nat → Bytes

namespace ContentEnc

variable (be : ContentEnc)

/-- The loop of `decryptBlocksSequential`: decrypt each chunk at the next
block number, and stop at the first error. -/
def decryptChunks (fileID : FileID) : List Bytes → UInt64 → Result Bytes
  | [], _ => .ok []
  | cBlock :: rest, blockNo => do
    let pBlock ← be.decryptBlock cBlock blockNo fileID
    let more ← decryptChunks fileID rest (blockNo + 1)
    pure (pBlock ++ more)

/-- `decryptBlocksSequential`.  The partial plaintext Go returns next to an
error is not modelled. -/
def decryptBlocksSequential (ciphertext : Bytes) (firstBlockNo : UInt64) (fileID : FileID) :
    Result Bytes :=
  be.decryptChunks fileID (nextChunks be.cipherBS ciphertext) firstBlockNo

/-- `cipherBlocks[i] = ciphertext[i*cipherBS : (i+1)*cipherBS]`. -/
def cipherBlock (ciphertext : Bytes) (i : Nat) : Bytes :=
  (ciphertext.drop (i * be.cipherBS)).take be.cipherBS

/-- What `DecryptBlock` returns for block `i` in the driver paths. -/
def blockResult (ciphertext : Bytes) (firstBlockNo : UInt64) (fileID : FileID) (i : Nat) :
    Result Bytes :=
  be.decryptBlock (be.cipherBlock ciphertext i) (firstBlockNo + UInt64.ofNat i) fileID

/-- One worker iteration of `decryptBlocksParallel` and `decryptBlocksBatch`. -/
def decryptStep (ciphertext : Bytes) (firstBlockNo : UInt64) (fileID : FileID) (i : Nat)
    (s : DecryptState) : Result DecryptState :=
  s.record i (be.blockResult ciphertext firstBlockNo fileID i)

/-- `decryptBlocksParallel` and `decryptBlocksBatch`, which differ only in the
driver that runs the worker loop. -/
def decryptBlocksWith (drive : ParallelCrypto → Nat → List Calls) (ciphertext : Bytes)
    (firstBlockNo : UInt64) (fileID : FileID) (blockCount : Nat) (sched : Scheduler) :
    Result Bytes := do
  let σ := sched.pick ((drive be.parallelCrypto blockCount).map Calls.idx)
  let s ← runSteps (be.decryptStep ciphertext firstBlockNo fileID) σ ⟨none, fun _ => []⟩
  match s.decryptErr with
  | some e => .error e
  | none => .ok ((List.range blockCount).flatMap s.plainBlocks)

/-- `decryptBlocksParallel`. -/
def decryptBlocksParallel : Bytes → UInt64 → FileID → Nat → Scheduler → Result Bytes :=
  be.decryptBlocksWith ParallelCrypto.processBlocksParallel

/-- `decryptBlocksBatch`. -/
def decryptBlocksBatch : Bytes → UInt64 → FileID → Nat → Scheduler → Result Bytes :=
  be.decryptBlocksWith ParallelCrypto.processBlocksBatch

/-- `DecryptBlocks`. -/
def decryptBlocks (ciphertext : Bytes) (firstBlockNo : UInt64) (fileID : FileID)
    (sched : Scheduler) : Result Bytes :=
  let blockCount := ciphertext.length / be.cipherBS
  if blockCount = 0 then .ok []
  else if be.parallelCrypto.shouldUseParallel blockCount then
    be.decryptBlocksParallel ciphertext firstBlockNo fileID blockCount sched
  else if be.parallelCrypto.shouldUseBatch blockCount then
    be.decryptBlocksBatch ciphertext firstBlockNo fileID blockCount sched
  else be.decryptBlocksSequential ciphertext firstBlockNo fileID

/-- One worker iteration of `EncryptBlocks`: draw a nonce, seal block `i`
into slot `i`. -/
def encryptStep (ivs : Nat → Bytes) (plaintextBlocks : List Bytes) (firstBlockNo : UInt64)
    (fileID : FileID) (i : Nat) (s : EncryptState) : Result EncryptState := do
  let c ← be.encryptBlock ivs s.drawn (plaintextBlocks.getD i [])
    (firstBlockNo + UInt64.ofNat i) fileID
  pure ⟨s.drawn + 1, Function.update s.ciphertextBlocks i c⟩

/-- The order in which `EncryptBlocks`' workers seal `blockCount` blocks
under `sched`. -/
def encryptOrder (blockCount : Nat) (sched : Scheduler) : List Nat :=
  sched.pick ((be.parallelCrypto.processBlocksOptimized blockCount).map Calls.idx)

/-- `EncryptBlocks`.  `ivs k` is the `k`-th nonce its workers draw. -/
def encryptBlocks (ivs : Nat → Bytes) (plaintextBlocks : List Bytes) (firstBlockNo : UInt64)
    (fileID : FileID) (sched : Scheduler) : Result Bytes := do
  let s ← runSteps (be.encryptStep ivs plaintextBlocks firstBlockNo fileID)
    (be.encryptOrder plaintextBlocks.length sched) ⟨0, fun _ => []⟩
  pure ((List.range plaintextBlocks.length).flatMap s.ciphertextBlocks)

end ContentEnc

/-! ## A whole run of the workers, for any schedule

`record` writes only slot `i`, and the value it writes does not depend on
when it runs, so after any schedule every visited slot holds its block's
result; only the error depends on the order — it is the first failing
block *in the schedule*.  Encryption is the other way round: the slots do
depend on the order, through the nonce each step draws, and block `i` gets
the nonce of the step at which the schedule reaches it. -/

namespace DecryptState

variable (s : DecryptState) (i : Nat)

@[simp] theorem record_ok (p : Bytes) :
    s.record i (.ok p) = .ok ⟨s.decryptErr, Function.update s.plainBlocks i p⟩ := rfl

@[simp] theorem record_error (e : String) :
    s.record i (.error e) =
      .ok ⟨s.decryptErr.or (some e), Function.update s.plainBlocks i []⟩ := rfl

@[simp] theorem record_panic : s.record i .panic = .panic := rfl

end DecryptState

theorem runSteps_record (r : Nat → Result Bytes) : ∀ (σ : List Nat) (s : DecryptState),
    runSteps (fun i s => s.record i (r i)) σ s =
      if σ.any (fun i => (r i).isPanic) then .panic
      else .ok ⟨s.decryptErr.or (σ.findSome? fun i => (r i).errorMsg?),
        fun j => if j ∈ σ then (r j).valueOr [] else s.plainBlocks j⟩
  | [], s => by simp
  | i :: σ, s => by
    rw [runSteps_cons]
    cases hr : r i with
    | panic => simp [hr]
    | ok p =>
      simp only [hr, DecryptState.record_ok, Result.ok_bind, runSteps_record r σ, List.any_cons,
        Result.isPanic_ok, Bool.false_or, List.findSome?_cons, Result.errorMsg?_ok]
      split <;> simp only [Result.ok.injEq, DecryptState.mk.injEq, true_and]
      funext j
      by_cases hj : j = i
      · subst hj; simp [hr]
      · simp [hj]
    | error e =>
      simp only [hr, DecryptState.record_error, Result.ok_bind, runSteps_record r σ,
        List.any_cons, Result.isPanic_error, Bool.false_or, List.findSome?_cons,
        Result.errorMsg?_error]
      split <;> simp only [Result.ok.injEq, DecryptState.mk.injEq]
      constructor
      · cases s.decryptErr <;> rfl
      · funext j
        by_cases hj : j = i
        · subst hj; simp [hr, Result.valueOr]
        · simp [hj]

/-- `e i d` seals block `i` with the `d`-th nonce drawn. -/
theorem runSteps_seal (e : Nat → Nat → Result Bytes) (he : ∀ i d err, e i d ≠ .error err) :
    ∀ σ : List Nat, σ.Nodup → ∀ (k : Nat) (slots : Nat → Bytes),
    runSteps (fun i s => e i s.drawn >>= fun c =>
        pure (⟨s.drawn + 1, Function.update s.ciphertextBlocks i c⟩ : EncryptState)) σ ⟨k, slots⟩ =
      if σ.any (fun i => (e i (k + σ.indexOf i)).isPanic) then .panic
      else .ok ⟨k + σ.length,
        fun j => if j ∈ σ then (e j (k + σ.indexOf j)).valueOr [] else slots j⟩
  | [], _, k, slots => by simp
  | i :: τ, hnd, k, slots => by
    obtain ⟨hi, hτ⟩ := List.nodup_cons.mp hnd
    have hidx : ∀ j ∈ τ, k + (i :: τ).indexOf j = k + 1 + τ.indexOf j := fun j hj => by
      rw [indexOf_cons_of_mem hi hj]; omega
    rw [runSteps_cons]
    cases h : e i k with
    | error err => exact absurd h (he i k err)
    | panic => simp [h]
    | ok c =>
      rw [Result.ok_bind, Result.pure_eq, Result.ok_bind, runSteps_seal e he τ hτ]
      simp only [h, List.any_cons, List.indexOf_cons_self, Nat.add_zero, Result.isPanic_ok,
        Bool.false_or, any_congr_mem fun j hj => congrArg (fun d => (e j d).isPanic) (hidx j hj)]
      split
      · rfl
      · simp only [Result.ok.injEq, EncryptState.mk.injEq, List.length_cons]
        refine ⟨by omega, funext fun j => ?_⟩
        by_cases hj : j = i
        · subst hj; simp [hi, h]
        · by_cases hjτ : j ∈ τ
          · simp [hj, hjτ, hidx j hjτ]
          · simp [hj, hjτ]

namespace ContentEnc

variable (be : ContentEnc)

/-- The driver paths, in closed form: a panic if any block panics; else the
first error *in the order the workers ran*; else every block, in index
order. -/
theorem decryptBlocksWith_eq (drive : ParallelCrypto → Nat → List Calls)
    (hdrive : ∀ pc n, ((drive pc n).map Calls.idx).flatten = List.range n)
    (c : Bytes) (b : UInt64) (F : FileID) (n : Nat) (sched : Scheduler) :
    be.decryptBlocksWith drive c b F n sched =
      if (List.range n).any (fun i => (be.blockResult c b F i).isPanic) then .panic
      else match (sched.pick ((drive be.parallelCrypto n).map Calls.idx)).findSome?
          (fun i => (be.blockResult c b F i).errorMsg?) with
        | some e => .error e
        | none => .ok ((List.range n).flatMap fun i => (be.blockResult c b F i).valueOr []) := by
  have hσ := sched.pick_perm (hdrive be.parallelCrypto n)
  have hstep : be.decryptStep c b F = fun i s => s.record i (be.blockResult c b F i) := rfl
  rw [decryptBlocksWith, hstep, runSteps_record, any_eq_of_perm hσ]
  split
  · rfl
  · simp only [Result.ok_bind, Option.none_or]
    cases List.findSome? (fun i => (be.blockResult c b F i).errorMsg?)
        (sched.pick ((drive be.parallelCrypto n).map Calls.idx)) with
    | some e => rfl
    | none =>
      simp only [List.flatMap_def]
      rw [List.map_congr_left fun j hj => if_pos (hσ.mem_iff.mpr hj)]

theorem encryptBlocks_eq_ite (ivs : Nat → Bytes) (ps : List Bytes) (b : UInt64) (F : FileID)
    (sched : Scheduler) :
    be.encryptBlocks ivs ps b F sched =
      if (List.range ps.length).any (fun i => (be.doEncryptBlock (ps.getD i []) (b + UInt64.ofNat i) F
          (ivs ((be.encryptOrder ps.length sched).indexOf i))).isPanic) then .panic
      else .ok ((List.range ps.length).flatMap fun i => (be.doEncryptBlock (ps.getD i [])
          (b + UInt64.ofNat i) F (ivs ((be.encryptOrder ps.length sched).indexOf i))).valueOr []) := by
  have hσ : (be.encryptOrder ps.length sched).Perm (List.range ps.length) :=
    sched.pick_perm (be.parallelCrypto.processBlocksOptimized_idx ps.length)
  have he : ∀ i d err, be.encryptBlock ivs d (ps.getD i []) (b + UInt64.ofNat i) F ≠ .error err :=
    fun i d err => be.doEncryptBlock_ne_error _ _ _ _ err
  rw [encryptBlocks, show be.encryptStep ivs ps b F = fun i s =>
      be.encryptBlock ivs s.drawn (ps.getD i []) (b + UInt64.ofNat i) F >>= fun c =>
        pure ⟨s.drawn + 1, Function.update s.ciphertextBlocks i c⟩ from rfl,
    runSteps_seal _ he _ (hσ.nodup_iff.mpr (List.nodup_range _))]
  simp only [Nat.zero_add, any_eq_of_perm hσ, encryptBlock]
  split
  · rfl
  · simp only [Result.ok_bind, Result.pure_eq, List.flatMap_def]
    rw [List.map_congr_left fun j hj => if_pos (hσ.mem_iff.mpr hj)]

/-- `EncryptBlocks` is the concatenation, in index order, of every block
sealed at its own block number `firstBlockNo + i` with the nonce drawn at
the step where the workers reach it — for every configuration of the driver
and every interleaving of its workers. -/
theorem encryptBlocks_eq (ivs : Nat → Bytes) (ps : List Bytes) (b : UInt64) (F : FileID)
    (sched : Scheduler) :
    be.encryptBlocks ivs ps b F sched =
      List.flatten <$> (List.range ps.length).mapM fun i =>
        be.doEncryptBlock (ps.getD i []) (b + UInt64.ofNat i) F
          (ivs ((be.encryptOrder ps.length sched).indexOf i)) := by
  rw [encryptBlocks_eq_ite, Result.mapM_of_ne_error (fun i err => be.doEncryptBlock_ne_error _ _ _ _ err) []]
  split
  · rfl
  · rw [Result.map_ok, List.flatMap_def]

end ContentEnc

/-! ## Whole blocks: the round trip

A file whose blocks are all full reads back as it was written, on every path
and under every pair of schedules.  The encoder side is `encryptBlocks_of_ok`:
every block seals, to a block of exactly `cipherBS` bytes.  The decoder side is
`decryptBlocks_of_blocks`: such blocks are counted one for one, the driver paths
see each at its own index (`cipherBlock_flatten`), and the sequential loop reads
them back as its chunks (`nextChunks_flatten`) at block numbers counting up from
`firstBlockNo` (`ofNat_add_one`). -/

theorem ofNat_add_one (b : UInt64) (k : Nat) :
    b + UInt64.ofNat k + 1 = b + UInt64.ofNat (k + 1) := by
  rw [add_assoc]
  congr 1
  apply UInt64.eq_of_toBitVec_eq
  simp [UInt64.add_def, UInt64.ofNat, BitVec.ofNat_add]

theorem nextChunks_of_length_le {n : Nat} {c : Bytes} (hc : c ≠ []) (h : c.length ≤ n) :
    nextChunks n c = [c] := by
  obtain ⟨x, xs, rfl⟩ := List.exists_cons_of_ne_nil hc
  simp only [List.length_cons] at h
  rw [nextChunks, List.take_of_length_le (by omega), List.drop_of_length_le (by omega), nextChunks]

theorem nextChunks_flatten_of_last {n : Nat} :
    ∀ {blocks : List Bytes}, (∀ c ∈ blocks, c ≠ [] ∧ c.length ≤ n) →
      (∀ c ∈ blocks.dropLast, c.length = n) → nextChunks n blocks.flatten = blocks
  | [], _, _ => by simp [nextChunks]
  | [c], h, _ => by
    obtain ⟨hc, hle⟩ := h c (List.mem_singleton_self c)
    rw [List.flatten_singleton, nextChunks_of_length_le hc hle]
  | c :: d :: ds, h, hl => by
    have hc : c.length = n := hl c (by simp)
    obtain ⟨x, xs, rfl⟩ := List.exists_cons_of_ne_nil (h _ (List.mem_cons_self _ _)).1
    have hxs : xs.length = n - 1 := by simp at hc; omega
    rw [List.flatten_cons, List.cons_append, nextChunks, List.take_left' hxs, List.drop_left' hxs,
      nextChunks_flatten_of_last (fun c' hc' => h c' (List.mem_cons_of_mem _ hc'))
        fun c' hc' => hl c' (by rw [List.dropLast_cons₂]; exact List.mem_cons_of_mem _ hc')]

theorem nextChunks_flatten {n : Nat} (hn : 0 < n) {blocks : List Bytes}
    (h : ∀ c ∈ blocks, c.length = n) : nextChunks n blocks.flatten = blocks :=
  nextChunks_flatten_of_last (fun c hc => ⟨List.ne_nil_of_length_pos (h c hc ▸ hn), (h c hc).le⟩)
    fun c hc => h c (List.dropLast_subset _ hc)

theorem flatMap_range_getD : ∀ l : List Bytes,
    (List.range l.length).flatMap (fun i => l.getD i []) = l.flatten
  | [] => rfl
  | x :: l => by
    rw [List.length_cons, List.range_succ_eq_map, List.flatMap_cons, List.flatMap_map,
      List.flatten_cons]
    simp only [Function.comp_def, List.getD_cons_zero, List.getD_cons_succ, flatMap_range_getD l]

theorem getD_mem_dropLast {α : Type} {l : List α} {i : Nat} (d : α) (h : i + 1 < l.length) :
    l.getD i d ∈ l.dropLast := by
  have h' : i < l.dropLast.length := by simp; omega
  rw [List.getD_eq_getElem _ _ (by omega), ← List.getElem_dropLast l i h']
  exact List.getElem_mem h'

theorem mem_range_dropLast {n i : Nat} (h : i ∈ (List.range n).dropLast) : i + 1 < n := by
  rw [List.dropLast_eq_take, List.take_range, List.mem_range, List.length_range] at h
  omega

namespace ContentEnc

variable {be : ContentEnc}

theorem cipherBlock_flatten {blocks : List Bytes} (h : ∀ c ∈ blocks, c.length = be.cipherBS) :
    ∀ i < blocks.length, be.cipherBlock blocks.flatten i = blocks.getD i [] := by
  induction blocks with
  | nil => intro i hi; simp at hi
  | cons c cs ih =>
    intro i hi
    have hc := h c (List.mem_cons_self c cs)
    cases i with
    | zero => rw [cipherBlock, Nat.zero_mul, List.drop_zero, List.flatten_cons, List.take_left' hc,
        List.getD_cons_zero]
    | succ i =>
      rw [cipherBlock, List.flatten_cons, Nat.succ_mul, Nat.add_comm _ be.cipherBS, ← List.drop_drop,
        List.drop_left' hc, List.getD_cons_succ]
      exact ih (fun c' hc' => h c' (List.mem_cons_of_mem c hc')) i (Nat.lt_of_succ_lt_succ hi)

theorem decryptChunks_range' {cb p : Nat → Bytes} (F : FileID) (b : UInt64) :
    ∀ m k, (∀ i, k ≤ i → i < k + m → be.decryptBlock (cb i) (b + UInt64.ofNat i) F = .ok (p i)) →
      be.decryptChunks F ((List.range' k m).map cb) (b + UInt64.ofNat k) =
        .ok ((List.range' k m).flatMap p)
  | 0, _, _ => rfl
  | m + 1, k, h => by
    rw [List.range'_succ, List.map_cons, decryptChunks, h k le_rfl (by omega), Result.ok_bind,
      ofNat_add_one, decryptChunks_range' F b m (k + 1) fun i hi hi' => h i (by omega) (by omega)]
    rfl

theorem decryptBlocksWith_of_blocks (drive : ParallelCrypto → Nat → List Calls)
    (hdrive : ∀ pc n, ((drive pc n).map Calls.idx).flatten = List.range n)
    {c : Bytes} {b : UInt64} {F : FileID} {n : Nat} {p : Nat → Bytes}
    (h : ∀ i < n, be.blockResult c b F i = .ok (p i)) (sched : Scheduler) :
    be.decryptBlocksWith drive c b F n sched = .ok ((List.range n).flatMap p) := by
  have hσ := sched.pick_perm (hdrive be.parallelCrypto n)
  have hr : ∀ i ∈ List.range n, be.blockResult c b F i = .ok (p i) :=
    fun i hi => h i (List.mem_range.mp hi)
  rw [decryptBlocksWith_eq be drive hdrive, if_neg (by simp +contextual [hr]),
    List.findSome?_eq_none_iff.mpr fun i hi => by simp [hr i (hσ.mem_iff.mp hi)]]
  simp only [List.flatMap_def]
  rw [List.map_congr_left fun i hi => by rw [hr i hi, Result.valueOr_ok]]

theorem length_flatMap_blocks {cb : Nat → Bytes} {n : Nat}
    (hlen : ∀ i < n, (cb i).length = be.cipherBS) :
    ((List.range n).flatMap cb).length = n * be.cipherBS := by
  induction n with
  | zero => simp
  | succ n ih =>
    rw [List.range_succ, List.flatMap_append, List.length_append, ih fun i hi => hlen i (by omega)]
    simp [hlen n (by omega), Nat.succ_mul]

theorem decryptBlocks_of_blocks {cb p : Nat → Bytes} {n : Nat} (b : UInt64) (F : FileID)
    (hlen : ∀ i < n, (cb i).length = be.cipherBS)
    (hdec : ∀ i < n, be.decryptBlock (cb i) (b + UInt64.ofNat i) F = .ok (p i))
    (sched : Scheduler) :
    be.decryptBlocks ((List.range n).flatMap cb) b F sched = .ok ((List.range n).flatMap p) := by
  have hcount : ((List.range n).flatMap cb).length / be.cipherBS = n := by
    rw [length_flatMap_blocks hlen, Nat.mul_div_cancel _ be.cipherBS_pos]
  have hblocks : ∀ c ∈ (List.range n).map cb, c.length = be.cipherBS := by
    simp only [List.mem_map, List.mem_range]
    rintro _ ⟨i, hi, rfl⟩
    exact hlen i hi
  have hres : ∀ i < n, be.blockResult ((List.range n).flatMap cb) b F i = .ok (p i) := by
    intro i hi
    rw [blockResult, List.flatMap_def, cipherBlock_flatten hblocks i (by simpa using hi)]
    simpa [hi] using hdec i hi
  unfold decryptBlocks
  rw [hcount]
  dsimp only
  split_ifs
  · subst n; rfl
  · exact decryptBlocksWith_of_blocks _ ParallelCrypto.processBlocksParallel_idx hres sched
  · exact decryptBlocksWith_of_blocks _ ParallelCrypto.processBlocksBatch_idx hres sched
  · rw [decryptBlocksSequential, List.flatMap_def, nextChunks_flatten be.cipherBS_pos hblocks,
      List.range_eq_range']
    simpa using decryptChunks_range' F b n 0 fun i _ hi => hdec i (by omega)

theorem encryptBlocks_of_ok {ivs : Nat → Bytes} {ps : List Bytes} {b : UInt64} {F : FileID}
    {sched : Scheduler} {c : Nat → Bytes}
    (h : ∀ i < ps.length, be.doEncryptBlock (ps.getD i []) (b + UInt64.ofNat i) F
      (ivs ((be.encryptOrder ps.length sched).indexOf i)) = .ok (c i)) :
    be.encryptBlocks ivs ps b F sched = .ok ((List.range ps.length).flatMap c) := by
  have hr : ∀ i ∈ List.range ps.length, be.doEncryptBlock (ps.getD i []) (b + UInt64.ofNat i) F
      (ivs ((be.encryptOrder ps.length sched).indexOf i)) = .ok (c i) :=
    fun i hi => h i (List.mem_range.mp hi)
  have hnp : (List.range ps.length).any (fun i => (be.doEncryptBlock (ps.getD i []) (b + UInt64.ofNat i)
      F (ivs ((be.encryptOrder ps.length sched).indexOf i))).isPanic) = false :=
    List.any_eq_false.mpr fun i hi => by rw [hr i hi]; exact Bool.false_ne_true
  rw [encryptBlocks_eq_ite, hnp, if_neg Bool.false_ne_true, List.flatMap_def, List.flatMap_def,
    List.map_congr_left fun i hi => by rw [hr i hi, Result.valueOr_ok]]

/-- A file of full blocks reads back as it was written, whatever the driver
and the schedules of its workers on the way in and on the way out. -/
theorem decryptBlocks_encryptBlocks (ha : be.cryptoCore.aeadCipher.Correct)
    {ivs : Nat → Bytes} (hivs : ∀ k, (ivs k).length = be.cryptoCore.ivLen)
    (hz : ∀ k, ivs k ≠ be.allZeroNonce) {ps : List Bytes}
    (hfull : ∀ p ∈ ps, p.length = be.plainBS) (b : UInt64) {F : FileID} (hF : F.Valid)
    (sched sched' : Scheduler) :
    (be.encryptBlocks ivs ps b F sched >>= fun c => be.decryptBlocks c b F sched') =
      .ok ps.flatten := by
  have hlen : ∀ i < ps.length, (ps.getD i []).length = be.plainBS := fun i hi => by
    rw [List.getD_eq_getElem _ _ hi]
    exact hfull _ (List.getElem_mem _)
  rcases Nat.eq_zero_or_pos be.plainBS with h0 | hpos
  · have hnil : ∀ i < ps.length, ps.getD i [] = [] :=
      fun i hi => List.length_eq_zero.mp ((hlen i hi).trans h0)
    rw [encryptBlocks_of_ok (c := fun _ => []) fun i hi => by rw [hnil i hi]; rfl,
      Result.ok_bind, List.flatMap_eq_nil_iff.mpr fun _ _ => rfl,
      show be.decryptBlocks [] b F sched' = .ok [] by simp [decryptBlocks],
      List.flatten_eq_nil_iff.mpr fun p hp => List.length_eq_zero.mp ((hfull p hp).trans h0)]
  · let nonce i := ivs ((be.encryptOrder ps.length sched).indexOf i)
    have hp : ∀ i < ps.length, ps.getD i [] ≠ [] :=
      fun i hi => List.ne_nil_of_length_pos (by rw [hlen i hi]; exact hpos)
    have henc : ∀ i < ps.length, be.doEncryptBlock (ps.getD i []) (b + UInt64.ofNat i) F (nonce i) =
        .ok (nonce i ++ be.cryptoCore.aeadCipher.Seal (nonce i) (ps.getD i [])
          (putUint64 (b + UInt64.ofNat i) ++ F.getD [])) :=
      fun i hi => doEncryptBlock_eq ha (hp i hi) _ hF (hivs _)
    rw [encryptBlocks_of_ok henc, Result.ok_bind, ← flatMap_range_getD]
    refine decryptBlocks_of_blocks b F (fun i hi => ?_) (fun i hi => ?_) sched'
    · simp only [List.length_append, ha.length_seal, hivs, hlen i hi, cipherBS]
      omega
    · have := be.decryptBlock_doEncryptBlock ha (hp i hi) (b + UInt64.ofNat i) hF (hivs _)
        (hz ((be.encryptOrder ps.length sched).indexOf i))
      rwa [henc i hi, Result.ok_bind] at this

theorem decryptBlocks_encryptBlocks_two_blocks :
    ((⟨⟨16, AEAD.zeroTag⟩, 1, ParallelCrypto.new 2⟩ : ContentEnc).encryptBlocks
        (fun _ => List.replicate 16 1) [[7], [8]] 0 none Scheduler.inOrder >>= fun c =>
      (⟨⟨16, AEAD.zeroTag⟩, 1, ParallelCrypto.new 2⟩ : ContentEnc).decryptBlocks c 0 none
        Scheduler.inOrder) = .ok [[7], [8]].flatten :=
  decryptBlocks_encryptBlocks AEAD.zeroTag_correct (fun _ => rfl) (fun _ => by decide) (by decide) 0
    (fun _ h => by cases h) _ _

/-! ## Short input

`DecryptBlocks` counts `len(ciphertext) / cipherBS` blocks and returns
nothing when that is zero, where `decryptBlocksSequential` — the loop it
replaced — decrypts the short chunk.  A file whose last block is short ends
in exactly such a chunk.  The sequential loop reads back every file that
`EncryptBlocks` writes, short last block included
(`decryptBlocksSequential_encryptBlocks`), so it is the count, not the
loop, that loses data. -/

theorem decryptBlocks_of_length_lt {c : Bytes} (h : c.length < be.cipherBS) (b : UInt64)
    (F : FileID) (sched : Scheduler) : be.decryptBlocks c b F sched = .ok [] := by
  simp [decryptBlocks, Nat.div_eq_of_lt h]

theorem decryptBlocksSequential_of_length_le {c : Bytes} (hc : c ≠ [])
    (h : c.length ≤ be.cipherBS) (b : UInt64) (F : FileID) :
    be.decryptBlocksSequential c b F = be.decryptBlock c b F := by
  rw [decryptBlocksSequential, nextChunks_of_length_le hc h]
  cases h : be.decryptBlock c b F <;> simp [decryptChunks, h]

theorem encryptBlocks_single (ivs : Nat → Bytes) (p : Bytes) (b : UInt64) (F : FileID)
    (sched : Scheduler) : be.encryptBlocks ivs [p] b F sched = be.doEncryptBlock p b F (ivs 0) := by
  have hcalls : be.parallelCrypto.processBlocksOptimized 1 = [[(0, 1)]] := by
    simp [ParallelCrypto.processBlocksOptimized, ParallelCrypto.shouldUseParallel,
      ParallelCrypto.shouldUseBatch, parallelThreshold, batchThreshold]
  have hσ : be.encryptOrder 1 sched = [0] := by
    apply Interleaving.singleton_iff.mp
    simpa [encryptOrder, hcalls, Calls.idx_single] using sched.interleaves [[0]]
  simp only [encryptBlocks, List.length_singleton, hσ, runSteps_cons, runSteps_nil, encryptStep,
    encryptBlock]
  cases h : be.doEncryptBlock p (b + UInt64.ofNat 0) F (ivs 0) <;> simp_all [List.range_succ]

/-- A file of one short block: `EncryptBlocks` writes it, and `DecryptBlocks`
reads it back as nothing, whatever the driver and the schedules. -/
theorem decryptBlocks_encryptBlocks_short_block (ha : be.cryptoCore.aeadCipher.Correct)
    {ivs : Nat → Bytes} (hivs : ∀ k, (ivs k).length = be.cryptoCore.ivLen) {p : Bytes}
    (hp : p ≠ []) (hshort : p.length < be.plainBS) (b : UInt64) {F : FileID} (hF : F.Valid)
    (sched sched' : Scheduler) :
    (be.encryptBlocks ivs [p] b F sched >>= fun c => be.decryptBlocks c b F sched') = .ok [] := by
  rw [encryptBlocks_single, doEncryptBlock_eq ha hp b hF (hivs 0), Result.ok_bind]
  apply decryptBlocks_of_length_lt
  simp [ha.length_seal, hivs, cipherBS]
  omega

/-- A ciphertext shorter than a nonce: `DecryptBlocks` returns nothing and no
error, where the sequential reference rejects it. -/
theorem decryptBlocks_short_ciphertext {c : Bytes} (hc : c ≠ [])
    (hlt : c.length < be.cryptoCore.ivLen) (b : UInt64) (F : FileID) (sched : Scheduler) :
    be.decryptBlocks c b F sched = .ok [] ∧
      be.decryptBlocksSequential c b F = .error "block is too short" := by
  have hle : c.length < be.cipherBS := by simp [cipherBS]; omega
  refine ⟨decryptBlocks_of_length_lt hle b F sched, ?_⟩
  rw [decryptBlocksSequential_of_length_le hc hle.le]
  have hz : c ≠ be.allZeroBlock := fun h => by
    have := congrArg List.length h; simp [allZeroBlock] at this; omega
  simp [decryptBlock, hz, hlt, List.length_eq_zero.not.mpr hc]


/-- The sequential loop reads back every file `EncryptBlocks` writes, a short
last block included, whatever the schedule of the encrypting workers. -/
theorem decryptBlocksSequential_encryptBlocks (ha : be.cryptoCore.aeadCipher.Correct)
    {ivs : Nat → Bytes} (hivs : ∀ k, (ivs k).length = be.cryptoCore.ivLen)
    (hz : ∀ k, ivs k ≠ be.allZeroNonce) {ps : List Bytes}
    (hps : ∀ p ∈ ps, p ≠ [] ∧ p.length ≤ be.plainBS)
    (hfull : ∀ p ∈ ps.dropLast, p.length = be.plainBS) (b : UInt64) {F : FileID} (hF : F.Valid)
    (sched : Scheduler) :
    (be.encryptBlocks ivs ps b F sched >>= fun c => be.decryptBlocksSequential c b F) =
      .ok ps.flatten := by
  have hget : ∀ i < ps.length, ps.getD i [] ∈ ps := fun i hi => by
    rw [List.getD_eq_getElem _ _ hi]; exact List.getElem_mem hi
  let nonce i := ivs ((be.encryptOrder ps.length sched).indexOf i)
  let cb i := nonce i ++ be.cryptoCore.aeadCipher.Seal (nonce i) (ps.getD i [])
    (putUint64 (b + UInt64.ofNat i) ++ F.getD [])
  have henc : ∀ i < ps.length, be.doEncryptBlock (ps.getD i []) (b + UInt64.ofNat i) F (nonce i) =
      .ok (cb i) := fun i hi => doEncryptBlock_eq ha (hps _ (hget i hi)).1 _ hF (hivs _)
  have hlen : ∀ i, (cb i).length = be.cryptoCore.ivLen + (ps.getD i []).length + authTagLen :=
    fun i => by simp only [cb, List.length_append, ha.length_seal, hivs]; omega
  rw [encryptBlocks_of_ok henc, Result.ok_bind, ← flatMap_range_getD, decryptBlocksSequential,
    List.flatMap_def, nextChunks_flatten_of_last, List.range_eq_range']
  · simpa using decryptChunks_range' (p := fun i => ps.getD i []) F b ps.length 0 fun i _ hi => by
      have := be.decryptBlock_doEncryptBlock ha (hps _ (hget i (by omega))).1 (b + UInt64.ofNat i)
        hF (hivs _) (hz ((be.encryptOrder ps.length sched).indexOf i))
      rwa [henc i (by omega), Result.ok_bind] at this
  · simp only [List.mem_map, List.mem_range]
    rintro _ ⟨i, hi, rfl⟩
    have := (hps _ (hget i hi)).2
    refine ⟨List.ne_nil_of_length_pos ?_, ?_⟩ <;> simp only [hlen, cipherBS, authTagLen] <;> omega
  · rw [← List.map_dropLast]
    simp only [List.mem_map]
    rintro _ ⟨i, hi, rfl⟩
    simp only [hlen, cipherBS, hfull _ (getD_mem_dropLast [] (mem_range_dropLast hi))]
    omega

theorem decryptBlocksSequential_encryptBlocks_short_last :
    ((⟨⟨16, AEAD.zeroTag⟩, 2, ParallelCrypto.new 2⟩ : ContentEnc).encryptBlocks
        (fun _ => List.replicate 16 1) [[7, 7], [8]] 0 none Scheduler.inOrder >>= fun c =>
      (⟨⟨16, AEAD.zeroTag⟩, 2, ParallelCrypto.new 2⟩ : ContentEnc).decryptBlocksSequential c 0 none) =
      .ok [[7, 7], [8]].flatten :=
  decryptBlocksSequential_encryptBlocks AEAD.zeroTag_correct (fun _ => rfl) (fun _ => by decide)
    (by decide) (by decide) 0 (fun _ h => by cases h) _

end ContentEnc

/-- GCM with 128-bit nonces and 4096-byte blocks, on eight CPUs. -/
def sampleEnc : ContentEnc := ⟨⟨16, AEAD.zeroTag⟩, 4096, ParallelCrypto.new 8⟩

theorem decryptBlocks_encryptBlocks_one_byte :
    (sampleEnc.encryptBlocks (fun _ => List.replicate 16 1) [[97]] 0 none Scheduler.inOrder >>=
      fun c => sampleEnc.decryptBlocks c 0 none Scheduler.inOrder) = .ok [] :=
  ContentEnc.decryptBlocks_encryptBlocks_short_block AEAD.zeroTag_correct (fun _ => rfl)
    (by decide) (by decide) 0 (fun _ h => by cases h) _ _

theorem decryptBlocks_short_ciphertext_one_byte :
    [(1 : UInt8)] ≠ [] ∧ [(1 : UInt8)].length < sampleEnc.cryptoCore.ivLen ∧
      (sampleEnc.decryptBlocks [1] 0 none Scheduler.inOrder = .ok [] ∧
        sampleEnc.decryptBlocksSequential [1] 0 none = .error "block is too short") :=
  ⟨by decide, by decide, ContentEnc.decryptBlocks_short_ciphertext (by decide) (by decide) 0 none _⟩

/-! ## Which error the parallel path returns

`decryptBlocksWith_eq` says the error is the first failing block in the
order the workers ran.  With two failing blocks in different shards the
worker of the later shard can run first.  Below, on a two-CPU machine
(three workers for four blocks: shards `[0]`, `[1]`, `[2, 3]`), block 0 has an
all-zero nonce and blocks 1–3 do not authenticate; when the third worker
runs first, `DecryptBlocks` returns the authentication error of block 2, not
the error of block 0. -/

theorem replicate_ne_replicate {m n : Nat} {x y : UInt8} (hm : 0 < m) (hxy : x ≠ y) :
    List.replicate m x ≠ List.replicate n y := fun h => hxy (by
  have := congrArg List.head? h
  cases m <;> cases n <;> simp_all)

/-- GCM with 128-bit nonces and blocks of `plainBS` bytes, on two CPUs. -/
def twoCpuEnc (plainBS : Nat) : ContentEnc := ⟨⟨16, AEAD.zeroTag⟩, plainBS, ParallelCrypto.new 2⟩

/-- A full ciphertext block whose nonce is all zero. -/
def zeroNonceBlock (plainBS : Nat) : Bytes := List.replicate 16 0 ++ List.replicate (plainBS + 16) 1

/-- A full ciphertext block whose tag does not verify. -/
def badTagBlock (plainBS : Nat) : Bytes := List.replicate (plainBS + 32) 1

/-- Four blocks: the first with an all-zero nonce, the rest forged. -/
def tamperedBlocks (plainBS : Nat) : Bytes :=
  [zeroNonceBlock plainBS, badTagBlock plainBS, badTagBlock plainBS, badTagBlock plainBS].flatten

/-- The schedule in which the worker of the last shard `[2, 3]` takes its
first step before the other two workers. -/
def laterShardFirst : Scheduler :=
  Scheduler.fixing [[0], [1], [2, 3]] [2, 0, 1, 3]
    (.cons (.cons (.cons .nil (Shuffle.append [2, 3] [])) (.right (.left (.right .nil))))
      (.right (.left (.right (.right .nil)))))

section Tampered

variable (P : Nat) (b : UInt64)

theorem decryptBlock_zeroNonceBlock :
    (twoCpuEnc P).decryptBlock (zeroNonceBlock P) b none = .error "all-zero nonce" := by
  have hlen : (zeroNonceBlock P).length = P + 32 := by
    simp only [zeroNonceBlock, List.length_append, List.length_replicate]; omega
  have hne : zeroNonceBlock P ≠ (twoCpuEnc P).allZeroBlock := fun h => by
    have := congrArg (List.drop 16) h
    simp only [zeroNonceBlock, List.drop_left' (List.length_replicate 16 0),
      ContentEnc.allZeroBlock, List.drop_replicate] at this
    exact replicate_ne_replicate (by omega) (by decide) this
  rw [ContentEnc.decryptBlock_of_nonce b none (by simp [zeroNonceBlock]) hne
    (by rw [hlen]; exact Nat.le_add_left 16 (P + 16))]
  exact if_pos (List.take_left' (List.length_replicate 16 0))

theorem decryptBlock_badTagBlock :
    (twoCpuEnc P).decryptBlock (badTagBlock P) b none =
      .error "cipher: message authentication failed" := by
  have hne : badTagBlock P ≠ (twoCpuEnc P).allZeroBlock :=
    replicate_ne_replicate (by omega) (by decide)
  rw [ContentEnc.decryptBlock_of_nonce b none (by simp [badTagBlock]) hne
      (by simp [badTagBlock, twoCpuEnc]),
    if_neg (by simp [badTagBlock, twoCpuEnc, ContentEnc.allZeroNonce, List.take_replicate])]
  simp only [concatAD, Option.isSome_none, Bool.false_eq_true, false_and, if_false,
    Result.ok_bind, AEAD.zeroTag, twoCpuEnc, badTagBlock, List.drop_replicate,
    List.length_replicate, authTagLen]
  rw [if_neg]
  rintro ⟨-, h⟩
  exact replicate_ne_replicate (by omega) (by decide) h

theorem blockResult_tampered :
    ∀ i < 4, (twoCpuEnc P).blockResult (tamperedBlocks P) 0 none i =
      if i = 0 then .error "all-zero nonce" else .error "cipher: message authentication failed" := by
  have hlen : ∀ c ∈ [zeroNonceBlock P, badTagBlock P, badTagBlock P, badTagBlock P],
      c.length = (twoCpuEnc P).cipherBS := by
    simp [zeroNonceBlock, badTagBlock, twoCpuEnc, ContentEnc.cipherBS, authTagLen]
  intro i hi
  rw [ContentEnc.blockResult, tamperedBlocks, ContentEnc.cipherBlock_flatten hlen i hi]
  obtain rfl | rfl | rfl | rfl : i = 0 ∨ i = 1 ∨ i = 2 ∨ i = 3 := by omega
  · exact decryptBlock_zeroNonceBlock P _
  all_goals exact decryptBlock_badTagBlock P _

theorem decryptBlocks_tampered :
    (twoCpuEnc P).decryptBlocks (tamperedBlocks P) 0 none laterShardFirst =
      .error "cipher: message authentication failed" := by
  have hcount : (tamperedBlocks P).length / (twoCpuEnc P).cipherBS = 4 := by
    have : (tamperedBlocks P).length = 4 * (twoCpuEnc P).cipherBS := by
      simp only [tamperedBlocks, zeroNonceBlock, badTagBlock, List.flatten, List.length_append,
        List.length_replicate, List.length_nil, twoCpuEnc, ContentEnc.cipherBS, authTagLen]
      omega
    rw [this, Nat.mul_div_cancel _ (twoCpuEnc P).cipherBS_pos]
  have hpar : (twoCpuEnc P).parallelCrypto.shouldUseParallel 4 = true := rfl
  have hthreads : ((twoCpuEnc P).parallelCrypto.processBlocksParallel 4).map Calls.idx =
      [[0], [1], [2, 3]] := by
    show ((ParallelCrypto.new 2).processBlocksParallel 4).map Calls.idx = _
    decide
  have hr := blockResult_tampered P
  rw [ContentEnc.decryptBlocks, hcount, if_neg (by decide), if_pos hpar,
    ContentEnc.decryptBlocksParallel,
    ContentEnc.decryptBlocksWith_eq _ _ ParallelCrypto.processBlocksParallel_idx, hthreads,
    laterShardFirst, Scheduler.fixing_pick]
  simp [List.range_succ, hr]

end Tampered

/-- With 4096-byte blocks: the lowest failing block is block 0, whose error is
"all-zero nonce", and `DecryptBlocks` returns block 2's error. -/
theorem decryptBlocks_later_error_wins :
    (twoCpuEnc 4096).decryptBlocks (tamperedBlocks 4096) 0 none laterShardFirst =
        .error "cipher: message authentication failed" ∧
      (twoCpuEnc 4096).blockResult (tamperedBlocks 4096) 0 none 0 = .error "all-zero nonce" :=
  ⟨decryptBlocks_tampered 4096, blockResult_tampered 4096 0 (by decide)⟩

end Gocryptfs
