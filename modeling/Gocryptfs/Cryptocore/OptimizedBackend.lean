import Gocryptfs.Cryptocore.AEAD
import Gocryptfs.ParallelCrypto
/-!
# `Gocryptfs.Cryptocore.OptimizedBackend` — which nonce bytes a sealed block is bound to

`OptimizedBackend.Seal` and `Open` pick a path by the data's length and the
CPU flags: the SIMD wrapper for a kilobyte or more on a CPU with AVX2 and
AES-NI, the plain GCM otherwise.  The SIMD path is `sealSIMD`/`openSIMD`,
which for now call the same GCM.  Both paths turn a 16-byte nonce into the
12 bytes `cipher.NewGCM` takes, by cutting off the last four.

`NewOptimizedBackend` builds the SIMD wrapper from the same key and the same
CPU detection, so its GCM and its flags are the backend's own; the structure
carries that as fields.  The AEAD is the one `cipher.NewGCM` makes of the
key, a parameter here.

The main fact: for an AEAD that opens what it sealed and rejects every
other nonce, opening under a second 16-byte nonce gives the plaintext back
exactly when the two nonces agree in their first 12 bytes, on every path.
The last 32 nonce bits are not bound.

The two paths compute the same thing for every input, so `Open` undoes
`Seal` for a 12- or 16-byte nonce even where the two pick different paths
(a plaintext of 1008 to 1023 bytes seals on the standard path and its
ciphertext opens on the SIMD one).

`BatchSeal` and `BatchOpen` hand the blocks to a `BatchProcessor`, which
loops over them in batches and calls the SIMD wrapper's `Seal` and `Open`
block by block.  The wrapper's small-block path passes the nonce to the GCM
as it is, without the cut, so a 16-byte nonce on a short block panics in a
batch where the backend's own `Seal` and `Open` succeed.
-/

namespace Gocryptfs

/-- `gcmStandardNonceSize`, the nonce size of `cipher.NewGCM`. -/
def gcmStandardNonceSize : Nat := 12

/-- A `cipher.AEAD` from `cipher.NewGCM`: its nonce size, and the sealing and
opening it does on a nonce of that size. -/
structure GCM where
  nonceSize : Nat
  aead : AEAD

/-- `cipher.NewGCM(block)`, for the AEAD of `block`'s key. -/
def newGCM (aead : AEAD) : GCM := ⟨gcmStandardNonceSize, aead⟩

namespace GCM

/-- `gcm.Seal`: a nonce of the wrong length panics. -/
def Seal (g : GCM) (nonce plaintext additionalData : Bytes) : Result Bytes :=
  if nonce.length ≠ g.nonceSize then .panic else .ok (g.aead.Seal nonce plaintext additionalData)

/-- `gcm.Open`: a nonce of the wrong length panics. -/
def Open (g : GCM) (nonce ciphertext additionalData : Bytes) : Result Bytes :=
  if nonce.length ≠ g.nonceSize then .panic else g.aead.Open nonce ciphertext additionalData

end GCM

/-- `SIMDOptimizedGCM`, without its buffer pool. -/
structure SIMDOptimizedGCM where
  gcm : GCM
  hasAVX2 : Bool
  hasAESNI : Bool

namespace SIMDOptimizedGCM

/-- `sealSIMD`: a 16-byte nonce is cut to the 12 bytes the GCM takes. -/
def sealSIMD (sg : SIMDOptimizedGCM) (nonce plaintext additionalData : Bytes) : Result Bytes :=
  if nonce.length = 16 ∧ sg.gcm.nonceSize = 12 then sg.gcm.Seal (nonce.take 12) plaintext additionalData
  else sg.gcm.Seal nonce plaintext additionalData

/-- `openSIMD`: a 16-byte nonce is cut to the 12 bytes the GCM takes. -/
def openSIMD (sg : SIMDOptimizedGCM) (nonce ciphertext additionalData : Bytes) : Result Bytes :=
  if nonce.length = 16 ∧ sg.gcm.nonceSize = 12 then sg.gcm.Open (nonce.take 12) ciphertext additionalData
  else sg.gcm.Open nonce ciphertext additionalData

/-- `Seal`. -/
def Seal (sg : SIMDOptimizedGCM) (nonce plaintext additionalData : Bytes) : Result Bytes :=
  if sg.hasAVX2 ∧ sg.hasAESNI ∧ 1024 ≤ plaintext.length then
    sg.sealSIMD nonce plaintext additionalData
  else sg.gcm.Seal nonce plaintext additionalData

/-- `Open`. -/
def Open (sg : SIMDOptimizedGCM) (nonce ciphertext additionalData : Bytes) : Result Bytes :=
  if sg.hasAVX2 ∧ sg.hasAESNI ∧ 1024 ≤ ciphertext.length then
    sg.openSIMD nonce ciphertext additionalData
  else sg.gcm.Open nonce ciphertext additionalData

end SIMDOptimizedGCM

/-- `OptimizedBackend` as `NewOptimizedBackend` builds it, without its pools:
the SIMD wrapper holds the GCM of the same key and the same CPU flags. -/
structure OptimizedBackend where
  gcm : GCM
  simdGCM : SIMDOptimizedGCM
  hasAVX2 : Bool
  hasAESNI : Bool
  simd_gcm : simdGCM.gcm = gcm
  simd_hasAVX2 : simdGCM.hasAVX2 = hasAVX2
  simd_hasAESNI : simdGCM.hasAESNI = hasAESNI

/-- `NewOptimizedBackend`, for the AEAD of the key and the flags
`detectAVX2()` and `detectAESNI()` return. -/
def newOptimizedBackend (aead : AEAD) (hasAVX2 hasAESNI : Bool) : OptimizedBackend :=
  ⟨newGCM aead, ⟨newGCM aead, hasAVX2, hasAESNI⟩, hasAVX2, hasAESNI, rfl, rfl, rfl⟩

namespace OptimizedBackend

/-- `Seal`. -/
def Seal (ob : OptimizedBackend) (nonce plaintext additionalData : Bytes) : Result Bytes :=
  if 1024 ≤ plaintext.length ∧ ob.hasAVX2 ∧ ob.hasAESNI then
    ob.simdGCM.Seal nonce plaintext additionalData
  else if nonce.length = 16 ∧ ob.gcm.nonceSize = 12 then
    ob.gcm.Seal (nonce.take 12) plaintext additionalData
  else ob.gcm.Seal nonce plaintext additionalData

/-- `Open`. -/
def Open (ob : OptimizedBackend) (nonce ciphertext additionalData : Bytes) : Result Bytes :=
  if 1024 ≤ ciphertext.length ∧ ob.hasAVX2 ∧ ob.hasAESNI then
    ob.simdGCM.Open nonce ciphertext additionalData
  else if nonce.length = 16 ∧ ob.gcm.nonceSize = 12 then
    ob.gcm.Open (nonce.take 12) ciphertext additionalData
  else ob.gcm.Open nonce ciphertext additionalData

/-! ## Every path cuts the nonce

Whichever path `Seal` and `Open` take, a 16-byte nonce reaches the GCM as its
first 12 bytes: the SIMD wrapper's own test passes whenever the backend's
does, since the flags are the same. -/

variable (ob : OptimizedBackend) (hns : ob.gcm.nonceSize = 12)
include hns

theorem Seal_eq (nonce plaintext additionalData : Bytes) (hn : nonce.length = 16) :
    ob.Seal nonce plaintext additionalData =
      .ok (ob.gcm.aead.Seal (nonce.take 12) plaintext additionalData) := by
  have hg : ob.gcm.Seal (nonce.take 12) plaintext additionalData =
      .ok (ob.gcm.aead.Seal (nonce.take 12) plaintext additionalData) := by
    simp [GCM.Seal, hns, hn]
  have hs := ob.simd_gcm
  unfold Seal SIMDOptimizedGCM.Seal SIMDOptimizedGCM.sealSIMD
  split
  · next h => simp [ob.simd_hasAVX2, ob.simd_hasAESNI, h, hs, hns, hn, hg]
  · simp [hns, hn, hg]

theorem Open_eq (nonce ciphertext additionalData : Bytes) (hn : nonce.length = 16) :
    ob.Open nonce ciphertext additionalData =
      ob.gcm.aead.Open (nonce.take 12) ciphertext additionalData := by
  have hg : ob.gcm.Open (nonce.take 12) ciphertext additionalData =
      ob.gcm.aead.Open (nonce.take 12) ciphertext additionalData := by
    simp [GCM.Open, hns, hn]
  have hs := ob.simd_gcm
  unfold Open SIMDOptimizedGCM.Open SIMDOptimizedGCM.openSIMD
  split
  · next h => simp [ob.simd_hasAVX2, ob.simd_hasAESNI, h, hs, hns, hn, hg]
  · simp [hns, hn, hg]

end OptimizedBackend

/-- For an AEAD that opens what it sealed and rejects every other nonce, a
block sealed under one 16-byte nonce opens under another exactly when the two
agree in their first 12 bytes, and then gives the plaintext back; otherwise
`Open` returns an error.  This holds on the SIMD and on the standard path. -/
theorem open_seal_eq_ok_iff_prefix (a : AEAD) (ha : a.Correct)
    (hb : a.NonceBinding gcmStandardNonceSize) (hasAVX2 hasAESNI : Bool) (n n' p ad : Bytes)
    (hn : n.length = 16) (hn' : n'.length = 16) :
    let ob := newOptimizedBackend a hasAVX2 hasAESNI
    ((ob.Seal n p ad >>= fun c => ob.Open n' c ad) = .ok p ↔ n.take 12 = n'.take 12) ∧
      (n.take 12 ≠ n'.take 12 → ∃ e, (ob.Seal n p ad >>= fun c => ob.Open n' c ad) = .error e) := by
  intro ob
  have hns : ob.gcm.nonceSize = 12 := rfl
  have h12 : ∀ m : Bytes, m.length = 16 → (m.take 12).length = gcmStandardNonceSize := fun m hm => by
    simp [hm, gcmStandardNonceSize]
  rw [OptimizedBackend.Seal_eq ob hns n p ad hn, Result.ok_bind,
    OptimizedBackend.Open_eq ob hns n' _ ad hn']
  have herr : n.take 12 ≠ n'.take 12 → ∃ e, a.Open (n'.take 12) (a.Seal (n.take 12) p ad) ad = .error e :=
    hb _ _ p ad (h12 n hn) (h12 n' hn')
  refine ⟨⟨fun h => ?_, fun h => by rw [← h]; exact ha.open_seal _ p ad⟩, herr⟩
  by_contra hne
  obtain ⟨e, he⟩ := herr hne
  exact Result.noConfusion (h.symm.trans he)

/-- The all-zero 16-byte nonce. -/
def zeroNonce16 : Bytes := List.replicate 16 0

/-- The 16-byte nonce that differs from `zeroNonce16` in its last byte only. -/
def lastByteNonce16 : Bytes := List.replicate 15 0 ++ [1]

theorem open_seal_nonceTag :
    let ob := newOptimizedBackend AEAD.nonceTag true true
    AEAD.nonceTag.Correct ∧ AEAD.nonceTag.NonceBinding gcmStandardNonceSize ∧
      zeroNonce16.length = 16 ∧ lastByteNonce16.length = 16 ∧
      ((ob.Seal zeroNonce16 [1] [] >>= fun c => ob.Open lastByteNonce16 c []) = .ok [1] ↔
        zeroNonce16.take 12 = lastByteNonce16.take 12) ∧
      (zeroNonce16.take 12 ≠ lastByteNonce16.take 12 →
        ∃ e, (ob.Seal zeroNonce16 [1] [] >>= fun c => ob.Open lastByteNonce16 c []) = .error e) :=
  ⟨AEAD.nonceTag_correct, AEAD.nonceTag_binding (by decide), rfl, rfl,
    open_seal_eq_ok_iff_prefix _ AEAD.nonceTag_correct (AEAD.nonceTag_binding (by decide)) true true
      _ _ [1] [] rfl rfl⟩

/-- With the nonce-binding stand-in, a block sealed under the all-zero 16-byte
nonce opens under the nonce that differs from it in its last byte. -/
theorem open_accepts_other_nonce :
    let ob := newOptimizedBackend AEAD.nonceTag true true
    AEAD.nonceTag.NonceBinding gcmStandardNonceSize ∧ zeroNonce16 ≠ lastByteNonce16 ∧
      (ob.Seal zeroNonce16 [1] [] >>= fun c => ob.Open lastByteNonce16 c []) = .ok [1] :=
  ⟨AEAD.nonceTag_binding (by decide), by decide, by decide⟩

/-! ## The two paths agree

Each of `Seal` and `Open` computes what its standard path computes, for
every nonce, data and flag: the SIMD wrapper makes the same nonce cut with
the same GCM. -/

namespace OptimizedBackend

variable (ob : OptimizedBackend)

theorem Seal_eq_standard (nonce plaintext additionalData : Bytes) :
    ob.Seal nonce plaintext additionalData =
      if nonce.length = 16 ∧ ob.gcm.nonceSize = 12 then
        ob.gcm.Seal (nonce.take 12) plaintext additionalData
      else ob.gcm.Seal nonce plaintext additionalData := by
  unfold Seal SIMDOptimizedGCM.Seal SIMDOptimizedGCM.sealSIMD
  split
  · next h => simp [ob.simd_hasAVX2, ob.simd_hasAESNI, h, ob.simd_gcm]
  · rfl

theorem Open_eq_standard (nonce ciphertext additionalData : Bytes) :
    ob.Open nonce ciphertext additionalData =
      if nonce.length = 16 ∧ ob.gcm.nonceSize = 12 then
        ob.gcm.Open (nonce.take 12) ciphertext additionalData
      else ob.gcm.Open nonce ciphertext additionalData := by
  unfold Open SIMDOptimizedGCM.Open SIMDOptimizedGCM.openSIMD
  split
  · next h => simp [ob.simd_hasAVX2, ob.simd_hasAESNI, h, ob.simd_gcm]
  · rfl

/-- The nonce the GCM sees: a 16-byte nonce cut to 12 bytes. -/
theorem Seal_Open_of_nonce (hns : ob.gcm.nonceSize = 12) {nonce : Bytes}
    (hn : nonce.length = 12 ∨ nonce.length = 16) :
    ∃ n₁₂ : Bytes, n₁₂.length = 12 ∧
      (∀ p ad, ob.Seal nonce p ad = .ok (ob.gcm.aead.Seal n₁₂ p ad)) ∧
      ∀ c ad, ob.Open nonce c ad = ob.gcm.aead.Open n₁₂ c ad := by
  rcases hn with hn | hn
  · refine ⟨nonce, hn, fun p ad => ?_, fun c ad => ?_⟩
    · simp [Seal_eq_standard, GCM.Seal, hn, hns]
    · simp [Open_eq_standard, GCM.Open, hn, hns]
  · exact ⟨nonce.take 12, by simp [hn], fun p ad => Seal_eq ob hns nonce p ad hn,
      fun c ad => Open_eq ob hns nonce c ad hn⟩

end OptimizedBackend

/-- For an AEAD that opens what it sealed: `Open` undoes `Seal` for every
12- or 16-byte nonce and every plaintext length, on either path, and each of
the two computes, for every input, what its standard path computes. -/
theorem open_seal_roundtrip (a : AEAD) (ha : a.Correct) (hasAVX2 hasAESNI : Bool) :
    (let ob := newOptimizedBackend a hasAVX2 hasAESNI
    (∀ nonce p ad : Bytes, nonce.length = 12 ∨ nonce.length = 16 →
      (ob.Seal nonce p ad >>= fun c => ob.Open nonce c ad) = .ok p) ∧
    (∀ nonce p ad : Bytes, ob.Seal nonce p ad =
      if nonce.length = 16 ∧ ob.gcm.nonceSize = 12 then ob.gcm.Seal (nonce.take 12) p ad
      else ob.gcm.Seal nonce p ad) ∧
    (∀ nonce c ad : Bytes, ob.Open nonce c ad =
      if nonce.length = 16 ∧ ob.gcm.nonceSize = 12 then ob.gcm.Open (nonce.take 12) c ad
      else ob.gcm.Open nonce c ad)) := by
  intro ob
  refine ⟨fun nonce p ad hn => ?_, ob.Seal_eq_standard, ob.Open_eq_standard⟩
  obtain ⟨n₁₂, -, hs, ho⟩ := ob.Seal_Open_of_nonce rfl hn
  rw [hs, Result.ok_bind, ho]
  exact ha.open_seal n₁₂ p ad

theorem open_seal_roundtrip_zeroTag :
    AEAD.zeroTag.Correct ∧
    (let ob := newOptimizedBackend AEAD.zeroTag true true
    (∀ nonce p ad : Bytes, nonce.length = 12 ∨ nonce.length = 16 →
      (ob.Seal nonce p ad >>= fun c => ob.Open nonce c ad) = .ok p) ∧
    (∀ nonce p ad : Bytes, ob.Seal nonce p ad =
      if nonce.length = 16 ∧ ob.gcm.nonceSize = 12 then ob.gcm.Seal (nonce.take 12) p ad
      else ob.gcm.Seal nonce p ad) ∧
    (∀ nonce c ad : Bytes, ob.Open nonce c ad =
      if nonce.length = 16 ∧ ob.gcm.nonceSize = 12 then ob.gcm.Open (nonce.take 12) c ad
      else ob.gcm.Open nonce c ad)) :=
  ⟨AEAD.zeroTag_correct, open_seal_roundtrip AEAD.zeroTag AEAD.zeroTag_correct true true⟩

/-! ## Batches

`ProcessBatchSeal` and `ProcessBatchOpen` run `for i := 0; i < n; i += batchSize`
and within each batch `for j := i; j < end; j++`: the loop shape of
`ProcessBlocksBatch`, so the batches are `ParallelCrypto.batchCalls`.  Each
iteration stores one block's result at its own index; with the lengths equal,
a run is the blocks' results in index order, or the first failure
(`processBatchSeal_eq`, `processBatchOpen_eq`). -/

/-- `BatchProcessor`: the SIMD wrapper it calls and `batchSize`.  `workers`,
which no method reads, is left out. -/
structure BatchProcessor where
  gcm : SIMDOptimizedGCM
  batchSize : Nat
  batchSize_pos : 0 < batchSize

/-- `NewBatchProcessor`: batches of 32 blocks on an AVX2 CPU, of 16 otherwise. -/
def newBatchProcessor (gcm : SIMDOptimizedGCM) : BatchProcessor :=
  ⟨gcm, if gcm.hasAVX2 then 32 else 16, by split <;> decide⟩

namespace BatchProcessor

/-- One iteration of `ProcessBatchSeal`'s inner loop:
`results[j] = bp.gcm.Seal(nil, nonces[j], plaintexts[j], additionalData[j])`. -/
def sealAt (bp : BatchProcessor) (nonces plaintexts additionalData : List Bytes)
    (results : List Bytes) (j : Nat) : Result (List Bytes) :=
  (results.set j ·) <$>
    bp.gcm.Seal (nonces.getD j []) (plaintexts.getD j []) (additionalData.getD j [])

/-- One iteration of `ProcessBatchOpen`'s inner loop: the first error is
returned, else `results[j] = plaintext`. -/
def openAt (bp : BatchProcessor) (nonces ciphertexts additionalData : List Bytes)
    (results : List Bytes) (j : Nat) : Result (List Bytes) :=
  (results.set j ·) <$>
    bp.gcm.Open (nonces.getD j []) (ciphertexts.getD j []) (additionalData.getD j [])

/-- The two loops over `n` blocks, from `results := make([][]byte, n)`. -/
def batches (bp : BatchProcessor) (n : Nat) (body : List Bytes → Nat → Result (List Bytes)) :
    Result (List Bytes) :=
  (ParallelCrypto.batchCalls bp.batchSize n 0).foldlM
    (fun results c => (callIdx c).foldlM body results) (List.replicate n [])

/-- `ProcessBatchSeal`, which panics on lists of different lengths. -/
def processBatchSeal (bp : BatchProcessor) (nonces plaintexts additionalData : List Bytes) :
    Result (List Bytes) :=
  if nonces.length ≠ plaintexts.length ∨ nonces.length ≠ additionalData.length then .panic
  else bp.batches plaintexts.length (bp.sealAt nonces plaintexts additionalData)

/-- `ProcessBatchOpen`, which panics on lists of different lengths. -/
def processBatchOpen (bp : BatchProcessor) (nonces ciphertexts additionalData : List Bytes) :
    Result (List Bytes) :=
  if nonces.length ≠ ciphertexts.length ∨ nonces.length ≠ additionalData.length then .panic
  else bp.batches ciphertexts.length (bp.openAt nonces ciphertexts additionalData)

theorem foldlM_flatMap {α β γ : Type} (f : β → α → Result β) (g : γ → List α) :
    ∀ (l : List γ) (b : β), (l.flatMap g).foldlM f b = l.foldlM (fun b a => (g a).foldlM f b) b
  | [], _ => rfl
  | a :: l, b => by
    rw [List.flatMap_cons, List.foldlM_append, List.foldlM_cons]
    exact congrArg _ (funext fun b' => foldlM_flatMap f g l b')

theorem foldlM_set (f : Nat → Result Bytes) (n : Nat) : ∀ (k m : Nat) (cs : List Bytes),
    cs.length = m → m + k ≤ n →
    (List.range' m k).foldlM (fun r j => (r.set j ·) <$> f j) (cs ++ List.replicate (n - m) []) =
      (fun ds => cs ++ ds ++ List.replicate (n - m - k) []) <$> (List.range' m k).mapM f
  | 0, m, cs, _, _ => by
    simp only [List.range'_zero, List.foldlM_nil, List.mapM_nil, Result.pure_eq, Result.map_ok,
      List.append_nil, Nat.sub_zero]
  | k + 1, m, cs, hcs, hk => by
    obtain ⟨r, hr⟩ : ∃ r, n - m = r + 1 := ⟨n - m - 1, by omega⟩
    have hr' : n - (m + 1) = r := by omega
    rw [List.range'_succ, List.foldlM_cons, List.mapM_cons, hr]
    cases h : f m with
    | ok c =>
      have hset : (cs ++ List.replicate (r + 1) []).set m c =
          (cs ++ [c]) ++ List.replicate (n - (m + 1)) [] := by
        rw [List.set_append_right _ _ (by omega), hcs, Nat.sub_self, List.replicate_succ,
          List.set_cons_zero, hr']
        simp
      simp only [Result.map_ok, Result.ok_bind, hset]
      rw [foldlM_set f n k (m + 1) (cs ++ [c]) (by simp [hcs]) (by omega), hr']
      cases (List.range' (m + 1) k).mapM f <;> simp
    | error e => simp
    | panic => simp

/-- The batches set every index once, in order: the result is the list of
the bodies' values, or the first failure in index order. -/
theorem batches_eq (bp : BatchProcessor) (n : Nat) (f : Nat → Result Bytes) :
    bp.batches n (fun r j => (r.set j ·) <$> f j) = (List.range n).mapM f := by
  have hidx := ParallelCrypto.batchCalls_idx bp.batchSize n bp.batchSize_pos 0
  rw [batches, ← foldlM_flatMap _ callIdx, ← Calls.idx, hidx, Nat.sub_zero]
  have := foldlM_set f n n 0 [] rfl (by omega)
  simp only [List.nil_append, Nat.sub_zero, Nat.sub_self, List.replicate_zero,
    List.append_nil] at this
  rw [this, List.range_eq_range']
  cases (List.range' 0 n).mapM f <;> rfl

theorem processBatchSeal_eq (bp : BatchProcessor) {nonces plaintexts additionalData : List Bytes}
    (h₁ : nonces.length = plaintexts.length) (h₂ : nonces.length = additionalData.length) :
    bp.processBatchSeal nonces plaintexts additionalData = (List.range plaintexts.length).mapM
      fun j => bp.gcm.Seal (nonces.getD j []) (plaintexts.getD j []) (additionalData.getD j []) := by
  rw [processBatchSeal, if_neg (by omega)]
  exact batches_eq bp _ _

theorem processBatchOpen_eq (bp : BatchProcessor) {nonces ciphertexts additionalData : List Bytes}
    (h₁ : nonces.length = ciphertexts.length) (h₂ : nonces.length = additionalData.length) :
    bp.processBatchOpen nonces ciphertexts additionalData = (List.range ciphertexts.length).mapM
      fun j => bp.gcm.Open (nonces.getD j []) (ciphertexts.getD j []) (additionalData.getD j []) := by
  rw [processBatchOpen, if_neg (by omega)]
  exact batches_eq bp _ _

end BatchProcessor

namespace OptimizedBackend

variable (ob : OptimizedBackend)

/-- `ob.batchProc`, the batch processor `NewOptimizedBackend` builds over the
SIMD wrapper; nothing changes it afterwards. -/
def batchProc : BatchProcessor := newBatchProcessor ob.simdGCM

/-- `BatchSeal`. -/
def batchSeal (nonces plaintexts additionalData : List Bytes) : Result (List Bytes) :=
  if nonces.length = 0 then .ok [] else ob.batchProc.processBatchSeal nonces plaintexts additionalData

/-- `BatchOpen`. -/
def batchOpen (nonces ciphertexts additionalData : List Bytes) : Result (List Bytes) :=
  if nonces.length = 0 then .ok [] else ob.batchProc.processBatchOpen nonces ciphertexts additionalData

theorem batchSeal_single (nonce p ad : Bytes) :
    ob.batchSeal [nonce] [p] [ad] = (fun c => [c]) <$> ob.simdGCM.Seal nonce p ad := by
  rw [batchSeal, if_neg (by simp), BatchProcessor.processBatchSeal_eq _
    (show [nonce].length = [p].length from rfl) (show [nonce].length = [ad].length from rfl),
    show List.range [p].length = [0] from rfl, List.mapM_cons, List.mapM_nil]
  simp only [batchProc, newBatchProcessor, List.getD_cons_zero]
  cases ob.simdGCM.Seal nonce p ad <;> rfl

theorem batchOpen_single (nonce c ad : Bytes) :
    ob.batchOpen [nonce] [c] [ad] = (fun p => [p]) <$> ob.simdGCM.Open nonce c ad := by
  rw [batchOpen, if_neg (by simp), BatchProcessor.processBatchOpen_eq _
    (show [nonce].length = [c].length from rfl) (show [nonce].length = [ad].length from rfl),
    show List.range [c].length = [0] from rfl, List.mapM_cons, List.mapM_nil]
  simp only [batchProc, newBatchProcessor, List.getD_cons_zero]
  cases ob.simdGCM.Open nonce c ad <;> rfl

theorem simd_Seal_of_short {nonce p ad : Bytes} (h : ¬(ob.hasAVX2 ∧ ob.hasAESNI ∧ 1024 ≤ p.length)) :
    ob.simdGCM.Seal nonce p ad = ob.gcm.Seal nonce p ad := by
  rw [SIMDOptimizedGCM.Seal, if_neg (by rw [ob.simd_hasAVX2, ob.simd_hasAESNI]; tauto), ob.simd_gcm]

theorem simd_Open_of_short {nonce c ad : Bytes} (h : ¬(ob.hasAVX2 ∧ ob.hasAESNI ∧ 1024 ≤ c.length)) :
    ob.simdGCM.Open nonce c ad = ob.gcm.Open nonce c ad := by
  rw [SIMDOptimizedGCM.Open, if_neg (by rw [ob.simd_hasAVX2, ob.simd_hasAESNI]; tauto), ob.simd_gcm]

end OptimizedBackend

/-- For every AEAD, every flag and every 16-byte nonce: a block shorter than
a kilobyte panics in `BatchSeal` and `BatchOpen`, where `Seal` and `Open` cut
the nonce and succeed. -/
theorem batch_panics_on_16_byte_nonce (a : AEAD) (hasAVX2 hasAESNI : Bool) {nonce p c ad : Bytes}
    (hn : nonce.length = 16) (hp : p.length < 1024) (hc : c.length < 1024) :
    (let ob := newOptimizedBackend a hasAVX2 hasAESNI
    ob.batchSeal [nonce] [p] [ad] = .panic ∧ ob.Seal nonce p ad = .ok (a.Seal (nonce.take 12) p ad) ∧
      ob.batchOpen [nonce] [c] [ad] = .panic ∧ ob.Open nonce c ad = a.Open (nonce.take 12) c ad) := by
  intro ob
  have hs : ob.simdGCM.Seal nonce p ad = .panic := by
    rw [ob.simd_Seal_of_short (by omega)]
    simp [GCM.Seal, hn, ob, newOptimizedBackend, newGCM, gcmStandardNonceSize]
  have ho : ob.simdGCM.Open nonce c ad = .panic := by
    rw [ob.simd_Open_of_short (by omega)]
    simp [GCM.Open, hn, ob, newOptimizedBackend, newGCM, gcmStandardNonceSize]
  exact ⟨by rw [ob.batchSeal_single, hs]; rfl, OptimizedBackend.Seal_eq ob rfl _ _ _ hn,
    by rw [ob.batchOpen_single, ho]; rfl, OptimizedBackend.Open_eq ob rfl _ _ _ hn⟩

theorem batch_panics_on_16_byte_nonce_zero :
    zeroNonce16.length = 16 ∧ ([] : Bytes).length < 1024 ∧
    (let ob := newOptimizedBackend AEAD.zeroTag true true
    ob.batchSeal [zeroNonce16] [[]] [[]] = .panic ∧
      ob.Seal zeroNonce16 [] [] = .ok (AEAD.zeroTag.Seal (zeroNonce16.take 12) [] []) ∧
      ob.batchOpen [zeroNonce16] [[]] [[]] = .panic ∧
      ob.Open zeroNonce16 [] [] = AEAD.zeroTag.Open (zeroNonce16.take 12) [] []) :=
  ⟨rfl, by decide, batch_panics_on_16_byte_nonce AEAD.zeroTag true true rfl (by decide) (by decide)⟩

end Gocryptfs
