import Gocryptfs.ParallelCrypto
import Gocryptfs.Cryptocore.AEAD
/-!
# `Gocryptfs.ContentEnc.Block` — one block: associated data, seal, open

`internal/contentenc`, the single-block half.  A plaintext block is sealed
under a fresh nonce with the block number and the file ID as associated
data, and stored as `nonce ‖ ciphertext ‖ tag`.  `decryptBlock` undoes that,
with three early exits the format defines: an empty block is empty, a block
of `cipherBS` zero bytes is a hole (a block of `plainBS` zeros), and a block
shorter than a nonce, or with an all-zero nonce, is an error.

The AEAD is a parameter; where a theorem needs it to work, it assumes
`AEAD.Correct`, the contract of `cipher.AEAD` the codec relies on.

`cryptocore` itself is not under `src/`; the header length and the overhead
the codec reads are modelled from the spec below, and the AEAD and the tag
length from `Gocryptfs.Cryptocore.AEAD`.

The main fact is `decryptBlock_doEncryptBlock`: a non-empty block of at
most `plainBS` bytes, sealed under a non-zero nonce, decrypts to itself at the
same block number and file ID.
-/

namespace Gocryptfs

/-- Modelled from the spec: `headerIDLen`, the length of the file ID in the
per-file header (§3, "16-byte random file-ID"). -/
def headerIDLen : Nat := 16

/-- A file ID: `none` is Go's `nil`, passed for the config file, symlinks and
xattrs; a file's ID is `some` of its header bytes. -/
abbrev FileID := Option Bytes

/-- A file ID that `concatAD` accepts. -/
def FileID.Valid (fileID : FileID) : Prop := ∀ f ∈ fileID, f.length = headerIDLen

/-- `ContentEnc`: the crypto core, the plaintext block size, and the parallel
driver.  The block pools are not modelled. -/
structure ContentEnc where
  cryptoCore : CryptoCore
  plainBS : Nat
  parallelCrypto : ParallelCrypto

/-- `binary.BigEndian.PutUint64`. -/
def putUint64 (v : UInt64) : Bytes :=
  ([56, 48, 40, 32, 24, 16, 8, 0] : List UInt64).map fun s => (v >>> s).toUInt8

/-- Modelled from Go's `encoding/binary`: `binary.BigEndian.Uint64`, which
reads the first eight bytes, most significant first, and panics on fewer. -/
def bigEndianUint64 (b : Bytes) : Result UInt64 :=
  if b.length < 8 then .panic
  else .ok (UInt64.ofNat ((b.take 8).foldl (fun acc x => acc * 256 + x.toNat) 0))

/-- `concatAD`: `[blockNo.bigEndian fileID]`, panicking on a non-nil file ID
of the wrong length. -/
def concatAD (blockNo : UInt64) (fileID : FileID) : Result Bytes :=
  if fileID.isSome ∧ (fileID.getD []).length ≠ headerIDLen then .panic
  else .ok (putUint64 blockNo ++ fileID.getD [])

namespace ContentEnc

variable (be : ContentEnc)

/-- `cipherBS`, as `New` computes it. -/
def cipherBS : Nat := be.plainBS + be.cryptoCore.ivLen + authTagLen

/-- Modelled from the spec: `BlockOverhead()`, which the comment on `cipherBS`
defines as `cipherBS - plainBS`. -/
def blockOverhead : Nat := be.cryptoCore.ivLen + authTagLen

/-- `allZeroBlock`. -/
def allZeroBlock : Bytes := List.replicate be.cipherBS 0

/-- `allZeroNonce`. -/
def allZeroNonce : Bytes := List.replicate be.cryptoCore.ivLen 0

/-- `DecryptBlock`. -/
def decryptBlock (ciphertext : Bytes) (blockNo : UInt64) (fileID : FileID) : Result Bytes :=
  if ciphertext.length = 0 then .ok ciphertext
  else if ciphertext = be.allZeroBlock then .ok (List.replicate be.plainBS 0)
  else if ciphertext.length < be.cryptoCore.ivLen then .error "block is too short"
  else
    let nonce := ciphertext.take be.cryptoCore.ivLen
    if nonce = be.allZeroNonce then .error "all-zero nonce"
    else do
      let aData ← concatAD blockNo fileID
      be.cryptoCore.aeadCipher.Open nonce (ciphertext.drop be.cryptoCore.ivLen) aData

/-- `doEncryptBlock`: `nonce ‖ Seal(nonce, plaintext, aData)`, with the two
`log.Panic` checks. -/
def doEncryptBlock (plaintext : Bytes) (blockNo : UInt64) (fileID : FileID)
    (nonce : Bytes) : Result Bytes :=
  if plaintext.length = 0 then .ok plaintext
  else if nonce.length ≠ be.cryptoCore.ivLen then .panic
  else do
    let aData ← concatAD blockNo fileID
    let ciphertext := nonce ++ be.cryptoCore.aeadCipher.Seal nonce plaintext aData
    if plaintext.length + be.blockOverhead ≠ ciphertext.length then .panic
    else .ok ciphertext

/-- `EncryptBlock`: the next nonce from `IVGenerator.Get()`, then
`doEncryptBlock`.  `ivs k` is the nonce the generator hands out at the
`k`-th draw of the caller; `drawn` is how many it has drawn so far. -/
def encryptBlock (ivs : Nat → Bytes) (drawn : Nat) (plaintext : Bytes) (blockNo : UInt64)
    (fileID : FileID) : Result Bytes :=
  be.doEncryptBlock plaintext blockNo fileID (ivs drawn)

end ContentEnc

/-! ## `concatAD` and one block's round trip

The associated data is the block number's eight big-endian bytes, which
decode back to it (`bigEndianUint64_putUint64`, by induction on the width as
for any positional code), followed by the file ID.  A file ID is `nil` or
sixteen bytes, so the length tells the two kinds apart and the tail gives the
bytes: different block positions or files give different associated data. -/

theorem toNat_toUInt8_shiftRight (v s : UInt64) (hs : s.toNat < 64) :
    ((v >>> s).toUInt8).toNat = v.toNat / 2 ^ s.toNat % 256 := by
  have hm : (UInt64.mod s 64).toBitVec.toNat = s.toNat := Nat.mod_eq_of_lt hs
  show (v.toBitVec >>> (UInt64.mod s 64).toBitVec).toNat % 256 = _
  rw [BitVec.ushiftRight_eq', BitVec.toNat_ushiftRight, Nat.shiftRight_eq_div_pow, hm]
  rfl

@[simp] theorem length_putUint64 (v : UInt64) : (putUint64 v).length = 8 := rfl

/-- Reading `k` base-256 digits, most significant first, onto `acc`. -/
theorem foldl_bigEndian (x : Nat) : ∀ k acc : Nat,
    ((List.range k).reverse.map fun j => x / 256 ^ j % 256).foldl (fun a n => a * 256 + n) acc =
      acc * 256 ^ k + x % 256 ^ k
  | 0, acc => by simp [Nat.mod_one]
  | k + 1, acc => by
    rw [List.range_succ, List.reverse_append, List.reverse_singleton, List.singleton_append,
      List.map_cons, List.foldl_cons, foldl_bigEndian x k, Nat.mod_pow_succ, Nat.pow_succ,
      Nat.add_mul, Nat.mul_assoc, Nat.mul_comm 256, Nat.mul_comm (x / _ % _)]
    omega

theorem map_toNat_putUint64 (v : UInt64) :
    (putUint64 v).map UInt8.toNat = (List.range 8).reverse.map fun j => v.toNat / 256 ^ j % 256 := by
  simp (disch := decide) only [putUint64, List.map, toNat_toUInt8_shiftRight, UInt64.reduceToNat,
    Nat.reducePow, List.range_succ, List.range_zero, List.reverse_append]

theorem bigEndianUint64_putUint64 (v : UInt64) : bigEndianUint64 (putUint64 v) = .ok v := by
  rw [bigEndianUint64, if_neg (by rw [length_putUint64]; decide),
    List.take_of_length_le (by rw [length_putUint64])]
  have hv : v.toNat < 256 ^ 8 := v.toNat_lt_size
  have h := foldl_bigEndian v.toNat 8 0
  rw [← map_toNat_putUint64, List.foldl_map, Nat.zero_mul, Nat.zero_add, Nat.mod_eq_of_lt hv] at h
  rw [h]
  exact congrArg Result.ok (UInt64.toNat.inj (UInt64.toNat_ofNat_of_lt v.toNat_lt_size))

theorem putUint64_inj {v w : UInt64} (h : putUint64 v = putUint64 w) : v = w :=
  Result.ok.inj ((bigEndianUint64_putUint64 v).symm.trans (h ▸ bigEndianUint64_putUint64 w))

theorem concatAD_of_valid {fileID : FileID} (h : fileID.Valid) (b : UInt64) :
    concatAD b fileID = .ok (putUint64 b ++ fileID.getD []) := by
  cases fileID with
  | none => rfl
  | some f => simp [concatAD, h f rfl]

theorem concatAD_layout {F : FileID} (hF : F.Valid) (b : UInt64) :
    ∃ aData, concatAD b F = .ok aData ∧ aData.length = 8 + (F.getD []).length ∧
      bigEndianUint64 (aData.take 8) = .ok b ∧ aData.drop 8 = F.getD [] :=
  ⟨_, concatAD_of_valid hF b, by simp, by rw [List.take_left' (length_putUint64 b),
    bigEndianUint64_putUint64], List.drop_left' (length_putUint64 b)⟩

theorem FileID.eq_of_getD {F F' : FileID} (hF : F.Valid) (hF' : F'.Valid)
    (h : F.getD [] = F'.getD []) : F = F' := by
  cases F with
  | none =>
    cases F' with
    | none => rfl
    | some f' =>
      have hl := hF' f' rfl
      simp only [Option.getD_none, Option.getD_some] at h
      simp [← h, headerIDLen] at hl
  | some f =>
    cases F' with
    | none =>
      have hl := hF f rfl
      simp only [Option.getD_none, Option.getD_some] at h
      simp [h, headerIDLen] at hl
    | some f' => simpa using h

theorem concatAD_inj {b b' : UInt64} {F F' : FileID} (hF : F.Valid) (hF' : F'.Valid)
    (h : concatAD b F = concatAD b' F') : b = b' ∧ F = F' := by
  rw [concatAD_of_valid hF, concatAD_of_valid hF'] at h
  have h' := List.append_inj (Result.ok.inj h) (by simp)
  exact ⟨putUint64_inj h'.1, FileID.eq_of_getD hF hF' h'.2⟩

/-- `concatAD` of a block number and a file ID that is `nil` or sixteen
bytes: `8 + len(fileID)` bytes, the first eight the block number in
big-endian order and the rest the file ID; and different pairs give
different associated data. -/
theorem concatAD_layout_injective (b : UInt64) {F : FileID} (hF : F.Valid) :
    (∃ aData, concatAD b F = .ok aData ∧ aData.length = 8 + (F.getD []).length ∧
      bigEndianUint64 (aData.take 8) = .ok b ∧ aData.drop 8 = F.getD []) ∧
    ∀ (b' : UInt64) (F' : FileID), F'.Valid → (b, F) ≠ (b', F') →
      concatAD b F ≠ concatAD b' F' :=
  ⟨concatAD_layout hF b, fun b' F' hF' hne h => by
    obtain ⟨rfl, rfl⟩ := concatAD_inj hF hF' h
    exact hne rfl⟩

theorem concatAD_layout_injective_one :
    FileID.Valid (some (List.replicate 16 7)) ∧
    ((∃ aData, concatAD 1 (some (List.replicate 16 7)) = .ok aData ∧
        aData.length = 8 + ((some (List.replicate 16 7) : FileID).getD []).length ∧
        bigEndianUint64 (aData.take 8) = .ok 1 ∧
        aData.drop 8 = (some (List.replicate 16 7) : FileID).getD []) ∧
      ∀ (b' : UInt64) (F' : FileID), F'.Valid → ((1 : UInt64), some (List.replicate 16 7)) ≠ (b', F') →
        concatAD 1 (some (List.replicate 16 7)) ≠ concatAD b' F') :=
  have hF : FileID.Valid (some (List.replicate 16 7)) := fun f hf => by
    cases hf; rfl
  ⟨hF, concatAD_layout_injective 1 hF⟩

theorem concatAD_ne_error (b : UInt64) (fileID : FileID) (e : String) :
    concatAD b fileID ≠ .error e := by
  unfold concatAD; split <;> simp

namespace ContentEnc

variable (be : ContentEnc)

theorem cipherBS_pos : 0 < be.cipherBS := by simp [cipherBS, authTagLen]

theorem doEncryptBlock_ne_error (p : Bytes) (b : UInt64) (F : FileID) (n : Bytes) (e : String) :
    be.doEncryptBlock p b F n ≠ .error e := by
  unfold doEncryptBlock
  split; · simp
  split; · simp
  cases h : concatAD b F with
  | ok ad => simp only [Result.ok_bind]; split <;> simp
  | error e' => exact absurd h (concatAD_ne_error b F e')
  | panic => simp

variable {be}

/-- Past its three early exits, a block's nonce decides: all zero is an
error, anything else goes to `Open`. -/
theorem decryptBlock_of_nonce {c : Bytes} (b : UInt64) (F : FileID) (hc : c ≠ [])
    (hne : c ≠ be.allZeroBlock) (hlen : be.cryptoCore.ivLen ≤ c.length) :
    be.decryptBlock c b F =
      if c.take be.cryptoCore.ivLen = be.allZeroNonce then .error "all-zero nonce"
      else concatAD b F >>= be.cryptoCore.aeadCipher.Open (c.take be.cryptoCore.ivLen)
        (c.drop be.cryptoCore.ivLen) := by
  rw [decryptBlock, if_neg (List.length_eq_zero.not.mpr hc), if_neg hne, if_neg (by omega)]

theorem doEncryptBlock_eq (ha : be.cryptoCore.aeadCipher.Correct) {p : Bytes} (hp : p ≠ [])
    (b : UInt64) {F : FileID} (hF : F.Valid) {n : Bytes} (hn : n.length = be.cryptoCore.ivLen) :
    be.doEncryptBlock p b F n =
      .ok (n ++ be.cryptoCore.aeadCipher.Seal n p (putUint64 b ++ F.getD [])) := by
  have hlen := ha.length_seal n p (putUint64 b ++ F.getD [])
  simp [doEncryptBlock, hp, hn, concatAD_of_valid hF, hlen, blockOverhead]
  omega

/-- One block's round trip.  The nonce must not be all zero: that is the
sentinel `decryptBlock` rejects. -/
theorem decryptBlock_doEncryptBlock (ha : be.cryptoCore.aeadCipher.Correct) {p : Bytes}
    (hp : p ≠ []) (b : UInt64) {F : FileID} (hF : F.Valid) {n : Bytes}
    (hn : n.length = be.cryptoCore.ivLen) (hz : n ≠ be.allZeroNonce) :
    (be.doEncryptBlock p b F n >>= fun c => be.decryptBlock c b F) = .ok p := by
  rw [doEncryptBlock_eq ha hp b hF hn, Result.ok_bind]
  have hne : n ++ be.cryptoCore.aeadCipher.Seal n p (putUint64 b ++ F.getD []) ≠
      be.allZeroBlock := by
    intro h
    apply hz
    have := congrArg (List.take be.cryptoCore.ivLen) h
    have hle : n.length ≤ be.cipherBS := by simp [cipherBS]; omega
    simpa [allZeroBlock, allZeroNonce, List.take_replicate, Nat.min_eq_left hle, ← hn] using this
  simp [decryptBlock, hne, hz, hn, concatAD_of_valid hF, ha.open_seal, ← List.length_eq_zero,
    ha.length_seal, authTagLen]

end ContentEnc

end Gocryptfs
