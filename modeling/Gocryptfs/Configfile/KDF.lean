import Gocryptfs.Basic
/-!
# `Gocryptfs.Configfile.KDF` — `DeriveKey` of the two password KDFs

`internal/configfile`.  A config file names its KDF, scrypt or Argon2id, and
the parameters the file was created with.  The file may come from an
attacker, so `DeriveKey` first checks every parameter against a floor
(`validateParams`); on a rejection it prints the reason and exits with
`exitcodes.ScryptParams`.  Otherwise it calls the library: `scrypt.Key` or
`argon2.IDKey`.

The two libraries are modelled by their own parameter checks, which decide
whether they return.  The key bytes are left abstract, since no check reads
them: `core pw salt i` is the `i`-th byte the KDF derives.  What the floors
buy differs between the two:

* Argon2id.  The library panics on zero rounds, on zero lanes and on a
  zero-length key, and the floors exclude all three.  So every record either
  is rejected or gives a key of `KeyLen` bytes.
* scrypt.  The library also needs `N` to be a power of two and `N·r` and
  `r·p` below its size limits, and its `make([]uint32, 32*N*r)` panics above
  Go's `maxAlloc`.  `validateParams` checks only `N ≥ 1024`.  An accepted
  record whose `N` is not a power of two, such as `N = 1025`, makes
  `scrypt.Key` return an error, and `DeriveKey` panics in `log.Panicf`.
  `NewScryptKDF` bounds `logN` from below only: its records give a key for
  the default cost and `10 ≤ logN ≤ 38`, and pass `validateParams` but panic
  for `39 ≤ logN ≤ 62` (`ScryptKDF.deriveKey_new`).

The record `NewArgon2idKDF` builds passes its own checks.
-/

namespace Gocryptfs

/-- Modelled from the spec: `cryptocore.KeyLen`, the 32 bytes of the master
key. -/
def cryptocoreKeyLen : Nat := 32

/-- How `DeriveKey` ends: it returns the key; or it prints the rejection with
`tlog.Fatal` and calls `os.Exit(exitcodes.ScryptParams)`; or it panics. -/
inductive DeriveKeyEnd where
  | key (k : Bytes)
  | exitScryptParams (msg : String)
  | panic
  deriving DecidableEq, Repr

/-! ## The libraries -/

/-- Modelled from Go's `golang.org/x/crypto/pbkdf2`: `pbkdf2.Key` returns
`keyLen` bytes, `core i` the `i`-th.  It makes a buffer of `keyLen` rounded up
to whole 32-byte SHA-256 blocks and returns `dk[:keyLen]`: a negative length
panics in `make` or in the slice, and a buffer above `maxAlloc` in `make`. -/
def pbkdf2Key (core : Nat → UInt8) (keyLen : Int) : Result Bytes :=
  if keyLen < 0 ∨ maxAlloc < (keyLen + 31) / 32 * 32 then .panic
  else .ok ((List.range keyLen.toNat).map core)

/-- `maxInt` of `x/crypto/scrypt`: `int(^uint(0) >> 1)` on a 64-bit platform. -/
def scryptMaxInt : Int := 2 ^ 63 - 1

/-- Modelled from Go's `golang.org/x/crypto/scrypt`: the checks of
`scrypt.Key`, in order, its `make([]uint32, 64*r)` and `make([]uint32,
32*N*r)`, which panic above `maxAlloc` bytes, then its final `pbkdf2.Key`.
Go's `/` truncates (`Int.tdiv`) and panics on a zero divisor;
`uint64(r)*uint64(p)` wraps.  The first `pbkdf2.Key`, of `p*128*r < 2^37`
bytes, cannot panic once the checks pass.  Running out of memory below
`maxAlloc` is not modelled. -/
def scryptKey (core : Nat → UInt8) (N r p keyLen : Int) : Result Bytes :=
  if N ≤ 1 ∨ N.toNat &&& (N.toNat - 1) ≠ 0 then .error "scrypt: N must be > 1 and a power of 2"
  else if 2 ^ 30 ≤ (r % 2 ^ 64).toNat * (p % 2 ^ 64).toNat % 2 ^ 64 then
    .error "scrypt: parameters are too large"
  else if p = 0 then .panic
  else if r > (scryptMaxInt.tdiv 128).tdiv p ∨ r > scryptMaxInt.tdiv 256 then
    .error "scrypt: parameters are too large"
  else if r = 0 then .panic
  else if N > (scryptMaxInt.tdiv 128).tdiv r then .error "scrypt: parameters are too large"
  else if maxAlloc < 4 * (64 * r) ∨ maxAlloc < 4 * (32 * N * r) then .panic
  else pbkdf2Key core keyLen

/-- Modelled from Go's `golang.org/x/crypto/argon2`: `argon2.IDKey` panics
with "argon2: number of rounds too small" when `time < 1` and with "argon2:
parallelism degree too low" when `threads < 1`.  A zero `keyLen` makes its
final `blake2bHash` write to the nil hash that `blake2b.New(0, nil)` returns.
Otherwise it returns `keyLen` bytes.  `memory` is rounded and used for the
blocks only; running out of memory is not modelled. -/
def argon2IDKey (core : Nat → UInt8) (time _memory : UInt32) (threads : UInt8) (keyLen : UInt32) :
    Result Bytes :=
  if time < 1 then .panic
  else if threads < 1 then .panic
  else if keyLen = 0 then .panic
  else .ok ((List.range keyLen.toNat).map core)

/-- What the library call gives `DeriveKey`: its key, or a panic.  An error
return is scrypt's, which `DeriveKey` passes to `log.Panicf`. -/
def DeriveKeyEnd.ofResult : Result Bytes → DeriveKeyEnd
  | .ok k => .key k
  | .error _ => .panic
  | .panic => .panic

theorem ite_some_eq_none {c : Prop} [Decidable c] {s : String} {x : Option String} :
    (if c then some s else x) = none ↔ ¬c ∧ x = none := by
  split <;> simp_all

/-! ## Argon2id -/

/-- `Argon2idDefaultMemory`, in KB. -/
def argon2idDefaultMemory : Nat := 64 * 1024

/-- `Argon2idDefaultIterations`. -/
def argon2idDefaultIterations : Nat := 3

/-- `Argon2idDefaultParallelism`. -/
def argon2idDefaultParallelism : Nat := 4

/-- `Argon2idMinMemory`, in KB. -/
def argon2idMinMemory : Nat := 16 * 1024

/-- `Argon2idMinIterations`. -/
def argon2idMinIterations : Nat := 1

/-- `Argon2idMinParallelism`. -/
def argon2idMinParallelism : Nat := 1

/-- `Argon2idMinSaltLen`. -/
def argon2idMinSaltLen : Nat := 16

/-- `Argon2idKDF`, as the config file stores it. -/
structure Argon2idKDF where
  salt : Bytes
  memory : UInt32
  iterations : UInt32
  parallelism : UInt8
  keyLen : UInt32
  deriving DecidableEq, Repr

namespace Argon2idKDF

/-- `NewArgon2idKDF`; `salt` is what `cryptocore.RandBytes(cryptocore.KeyLen)`
returns. -/
def new (salt : Bytes) : Argon2idKDF :=
  ⟨salt, UInt32.ofNat argon2idDefaultMemory, UInt32.ofNat argon2idDefaultIterations,
    UInt8.ofNat argon2idDefaultParallelism, UInt32.ofNat cryptocoreKeyLen⟩

/-- `validateParams`: the first parameter below its floor, with the message
the code prints, or `none` (Go's `nil`). -/
def validateParams (a : Argon2idKDF) : Option String :=
  if a.memory.toNat < argon2idMinMemory then
    some ("fatal: Argon2id memory below minimum: value=" ++ toString a.memory ++ " KB, min=" ++
      toString argon2idMinMemory ++ " KB")
  else if a.iterations.toNat < argon2idMinIterations then
    some ("fatal: Argon2id iterations below minimum: value=" ++ toString a.iterations ++ ", min=" ++
      toString argon2idMinIterations)
  else if a.parallelism.toNat < argon2idMinParallelism then
    some ("fatal: Argon2id parallelism below minimum: value=" ++ toString a.parallelism ++
      ", min=" ++ toString argon2idMinParallelism)
  else if a.salt.length < argon2idMinSaltLen then
    some ("fatal: Argon2id salt length below minimum: value=" ++ toString a.salt.length ++
      ", min=" ++ toString argon2idMinSaltLen)
  else if a.keyLen.toNat < cryptocoreKeyLen then
    some ("fatal: Argon2id key length below minimum: value=" ++ toString a.keyLen ++ ", min=" ++
      toString cryptocoreKeyLen)
  else none

/-- `DeriveKey`. -/
def deriveKey (a : Argon2idKDF) (core : Bytes → Bytes → Nat → UInt8) (pw : Bytes) : DeriveKeyEnd :=
  match a.validateParams with
  | some err => .exitScryptParams err
  | none =>
    .ofResult (argon2IDKey (core pw a.salt) a.iterations a.memory a.parallelism a.keyLen)

theorem validateParams_eq_none {a : Argon2idKDF} :
    a.validateParams = none ↔
      argon2idMinMemory ≤ a.memory.toNat ∧ argon2idMinIterations ≤ a.iterations.toNat ∧
      argon2idMinParallelism ≤ a.parallelism.toNat ∧ argon2idMinSaltLen ≤ a.salt.length ∧
      cryptocoreKeyLen ≤ a.keyLen.toNat := by
  simp only [validateParams, ite_some_eq_none, Nat.not_lt, and_true]

/-- Every Argon2id record ends `DeriveKey` at the rejection or with a key of
`KeyLen` bytes; the library never panics on an accepted record. -/
theorem deriveKey_exit_or_key (a : Argon2idKDF) (core : Bytes → Bytes → Nat → UInt8) (pw : Bytes) :
    (∃ err, a.validateParams = some err ∧ a.deriveKey core pw = .exitScryptParams err) ∨
      (a.validateParams = none ∧
        a.deriveKey core pw = .key ((List.range a.keyLen.toNat).map (core pw a.salt))) := by
  cases hv : a.validateParams with
  | some err => exact .inl ⟨err, rfl, by rw [deriveKey, hv]⟩
  | none =>
    obtain ⟨-, hi, hp, -, hk⟩ := validateParams_eq_none.mp hv
    refine .inr ⟨rfl, ?_⟩
    simp only [argon2idMinIterations, argon2idMinParallelism, cryptocoreKeyLen] at hi hp hk
    have hk0 : a.keyLen ≠ 0 := fun h => by simp [h] at hk
    rw [deriveKey, hv, argon2IDKey, if_neg (by rw [UInt32.lt_def, BitVec.lt_def]; exact Nat.not_lt.mpr hi),
      if_neg (by rw [UInt8.lt_def, BitVec.lt_def]; exact Nat.not_lt.mpr hp), if_neg hk0]
    rfl

theorem validateParams_new {salt : Bytes} (h : salt.length = cryptocoreKeyLen) :
    (new salt).validateParams = none :=
  validateParams_eq_none.mpr (by simp [new, h]; decide)

end Argon2idKDF

/-! ## scrypt -/

/-- `ScryptDefaultLogN`. -/
def scryptDefaultLogN : Nat := 17

/-- `scryptMinR`. -/
def scryptMinR : Int := 8

/-- `scryptMinP`. -/
def scryptMinP : Int := 1

/-- `scryptMinLogN`. -/
def scryptMinLogN : Nat := 10

/-- `scryptMinSaltLen`. -/
def scryptMinSaltLen : Nat := 32

/-- `ScryptKDF`, as the config file stores it.  Its numbers are Go `int`s. -/
structure ScryptKDF where
  salt : Bytes
  n : Int
  r : Int
  p : Int
  keyLen : Int
  deriving DecidableEq, Repr

/-- Go's `1 << k` for a 64-bit `int` and an unsigned count: the bit moves into
the sign at `k = 63` and out at `k ≥ 64`. -/
def goIntShl1 (k : Nat) : Int :=
  if k < 63 then 2 ^ k else if k = 63 then -2 ^ 63 else 0

namespace ScryptKDF

/-- `NewScryptKDF`; `salt` is what `cryptocore.RandBytes(cryptocore.KeyLen)`
returns, and `uint32(logN)` keeps the low 32 bits. -/
def new (salt : Bytes) (logN : Int) : ScryptKDF :=
  ⟨salt, if logN ≤ 0 then goIntShl1 scryptDefaultLogN else goIntShl1 (logN % 2 ^ 32).toNat,
    8, 1, cryptocoreKeyLen⟩

/-- `validateParams`: the first parameter below its floor, with the message
the code prints, or `none` (Go's `nil`). -/
def validateParams (s : ScryptKDF) : Option String :=
  let minN := goIntShl1 scryptMinLogN
  if s.n < minN then some "fatal: scryptn below 10 is too low to make sense"
  else if s.r < scryptMinR then
    some ("fatal: scrypt parameter R below minimum: value=" ++ toString s.r ++ ", min=" ++
      toString scryptMinR)
  else if s.p < scryptMinP then
    some ("fatal: scrypt parameter P below minimum: value=" ++ toString s.p ++ ", min=" ++
      toString scryptMinP)
  else if s.salt.length < scryptMinSaltLen then
    some ("fatal: scrypt salt length below minimum: value=" ++ toString s.salt.length ++ ", min=" ++
      toString scryptMinSaltLen)
  else if s.keyLen < cryptocoreKeyLen then
    some ("fatal: scrypt parameter KeyLen below minimum: value=" ++ toString s.keyLen ++ ", min=" ++
      toString cryptocoreKeyLen)
  else none

/-- `DeriveKey`. -/
def deriveKey (s : ScryptKDF) (core : Bytes → Bytes → Nat → UInt8) (pw : Bytes) : DeriveKeyEnd :=
  match s.validateParams with
  | some err => .exitScryptParams err
  | none => .ofResult (scryptKey (core pw s.salt) s.n s.r s.p s.keyLen)

theorem validateParams_eq_none {s : ScryptKDF} :
    s.validateParams = none ↔
      1024 ≤ s.n ∧ scryptMinR ≤ s.r ∧ scryptMinP ≤ s.p ∧ scryptMinSaltLen ≤ s.salt.length ∧
        (cryptocoreKeyLen : Int) ≤ s.keyLen := by
  have hmin : goIntShl1 scryptMinLogN = 1024 := rfl
  simp only [validateParams, hmin, ite_some_eq_none, Int.not_lt, Nat.not_lt, and_true]

/-- An accepted record whose `N` fails the library's power-of-two test makes
`DeriveKey` panic: `scrypt.Key` returns an error and `log.Panicf` reports it. -/
theorem deriveKey_panics_of_accepted (core : Bytes → Bytes → Nat → UInt8) (pw : Bytes)
    {s : ScryptKDF} (hv : s.validateParams = none) (hN : s.n.toNat &&& (s.n.toNat - 1) ≠ 0) :
    s.deriveKey core pw = .panic := by
  rw [deriveKey, hv, scryptKey, if_pos (.inr hN)]
  rfl

/-- The scrypt record of a file with `N = 1025`: at least 1024, and not a
power of two. -/
def n1025 : ScryptKDF := ⟨List.replicate 32 0, 1025, 8, 1, 32⟩

theorem deriveKey_panics_of_accepted_n1025 :
    n1025.validateParams = none ∧ n1025.n.toNat &&& (n1025.n.toNat - 1) ≠ 0 ∧
      n1025.deriveKey (fun _ _ _ => 0) [] = .panic :=
  ⟨by decide, by decide, deriveKey_panics_of_accepted _ _ (by decide) (by decide)⟩

end ScryptKDF

/-! ## What `NewScryptKDF`'s records give

`NewScryptKDF` stores `r = 8`, `p = 1`, `KeyLen = 32` and `N = 1 << logN`.
With these `r` and `p` every size check of `scrypt.Key` but the last passes,
and `v := make([]uint32, 32*N*r)` takes `1024·N` bytes. -/

theorem two_pow_and_sub_one (k : Nat) : 2 ^ k &&& (2 ^ k - 1) = 0 := by
  rw [Nat.and_pow_two_sub_one_eq_mod, Nat.mod_self]

/-- `scrypt.Key` at `NewScryptKDF`'s parameters and `N = 2^k`, `k ≥ 1`: a key
while `v` fits in `maxAlloc`, that is `N ≤ 2^38`; above, a panic in `make`, or
from `N > 2^53 - 1` on, the size error that `DeriveKey` turns into a panic. -/
theorem ofResult_scryptKey (core : Nat → UInt8) {k : Nat} (hk : 1 ≤ k) :
    DeriveKeyEnd.ofResult (scryptKey core (2 ^ k) 8 1 32) =
      if (2 : Int) ^ k ≤ 2 ^ 38 then .key ((List.range 32).map core) else .panic := by
  have hpow : ((2 : Int) ^ k).toNat = 2 ^ k := by
    rw [show (2 : Int) ^ k = ((2 ^ k : Nat) : Int) by simp, Int.toNat_natCast]
  have h2 : (2 : Int) ≤ 2 ^ k := by exact_mod_cast Nat.pow_le_pow_right (show 0 < 2 by decide) hk
  have hq : (scryptMaxInt.tdiv 128).tdiv 8 = 2 ^ 53 - 1 := by decide
  have hmax : maxAlloc = 2 ^ 48 := rfl
  unfold scryptKey
  rw [if_neg (by rw [hpow, two_pow_and_sub_one]; omega), if_neg (by decide), if_neg (by decide),
    if_neg (by decide), if_neg (by decide), hq, hmax]
  by_cases hbig : (2 : Int) ^ k > 2 ^ 53 - 1
  · rw [if_pos hbig, if_neg (by omega)]; rfl
  rw [if_neg hbig]
  by_cases hs : (2 : Int) ^ k ≤ 2 ^ 38
  · rw [if_neg (by omega), pbkdf2Key, hmax, if_neg (by decide), if_pos hs]; rfl
  · rw [if_pos (.inr (by omega)), if_neg hs]; rfl

namespace ScryptKDF

/-- Every record `NewScryptKDF` builds, for every `logN`: with `N` below 1024
`DeriveKey` exits, with `N` up to `2^38` it returns a key of `KeyLen` bytes,
and with a larger `N` it panics.  `N` is `2^17` for `logN ≤ 0` and
`2^logN` up to `logN = 62`, so the default cost and `10 ≤ logN ≤ 38` give a
key, while `39 ≤ logN ≤ 62` passes `validateParams` and panics. -/
theorem deriveKey_new (core : Bytes → Bytes → Nat → UInt8) (pw : Bytes) {salt : Bytes}
    (h : salt.length = cryptocoreKeyLen) (logN : Int) :
    (new salt logN).deriveKey core pw =
      if (new salt logN).n < 1024 then
        .exitScryptParams "fatal: scryptn below 10 is too low to make sense"
      else if (new salt logN).n ≤ 2 ^ 38 then .key ((List.range cryptocoreKeyLen).map (core pw salt))
      else .panic := by
  have hmin : goIntShl1 scryptMinLogN = 1024 := rfl
  by_cases hsmall : (new salt logN).n < 1024
  · rw [if_pos hsmall, deriveKey, validateParams, hmin, if_pos hsmall]
  · rw [if_neg hsmall]
    obtain ⟨k, hk⟩ : ∃ k, (new salt logN).n = goIntShl1 k := by
      unfold new; split; exacts [⟨scryptDefaultLogN, rfl⟩, ⟨(logN % 2 ^ 32).toNat, rfl⟩]
    have hk63 : k < 63 := by
      by_contra hge
      rw [hk, goIntShl1, if_neg hge] at hsmall
      split at hsmall <;> omega
    have hN : (new salt logN).n = 2 ^ k := by rw [hk, goIntShl1, if_pos hk63]
    have hk1 : 1 ≤ k := Nat.pos_of_ne_zero fun h0 => by rw [hN, h0] at hsmall; omega
    have hv : (new salt logN).validateParams = none := by
      refine validateParams_eq_none.mpr ⟨by omega, ?_⟩
      simp only [new, scryptMinR, scryptMinP, scryptMinSaltLen, cryptocoreKeyLen, h]
      decide
    rw [deriveKey, hv]
    show DeriveKeyEnd.ofResult (scryptKey (core pw salt) (new salt logN).n 8 1 32) = _
    rw [hN, ofResult_scryptKey _ hk1]
    rfl

theorem deriveKey_new_default :
    (List.replicate 32 (0 : UInt8)).length = cryptocoreKeyLen ∧
      (new (List.replicate 32 0) 0).deriveKey (fun _ _ i => UInt8.ofNat i) [] =
        if (new (List.replicate 32 0) 0).n < 1024 then
          .exitScryptParams "fatal: scryptn below 10 is too low to make sense"
        else if (new (List.replicate 32 0) 0).n ≤ 2 ^ 38 then
          .key ((List.range cryptocoreKeyLen).map UInt8.ofNat)
        else .panic :=
  ⟨rfl, @deriveKey_new (fun _ _ i => UInt8.ofNat i) [] (List.replicate 32 0) rfl 0⟩

end ScryptKDF

end Gocryptfs
