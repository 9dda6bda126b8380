import Gocryptfs.Basic
/-!
# `Gocryptfs.Memprotect` — which pages `MemoryProtection` really locks

`internal/memprotect`, Linux version.  `MemoryProtection` is meant to keep
key material out of swap (`mlock`) and out of core dumps
(`madvise(MADV_DONTDUMP)`), and it tracks what it locked in `lockedPages` so
that `Cleanup` can undo it.  What the calls achieve is decided by the kernel,
which acts on whole pages.  So the model is the process's `MemoryProtection`
together with the kernel's state of each page: locked or not, marked
don't-dump or not.

## The kernel, as the model takes it

* `mlock(addr, len)` and `munlock(addr, len)` round `addr` down and
  `addr + len` up to page boundaries and act on the pages in between
  (`PageSize.touches`).  For `len = 0` that is the page holding `addr` when
  `addr` is not page-aligned, and nothing otherwise.
* Locks do not nest: one `munlock` unlocks a page however often it was
  locked.
* `madvise` fails with `EINVAL` unless `addr` is page-aligned, and then does
  nothing.
* `mlock` may be refused (`RLIMIT_MEMLOCK`, `EPERM`); the call's outcome is
  an argument `ok`, and a refused call locks nothing.

## Proved here

| | |
| :-- | :-- |
| `lockMemoryPageAligned_locks_iff` | the page-aligned lock covers its data iff `ptr % pageSize + len` fits in the rounded size |
| `lockMemory_dontDump_iff` | `LockMemory` marks its data don't-dump iff the data starts on a page boundary, and reports success either way |
| `cleanup_unlocks` | `Cleanup` forgets every pointer but unlocks at most the page of an unaligned one |
| `unlock_after_lock_lockedPages` | lock then unlock restores the tracking list for `LockMemory`; for `LockMemoryPageAligned`, at page-aligned data when `mlock` succeeds and at untracked data when it is refused |
| `run_held_locked` | in every run, from any state, every region the caller holds is locked, given successful `mlock`s, regions on pages of their own and page-aligned locks that fit; and marked don't-dump when the locked data is page-aligned |
| `run_disabled` | after `Disable` no run locks, marks or tracks anything new, and nothing enables protection again |

`MemoryProtection` has no mutex, so a run is a sequence of calls of one
goroutine.  Byte contents are not modelled: `SecureZero` and `SecureRandom`
write bytes that no lock reads, and `SecureWipe` and `SecureWipeEnhanced` end
in `UnlockMemory`.  Addresses are `uintptr`s that never wrap.

`memprotect_linux.go` passes `syscall.MADV_DONTDUMP`, which Go's `syscall`
package does not define for Linux, so the file does not build as it stands;
the model takes the advice it names, Linux's `MADV_DONTDUMP` (`0x10`).
-/

namespace Gocryptfs

/-! ## The kernel -/

/-- The page size `syscall.Getpagesize()` returns: a power of two. -/
structure PageSize where
  val : Nat
  pow_two : ∃ k, val = 2 ^ k

namespace PageSize

variable (ps : PageSize)

theorem pos : 0 < ps.val := by
  obtain ⟨k, hk⟩ := ps.pow_two
  exact hk ▸ Nat.two_pow_pos k

/-- A 4 KiB page, as on x86-64 Linux. -/
def kib4 : PageSize := ⟨4096, 12, by decide⟩

/-- Go's `x &^ (pageSize - 1)`, which clears the bits of `pageSize - 1`,
rounds down to a page boundary. -/
theorem and_sub_one (x : Nat) : x &&& (ps.val - 1) = x % ps.val := by
  obtain ⟨k, hk⟩ := ps.pow_two
  rw [hk, Nat.and_pow_two_sub_one_eq_mod]

/-- Whether a call of `mlock(2)`, `munlock(2)` or `madvise(2)` on
`[addr, addr + len)` acts on page `p`: the kernel rounds `addr` down and
`addr + len` up to page boundaries. -/
def touches (addr len p : Nat) : Bool :=
  decide (addr / ps.val ≤ p ∧ p * ps.val < addr + len)

theorem touches_iff {addr len p : Nat} :
    ps.touches addr len p = true ↔ addr / ps.val ≤ p ∧ p * ps.val < addr + len := by
  simp [touches]

theorem touches_div {addr len a : Nat} (h₁ : addr ≤ a) (h₂ : a < addr + len) :
    ps.touches addr len (a / ps.val) = true :=
  ps.touches_iff.mpr ⟨Nat.div_le_div_right h₁, (Nat.div_mul_le_self a ps.val).trans_lt h₂⟩

theorem div_mul_lt_iff {a c : Nat} : a / ps.val * ps.val < c * ps.val ↔ a < c * ps.val := by
  rw [Nat.mul_lt_mul_right ps.pos, Nat.div_lt_iff_lt_mul ps.pos]

theorem touches_zero {q p : Nat} : ps.touches q 0 p = true ↔ q % ps.val ≠ 0 ∧ q / ps.val = p := by
  rw [touches_iff, Nat.add_zero]
  have h := Nat.div_add_mod q ps.val
  constructor
  · rintro ⟨h₁, h₂⟩
    have : p ≤ q / ps.val := Nat.le_div_iff_mul_le ps.pos |>.mpr h₂.le
    refine ⟨fun h0 => ?_, by omega⟩
    rw [h0, Nat.add_zero, Nat.mul_comm, show q / ps.val = p by omega] at h
    omega
  · rintro ⟨h₁, rfl⟩
    refine ⟨le_rfl, ?_⟩
    rw [Nat.mul_comm]
    omega

end PageSize

/-- What the kernel keeps for each page of the process: whether it is locked
in memory, and whether it is marked `MADV_DONTDUMP`. -/
structure Kernel where
  locked : Nat → Bool
  dontDump : Nat → Bool

namespace Kernel

variable (k : Kernel) (ps : PageSize)

/-- Modelled from Linux's `mlock(2)`: the call locks every page it touches;
`ok` is whether the kernel accepts it, and a refused call locks nothing. -/
def mlock (addr len : Nat) (ok : Bool) : Kernel :=
  if ok then { k with locked := fun p => k.locked p || ps.touches addr len p } else k

/-- Modelled from Linux's `munlock(2)`: locks do not nest, so the call
unlocks every page it touches. -/
def munlock (addr len : Nat) : Kernel :=
  { k with locked := fun p => k.locked p && !ps.touches addr len p }

/-- Modelled from Linux's `madvise(2)` with `MADV_DONTDUMP`: `EINVAL`, and no
change, unless `addr` is page-aligned. -/
def madviseDontDump (addr len : Nat) : Kernel :=
  if addr % ps.val = 0 then { k with dontDump := fun p => k.dontDump p || ps.touches addr len p }
  else k

/-- Modelled from Linux's `mlockall(MCL_CURRENT | MCL_FUTURE)`: every page,
when the kernel accepts it. -/
def mlockall (ok : Bool) : Kernel :=
  if ok then { k with locked := fun _ => true } else k

/-- Modelled from Linux's `munlockall(2)`. -/
def munlockall : Kernel := { k with locked := fun _ => false }

variable {addr len p : Nat} {ok : Bool}

@[simp] theorem mlock_locked :
    (k.mlock ps addr len ok).locked p = (k.locked p || ok && ps.touches addr len p) := by
  cases ok <;> simp [mlock]

@[simp] theorem mlock_dontDump : (k.mlock ps addr len ok).dontDump = k.dontDump := by
  cases ok <;> rfl

@[simp] theorem munlock_locked :
    (k.munlock ps addr len).locked p = (k.locked p && !ps.touches addr len p) := rfl

@[simp] theorem munlock_dontDump : (k.munlock ps addr len).dontDump = k.dontDump := rfl

@[simp] theorem madviseDontDump_locked : (k.madviseDontDump ps addr len).locked = k.locked := by
  unfold madviseDontDump; split <;> rfl

@[simp] theorem madviseDontDump_dontDump :
    (k.madviseDontDump ps addr len).dontDump p =
      (k.dontDump p || decide (addr % ps.val = 0) && ps.touches addr len p) := by
  unfold madviseDontDump; split <;> simp [*]

@[simp] theorem mlockall_locked : (k.mlockall ok).locked p = (k.locked p || ok) := by
  cases ok <;> simp [mlockall]

@[simp] theorem mlockall_dontDump : (k.mlockall ok).dontDump = k.dontDump := by
  cases ok <;> rfl

@[simp] theorem munlockall_locked : k.munlockall.locked p = false := rfl

@[simp] theorem munlockall_dontDump : k.munlockall.dontDump = k.dontDump := rfl

end Kernel

/-! ## `MemoryProtection` -/

/-- `MemoryProtection`: the pointers it tracks, and the switch. -/
structure MemoryProtection where
  lockedPages : List Nat
  enabled : Bool
  deriving DecidableEq, Repr

/-- `New()`. -/
def MemoryProtection.new : MemoryProtection := ⟨[], true⟩

/-- A `[]byte` as the calls read it: the address of `data[0]` and
`len(data)`. -/
structure Region where
  ptr : Nat
  len : Nat
  deriving DecidableEq, Repr

/-- The process: its `MemoryProtection` and the kernel's pages. -/
structure Proc where
  mp : MemoryProtection
  kernel : Kernel

namespace Proc

variable (ps : PageSize)

/-- `LockMemory(data)`, `ok` being what `mlock` returns: whether it reports
success, and the process afterwards.  The errors of `mlock` and `madvise` are
only logged. -/
def lockMemory (s : Proc) (data : Region) (ok : Bool) : Bool × Proc :=
  if !s.mp.enabled || data.len == 0 then (false, s)
  else
    let k := s.kernel.mlock ps data.ptr data.len ok
    let k := k.madviseDontDump ps data.ptr data.len
    (true, ⟨{ s.mp with lockedPages := s.mp.lockedPages ++ [data.ptr] }, k⟩)

/-- `LockMemoryPageAligned(data)`: it locks from the start of the page of
`data[0]`, for `len(data)` rounded up to whole pages, and tracks that start. -/
def lockMemoryPageAligned (s : Proc) (data : Region) (ok : Bool) : Bool × Proc :=
  if !s.mp.enabled || data.len == 0 then (false, s)
  else
    let alignedPtr := data.ptr - (data.ptr &&& (ps.val - 1))
    let alignedSize := (data.len + ps.val - 1) / ps.val * ps.val
    let k := s.kernel.mlock ps alignedPtr alignedSize ok
    if !ok then (false, ⟨s.mp, k⟩)
    else
      let k := k.madviseDontDump ps alignedPtr alignedSize
      (true, ⟨{ s.mp with lockedPages := s.mp.lockedPages ++ [alignedPtr] }, k⟩)

/-- `UnlockMemory(data)`: `munlock`, then the first tracked pointer equal to
`&data[0]` is removed.  `SecureWipe` and `SecureWipeEnhanced` end in this
call. -/
def unlockMemory (s : Proc) (data : Region) : Proc :=
  if data.len == 0 then s
  else ⟨{ s.mp with lockedPages := s.mp.lockedPages.erase data.ptr }, s.kernel.munlock ps data.ptr data.len⟩

/-- `Cleanup()`: `munlock(ptr, 0)` for each tracked pointer, then an empty
list. -/
def cleanup (s : Proc) : Proc :=
  ⟨{ s.mp with lockedPages := [] }, s.mp.lockedPages.foldl (fun k ptr => k.munlock ps ptr 0) s.kernel⟩

/-- `Disable()`. -/
def disable (s : Proc) : Proc := ⟨{ s.mp with enabled := false }, s.kernel⟩

/-- `LockAllMemory()`, `ok` being what `mlockall` returns. -/
def lockAllMemory (s : Proc) (ok : Bool) : Bool × Proc :=
  if !s.mp.enabled then (false, s) else (ok, ⟨s.mp, s.kernel.mlockall ok⟩)

/-- `UnlockAllMemory()`. -/
def unlockAllMemory (s : Proc) : Proc := ⟨s.mp, s.kernel.munlockall⟩

/-- `AllocatePageAligned(size)`: `addr` is where Go's allocator puts the
`make`, `ok` what `mlock` returns.  With protection off it is
`make([]byte, size)`.  With it on, `size` is rounded up to whole pages in
Go's `int` arithmetic, where `size + pageSize - 1` wraps near `2^63`; `make`
panics on a rounded size below zero or above `maxAlloc`, and `data[:size]`
on a size below zero or above the rounded one.  Whether `LockMemory`
succeeded does not change the result. -/
def allocatePageAligned (s : Proc) (size : Int) (addr : Nat) (ok : Bool) : Result Region × Proc :=
  if !s.mp.enabled then (if size < 0 ∨ maxAlloc < size then .panic else .ok ⟨addr, size.toNat⟩, s)
  else
    let alignedSize := (goInt (size + ps.val - 1)).tdiv ps.val * ps.val
    if alignedSize < 0 ∨ maxAlloc < alignedSize then (.panic, s)
    else
      let s := (s.lockMemory ps ⟨addr, alignedSize.toNat⟩ ok).2
      (if size < 0 ∨ alignedSize < size then .panic else .ok ⟨addr, size.toNat⟩, s)

/-- A process with nothing tracked, locked or marked. -/
def fresh : Proc := ⟨.new, ⟨fun _ => false, fun _ => false⟩⟩

/-! ## One call -/

variable (s : Proc) (data : Region) (ok : Bool)

theorem lockMemory_of_pos (hen : s.mp.enabled = true) (hlen : 0 < data.len) :
    s.lockMemory ps data ok = (true, ⟨{ s.mp with lockedPages := s.mp.lockedPages ++ [data.ptr] },
      (s.kernel.mlock ps data.ptr data.len ok).madviseDontDump ps data.ptr data.len⟩) := by
  simp [lockMemory, hen, Nat.pos_iff_ne_zero.mp hlen]

theorem lockMemory_of_not (h : ¬(s.mp.enabled = true ∧ 0 < data.len)) :
    s.lockMemory ps data ok = (false, s) := by
  rw [not_and, Nat.pos_iff_ne_zero, not_not] at h
  by_cases hen : s.mp.enabled = true <;> simp_all [lockMemory]

/-- `&^ (pageSize - 1)` is the start of the page, and a refused `mlock`
changes nothing. -/
theorem lockMemoryPageAligned_eq (hen : s.mp.enabled = true) (hlen : 0 < data.len) :
    s.lockMemoryPageAligned ps data ok =
      if ok then (true, ⟨{ s.mp with lockedPages := s.mp.lockedPages ++ [data.ptr - data.ptr % ps.val] },
        (s.kernel.mlock ps (data.ptr - data.ptr % ps.val) ((data.len + ps.val - 1) / ps.val * ps.val) ok
          ).madviseDontDump ps (data.ptr - data.ptr % ps.val) ((data.len + ps.val - 1) / ps.val * ps.val)⟩)
      else (false, s) := by
  cases ok <;> simp [lockMemoryPageAligned, hen, Nat.pos_iff_ne_zero.mp hlen, ps.and_sub_one, Kernel.mlock]

theorem lockMemoryPageAligned_of_not (h : ¬(s.mp.enabled = true ∧ 0 < data.len)) :
    s.lockMemoryPageAligned ps data ok = (false, s) := by
  rw [not_and, Nat.pos_iff_ne_zero, not_not] at h
  by_cases hen : s.mp.enabled = true <;> simp_all [lockMemoryPageAligned]

theorem unlockMemory_of_pos (hlen : 0 < data.len) :
    s.unlockMemory ps data =
      ⟨{ s.mp with lockedPages := s.mp.lockedPages.erase data.ptr }, s.kernel.munlock ps data.ptr data.len⟩ := by
  simp [unlockMemory, Nat.pos_iff_ne_zero.mp hlen]

theorem unlockMemory_of_zero (hlen : data.len = 0) : s.unlockMemory ps data = s := by
  simp [unlockMemory, hlen]

theorem allocatePageAligned_snd (size : Int) (addr : Nat) :
    (s.allocatePageAligned ps size addr ok).2 = s ∨
      ∃ m, (s.allocatePageAligned ps size addr ok).2 = (s.lockMemory ps ⟨addr, m⟩ ok).2 := by
  unfold allocatePageAligned
  split
  · exact .inl rfl
  · dsimp only
    split
    · exact .inl rfl
    · exact .inr ⟨_, rfl⟩

/-- When protection is on and the call returns its slice, `LockMemory` was
given an allocation at least as long: `data[:size]` checks `size` against
the rounded size, wrapped or not. -/
theorem allocatePageAligned_of_ok (hen : s.mp.enabled = true) {size : Int} {addr : Nat}
    (h : (s.allocatePageAligned ps size addr ok).1 = .ok ⟨addr, size.toNat⟩) :
    ∃ m, size.toNat ≤ m ∧ (s.allocatePageAligned ps size addr ok).2 = (s.lockMemory ps ⟨addr, m⟩ ok).2 := by
  unfold allocatePageAligned at h ⊢
  simp only [hen, Bool.not_true, Bool.false_eq_true, if_false] at h ⊢
  split at h
  · cases h
  · next hA =>
    rw [if_neg hA]
    split at h
    · cases h
    · next hs => exact ⟨_, by omega, rfl⟩

/-! ## What one call covers -/

theorem touches_aligned_iff {ptr a m : Nat} (h : ptr ≤ a) :
    ps.touches (ptr - ptr % ps.val) (m * ps.val) (a / ps.val) = true ↔
      a < ptr - ptr % ps.val + m * ps.val := by
  have e : ptr - ptr % ps.val = ptr / ps.val * ps.val := by
    have := Nat.div_add_mod ptr ps.val
    rw [Nat.mul_comm] at this
    omega
  rw [ps.touches_iff, e, Nat.mul_div_cancel _ ps.pos, ← Nat.add_mul, ps.div_mul_lt_iff]
  exact and_iff_right (Nat.div_le_div_right h)

/-- `LockMemoryPageAligned` reports success, yet from a state in which no
page of `data` is locked, it leaves every byte of `data` on a locked page
exactly when `ptr % pageSize + len` fits in `len` rounded up to whole pages.
A slice that starts late in a page and ends in a page its rounded size does
not reach has its tail unlocked. -/
theorem lockMemoryPageAligned_locks_iff (hen : s.mp.enabled = true) (hlen : 0 < data.len)
    (hfree : ∀ a, data.ptr ≤ a → a < data.ptr + data.len → s.kernel.locked (a / ps.val) = false) :
    (s.lockMemoryPageAligned ps data true).1 = true ∧
      ((∀ a, data.ptr ≤ a → a < data.ptr + data.len →
          (s.lockMemoryPageAligned ps data true).2.kernel.locked (a / ps.val) = true) ↔
        data.ptr % ps.val + data.len ≤ (data.len + ps.val - 1) / ps.val * ps.val) := by
  rw [lockMemoryPageAligned_eq ps s data true hen hlen, if_pos rfl]
  refine ⟨rfl, ?_⟩
  simp only [Kernel.madviseDontDump_locked, Kernel.mlock_locked, Bool.true_and]
  have hmod := Nat.mod_le data.ptr ps.val
  constructor
  · intro h
    have hlast := h (data.ptr + data.len - 1) (by omega) (by omega)
    rw [hfree _ (by omega) (by omega), Bool.false_or, touches_aligned_iff ps (by omega)] at hlast
    omega
  · intro h a h₁ h₂
    rw [(touches_aligned_iff ps h₁).mpr (by omega), Bool.or_true]

theorem lockMemoryPageAligned_locks_iff_straddle :
    (fresh.lockMemoryPageAligned PageSize.kib4 ⟨4000, 200⟩ true).1 = true ∧
      ((∀ a, 4000 ≤ a → a < 4000 + 200 →
          (fresh.lockMemoryPageAligned PageSize.kib4 ⟨4000, 200⟩ true).2.kernel.locked (a / 4096) = true) ↔
        4000 % 4096 + 200 ≤ (200 + 4096 - 1) / 4096 * 4096) :=
  lockMemoryPageAligned_locks_iff PageSize.kib4 fresh ⟨4000, 200⟩ rfl (by decide) fun _ _ _ => rfl

/-- `LockMemory` reports success whatever `mlock` returns, yet from a state
in which no page of `data` is marked, it marks every byte of `data`
don't-dump exactly when `data` starts on a page boundary: `madvise` refuses
any other address. -/
theorem lockMemory_dontDump_iff (hen : s.mp.enabled = true) (hlen : 0 < data.len)
    (hclean : ∀ a, data.ptr ≤ a → a < data.ptr + data.len → s.kernel.dontDump (a / ps.val) = false) :
    (s.lockMemory ps data ok).1 = true ∧
      ((∀ a, data.ptr ≤ a → a < data.ptr + data.len →
          (s.lockMemory ps data ok).2.kernel.dontDump (a / ps.val) = true) ↔
        data.ptr % ps.val = 0) := by
  rw [lockMemory_of_pos ps s data ok hen hlen]
  refine ⟨rfl, ?_⟩
  simp only [Kernel.madviseDontDump_dontDump, Kernel.mlock_dontDump]
  constructor
  · intro h
    have hfirst := h data.ptr le_rfl (by omega)
    rw [hclean _ le_rfl (by omega)] at hfirst
    simp only [Bool.false_or, Bool.and_eq_true, decide_eq_true_eq] at hfirst
    exact hfirst.1
  · intro h a h₁ h₂
    simp [h, ps.touches_div h₁ h₂]

theorem lockMemory_dontDump_iff_unaligned :
    (fresh.lockMemory PageSize.kib4 ⟨4000, 200⟩ false).1 = true ∧
      ((∀ a, 4000 ≤ a → a < 4000 + 200 →
          (fresh.lockMemory PageSize.kib4 ⟨4000, 200⟩ false).2.kernel.dontDump (a / 4096) = true) ↔
        4000 % 4096 = 0) :=
  lockMemory_dontDump_iff PageSize.kib4 fresh ⟨4000, 200⟩ false rfl (by decide) fun _ _ _ => rfl

/-! ## `Cleanup` -/

theorem foldl_munlock_locked (l : List Nat) (k : Kernel) (p : Nat) :
    (l.foldl (fun k ptr => k.munlock ps ptr 0) k).locked p =
      (k.locked p && !l.any fun q => ps.touches q 0 p) := by
  induction l generalizing k with
  | nil => simp
  | cons q l ih => simp [ih, Bool.and_assoc]

theorem foldl_munlock_dontDump (l : List Nat) (k : Kernel) :
    (l.foldl (fun k ptr => k.munlock ps ptr 0) k).dontDump = k.dontDump := by
  induction l generalizing k with
  | nil => rfl
  | cons q l ih => exact ih _

/-- `Cleanup` forgets every tracked pointer, but its `munlock(ptr, 0)` calls
unlock only the page holding a tracked pointer that is not page-aligned: a
page stays locked unless such a pointer lies on it.  So every page of a
region locked by `LockMemoryPageAligned`, whose tracked pointer is aligned,
and every page but the first of any other locked region, stays locked. -/
theorem cleanup_unlocks :
    (s.cleanup ps).mp.lockedPages = [] ∧ (s.cleanup ps).kernel.dontDump = s.kernel.dontDump ∧
      ∀ p, (s.cleanup ps).kernel.locked p = true ↔
        s.kernel.locked p = true ∧ ∀ q ∈ s.mp.lockedPages, q % ps.val ≠ 0 → q / ps.val ≠ p := by
  refine ⟨rfl, foldl_munlock_dontDump ps _ _, fun p => ?_⟩
  simp only [cleanup, foldl_munlock_locked, Bool.and_eq_true, Bool.not_eq_true', List.any_eq_false,
    ps.touches_zero, not_and]

/-! ## The tracking list -/

theorem erase_append_singleton_perm_iff {l : List Nat} {a b : Nat} :
    ((l ++ [b]).erase a).Perm l ↔ a = b := by
  constructor
  · intro h
    by_contra hab
    have := h.count_eq b
    rw [List.count_erase_of_ne (Ne.symm hab), List.count_append, List.count_singleton_self] at this
    omega
  · rintro rfl
    by_cases ha : a ∈ l
    · rw [List.erase_append_left _ ha]
      exact (List.perm_append_singleton _ _).trans (List.perm_cons_erase ha).symm
    · rw [List.erase_append_right _ ha, List.erase_cons_head, List.append_nil]

theorem erase_perm_self_iff {l : List Nat} {a : Nat} : (l.erase a).Perm l ↔ a ∉ l := by
  refine ⟨fun h ha => ?_, fun ha => by rw [List.erase_of_not_mem ha]⟩
  have := h.length_eq
  rw [List.length_erase_of_mem ha] at this
  have := List.length_pos_of_mem ha
  omega

/-- Locking and then unlocking the same data leaves the tracking list as it
was, up to order, after `LockMemory`.  After `LockMemoryPageAligned` whose
`mlock` succeeded, only when the data starts on a page boundary, since it
tracks the page's start while `UnlockMemory` removes `&data[0]`; after one
whose `mlock` was refused, which tracks nothing, unless `&data[0]` was
already tracked. -/
theorem unlock_after_lock_lockedPages (hen : s.mp.enabled = true) (hlen : 0 < data.len) :
    ((s.lockMemory ps data ok).2.unlockMemory ps data).mp.lockedPages.Perm s.mp.lockedPages ∧
      (((s.lockMemoryPageAligned ps data ok).2.unlockMemory ps data).mp.lockedPages.Perm
        s.mp.lockedPages ↔ if ok then data.ptr % ps.val = 0 else data.ptr ∉ s.mp.lockedPages) := by
  rw [lockMemory_of_pos ps s data ok hen hlen, lockMemoryPageAligned_eq ps s data ok hen hlen]
  simp only [unlockMemory_of_pos ps _ data hlen, erase_append_singleton_perm_iff, true_and]
  cases ok
  · exact erase_perm_self_iff
  · have := Nat.mod_le data.ptr ps.val
    simp only [if_true, erase_append_singleton_perm_iff]
    omega

theorem unlock_after_lock_lockedPages_refused :
    ((fresh.lockMemory PageSize.kib4 ⟨4000, 200⟩ false).2.unlockMemory PageSize.kib4 ⟨4000, 200⟩
        ).mp.lockedPages.Perm fresh.mp.lockedPages ∧
      (((fresh.lockMemoryPageAligned PageSize.kib4 ⟨4000, 200⟩ false).2.unlockMemory PageSize.kib4
          ⟨4000, 200⟩).mp.lockedPages.Perm fresh.mp.lockedPages ↔
        if false then 4000 % 4096 = 0 else 4000 ∉ fresh.mp.lockedPages) :=
  unlock_after_lock_lockedPages PageSize.kib4 fresh ⟨4000, 200⟩ false rfl (by decide)

/-! ## Runs -/

theorem lockMemory_locked {p : Nat} (h : s.kernel.locked p = true) :
    (s.lockMemory ps data ok).2.kernel.locked p = true := by
  by_cases hc : s.mp.enabled = true ∧ 0 < data.len
  · simp [lockMemory_of_pos ps s data ok hc.1 hc.2, h]
  · rw [lockMemory_of_not ps s data ok hc]; exact h

theorem lockMemory_dontDump {p : Nat} (h : s.kernel.dontDump p = true) :
    (s.lockMemory ps data ok).2.kernel.dontDump p = true := by
  by_cases hc : s.mp.enabled = true ∧ 0 < data.len
  · simp [lockMemory_of_pos ps s data ok hc.1 hc.2, h]
  · rw [lockMemory_of_not ps s data ok hc]; exact h

end Proc

/-- No page is touched by both regions: one ends before the page on which
the other starts. -/
def Region.apart (ps : PageSize) (r r' : Region) : Bool :=
  decide (r.ptr + r.len ≤ r'.ptr / ps.val * ps.val ∨ r'.ptr + r'.len ≤ r.ptr / ps.val * ps.val)

theorem Region.touches_of_apart (ps : PageSize) {r r' : Region} (h : r.apart ps r' = true) {a : Nat}
    (h₁ : r.ptr ≤ a) (h₂ : a < r.ptr + r.len) : ps.touches r'.ptr r'.len (a / ps.val) = false := by
  rw [Bool.eq_false_iff, ne_eq, ps.touches_iff]
  rintro ⟨h₃, h₄⟩
  have e₁ := Nat.mul_le_mul_right ps.val h₃
  have e₂ := Nat.mul_le_mul_right ps.val (Nat.div_le_div_right h₁ : r.ptr / ps.val ≤ a / ps.val)
  have e₃ := Nat.div_mul_le_self a ps.val
  simp only [apart, decide_eq_true_eq] at h
  omega

/-- A call on the process's `MemoryProtection`, with the kernel's answers to
the system calls it makes. -/
inductive MemoryProtection.Call where
  | lockMemory (data : Region) (ok : Bool)
  | lockMemoryPageAligned (data : Region) (ok : Bool)
  | unlockMemory (data : Region)
  | cleanup
  | disable
  | lockAllMemory (ok : Bool)
  | unlockAllMemory
  | allocatePageAligned (size : Int) (addr : Nat) (ok : Bool)
  deriving DecidableEq, Repr

namespace MemoryProtection.Call

/-- The data a call is given; for `AllocatePageAligned`, the slice it
returns. -/
def region : Call → Option Region
  | lockMemory d _ | lockMemoryPageAligned d _ | unlockMemory d => some d
  | allocatePageAligned size addr _ => some ⟨addr, size.toNat⟩
  | _ => none

/-- The kernel accepts every `mlock` of the call. -/
def mlockSucceeds : Call → Bool
  | lockMemory _ ok | lockMemoryPageAligned _ ok | allocatePageAligned _ _ ok => ok
  | _ => true

/-- A page-aligned lock's data fits in its rounded size. -/
def fitsRounded (ps : PageSize) : Call → Bool
  | lockMemoryPageAligned d _ => decide (d.ptr % ps.val + d.len ≤ (d.len + ps.val - 1) / ps.val * ps.val)
  | _ => true

/-- `LockMemory` is given data that starts on a page boundary. -/
def dontDumpAligned (ps : PageSize) : Call → Bool
  | lockMemory d _ => decide (d.ptr % ps.val = 0)
  | allocatePageAligned _ addr _ => decide (addr % ps.val = 0)
  | _ => true

end MemoryProtection.Call

namespace Proc

open MemoryProtection (Call)

variable (ps : PageSize)

/-- One call. -/
def step (s : Proc) : Call → Proc
  | .lockMemory d ok => (s.lockMemory ps d ok).2
  | .lockMemoryPageAligned d ok => (s.lockMemoryPageAligned ps d ok).2
  | .unlockMemory d => s.unlockMemory ps d
  | .cleanup => s.cleanup ps
  | .disable => s.disable
  | .lockAllMemory ok => (s.lockAllMemory ok).2
  | .unlockAllMemory => s.unlockAllMemory
  | .allocatePageAligned size addr ok => (s.allocatePageAligned ps size addr ok).2

/-- The regions the caller has been told are locked, after a call: a lock
that reported success adds its data, `AllocatePageAligned` the slice it
returns while protection is on; `UnlockMemory` releases its data;
`Cleanup` and `UnlockAllMemory` release everything. -/
def held (s : Proc) (h : List Region) : Call → List Region
  | .lockMemory d ok => if (s.lockMemory ps d ok).1 then d :: h else h
  | .lockMemoryPageAligned d ok => if (s.lockMemoryPageAligned ps d ok).1 then d :: h else h
  | .unlockMemory d => h.filter (· ≠ d)
  | .cleanup | .unlockAllMemory => []
  | .disable | .lockAllMemory _ => h
  | .allocatePageAligned size addr ok =>
    if s.mp.enabled ∧ (s.allocatePageAligned ps size addr ok).1 = .ok ⟨addr, size.toNat⟩ then
      ⟨addr, size.toNat⟩ :: h
    else h

/-- A run: the calls in order, and the regions held after them. -/
def run : List Call → Proc × List Region → Proc × List Region
  | [], x => x
  | c :: cs, (s, h) => run cs (s.step ps c, s.held ps h c)

/-- Every byte of every held region lies on a locked page. -/
def Covered (s : Proc) (h : List Region) : Prop :=
  ∀ r ∈ h, ∀ a, r.ptr ≤ a → a < r.ptr + r.len → s.kernel.locked (a / ps.val) = true

/-- Every byte of every held region lies on a page marked don't-dump. -/
def Marked (s : Proc) (h : List Region) : Prop :=
  ∀ r ∈ h, ∀ a, r.ptr ≤ a → a < r.ptr + r.len → s.kernel.dontDump (a / ps.val) = true

variable {ps}

theorem Covered.cons {s : Proc} {h : List Region} {d : Region} (hc : Covered ps s h)
    (hd : ∀ a, d.ptr ≤ a → a < d.ptr + d.len → s.kernel.locked (a / ps.val) = true) :
    Covered ps s (d :: h) := by
  rintro r (_ | ⟨_, hr⟩)
  exacts [hd, hc r hr]

theorem Covered.mono {s s' : Proc} {h : List Region} (hc : Covered ps s h)
    (hk : ∀ p, s.kernel.locked p = true → s'.kernel.locked p = true) : Covered ps s' h :=
  fun r hr a h₁ h₂ => hk _ (hc r hr a h₁ h₂)

theorem Marked.cons {s : Proc} {h : List Region} {d : Region} (hc : Marked ps s h)
    (hd : ∀ a, d.ptr ≤ a → a < d.ptr + d.len → s.kernel.dontDump (a / ps.val) = true) :
    Marked ps s (d :: h) := by
  rintro r (_ | ⟨_, hr⟩)
  exacts [hd, hc r hr]

theorem Marked.mono {s s' : Proc} {h : List Region} (hc : Marked ps s h)
    (hk : ∀ p, s.kernel.dontDump p = true → s'.kernel.dontDump p = true) : Marked ps s' h :=
  fun r hr a h₁ h₂ => hk _ (hc r hr a h₁ h₂)

theorem le_roundUp (n : Nat) : n ≤ (n + ps.val - 1) / ps.val * ps.val := by
  have := Nat.lt_div_mul_add (a := n + ps.val - 1) ps.pos
  omega

theorem sub_mod_mod (ptr : Nat) : (ptr - ptr % ps.val) % ps.val = 0 :=
  Nat.sub_mod_eq_zero_of_mod_eq (Nat.mod_mod _ _).symm

theorem held_sub {s : Proc} {h : List Region} (c : Call) :
    ∀ r ∈ s.held ps h c, r ∈ h ∨ c.region = some r := by
  have cons : ∀ {d : Region} {b : Prop} [Decidable b] {r : Region},
      r ∈ (if b then d :: h else h) → r ∈ h ∨ some d = some r := by
    intro d b _ r hr
    split at hr
    · rcases List.mem_cons.mp hr with rfl | hr
      exacts [.inr rfl, .inl hr]
    · exact .inl hr
  intro r hr
  cases c with
  | lockMemory d ok => exact cons hr
  | lockMemoryPageAligned d ok => exact cons hr
  | unlockMemory d => exact .inl (List.mem_filter.mp hr).1
  | cleanup | unlockAllMemory => simp [held] at hr
  | disable | lockAllMemory _ => exact .inl hr
  | allocatePageAligned size addr ok => exact cons hr

/-- One call keeps every held region on locked pages, when its `mlock`s
succeed, a page-aligned lock fits in its rounded size, and the regions in
play lie on pages of their own: `munlock` of one region then spares the
pages of every other. -/
theorem covered_step {s : Proc} {h rs : List Region} {c : Call} (hcov : Covered ps s h)
    (hsub : ∀ r ∈ h, r ∈ rs) (hc : ∀ r ∈ c.region, r ∈ rs)
    (hapart : ∀ r ∈ rs, ∀ r' ∈ rs, r ≠ r' → r.apart ps r' = true)
    (hok : c.mlockSucceeds = true) (hfit : c.fitsRounded ps = true) :
    Covered ps (s.step ps c) (s.held ps h c) := by
  cases c with
  | lockMemory d ok =>
    obtain rfl : ok = true := hok
    by_cases hd : s.mp.enabled = true ∧ 0 < d.len
    · simp only [step, held, lockMemory_of_pos ps s d true hd.1 hd.2, if_true]
      exact (hcov.mono fun p hp => by simp [hp]).cons fun a h₁ h₂ => by simp [ps.touches_div h₁ h₂]
    · simpa only [step, held, lockMemory_of_not ps s d true hd] using hcov
  | lockMemoryPageAligned d ok =>
    obtain rfl : ok = true := hok
    by_cases hd : s.mp.enabled = true ∧ 0 < d.len
    · simp only [step, held, lockMemoryPageAligned_eq ps s d true hd.1 hd.2, if_true]
      refine (hcov.mono fun p hp => by simp [hp]).cons fun a h₁ h₂ => ?_
      simp only [MemoryProtection.Call.fitsRounded, decide_eq_true_eq] at hfit
      have := Nat.mod_le d.ptr ps.val
      simp [(touches_aligned_iff ps (m := (d.len + ps.val - 1) / ps.val) h₁).mpr (by omega)]
    · simpa only [step, held, lockMemoryPageAligned_of_not ps s d true hd] using hcov
  | unlockMemory d =>
    by_cases hd : d.len = 0
    · simp only [step, held, unlockMemory_of_zero ps s d hd]
      exact fun r hr => hcov r (List.mem_filter.mp hr).1
    · simp only [step, held, unlockMemory_of_pos ps s d (Nat.pos_of_ne_zero hd)]
      intro r hr a h₁ h₂
      obtain ⟨hrh, hne⟩ := List.mem_filter.mp hr
      have hap := hapart r (hsub r hrh) d (hc d rfl) (by simpa using hne)
      simp [hcov r hrh a h₁ h₂, Region.touches_of_apart ps hap h₁ h₂]
  | cleanup | unlockAllMemory => intro r hr; simp [held] at hr
  | disable => exact hcov
  | lockAllMemory ok =>
    refine hcov.mono fun p hp => ?_
    simp only [step, lockAllMemory]
    split <;> simp [hp]
  | allocatePageAligned size addr ok =>
    obtain rfl : ok = true := hok
    have hmono : Covered ps (s.step ps (.allocatePageAligned size addr true)) h := by
      rcases allocatePageAligned_snd ps s true size addr with he | ⟨m, he⟩ <;> rw [step, he]
      exacts [hcov, hcov.mono fun p hp => lockMemory_locked ps s _ true hp]
    simp only [held]
    split
    · next hd =>
      obtain ⟨m, hm, he⟩ := allocatePageAligned_of_ok ps s true hd.1 hd.2
      refine hmono.cons fun a (h₁ : addr ≤ a) (h₂ : a < addr + size.toNat) => ?_
      rw [step, he, lockMemory_of_pos ps s _ true hd.1 (by dsimp only; omega)]
      simp [ps.touches_div h₁ (by omega : a < addr + m)]
    · exact hmono

/-- One call keeps every held region on pages marked don't-dump, when a
page-aligned lock fits in its rounded size and `LockMemory` is given
page-aligned data: no call clears the mark. -/
theorem marked_step {s : Proc} {h : List Region} {c : Call} (hm : Marked ps s h)
    (hfit : c.fitsRounded ps = true) (hal : c.dontDumpAligned ps = true) :
    Marked ps (s.step ps c) (s.held ps h c) := by
  cases c with
  | lockMemory d ok =>
    by_cases hd : s.mp.enabled = true ∧ 0 < d.len
    · simp only [MemoryProtection.Call.dontDumpAligned, decide_eq_true_eq] at hal
      simp only [step, held, lockMemory_of_pos ps s d ok hd.1 hd.2, if_true]
      exact (hm.mono fun p hp => by simp [hp]).cons fun a h₁ h₂ => by simp [hal, ps.touches_div h₁ h₂]
    · simpa only [step, held, lockMemory_of_not ps s d ok hd] using hm
  | lockMemoryPageAligned d ok =>
    by_cases hd : s.mp.enabled = true ∧ 0 < d.len
    · cases ok
      · simpa only [step, held, lockMemoryPageAligned_eq ps s d false hd.1 hd.2] using hm
      simp only [step, held, lockMemoryPageAligned_eq ps s d true hd.1 hd.2, if_true]
      refine (hm.mono fun p hp => by simp [hp]).cons fun a h₁ h₂ => ?_
      simp only [MemoryProtection.Call.fitsRounded, decide_eq_true_eq] at hfit
      have := Nat.mod_le d.ptr ps.val
      simp [sub_mod_mod, (touches_aligned_iff ps (m := (d.len + ps.val - 1) / ps.val) h₁).mpr (by omega)]
    · simpa only [step, held, lockMemoryPageAligned_of_not ps s d ok hd] using hm
  | unlockMemory d =>
    by_cases hd : d.len = 0
    · simp only [step, held, unlockMemory_of_zero ps s d hd]
      exact fun r hr => hm r (List.mem_filter.mp hr).1
    · simp only [step, held, unlockMemory_of_pos ps s d (Nat.pos_of_ne_zero hd)]
      exact fun r hr => hm r (List.mem_filter.mp hr).1
  | cleanup | unlockAllMemory => intro r hr; simp [held] at hr
  | disable => exact hm
  | lockAllMemory ok =>
    refine hm.mono fun p hp => ?_
    simp only [step, lockAllMemory]
    split <;> simp [hp]
  | allocatePageAligned size addr ok =>
    have hmono : Marked ps (s.step ps (.allocatePageAligned size addr ok)) h := by
      rcases allocatePageAligned_snd ps s ok size addr with he | ⟨m, he⟩ <;> rw [step, he]
      exacts [hm, hm.mono fun p hp => lockMemory_dontDump ps s _ ok hp]
    simp only [held]
    split
    · next hd =>
      simp only [MemoryProtection.Call.dontDumpAligned, decide_eq_true_eq] at hal
      obtain ⟨m, hm, he⟩ := allocatePageAligned_of_ok ps s ok hd.1 hd.2
      refine hmono.cons fun a (h₁ : addr ≤ a) (h₂ : a < addr + size.toNat) => ?_
      rw [step, he, lockMemory_of_pos ps s _ ok hd.1 (by dsimp only; omega)]
      simp [hal, ps.touches_div h₁ (by omega : a < addr + m)]
    · exact hmono

theorem covered_run {rs : List Region}
    (hapart : ∀ r ∈ rs, ∀ r' ∈ rs, r ≠ r' → r.apart ps r' = true) {cs : List Call}
    (hc : ∀ c ∈ cs, ∀ r ∈ c.region, r ∈ rs) (hok : ∀ c ∈ cs, c.mlockSucceeds = true)
    (hfit : ∀ c ∈ cs, c.fitsRounded ps = true) {s : Proc} {h : List Region}
    (hcov : Covered ps s h) (hsub : ∀ r ∈ h, r ∈ rs) :
    Covered ps (run ps cs (s, h)).1 (run ps cs (s, h)).2 := by
  induction cs generalizing s h with
  | nil => exact hcov
  | cons c cs ih =>
    simp only [List.forall_mem_cons] at hc hok hfit
    exact ih hc.2 hok.2 hfit.2 (covered_step hcov hsub hc.1 hapart hok.1 hfit.1)
      fun r hr => (held_sub c r hr).elim (hsub r) (hc.1 r)

theorem marked_run {cs : List Call} (hfit : ∀ c ∈ cs, c.fitsRounded ps = true)
    (hal : ∀ c ∈ cs, c.dontDumpAligned ps = true) {s : Proc} {h : List Region}
    (hm : Marked ps s h) : Marked ps (run ps cs (s, h)).1 (run ps cs (s, h)).2 := by
  induction cs generalizing s h with
  | nil => exact hm
  | cons c cs ih =>
    simp only [List.forall_mem_cons] at hfit hal
    exact ih hfit.2 hal.2 (marked_step hm hfit.1 hal.1)

variable (ps) in
/-- In every run, from any state: every region a lock call reported locked,
and that no `UnlockMemory`, `Cleanup` or `UnlockAllMemory` has released since,
lies on locked pages — provided every `mlock` succeeds, every page-aligned
lock fits in its rounded size, and the regions the calls are given lie on
pages of their own.  If moreover `LockMemory` and `AllocatePageAligned` are
only given page-aligned data, those regions lie on pages marked don't-dump. -/
theorem run_held_locked (s : Proc) (cs : List Call)
    (hok : ∀ c ∈ cs, c.mlockSucceeds = true) (hfit : ∀ c ∈ cs, c.fitsRounded ps = true)
    (hapart : ∀ r ∈ cs.filterMap Call.region, ∀ r' ∈ cs.filterMap Call.region, r ≠ r' →
      r.apart ps r' = true) :
    Covered ps (run ps cs (s, [])).1 (run ps cs (s, [])).2 ∧
      ((∀ c ∈ cs, c.dontDumpAligned ps = true) →
        Marked ps (run ps cs (s, [])).1 (run ps cs (s, [])).2) :=
  ⟨covered_run hapart (fun c hc _ hr => List.mem_filterMap.mpr ⟨c, hc, hr⟩) hok hfit
      (fun _ h => nomatch h) (fun _ h => nomatch h),
    fun hal => marked_run hfit hal fun _ h => nomatch h⟩

/-- A run on 4 KiB pages: a key locked on its own page, a page allocated,
a whole page locked page-aligned, then the key unlocked. -/
def sampleCalls : List Call :=
  [.lockMemory ⟨4096, 64⟩ true, .allocatePageAligned 100 8192 true,
    .lockMemoryPageAligned ⟨12288, 4096⟩ true, .unlockMemory ⟨4096, 64⟩]

theorem run_held_locked_sample :
    Covered PageSize.kib4 (run PageSize.kib4 sampleCalls (fresh, [])).1
        (run PageSize.kib4 sampleCalls (fresh, [])).2 ∧
      ((∀ c ∈ sampleCalls, c.dontDumpAligned PageSize.kib4 = true) →
        Marked PageSize.kib4 (run PageSize.kib4 sampleCalls (fresh, [])).1
          (run PageSize.kib4 sampleCalls (fresh, [])).2) :=
  run_held_locked PageSize.kib4 fresh sampleCalls (by decide) (by decide) (by decide)

/-! ## After `Disable` -/

/-- `s` is disabled, and has no page locked or marked, and no pointer
tracked, beyond those of `s₀`. -/
structure Quieter (s₀ s : Proc) : Prop where
  disabled : s.mp.enabled = false
  locked : ∀ p, s.kernel.locked p = true → s₀.kernel.locked p = true
  dontDump : ∀ p, s.kernel.dontDump p = true → s₀.kernel.dontDump p = true
  tracked : s.mp.lockedPages.Sublist s₀.mp.lockedPages

/-- On a disabled process every lock call returns early, and the other calls
only unlock, forget or disable. -/
theorem Quieter.step {s₀ s : Proc} (hq : Quieter s₀ s) (c : Call) : Quieter s₀ (s.step ps c) := by
  have hoff : ∀ n, ¬(s.mp.enabled = true ∧ n) := fun _ h => by simp [hq.disabled] at h
  cases c with
  | lockMemory d ok => rw [Proc.step, lockMemory_of_not ps s d ok (hoff _)]; exact hq
  | lockMemoryPageAligned d ok => rw [Proc.step, lockMemoryPageAligned_of_not ps s d ok (hoff _)]; exact hq
  | unlockMemory d =>
    rcases Nat.eq_zero_or_pos d.len with h0 | hpos
    · rw [Proc.step, unlockMemory_of_zero ps s d h0]; exact hq
    · rw [Proc.step, unlockMemory_of_pos ps s d hpos]
      refine ⟨hq.disabled, fun p hp => hq.locked p ?_, hq.dontDump, (List.erase_sublist _ _).trans hq.tracked⟩
      simp only [Kernel.munlock_locked, Bool.and_eq_true] at hp
      exact hp.1
  | cleanup =>
    refine ⟨hq.disabled, fun p hp => hq.locked p ?_, fun p hp => hq.dontDump p ?_, List.nil_sublist _⟩
    · simp only [Proc.step, cleanup, foldl_munlock_locked, Bool.and_eq_true] at hp
      exact hp.1
    · rwa [Proc.step, cleanup, foldl_munlock_dontDump] at hp
  | disable => exact ⟨rfl, hq.locked, hq.dontDump, hq.tracked⟩
  | lockAllMemory ok => simp only [Proc.step, lockAllMemory, hq.disabled]; exact hq
  | unlockAllMemory =>
    exact ⟨hq.disabled, fun p hp => by simp [Proc.step, unlockAllMemory] at hp, hq.dontDump, hq.tracked⟩
  | allocatePageAligned size addr ok => simp only [Proc.step, allocatePageAligned, hq.disabled]; exact hq

theorem Quieter.run {s₀ : Proc} :
    ∀ (cs : List Call) {s : Proc} {h : List Region}, Quieter s₀ s → Quieter s₀ (Proc.run ps cs (s, h)).1
  | [], _, _, hq => hq
  | c :: cs, _, _, hq => Quieter.run cs (hq.step c)

variable (ps) in
/-- `Disable` cannot be undone, and after it no call locks a page, marks one
don't-dump or tracks a pointer: from a disabled state, every run ends
disabled, with its locked pages, its marked pages and its tracking list among
those it started with. -/
theorem run_disabled (s : Proc) (hdis : s.mp.enabled = false) (h : List Region) (cs : List Call) :
    (run ps cs (s, h)).1.mp.enabled = false ∧
      (∀ p, (run ps cs (s, h)).1.kernel.locked p = true → s.kernel.locked p = true) ∧
      (∀ p, (run ps cs (s, h)).1.kernel.dontDump p = true → s.kernel.dontDump p = true) ∧
      (run ps cs (s, h)).1.mp.lockedPages.Sublist s.mp.lockedPages :=
  let hq := Quieter.run cs (h := h) (⟨hdis, fun _ => id, fun _ => id, List.Sublist.refl _⟩ : Quieter s s)
  ⟨hq.disabled, hq.locked, hq.dontDump, hq.tracked⟩

theorem run_disabled_sample :
    (fresh.disable).mp.enabled = false ∧
      ((run PageSize.kib4 sampleCalls (fresh.disable, [])).1.mp.enabled = false ∧
        (∀ p, (run PageSize.kib4 sampleCalls (fresh.disable, [])).1.kernel.locked p = true →
          (fresh.disable).kernel.locked p = true) ∧
        (∀ p, (run PageSize.kib4 sampleCalls (fresh.disable, [])).1.kernel.dontDump p = true →
          (fresh.disable).kernel.dontDump p = true) ∧
        (run PageSize.kib4 sampleCalls (fresh.disable, [])).1.mp.lockedPages.Sublist
          (fresh.disable).mp.lockedPages) :=
  ⟨rfl, run_disabled PageSize.kib4 fresh.disable rfl [] sampleCalls⟩

end Proc

end Gocryptfs
