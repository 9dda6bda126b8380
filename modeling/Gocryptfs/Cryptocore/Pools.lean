import Gocryptfs.Basic
import Mathlib.Logic.Function.Basic
/-!
# `Gocryptfs.Cryptocore.Pools` — what the buffer pools hand out

`internal/cryptocore` keeps two kinds of buffer pool, both over Go's
`sync.Pool`.  A `sync.Pool` promises little: `Get` returns any item put and
not yet taken, or ignores them all and calls `New`, and the collector may drop
any item at any time.  So what a pool hands out is decided by what its `New`
makes and by which buffers are put into it.

* `MemoryPool` keeps one pool per size.  `Get(size)` makes the pool of `size`
  on first use, with `New` making a buffer of capacity `size`; `Put(buf)`
  puts a buffer into the pool of its capacity, and drops it when there is
  none.  So a pool only ever holds buffers of its own capacity, and
  `Get(size)` returns what `make([]byte, 0, size)` would: an empty buffer of
  capacity exactly `size`, or the panic of `makeslice` for a size below zero
  or above `maxAlloc` (`MemoryPool.run_take`).
* `OptimizedBackend` keeps three pools, whose `New` makes 4, 16 and 64 KiB,
  and `PutBuffer` files a buffer by its capacity: up to 4096, up to 16384,
  and above.  So `GetBuffer(size)` returns a buffer of `size`'s class, and not
  necessarily of capacity `size` or more: a small buffer put back lands in the
  pool of its class.  When only buffers of the three pool capacities are put
  back, the capacity is the class's, which is at least `size` exactly when
  `size ≤ 65536` (`BufferPools.run_getBuffer`).

Both `MemoryPool` and `sync.Pool` take locks for each step, so a run is any
sequence of the callers' steps.  `MemoryPool.Get` takes two steps: the map
lookup, under the mutex, and `pool.Get()` after it; the model's steps are
those, so every interleaving of the callers is a run.
-/

namespace Gocryptfs

/-- A `[]byte` as the pools see it: its length and its capacity.  Every slice
comes from a `make` that `makeslice` accepted, so its capacity is at most
`maxAlloc`. -/
@[ext] structure Slice where
  len : Nat
  cap : Nat
  len_le_cap : len ≤ cap
  cap_le : (cap : Int) ≤ maxAlloc

theorem toNat_le_maxAlloc {size : Int} (h : 0 ≤ size ∧ size ≤ maxAlloc) :
    (size.toNat : Int) ≤ maxAlloc := by
  rw [Int.toNat_of_nonneg h.1]
  exact h.2

/-- `make([]byte, 0, c)`, for a capacity `makeslice` accepts. -/
def Slice.make0 (c : Nat) (h : (c : Int) ≤ maxAlloc) : Slice := ⟨0, c, Nat.zero_le c, h⟩

/-- `buf[:0]`: the length reset, the capacity kept. -/
def Slice.reset (b : Slice) : Slice := ⟨0, b.cap, Nat.zero_le _, b.cap_le⟩

@[simp] theorem Slice.reset_len (b : Slice) : b.reset.len = 0 := rfl

@[simp] theorem Slice.reset_cap (b : Slice) : b.reset.cap = b.cap := rfl

/-! ## `sync.Pool` -/

/-- Modelled from Go's `sync.Pool.Get`: `pool` is the list of items put and
not yet taken.  `pick = some i` takes the `i`-th item, when there is one;
otherwise `Get` returns `New()`. -/
def SyncPool.get {α : Type} (pool : List α) (new : Result α) (pick : Option Nat) : Result α × List α :=
  match pick with
  | some i => if h : i < pool.length then (.ok pool[i], pool.eraseIdx i) else (new, pool)
  | none => (new, pool)

theorem SyncPool.get_spec {α : Type} (pool : List α) (new : Result α) (pick : Option Nat) :
    ((SyncPool.get pool new pick).1 = new ∨ ∃ x ∈ pool, (SyncPool.get pool new pick).1 = .ok x) ∧
      ∀ x ∈ (SyncPool.get pool new pick).2, x ∈ pool := by
  unfold SyncPool.get
  split
  · split
    · exact ⟨.inr ⟨_, List.getElem_mem _, rfl⟩, fun _ => List.mem_of_mem_eraseIdx⟩
    · exact ⟨.inl rfl, fun _ => id⟩
  · exact ⟨.inl rfl, fun _ => id⟩

theorem SyncPool.get_of_forall {α : Type} {P : α → Prop} {pool : List α} {new : Result α}
    (pick : Option Nat) (hp : ∀ x ∈ pool, P x) (hn : ∀ x, new = .ok x → P x) :
    (∀ x, (SyncPool.get pool new pick).1 = .ok x → P x) ∧ ∀ x ∈ (SyncPool.get pool new pick).2, P x := by
  obtain ⟨h | ⟨y, hy, h⟩, hrest⟩ := SyncPool.get_spec pool new pick
  · exact ⟨fun x hx => hn x (h ▸ hx), fun x hx => hp x (hrest x hx)⟩
  · exact ⟨fun x hx => by rw [h] at hx; cases hx; exact hp y hy, fun x hx => hp x (hrest x hx)⟩

/-! ## `MemoryPool` -/

/-- `MemoryPool`: the `sync.Pool` of each size `Get` has been called with. -/
structure MemoryPool where
  pools : Int → Option (List Slice)

namespace MemoryPool

/-- `NewMemoryPool()`. -/
def new : MemoryPool := ⟨fun _ => none⟩

/-- The pool's `New`: `make([]byte, 0, size)`, which panics ("makeslice: cap
out of range") on a negative capacity and on one above `maxAlloc`. -/
def newBuf (size : Int) : Result Slice :=
  if h : 0 ≤ size ∧ size ≤ maxAlloc then .ok (Slice.make0 size.toNat (toNat_le_maxAlloc h)) else .panic

/-- The first step of `Get(size)`, under the mutex: the pool of `size`,
made empty when there is none. -/
def lookupOrCreate (mp : MemoryPool) (size : Int) : MemoryPool :=
  match mp.pools size with
  | some _ => mp
  | none => ⟨Function.update mp.pools size (some [])⟩

/-- The second step of `Get(size)`: `pool.Get()`, then `buf[:0]`.  It runs
after `lookupOrCreate`; a missing pool is read as the empty one that step
makes. -/
def take (mp : MemoryPool) (size : Int) (pick : Option Nat) : Result Slice × MemoryPool :=
  let got := SyncPool.get ((mp.pools size).getD []) (newBuf size) pick
  (Slice.reset <$> got.1, ⟨Function.update mp.pools size (some got.2)⟩)

/-- `Get(size)`. -/
def get (mp : MemoryPool) (size : Int) (pick : Option Nat) : Result Slice × MemoryPool :=
  (mp.lookupOrCreate size).take size pick

/-- `Put(buf)`: `nil` is ignored; a buffer goes to the pool of its capacity,
and is dropped when there is none. -/
def put (mp : MemoryPool) : Option Slice → MemoryPool
  | none => mp
  | some b =>
    match mp.pools b.cap with
    | some pool => ⟨Function.update mp.pools b.cap (some (b :: pool))⟩
    | none => mp

/-- A garbage collection: every pool keeps the items `keep` keeps. -/
def gc (mp : MemoryPool) (keep : Slice → Bool) : MemoryPool :=
  ⟨fun k => (mp.pools k).map (List.filter keep)⟩

/-- A step of a caller, or of the collector. -/
inductive Step where
  | lookupOrCreate (size : Int)
  | take (size : Int) (pick : Option Nat)
  | put (buf : Option Slice)
  | gc (keep : Slice → Bool)

/-- One step. -/
def step (mp : MemoryPool) : Step → MemoryPool
  | .lookupOrCreate size => mp.lookupOrCreate size
  | .take size pick => (mp.take size pick).2
  | .put buf => mp.put buf
  | .gc keep => mp.gc keep

/-- A run: the steps in order. -/
def run (steps : List Step) (mp : MemoryPool) : MemoryPool :=
  steps.foldl step mp

/-- Every pool holds buffers of its own capacity only. -/
def Sized (mp : MemoryPool) : Prop :=
  ∀ k pool, mp.pools k = some pool → ∀ b ∈ pool, (b.cap : Int) = k

theorem sized_new : Sized new := fun _ _ h => nomatch h

theorem Sized.update {mp : MemoryPool} (h : Sized mp) {k : Int} {pool : List Slice}
    (hp : ∀ b ∈ pool, (b.cap : Int) = k) : Sized ⟨Function.update mp.pools k (some pool)⟩ := by
  intro k' pool' h'
  dsimp only at h'
  by_cases hk : k' = k
  · subst hk
    rw [Function.update_same, Option.some.injEq] at h'
    exact h' ▸ hp
  · rw [Function.update_noteq hk] at h'
    exact h k' pool' h'

theorem Sized.pool {mp : MemoryPool} (h : Sized mp) (k : Int) :
    ∀ b ∈ (mp.pools k).getD [], (b.cap : Int) = k := by
  cases hk : mp.pools k
  · intro b hb; simp at hb
  · exact h k _ hk

theorem newBuf_cap {size : Int} {b : Slice} (h : newBuf size = .ok b) : (b.cap : Int) = size := by
  unfold newBuf at h
  split at h
  · next hs => cases h; simp only [Slice.make0]; omega
  · cases h

theorem Sized.take {mp : MemoryPool} (h : Sized mp) (size : Int) (pick : Option Nat) :
    Sized (mp.take size pick).2 :=
  h.update (SyncPool.get_of_forall pick (h.pool size) fun _ => newBuf_cap).2

theorem Sized.lookupOrCreate {mp : MemoryPool} (h : Sized mp) (size : Int) :
    Sized (mp.lookupOrCreate size) := by
  unfold MemoryPool.lookupOrCreate
  split
  · exact h
  · exact h.update fun _ hb => nomatch hb

theorem Sized.put {mp : MemoryPool} (h : Sized mp) : ∀ buf, Sized (mp.put buf)
  | none => h
  | some b => by
    simp only [MemoryPool.put]
    cases hk : mp.pools b.cap with
    | none => exact h
    | some pool => exact h.update fun c hc => (List.mem_cons.mp hc).elim (· ▸ rfl) (h _ pool hk c)

theorem Sized.gc {mp : MemoryPool} (h : Sized mp) (keep : Slice → Bool) : Sized (mp.gc keep) := by
  intro k pool hk b hb
  simp only [MemoryPool.gc, Option.map_eq_some'] at hk
  obtain ⟨pool', hk', rfl⟩ := hk
  exact h k pool' hk' b (List.mem_of_mem_filter hb)

theorem Sized.step {mp : MemoryPool} (h : Sized mp) : ∀ st, Sized (mp.step st)
  | .lookupOrCreate size => h.lookupOrCreate size
  | .take size pick => h.take size pick
  | .put buf => h.put buf
  | .gc keep => h.gc keep

theorem Sized.run {mp : MemoryPool} (h : Sized mp) (steps : List Step) : Sized (run steps mp) := by
  induction steps generalizing mp with
  | nil => exact h
  | cons st steps ih => exact ih (h.step st)

/-- From a state whose pools are sized, `pool.Get()` then `buf[:0]` returns
what `New` would: a pooled buffer of capacity `size` exists only when `make`
accepts `size`. -/
theorem Sized.take_fst {mp : MemoryPool} (h : Sized mp) (size : Int) (pick : Option Nat) :
    (mp.take size pick).1 = if hs : 0 ≤ size ∧ size ≤ maxAlloc then
      .ok (Slice.make0 size.toNat (toNat_le_maxAlloc hs)) else .panic := by
  unfold MemoryPool.take
  dsimp only
  obtain ⟨hr | ⟨b, hb, hr⟩, -⟩ := SyncPool.get_spec ((mp.pools size).getD []) (newBuf size) pick
  · rw [hr, newBuf]
    split <;> rfl
  · have hcap := h.pool size b hb
    have hs : 0 ≤ size ∧ size ≤ maxAlloc := ⟨by omega, hcap ▸ b.cap_le⟩
    rw [hr, dif_pos hs, Result.map_ok]
    congr 1
    ext
    · rfl
    · simp only [Slice.reset_cap, Slice.make0]; omega

/-- Whatever the interleaving of the callers' steps, the choices of the
`sync.Pool`s and the collector's drops, the second step of `Get(size)`, and so
a whole `Get(size)`, returns an empty buffer of capacity exactly `size` when
`make` accepts `size`, and panics as `make([]byte, 0, size)` does otherwise:
`Put` only ever files a buffer under its own capacity. -/
theorem run_take (steps : List Step) (size : Int) (pick : Option Nat) :
    ((run steps new).take size pick).1 = (if hs : 0 ≤ size ∧ size ≤ maxAlloc then
        .ok (Slice.make0 size.toNat (toNat_le_maxAlloc hs)) else .panic) ∧
      ((run steps new).get size pick).1 = if hs : 0 ≤ size ∧ size ≤ maxAlloc then
        .ok (Slice.make0 size.toNat (toNat_le_maxAlloc hs)) else .panic :=
  ⟨(sized_new.run steps).take_fst size pick,
    ((sized_new.run steps).lookupOrCreate size).take_fst size pick⟩

end MemoryPool

/-! ## The pools of `OptimizedBackend` -/

/-- The three `sync.Pool`s of `OptimizedBackend`. -/
structure BufferPools where
  smallPool : List Slice
  mediumPool : List Slice
  largePool : List Slice

namespace BufferPools

/-- `initializePools()`: three empty pools; their `New` make 4 KiB, 16 KiB
and 64 KiB. -/
def initializePools : BufferPools := ⟨[], [], []⟩

/-- `GetBuffer(size)`. -/
def getBuffer (bp : BufferPools) (size : Int) (pick : Option Nat) : Result Slice × BufferPools :=
  if size ≤ 4096 then
    let got := SyncPool.get bp.smallPool (.ok (Slice.make0 4096 (by decide))) pick
    (Slice.reset <$> got.1, { bp with smallPool := got.2 })
  else if size ≤ 16384 then
    let got := SyncPool.get bp.mediumPool (.ok (Slice.make0 16384 (by decide))) pick
    (Slice.reset <$> got.1, { bp with mediumPool := got.2 })
  else
    let got := SyncPool.get bp.largePool (.ok (Slice.make0 65536 (by decide))) pick
    (Slice.reset <$> got.1, { bp with largePool := got.2 })

/-- `PutBuffer(buf)`: `nil` is ignored; a buffer is filed by its capacity. -/
def putBuffer (bp : BufferPools) : Option Slice → BufferPools
  | none => bp
  | some b =>
    if b.cap ≤ 4096 then { bp with smallPool := b :: bp.smallPool }
    else if b.cap ≤ 16384 then { bp with mediumPool := b :: bp.mediumPool }
    else { bp with largePool := b :: bp.largePool }

/-- A garbage collection: every pool keeps the items `keep` keeps. -/
def gc (bp : BufferPools) (keep : Slice → Bool) : BufferPools :=
  ⟨bp.smallPool.filter keep, bp.mediumPool.filter keep, bp.largePool.filter keep⟩

/-- A step of a caller, or of the collector. -/
inductive Step where
  | getBuffer (size : Int) (pick : Option Nat)
  | putBuffer (buf : Option Slice)
  | gc (keep : Slice → Bool)

/-- One step. -/
def step (bp : BufferPools) : Step → BufferPools
  | .getBuffer size pick => (bp.getBuffer size pick).2
  | .putBuffer buf => bp.putBuffer buf
  | .gc keep => bp.gc keep

/-- A run: the steps in order. -/
def run (steps : List Step) (bp : BufferPools) : BufferPools :=
  steps.foldl step bp

/-- The class `GetBuffer` and `PutBuffer` file a size or a capacity under:
up to 4096, up to 16384, above. -/
def sizeClass (x : Int) : Nat :=
  if x ≤ 4096 then 0 else if x ≤ 16384 then 1 else 2

/-- The capacity `New` makes in each class. -/
def classCap : Nat → Nat
  | 0 => 4096
  | 1 => 16384
  | _ => 65536

/-- Each pool holds buffers whose capacities satisfy `P` at its class. -/
def Filed (P : Nat → Nat → Prop) (bp : BufferPools) : Prop :=
  (∀ b ∈ bp.smallPool, P 0 b.cap) ∧ (∀ b ∈ bp.mediumPool, P 1 b.cap) ∧
    ∀ b ∈ bp.largePool, P 2 b.cap

section Filed

variable {P : Nat → Nat → Prop}

theorem Filed.getBuffer (h0 : P 0 4096) (h1 : P 1 16384) (h2 : P 2 65536) {bp : BufferPools}
    (h : Filed P bp) (size : Int) (pick : Option Nat) :
    Filed P (bp.getBuffer size pick).2 ∧
      ∃ b, (bp.getBuffer size pick).1 = .ok b ∧ b.len = 0 ∧ P (sizeClass size) b.cap := by
  obtain ⟨hs, hm, hl⟩ := h
  have hget : ∀ (s : Slice) {c : Nat} {pool : List Slice}, P c s.cap → (∀ b ∈ pool, P c b.cap) →
      (∀ b ∈ (SyncPool.get pool (.ok s) pick).2, P c b.cap) ∧
      ∃ b, Slice.reset <$> (SyncPool.get pool (.ok s) pick).1 = .ok b ∧ b.len = 0 ∧ P c b.cap := by
    intro s c pool hn hp
    have hf := SyncPool.get_of_forall (P := fun b : Slice => P c b.cap) pick hp
      fun x (h : Result.ok s = .ok x) => by cases Result.ok.inj h; exact hn
    refine ⟨hf.2, ?_⟩
    obtain ⟨h | ⟨x, -, h⟩, -⟩ := SyncPool.get_spec pool (.ok s) pick
    · exact ⟨s.reset, by rw [h]; rfl, rfl, hf.1 s h⟩
    · exact ⟨x.reset, by rw [h]; rfl, rfl, hf.1 x h⟩
  unfold BufferPools.getBuffer sizeClass
  split
  · exact ⟨⟨(hget _ h0 hs).1, hm, hl⟩, (hget _ h0 hs).2⟩
  · split
    · exact ⟨⟨hs, (hget _ h1 hm).1, hl⟩, (hget _ h1 hm).2⟩
    · exact ⟨⟨hs, hm, (hget _ h2 hl).1⟩, (hget _ h2 hl).2⟩

theorem Filed.putBuffer {bp : BufferPools} (h : Filed P bp) (buf : Option Slice)
    (hb : ∀ b, buf = some b → P (sizeClass b.cap) b.cap) : Filed P (bp.putBuffer buf) := by
  obtain ⟨hs, hm, hl⟩ := h
  cases buf with
  | none => exact ⟨hs, hm, hl⟩
  | some b =>
    have hb := hb b rfl
    simp only [BufferPools.putBuffer]
    by_cases h₁ : b.cap ≤ 4096
    · rw [sizeClass, if_pos (by omega)] at hb
      rw [if_pos h₁]
      exact ⟨List.forall_mem_cons.mpr ⟨hb, hs⟩, hm, hl⟩
    · by_cases h₂ : b.cap ≤ 16384
      · rw [sizeClass, if_neg (by omega), if_pos (by omega)] at hb
        rw [if_neg h₁, if_pos h₂]
        exact ⟨hs, List.forall_mem_cons.mpr ⟨hb, hm⟩, hl⟩
      · rw [sizeClass, if_neg (by omega), if_neg (by omega)] at hb
        rw [if_neg h₁, if_neg h₂]
        exact ⟨hs, hm, List.forall_mem_cons.mpr ⟨hb, hl⟩⟩

theorem Filed.run (h0 : P 0 4096) (h1 : P 1 16384) (h2 : P 2 65536) {bp : BufferPools}
    (h : Filed P bp) (steps : List Step)
    (hput : ∀ b, Step.putBuffer (some b) ∈ steps → P (sizeClass b.cap) b.cap) :
    Filed P (run steps bp) := by
  induction steps generalizing bp with
  | nil => exact h
  | cons st steps ih =>
    refine ih ?_ fun b hb => hput b (.tail _ hb)
    cases st with
    | getBuffer size pick => exact (Filed.getBuffer h0 h1 h2 h size pick).1
    | putBuffer buf => exact h.putBuffer buf fun b hb => hput b (hb ▸ .head _)
    | gc keep =>
      obtain ⟨hs, hm, hl⟩ := h
      exact ⟨fun b hb => hs b (List.mem_of_mem_filter hb), fun b hb => hm b (List.mem_of_mem_filter hb),
        fun b hb => hl b (List.mem_of_mem_filter hb)⟩

end Filed

/-- Whatever the order of the callers' steps, the choices of the pools and
the collector's drops, `GetBuffer(size)` returns an empty buffer of `size`'s
class: at most 4096 bytes for a size up to 4096, at most 16384 for one up to
16384, more than 16384 above.  When every buffer put back has one of the
three pool capacities, the buffer has its class's capacity, which is at
least `size` exactly when `size ≤ 65536`. -/
theorem run_getBuffer (steps : List Step) (size : Int) (pick : Option Nat) :
    ∃ b, ((run steps initializePools).getBuffer size pick).1 = .ok b ∧ b.len = 0 ∧
      sizeClass b.cap = sizeClass size ∧
      ((∀ b' : Slice, Step.putBuffer (some b') ∈ steps →
          b'.cap = 4096 ∨ b'.cap = 16384 ∨ b'.cap = 65536) →
        b.cap = classCap (sizeClass size) ∧ (size ≤ b.cap ↔ size ≤ 65536)) := by
  have hinit : ∀ {P : Nat → Nat → Prop}, Filed P initializePools :=
    ⟨fun _ h => (nomatch h), fun _ h => (nomatch h), fun _ h => (nomatch h)⟩
  obtain ⟨b, hb, hlen, hcls⟩ := (Filed.getBuffer (P := fun c n => sizeClass n = c)
    (by decide) (by decide) (by decide)
    (Filed.run (P := fun c n => sizeClass n = c) (by decide) (by decide) (by decide) hinit steps
      fun _ _ => rfl) size pick).2
  refine ⟨b, hb, hlen, hcls, fun hput => ?_⟩
  obtain ⟨b', hb', -, hcap⟩ := (Filed.getBuffer (P := fun c n => n = classCap c) rfl rfl rfl
    (Filed.run (P := fun c n => n = classCap c) rfl rfl rfl hinit steps fun b' h => by
      rcases hput b' h with h | h | h <;> simp [h, sizeClass, classCap]) size pick).2
  obtain rfl : b' = b := Result.ok.inj (hb'.symm.trans hb)
  refine ⟨hcap, ?_⟩
  rw [hcap]
  unfold sizeClass
  split_ifs <;> simp only [classCap] <;> omega

end BufferPools

end Gocryptfs
