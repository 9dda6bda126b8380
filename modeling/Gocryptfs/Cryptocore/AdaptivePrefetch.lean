import Gocryptfs.Basic
import Mathlib.Data.Multiset.Nodup
import Mathlib.Tactic.Abel
/-!
# `Gocryptfs.Cryptocore.AdaptivePrefetch` — random bytes handed out by the adaptive prefetcher

`AdaptivePrefetcher` keeps a buffer of random bytes; `Read(want)` serves
from it, and when it runs short takes the next chunk from the `refill`
channel (capacity 2), which a worker goroutine keeps filling with
`RandBytes(prefetchSize)`.  `SetPrefetchSize` and the profiling ticker's
`adjustPrefetchSize` change the size at any time.

The model is a system of goroutines.  Each `Read` call takes its steps in
program order: the request count, then the mutex and the buffer read, then
the channel receive, then the size check and the read from the fresh chunk.
From the mutex on it holds `ap.mutex`, so no other `Read` and no
`EnableProfiling` runs until it returns; the worker, `SetPrefetchSize` and
`adjustPrefetchSize` take no lock and run in between.  A run is any sequence
of `Event`s; a step that has to wait (a full channel, an empty one, a held
mutex) does nothing, and after a panic nothing runs.

Each chunk's bytes are labelled by the chunk and their place in it
(`randBytes`), so a label stands for one random byte wherever it goes.  The
main fact is that over every run the labels all `Read`s return are pairwise
distinct — no random byte is handed out twice; it follows from the invariant
`Distinct`, kept by every step.  The size check can fail, though: a chunk
already made at the old size is still queued when the size changes.
-/

namespace Gocryptfs

/-- `DefaultPrefetchSize`. -/
def defaultPrefetchSize : Int := 512

/-- `MinPrefetchSize`. -/
def minPrefetchSize : Int := 256

/-- `MaxPrefetchSize`. -/
def maxPrefetchSize : Int := 4096

/-- `HighThroughputThreshold`, in requests per second. -/
def highThroughputThreshold : Int := 1000

/-- `time.Second`, in nanoseconds. -/
def second : Int := 1000000000

/-- The capacity of the `refill` channel. -/
def refillCap : Nat := 2

/-- A random byte: the chunk it was drawn in and its place there. -/
abbrev Label := Nat × Nat

/-- `RandBytes(size)` as the `drawn`-th chunk the worker draws. -/
def randBytes (drawn size : Nat) : List Label := (List.range size).map fun i => (drawn, i)

/-- `AdaptivePrefetcher`: `buf` is the unread part of the `bytes.Buffer`,
`refill` the chunks queued in the channel, and `stop` whether it is closed.
The clock is `time.Now()` in nanoseconds. -/
structure AdaptivePrefetcher where
  prefetchSize : Int
  requestCount : Int
  lastProfileTime : Nat
  buf : List Label
  refill : List (List Label)
  profilingEnabled : Bool
  stop : Bool
  deriving DecidableEq, Repr

/-- `NewAdaptivePrefetcher`, before its goroutines run. -/
def newAdaptivePrefetcher : AdaptivePrefetcher :=
  ⟨defaultPrefetchSize, 0, 0, [], [], true, false⟩

namespace AdaptivePrefetcher

/-- `SetPrefetchSize`: clamped to `[MinPrefetchSize, MaxPrefetchSize]`. -/
def setPrefetchSize (ap : AdaptivePrefetcher) (size : Int) : AdaptivePrefetcher :=
  let size := if size < minPrefetchSize then minPrefetchSize else size
  let size := if size > maxPrefetchSize then maxPrefetchSize else size
  { ap with prefetchSize := size }

/-- `adjustPrefetchSize` at the clock reading `now`.  The rate
`requests / elapsed.Seconds()` is compared with the thresholds exactly,
multiplied out. -/
def adjustPrefetchSize (ap : AdaptivePrefetcher) (now : Nat) : AdaptivePrefetcher :=
  if !ap.profilingEnabled then ap
  else
    let requests := ap.requestCount
    let ap := { ap with requestCount := 0 }
    let elapsed : Int := now - ap.lastProfileTime
    if elapsed < second then ap
    else
      let ap := { ap with lastProfileTime := now }
      let currentSize := ap.prefetchSize
      let newSize :=
        if requests * second > highThroughputThreshold * elapsed then
          if currentSize * 2 > maxPrefetchSize then maxPrefetchSize else currentSize * 2
        else if requests * second * 2 < highThroughputThreshold * elapsed then
          if currentSize / 2 < minPrefetchSize then minPrefetchSize else currentSize / 2
        else currentSize
      if newSize ≠ currentSize then { ap with prefetchSize := newSize } else ap

end AdaptivePrefetcher

/-- Where the refill worker is in its loop. -/
inductive RefillWorker
  /-- At the `select`. -/
  | loop
  /-- Blocked at `ap.refill <- chunk`. -/
  | sending (chunk : List Label)
  /-- Returned, after `stop` was closed. -/
  | exited
  deriving DecidableEq, Repr

/-- A `Read(want)` call, by the step it takes next. -/
inductive ReadCall
  /-- At `atomic.AddInt64(&ap.requestCount, 1)`. -/
  | start (want : Nat)
  /-- At `ap.mutex.Lock()` and the first `ap.buf.Read(out)`. -/
  | lock (want : Nat)
  /-- Holding the mutex, at `fresh := <-ap.refill`. -/
  | recv (want : Nat)
  /-- Holding the mutex and the chunk, at the size check. -/
  | check (want : Nat) (fresh : List Label)
  /-- Returned `out`. -/
  | returned (out : List Label)
  deriving DecidableEq, Repr

/-- Whether a call holds `ap.mutex` between its steps. -/
def ReadCall.holdsMutex : ReadCall → Bool
  | .recv _ | .check _ _ => true
  | _ => false

/-- A step of the system: a goroutine's next step, or a call that is one step. -/
inductive PrefetchEvent
  | worker
  | read (i : Nat)
  | setPrefetchSize (size : Int)
  | adjustPrefetchSize (now : Nat)
  | enableProfiling (enabled : Bool)
  | close
  deriving DecidableEq, Repr

/-- The prefetcher, its worker, the `Read` calls, the chunks drawn so far, and
the message of the panic that ended the process, if one did. -/
structure PrefetchSystem where
  ap : AdaptivePrefetcher
  worker : RefillWorker
  reads : List ReadCall
  drawn : Nat
  panic : Option String
  deriving DecidableEq, Repr

namespace PrefetchSystem

/-- A new prefetcher, and `Read` calls about to start. -/
def init (wants : List Nat) : PrefetchSystem :=
  ⟨newAdaptivePrefetcher, .loop, wants.map .start, 0, none⟩

/-- Some `Read` holds `ap.mutex`. -/
def mutexHeld (s : PrefetchSystem) : Bool := s.reads.any ReadCall.holdsMutex

/-- Call `i` goes on to `c`. -/
def setRead (s : PrefetchSystem) (i : Nat) (c : ReadCall) : PrefetchSystem :=
  { s with reads := s.reads.set i c }

/-- The refill worker's next step. -/
def workerStep (s : PrefetchSystem) : PrefetchSystem :=
  match s.worker with
  | .loop =>
    if s.ap.stop then { s with worker := .exited }
    else
      { s with
        worker := .sending (randBytes s.drawn s.ap.prefetchSize.toNat)
        drawn := s.drawn + 1 }
  | .sending chunk =>
    if s.ap.refill.length < refillCap then
      { s with ap := { s.ap with refill := s.ap.refill ++ [chunk] }, worker := .loop }
    else s
  | .exited => s

/-- The next step of `Read` call `i`. -/
def readStep (s : PrefetchSystem) (i : Nat) : PrefetchSystem :=
  match s.reads[i]? with
  | some (.start want) =>
    { s with
      ap := if s.ap.profilingEnabled then { s.ap with requestCount := s.ap.requestCount + 1 }
        else s.ap }.setRead i (.lock want)
  | some (.lock want) =>
    if s.mutexHeld then s
    else if want ≤ s.ap.buf.length then
      { s with ap := { s.ap with buf := s.ap.buf.drop want } }.setRead i
        (.returned (s.ap.buf.take want))
    else { s with ap := { s.ap with buf := [] } }.setRead i (.recv want)
  | some (.recv want) =>
    match s.ap.refill with
    | [] => s
    | fresh :: rest => { s with ap := { s.ap with refill := rest } }.setRead i (.check want fresh)
  | some (.check want fresh) =>
    if (fresh.length : Int) ≠ s.ap.prefetchSize then
      { s with panic := some ("AdaptivePrefetcher: refill: got " ++ toString fresh.length ++
        " bytes instead of " ++ toString s.ap.prefetchSize) }
    else if want ≤ fresh.length then
      { s with ap := { s.ap with buf := fresh.drop want } }.setRead i (.returned (fresh.take want))
    else
      { s with panic := some ("AdaptivePrefetcher could not satisfy read: have=" ++
        toString fresh.length ++ " want=" ++ toString want ++
        " err=" ++ (if fresh = [] then "EOF" else "<nil>")) }
  | _ => s

/-- One step; after a panic nothing runs.  `EnableProfiling` takes the mutex,
and closing `stop` twice panics. -/
def step (s : PrefetchSystem) (e : PrefetchEvent) : PrefetchSystem :=
  if s.panic.isSome then s
  else
    match e with
    | .worker => s.workerStep
    | .read i => s.readStep i
    | .setPrefetchSize size => { s with ap := s.ap.setPrefetchSize size }
    | .adjustPrefetchSize now => { s with ap := s.ap.adjustPrefetchSize now }
    | .enableProfiling enabled =>
      if s.mutexHeld then s else { s with ap := { s.ap with profilingEnabled := enabled } }
    | .close =>
      if s.ap.stop then { s with panic := some "close of closed channel" }
      else { s with ap := { s.ap with stop := true } }

/-- The steps of a run, in order. -/
def run : List PrefetchEvent → PrefetchSystem → PrefetchSystem
  | [], s => s
  | e :: es, s => run es (s.step e)

end PrefetchSystem

/-! ## No random byte is handed out twice

`labels` is every label in the system, as a multiset: in the buffer, in the
channel, in the hands of the worker and of the calls, and in what the calls
returned.  A step moves labels, returns them or discards them, and the
worker's draw adds a chunk of labels no earlier chunk had (`step_labels`).
So the labels present stay distinct and older than the next draw
(`step_distinct`), along any run (`run_distinct`). -/

/-- The labels a call holds or has returned. -/
def ReadCall.labels : ReadCall → List Label
  | .check _ fresh => fresh
  | .returned out => out
  | _ => []

/-- What a call returned. -/
def ReadCall.output : ReadCall → List Label
  | .returned out => out
  | _ => []

/-- The chunk the worker holds. -/
def RefillWorker.labels : RefillWorker → List Label
  | .sending chunk => chunk
  | _ => []

namespace AdaptivePrefetcher

@[simp] theorem setPrefetchSize_buf (ap : AdaptivePrefetcher) (size : Int) :
    (ap.setPrefetchSize size).buf = ap.buf := rfl

@[simp] theorem setPrefetchSize_refill (ap : AdaptivePrefetcher) (size : Int) :
    (ap.setPrefetchSize size).refill = ap.refill := rfl

@[simp] theorem adjustPrefetchSize_buf (ap : AdaptivePrefetcher) (now : Nat) :
    (ap.adjustPrefetchSize now).buf = ap.buf := by
  simp only [adjustPrefetchSize, apply_ite AdaptivePrefetcher.buf, ite_self]

@[simp] theorem adjustPrefetchSize_refill (ap : AdaptivePrefetcher) (now : Nat) :
    (ap.adjustPrefetchSize now).refill = ap.refill := by
  simp only [adjustPrefetchSize, apply_ite AdaptivePrefetcher.refill, ite_self]

end AdaptivePrefetcher

theorem flatMap_set_add {α β : Type} (f : α → List β) (x : α) :
    ∀ (l : List α) (i : Nat) (y : α), l[i]? = some y →
      (((l.set i x).flatMap f : List β) : Multiset β) + ↑(f y) = ↑(l.flatMap f) + ↑(f x)
  | [], _, _, h => by simp at h
  | a :: l, 0, y, h => by
    simp only [List.getElem?_cons_zero, Option.some.injEq] at h
    subst h
    simp only [List.set_cons_zero, List.flatMap_cons, ← Multiset.coe_add]
    abel
  | a :: l, i + 1, y, h => by
    simp only [List.set_cons_succ, List.flatMap_cons, ← Multiset.coe_add]
    rw [add_assoc, flatMap_set_add f x l i y (by simpa using h)]
    abel

namespace PrefetchSystem

/-- Every label in the system. -/
def labels (s : PrefetchSystem) : Multiset Label :=
  ↑s.ap.buf + ↑s.ap.refill.flatten + ↑s.worker.labels + ↑(s.reads.flatMap ReadCall.labels)

theorem labels_setRead (s : PrefetchSystem) {i : Nat} {y : ReadCall} (hi : s.reads[i]? = some y)
    (c : ReadCall) : (s.setRead i c).labels + ↑y.labels = s.labels + ↑c.labels := by
  simp only [labels, setRead, add_assoc, flatMap_set_add _ c s.reads i y hi]

theorem labels_setRead_le (s : PrefetchSystem) {i : Nat} {y : ReadCall}
    (hi : s.reads[i]? = some y) (ap' : AdaptivePrefetcher) (c : ReadCall)
    (h : (↑ap'.buf + ↑ap'.refill.flatten + ↑c.labels : Multiset Label) ≤
      ↑s.ap.buf + ↑s.ap.refill.flatten + ↑y.labels) :
    ({ s with ap := ap' }.setRead i c).labels ≤ s.labels := by
  have h' := add_le_add_right h
    ((s.worker.labels : Multiset Label) + (s.reads.flatMap ReadCall.labels : Multiset Label))
  refine le_of_add_le_add_right (a := (y.labels : Multiset Label)) ?_
  rw [labels_setRead { s with ap := ap' } hi c]
  simp only [labels] at h' ⊢
  convert h' using 1 <;> abel

theorem take_add_drop (l : List Label) (n : Nat) :
    (↑(l.drop n) + ↑(l.take n) : Multiset Label) = ↑l := by
  rw [add_comm, Multiset.coe_add, List.take_append_drop]

theorem readStep_labels (s : PrefetchSystem) (i : Nat) :
    (s.readStep i).labels ≤ s.labels ∧ (s.readStep i).drawn = s.drawn := by
  unfold readStep
  cases hi : s.reads[i]? with
  | none => exact ⟨le_rfl, rfl⟩
  | some c =>
    cases c with
    | start want =>
      refine ⟨labels_setRead_le s hi _ _ ?_, rfl⟩
      split <;> rfl
    | lock want =>
      dsimp only
      split
      · exact ⟨le_rfl, rfl⟩
      split
      · refine ⟨labels_setRead_le s hi _ _ (le_of_eq ?_), rfl⟩
        simp only [ReadCall.labels, Multiset.coe_nil, add_zero]
        rw [add_right_comm (↑(s.ap.buf.drop want) : Multiset Label), take_add_drop]
      · refine ⟨labels_setRead_le s hi _ _ ?_, rfl⟩
        simp only [ReadCall.labels, Multiset.coe_nil, zero_add, add_zero]
        exact Multiset.le_add_left _ _
    | recv want =>
      dsimp only
      split
      · exact ⟨le_rfl, rfl⟩
      · next fresh rest hr =>
        refine ⟨labels_setRead_le s hi _ _ (le_of_eq ?_), rfl⟩
        simp only [ReadCall.labels, hr, List.flatten_cons, ← Multiset.coe_add, Multiset.coe_nil]
        abel
    | check want fresh =>
      dsimp only
      split
      · exact ⟨le_rfl, rfl⟩
      split
      · refine ⟨labels_setRead_le s hi _ _ ?_, rfl⟩
        simp only [ReadCall.labels]
        rw [add_right_comm (↑(fresh.drop want) : Multiset Label), take_add_drop]
        exact (Multiset.le_add_left _ (↑s.ap.buf : Multiset Label)).trans_eq (by abel)
      · exact ⟨le_rfl, rfl⟩
    | returned out => exact ⟨le_rfl, rfl⟩

theorem workerStep_labels (s : PrefetchSystem) :
    (s.workerStep.labels ≤ s.labels ∧ s.workerStep.drawn = s.drawn) ∨
      (s.workerStep.labels = s.labels + ↑(randBytes s.drawn s.ap.prefetchSize.toNat) ∧
        s.workerStep.drawn = s.drawn + 1) := by
  unfold workerStep
  split
  · next hw =>
    split
    · exact .inl ⟨by simp [labels, hw, RefillWorker.labels], rfl⟩
    · refine .inr ⟨?_, rfl⟩
      simp only [labels, hw, RefillWorker.labels, Multiset.coe_nil, add_zero]
      abel
  · next chunk hw =>
    split
    · refine .inl ⟨le_of_eq ?_, rfl⟩
      simp only [labels, hw, RefillWorker.labels, List.flatten_append, List.flatten_singleton,
        ← Multiset.coe_add, Multiset.coe_nil, add_zero]
      abel
    · exact .inl ⟨le_rfl, rfl⟩
  · exact .inl ⟨le_rfl, rfl⟩

theorem step_labels (s : PrefetchSystem) (e : PrefetchEvent) :
    ((s.step e).labels ≤ s.labels ∧ (s.step e).drawn = s.drawn) ∨
      (∃ size, (s.step e).labels = s.labels + ↑(randBytes s.drawn size) ∧
        (s.step e).drawn = s.drawn + 1) := by
  unfold step
  split
  · exact .inl ⟨le_rfl, rfl⟩
  cases e with
  | worker => exact (workerStep_labels s).imp id fun h => ⟨_, h⟩
  | read i => exact .inl (readStep_labels s i)
  | enableProfiling enabled =>
    dsimp only
    exact .inl (by split <;> exact ⟨le_of_eq (by simp [labels]), rfl⟩)
  | close =>
    dsimp only
    exact .inl (by split <;> exact ⟨le_of_eq (by simp [labels]), rfl⟩)
  | _ => exact .inl ⟨le_of_eq (by simp [labels]), rfl⟩

/-- Every label present is there once, and was drawn before. -/
def Distinct (s : PrefetchSystem) : Prop := s.labels.Nodup ∧ ∀ l ∈ s.labels, l.1 < s.drawn

theorem randBytes_nodup (drawn size : Nat) : (randBytes drawn size).Nodup :=
  (List.nodup_range size).map fun _ _ h => (Prod.mk.inj h).2

theorem step_distinct {s : PrefetchSystem} (h : s.Distinct) (e : PrefetchEvent) :
    (s.step e).Distinct := by
  rcases step_labels s e with ⟨hle, hd⟩ | ⟨size, hl, hd⟩
  · exact ⟨Multiset.nodup_of_le hle h.1, fun l hm => hd ▸ h.2 l (Multiset.mem_of_le hle hm)⟩
  · rw [Distinct, hl, hd, Multiset.nodup_add]
    refine ⟨⟨h.1, Multiset.coe_nodup.mpr (randBytes_nodup _ _),
      Multiset.disjoint_left.mpr fun {l} hl₁ hl₂ => ?_⟩, ?_⟩
    ·
      obtain ⟨_, _, rfl⟩ := List.mem_map.mp (Multiset.mem_coe.mp hl₂)
      exact absurd (h.2 _ hl₁) (lt_irrefl _)
    · intro l hm
      rcases Multiset.mem_add.mp hm with hm | hm
      · exact Nat.lt_succ_of_lt (h.2 l hm)
      · obtain ⟨_, _, rfl⟩ := List.mem_map.mp (Multiset.mem_coe.mp hm)
        exact Nat.lt_succ_self _

theorem run_distinct : ∀ (es : List PrefetchEvent) {s : PrefetchSystem}, s.Distinct →
    (run es s).Distinct
  | [], _, h => h
  | e :: es, _, h => run_distinct es (step_distinct h e)

theorem init_labels (wants : List Nat) : (init wants).labels = 0 := by
  induction wants with
  | nil => rfl
  | cons w wants ih => simpa [init, labels, ReadCall.labels] using ih

theorem init_distinct (wants : List Nat) : (init wants).Distinct := by
  simp [Distinct, init_labels]

end PrefetchSystem

theorem output_sublist_labels (reads : List ReadCall) :
    (reads.flatMap ReadCall.output).Sublist (reads.flatMap ReadCall.labels) := by
  induction reads with
  | nil => exact .slnil
  | cons c reads ih =>
    rw [List.flatMap_cons, List.flatMap_cons]
    cases c <;> simp only [ReadCall.output, ReadCall.labels, List.nil_append]
    all_goals first | exact ih | exact ih.append_left _ | exact ih.trans (List.sublist_append_right _ _)

/-- No random byte is handed out twice: in every run, whatever the wants and
the interleaving, the labels all `Read` calls returned are pairwise distinct. -/
theorem reads_nodup (wants : List Nat) (es : List PrefetchEvent) :
    ((PrefetchSystem.run es (PrefetchSystem.init wants)).reads.flatMap ReadCall.output).Nodup := by
  have h := (PrefetchSystem.run_distinct es (PrefetchSystem.init_distinct wants)).1
  refine Multiset.coe_nodup.mp (Multiset.nodup_of_le ?_ h)
  exact (Multiset.coe_le.mpr (output_sublist_labels _).subperm).trans (Multiset.le_add_left _ _)


set_option maxRecDepth 8000 in
/-- The worker queues a chunk of the default 512 bytes, `SetPrefetchSize(1024)`
runs, and then `Read(16)` finds the buffer empty and takes that chunk: it
panics at the size check. -/
theorem read_panics_after_resize :
    (PrefetchSystem.run [.worker, .worker, .setPrefetchSize 1024, .read 0, .read 0, .read 0, .read 0]
      (PrefetchSystem.init [16])).panic =
      some "AdaptivePrefetcher: refill: got 512 bytes instead of 1024" := by
  decide

end Gocryptfs
