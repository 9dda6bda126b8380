import Gocryptfs.WriteCoalescing.Buffer
/-!
# `Gocryptfs.WriteCoalescing.Manager` — the write buffers of all files, under concurrent callers

`WriteBufferManager` keeps one `WriteBuffer` per file ID in a map and runs
`Write`, `Flush`, `FlushAll` and `Close` for goroutines that call it
concurrently.  The model is a system of goroutines: each goroutine has one
call in progress (`Caller`), which takes its atomic steps in program order,
and a run is any sequence of picks of a goroutine (`System.run`).

The atomic steps are the critical sections of the code:

* `GetBuffer` — a read-locked lookup, then a locked re-check and insert: one
  atomic get-or-create, since the re-check makes every interleaving of the two
  halves equal to one of them running alone.  Its `NewWriteBuffer` panics
  unless `makeslice` accepts the config's `MaxSize`, and a panic ends the
  process (`System.panicked`);
* a call on one buffer (`Write`, `Flush`), under that buffer's mutex;
* `Flush`'s and `FlushAll`'s read-locked reads of the map;
* `Close`: it holds the manager's lock from its first step to its return, so
  no `GetBuffer`, map read or other `Close` runs meanwhile, but calls on buffers
  already looked up do; each of its iterations flushes one buffer and deletes
  its entry.

Go's heap is explicit: the map holds pointers into `heap`, and a buffer that
`Close` deleted from the map still exists for a goroutine that looked it up
before.  Go's map range order is unspecified; `FlushAll` and `Close` carry the
index of the permutation of the entries they iterate in.

`FlushCallback` is given by what each of its calls returns (`reply`), so a run
is any pattern of successes and failures.  `System.acked` is a ghost that no
code reads: the writes that returned nil so far.
-/

namespace Gocryptfs

/-- One call of the manager's `FlushCallback(fileID, data, offset)`, with the
error it returned. -/
structure FlushCall where
  fileID : String
  data : Bytes
  offset : Nat
  err : Option String
  deriving DecidableEq, Repr

/-- The manager's `FlushCallback`: the `k`-th call made returns `reply k`.  Its
world is the list of the calls made so far. -/
def managerCallback (reply : Nat → Option String) (fileID : String) (data : Bytes)
    (offset : Nat) (calls : List FlushCall) : Option String × List FlushCall :=
  (reply calls.length, calls ++ [⟨fileID, data, offset, reply calls.length⟩])

/-- `WriteBufferManager`: `buffers` maps a file ID to a pointer into `heap`,
which holds every buffer made, with the file ID its callback closes over. -/
structure WriteBufferManager where
  buffers : List (String × Nat)
  heap : List (String × WriteBuffer)
  config : CoalesceConfig
  deriving DecidableEq, Repr

/-- `NewWriteBufferManager`: no buffers; a nil config is `DefaultConfig()`. -/
def newWriteBufferManager (config : Option CoalesceConfig) : WriteBufferManager :=
  ⟨[], [], config.getD defaultConfig⟩

namespace WriteBufferManager

/-- `GetBuffer`: the pointer the map has for `fileID`, or a new buffer with the
manager's config, entered in the map; `NewWriteBuffer` panics unless
`makeslice` accepts the config's `MaxSize`. -/
def getBuffer (fileID : String) (wbm : WriteBufferManager) : Result (Nat × WriteBufferManager) :=
  match wbm.buffers.lookup fileID with
  | some ptr => .ok (ptr, wbm)
  | none =>
    if h : 0 ≤ wbm.config.maxSize ∧ wbm.config.maxSize ≤ maxAlloc then
      .ok (wbm.heap.length, { wbm with
        buffers := wbm.buffers ++ [(fileID, wbm.heap.length)]
        heap := wbm.heap ++ [(fileID, newWriteBuffer (some wbm.config) h)] })
    else .panic

/-- A call on the buffer at `ptr`, with the callback its closure makes,
`wbm.FlushCallback(fileID, data, offset)`. -/
def onBuffer (reply : Nat → Option String) (ptr : Nat)
    (call : (Bytes → Nat → List FlushCall → Option String × List FlushCall) →
      WriteBuffer → List FlushCall → Option String × WriteBuffer × List FlushCall)
    (wbm : WriteBufferManager) (calls : List FlushCall) :
    Option String × WriteBufferManager × List FlushCall :=
  match wbm.heap[ptr]? with
  | some (fileID, wb) =>
    let r := call (managerCallback reply fileID) wb calls
    (r.1, { wbm with heap := wbm.heap.set ptr (fileID, r.2.1) }, r.2.2)
  | none => (none, wbm, calls)

/-- The map's entries in the `order`-th of the orders a `range` may visit them. -/
def rangeOrder (order : Nat) (wbm : WriteBufferManager) : List (String × Nat) :=
  wbm.buffers.permutations.getD order wbm.buffers

end WriteBufferManager

/-- A manager call in progress in one goroutine, by the step it takes next. -/
inductive Caller
  /-- `Write(fileID, data, offset)` at the clock reading `now`, at `GetBuffer`. -/
  | write (fileID : String) (now : Nat) (data : Bytes) (offset : Nat)
  /-- `Write`, at `buffer.Write` on the buffer `GetBuffer` returned. -/
  | writeTo (fileID : String) (ptr : Nat) (now : Nat) (data : Bytes) (offset : Nat)
  /-- `Flush(fileID)`, at its read of the map. -/
  | flush (fileID : String)
  /-- `Flush`, at `buffer.Flush()`. -/
  | flushAt (ptr : Nat)
  /-- `FlushAll`, at its snapshot of the map, which it ranges over in order `order`. -/
  | flushAll (order : Nat)
  /-- `FlushAll`, flushing the snapshot's buffers in turn. -/
  | flushAllFrom (ptrs : List Nat) (lastErr : Option String)
  /-- `Close`, at `wbm.Mutex.Lock()`; it ranges over the map in order `order`. -/
  | close (order : Nat)
  /-- `Close`, holding the lock, closing and deleting the entries left. -/
  | closeFrom (entries : List (String × Nat)) (lastErr : Option String)
  /-- The call has returned `err`. -/
  | returned (err : Option String)
  deriving DecidableEq, Repr

/-- Whether a goroutine holds the manager's lock between steps: only `Close` does. -/
def Caller.holdsLock : Caller → Bool
  | .closeFrom _ _ => true
  | _ => false

/-- The manager, the callback's calls so far, each goroutine's call, the
ghost list of acknowledged writes, and whether a goroutine has panicked,
which ends the process. -/
structure System where
  wbm : WriteBufferManager
  calls : List FlushCall
  callers : List Caller
  acked : List (String × Bytes)
  panicked : Bool
  deriving DecidableEq, Repr

namespace System

/-- A new manager and the calls its goroutines are about to make. -/
def init (config : Option CoalesceConfig) (callers : List Caller) : System :=
  ⟨newWriteBufferManager config, [], callers, [], false⟩

/-- Some goroutine holds the manager's lock. -/
def locked (s : System) : Bool := s.callers.any Caller.holdsLock

/-- Goroutine `i` goes on to `c`. -/
def setCaller (s : System) (i : Nat) (c : Caller) : System :=
  { s with callers := s.callers.set i c }

/-- The atomic step goroutine `i` takes next; a goroutine that has returned, or
waits for the lock `Close` holds, does nothing, and after a panic no
goroutine does anything. -/
def step (reply : Nat → Option String) (s : System) (i : Nat) : System :=
  if s.panicked then s else
  match s.callers[i]? with
  | none | some (.returned _) => s
  | some (.write fileID now data offset) =>
    if s.locked then s
    else
      match s.wbm.getBuffer fileID with
      | .ok r => { s with wbm := r.2 }.setCaller i (.writeTo fileID r.1 now data offset)
      | _ => { s with panicked := true }
  | some (.writeTo fileID ptr now data offset) =>
    let r := s.wbm.onBuffer reply ptr (fun cb => WriteBuffer.write cb now data offset) s.calls
    { s with
      wbm := r.2.1
      calls := r.2.2
      acked := if r.1 = none then s.acked ++ [(fileID, data)] else s.acked }.setCaller i
      (.returned r.1)
  | some (.flush fileID) =>
    if s.locked then s
    else
      match s.wbm.buffers.lookup fileID with
      | none => s.setCaller i (.returned none)
      | some ptr => s.setCaller i (.flushAt ptr)
  | some (.flushAt ptr) =>
    let r := s.wbm.onBuffer reply ptr WriteBuffer.flush s.calls
    { s with wbm := r.2.1, calls := r.2.2 }.setCaller i (.returned r.1)
  | some (.flushAll order) =>
    if s.locked then s
    else s.setCaller i (.flushAllFrom ((s.wbm.rangeOrder order).map Prod.snd) none)
  | some (.flushAllFrom [] lastErr) => s.setCaller i (.returned lastErr)
  | some (.flushAllFrom (ptr :: ptrs) lastErr) =>
    let r := s.wbm.onBuffer reply ptr WriteBuffer.flush s.calls
    { s with wbm := r.2.1, calls := r.2.2 }.setCaller i (.flushAllFrom ptrs (r.1.or lastErr))
  | some (.close order) =>
    if s.locked then s
    else s.setCaller i (.closeFrom (s.wbm.rangeOrder order) none)
  | some (.closeFrom [] lastErr) => s.setCaller i (.returned lastErr)
  | some (.closeFrom ((fileID, ptr) :: entries) lastErr) =>
    let r := s.wbm.onBuffer reply ptr WriteBuffer.flush s.calls
    { s with
      wbm := { r.2.1 with buffers := r.2.1.buffers.filter (·.1 != fileID) }
      calls := r.2.2 }.setCaller i (.closeFrom entries (r.1.or lastErr))

/-- The steps of a schedule, one goroutine pick after another. -/
def run (reply : Nat → Option String) : List Nat → System → System
  | [], s => s
  | i :: sched, s => run reply sched (s.step reply i)

/-- Byte `b` is in the data of a callback call that returned nil, or in a
buffer the map points to. -/
def keepsByte (s : System) (b : UInt8) : Bool :=
  s.calls.any (fun c => c.err == none && c.data.contains b) ||
    s.wbm.buffers.any fun e => (s.wbm.heap[e.2]?).any fun h => h.2.buffer.contains b

end System

/-- An acknowledged write is lost in two ways.  A `Flush` whose callback fails
has already cleared the buffer; and a `Write` that looked its buffer up before
a `Close` writes, after the `Close`, into a buffer the map no longer has.  In
both runs `Write("a", [1], 0)` returns nil and the byte is in no call that
returned nil and in no buffer the map reaches. -/
theorem acknowledged_write_lost :
    (let failed := System.run (fun _ => some "disk full") [0, 0, 1, 1]
      (System.init none [.write "a" 0 [1] 0, .flush "a"])
    let raced := System.run (fun _ => none) [0, 1, 1, 1, 0]
      (System.init none [.write "a" 0 [1] 0, .close 0])
    failed.acked = [("a", [1])] ∧ failed.keepsByte 1 = false ∧
      raced.acked = [("a", [1])] ∧ raced.keepsByte 1 = false) := by
  decide

end Gocryptfs
