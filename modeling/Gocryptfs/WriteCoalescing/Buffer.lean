import Gocryptfs.Basic
/-!
# `Gocryptfs.WriteCoalescing.Buffer` — one file's write buffer

`internal/writecoalescing`, the `WriteBuffer` half.  Small writes are
appended to a buffer and handed to `FlushCallback(data, offset)` together,
at the offset of the first of them; a large write, a timeout or a full buffer
flushes first, and with coalescing disabled a write goes straight to the
callback.

`FlushCallback` is a Go closure: it may do anything to the world and return
any error.  The model takes it as a function `cb` from the call and a world
`w : σ` to the error and the next world, so "every callback returns nil" and
"every pattern of failures" are both choices of `cb`.  Each call of the buffer
runs under its mutex and is one atomic step; `Write`'s disabled path takes no
lock but makes one callback call, so it is atomic as well.

Offsets are file positions (`Nat`); the clock is `time.Now()` in nanoseconds,
`Timeout` a `time.Duration`, and `Threshold` and `MaxSize` Go `int`s.

What the buffer is for is said by `writeAt`: a call `(data, offset)` overwrites
the file from `offset` on.  The main fact is `run_sequential`: when every write
made while data is buffered starts where that data ends, the calls the buffer
makes, applied in order, build the file the writes would have built.  Without
that condition a coalesced write lands at the wrong offset.
-/

namespace Gocryptfs

/-- `DefaultCoalesceThreshold`. -/
def defaultCoalesceThreshold : Int := 1024

/-- `DefaultCoalesceTimeout`: `10 * time.Millisecond`, in nanoseconds. -/
def defaultCoalesceTimeout : Int := 10 * 1000000

/-- `DefaultMaxCoalesceSize`. -/
def defaultMaxCoalesceSize : Int := 64 * 1024

/-- `CoalesceConfig`. -/
structure CoalesceConfig where
  threshold : Int
  timeout : Int
  maxSize : Int
  enabled : Bool
  deriving DecidableEq, Repr

/-- `DefaultConfig`. -/
def defaultConfig : CoalesceConfig :=
  ⟨defaultCoalesceThreshold, defaultCoalesceTimeout, defaultMaxCoalesceSize, true⟩

/-- `WriteBuffer`: its data fields.  The mutex is the atomicity of each call,
and `FlushCallback` is passed to each call. -/
structure WriteBuffer where
  buffer : Bytes
  offset : Nat
  lastWriteTime : Nat
  config : CoalesceConfig
  deriving DecidableEq, Repr

/-- `NewWriteBuffer`: an empty buffer; a nil config is `DefaultConfig()`.  Its
`make([]byte, 0, config.MaxSize)` panics unless `makeslice` accepts the
capacity, so a buffer is only made with a proof that it does, which `decide`
finds for a given config; `GetBuffer` takes the panic. -/
def newWriteBuffer (config : Option CoalesceConfig)
    (_ : 0 ≤ (config.getD defaultConfig).maxSize ∧ (config.getD defaultConfig).maxSize ≤ maxAlloc := by
      decide) : WriteBuffer :=
  ⟨[], 0, 0, config.getD defaultConfig⟩

namespace WriteBuffer

/-- `if err := first; err != nil { return err }`, then the rest. -/
def ifNil {σ : Type} (first : Option String × WriteBuffer × σ)
    (rest : WriteBuffer → σ → Option String × WriteBuffer × σ) : Option String × WriteBuffer × σ :=
  match first with
  | (none, wb, w) => rest wb w
  | r => r

variable {σ : Type} (cb : Bytes → Nat → σ → Option String × σ)

/-- `return wb.FlushCallback(data, offset)`. -/
def callback (data : Bytes) (offset : Nat) (wb : WriteBuffer) (w : σ) :
    Option String × WriteBuffer × σ :=
  ((cb data offset w).1, wb, (cb data offset w).2)

/-- `flushLocked`: the buffer is cleared, then its old contents go to the
callback, whose error is returned. -/
def flushLocked (wb : WriteBuffer) (w : σ) : Option String × WriteBuffer × σ :=
  if wb.buffer.length = 0 then (none, wb, w)
  else callback cb wb.buffer wb.offset { wb with buffer := [] } w

/-- The end of `Write`: start a new run at `offset` if the buffer is empty,
append, and stamp the time. -/
def append (now : Nat) (data : Bytes) (offset : Nat) (wb : WriteBuffer) : WriteBuffer :=
  { wb with
    offset := if wb.buffer.length = 0 then offset else wb.offset
    buffer := wb.buffer ++ data
    lastWriteTime := now }

/-- `Write(data, offset)` at the clock reading `now`. -/
def write (now : Nat) (data : Bytes) (offset : Nat) (wb : WriteBuffer) (w : σ) :
    Option String × WriteBuffer × σ :=
  if !wb.config.enabled then callback cb data offset wb w
  else if wb.config.threshold ≤ data.length then
    ifNil (if 0 < wb.buffer.length then flushLocked cb wb w else (none, wb, w))
      (callback cb data offset)
  else
    ifNil (if 0 < wb.buffer.length ∧ wb.config.timeout < (now : Int) - wb.lastWriteTime
        then flushLocked cb wb w else (none, wb, w)) fun wb w =>
    ifNil (if wb.config.maxSize < ((wb.buffer.length + data.length : Nat) : Int)
        then flushLocked cb wb w else (none, wb, w)) fun wb w =>
    (none, append now data offset wb, w)

/-- `Flush`, and `Close`, which is `Flush`. -/
def flush (wb : WriteBuffer) (w : σ) : Option String × WriteBuffer × σ := flushLocked cb wb w

/-- `SetConfig`. -/
def setConfig (config : CoalesceConfig) (wb : WriteBuffer) : WriteBuffer := { wb with config }

/-- A call on a write buffer, with the clock reading a `Write` takes. -/
inductive Op
  | write (now : Nat) (data : Bytes) (offset : Nat)
  | setConfig (config : CoalesceConfig)
  | flush
  deriving DecidableEq, Repr

/-- One call, under the buffer's mutex. -/
def step : Op → WriteBuffer → σ → Option String × WriteBuffer × σ
  | .write now data offset, wb, w => write cb now data offset wb w
  | .setConfig config, wb, w => (none, setConfig config wb, w)
  | .flush, wb, w => flush cb wb w

/-- Calls one after another; each error goes back to its own caller. -/
def run : List Op → WriteBuffer → σ → WriteBuffer × σ
  | [], wb, w => (wb, w)
  | op :: ops, wb, w => run ops (step cb op wb w).2.1 (step cb op wb w).2.2

end WriteBuffer

/-! ## What a flush means

A call `(data, offset)` overwrites the file from `offset` on, zero-filling a
gap before it; an empty call writes nothing, as `WriteAt` with no bytes does.
Two calls where the second starts at the end of the first are one call
(`writeAt_append`): that is the whole case for coalescing. -/

/-- The file a call `(data, offset)` makes of `file`. -/
def writeAt (file data : Bytes) (offset : Nat) : Bytes :=
  if data = [] then file
  else file.take offset ++ List.replicate (offset - file.length) 0 ++ data ++
    file.drop (offset + data.length)

/-- The file a list of calls makes, applied in order. -/
def applyCalls (calls : List (Bytes × Nat)) (file : Bytes) : Bytes :=
  calls.foldl (fun f c => writeAt f c.1 c.2) file

/-- The file the writes of a run make when each is applied where it asks. -/
def applyWrites : List WriteBuffer.Op → Bytes → Bytes
  | [], f => f
  | .write _ data offset :: ops, f => applyWrites ops (writeAt f data offset)
  | _ :: ops, f => applyWrites ops f

/-- The callback that records every call and returns nil. -/
def recordCalls (data : Bytes) (offset : Nat) (calls : List (Bytes × Nat)) :
    Option String × List (Bytes × Nat) :=
  (none, calls ++ [(data, offset)])

@[simp] theorem writeAt_nil (f : Bytes) (o : Nat) : writeAt f [] o = f := if_pos rfl

@[simp] theorem applyCalls_nil (f : Bytes) : applyCalls [] f = f := rfl

@[simp] theorem applyCalls_append_single (cs : List (Bytes × Nat)) (d : Bytes) (o : Nat)
    (f : Bytes) : applyCalls (cs ++ [(d, o)]) f = writeAt (applyCalls cs f) d o := by
  simp [applyCalls]

theorem writeAt_prefix_length (f : Bytes) (o : Nat) :
    (f.take o ++ List.replicate (o - f.length) 0).length = o := by
  simp only [List.length_append, List.length_take, List.length_replicate]; omega

theorem writeAt_append (f b d : Bytes) (o : Nat) :
    writeAt (writeAt f b o) d (o + b.length) = writeAt f (b ++ d) o := by
  by_cases hb : b = []
  · subst hb; simp
  by_cases hd : d = []
  · subst hd; simp
  have hPb : (f.take o ++ List.replicate (o - f.length) 0 ++ b).length = o + b.length := by
    rw [List.length_append, writeAt_prefix_length]
  have hdrop : (f.take o ++ List.replicate (o - f.length) 0 ++ b ++ f.drop (o + b.length)).drop
      (o + b.length + d.length) = f.drop (o + (b ++ d).length) := by
    rw [← List.drop_drop, List.drop_left' hPb, List.drop_drop, List.length_append, Nat.add_assoc]
  have hlen : o + b.length ≤
      (f.take o ++ List.replicate (o - f.length) 0 ++ b ++ f.drop (o + b.length)).length := by
    rw [List.length_append, hPb]; omega
  have hg : writeAt f b o =
      f.take o ++ List.replicate (o - f.length) 0 ++ b ++ f.drop (o + b.length) := if_neg hb
  rw [writeAt, if_neg hd, hg, List.take_left' hPb, Nat.sub_eq_zero_of_le hlen, hdrop,
    writeAt, if_neg (List.append_ne_nil_of_left_ne_nil hb d)]
  simp

/-- Writing `d` right after where `b` will go, and then `b`, is writing
`b ++ d`: a write that starts at the end of the buffered data touches none
of its bytes, so it may reach the file first. -/
theorem writeAt_swap (f b d : Bytes) (o : Nat) :
    writeAt (writeAt f d (o + b.length)) b o = writeAt f (b ++ d) o := by
  by_cases hb : b = []
  · subst hb; simp
  by_cases hd : d = []
  · subst hd; simp
  have hP := writeAt_prefix_length f (o + b.length)
  have hg : writeAt f d (o + b.length) = f.take (o + b.length) ++
      List.replicate (o + b.length - f.length) 0 ++ d ++ f.drop (o + b.length + d.length) := if_neg hd
  have htake : (f.take (o + b.length) ++ List.replicate (o + b.length - f.length) 0).take o =
      f.take o ++ List.replicate (o - f.length) 0 := by
    rw [List.take_append_eq_append_take, List.take_take, List.take_replicate, List.length_take]
    congr 2 <;> omega
  generalize f.take (o + b.length) ++ List.replicate (o + b.length - f.length) 0 = P at hP hg htake
  have hPd : o + b.length ≤ (P ++ d).length := by rw [List.length_append]; omega
  have hlen : o ≤ (P ++ d ++ f.drop (o + b.length + d.length)).length := by
    rw [List.length_append]; omega
  rw [hg, writeAt, if_neg hb, List.take_append_of_le_length (by omega),
    List.take_append_of_le_length (by omega), htake, Nat.sub_eq_zero_of_le hlen, List.replicate_zero,
    List.append_nil, List.drop_append_of_le_length hPd, List.drop_append_of_le_length (by omega),
    List.drop_eq_nil_of_le hP.le, writeAt, if_neg (List.append_ne_nil_of_left_ne_nil hb d)]
  simp only [List.nil_append, List.append_assoc, List.length_append, Nat.add_assoc]

/-! ## Sequential writes are placed where they ask

`pending wb cs f` is the file once the calls `cs` made so far are applied and
the buffer is flushed.  With a callback that returns nil, a flush leaves it as
it is, and every call on the buffer applies its write to it, provided the
write `continues` the buffer: that is `step_pending`, and `run_pending` is its
induction along the run. -/

namespace WriteBuffer

/-- The file once the calls made so far are applied and the buffer is flushed. -/
def pending (wb : WriteBuffer) (cs : List (Bytes × Nat)) (f : Bytes) : Bytes :=
  writeAt (applyCalls cs f) wb.buffer wb.offset

/-- A write continues what the buffer holds: the buffer is empty, or the
write starts where the buffered data ends. -/
def continues (wb : WriteBuffer) : Op → Bool
  | .write _ _ offset => wb.buffer.isEmpty || offset == wb.offset + wb.buffer.length
  | _ => true

/-- Every write of a run continues what the buffer holds when it is made. -/
def sequential {σ : Type} (cb : Bytes → Nat → σ → Option String × σ) :
    List Op → WriteBuffer → σ → Bool
  | [], _, _ => true
  | op :: ops, wb, w =>
    continues wb op && sequential cb ops (step cb op wb w).2.1 (step cb op wb w).2.2

/-- The guard `len(wb.Buffer) > 0` before a flush changes nothing: an empty
buffer's flush returns nil and leaves all as it is. -/
theorem flushLocked_of_pos {σ : Type} (cb : Bytes → Nat → σ → Option String × σ)
    (wb : WriteBuffer) (w : σ) :
    (if 0 < wb.buffer.length then flushLocked cb wb w else (none, wb, w)) = flushLocked cb wb w := by
  unfold flushLocked; split_ifs <;> first | rfl | omega

theorem flushLocked_recordCalls (wb : WriteBuffer) (cs : List (Bytes × Nat)) :
    flushLocked recordCalls wb cs =
      (none, { wb with buffer := [] }, if wb.buffer = [] then cs else cs ++ [(wb.buffer, wb.offset)]) := by
  by_cases h : wb.buffer = []
  · cases wb; simp_all [flushLocked]
  · simp [flushLocked, callback, recordCalls, h]

theorem applyCalls_flush (wb : WriteBuffer) (cs : List (Bytes × Nat)) (f : Bytes) :
    applyCalls (if wb.buffer = [] then cs else cs ++ [(wb.buffer, wb.offset)]) f = pending wb cs f := by
  by_cases h : wb.buffer = [] <;> simp [pending, h]

theorem flushIf_recordCalls (c : Prop) [Decidable c] (wb : WriteBuffer) (cs : List (Bytes × Nat)) :
    ∃ wb' cs', (if c then flushLocked recordCalls wb cs else (none, wb, cs)) = (none, wb', cs') ∧
      (∀ f, pending wb' cs' f = pending wb cs f) ∧ (wb' = wb ∨ wb'.buffer = []) := by
  by_cases hc : c
  · refine ⟨_, _, by rw [if_pos hc, flushLocked_recordCalls], fun f => ?_, .inr rfl⟩
    simp [pending, applyCalls_flush]
  · exact ⟨wb, cs, if_neg hc, fun _ => rfl, .inl rfl⟩

theorem pending_append (now : Nat) (data : Bytes) (offset : Nat) (wb : WriteBuffer)
    (cs : List (Bytes × Nat)) (f : Bytes) (h : wb.buffer = [] ∨ offset = wb.offset + wb.buffer.length) :
    pending (append now data offset wb) cs f = writeAt (pending wb cs f) data offset := by
  by_cases hb : wb.buffer = []
  · simp [pending, append, hb]
  · obtain rfl := h.resolve_left hb
    simp [pending, append, hb, writeAt_append]

theorem applyWrites_cons (op : Op) (ops : List Op) (f : Bytes) :
    applyWrites (op :: ops) f = applyWrites ops (applyWrites [op] f) := by
  cases op <;> rfl

theorem step_pending (op : Op) (wb : WriteBuffer) (cs : List (Bytes × Nat)) (f : Bytes)
    (h : continues wb op = true) :
    pending (step recordCalls op wb cs).2.1 (step recordCalls op wb cs).2.2 f =
      applyWrites [op] (pending wb cs f) := by
  cases op with
  | setConfig config => rfl
  | flush => simp [step, flush, flushLocked_recordCalls, pending, applyCalls_flush, applyWrites]
  | write now data offset =>
    simp only [continues, Bool.or_eq_true, List.isEmpty_iff, beq_iff_eq] at h
    simp only [step, write, applyWrites]
    split
    · rcases h with hb | rfl
      · simp [callback, recordCalls, pending, hb]
      · simp [callback, recordCalls, pending, writeAt_swap, writeAt_append]
    split
    · rw [flushLocked_of_pos, flushLocked_recordCalls]
      simp [ifNil, callback, recordCalls, pending, applyCalls_flush]
    obtain ⟨wb₁, cs₁, e₁, p₁, h₁⟩ := flushIf_recordCalls (0 < wb.buffer.length ∧
      wb.config.timeout < (now : Int) - wb.lastWriteTime) wb cs
    rw [e₁, ifNil]
    obtain ⟨wb₂, cs₂, e₂, p₂, h₂⟩ := flushIf_recordCalls (wb₁.config.maxSize <
      ((wb₁.buffer.length + data.length : Nat) : Int)) wb₁ cs₁
    rw [e₂, ifNil, pending_append, p₂, p₁]
    rcases h₂ with rfl | h₂
    · rcases h₁ with rfl | h₁
      · exact h
      · exact .inl h₁
    · exact .inl h₂

theorem run_pending (ops : List Op) (wb : WriteBuffer) (cs : List (Bytes × Nat)) (f : Bytes)
    (h : sequential recordCalls ops wb cs = true) :
    pending (run recordCalls ops wb cs).1 (run recordCalls ops wb cs).2 f =
      applyWrites ops (pending wb cs f) := by
  induction ops generalizing wb cs with
  | nil => rfl
  | cons op ops ih =>
    simp only [sequential, Bool.and_eq_true] at h
    rw [run, ih _ _ h.2, step_pending op wb cs f h.1, ← applyWrites_cons]

theorem run_append {σ : Type} (cb : Bytes → Nat → σ → Option String × σ) (ops ops' : List Op)
    (wb : WriteBuffer) (w : σ) :
    run cb (ops ++ ops') wb w = run cb ops' (run cb ops wb w).1 (run cb ops wb w).2 := by
  induction ops generalizing wb w with
  | nil => rfl
  | cons op ops ih => exact ih _ _

theorem applyWrites_append (ops ops' : List Op) (f : Bytes) :
    applyWrites (ops ++ ops') f = applyWrites ops' (applyWrites ops f) := by
  induction ops generalizing f with
  | nil => rfl
  | cons op ops ih => rw [List.cons_append, applyWrites_cons, ih, ← applyWrites_cons]

/-- Sequential writes are coalesced faithfully: from an empty buffer, a run
that ends with `Flush` and in which every write continues what the buffer
holds makes calls that, applied in order to any file, build the file the
writes build, whatever the configurations and clock readings. -/
theorem run_sequential (config : Option CoalesceConfig)
    (hcap : 0 ≤ (config.getD defaultConfig).maxSize ∧ (config.getD defaultConfig).maxSize ≤ maxAlloc)
    (ops : List Op) (f : Bytes) (h : sequential recordCalls (ops ++ [.flush]) (newWriteBuffer config hcap) [] = true) :
    applyCalls (run recordCalls (ops ++ [.flush]) (newWriteBuffer config hcap) []).2 f =
      applyWrites ops f := by
  have hp := run_pending _ _ _ f h
  rw [run_append, applyWrites_append] at hp
  rw [run_append]
  simpa [run, step, flush, flushLocked_recordCalls, pending, applyCalls_flush, applyWrites,
    newWriteBuffer] using hp

/-- Two one-byte writes, the second where the first ends and made after
coalescing is switched off, so that it reaches the callback first. -/
theorem run_sequential_adjacent :
    sequential recordCalls ([.write 0 [1] 0, .setConfig { defaultConfig with enabled := false },
        .write 0 [2] 1] ++ [.flush]) (newWriteBuffer none) [] = true ∧
      applyCalls (run recordCalls ([.write 0 [1] 0, .setConfig { defaultConfig with enabled := false },
          .write 0 [2] 1] ++ [.flush]) (newWriteBuffer none) []).2 [] =
        applyWrites [.write 0 [1] 0, .setConfig { defaultConfig with enabled := false }, .write 0 [2] 1] [] :=
  ⟨by decide, run_sequential none (by decide) _ [] (by decide)⟩

end WriteBuffer

/-- Two one-byte writes at offsets 0 and 10, with the default configuration and
one clock reading, then `Flush`: the buffer makes the single call
`([1, 2], 0)`, which puts the second byte at offset 1, not 10. -/
theorem flush_misplaces_gapped_write :
    (WriteBuffer.run recordCalls [.write 0 [1] 0, .write 0 [2] 10, .flush] (newWriteBuffer none)
        []).2 = [([1, 2], 0)] ∧
      applyCalls [([1, 2], 0)] [] = [1, 2] ∧
      applyWrites [.write 0 [1] 0, .write 0 [2] 10, .flush] [] = [1, 0, 0, 0, 0, 0, 0, 0, 0, 0, 2] := by
  decide

end Gocryptfs
