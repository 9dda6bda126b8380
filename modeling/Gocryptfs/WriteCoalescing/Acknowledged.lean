import Gocryptfs.WriteCoalescing.Manager
/-!
# `Gocryptfs.WriteCoalescing.Acknowledged` — when an acknowledged write is kept

`Gocryptfs.WriteCoalescing.Manager` ends with two runs that lose a write
after `Write` returned nil: a failing `FlushCallback`, and a `Close` that
deletes the buffer a `Write` in flight has looked up.  This module shows
that these are the only two ways: when every callback call returns nil and
no goroutine calls `Close`, every acknowledged write is kept, under every
interleaving of the callers.

A piece of data is *held* for a file when it is within the file's buffer, or
within a call of the file's callback that returned nil (`Held`).  A call on a
buffer *keeps* when the callback's calls only grow and what was held is held
after (`Keeps`): `flushLocked` moves the buffer into a call, and `Write`
appends to the buffer or hands the data to a call.

**Proved here.**

    flushLocked and Write keep, with a callback that returns nil   (`flushLocked_keeps`, `write_keeps`)
    Write holds its own data                                      (`write_keeps`)
    the invariant `Kept` holds along every run                    (`Kept.step`, `Kept.run`)
    every acknowledged write is held for its file                 (`run_acked_held`)
-/

namespace Gocryptfs

/-- `x` is held for file `fid`: within the buffer, or within a call of `fid`'s
callback that returned nil. -/
def Held (fid : String) (x : Bytes) (wb : WriteBuffer) (calls : List FlushCall) : Prop :=
  x <:+: wb.buffer ∨ ∃ c ∈ calls, c.fileID = fid ∧ c.err = none ∧ x <:+: c.data

/-- A call on file `fid`'s buffer keeps what it held: the callback's calls only
grow, and what was held is held after. -/
def Keeps (fid : String) (wb : WriteBuffer) (calls : List FlushCall) (wb' : WriteBuffer)
    (calls' : List FlushCall) : Prop :=
  calls <+: calls' ∧ ∀ x, Held fid x wb calls → Held fid x wb' calls'

theorem Held.of_prefix {fid : String} {x : Bytes} {wb : WriteBuffer} {calls calls' : List FlushCall}
    (h : Held fid x wb calls) (hp : calls <+: calls') : Held fid x wb calls' :=
  h.imp_right fun ⟨c, hc, hc'⟩ => ⟨c, hp.subset hc, hc'⟩

theorem held_call (fid : String) (x : Bytes) (wb : WriteBuffer) (calls : List FlushCall)
    (offset : Nat) : Held fid x wb (calls ++ [⟨fid, x, offset, none⟩]) :=
  .inr ⟨_, List.mem_append_right _ (List.mem_singleton_self _), rfl, rfl, List.infix_refl x⟩

namespace Keeps

variable {fid : String} {wb wb₁ wb₂ : WriteBuffer} {calls calls₁ calls₂ : List FlushCall}

theorem refl (fid : String) (wb : WriteBuffer) (calls : List FlushCall) :
    Keeps fid wb calls wb calls :=
  ⟨List.prefix_refl _, fun _ h => h⟩

theorem trans (h₁ : Keeps fid wb calls wb₁ calls₁) (h₂ : Keeps fid wb₁ calls₁ wb₂ calls₂) :
    Keeps fid wb calls wb₂ calls₂ :=
  ⟨h₁.1.trans h₂.1, fun x h => h₂.2 x (h₁.2 x h)⟩

theorem call (fid : String) (wb : WriteBuffer) (calls : List FlushCall) (data : Bytes)
    (offset : Nat) : Keeps fid wb calls wb (calls ++ [⟨fid, data, offset, none⟩]) :=
  ⟨List.prefix_append _ _, fun _ h => h.of_prefix (List.prefix_append _ _)⟩

end Keeps

namespace WriteBuffer

variable (fid : String) (wb : WriteBuffer) (calls : List FlushCall)

/-- `flushLocked` moves the buffer into a call. -/
theorem flushLocked_keeps :
    ∃ wb' calls', flushLocked (managerCallback (fun _ => none) fid) wb calls = (none, wb', calls') ∧
      Keeps fid wb calls wb' calls' := by
  unfold flushLocked
  split
  · exact ⟨wb, calls, rfl, Keeps.refl fid wb calls⟩
  · refine ⟨_, _, rfl, List.prefix_append _ _, fun x h => ?_⟩
    rcases h with h | ⟨c, hc, hc'⟩
    · exact .inr ⟨_, List.mem_append_right _ (List.mem_singleton_self _), rfl, rfl, h⟩
    · exact .inr ⟨c, List.mem_append_left _ hc, hc'⟩

theorem flushIf_keeps (c : Prop) [Decidable c] :
    ∃ wb' calls', (if c then flushLocked (managerCallback (fun _ => none) fid) wb calls else (none, wb, calls)) =
      (none, wb', calls') ∧ Keeps fid wb calls wb' calls' := by
  split
  · exact flushLocked_keeps fid wb calls
  · exact ⟨wb, calls, rfl, Keeps.refl fid wb calls⟩

theorem write_keeps (now : Nat) (data : Bytes) (offset : Nat) :
    ∃ wb' calls', write (managerCallback (fun _ => none) fid) now data offset wb calls = (none, wb', calls') ∧
      Keeps fid wb calls wb' calls' ∧ Held fid data wb' calls' := by
  unfold write
  split
  · exact ⟨_, _, rfl, Keeps.call fid wb calls data offset, held_call fid data wb calls offset⟩
  split
  · obtain ⟨wb₁, calls₁, e₁, k₁⟩ := flushIf_keeps fid wb calls (0 < wb.buffer.length)
    rw [e₁, ifNil]
    exact ⟨_, _, rfl, k₁.trans (Keeps.call fid wb₁ calls₁ data offset),
      held_call fid data wb₁ calls₁ offset⟩
  obtain ⟨wb₁, calls₁, e₁, k₁⟩ := flushIf_keeps fid wb calls
    (0 < wb.buffer.length ∧ wb.config.timeout < (now : Int) - wb.lastWriteTime)
  rw [e₁, ifNil]
  obtain ⟨wb₂, calls₂, e₂, k₂⟩ := flushIf_keeps fid wb₁ calls₁
    (wb₁.config.maxSize < ((wb₁.buffer.length + data.length : Nat) : Int))
  rw [e₂, ifNil]
  refine ⟨_, _, rfl, k₁.trans (k₂.trans ⟨List.prefix_refl _, fun x h => ?_⟩),
    .inl (List.suffix_append wb₂.buffer data).isInfix⟩
  exact h.imp_left fun h => h.trans (List.prefix_append wb₂.buffer data).isInfix

end WriteBuffer

/-! ## The map, the heap and the calls

`StoreKept` is what the manager's data keeps for the acknowledged writes:
each map entry points at a buffer made for its own file, and each
acknowledged write is held for its file at a buffer the map points at.  A
call on one buffer that keeps keeps `StoreKept` (`StoreKept.set`), and so
does `GetBuffer`, which only adds. -/

/-- Whether a goroutine is in `Close`. -/
def Caller.closing : Caller → Bool
  | .close _ | .closeFrom _ _ => true
  | _ => false

/-- A goroutine about to call `Write`, `Flush` or `FlushAll`. -/
def Caller.entry : Caller → Bool
  | .write .. | .flush _ | .flushAll _ => true
  | _ => false

theorem Caller.closing_of_entry {c : Caller} (h : c.entry = true) : c.closing = false := by
  cases c <;> first | rfl | cases h

namespace WriteBufferManager

/-- What the manager's data keeps for the acknowledged writes `acked`. -/
structure StoreKept (wbm : WriteBufferManager) (calls : List FlushCall)
    (acked : List (String × Bytes)) : Prop where
  heap_ids : ∀ e ∈ wbm.buffers, ∃ wb, wbm.heap[e.2]? = some (e.1, wb)
  acked_held : ∀ a ∈ acked, ∃ ptr wb, (a.1, ptr) ∈ wbm.buffers ∧
    wbm.heap[ptr]? = some (a.1, wb) ∧ Held a.1 a.2 wb calls

variable {wbm : WriteBufferManager} {calls : List FlushCall} {acked : List (String × Bytes)}

theorem onBuffer_of_some {reply : Nat → Option String} {ptr : Nat}
    {call : (Bytes → Nat → List FlushCall → Option String × List FlushCall) →
      WriteBuffer → List FlushCall → Option String × WriteBuffer × List FlushCall}
    {fid : String} {wb : WriteBuffer} (h : wbm.heap[ptr]? = some (fid, wb)) :
    wbm.onBuffer reply ptr call calls =
      ((call (managerCallback reply fid) wb calls).1,
        { wbm with heap := wbm.heap.set ptr (fid, (call (managerCallback reply fid) wb calls).2.1) },
        (call (managerCallback reply fid) wb calls).2.2) := by
  simp only [onBuffer, h]

theorem StoreKept.set (h : StoreKept wbm calls acked) {ptr : Nat} {fid : String}
    {wb wb' : WriteBuffer} {calls' : List FlushCall} (hp : wbm.heap[ptr]? = some (fid, wb))
    (hk : Keeps fid wb calls wb' calls') :
    StoreKept { wbm with heap := wbm.heap.set ptr (fid, wb') } calls' acked := by
  have hlt : ptr < wbm.heap.length := (List.getElem?_eq_some_iff.mp hp).1
  refine ⟨fun e he => ?_, fun a ha => ?_⟩
  · obtain ⟨wbe, hwe⟩ := h.heap_ids e he
    by_cases hpe : ptr = e.2
    · subst hpe
      obtain ⟨rfl, -⟩ := Prod.mk.inj (Option.some.inj (hp.symm.trans hwe))
      exact ⟨wb', List.getElem?_set_self hlt⟩
    · exact ⟨wbe, (List.getElem?_set_ne hpe).trans hwe⟩
  · obtain ⟨p, wba, hmem, hh, hheld⟩ := h.acked_held a ha
    by_cases hpp : ptr = p
    · subst hpp
      obtain ⟨rfl, rfl⟩ := Prod.mk.inj (Option.some.inj (hp.symm.trans hh))
      exact ⟨ptr, wb', hmem, List.getElem?_set_self hlt, hk.2 _ hheld⟩
    · exact ⟨p, wba, hmem, (List.getElem?_set_ne hpp).trans hh, hheld.of_prefix hk.1⟩

theorem onBuffer_buffers (reply : Nat → Option String) (ptr : Nat)
    (call : (Bytes → Nat → List FlushCall → Option String × List FlushCall) →
      WriteBuffer → List FlushCall → Option String × WriteBuffer × List FlushCall) :
    (wbm.onBuffer reply ptr call calls).2.1.buffers = wbm.buffers := by
  unfold onBuffer; split <;> rfl

theorem StoreKept.flush (h : StoreKept wbm calls acked) (ptr : Nat) :
    StoreKept (wbm.onBuffer (fun _ => none) ptr WriteBuffer.flush calls).2.1
      (wbm.onBuffer (fun _ => none) ptr WriteBuffer.flush calls).2.2 acked := by
  cases hp : wbm.heap[ptr]? with
  | none => simpa only [onBuffer, hp] using h
  | some e =>
    obtain ⟨fid, wb⟩ := e
    obtain ⟨wb', calls', he, hk⟩ := WriteBuffer.flushLocked_keeps fid wb calls
    rw [onBuffer_of_some hp]
    simpa only [WriteBuffer.flush, he] using h.set hp hk

theorem StoreKept.write (h : StoreKept wbm calls acked) {fid : String} {ptr : Nat}
    (hmem : (fid, ptr) ∈ wbm.buffers) (now : Nat) (data : Bytes) (offset : Nat) :
    ∃ wbm' calls', wbm.onBuffer (fun _ => none) ptr (fun cb => WriteBuffer.write cb now data offset)
      calls = (none, wbm', calls') ∧ StoreKept wbm' calls' (acked ++ [(fid, data)]) ∧
      wbm'.buffers = wbm.buffers := by
  obtain ⟨wb, hp⟩ := h.heap_ids _ hmem
  obtain ⟨wb', calls', he, hk, hd⟩ := WriteBuffer.write_keeps fid wb calls now data offset
  have hlt : ptr < wbm.heap.length := (List.getElem?_eq_some_iff.mp hp).1
  have hs := h.set hp hk
  refine ⟨_, calls', by rw [onBuffer_of_some hp, he], ⟨hs.heap_ids, fun a ha => ?_⟩, rfl⟩
  rcases List.mem_append.mp ha with ha | ha
  · exact hs.acked_held a ha
  · obtain rfl := List.mem_singleton.mp ha
    exact ⟨ptr, wb', hmem, List.getElem?_set_self hlt, hd⟩

theorem StoreKept.getBuffer (h : StoreKept wbm calls acked) {fid : String}
    {r : Nat × WriteBufferManager} (hr : wbm.getBuffer fid = .ok r) :
    StoreKept r.2 calls acked ∧ (∀ e ∈ wbm.buffers, e ∈ r.2.buffers) ∧ (fid, r.1) ∈ r.2.buffers := by
  unfold WriteBufferManager.getBuffer at hr
  split at hr
  · next ptr hl =>
    cases hr
    obtain ⟨l₁, l₂, hl, -⟩ := List.lookup_eq_some_iff.mp hl
    exact ⟨h, fun _ he => he, by simp [hl]⟩
  · split at hr
    case isFalse => cases hr
    next hcap =>
    cases hr
    have hkeep : ∀ {p : Nat} {x : String × WriteBuffer}, wbm.heap[p]? = some x →
        (wbm.heap ++ [(fid, newWriteBuffer (some wbm.config) hcap)])[p]? = some x := fun hp =>
      (List.getElem?_append_left (List.getElem?_eq_some_iff.mp hp).1).trans hp
    refine ⟨⟨fun e he => ?_, fun a ha => ?_⟩, fun e he => List.mem_append_left _ he,
      List.mem_append_right _ (List.mem_singleton_self _)⟩
    · rcases List.mem_append.mp he with he | he
      · obtain ⟨wbe, hwe⟩ := h.heap_ids e he
        exact ⟨wbe, hkeep hwe⟩
      · obtain rfl := List.mem_singleton.mp he
        exact ⟨_, List.getElem?_concat_length _ _⟩
    · obtain ⟨p, wba, hmem, hh, hheld⟩ := h.acked_held a ha
      exact ⟨p, wba, List.mem_append_left _ hmem, hkeep hh, hheld⟩

end WriteBufferManager

/-! ## Along every run

`Kept` adds to `StoreKept` what the goroutines need: a `Write` that has looked
up its buffer holds a pointer the map has for its file, and no goroutine is in
`Close`.  Every step keeps it (`Kept.step`), so every run does. -/

namespace System

/-- What every run without `Close`, and with a callback that returns nil, keeps. -/
structure Kept (s : System) : Prop where
  store : s.wbm.StoreKept s.calls s.acked
  writing : ∀ fid ptr now data offset, Caller.writeTo fid ptr now data offset ∈ s.callers →
    (fid, ptr) ∈ s.wbm.buffers
  no_close : ∀ c ∈ s.callers, c.closing = false

variable {s : System}

theorem Kept.setCaller (h : Kept s) (i : Nat) (c' : Caller) {wbm' : WriteBufferManager}
    {calls' : List FlushCall} {acked' : List (String × Bytes)}
    (hstore : wbm'.StoreKept calls' acked') (hsub : ∀ e ∈ s.wbm.buffers, e ∈ wbm'.buffers)
    (hw : ∀ fid ptr now data offset, c' = .writeTo fid ptr now data offset → (fid, ptr) ∈ wbm'.buffers)
    (hc : c'.closing = false) :
    Kept ({ s with wbm := wbm', calls := calls', acked := acked' }.setCaller i c') := by
  refine ⟨hstore, fun fid ptr now data offset hm => ?_, fun c hm => ?_⟩
  · rcases List.mem_or_eq_of_mem_set hm with hm | hm
    · exact hsub _ (h.writing fid ptr now data offset hm)
    · exact hw fid ptr now data offset hm.symm
  · rcases List.mem_or_eq_of_mem_set hm with hm | rfl
    · exact h.no_close c hm
    · exact hc

theorem Kept.advance (h : Kept s) (i : Nat) (c' : Caller)
    (hw : ∀ fid ptr now data offset, c' ≠ .writeTo fid ptr now data offset)
    (hc : c'.closing = false) : Kept (s.setCaller i c') :=
  h.setCaller i c' h.store (fun _ he => he) (fun _ _ _ _ _ he => absurd he (hw _ _ _ _ _)) hc

theorem Kept.step (h : Kept s) (i : Nat) : Kept (s.step (fun _ => none) i) := by
  have hclose : ∀ {c : Caller}, s.callers[i]? = some c → c.closing = true → False :=
    fun hi hc => by simpa [hc] using h.no_close _ (List.getElem?_mem hi)
  unfold System.step
  split
  · exact h
  split
  · exact h
  · exact h
  · next fid now data offset hi =>
    split
    · exact h
    split
    · next r hr =>
      obtain ⟨hs, hsub, hmem⟩ := h.store.getBuffer hr
      exact h.setCaller i _ hs hsub (fun _ _ _ _ _ he => by cases he; exact hmem) rfl
    · exact ⟨h.store, h.writing, h.no_close⟩
  · next fid ptr now data offset hi =>
    have hmem := h.writing fid ptr now data offset (List.getElem?_mem hi)
    obtain ⟨wbm', calls', he, hs, hb⟩ := h.store.write hmem now data offset
    simp only [he, if_true]
    exact h.setCaller i _ hs (fun e he => hb ▸ he) (fun _ _ _ _ _ => nofun) rfl
  · next fid hi =>
    split
    · exact h
    split <;> exact h.advance i _ (fun _ _ _ _ _ => nofun) rfl
  · next ptr hi =>
    exact h.setCaller i _ (h.store.flush ptr)
      (fun e he => (WriteBufferManager.onBuffer_buffers _ _ _).symm ▸ he) (fun _ _ _ _ _ => nofun) rfl
  · next order hi =>
    split
    · exact h
    · exact h.advance i _ (fun _ _ _ _ _ => nofun) rfl
  · exact h.advance i _ (fun _ _ _ _ _ => nofun) rfl
  · next ptr ptrs lastErr hi =>
    exact h.setCaller i _ (h.store.flush ptr)
      (fun e he => (WriteBufferManager.onBuffer_buffers _ _ _).symm ▸ he) (fun _ _ _ _ _ => nofun) rfl
  · next order hi => exact (hclose hi rfl).elim
  · next lastErr hi => exact (hclose hi rfl).elim
  · next fid ptr entries lastErr hi => exact (hclose hi rfl).elim

theorem Kept.run : ∀ (sched : List Nat) {s : System}, Kept s → Kept (s.run (fun _ => none) sched)
  | [], _, h => h
  | i :: sched, _, h => Kept.run sched (h.step i)

theorem kept_init (config : Option CoalesceConfig) {callers : List Caller}
    (hc : ∀ c ∈ callers, c.entry = true) : Kept (init config callers) := by
  refine ⟨⟨(fun _ he => nomatch he), (fun _ ha => nomatch ha)⟩, fun _ _ _ _ _ hm => ?_,
    fun c hm => ?_⟩
  · exact absurd (hc _ hm) Bool.false_ne_true
  · exact Caller.closing_of_entry (hc c hm)

end System

/-- With every `FlushCallback` call returning nil and no goroutine calling
`Close`, under every interleaving: every acknowledged write is held for its
file at a buffer the map points at — within the buffer, or within a call of
the file's callback that returned nil. -/
theorem run_acked_held (config : Option CoalesceConfig) {callers : List Caller}
    (hc : ∀ c ∈ callers, c.entry = true) (sched : List Nat) :
    (let s := System.run (fun _ => none) sched (System.init config callers)
    ∀ a ∈ s.acked, ∃ ptr wb, (a.1, ptr) ∈ s.wbm.buffers ∧ s.wbm.heap[ptr]? = some (a.1, wb) ∧
      Held a.1 a.2 wb s.calls) :=
  ((System.kept_init config hc).run sched).store.acked_held

theorem run_acked_held_write_flush :
    (let s := System.run (fun _ => none) [0, 1, 0, 1]
      (System.init none [.write "a" 0 [1] 0, .flush "a"])
    ∀ a ∈ s.acked, ∃ ptr wb, (a.1, ptr) ∈ s.wbm.buffers ∧ s.wbm.heap[ptr]? = some (a.1, wb) ∧
      Held a.1 a.2 wb s.calls) :=
  @run_acked_held none [.write "a" 0 [1] 0, .flush "a"] (by decide) [0, 1, 0, 1]

end Gocryptfs
