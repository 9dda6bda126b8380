import Gocryptfs.Cryptocore.AdaptivePrefetch
import Mathlib.Data.List.GetD
/-!
# `Gocryptfs.Cryptocore.PrefetchPanic` — when `AdaptivePrefetcher.Read` panics

`Read` has two `log.Panicf` calls, both after it took a chunk from the
`refill` channel: the size check, and "could not satisfy read" for a chunk
shorter than `want`.  A run can also panic by closing `stop` twice.  This
module says which of these any run can reach, over the system of
`Gocryptfs.Cryptocore.AdaptivePrefetch`.

Every `want` below is at most `MinPrefetchSize`, the reads the prefetcher is
for.  The size is clamped to `[MinPrefetchSize, MaxPrefetchSize]` by
`SetPrefetchSize` and by `adjustPrefetchSize`, so a chunk that passes the size
check is long enough for any such `want`.

**Proved here.**

    the size stays in [MinPrefetchSize, MaxPrefetchSize]            (`Sound.size_ge`, `Sound.size_le`)
    the only panics: the size check, a second Close                  (`run_panic_sizeCheck_or_close`)
    with no resize in the run: every queued chunk has the current
    size, and the only panic is a second Close                       (`run_panic_close`)

The size check does fail when the size changes while a chunk is queued
(`Gocryptfs.Cryptocore.AdaptivePrefetch` ends with such a run); the last
result says that a resize is the only way to reach it.
-/

namespace Gocryptfs

/-- Whether an event can change `prefetchSize`. -/
def PrefetchEvent.resizes : PrefetchEvent → Bool
  | .setPrefetchSize _ | .adjustPrefetchSize _ => true
  | _ => false

/-- Call `c` goes with a `Read(want)`: in progress with that `want`, or
returned `want` labels. -/
def ReadCall.Serves (want : Nat) : ReadCall → Prop
  | .start w | .lock w | .recv w | .check w _ => w = want
  | .returned out => out.length = want

/-- The chunk a call holds. -/
def ReadCall.chunks : ReadCall → List (List Label)
  | .check _ fresh => [fresh]
  | _ => []

/-- The chunk the worker holds. -/
def RefillWorker.chunks : RefillWorker → List (List Label)
  | .sending chunk => [chunk]
  | _ => []

/-- The message of the size check's panic. -/
def sizeCheckPanic (got : Nat) (size : Int) : String :=
  "AdaptivePrefetcher: refill: got " ++ toString got ++ " bytes instead of " ++ toString size

/-- The panics a run whose reads are all small can end in. -/
def SizeCheckOrClose : Option String → Prop
  | none => True
  | some msg => msg = "close of closed channel" ∨ ∃ got size, msg = sizeCheckPanic got size

theorem mem_flatMap_set {α β : Type} {f : α → List β} {l : List α} {i : Nat} {a : α} {x : β}
    (h : x ∈ (l.set i a).flatMap f) : x ∈ l.flatMap f ∨ x ∈ f a := by
  obtain ⟨y, hy, hx⟩ := List.mem_flatMap.mp h
  rcases List.mem_or_eq_of_mem_set hy with hy | rfl
  · exact .inl (List.mem_flatMap.mpr ⟨y, hy, hx⟩)
  · exact .inr hx

theorem getElem?_set_eq_some {α : Type} {l : List α} {i j : Nat} {a c : α}
    (h : (l.set i a)[j]? = some c) : (j = i ∧ c = a) ∨ l[j]? = some c := by
  rw [List.getElem?_set] at h
  split_ifs at h with hij
  · exact .inl ⟨hij.symm, (Option.some.inj h).symm⟩
  · exact .inr h

namespace AdaptivePrefetcher

theorem setPrefetchSize_bounds (ap : AdaptivePrefetcher) (size : Int) :
    minPrefetchSize ≤ (ap.setPrefetchSize size).prefetchSize ∧
      (ap.setPrefetchSize size).prefetchSize ≤ maxPrefetchSize := by
  simp only [setPrefetchSize, minPrefetchSize, maxPrefetchSize]
  split_ifs <;> omega

theorem newSize_bounds {size : Int} (h₁ : minPrefetchSize ≤ size) (h₂ : size ≤ maxPrefetchSize)
    (up down : Prop) [Decidable up] [Decidable down] :
    let newSize := if up then (if size * 2 > maxPrefetchSize then maxPrefetchSize else size * 2)
      else if down then (if size / 2 < minPrefetchSize then minPrefetchSize else size / 2) else size
    minPrefetchSize ≤ newSize ∧ newSize ≤ maxPrefetchSize := by
  simp only [minPrefetchSize, maxPrefetchSize] at h₁ h₂ ⊢
  split_ifs <;> omega

theorem ite_bounds {p : Prop} [Decidable p] {a b lo hi : Int} (ha : lo ≤ a ∧ a ≤ hi)
    (hb : lo ≤ b ∧ b ≤ hi) : lo ≤ (if p then a else b) ∧ (if p then a else b) ≤ hi := by
  split <;> assumption

theorem adjustPrefetchSize_bounds (ap : AdaptivePrefetcher) (now : Nat)
    (h₁ : minPrefetchSize ≤ ap.prefetchSize) (h₂ : ap.prefetchSize ≤ maxPrefetchSize) :
    minPrefetchSize ≤ (ap.adjustPrefetchSize now).prefetchSize ∧
      (ap.adjustPrefetchSize now).prefetchSize ≤ maxPrefetchSize := by
  simp only [adjustPrefetchSize, apply_ite AdaptivePrefetcher.prefetchSize]
  exact ite_bounds ⟨h₁, h₂⟩ (ite_bounds ⟨h₁, h₂⟩ (ite_bounds (newSize_bounds h₁ h₂ _ _) ⟨h₁, h₂⟩))

end AdaptivePrefetcher

namespace PrefetchSystem

/-- Every chunk in the system: in the channel, the worker's, the calls'. -/
def chunks (s : PrefetchSystem) : List (List Label) :=
  s.ap.refill ++ s.worker.chunks ++ s.reads.flatMap ReadCall.chunks

/-! ## What one step can do

The worker and the calls other than `Read` leave the calls and the panic
alone; a `Read` step leaves the size alone, moves call `i` on to a state that
serves the same `want`, passes chunks on without making any, and panics only
at the two checks of a call that holds a chunk (`readStep_panic`). -/

variable (s : PrefetchSystem) (i : Nat)

@[simp] theorem workerStep_prefetchSize : s.workerStep.ap.prefetchSize = s.ap.prefetchSize := by
  unfold workerStep; split <;> (try split) <;> rfl

@[simp] theorem workerStep_reads : s.workerStep.reads = s.reads := by
  unfold workerStep; split <;> (try split) <;> rfl

@[simp] theorem workerStep_panic : s.workerStep.panic = s.panic := by
  unfold workerStep; split <;> (try split) <;> rfl

theorem workerStep_chunks {c : List Label} (h : c ∈ s.workerStep.chunks) :
    c ∈ s.chunks ∨ c = randBytes s.drawn s.ap.prefetchSize.toNat := by
  unfold workerStep at h
  split at h
  all_goals (try split at h)
  all_goals
    simp only [chunks, RefillWorker.chunks, List.mem_append, List.mem_singleton,
      List.not_mem_nil, or_false, *] at h ⊢
  all_goals first | exact .inl h | rcases h with (h | h) | h <;> simp only [h, true_or, or_true]

@[simp] theorem readStep_prefetchSize : (s.readStep i).ap.prefetchSize = s.ap.prefetchSize := by
  unfold readStep; split <;> (try split) <;> (try split) <;> rfl

theorem readStep_reads :
    (s.readStep i).reads = s.reads ∨ ∃ c c', s.reads[i]? = some c ∧
      (∀ w, c.Serves w → c'.Serves w) ∧ (s.readStep i).reads = s.reads.set i c' := by
  unfold readStep
  split
  · next want h => exact .inr ⟨_, .lock want, h, fun _ h => h, rfl⟩
  · next want h =>
    split
    · exact .inl rfl
    split
    · next hw =>
      refine .inr ⟨_, .returned (s.ap.buf.take want), h, fun w hs => ?_, rfl⟩
      simp only [ReadCall.Serves, List.length_take] at hs ⊢
      omega
    · exact .inr ⟨_, .recv want, h, fun _ h => h, rfl⟩
  · next want h =>
    split
    · exact .inl rfl
    · next fresh _ _ => exact .inr ⟨_, .check want fresh, h, fun _ h => h, rfl⟩
  · next want fresh h =>
    split
    · exact .inl rfl
    split
    · next hw =>
      refine .inr ⟨_, .returned (fresh.take want), h, fun w hs => ?_, rfl⟩
      simp only [ReadCall.Serves, List.length_take] at hs ⊢
      omega
    · exact .inl rfl
  · exact .inl rfl

theorem readStep_panic :
    (s.readStep i).panic = s.panic ∨ ∃ w fresh, s.reads[i]? = some (.check w fresh) ∧
      (((fresh.length : Int) ≠ s.ap.prefetchSize ∧
          (s.readStep i).panic = some (sizeCheckPanic fresh.length s.ap.prefetchSize)) ∨
        ((fresh.length : Int) = s.ap.prefetchSize ∧ fresh.length < w)) := by
  unfold readStep
  split
  · exact .inl rfl
  · split
    · exact .inl rfl
    split <;> exact .inl rfl
  · split <;> exact .inl rfl
  · next want fresh h =>
    split
    · next hne => exact .inr ⟨want, fresh, h, .inl ⟨hne, rfl⟩⟩
    split
    · exact .inl rfl
    · next hne hlt => exact .inr ⟨want, fresh, h, .inr ⟨not_not.mp hne, by omega⟩⟩
  · exact .inl rfl

theorem mem_chunks_of_mem_refill {c : List Label} (h : c ∈ s.ap.refill) : c ∈ s.chunks := by
  simp [chunks, h]

theorem mem_chunks_of_check {w : Nat} {fresh : List Label} (h : s.reads[i]? = some (.check w fresh)) :
    fresh ∈ s.chunks := by
  have hm : ReadCall.check w fresh ∈ s.reads := List.getElem?_mem h
  simp only [chunks, List.mem_append, List.mem_flatMap]
  exact .inr ⟨_, hm, List.mem_singleton_self _⟩

theorem chunks_setRead {ap' : AdaptivePrefetcher} {c' : ReadCall}
    (hr : ∀ x ∈ ap'.refill, x ∈ s.chunks) (hc : c'.chunks = []) :
    ∀ x ∈ ({ s with ap := ap' }.setRead i c').chunks, x ∈ s.chunks := by
  intro x hx
  simp only [chunks, setRead, List.mem_append] at hx
  rcases hx with (hx | hx) | hx
  · exact hr x hx
  · simp [chunks, hx]
  · rcases mem_flatMap_set hx with hx | hx
    · simp [chunks, hx]
    · simp [hc] at hx

theorem readStep_chunks : ∀ x ∈ (s.readStep i).chunks, x ∈ s.chunks := by
  unfold readStep
  split
  · exact chunks_setRead s i (fun x hx => mem_chunks_of_mem_refill s (by split at hx <;> exact hx)) rfl
  · split
    · exact fun x hx => hx
    split
    · exact chunks_setRead s i (fun x hx => mem_chunks_of_mem_refill s hx) rfl
    · exact chunks_setRead s i (fun x hx => mem_chunks_of_mem_refill s hx) rfl
  · split
    · exact fun x hx => hx
    · next fresh rest hr =>
      intro x hx
      simp only [chunks, setRead, List.mem_append] at hx
      rcases hx with (hx | hx) | hx
      · exact mem_chunks_of_mem_refill s (by simp [hr, hx])
      · simp [chunks, hx]
      · rcases mem_flatMap_set hx with hx | hx
        · simp [chunks, hx]
        · simp only [ReadCall.chunks, List.mem_singleton] at hx
          exact mem_chunks_of_mem_refill s (by simp [hr, hx])
  · split
    · exact fun x hx => hx
    split
    · exact chunks_setRead s i (fun x hx => mem_chunks_of_mem_refill s hx) rfl
    · exact fun x hx => hx
  · exact fun x hx => hx

/-! ## Over every run

`Sound` holds of every state any run reaches: the size stays clamped and
every call serves its `want`.  With every `want` at most `MinPrefetchSize`,
`SizeCheckOrClose` holds too, since a chunk that passes the size check is
then long enough.  `Steady` is what a run without resizes keeps: every chunk
has the current size, so the size check never fails. -/

/-- What every run keeps. -/
structure Sound (wants : List Nat) (s : PrefetchSystem) : Prop where
  size_ge : minPrefetchSize ≤ s.ap.prefetchSize
  size_le : s.ap.prefetchSize ≤ maxPrefetchSize
  serves : ∀ (i : Nat) (c : ReadCall), s.reads[i]? = some c → c.Serves (wants.getD i 0)

/-- What every run without resizes keeps, when the reads are small. -/
structure Steady (s : PrefetchSystem) : Prop where
  chunks_sized : ∀ c ∈ s.chunks, (c.length : Int) = s.ap.prefetchSize
  panic : s.panic = none ∨ s.panic = some "close of closed channel"

variable {wants : List Nat} {s}

theorem Sound.step (h : Sound wants s) (e : PrefetchEvent) : Sound wants (s.step e) := by
  unfold PrefetchSystem.step
  split
  · exact h
  cases e with
  | worker => exact ⟨by simpa using h.size_ge, by simpa using h.size_le, by simpa using h.serves⟩
  | read i =>
    refine ⟨by simpa using h.size_ge, by simpa using h.size_le, fun j c' hj => ?_⟩
    rcases readStep_reads s i with hr | ⟨c, c'', hc, hs, hr⟩
    · exact h.serves j c' (hr ▸ hj)
    · rcases getElem?_set_eq_some (hr ▸ hj) with ⟨rfl, rfl⟩ | hj
      · exact hs _ (h.serves _ _ hc)
      · exact h.serves j c' hj
  | setPrefetchSize size =>
    exact ⟨(s.ap.setPrefetchSize_bounds size).1, (s.ap.setPrefetchSize_bounds size).2, h.serves⟩
  | adjustPrefetchSize now =>
    have hb := s.ap.adjustPrefetchSize_bounds now h.size_ge h.size_le
    exact ⟨hb.1, hb.2, h.serves⟩
  | enableProfiling enabled => dsimp only; split <;> exact ⟨h.size_ge, h.size_le, h.serves⟩
  | close => dsimp only; split <;> exact ⟨h.size_ge, h.size_le, h.serves⟩

theorem Sound.run : ∀ (es : List PrefetchEvent) {s : PrefetchSystem}, Sound wants s →
    Sound wants (run es s)
  | [], _, h => h
  | e :: es, _, h => Sound.run es (h.step e)

theorem sound_init (wants : List Nat) : Sound wants (init wants) := by
  refine ⟨(by decide : minPrefetchSize ≤ defaultPrefetchSize),
    (by decide : defaultPrefetchSize ≤ maxPrefetchSize), fun i c h => ?_⟩
  simp only [init, List.getElem?_map, Option.map_eq_some'] at h
  obtain ⟨w, hw, rfl⟩ := h
  simp [ReadCall.Serves, List.getD_eq_getElem?_getD, hw]

section SmallReads

variable (hw : ∀ w ∈ wants, (w : Int) ≤ minPrefetchSize)
include hw

theorem want_le (i : Nat) : (wants.getD i 0 : Int) ≤ minPrefetchSize := by
  rcases Nat.lt_or_ge i wants.length with hi | hi
  · rw [List.getD_eq_getElem _ _ hi]
    exact hw _ (List.getElem_mem _)
  · rw [List.getD_eq_default _ _ hi]
    decide

theorem not_short_of_sized (h : Sound wants s) {i w : Nat} {fresh : List Label}
    (hc : s.reads[i]? = some (.check w fresh)) (hsize : (fresh.length : Int) = s.ap.prefetchSize) :
    ¬fresh.length < w := by
  have hwant : w = wants.getD i 0 := h.serves i _ hc
  have := want_le hw i
  have := h.size_ge
  omega

theorem step_sizeCheckOrClose (h : Sound wants s) (hp : SizeCheckOrClose s.panic)
    (e : PrefetchEvent) : SizeCheckOrClose (s.step e).panic := by
  unfold PrefetchSystem.step
  split
  · exact hp
  cases e with
  | worker => simpa using hp
  | read i =>
    rcases readStep_panic s i with hr | ⟨w, fresh, hc, ⟨-, hr⟩ | ⟨hsize, hlt⟩⟩
    · exact hr ▸ hp
    · rw [hr]
      exact .inr ⟨_, _, rfl⟩
    · exact absurd hlt (not_short_of_sized hw h hc hsize)
  | close => dsimp only; split; exacts [.inl rfl, hp]
  | enableProfiling enabled => dsimp only; split <;> exact hp
  | _ => exact hp

theorem run_sizeCheckOrClose : ∀ (es : List PrefetchEvent) {s : PrefetchSystem},
    Sound wants s → SizeCheckOrClose s.panic → SizeCheckOrClose (run es s).panic
  | [], _, _, hp => hp
  | e :: es, _, h, hp => run_sizeCheckOrClose es (h.step e) (step_sizeCheckOrClose hw h hp e)

theorem Steady.step (h : Sound wants s) (hs : Steady s) {e : PrefetchEvent}
    (he : e.resizes = false) : Steady (s.step e) := by
  unfold PrefetchSystem.step
  split
  · exact hs
  cases e with
  | worker =>
    refine ⟨fun c hc => ?_, by simpa using hs.panic⟩
    rw [workerStep_prefetchSize]
    rcases workerStep_chunks s hc with hc | rfl
    · exact hs.chunks_sized c hc
    · have := h.size_ge
      simp only [randBytes, List.length_map, List.length_range]
      rw [Int.toNat_of_nonneg (by simp only [minPrefetchSize] at this; omega)]
  | read i =>
    refine ⟨fun c hc => by simpa using hs.chunks_sized c (readStep_chunks s i c hc), ?_⟩
    rcases readStep_panic s i with hr | ⟨w, fresh, hc, ⟨hne, -⟩ | ⟨hsize, hlt⟩⟩
    · exact hr ▸ hs.panic
    · exact absurd (hs.chunks_sized _ (mem_chunks_of_check s i hc)) hne
    · exact absurd hlt (not_short_of_sized hw h hc hsize)
  | setPrefetchSize => simp [PrefetchEvent.resizes] at he
  | adjustPrefetchSize => simp [PrefetchEvent.resizes] at he
  | enableProfiling enabled => dsimp only; split; exacts [hs, ⟨hs.chunks_sized, hs.panic⟩]
  | close => dsimp only; split; exacts [⟨hs.chunks_sized, .inr rfl⟩, ⟨hs.chunks_sized, hs.panic⟩]

theorem Steady.run : ∀ (es : List PrefetchEvent) {s : PrefetchSystem}, Sound wants s → Steady s →
    (∀ e ∈ es, e.resizes = false) → Steady (run es s)
  | [], _, _, hs, _ => hs
  | e :: es, _, h, hs, hes =>
    Steady.run es (h.step e) (hs.step hw h (hes e (List.mem_cons_self e es)))
      fun e' he' => hes e' (List.mem_cons_of_mem e he')

end SmallReads

theorem init_chunks (wants : List Nat) : (init wants).chunks = [] := by
  simp [chunks, init, RefillWorker.chunks, newAdaptivePrefetcher, List.flatMap_eq_nil_iff,
    ReadCall.chunks]

end PrefetchSystem

open PrefetchSystem

/-- With every `want` at most `MinPrefetchSize`, a run panics, if at all, at
the size check or at a second `Close`: "could not satisfy read" is never
reached. -/
theorem run_panic_sizeCheck_or_close {wants : List Nat}
    (hw : ∀ w ∈ wants, (w : Int) ≤ minPrefetchSize) (es : List PrefetchEvent) :
    SizeCheckOrClose (run es (init wants)).panic :=
  run_sizeCheckOrClose hw es (sound_init wants) trivial

theorem run_panic_sizeCheck_or_close_resize :
    (∀ w ∈ [16], (w : Int) ≤ minPrefetchSize) ∧
      SizeCheckOrClose (run [.worker, .setPrefetchSize 4096, .read 0, .close, .close] (init [16])).panic :=
  ⟨by decide, run_panic_sizeCheck_or_close (by decide) _⟩

/-- With every `want` at most `MinPrefetchSize` and no resize in the run, every
chunk has the current size, and a run panics, if at all, at a second `Close`. -/
theorem run_panic_close {wants : List Nat} (hw : ∀ w ∈ wants, (w : Int) ≤ minPrefetchSize)
    (es : List PrefetchEvent) (hes : ∀ e ∈ es, e.resizes = false) :
    (∀ c ∈ (run es (init wants)).chunks, (c.length : Int) = (run es (init wants)).ap.prefetchSize) ∧
      ((run es (init wants)).panic = none ∨
        (run es (init wants)).panic = some "close of closed channel") :=
  let h := Steady.run hw es (sound_init wants)
    ⟨fun c hc => by simp [init_chunks] at hc, .inl rfl⟩ hes
  ⟨h.chunks_sized, h.panic⟩

theorem run_panic_close_two_reads :
    (∀ w ∈ [16, 256], (w : Int) ≤ minPrefetchSize) ∧
      (∀ e ∈ [PrefetchEvent.worker, .read 0, .worker, .read 1, .close], e.resizes = false) ∧
      (∀ c ∈ (run [.worker, .read 0, .worker, .read 1, .close] (init [16, 256])).chunks,
        (c.length : Int) = (run [.worker, .read 0, .worker, .read 1, .close] (init [16, 256])).ap.prefetchSize) ∧
      ((run [.worker, .read 0, .worker, .read 1, .close] (init [16, 256])).panic = none ∨
        (run [.worker, .read 0, .worker, .read 1, .close] (init [16, 256])).panic =
          some "close of closed channel") :=
  ⟨by decide, by decide, run_panic_close (by decide) _ (by decide)⟩

end Gocryptfs
