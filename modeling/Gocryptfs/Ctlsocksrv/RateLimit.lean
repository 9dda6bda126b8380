import Gocryptfs.Basic
import Mathlib.Logic.Function.Basic
/-!
# `Gocryptfs.Ctlsocksrv.RateLimit` — the control socket's per-client rate limit

`internal/ctlsocksrv`.  Before it serves a request, the control socket
handler calls `checkRateLimit(clientID)`.  The handler keeps one entry per
client: the time of the client's last accepted request and a count.  A call
is accepted, and the count starts again at one, when the client is new or its
last accepted request lies more than `rateLimitWindow` back.  Otherwise the
call is refused once the count has reached `maxRequestsPerMinute`, and
accepted with the count raised by one before that.  A refused call changes
nothing.  The handler holds `rateMutex` for the whole call, so a run of the
handler is a sequence of calls, each with the clock reading `time.Now()`
gives it.

The count restarts only after a gap measured from the last *accepted*
request, so a client's accepted requests fall into bursts.  A burst holds at
most `maxRequestsPerMinute` of them, and two bursts lie more than a window
apart.  So a closed interval of length `rateLimitWindow` meets only one burst,
and holds at most `maxRequestsPerMinute` accepted calls of any one client.
`Burst` is the invariant that says so for one entry.  `clientInv_step` shows
that one call keeps it, and `clientInv_serve` that a whole run does.

Times are nanoseconds, as Go's `time.Duration` counts them; `now.Sub` is
modelled as subtraction (it saturates only past 292 years).
-/

namespace Gocryptfs

/-- `maxRequestsPerMinute`. -/
def maxRequestsPerMinute : Nat := 60

/-- `rateLimitWindow`: `time.Minute`, in nanoseconds. -/
def rateLimitWindow : Int := 60 * 1000000000

theorem rateLimitWindow_pos : 0 < rateLimitWindow := by decide

/-- `rateLimitEntry`. -/
structure RateLimitEntry where
  lastRequest : Int
  requestCount : Nat
  deriving DecidableEq, Repr

/-- The handler's `rateLimiter` map; the rest of `ctlSockHandler` is not read
by `checkRateLimit`. -/
abbrev RateLimiter := String → Option RateLimitEntry

/-- `checkRateLimit(clientID)` at the clock reading `now`: its error, and the
map afterwards. -/
def checkRateLimit (rl : RateLimiter) (clientID : String) (now : Int) : Result Unit × RateLimiter :=
  match rl clientID with
  | none => (.ok (), Function.update rl clientID (some ⟨now, 1⟩))
  | some entry =>
    if now - entry.lastRequest > rateLimitWindow then
      (.ok (), Function.update rl clientID (some ⟨now, 1⟩))
    else if entry.requestCount ≥ maxRequestsPerMinute then
      (.error ("rate limit exceeded: " ++ toString maxRequestsPerMinute ++ " requests per minute"), rl)
    else (.ok (), Function.update rl clientID (some ⟨now, entry.requestCount + 1⟩))

/-- A run of the handler from `Serve`'s empty map: the calls in the order
`rateMutex` admits them, each a client and a clock reading, and what each
returns. -/
def serve : RateLimiter → List (String × Int) → List (Result Unit)
  | _, [] => []
  | rl, (clientID, now) :: calls =>
    (checkRateLimit rl clientID now).1 :: serve (checkRateLimit rl clientID now).2 calls

/-- The times of the calls of `clientID` that returned nil. -/
def acceptedTimes (clientID : String) (calls : List (String × Int)) (errs : List (Result Unit)) :
    List Int :=
  ((calls.zip errs).filter fun x => x.1.1 = clientID ∧ x.2 = .ok ()).map (·.1.2)

/-! ## What one call does -/

theorem checkRateLimit_cases (rl : RateLimiter) (c : String) (now : Int) :
    (rl c = none ∧ checkRateLimit rl c now = (.ok (), Function.update rl c (some ⟨now, 1⟩))) ∨
    (∃ e, rl c = some e ∧ rateLimitWindow < now - e.lastRequest ∧
      checkRateLimit rl c now = (.ok (), Function.update rl c (some ⟨now, 1⟩))) ∨
    (∃ e, rl c = some e ∧ now - e.lastRequest ≤ rateLimitWindow ∧
      maxRequestsPerMinute ≤ e.requestCount ∧ (checkRateLimit rl c now).2 = rl ∧
      (checkRateLimit rl c now).1 ≠ .ok ()) ∨
    (∃ e, rl c = some e ∧ now - e.lastRequest ≤ rateLimitWindow ∧
      e.requestCount < maxRequestsPerMinute ∧
      checkRateLimit rl c now = (.ok (), Function.update rl c (some ⟨now, e.requestCount + 1⟩))) := by
  unfold checkRateLimit
  cases h : rl c with
  | none => exact .inl ⟨rfl, rfl⟩
  | some e =>
    simp only
    split_ifs with h₁ h₂
    · exact .inr (.inl ⟨e, rfl, h₁, rfl⟩)
    · exact .inr (.inr (.inl ⟨e, rfl, Int.not_lt.mp h₁, h₂, rfl, Result.noConfusion⟩))
    · exact .inr (.inr (.inr ⟨e, rfl, Int.not_lt.mp h₁, Nat.not_le.mp h₂, rfl⟩))

/-! ## Bursts -/

/-- At most `maxRequestsPerMinute` of the times `ts` lie in any closed
interval of length `rateLimitWindow`. -/
def WindowBound (ts : List Int) : Prop :=
  ∀ a, (ts.filter fun t => a ≤ t ∧ t ≤ a + rateLimitWindow).length ≤ maxRequestsPerMinute

/-- A bounded history followed by a short burst more than a window later is
bounded: an interval that meets the burst misses the history. -/
theorem WindowBound.append {pre cur : List Int} (hpre : WindowBound pre)
    (hcur : cur.length ≤ maxRequestsPerMinute)
    (hsep : ∀ t ∈ pre, ∀ u ∈ cur, t + rateLimitWindow < u) : WindowBound (pre ++ cur) := by
  intro a
  rw [List.filter_append, List.length_append]
  by_cases hu : ∃ u ∈ cur, a ≤ u ∧ u ≤ a + rateLimitWindow
  · obtain ⟨u, hu, hau, hua⟩ := hu
    have hnil : (pre.filter fun t => a ≤ t ∧ t ≤ a + rateLimitWindow) = [] :=
      List.filter_eq_nil_iff.mpr fun t ht hin => by
        have := hsep t ht u hu
        simp only [decide_eq_true_eq] at hin
        omega
    rw [hnil, List.length_nil, Nat.zero_add]
    exact (List.length_filter_le _ _).trans hcur
  · have hnil : (cur.filter fun t => a ≤ t ∧ t ≤ a + rateLimitWindow) = [] :=
      List.filter_eq_nil_iff.mpr fun u hu' hin => hu ⟨u, hu', by simpa using hin⟩
    rw [hnil, List.length_nil, Nat.add_zero]
    exact hpre a

/-- What an entry says about the times its client's calls were accepted:
a bounded history `pre`, then the current burst `cur` of `requestCount`
calls, more than a window after all of `pre`, and none later than
`lastRequest`. -/
structure Burst (e : RateLimitEntry) (pre cur : List Int) : Prop where
  pre_bound : WindowBound pre
  length_cur : cur.length = e.requestCount
  count_pos : 0 < e.requestCount
  count_le : e.requestCount ≤ maxRequestsPerMinute
  sep : ∀ t ∈ pre, ∀ u ∈ cur, t + rateLimitWindow < u
  le_last : ∀ t ∈ pre ++ cur, t ≤ e.lastRequest

namespace Burst

variable {e : RateLimitEntry} {pre cur : List Int} {now : Int}

theorem windowBound (h : Burst e pre cur) : WindowBound (pre ++ cur) :=
  h.pre_bound.append (h.length_cur ▸ h.count_le) h.sep

theorem first : Burst ⟨now, 1⟩ [] [now] :=
  ⟨fun _ => Nat.zero_le _, rfl, Nat.one_pos, (by decide : 1 ≤ maxRequestsPerMinute), by simp,
    by simp⟩

theorem reset (h : Burst e pre cur) (hgap : rateLimitWindow < now - e.lastRequest) :
    Burst ⟨now, 1⟩ (pre ++ cur) [now] where
  pre_bound := h.windowBound
  length_cur := rfl
  count_pos := Nat.one_pos
  count_le := (by decide : 1 ≤ maxRequestsPerMinute)
  sep t ht u hu := by
    have := h.le_last t ht
    rw [List.mem_singleton.mp hu]
    omega
  le_last t ht := by
    show t ≤ now
    rcases List.mem_append.mp ht with ht | ht
    · have := h.le_last t ht; have := rateLimitWindow_pos; omega
    · exact (List.mem_singleton.mp ht).le

theorem push (h : Burst e pre cur) (hlt : e.requestCount < maxRequestsPerMinute)
    (hle : ∀ t ∈ pre ++ cur, t ≤ now) :
    Burst ⟨now, e.requestCount + 1⟩ pre (cur ++ [now]) where
  pre_bound := h.pre_bound
  length_cur := by simp [h.length_cur]
  count_pos := Nat.succ_pos _
  count_le := hlt
  sep t ht u hu := by
    obtain ⟨u₀, hu₀⟩ := List.exists_mem_of_length_pos (h.length_cur ▸ h.count_pos)
    rcases List.mem_append.mp hu with hu | hu
    · exact h.sep t ht u hu
    · have := h.sep t ht u₀ hu₀
      have := hle u₀ (List.mem_append_right _ hu₀)
      rw [List.mem_singleton.mp hu]
      omega
  le_last t ht := by
    rw [← List.append_assoc] at ht
    rcases List.mem_append.mp ht with ht | ht
    · exact hle t ht
    · exact (List.mem_singleton.mp ht).le

end Burst

/-- The invariant for one client: no entry and no accepted call, or an entry
whose burst ends the accepted calls. -/
def ClientInv : Option RateLimitEntry → List Int → Prop
  | none, ts => ts = []
  | some e, ts => ∃ pre cur, ts = pre ++ cur ∧ Burst e pre cur

@[simp] theorem clientInv_none {ts : List Int} : ClientInv none ts ↔ ts = [] := Iff.rfl

@[simp] theorem clientInv_some {e : RateLimitEntry} {ts : List Int} :
    ClientInv (some e) ts ↔ ∃ pre cur, ts = pre ++ cur ∧ Burst e pre cur := Iff.rfl

theorem ClientInv.windowBound {o : Option RateLimitEntry} {ts : List Int} (h : ClientInv o ts) :
    WindowBound ts := by
  cases o with
  | none => rw [show ts = [] from h]; exact fun _ => Nat.zero_le _
  | some e => obtain ⟨pre, cur, rfl, hb⟩ := h; exact hb.windowBound

/-! ## Runs -/

theorem checkRateLimit_frame (rl : RateLimiter) {c c' : String} (now : Int) (h : c ≠ c') :
    (checkRateLimit rl c' now).2 c = rl c := by
  unfold checkRateLimit
  split <;> (try split_ifs) <;> simp [Function.update_noteq h]

theorem clientInv_step {rl : RateLimiter} {c c' : String} {now : Int} {ts : List Int}
    (h : ClientInv (rl c) ts) (hle : ∀ t ∈ ts, t ≤ now) :
    ClientInv ((checkRateLimit rl c' now).2 c)
      (ts ++ if c' = c ∧ (checkRateLimit rl c' now).1 = .ok () then [now] else []) := by
  by_cases hc : c' = c
  · subst hc
    rcases checkRateLimit_cases rl c' now with ⟨hn, hr⟩ | ⟨e, he, hgap, hr⟩ |
      ⟨e, he, -, -, hs, hne⟩ | ⟨e, he, -, hlt, hr⟩
    · rw [hn, clientInv_none] at h
      subst h
      simp only [hr, Function.update_same, true_and, if_true, clientInv_some]
      exact ⟨[], [now], rfl, .first⟩
    · rw [he, clientInv_some] at h
      obtain ⟨pre, cur, rfl, hb⟩ := h
      simp only [hr, Function.update_same, true_and, if_true, clientInv_some]
      exact ⟨pre ++ cur, [now], rfl, hb.reset hgap⟩
    · rw [hs, if_neg (fun h => hne h.2), List.append_nil]
      exact h
    · rw [he, clientInv_some] at h
      obtain ⟨pre, cur, rfl, hb⟩ := h
      simp only [hr, Function.update_same, true_and, if_true, clientInv_some]
      exact ⟨pre, cur ++ [now], by simp, hb.push hlt hle⟩
  · rw [checkRateLimit_frame rl now (Ne.symm hc), if_neg (fun h => hc h.1), List.append_nil]
    exact h

theorem acceptedTimes_cons (c c' : String) (now : Int) (calls : List (String × Int))
    (r : Result Unit) (errs : List (Result Unit)) :
    acceptedTimes c ((c', now) :: calls) (r :: errs) =
      (if c' = c ∧ r = .ok () then [now] else []) ++ acceptedTimes c calls errs := by
  unfold acceptedTimes
  by_cases h : c' = c ∧ r = .ok () <;> simp [List.filter_cons, h]

theorem clientInv_serve (c : String) :
    ∀ (calls : List (String × Int)) (rl : RateLimiter) (ts : List Int), ClientInv (rl c) ts →
      (∀ t ∈ ts, ∀ x ∈ calls, t ≤ x.2) → calls.Pairwise (fun x y => x.2 ≤ y.2) →
      WindowBound (ts ++ acceptedTimes c calls (serve rl calls))
  | [], _, ts, h, _, _ => by simpa [serve, acceptedTimes] using h.windowBound
  | (c', now) :: calls, rl, ts, h, hle, hp => by
    rw [List.pairwise_cons] at hp
    have hstep := @clientInv_step rl c c' now ts h fun t ht => hle t ht _ (List.mem_cons_self _ _)
    rw [serve, acceptedTimes_cons, ← List.append_assoc]
    refine clientInv_serve c calls _ _ hstep (fun t ht x hx => ?_) hp.2
    rcases List.mem_append.mp ht with ht | ht
    · exact hle t ht x (List.mem_cons_of_mem _ hx)
    · split at ht
      · rw [List.mem_singleton.mp ht]; exact hp.1 x hx
      · simp at ht

/-- For every run of `checkRateLimit` calls with non-decreasing clock
readings, every client and every closed interval of length
`rateLimitWindow`: at most `maxRequestsPerMinute` of the client's calls in
the interval return nil. -/
theorem checkRateLimit_window_bound (calls : List (String × Int))
    (hmono : calls.Pairwise fun x y => x.2 ≤ y.2) (clientID : String) (a : Int) :
    ((acceptedTimes clientID calls (serve (fun _ => none) calls)).filter
      fun t => a ≤ t ∧ t ≤ a + rateLimitWindow).length ≤ maxRequestsPerMinute :=
  clientInv_serve clientID calls _ [] (clientInv_none.mpr rfl) (by simp) hmono a

theorem checkRateLimit_window_bound_two :
    [("a", (0 : Int)), ("a", 1)].Pairwise (fun x y => x.2 ≤ y.2) ∧
      ((acceptedTimes "a" [("a", 0), ("a", 1)] (serve (fun _ => none) [("a", 0), ("a", 1)])).filter
        fun t => 0 ≤ t ∧ t ≤ 0 + rateLimitWindow).length ≤ maxRequestsPerMinute :=
  ⟨by decide, checkRateLimit_window_bound _ (by decide) "a" 0⟩

end Gocryptfs
