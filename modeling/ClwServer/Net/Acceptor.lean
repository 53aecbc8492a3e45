import ClwServer.Core.InputLoop
import ClwServer.Core.Posix
import ClwServer.Core.Cpp

/-!
# Accepting connections

`Acceptor::handleRead` of `Acceptor.cc`. The log line between `accept` and the tests of `errno`
calls `inet_ntop` with room for one character; the call fails and leaves `ENOSPC` in `errno`, so
that neither `EAGAIN` nor `EINTR` is recognised, and every failure is handed out like a
connection.
-/

namespace ClwServer.Acceptor

open Posix

/-- An outcome of `accept4`. -/
inductive Accept4
  | accepted (fd : ℕ) (peer : SockaddrIn)
  /-- The result is -1. -/
  | failed (e : Errno)
  deriving DecidableEq

/-- The descriptor of an accepted connection. -/
def Accept4.fd? : Accept4 → Option ℤ
  | .accepted fd _ => some fd
  | .failed _ => none

structure State where
  errno : Errno
  /-- The local variable `clieAddr`, which a failed `accept4` does not write. -/
  clieAddr : SockaddrIn
  /-- The calls of `NewConnectionCallback_`, the first one first. -/
  calls : List (ℤ × SockaddrIn)
  /-- The arguments of `::close`. -/
  closed : List ℤ

/-- `Socket::accept` -/
def accept (s : State) : Accept4 → ℤ × State
  | .accepted fd peer => (fd, { s with clieAddr := peer })
  | .failed e => (-1, { s with errno := e })

/-- The first `LOG_INFO`, with `sizeof(str)` = 1. -/
def logPeer (s : State) : State :=
  match inetNtop s.clieAddr.sin_addr 1 with
  | .ok _ => s
  | .error e => { s with errno := e }

/-- What the loop does with `connfd` at its end; `installed` says whether
`NewConnectionCallback_` is set. -/
def handOut (installed : Bool) (s : State) (connfd : ℤ) : State :=
  if installed then
    { s with calls := s.calls ++ [(connfd, s.clieAddr)] }
  else
    { s with closed := s.closed ++ [connfd] }

def turn (installed : Bool) (s : State) (o : Accept4) : Turn State :=
  let (connfd, s) := accept s o
  let s := logPeer s
  if connfd < 0 then
    if s.errno = EAGAIN then
      .leave s
    else if s.errno = EINTR then
      .again s
    else
      -- `LOG_ERROR`, and no way out of the turn
      .again (handOut installed s connfd)
  else
    .again (handOut installed s connfd)

/-- The loop of `handleRead`, which has no undefined step. -/
def loop (installed : Bool) : InputLoop State Accept4 Cpp.Fault where
  head _ := .ok ()
  body s o := .ok (turn installed s o)

def handleRead (installed : Bool) (s : State) (os : List Accept4) :
    Except Cpp.Fault (Progress State Accept4) :=
  (loop installed).run s os

/-! ### What the loop does -/

lemma errno_logPeer (s : State) : (logPeer s).errno = ENOSPC := by
  rw [logPeer, inetNtop_one]

lemma calls_logPeer (s : State) : (logPeer s).calls = s.calls := by
  rw [logPeer, inetNtop_one]

/-- The value of `connfd` for an outcome. -/
def connfd : Accept4 → ℤ
  | .accepted fd _ => fd
  | .failed _ => -1

lemma fst_accept (s : State) (o : Accept4) : (accept s o).1 = connfd o := by
  cases o <;> rfl

lemma calls_accept (s : State) (o : Accept4) : (accept s o).2.calls = s.calls := by
  cases o <;> rfl

/-- The state behind a turn. -/
def afterTurn (installed : Bool) (s : State) (o : Accept4) : State :=
  handOut installed (logPeer (accept s o).2) (connfd o)

/-- No turn leaves the loop, and each one hands out what `accept4` returned. -/
lemma turn_eq (installed : Bool) (s : State) (o : Accept4) :
    turn installed s o = .again (afterTurn installed s o) := by
  simp only [turn, afterTurn, errno_logPeer, fst_accept]
  by_cases hneg : connfd o < 0
  · rw [if_pos hneg, if_neg (by decide), if_neg (by decide)]
  · rw [if_neg hneg]

lemma handleRead_eq (installed : Bool) (s : State) (os : List Accept4) :
    handleRead installed s os = .ok (.inside (os.foldl (afterTurn installed) s)) := by
  apply InputLoop.run_eq_foldl
  · intro s
    rfl
  · intro s o _
    exact congrArg _ (turn_eq installed s o)

lemma calls_afterTurn (s : State) (o : Accept4) :
    (afterTurn true s o).calls.map Prod.fst = s.calls.map Prod.fst ++ [connfd o] := by
  simp [afterTurn, handOut, calls_logPeer, calls_accept]

lemma calls_foldl (s : State) (os : List Accept4) :
    (os.foldl (afterTurn true) s).calls.map Prod.fst =
      s.calls.map Prod.fst ++ os.map connfd := by
  induction os generalizing s with
  | nil => simp
  | cons o os ih => simp [ih, calls_afterTurn]

/-! ### What it should do -/

/-- The descriptors among the outcomes, in order. -/
def fds (os : List Accept4) : List ℤ := os.filterMap Accept4.fd?

/-- The callback is called once for each accepted descriptor, in order, and with nothing else;
the loop goes on until the first `EAGAIN`, and returns there. -/
def HandsOutExactly (s : State) (os : List Accept4) : Prop :=
  (.failed EAGAIN ∉ os → ∃ t, handleRead true s os = .ok (.inside t) ∧
    t.calls.map Prod.fst = s.calls.map Prod.fst ++ fds os) ∧
  ∀ pre rest, os = pre ++ .failed EAGAIN :: rest → .failed EAGAIN ∉ pre →
    ∃ t, handleRead true s os = .ok (.left t rest) ∧
      t.calls.map Prod.fst = s.calls.map Prod.fst ++ fds pre

lemma fds_nonneg {os : List Accept4} {fd : ℤ} (h : fd ∈ fds os) : 0 ≤ fd := by
  obtain ⟨o, -, ho⟩ := List.mem_filterMap.mp h
  cases o with
  | accepted n peer =>
    obtain rfl : (n : ℤ) = fd := by simpa [Accept4.fd?] using ho
    exact Int.natCast_nonneg n
  | failed e => simp [Accept4.fd?] at ho

lemma map_connfd {os : List Accept4} (h : ∀ e, .failed e ∉ os) : os.map connfd = fds os := by
  induction os with
  | nil => rfl
  | cons o os ih =>
    have hos := ih fun e he => h e (by simp [he])
    cases o with
    | accepted fd peer => simpa [fds, connfd, Accept4.fd?] using hos
    | failed e => exact absurd (by simp) (h e)

/-- The acceptor hands out exactly the accepted connections if and only if no `accept4` fails. -/
theorem handsOutExactly_iff (s : State) (os : List Accept4) :
    HandsOutExactly s os ↔ ∀ e, .failed e ∉ os := by
  constructor
  · rintro ⟨hinside, hleft⟩ e he
    by_cases hagain : .failed EAGAIN ∈ os
    · -- the loop does not return at its first `EAGAIN`
      obtain ⟨pre, rest, hos, hpre⟩ := List.eq_append_cons_of_mem hagain
      obtain ⟨t, ht, -⟩ := hleft pre rest hos hpre
      rw [handleRead_eq] at ht
      cases ht
    · -- the callback is called with -1
      obtain ⟨t, ht, hcalls⟩ := hinside hagain
      rw [handleRead_eq, Except.ok.injEq, Progress.inside.injEq] at ht
      rw [← ht, calls_foldl] at hcalls
      have hmem : (-1 : ℤ) ∈ fds os := by
        rw [← List.append_cancel_left hcalls]
        exact List.mem_map.mpr ⟨_, he, rfl⟩
      have hnonneg := fds_nonneg hmem
      omega
  · intro h
    constructor
    · intro _
      refine ⟨_, handleRead_eq true s os, ?_⟩
      rw [calls_foldl, map_connfd h]
    · intro pre rest hos _
      exact absurd (by simp [hos]) (h EAGAIN)

/-- The first turn of `handleRead` on a zeroed stack. -/
def start : State where
  errno := 0
  clieAddr := ⟨⟨0, 0, 0, 0⟩, 0⟩
  calls := []
  closed := []

/-- One client connects, and the next one goes before it is accepted; its `ECONNABORTED` is handed
out as a connection on -1, with the address of the first. -/
theorem abort_handed_out :
    let peer : SockaddrIn := ⟨⟨127, 0, 0, 1⟩, 40000⟩
    let os : List Accept4 := [.accepted 5 peer, .failed ECONNABORTED]
    (∃ t, handleRead true start os = .ok (.inside t) ∧ t.calls = [(5, peer), (-1, peer)]) ∧
      ¬HandsOutExactly start os := by
  intro peer os
  refine ⟨⟨_, handleRead_eq true start os, by decide⟩, ?_⟩
  rintro ⟨hinside, -⟩
  obtain ⟨t, ht, hcalls⟩ := hinside (by decide)
  rw [handleRead_eq, Except.ok.injEq, Progress.inside.injEq] at ht
  rw [← ht] at hcalls
  exact absurd hcalls (by decide)

end ClwServer.Acceptor
