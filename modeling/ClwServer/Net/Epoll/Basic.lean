import Mathlib.Algebra.Group.Nat.Defs
import ClwServer.Core.System
import ClwServer.Core.Extent
import Mathlib.Data.Int.Basic

/-!
# The event buffers of epoll

The part of `Epoll.cc` that the size of `ActiveEvents` depends on: any number of `Epoll` objects,
each in its own thread, and the global variable `MAXEVENTS` they share. `epoll_wait` is cut at
every statement that reads or writes the global.
-/

namespace ClwServer.Epoll

open Cpp (Extent)

/-- Where a thread is in `Epoll::epoll_wait`. -/
inductive Pc
  | idle
  /-- In `::epoll_wait`, which was given `maxevents`. -/
  | waiting (maxevents : ℕ)
  /-- Before `numEvents == MAXEVENTS`. -/
  | compare (numEvents : ℕ)
  /-- Before `MAXEVENTS *= 2`. -/
  | double
  /-- Before `ActiveEvents.resize(MAXEVENTS)`. -/
  | resize
  /-- Before `ActiveEvents.clear()`. -/
  | clear
  deriving DecidableEq

/-- An `Epoll` object. -/
structure Instance where
  activeEvents : Extent
  pc : Pc
  deriving DecidableEq

structure State where
  maxEvents : ℕ
  instances : ℕ → Option Instance

inductive Obs
  /-- The object `j` gives its vector a new size, in the constructor or in `resize`. -/
  | sized (j : ℕ)
  /-- The object `j` doubles `MAXEVENTS`. -/
  | doubled (j : ℕ)
  /-- The object `j` calls `::epoll_wait` with `maxevents`, and a buffer of `capacity` slots. -/
  | called (j maxevents capacity : ℕ)
  deriving DecidableEq

/-- `INT_MAX`; a signed overflow has no meaning. -/
def intMax : ℕ := 2 ^ 31 - 1

def init : State where
  maxEvents := 1024
  instances := fun _ => none

def setInstance (s : State) (j : ℕ) (i : Option Instance) : State :=
  { s with instances := Function.update s.instances j i }

inductive Event
  /-- The constructor of the object `j`. -/
  | create (j : ℕ)
  /-- The destructor. -/
  | destroy (j : ℕ)
  /-- The call of `::epoll_wait` at the head of `epoll_wait`. -/
  | call (j : ℕ)
  /-- `::epoll_wait` returns `numEvents`. -/
  | ret (j : ℕ) (numEvents : ℤ)
  /-- The next statement behind the call. -/
  | next (j : ℕ)
  deriving DecidableEq

/-- What follows the return of `::epoll_wait`. Only events lead to the test of the batch. -/
def afterReturn (numEvents : ℤ) : Pc := if numEvents ≤ 0 then .idle else .compare numEvents.toNat

/-- The statements behind the loop over the events. -/
def next (s : State) (j : ℕ) (i : Instance) : Option (State × List Obs) :=
  match i.pc with
  | .compare n =>
    some (setInstance s j (some { i with pc := if n = s.maxEvents then .double else .clear }), [])
  | .double =>
    if 2 * s.maxEvents ≤ intMax then
      some (setInstance { s with maxEvents := 2 * s.maxEvents } j (some { i with pc := .resize }),
        [.doubled j])
    else
      none
  | .resize =>
    some (setInstance s j
      (some { activeEvents := i.activeEvents.resize s.maxEvents, pc := .clear }), [.sized j])
  | .clear =>
    some (setInstance s j (some { activeEvents := i.activeEvents.clear, pc := .idle }), [])
  | .idle | .waiting _ => none

def step (s : State) : Event → Option (State × List Obs)
  | .create j =>
    match s.instances j with
    | none => some (setInstance s j (some ⟨.ofSize s.maxEvents, .idle⟩), [.sized j])
    | some _ => none
  | .destroy j =>
    match s.instances j with
    | some ⟨_, .idle⟩ => some (setInstance s j none, [])
    | _ => none
  | .call j =>
    match s.instances j with
    | some ⟨v, .idle⟩ =>
      some (setInstance s j (some ⟨v, .waiting s.maxEvents⟩), [.called j s.maxEvents v.capacity])
    | _ => none
  | .ret j numEvents =>
    match s.instances j with
    | some ⟨v, .waiting maxevents⟩ =>
      if numEvents ≤ maxevents then
        some (setInstance s j (some ⟨v, afterReturn numEvents⟩), [])
      else
        none
    | _ => none
  | .next j => (s.instances j).bind (next s j)

/-- All `Epoll` objects of the process. -/
def system : System State Event Obs where
  init := init
  step := step

end ClwServer.Epoll
