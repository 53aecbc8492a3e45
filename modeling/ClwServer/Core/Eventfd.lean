import Mathlib.Algebra.Group.Nat.Defs
import Mathlib.Order.Basic

/-!
# An eventfd under edge-triggered epoll

A non-blocking `eventfd` counter together with its entry in the ready list of one epoll instance
(`EPOLLIN | EPOLLET`). Every successful write queues the entry; a poll that comes to a queued
entry takes it out of the list, and reports it unless the counter is 0.
-/

structure Eventfd where
  counter : ℕ
  /-- The item is in the ready list. -/
  edge : Bool
  deriving DecidableEq

namespace Eventfd

/-- The largest value of the counter; a write that would exceed it fails with `EAGAIN`. -/
def maxCounter : ℕ := 2 ^ 64 - 2

/-- A fresh descriptor, just added to the epoll instance. -/
def new : Eventfd := ⟨0, false⟩

/-- `write` of the value 1. -/
def write (e : Eventfd) : Eventfd :=
  if e.counter + 1 ≤ maxCounter then ⟨e.counter + 1, true⟩ else e

/-- `read`, which resets the counter. -/
def read (e : Eventfd) : Eventfd := { e with counter := 0 }

/-- An undelivered readiness: the next poll reports it. -/
def Undelivered (e : Eventfd) : Prop := e.edge = true ∧ 0 < e.counter

instance (e : Eventfd) : Decidable e.Undelivered := inferInstanceAs (Decidable (_ ∧ _))

/-- `epoll_wait` comes to the entry, if it is queued. -/
def poll (e : Eventfd) : Eventfd := { e with edge := false }

@[simp] lemma counter_new : new.counter = 0 := rfl

@[simp] lemma counter_read (e : Eventfd) : e.read.counter = 0 := rfl

/-- A write is announced, unless the counter was announced before. -/
lemma undelivered_write {e : Eventfd} (h : 0 < e.counter → e.edge = true) :
    e.write.Undelivered := by
  by_cases hmax : e.counter + 1 ≤ maxCounter
  · rw [write, if_pos hmax]
    exact ⟨rfl, Nat.succ_pos _⟩
  · have hpos : 0 < e.counter := by
      simp only [maxCounter] at hmax
      omega
    rw [write, if_neg hmax]
    exact ⟨h hpos, hpos⟩

end Eventfd
