import ClwServer.Net.TcpConnection.Lifetime

/-!
# The end of `handleRead`

Only the branch of `EAGAIN` leaves the loop of `handleRead`. An end of file calls `handleClose`
and reads again, and an error calls `handleError` and reads again.
-/

namespace ClwServer.TcpConnection

open Cpp Posix

/-- An outcome at which the loop has nothing more to read. -/
def Terminal : ReadOutcome → Prop
  | .data _ _ => False
  | .eof => True
  | .failed e => e ≠ EINTR

instance (o : ReadOutcome) : Decidable (Terminal o) := by
  cases o <;> unfold Terminal <;> infer_instance

/-- The loop leaves on the first terminal outcome, having called `CloseCallback_` once if that is
the end of file, and it never calls `CloseCallback_` twice. -/
def EndsOnce (s : State) (os : List ReadOutcome) : Prop :=
  (∀ pre o rest, os = pre ++ o :: rest → (∀ x ∈ pre, ¬Terminal x) → Terminal o →
    ∃ t, handleRead s os = .ok (.left t rest) ∧
      (o = .eof → t.closeCalls = s.closeCalls + 1)) ∧
  ∀ r, handleRead s os = .ok r → r.state.closeCalls ≤ s.closeCalls + 1

variable {s t : State} {o : ReadOutcome} {os pre rest : List ReadOutcome}

lemma ne_eagain_of_not_terminal (h : ¬Terminal o) : o ≠ .failed EAGAIN := by
  rintro rfl
  exact h (by decide)

lemma consumed_append_eagain (h : ∀ x ∈ pre, ¬Terminal x) :
    consumed (pre ++ .failed EAGAIN :: rest) = pre := by
  rw [consumed, List.takeWhile_append_of_pos]
  · simp
  · intro x hx
    simpa using ne_eagain_of_not_terminal (h x hx)

/-- As long as the pointer is held, the loop gets to the first `EAGAIN` and leaves there. -/
lemma handleRead_append_eagain (h : ∀ x ∈ pre, ¬Terminal x)
    (hheld : ∀ p, p <+: pre → Held s.inMap s.copies p) :
    ∃ t, handleRead s (pre ++ .failed EAGAIN :: rest) = .ok (.left t rest) := by
  have hs : Alive s := held_nil.mp (hheld [] List.nil_prefix)
  induction pre generalizing s with
  | nil => exact ⟨s, handleRead_eagain hs⟩
  | cons o pre ih =>
    have ho : o ≠ .failed EAGAIN := ne_eagain_of_not_terminal (h o (by simp))
    have hheld' : ∀ p, p <+: pre → Held (after s o).inMap (after s o).copies p := by
      intro p hp
      exact held_cons.mp (hheld (o :: p) (List.prefix_cons_iff.mpr (.inr ⟨p, rfl, hp⟩)))
    rw [List.cons_append, handleRead_cons hs ho]
    exact ih (fun x hx => h x (by simp [hx])) hheld' (held_nil.mp (hheld' [] List.nil_prefix))

/-- Without an end of file `CloseCallback_` is not called. -/
lemma closeCalls_eq {r : Progress State ReadOutcome} (h : handleRead s os = .ok r)
    (heof : .eof ∉ consumed os) : r.state.closeCalls = s.closeCalls := by
  induction os generalizing s with
  | nil => rw [handleRead_nil_eq_ok h, Progress.state_inside]
  | cons o os ih =>
    have hs : Alive s := alive_of_handleRead h
    by_cases ho : o = .failed EAGAIN
    · subst ho
      rw [handleRead_eagain hs] at h
      cases h
      rfl
    · rw [consumed_cons_of_ne ho, List.mem_cons, not_or] at heof
      rw [handleRead_cons hs ho] at h
      rw [ih h heof.2]
      cases o with
      | eof => exact absurd rfl heof.1
      | data | failed => rfl

/-- A list splits at its first terminal outcome. -/
lemma exists_first_terminal (h : ∃ x ∈ os, Terminal x) :
    ∃ pre o rest, os = pre ++ o :: rest ∧ (∀ x ∈ pre, ¬Terminal x) ∧ Terminal o := by
  obtain ⟨o, ho⟩ := Option.isSome_iff_exists.mp
    (List.find?_isSome (p := (decide <| Terminal ·)) |>.mpr (by simpa using h))
  obtain ⟨hterm, pre, rest, hos, hpre⟩ := List.find?_eq_some_iff_append.mp ho
  exact ⟨pre, o, rest, hos, by simpa using hpre, by simpa using hterm⟩

/-- `handleRead` ends in time and closes once if and only if the first terminal outcome, if there
is one, is `EAGAIN`, and the connection lives until then. -/
theorem endsOnce_iff (s : State) (os : List ReadOutcome) :
    EndsOnce s os ↔
      ∀ pre o rest, os = pre ++ o :: rest → (∀ x ∈ pre, ¬Terminal x) → Terminal o →
        o = .failed EAGAIN ∧ ∀ p, p <+: pre → Held s.inMap s.copies p := by
  constructor
  · rintro ⟨hends, -⟩ pre o rest hos hpre ho
    obtain ⟨t, ht, -⟩ := hends pre o rest hos hpre ho
    -- the loop left on an `EAGAIN`, which is the outcome in front of `rest`
    obtain ⟨-, pre', hos', -⟩ := handleRead_left ht
    obtain ⟨rfl, hcons⟩ : pre = pre' ∧ o :: rest = .failed EAGAIN :: rest := by
      apply List.append_inj' (hos.symm.trans hos')
      rfl
    have heagain : o = .failed EAGAIN := (List.cons.inj hcons).1
    refine ⟨heagain, ?_⟩
    have hheld := handleRead_ok_iff.mp ⟨_, ht⟩
    rwa [hos, heagain, consumed_append_eagain hpre] at hheld
  · intro h
    constructor
    · intro pre o rest hos hpre ho
      obtain ⟨rfl, hheld⟩ := h pre o rest hos hpre ho
      obtain ⟨t, ht⟩ : ∃ t, handleRead s (pre ++ .failed EAGAIN :: rest) = .ok (.left t rest) :=
        handleRead_append_eagain hpre hheld
      refine ⟨t, hos ▸ ht, ?_⟩
      intro heof
      cases heof
    · intro r hr
      have heof : .eof ∉ consumed os := by
        intro hmem
        by_cases hterm : ∃ x ∈ os, Terminal x
        · obtain ⟨pre, o, rest, hos, hpre, ho⟩ := exists_first_terminal hterm
          obtain ⟨rfl, -⟩ := h pre o rest hos hpre ho
          rw [hos, consumed_append_eagain hpre] at hmem
          exact hpre .eof hmem trivial
        · exact hterm ⟨.eof, List.takeWhile_subset _ hmem, trivial⟩
      rw [closeCalls_eq hr heof]
      exact Nat.le_succ _

/-! ### End of file -/

/-- With a copy of the pointer held, the loop closes the connection as often as it reads the end
of file, and goes on. -/
lemma handleRead_replicate_eof (hcopies : 0 < s.copies) (n : ℕ) :
    ∃ t, handleRead s (List.replicate n .eof) = .ok (.inside t) ∧
      t.closeCalls = s.closeCalls + n := by
  induction n generalizing s with
  | zero => exact ⟨s, InputLoop.run_nil (touch_of_alive (.inr hcopies)), rfl⟩
  | succ n ih =>
    obtain ⟨t, ht, hclose⟩ := ih (s := after s .eof) hcopies
    refine ⟨t, ?_, ?_⟩
    · rw [List.replicate_succ, handleRead_cons (.inr hcopies) (by simp), ht]
    · rw [hclose]
      simp only [after, removeConnection, connectDestroyed]
      omega

/-- The peer closes a connection whose pointer the application keeps: `CloseCallback_` is called
for every `read`, and the loop never leaves. -/
theorem eof_never_ends :
    let s : State := { established with copies := 1 }
    (∀ n, ∃ t, handleRead s (List.replicate n .eof) = .ok (.inside t) ∧ t.closeCalls = n) ∧
      ¬EndsOnce s (List.replicate 2 .eof) := by
  intro s
  have hloop : ∀ n, ∃ t, handleRead s (List.replicate n .eof) = .ok (.inside t) ∧
      t.closeCalls = n := by
    intro n
    obtain ⟨t, ht, hclose⟩ := handleRead_replicate_eof (s := s) Nat.one_pos n
    exact ⟨t, ht, hclose.trans (Nat.zero_add n)⟩
  refine ⟨hloop, ?_⟩
  rintro ⟨-, honce⟩
  obtain ⟨t, ht, hclose⟩ := hloop 2
  have hle := honce _ ht
  simp only [Progress.state_inside, hclose] at hle
  exact absurd hle (by decide)

end ClwServer.TcpConnection
