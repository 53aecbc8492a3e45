import ClwServer.Base.AsyncLogging.Basic

/-!
# The buffers of the asynchronous log

Six slots exchange buffers between the front end and the backend. The invariant says which of
them own a buffer at each point of a round, and which of these buffers are empty. The relation
between `nextBuffer` and `buffers` is what makes the refill of two buffers possible: the front
end takes `nextBuffer` only together with filling a buffer.
-/

namespace ClwServer.AsyncLogging

open Cpp

/-! ### The invariant -/

/-- The pointer owns an empty buffer. -/
def Fresh (p : BufferPtr) : Prop := ∃ b, p = some b ∧ b.data = []

lemma fresh_empty : Fresh (some .empty) := ⟨_, rfl, rfl⟩

lemma fresh_reset (b : Buffer) : Fresh (some b.reset) := ⟨_, rfl, rfl⟩

lemma Fresh.contents {p : BufferPtr} (h : Fresh p) : contents p = [] := by
  obtain ⟨b, rfl, hb⟩ := h
  exact hb

lemma Fresh.isSome {p : BufferPtr} (h : Fresh p) : p.isSome := by
  obtain ⟨b, rfl, -⟩ := h
  rfl

/-- What the backend owns, at each of its points. -/
def BackendOwns (s : State) : Prop :=
  match s.pc with
  | .notStarted | .entry | .lastFlush | .done => s.buffersToWrite = []
  | .head | .lock | .waiting =>
    Fresh s.newBuffer1 ∧ Fresh s.newBuffer2 ∧ s.buffersToWrite = []
  | .drop | .write _ | .resize | .refill1 =>
    s.newBuffer1 = none ∧ 1 ≤ s.buffersToWrite.length ∧
      (Fresh s.newBuffer2 ∨ s.newBuffer2 = none ∧ 2 ≤ s.buffersToWrite.length)
  | .refill2 =>
    Fresh s.newBuffer1 ∧
      (Fresh s.newBuffer2 ∨ s.newBuffer2 = none ∧ 1 ≤ s.buffersToWrite.length)
  | .flush => Fresh s.newBuffer1 ∧ Fresh s.newBuffer2

/-- The invariant of all six slots. -/
structure Inv (s : State) : Prop where
  current : s.currentBuffer.isSome
  next : s.nextBuffer = none ∨ Fresh s.nextBuffer
  /-- `nextBuffer` is taken only when a buffer is full. -/
  taken : s.nextBuffer = none → s.buffers ≠ []
  full : ∀ p ∈ s.buffers, p.isSome
  batch : ∀ p ∈ s.buffersToWrite, p.isSome
  owns : BackendOwns s

lemma inv_init : Inv init where
  current := rfl
  next := .inr fresh_empty
  taken := by simp [init]
  full := by simp [init]
  batch := by simp [init]
  owns := rfl

/-! ### What a step can do -/

/-- The steps that can be taken where the invariant holds, with what they show. -/
inductive Move (s : State) : State → List Obs → Prop
  | put (tid : ℕ) (logline : List Byte) (cur cur' : Buffer) (hcur : s.currentBuffer = some cur)
      (hdata : cur'.data = cur.data ++ logline) :
      Move s { s with currentBuffer := some cur' } [.appended tid logline]
  | fill (tid : ℕ) (logline : List Byte) (cur : Buffer) (hdata : cur.data = logline) :
      Move s { s with buffers := s.buffers ++ [s.currentBuffer], currentBuffer := some cur,
                      nextBuffer := none } [.appended tid logline]
  | start (hpc : s.pc = .notStarted) (hclosing : s.closing = false) :
      Move s { s with running := true, pc := .entry } []
  | clear (hclosing : s.closing = false) :
      Move s { s with running := false, closing := true } []
  | entry (hpc : s.pc = .entry) :
      Move s { s with newBuffer1 := some .empty, newBuffer2 := some .empty,
                      buffersToWrite := [], pc := .head } []
  | head (hpc : s.pc = .head) :
      Move s { s with pc := if s.running then .lock else .lastFlush } []
  | sleep (hpc : s.pc = .lock) (hbuffers : s.buffers = []) : Move s { s with pc := .waiting } []
  | swap (hpc : s.pc = .lock ∨ s.pc = .waiting) : Move s { swap s with pc := .drop } []
  | drop (hpc : s.pc = .drop) : Move s { (drop s).1 with pc := .write 0 } (drop s).2
  | write (i : ℕ) (b : Buffer) (hpc : s.pc = .write i) (hb : s.buffersToWrite[i]? = some (some b)) :
      Move s { s with pc := .write (i + 1) } [.written b.data]
  | written (i : ℕ) (hpc : s.pc = .write i) (hi : s.buffersToWrite.length ≤ i) :
      Move s { s with pc := .resize } []
  | resize (hpc : s.pc = .resize) :
      Move s { s with buffersToWrite := if 2 < s.buffersToWrite.length
                                        then s.buffersToWrite.take 2 else s.buffersToWrite
                      pc := .refill1 } []
  | refill1 (b : Buffer) (rest : List BufferPtr) (hpc : s.pc = .refill1)
      (hback : s.buffersToWrite = rest ++ [some b]) :
      Move s { s with newBuffer1 := some b.reset, buffersToWrite := rest, pc := .refill2 } []
  | refill2 (b : Buffer) (rest : List BufferPtr) (hpc : s.pc = .refill2)
      (hback : s.buffersToWrite = rest ++ [some b]) :
      Move s { s with newBuffer2 := some b.reset, buffersToWrite := rest, pc := .flush } []
  | keep2 (hpc : s.pc = .refill2) (hnew : Fresh s.newBuffer2) : Move s { s with pc := .flush } []
  | flush (hpc : s.pc = .flush) : Move s { s with buffersToWrite := [], pc := .head } [.flushed]
  | lastFlush (hpc : s.pc = .lastFlush) : Move s { s with pc := .done } [.flushed]

/-- The current buffer is replaced by an empty one, and no spare buffer is left. -/
lemma takeNext_spec {s : State} (h : s.nextBuffer = none ∨ Fresh s.nextBuffer) :
    ∃ b : Buffer, b.data = [] ∧
      takeNext s = { s with currentBuffer := some b, nextBuffer := none } := by
  rcases h with hnone | ⟨b, hsome, hb⟩
  · exact ⟨.empty, rfl, by simp only [takeNext, hnone]⟩
  · exact ⟨b, hb, by simp only [takeNext, hsome]⟩

/-- Where the invariant holds, `append` stores its message behind the others: in the current
buffer if it fits there, else in an empty one. -/
lemma append_spec {s : State} (hi : Inv s) (tid : ℕ) {logline : List Byte}
    (hlen : logline.length < kLargeBuffer) :
    ∃ t, append s logline = .ok t ∧ Move s t [.appended tid logline] := by
  have hint : logline.length < 2 ^ 31 := by
    simp only [kLargeBuffer] at hlen
    omega
  obtain ⟨cur, hcur⟩ := Option.isSome_iff_exists.mp hi.current
  by_cases havail : (logline.length : ℤ) < cur.avail
  · obtain ⟨cur', happ, hdata⟩ := FixedBuffer.append_of_lt hint havail
    refine ⟨_, ?_, .put tid logline cur cur' hcur hdata⟩
    simp only [append, hcur, deref_some, ok_bind, if_pos havail, happ]
  · obtain ⟨next, hempty, htake⟩ :=
      takeNext_spec (s := { s with buffers := s.buffers ++ [s.currentBuffer] }) hi.next
    obtain ⟨cur', happ, hdata⟩ := FixedBuffer.append_of_empty hempty hint hlen
    refine ⟨_, ?_, .fill tid logline cur' hdata⟩
    simp only [append, hcur, deref_some, ok_bind, if_neg havail]
    rw [hcur] at htake
    simp only [htake, deref_some, ok_bind, happ]

/-- A vector of owning pointers that is not empty gives up its last buffer. -/
lemma exists_back {v : List BufferPtr} (hv : ∀ p ∈ v, p.isSome) (hlen : 1 ≤ v.length) :
    ∃ rest b, v = rest ++ [some b] := by
  cases v using List.reverseRecOn with
  | nil => simp at hlen
  | append_singleton rest p =>
    obtain ⟨b, rfl⟩ := Option.isSome_iff_exists.mp (hv p (by simp))
    exact ⟨rest, b, rfl⟩

/-- `refill` of a slot that was moved away takes the last buffer and empties it. -/
lemma refill_none (rest : List BufferPtr) (b : Buffer) :
    refill none (rest ++ [some b]) = .ok (some b.reset, rest) := by
  simp [refill]

/-- Where the invariant holds, the backend's step is defined, and is one of the moves. -/
lemma threadFunc_spec {s : State} (hi : Inv s) {r : Except Fault (State × List Obs)}
    (h : threadFunc s = some r) : ∃ t o, r = .ok (t, o) ∧ Move s t o := by
  have howns := hi.owns
  simp only [threadFunc] at h
  cases hpc : s.pc with
  | notStarted | waiting | done => simp only [hpc, reduceCtorEq] at h
  | entry =>
    simp only [hpc, Option.some.injEq] at h
    exact ⟨_, _, h.symm, .entry hpc⟩
  | head =>
    simp only [hpc, Option.some.injEq] at h
    exact ⟨_, _, h.symm, .head hpc⟩
  | lock =>
    simp only [hpc] at h
    split at h
    · rename_i hempty
      exact ⟨_, _, (Option.some.inj h).symm, .sleep hpc (List.isEmpty_iff.mp hempty)⟩
    · exact ⟨_, _, (Option.some.inj h).symm, .swap (.inl hpc)⟩
  | drop =>
    simp only [hpc, Option.some.injEq] at h
    exact ⟨_, _, h.symm, .drop hpc⟩
  | write i =>
    simp only [hpc] at h
    split at h
    · rename_i p hp
      obtain ⟨b, rfl⟩ := Option.isSome_iff_exists.mp (hi.batch p (List.mem_of_getElem? hp))
      rw [deref_some, ok_map] at h
      exact ⟨_, _, (Option.some.inj h).symm, .write i b hpc hp⟩
    · rename_i hnone
      exact ⟨_, _, (Option.some.inj h).symm, .written i hpc (List.getElem?_eq_none_iff.mp hnone)⟩
  | resize =>
    simp only [hpc, Option.some.injEq] at h
    exact ⟨_, _, h.symm, .resize hpc⟩
  | refill1 =>
    simp only [hpc, BackendOwns] at h howns
    obtain ⟨rest, b, hback⟩ := exists_back hi.batch howns.2.1
    rw [howns.1, hback, refill_none, ok_map] at h
    exact ⟨_, _, (Option.some.inj h).symm, .refill1 b rest hpc hback⟩
  | refill2 =>
    simp only [hpc, BackendOwns] at h howns
    rcases howns.2 with ⟨b, hnew, hb⟩ | ⟨hnone, hlen⟩
    · refine ⟨_, _, ?_, .keep2 hpc ⟨b, hnew, hb⟩⟩
      rw [hnew, refill, ok_map] at h
      rw [← Option.some.inj h, ← hnew]
    · obtain ⟨rest, b, hback⟩ := exists_back hi.batch hlen
      rw [hnone, hback, refill_none, ok_map] at h
      exact ⟨_, _, (Option.some.inj h).symm, .refill2 b rest hpc hback⟩
  | flush =>
    simp only [hpc, Option.some.injEq] at h
    exact ⟨_, _, h.symm, .flush hpc⟩
  | lastFlush =>
    simp only [hpc, Option.some.injEq] at h
    exact ⟨_, _, h.symm, .lastFlush hpc⟩

/-- Where the invariant holds, no step is undefined, and each is one of the moves. -/
lemma exec_spec {s : State} (hi : Inv s) {e : Event} {r : Except Fault (State × List Obs)}
    (h : exec s e = some r) : ∃ t o, r = .ok (t, o) ∧ Move s t o := by
  cases e with
  | append tid logline =>
    simp only [exec] at h
    split at h
    · rename_i hlen
      obtain ⟨t, happ, hmove⟩ := append_spec hi tid hlen
      rw [happ, ok_map] at h
      exact ⟨_, _, (Option.some.inj h).symm, hmove⟩
    · cases h
  | start =>
    simp only [exec] at h
    split at h
    · rename_i hpc
      exact ⟨_, _, (Option.some.inj h).symm, .start hpc.1 hpc.2⟩
    · cases h
  | backend => exact threadFunc_spec hi h
  | wake =>
    simp only [exec] at h
    split at h
    · rename_i hpc
      exact ⟨_, _, (Option.some.inj h).symm, .swap (.inr hpc)⟩
    · cases h
  | clear =>
    simp only [exec] at h
    split at h
    · rename_i hclosing
      exact ⟨_, _, (Option.some.inj h).symm, .clear hclosing⟩
    · cases h

lemma Move.of_step {s t : State} {e : Event} {o : List Obs} (hi : Inv s)
    (h : system.step s e = some (t, o)) : Move s t o := by
  obtain ⟨t', o', heq, hmove⟩ := exec_spec hi (step_eq_some.mp h)
  cases heq
  exact hmove

/-! ### The invariant is kept -/

/-- In the critical section of a round the backend takes the full buffers and the current one,
and leaves `newBuffer1` and, where it is missing, a `nextBuffer` behind. -/
lemma swap_spec {s : State} (hpc : s.pc = .lock ∨ s.pc = .waiting) (hi : Inv s) :
    (swap s).buffersToWrite = s.buffers ++ [s.currentBuffer] ∧ (swap s).buffers = [] ∧
      Fresh (swap s).currentBuffer ∧ Fresh (swap s).nextBuffer ∧ (swap s).newBuffer1 = none ∧
      (Fresh (swap s).newBuffer2 ∨
        (swap s).newBuffer2 = none ∧ 2 ≤ (swap s).buffersToWrite.length) := by
  obtain ⟨hnew1, hnew2, hempty⟩ :
      Fresh s.newBuffer1 ∧ Fresh s.newBuffer2 ∧ s.buffersToWrite = [] := by
    have howns := hi.owns
    rcases hpc with hpc | hpc <;> simpa only [BackendOwns, hpc] using howns
  rcases hi.next with hnone | hnext
  · -- the front end has taken `nextBuffer`, so the batch has a full buffer beside the current one
    have hfull : 1 ≤ s.buffers.length := List.length_pos_iff.mpr (hi.taken hnone)
    simp only [swap, hnone, hempty, List.length_append, List.length_singleton]
    exact ⟨trivial, trivial, hnew1, hnew2, trivial, .inr ⟨trivial, by omega⟩⟩
  · obtain ⟨b, hb, hfresh⟩ := hnext
    simp only [swap, hb, hempty]
    exact ⟨trivial, trivial, hnew1, ⟨b, rfl, hfresh⟩, trivial, .inl hnew2⟩

lemma Inv.swap {s : State} (hpc : s.pc = .lock ∨ s.pc = .waiting) (hi : Inv s) :
    Inv { swap s with pc := .drop } := by
  obtain ⟨hbatch, hbuffers, hcur, hnext, hnew1, hnew2⟩ := swap_spec hpc hi
  refine ⟨hcur.isSome, .inr hnext, fun h => ?_, ?_, ?_, ?_⟩
  · have := hnext.isSome
    simp_all
  · simp [hbuffers]
  · intro p hp
    simp only [hbatch, List.mem_append, List.mem_singleton] at hp
    rcases hp with hp | rfl
    · exact hi.full p hp
    · exact hi.current
  · exact ⟨hnew1, by simp [hbatch], hnew2⟩

/-- Outside of its critical section the backend touches only its own slots. -/
lemma Inv.backend {s t : State} (hi : Inv s) (hcur : t.currentBuffer = s.currentBuffer)
    (hnext : t.nextBuffer = s.nextBuffer) (hbuffers : t.buffers = s.buffers)
    (hbatch : ∀ p ∈ t.buffersToWrite, p ∈ s.buffersToWrite) (howns : BackendOwns t) : Inv t where
  current := hcur ▸ hi.current
  next := hnext ▸ hi.next
  taken h := by
    rw [hbuffers]
    exact hi.taken (hnext ▸ h)
  full := hbuffers ▸ hi.full
  batch p hp := hi.batch p (hbatch p hp)
  owns := howns

/-- A batch that is cut keeps its first two buffers, as many as the refill may need. -/
lemma length_cut (v : List BufferPtr) (n : ℕ) (h : n ≤ v.length) (hn : n ≤ 2) :
    n ≤ (v.take 2).length := by
  rw [List.length_take]
  omega

lemma Inv.move {s t : State} {o : List Obs} (hi : Inv s) (h : Move s t o) : Inv t := by
  have howns := hi.owns
  cases h with
  | put tid logline cur cur' hcur hdata => exact { hi with current := rfl }
  | fill tid logline cur hdata =>
    refine { hi with current := rfl, next := .inl rfl, taken := by simp, full := ?_ }
    intro p hp
    rcases List.mem_append.mp hp with hp | hp
    · exact hi.full p hp
    · exact List.mem_singleton.mp hp ▸ hi.current
  | start hpc hclosing =>
    refine { hi with owns := ?_ }
    simpa only [BackendOwns, hpc] using howns
  | clear hclosing => exact { hi with }
  | entry hpc => exact hi.backend rfl rfl rfl (by simp) ⟨fresh_empty, fresh_empty, rfl⟩
  | head hpc =>
    refine hi.backend rfl rfl rfl (fun _ => id) ?_
    simp only [BackendOwns, hpc] at howns
    cases s.running
    · exact howns.2.2
    · exact howns
  | sleep hpc hbuffers =>
    refine hi.backend rfl rfl rfl (fun _ => id) ?_
    simpa only [BackendOwns, hpc] using howns
  | swap hpc => exact hi.swap hpc
  | drop hpc =>
    simp only [BackendOwns, hpc] at howns
    obtain ⟨hnew1, hlen, hnew2⟩ := howns
    rcases drop_cases s with ⟨-, heq⟩ | heq <;> rw [heq]
    · refine hi.backend rfl rfl rfl (fun _ => List.mem_of_mem_take) ⟨hnew1, ?_, ?_⟩
      · exact length_cut _ 1 hlen (by omega)
      · exact hnew2.imp_right (And.imp_right fun h => length_cut _ 2 h le_rfl)
    · exact hi.backend rfl rfl rfl (fun _ => id) ⟨hnew1, hlen, hnew2⟩
  | write i b hpc hb =>
    refine hi.backend rfl rfl rfl (fun _ => id) ?_
    simpa only [BackendOwns, hpc] using howns
  | written i hpc hle =>
    refine hi.backend rfl rfl rfl (fun _ => id) ?_
    simpa only [BackendOwns, hpc] using howns
  | resize hpc =>
    simp only [BackendOwns, hpc] at howns
    obtain ⟨hnew1, hlen, hnew2⟩ := howns
    split
    · refine hi.backend rfl rfl rfl (fun _ => List.mem_of_mem_take) ⟨hnew1, ?_, ?_⟩
      · exact length_cut _ 1 hlen (by omega)
      · exact hnew2.imp_right (And.imp_right fun h => length_cut _ 2 h le_rfl)
    · exact hi.backend rfl rfl rfl (fun _ => id) ⟨hnew1, hlen, hnew2⟩
  | refill1 b rest hpc hback =>
    simp only [BackendOwns, hpc, hback, List.length_append, List.length_singleton] at howns
    refine hi.backend rfl rfl rfl (by simp +contextual [hback]) ⟨fresh_reset b, ?_⟩
    exact howns.2.2.imp_right (And.imp_right fun h => by simpa using h)
  | refill2 b rest hpc hback =>
    simp only [BackendOwns, hpc] at howns
    exact hi.backend rfl rfl rfl (by simp +contextual [hback]) ⟨howns.1, fresh_reset b⟩
  | keep2 hpc hnew =>
    simp only [BackendOwns, hpc] at howns
    exact hi.backend rfl rfl rfl (fun _ => id) ⟨howns.1, hnew⟩
  | flush hpc =>
    simp only [BackendOwns, hpc] at howns
    exact hi.backend rfl rfl rfl (by simp) ⟨howns.1, howns.2, rfl⟩
  | lastFlush hpc =>
    refine hi.backend rfl rfl rfl (fun _ => id) ?_
    simpa only [BackendOwns, hpc] using howns

/-- The invariant holds in every reachable state. -/
lemma inv_of_reachable {s : State} (h : system.Reachable s) : Inv s :=
  h.invariant inv_init fun _ _ _ _ _ hi he => hi.move (.of_step hi he)

/-- No missing buffer is touched: `append` finds `currentBuffer`, a round begins with two empty
spare buffers, the loop that writes dereferences owning pointers only, and both refills find a
buffer at the back of `buffersToWrite`. -/
theorem buffers_present {s : State} (h : system.Reachable s) :
    s.currentBuffer.isSome ∧
    (s.pc = .head → Fresh s.newBuffer1 ∧ Fresh s.newBuffer2 ∧
      (s.nextBuffer = none ∨ Fresh s.nextBuffer)) ∧
    (∀ i p, s.pc = .write i → s.buffersToWrite[i]? = some p → p.isSome) ∧
    (s.pc = .refill1 → s.newBuffer1 = none → ∃ rest b, s.buffersToWrite = rest ++ [some b]) ∧
    (s.pc = .refill2 → s.newBuffer2 = none → ∃ rest b, s.buffersToWrite = rest ++ [some b]) ∧
    ∀ e f, exec s e ≠ some (.error f) := by
  have hi := inv_of_reachable h
  have howns := hi.owns
  refine ⟨hi.current, fun hpc => ?_, fun i p _ hp => ?_, fun hpc _ => ?_, fun hpc hnone => ?_,
    fun e f he => ?_⟩
  · simp only [BackendOwns, hpc] at howns
    exact ⟨howns.1, howns.2.1, hi.next⟩
  · exact hi.batch p (List.mem_of_getElem? hp)
  · simp only [BackendOwns, hpc] at howns
    exact exists_back hi.batch howns.2.1
  · simp only [BackendOwns, hpc] at howns
    rcases howns.2 with hfresh | ⟨-, hlen⟩
    · exact absurd hfresh.isSome (by simp [hnone])
    · exact exists_back hi.batch hlen
  · obtain ⟨t, o, heq, -⟩ := exec_spec hi he
    cases heq

/-- The round behind the first message, up to its drop section. -/
def firstRound : List Event :=
  [.append 0 (literal "hi"), .start, .backend, .backend, .backend, .wake, .backend]

/-- The round writes the message, takes its buffer again, and leaves two empty ones for the next. -/
theorem buffers_present_round :
    (∃ s p, system.Reachable s ∧ s.pc = .write 0 ∧ s.buffersToWrite[0]? = some p ∧
      contents p = literal "hi" ∧ p.isSome) ∧
    (∃ s, system.Reachable s ∧ s.pc = .refill1 ∧ s.newBuffer1 = none ∧
      ∃ rest b, s.buffersToWrite = rest ++ [some b]) ∧
    ∃ s, system.Reachable s ∧ s.pc = .head ∧ Fresh s.newBuffer1 ∧ Fresh s.newBuffer2 := by
  refine ⟨?_, ?_, ?_⟩
  · have hrun := System.Run.of_exec (M := system) firstRound rfl
    obtain ⟨-, -, hwrite, -⟩ := buffers_present hrun.reachable
    exact ⟨_, _, hrun.reachable, rfl, rfl, rfl, hwrite 0 _ rfl rfl⟩
  · have hrun := System.Run.of_exec (M := system)
      (firstRound ++ [.backend, .backend, .backend]) rfl
    obtain ⟨-, -, -, hrefill, -⟩ := buffers_present hrun.reachable
    exact ⟨_, hrun.reachable, rfl, rfl, hrefill rfl rfl⟩
  · have hrun := System.Run.of_exec (M := system)
      (firstRound ++ [.backend, .backend, .backend, .backend, .backend, .backend]) rfl
    obtain ⟨-, hhead, -⟩ := buffers_present hrun.reachable
    exact ⟨_, hrun.reachable, rfl, (hhead rfl).1, (hhead rfl).2.1⟩

end ClwServer.AsyncLogging
