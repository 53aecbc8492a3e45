import ClwServer.Core.Ledger
import ClwServer.Base.AsyncLogging.Invariant

/-!
# No message is lost, repeated or moved

The buffers are a ledger of messages: a filled buffer is a group, `swap` closes the group of
the current buffer, and a batch retires with the two buffers it keeps when it is too long. The
simulation relates every reachable state to a ledger that took the same messages.
-/

namespace ClwServer.AsyncLogging

open Cpp

/-! ### What a run has shown -/

/-- The messages passed to `append`, in the order in which the lock was taken. -/
def appended (obs : List Obs) : List (List Byte) :=
  obs.filterMap fun
    | .appended _ logline => some logline
    | _ => none

/-- The contents of the buffers passed to `output.append`. -/
def written (obs : List Obs) : List (List Byte) :=
  obs.filterMap fun
    | .written data => some data
    | _ => none

/-- The notices passed to `output.append`. -/
def notices (obs : List Obs) : List (List Byte) :=
  obs.filterMap fun
    | .notice text => some text
    | _ => none

/-- The parts of batches that were erased. -/
def erased (obs : List Obs) : List (List BufferPtr) :=
  obs.filterMap fun
    | .erased batch => some batch
    | _ => none

/-- The buffers the backend has taken over and not yet written. -/
def toWrite (s : State) : List BufferPtr :=
  match s.pc with
  | .drop => s.buffersToWrite
  | .write i => s.buffersToWrite.drop i
  | _ => []

section Append

variable (obs o : List Obs)

@[simp] lemma appended_append : appended (obs ++ o) = appended obs ++ appended o :=
  List.filterMap_append

@[simp] lemma written_append : written (obs ++ o) = written obs ++ written o :=
  List.filterMap_append

@[simp] lemma notices_append : notices (obs ++ o) = notices obs ++ notices o :=
  List.filterMap_append

@[simp] lemma erased_append : erased (obs ++ o) = erased obs ++ erased o :=
  List.filterMap_append

end Append

/-! ### The simulation -/

/-- The buffers of the batch that has not passed the drop section. -/
def undecided (s : State) : List BufferPtr := if s.pc = .drop then s.buffersToWrite else []

/-- The buffers of the batch that will be written for certain. -/
def decided (s : State) : List BufferPtr :=
  match s.pc with
  | .write i => s.buffersToWrite.drop i
  | _ => []

/-- The ledger took the messages of the run, and its groups are the buffers: the retired ones
were written, are being written or were erased, the live ones are still to be decided upon. -/
structure Keeps (obs : List Obs) (s : State) (L : Ledger (List Byte)) : Prop where
  messages : L.messages = appended obs
  kept : L.kept.map List.flatten = written obs ++ (decided s).map contents
  dropped : L.dropped.map List.flatten = (erased obs).flatten.map contents
  live : L.live.map List.flatten =
    (undecided s ++ s.buffers ++ [s.currentBuffer]).map contents

lemma keeps_init : Keeps [] init ⟨[], [[]]⟩ where
  messages := rfl
  kept := rfl
  dropped := rfl
  live := rfl

/-- A message that enters the open group enters the last content. -/
lemma live_put {L : Ledger (List Byte)} {xs : List (List Byte)} {c m : List Byte}
    (h : L.live.map List.flatten = xs ++ [c]) :
    (L.put m).live.map List.flatten = xs ++ [c ++ m] := by
  obtain ⟨retired, live⟩ := L
  cases live using List.reverseRecOn with
  | nil => simp at h
  | append_singleton ls l =>
    simp only [List.map_append, List.map_cons, List.map_nil] at h
    obtain ⟨hxs, hc⟩ := List.append_inj' h rfl
    simp only [List.cons.injEq, and_true] at hc
    simp [Ledger.put, hxs, hc]

lemma live_openGroup (L : Ledger (List Byte)) :
    L.openGroup.live.map List.flatten = L.live.map List.flatten ++ [[]] := by
  simp [Ledger.openGroup]

/-- A step that keeps the contents of the buffers and shows no change needs no ledger step. -/
lemma Keeps.stay {obs o : List Obs} {s t : State} {L : Ledger (List Byte)} (h : Keeps obs s L)
    (happended : appended o = []) (herased : erased o = [])
    (hwritten : written o ++ (decided t).map contents = (decided s).map contents)
    (hlive : undecided t ++ t.buffers ++ [t.currentBuffer] =
      undecided s ++ s.buffers ++ [s.currentBuffer]) : Keeps (obs ++ o) t L where
  messages := by rw [h.messages, appended_append, happended, List.append_nil]
  kept := by rw [h.kept, written_append, List.append_assoc, hwritten]
  dropped := by rw [h.dropped, erased_append, herased, List.append_nil]
  live := by rw [h.live, hlive]

/-- A batch of `n` buffers retires, and its first `k` buffers are kept. -/
lemma Keeps.retire {obs : List Obs} {s t : State} {L : Ledger (List Byte)} (h : Keeps obs s L)
    (hpc : s.pc = .drop) {o : List Obs} (k : ℕ) (happended : appended o = [])
    (hwritten : written o = []) (herased : (erased o).flatten = s.buffersToWrite.drop k)
    (hdecided : decided t = s.buffersToWrite.take k) (hundecided : undecided t = [])
    (hbuffers : t.buffers = s.buffers) (hcur : t.currentBuffer = s.currentBuffer) :
    Keeps (obs ++ o) t (L.retire s.buffersToWrite.length k) := by
  have hdec : decided s = [] := by simp only [decided, hpc]
  have hund : undecided s = s.buffersToWrite := by simp only [undecided, hpc, if_true]
  have hlive := h.live
  rw [hund, List.append_assoc, List.map_append] at hlive
  have hlen : (s.buffersToWrite.map contents).length = s.buffersToWrite.length :=
    List.length_map _
  have htake : (L.live.take s.buffersToWrite.length).map List.flatten =
      s.buffersToWrite.map contents := by
    rw [List.map_take, hlive, ← hlen, List.take_left]
  refine ⟨?_, ?_, ?_, ?_⟩
  · rw [Ledger.messages_retire, h.messages, appended_append, happended, List.append_nil]
  · rw [Ledger.kept_retire, List.map_append, h.kept, hdec, List.map_take, htake, hdecided,
      written_append, hwritten, List.map_take]
    simp
  · rw [Ledger.dropped_retire, List.map_append, h.dropped, List.map_drop, htake, erased_append,
      List.flatten_append, List.map_append, herased, List.map_drop]
  · rw [hundecided, hbuffers, hcur, List.nil_append]
    show (L.live.drop s.buffersToWrite.length).map List.flatten = _
    rw [List.map_drop, hlive, ← hlen, List.drop_left]

lemma Keeps.move {obs o : List Obs} {s t : State} {L : Ledger (List Byte)} (h : Keeps obs s L)
    (hi : Inv s) (hm : Move s t o) : ∃ L', Keeps (obs ++ o) t L' := by
  have hlive := h.live
  rw [List.map_append] at hlive
  cases hm with
  | put tid logline cur cur' hcur hdata =>
    refine ⟨L.put logline, ?_, h.kept.trans ?_, h.dropped.trans ?_, ?_⟩
    · rw [Ledger.messages_put, h.messages, appended_append]
      rfl
    · rw [written_append]
      simp [written, decided]
    · rw [erased_append]
      simp [erased]
    · rw [hcur, List.map_singleton, contents_some] at hlive
      rw [live_put hlive, ← hdata]
      simp [undecided]
  | fill tid logline cur hdata =>
    refine ⟨L.openGroup.put logline, ?_, h.kept.trans ?_, h.dropped.trans ?_, ?_⟩
    · rw [Ledger.messages_put, Ledger.messages_openGroup, h.messages, appended_append]
      rfl
    · rw [written_append]
      simp [written, decided]
    · rw [erased_append]
      simp [erased]
    · have hopen : L.openGroup.live.map List.flatten =
          (undecided s ++ s.buffers ++ [s.currentBuffer]).map contents ++ [[]] := by
        rw [live_openGroup, h.live]
      rw [live_put hopen, List.nil_append, ← hdata]
      simp [undecided]
  | swap hpc =>
    obtain ⟨hbatch, hbuffers, hfresh, -⟩ := swap_spec hpc hi
    have hund : undecided s = [] := by rcases hpc with hpc | hpc <;> simp [undecided, hpc]
    have hdec : decided s = [] := by rcases hpc with hpc | hpc <;> simp [decided, hpc]
    refine ⟨L.openGroup, ?_, ?_, h.dropped.trans ?_, ?_⟩
    · rw [Ledger.messages_openGroup, h.messages, List.append_nil]
    · rw [Ledger.kept_openGroup, h.kept, hdec, List.append_nil obs]
      rfl
    · rw [List.append_nil]
    · rw [live_openGroup, h.live, hund]
      simp [undecided, hbatch, hbuffers, hfresh.contents]
  | drop hpc =>
    rcases drop_cases s with ⟨-, heq⟩ | heq <;> rw [heq]
    · exact ⟨_, h.retire hpc 2 rfl rfl (by simp [erased]) (by simp [decided])
        (by simp [undecided]) rfl rfl⟩
    · exact ⟨_, h.retire hpc s.buffersToWrite.length rfl rfl (by simp [erased])
        (by simp [decided]) (by simp [undecided]) rfl rfl⟩
  | write i b hpc hb =>
    refine ⟨L, h.stay rfl rfl ?_ (by simp [undecided, hpc])⟩
    obtain ⟨hlt, hget⟩ := List.getElem?_eq_some_iff.mp hb
    simp only [decided, hpc]
    rw [List.drop_eq_getElem_cons hlt, hget]
    rfl
  | written i hpc hle =>
    refine ⟨L, h.stay rfl rfl ?_ (by simp [undecided, hpc])⟩
    simp only [decided, hpc, List.drop_eq_nil_of_le hle]
    rfl
  | head hpc =>
    refine ⟨L, h.stay rfl rfl ?_ ?_⟩ <;> cases s.running <;> simp [undecided, decided, hpc, written]
  | start hpc _ | entry hpc | sleep hpc _ | resize hpc | refill1 _ _ hpc _ | refill2 _ _ hpc _
  | keep2 hpc _ | flush hpc | lastFlush hpc =>
    exact ⟨L, h.stay rfl rfl (by simp [decided, hpc, written]) (by simp [undecided, hpc])⟩
  | clear hclosing => exact ⟨L, h.stay rfl rfl rfl rfl⟩

/-- Every run is kept by a ledger. -/
lemma keeps_of_run {obs : List Obs} {s : State} (h : system.Run obs s) : ∃ L, Keeps obs s L :=
  h.invariant (P := fun obs s => ∃ L, Keeps obs s L) ⟨_, keeps_init⟩
    fun _ _ _ _ _ hr hk he => by
      have hi := inv_of_reachable hr.reachable
      obtain ⟨L, hk⟩ := hk
      exact hk.move hi (.of_step hi he)

/-! ### The notices -/

/-- Every batch that was cut had more than 25 buffers, and its notice counts the erased ones. -/
lemma notices_of_run {obs : List Obs} {s : State} (h : system.Run obs s) :
    notices obs = (erased obs).map (fun batch => dropNotice batch.length) ∧
      ∀ batch ∈ erased obs, 25 < batch.length + 2 := by
  refine h.invariant
    (P := fun obs _ => notices obs = (erased obs).map (fun batch => dropNotice batch.length) ∧
      ∀ batch ∈ erased obs, 25 < batch.length + 2)
    ⟨rfl, by simp [erased]⟩ fun obs s e t o hr hn he => ?_
  obtain ⟨hnotice, hlong⟩ := hn
  rw [notices_append, erased_append, List.map_append, hnotice]
  have hm := Move.of_step (inv_of_reachable hr.reachable) he
  cases hm with
  | drop hpc =>
    rcases drop_cases s with ⟨hlen, heq⟩ | heq <;> rw [heq]
    · refine ⟨by simp [notices, erased], fun batch hb => ?_⟩
      rcases List.mem_append.mp hb with hb | hb
      · exact hlong batch hb
      · have hbatch : batch = s.buffersToWrite.drop 2 := by simpa [erased] using hb
        rw [hbatch, List.length_drop]
        omega
    · simpa [notices, erased] using hlong
  | put | fill | start | clear | entry | head | sleep | swap | write | written | resize
  | refill1 | refill2 | keep2 | flush | lastFlush => simpa [notices, erased] using hlong

/-! ### Conservation -/

lemma toWrite_eq (s : State) : toWrite s = decided s ++ undecided s := by
  simp only [toWrite, decided, undecided]
  cases s.pc <;> simp

/-- Nothing is lost, repeated or reordered. In every state of every run there is a list `log` of
the buffers ever filled, each with the messages it holds, such that all messages in it are the
appended ones in the order of the lock; the buffers marked as kept are the written ones, those
about to be written, those of `buffers` and the current one; the others are the erased parts of
batches of more than 25 buffers, each of which was reported by a notice with its length. -/
theorem append_conservation {obs : List Obs} {s : State} (h : system.Run obs s) :
    ∃ log : List (Bool × List (List Byte)),
      log.flatMap Prod.snd = appended obs ∧
      (log.filter (·.1)).map (fun group => group.2.flatten) =
        written obs ++ (toWrite s ++ s.buffers ++ [s.currentBuffer]).map contents ∧
      (log.filter (!·.1)).map (fun group => group.2.flatten) =
        (erased obs).flatten.map contents ∧
      (∀ batch ∈ erased obs, 25 < batch.length + 2) ∧
      notices obs = (erased obs).map (fun batch => dropNotice batch.length) := by
  obtain ⟨L, hk⟩ := keeps_of_run h
  obtain ⟨hnotice, hlong⟩ := notices_of_run h
  refine ⟨L.log, ?_, ?_, ?_, hlong, hnotice⟩
  · rw [Ledger.log_messages, hk.messages]
  · have hlog := congrArg (List.map List.flatten) L.log_kept
    rw [List.map_map, List.map_append, hk.kept, hk.live] at hlog
    rw [toWrite_eq]
    simpa [Function.comp_def] using hlog
  · have hlog := congrArg (List.map List.flatten) L.log_dropped
    rw [List.map_map, hk.dropped] at hlog
    simpa [Function.comp_def] using hlog

/-- Two threads append, and the backend writes their messages in one buffer. -/
theorem append_conservation_two :
    ∃ obs s, system.Run obs s ∧ appended obs = [[104], [105]] ∧ written obs = [[104, 105]] ∧
      ∃ log : List (Bool × List (List Byte)), log.flatMap Prod.snd = [[104], [105]] := by
  have hrun := System.Run.of_exec (M := system) [.start, .backend, .append 1 [104],
    .append 2 [105], .backend, .backend, .wake, .backend, .backend] rfl
  exact ⟨_, _, hrun, rfl, rfl, (append_conservation hrun).imp fun _ hlog => hlog.1⟩

end ClwServer.AsyncLogging
