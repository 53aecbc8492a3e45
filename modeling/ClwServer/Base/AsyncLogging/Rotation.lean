import ClwServer.Core.Product
import ClwServer.Base.AsyncLogging.Conservation
import ClwServer.Base.LogFile.Segments

/-!
# The log across its files

The backend of `AsyncLogging` is the owner of its `LogFile`, `output`, and calls it where its steps
show it. The backend passes whole buffers, a buffer holds whole messages, and a file takes whole
texts.
-/

namespace ClwServer.AsyncLogging

open Cpp

/-- The calls of `output`. -/
def calls (obs : List Obs) : List LogFile.Call :=
  obs.filterMap fun
    | .notice text => some (.append text)
    | .written data => some (.append data)
    | .flushed => some .flush
    | _ => none

/-- No batch has more than 25 buffers. -/
def SmallBatch (s : State) (_ : Event) : Prop := s.pc = .drop → s.buffersToWrite.length ≤ 25

instance (s : State) (e : Event) : Decidable (SmallBatch s e) :=
  inferInstanceAs (Decidable (_ → _))

/-- The calls that a step of `AsyncLogging` makes are those of the step of its `LogFile`. -/
def Drives (s : State) (_ : LogFile.State) (e : Option Event) (d : Option LogFile.Event) : Prop :=
  ((system.restrict SmallBatch).stepOr s e).elim [] (calls ·.2) = d.elim [] LogFile.Event.calls

instance (s : State) (t : LogFile.State) (e : Option Event) (d : Option LogFile.Event) :
    Decidable (Drives s t e d) :=
  inferInstanceAs (Decidable (_ = _))

/-- `AsyncLogging` with its `LogFile`, where no batch is too large, `fopen` succeeds and `fwrite`
accepts everything. -/
def logging (basename : String) (flushInterval : ℤ) :
    System (State × LogFile.State) (Option Event × Option LogFile.Event) (Obs ⊕ LogFile.Obs) :=
  (system.restrict SmallBatch).product
    ((LogFile.system basename flushInterval).restrict LogFile.Reliable) Drives

lemma calls_append (obs o : List Obs) : calls (obs ++ o) = calls obs ++ calls o :=
  List.filterMap_append

lemma texts_calls {obs : List Obs} (h : notices obs = []) :
    LogFile.texts (calls obs) = written obs := by
  induction obs with
  | nil => rfl
  | cons o obs ih =>
    cases o with
    | notice => cases h
    | _ => simpa [calls, LogFile.texts, written] using ih h

/-- A run of small batches drops nothing. -/
lemma nothing_dropped {obs : List Obs} {s : State} (h : (system.restrict SmallBatch).Run obs s) :
    erased obs = [] ∧ notices obs = [] := by
  refine h.invariant (P := fun obs _ => erased obs = [] ∧ notices obs = []) ⟨rfl, rfl⟩
    fun obs s e t o hr hn he => ?_
  obtain ⟨hsmall, hstep⟩ := System.restrict_step.mp he
  rw [erased_append, notices_append, hn.1, hn.2]
  have hm := Move.of_step (inv_of_reachable hr.of_restrict.reachable) hstep
  cases hm with
  | drop hpc =>
    rcases drop_cases s with ⟨hlen, -⟩ | heq
    · have hle := hsmall hpc
      omega
    · rw [heq]
      exact ⟨rfl, rfl⟩
  | _ => exact ⟨rfl, rfl⟩

/-! ### The records of the files -/

/-- What the files of a log owe to the messages. The messages `records` are those that the files
were given, for each file in one list; `rest` are those that are still in the buffers. -/
structure KeepsRecords (obs : List Obs) (s : State) (fileObs : List LogFile.Obs)
    (t : LogFile.State) (records : List (List (List Byte))) (rest : List (List Byte)) :
    Prop where
  /-- No message is missing or repeated, and the files take them in order. -/
  messages : records.flatten ++ rest = appended obs
  buffered : rest.flatten = (toWrite s ++ s.buffers ++ [s.currentBuffer]).flatMap contents
  files : records.length = (LogFile.names fileObs).length
  /-- A file is given whole messages. -/
  whole : ∀ id, LogFile.received id fileObs = (records.getD id []).flatten
  /-- All that the earlier files got is on the disk before a file gets its first byte. -/
  ordered : ∀ pre id bytes post, fileObs = pre ++ .wrote id bytes :: post → ∀ j < id,
    .closed j ∈ pre ∧ LogFile.outputs j pre = LogFile.received j pre
  /-- Files of one name follow each other on the disk. -/
  disk : ∀ name, t.world.disk name ++ LogFile.pending name t.stream =
    LogFile.under name ((LogFile.names fileObs).zip records)

/-- The buffers that were written, as groups of messages. -/
lemma exists_written {obs : List Obs} {s : State}
    (h : (system.restrict SmallBatch).Run obs s) : ∃ groups rest : List (List (List Byte)),
      groups.map List.flatten = written obs ∧ (groups ++ rest).flatten = appended obs ∧
        rest.map List.flatten = (toWrite s ++ s.buffers ++ [s.currentBuffer]).map contents := by
  obtain ⟨L, hk⟩ := keeps_of_run h.of_restrict
  have hdropped : L.dropped = [] := by
    have hmap := hk.dropped
    rw [(nothing_dropped h).1] at hmap
    simpa using hmap
  have hkept := hk.kept
  rw [List.map_eq_append_iff] at hkept
  obtain ⟨groups, rest, hsplit, hgroups, hrest⟩ := hkept
  refine ⟨groups, rest ++ L.live, hgroups, ?_, ?_⟩
  · rw [← List.append_assoc, ← hsplit, ← Ledger.messages_of_dropped_eq_nil hdropped, hk.messages]
  · rw [List.map_append, hrest, hk.live, toWrite_eq]
    simp only [List.map_append, List.append_assoc]

section Files

open LogFile

variable {fileObs : List LogFile.Obs} {t : LogFile.State} {cur : Option Stream}
  {files : List Segment}

/-- Only the bytes of a file matter, not the texts they came in. -/
lemma given_eq_getD {records : List (List (List Byte))}
    (h : records.map List.flatten = files.map (·.2.flatten)) (id : ℕ) :
    given files id = (records.getD id []).flatten := by
  have hfile : given files id = ((files.map (·.2.flatten))[id]?).getD [] := by
    rw [given, List.getElem?_map]
    cases files[id]? <;> rfl
  rw [hfile, ← h, List.getElem?_map, List.getD_eq_getElem?_getD]
  cases records[id]? <;> rfl

lemma under_zip {records : List (List (List Byte))}
    (h : records.map List.flatten = files.map (·.2.flatten)) (name : String) :
    under name ((files.map Prod.fst).zip records) = under name files := by
  induction files generalizing records with
  | nil => rfl
  | cons f files ih =>
    obtain ⟨r, records, rfl, hr, hrecords⟩ := List.map_eq_cons_iff.mp h
    simp only [under, List.map_cons, List.zip_cons_cons, List.flatMap_cons, hr] at ih ⊢
    rw [ih hrecords]

end Files

variable {basename : String} {flushInterval : ℤ}

/-- The `LogFile` is called as the backend shows. -/
lemma calls_of_run {obs : List (Obs ⊕ LogFile.Obs)} {p : State × LogFile.State}
    (h : (logging basename flushInterval).Run obs p) :
    LogFile.calls (System.rights obs) = calls (System.lefts obs) := by
  refine h.invariant (P := fun obs _ =>
    LogFile.calls (System.rights obs) = calls (System.lefts obs)) rfl ?_
  rintro obs ⟨s, t⟩ ⟨e, d⟩ ⟨s', t'⟩ o - hp he
  obtain ⟨hdrives, o₁, o₂, hs, ht, rfl⟩ := System.product_step.mp he
  have hcalls : LogFile.calls o₂ = calls o₁ := by
    simp only [Drives, hs, Option.elim_some] at hdrives
    rw [hdrives]
    cases d with
    | none =>
      cases ht
      rfl
    | some d =>
      have hm : LogFile.Move basename flushInterval t d t' o₂ :=
        .of_step (System.restrict_step.mp ht).2
      exact hm.calls_eq
  rw [System.lefts_append, System.rights_append, System.lefts_map, System.rights_map,
    LogFile.calls_append, calls_append, hp, hcalls]

/-- In every run of the log in which no batch has more than 25 buffers, and where `fopen` succeeds
and `fwrite` accepts everything, the messages are kept by the files: whole, in order, and each
once. -/
theorem rotation_keeps_records {obs : List (Obs ⊕ LogFile.Obs)} {p : State × LogFile.State}
    (h : (logging basename flushInterval).Run obs p) :
    ∃ records rest,
      KeepsRecords (System.lefts obs) p.1 (System.rights obs) p.2 records rest := by
  have hs : (system.restrict SmallBatch).Run (System.lefts obs) p.1 := h.fst
  have ht : ((LogFile.system basename flushInterval).restrict LogFile.Reliable).Run
      (System.rights obs) p.2 := h.snd
  obtain ⟨groups, rest, hgroups, hmessages, hrest⟩ := exists_written hs
  obtain ⟨cur, files, hholds, hseg⟩ := LogFile.accounted_of_run ht
  have htexts : groups.map List.flatten = (files.map Prod.snd).flatten := by
    rw [← List.flatMap_def, hseg.contents, ← LogFile.texts_calls, calls_of_run h,
      texts_calls (nothing_dropped hs).2, hgroups]
  obtain ⟨parts, rfl, hparts⟩ := Ledger.exists_parts_of_map_eq_flatten htexts
  have hrecords : (parts.map List.flatten).map List.flatten = files.map (·.2.flatten) := by
    have hflat := congrArg (List.map List.flatten) hparts
    rw [List.map_map, List.map_map] at hflat
    rw [List.map_map]
    refine Eq.trans (List.map_congr_left fun part _ => ?_) hflat
    show part.flatten.flatten = (part.map List.flatten).flatten
    rw [List.flatten_flatten]
  refine ⟨parts.map List.flatten, rest.flatten, ?_, ?_, ?_, ?_, ?_, ?_⟩
  · rw [← hmessages, List.flatten_append, List.flatten_flatten]
  · rw [List.flatten_flatten, hrest, List.flatMap_def]
  · have hlen := congrArg List.length hrecords
    rw [← hseg.names]
    simpa using hlen
  · intro id
    rw [hseg.received, given_eq_getD hrecords]
  · intro pre id bytes post hobs j hj
    rw [hobs] at ht
    exact LogFile.closed_of_wrote ht hj
  · intro name
    rw [hholds.stream, hseg.disk, ← hseg.names, under_zip hrecords]

/-- A roll between two batches, where the clock has gone back: both files have one name. -/
theorem rotation_keeps_records_same_name : ∃ obs p records rest name,
    (logging "log" 3).Run obs p ∧ appended (System.lefts obs) = [[104], [105], [106]] ∧
      LogFile.names (System.rights obs) = [name, name] ∧
      LogFile.received 0 (System.rights obs) = [104, 105] ∧
      LogFile.received 1 (System.rights obs) = [106] ∧
      KeepsRecords (System.lefts obs) p.1 (System.rights obs) p.2 records rest := by
  have hrun := System.Run.of_exec (M := logging "log" 3)
    [(some .start, none), (some .backend, some (.construct 1700000060 true)),
      (some (.append 1 [104]), none), (some (.append 2 [105]), none), (some .backend, none),
      (some .backend, none), (some .wake, none), (some .backend, none),
      (some .backend, some (.append [104, 105] ⟨[⟨2, 1⟩], 1700000000, 1700000060, true⟩)),
      (some .backend, none), (some .backend, none), (some .backend, none), (some .backend, none),
      (some .backend, some .flush), (some (.append 1 [106]), none), (some .backend, none),
      (some .backend, none), (some .wake, none), (some .backend, none),
      (some .backend, some (.append [106] ⟨[⟨1, 0⟩], 1700000060, 0, true⟩))] rfl
  obtain ⟨records, rest, hkeeps⟩ := rotation_keeps_records hrun
  exact ⟨_, _, records, rest, _, hrun, rfl, rfl, rfl, rfl, hkeeps⟩

end ClwServer.AsyncLogging
